import Provenance.Decimal.Division
import Provenance.Decimal.Text
import Provenance.Json.Text
import Provenance.Text.Quoted

/-!
# Scalars

The payload of one cell: nothing, a truth value, an integer of 64 bits, a decimal or a text. Integers and
decimals are distinct: only comparison brings them together.
-/

namespace Provenance

/-- An integer of 64 bits with sign. -/
structure Integer where
  val : Int
  le_val : -9223372036854775808 ≤ val
  val_lt : val < 9223372036854775808
  deriving DecidableEq

namespace Integer

/-- The integer with a value, if it is in range. -/
def ofInt? (n : Int) : Option Integer :=
  if h : -9223372036854775808 ≤ n ∧ n < 9223372036854775808 then some ⟨n, h.1, h.2⟩ else none

instance : Inhabited Integer := ⟨⟨0, by decide, by decide⟩⟩

theorem val_inj {a b : Integer} (h : a.val = b.val) : a = b := by
  cases a; cases b; cases h; rfl

theorem ofInt?_eq_some_iff {n : Int} {i : Integer} : ofInt? n = some i ↔ i.val = n := by
  constructor
  · intro h
    unfold ofInt? at h
    split at h
    · cases h; rfl
    · cases h
  · intro h
    have hle := i.le_val
    have hlt := i.val_lt
    rw [h] at hle hlt
    rw [ofInt?, dif_pos ⟨hle, hlt⟩]
    exact congrArg some (val_inj h.symm)

theorem ofInt?_val (i : Integer) : ofInt? i.val = some i := ofInt?_eq_some_iff.2 rfl

/-- The count of the items of a list, which is never too large to be held in practice; a count out of
range would show as the largest integer. -/
def ofCount (n : Nat) : Integer :=
  if h : (n : Int) < 9223372036854775808 then ⟨n, by omega, h⟩ else ⟨9223372036854775807, by decide, by decide⟩

/-- The numeral of an integer. -/
def text (i : Integer) : String := Text.Digits.intText i.val

/-- The integer as a decimal. -/
def toDecimal (i : Integer) : Decimal :=
  Decimal.ofInt i.val (by have := i.le_val; have := i.val_lt; omega)

/-- The integer that a numeral with an optional sign stands for. -/
def read? (text : String) : Option Integer :=
  let digits (cs : List Char) : Option Int :=
    if cs ≠ [] ∧ cs.all Text.Digits.isDigit then some (Text.Digits.read cs) else none
  match text.toList with
  | '-' :: cs => do ofInt? (-(← digits cs))
  | '+' :: cs => do ofInt? (← digits cs)
  | cs => do ofInt? (← digits cs)

end Integer

/-- The declared type of a field. -/
inductive DataType where
  | integer
  | decimal
  | text
  | boolean
  deriving DecidableEq, Repr

namespace DataType

/-- Every data type with its name. -/
def names : List (String × DataType) :=
  [("integer", .integer), ("decimal", .decimal), ("text", .text), ("boolean", .boolean)]

/-- The name of a data type. -/
def name : DataType → String
  | .integer => "integer"
  | .decimal => "decimal"
  | .text => "text"
  | .boolean => "boolean"

/-- The data type with a name. -/
def ofName? (name : String) : Option DataType := names.lookup name

end DataType

/-- The payload of a cell. -/
inductive Scalar where
  | null
  | bool (value : Bool)
  | int (value : Integer)
  | decimal (value : Decimal)
  | text (value : String)
  deriving DecidableEq

namespace Scalar

instance : Inhabited Scalar := ⟨.null⟩

/-- Whether the payload is nothing. -/
def isNull : Scalar → Bool
  | .null => true
  | _ => false

/-- The data type of a payload; nothing has none. -/
def dataType? : Scalar → Option DataType
  | .null => none
  | .bool _ => some .boolean
  | .int _ => some .integer
  | .decimal _ => some .decimal
  | .text _ => some .text

/-- Whether a field of a data type may hold the payload. Every field may hold nothing. -/
def conforms (type : DataType) (s : Scalar) : Bool :=
  match s.dataType? with
  | none => true
  | some own => own == type

/-- Whether two payloads of one kind have one value; the scale of a decimal does not count, and nothing
equals nothing. Join keys and grouping use it. -/
def eqv : Scalar → Scalar → Bool
  | .null, .null => true
  | .bool a, .bool b => a == b
  | .int a, .int b => decide (a = b)
  | .decimal a, .decimal b => a.eqv b
  | .text a, .text b => a == b
  | _, _ => false

/-- The payload as it is shown in messages and labels. -/
def display : Scalar → String
  | .null => "null"
  | .bool true => "true"
  | .bool false => "false"
  | .int i => i.text
  | .decimal d => d.text
  | .text s => Text.quoted s

/-- The payload in a result set: a decimal is a text without the zeros that end it. -/
def toJson : Scalar → Json
  | .null => .null
  | .bool b => .bool b
  | .int i => .int i.val
  | .decimal d => .text d.normalize.text
  | .text s => .text s

/-- A numeric payload as a decimal. -/
def toDecimal? : Scalar → Option Decimal
  | .int i => some i.toDecimal
  | .decimal d => some d
  | _ => none

/-- The payload in a definition or a saved trail, tagged with its kind. -/
def encode : Scalar → Json
  | .null => .text "null"
  | .bool b => .object [("bool", .bool b)]
  | .int i => .object [("int", .int i.val)]
  | .decimal d => .object [("decimal", .text d.text)]
  | .text s => .object [("text", .text s)]

end Scalar

/-- The four operations on two numbers. -/
inductive ArithOp where
  | add
  | sub
  | mul
  | div
  deriving DecidableEq, Repr

/-- The sign of an operation. -/
def ArithOp.symbol : ArithOp → String
  | .add => "+"
  | .sub => "-"
  | .mul => "*"
  | .div => "/"

end Provenance
