import Provenance.Json.Basic
import Provenance.Yaml.Node

/-!
# What scalars stand for

A plain scalar may stand for nothing, a truth value or a number; every other one is a text. A tag of the
core schema says what a scalar has to be.
-/

namespace Provenance.Yaml

/-- A tag of the core schema. -/
def coreTag (name : String) : String := "tag:yaml.org,2002:" ++ name

/-- Whether a tag names a type of the application. -/
def isLocalTag (tag : Option String) : Bool := tag.any fun t => t.toList.head? = some '!'

/-- Whether a text is a word for nothing. -/
def isNullWord (text : String) : Bool := ["null", "Null", "NULL", "~"].contains text

/-- The truth value that a text is a word for. -/
def boolOf? (text : String) : Option Bool :=
  if ["true", "True", "TRUE"].contains text then some true
  else if ["false", "False", "FALSE"].contains text then some false
  else none

/-! ## Integers -/

/-- The value of a digit in a base of at most sixteen. -/
def digitOf? (base : Nat) (c : Char) : Option Nat :=
  (Text.Digits.hexValue? c).bind fun d => if d < base then some d else none

/-- The number that a row of digits stands for. -/
def natOf? (base : Nat) (digits : List Char) : Option Nat :=
  if digits = [] then none
  else (digits.mapM (digitOf? base)).map fun ds => ds.foldl (fun n d => base * n + d) 0

/-- The number that digits stand for behind the mark of their base. -/
def basedOf? : List Char → Option Nat
  | '0' :: 'x' :: digits => natOf? 16 digits
  | '0' :: 'o' :: digits => natOf? 8 digits
  | '0' :: 'b' :: digits => natOf? 2 digits
  | _ => none

/-- The number that digits without a sign stand for. A row of several decimal digits that begins with zero
is no number. -/
def magnitudeOf? (cs : List Char) : Option Nat :=
  match basedOf? cs with
  | some n => some n
  | none => if cs.head? = some '0' ∧ cs.length ≠ 1 then none else natOf? 10 cs

/-- The integer that a text stands for, if it has no minus sign. -/
def unsignedOf? (text : String) : Option Nat :=
  match text.toList with
  | '+' :: cs => magnitudeOf? cs
  | cs => magnitudeOf? cs

/-- The integer that a text with a minus sign stands for. -/
def negativeOf? (text : String) : Option Int :=
  match text.toList with
  | '-' :: cs => (magnitudeOf? cs).map fun n => -(n : Int)
  | _ => none

/-- The integer that a text stands for. -/
def intOf? (text : String) : Option Int :=
  match unsignedOf? text with
  | some n => some n
  | none => negativeOf? text

/-! ## Fractions -/

/-- The exponent behind its letter. -/
def exponentOf? (cs : List Char) : Option Int :=
  match cs with
  | '-' :: digits => (natOf? 10 digits).map fun n => -(n : Int)
  | '+' :: digits => (natOf? 10 digits).map fun n => (n : Int)
  | digits => (natOf? 10 digits).map fun n => (n : Int)

/-- The parts of a number in scientific notation: its digits, how many of them follow the point, and the
exponent. -/
def scientificOf? (cs : List Char) : Option (List Char × Nat × Int) :=
  let whole := cs.takeWhile Text.Digits.isDigit
  let rest := cs.dropWhile Text.Digits.isDigit
  let (fraction, rest) := match rest with
    | '.' :: rest => (rest.takeWhile Text.Digits.isDigit, rest.dropWhile Text.Digits.isDigit)
    | rest => ([], rest)
  if whole = [] ∧ fraction = [] then none
  else
    match rest with
    | [] => some (whole ++ fraction, fraction.length, 0)
    | c :: rest =>
      if c = 'e' ∨ c = 'E' then
        (exponentOf? rest).map fun e => (whole ++ fraction, fraction.length, e)
      else none

/-- The finite number that a text stands for. -/
def finiteOf? (text : String) : Option Number.Double := do
  let (negative, cs) := match text.toList with
    | '-' :: cs => (true, cs)
    | '+' :: cs => (false, cs)
    | cs => (false, cs)
  let (digits, places, exponent) ← scientificOf? cs
  Number.Double.ofParts? negative (Text.Digits.read digits) (exponent - places)

/-- Whether a text is a word for a number that is not finite. -/
def isInfiniteWord (text : String) : Bool :=
  [".inf", ".Inf", ".INF", "+.inf", "+.Inf", "+.INF", "-.inf", "-.Inf", "-.INF", ".nan", ".NaN",
    ".NAN"].contains text

/-- The number that a text stands for. One that is not finite can stand nowhere. -/
def numberOf? (text : String) : Option Json :=
  if isInfiniteWord text then some .unreadable else (finiteOf? text).map .float

/-! ## Scalars -/

/-- The largest integer of 128 bits. -/
def wideBound : Int := (1 <<< 128 : Nat)

/-- Whether a text is a row of several decimal digits that begins with zero. -/
def isPaddedRow (text : String) : Bool :=
  let cs := match text.toList with
    | '-' :: cs => cs
    | '+' :: cs => cs
    | cs => cs
  cs.length ≠ 1 && cs.head? = some '0' && cs.all Text.Digits.isDigit

/-- What an integer stands for: itself, if it is not too large, and nothing that can be read up to 128
bits. -/
def ofInt? (n : Int) : Option (Option Json) :=
  if Json.leastInt ≤ n ∧ n < Json.intBound then some (some (.int n))
  else if -wideBound ≤ 2 * n ∧ n < wideBound then some none
  else none

/-- What a plain scalar stands for. -/
def ofPlain? (text : String) : Option Json :=
  if text = "" ∨ isNullWord text then some .null
  else
    match boolOf? text with
    | some b => some (.bool b)
    | none =>
      match (intOf? text).bind ofInt? with
      | some value => value
      | none =>
        if isPaddedRow text then some (.text text) else some ((numberOf? text).getD (.text text))

/-- What a scalar stands for. -/
def ofScalar? (style : Style) (tag : Option String) (text : String) : Option Json :=
  match tag with
  | none => if style = .plain then ofPlain? text else some (.text text)
  | some tag =>
    if isLocalTag (some tag) then none
    else if tag = coreTag "bool" then (boolOf? text).map .bool
    else if tag = coreTag "int" then ((intOf? text).bind ofInt?).join
    else if tag = coreTag "float" then numberOf? text
    else if tag = coreTag "null" then if isNullWord text then some .null else none
    else some (.text text)

end Provenance.Yaml
