import Provenance.Error
import Provenance.Text.Case

/-!
# Functions on scalars

Functions that expressions may call, known by their names. A function sees nothing but its arguments.
-/

namespace Provenance

/-- A function on scalars. -/
abbrev ScalarFunction := List Scalar → Except Error Scalar

/-- Named functions. -/
structure Functions where
  entries : List (String × ScalarFunction)

namespace Functions

/-- No functions. -/
def empty : Functions := ⟨[]⟩

/-- The functions with one more, which takes the place of one with the same name. -/
def register (fs : Functions) (name : String) (f : ScalarFunction) : Functions :=
  ⟨(name, f) :: fs.entries.filter fun entry => entry.1 ≠ name⟩

/-- The function with a name. -/
def get? (fs : Functions) (name : String) : Option ScalarFunction := fs.entries.lookup name

/-- The names of the functions in their order. -/
def names (fs : Functions) : List String :=
  (fs.entries.map Prod.fst).mergeSort fun a b => a ≤ b

/-- The result of calling a function. -/
def call (fs : Functions) (name : String) (args : List Scalar) : Except Error Scalar :=
  match fs.get? name with
  | some f => f args
  | none => .error (.unknownFunction name)

/-- The only argument of a function that takes one. -/
def single (name : String) : List Scalar → Except Error Scalar
  | [arg] => .ok arg
  | args => .error (.mismatch (.argumentCount name 1 args.length))

/-- The magnitude of a number. -/
def abs (args : List Scalar) : Except Error Scalar := do
  match ← single "abs" args with
  | .null => .ok .null
  | .int i =>
    match Integer.ofInt? i.val.natAbs with
    | some n => .ok (.int n)
    | none => .error (.overflow (.absolute i))
  | .decimal d => .ok (.decimal d.abs)
  | other => .error (.mismatch (.argument "abs" other))

/-- The first argument that is something. -/
def coalesce (args : List Scalar) : Except Error Scalar :=
  .ok ((args.find? fun arg => !arg.isNull).getD .null)

/-- The text of an argument in a concatenation; nothing has none. -/
def plain? : Scalar → Option String
  | .null => none
  | .text s => some s
  | .decimal d => some d.normalize.text
  | other => some other.display

/-- The texts of all arguments in a row, or nothing when one of them is nothing. -/
def concat (args : List Scalar) : Except Error Scalar :=
  match args.mapM plain? with
  | some texts => .ok (.text (String.join texts))
  | none => .ok .null

/-- A function of one text. -/
def onText (name : String) (f : String → String) (args : List Scalar) : Except Error Scalar := do
  match ← single name args with
  | .null => .ok .null
  | .text s => .ok (.text (f s))
  | other => .error (.mismatch (.argument name other))

/-- The functions that are always there. -/
def standard : Functions :=
  ⟨[("abs", abs), ("coalesce", coalesce), ("concat", concat), ("upper", onText "upper" Text.upper),
    ("lower", onText "lower" Text.lower)]⟩

end Functions

end Provenance
