import Provenance.Number.Double

/-!
# Documents of the JSON format

The values of a document, the order that canonical objects keep their fields in, and the values that a
document may be read as: those that nest within a limit and whose numerals and texts can be held.
-/

namespace Provenance

/-- A value as it stands in a document. Fields keep the order and the repetitions of the document. A
numeral out of range and a text that is no sequence of characters are well formed but cannot be read:
they do no harm where nobody asks for them. -/
inductive Json where
  | null
  | bool (value : Bool)
  | int (value : Int)
  | float (value : Number.Double)
  | text (value : String)
  | array (items : List Json)
  | object (fields : List (String × Json))
  | unreadable

namespace Json

/-- The integers that a document can hold without becoming fractions. -/
def leastInt : Int := -(1 <<< 63 : Nat)

/-- One more than the largest integer that a document can hold. -/
def intBound : Int := (1 <<< 64 : Nat)

/-- How many arrays and objects may stand inside each other. -/
def depthLimit : Nat := 127

/-- The fields with one of them set, in the order of their names. -/
def setField (name : String) (value : α) : List (String × α) → List (String × α)
  | [] => [(name, value)]
  | (other, old) :: rest =>
    if name < other then (name, value) :: (other, old) :: rest
    else if name = other then (name, value) :: rest
    else (other, old) :: setField name value rest

/-- The fields in the order of their names; of fields with one name the last. -/
def sortFields (fields : List (String × α)) : List (String × α) :=
  fields.foldl (fun sorted field => setField field.1 field.2 sorted) []

mutual

/-- The value with the fields of every object sorted and single, if everything in it can be read and
no more than `depth` arrays and objects stand inside each other. -/
def read? (depth : Nat) : Json → Option Json
  | .unreadable => none
  | .array items =>
    match depth with
    | 0 => none
    | depth + 1 => (readItems? depth items).map .array
  | .object fields =>
    match depth with
    | 0 => none
    | depth + 1 => (readFields? depth fields).map fun fields => .object (sortFields fields)
  | value => some value

def readItems? (depth : Nat) : List Json → Option (List Json)
  | [] => some []
  | item :: rest => do
    let item ← item.read? depth
    let rest ← readItems? depth rest
    pure (item :: rest)

def readFields? (depth : Nat) : List (String × Json) → Option (List (String × Json))
  | [] => some []
  | (name, value) :: rest => do
    let value ← value.read? depth
    let rest ← readFields? depth rest
    pure ((name, value) :: rest)

end

mutual

/-- The value with the fields of every object sorted and single. -/
def sorted : Json → Json
  | .array items => .array (sortedItems items)
  | .object fields => .object (sortFields (sortedFields fields))
  | value => value

def sortedItems : List Json → List Json
  | [] => []
  | item :: rest => item.sorted :: sortedItems rest

def sortedFields : List (String × Json) → List (String × Json)
  | [] => []
  | (name, value) :: rest => (name, value.sorted) :: sortedFields rest

end

/-- The fields of an object. -/
def toObject? : Json → Option (List (String × Json))
  | .object fields => some fields
  | _ => none

/-- The value of a field of an object with single fields. -/
def get? (name : String) : Json → Option Json
  | .object fields => fields.lookup name
  | _ => none

end Json

end Provenance
