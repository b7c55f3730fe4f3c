import Provenance.Scalar.Basic

/-!
# Keys

A key is a list of payloads. Two keys are the same if their payloads are equal one by one, decimals being
equal whatever their scales are. An index holds things under keys: the keys in the order in which they were
first met, and under each the things in the order in which they came.
-/

namespace Provenance

/-- The payloads that rows are matched or grouped by. -/
abbrev Key := List Scalar

namespace Key

/-- Whether two keys have equal parts. -/
def same : Key → Key → Bool
  | [], [] => true
  | a :: as, b :: bs => a.eqv b && same as bs
  | _, _ => false

/-- Whether a part of a key is nothing. -/
def hasNull (key : Key) : Bool := key.any Scalar.isNull

end Key

/-- What stands under one key. -/
structure KeyEntry (α : Type) where
  key : Key
  items : List α

/-- Things under keys. -/
abbrev KeyIndex (α : Type) := List (KeyEntry α)

namespace KeyIndex

/-- The index with one more thing, under the key that was there first if it is there already. -/
def add (key : Key) (item : α) : KeyIndex α → KeyIndex α
  | [] => [⟨key, [item]⟩]
  | entry :: rest =>
    if entry.key.same key then { entry with items := entry.items ++ [item] } :: rest
    else entry :: add key item rest

/-- The index of things with their keys. -/
def ofList (items : List (Key × α)) : KeyIndex α :=
  items.foldl (fun index item => add item.1 item.2 index) []

/-- What stands under a key. -/
def find (key : Key) : KeyIndex α → List α
  | [] => []
  | entry :: rest => if entry.key.same key then entry.items else find key rest

end KeyIndex

end Provenance
