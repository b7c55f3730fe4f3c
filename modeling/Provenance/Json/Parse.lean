import Provenance.Json.Token

/-!
# Reading a JSON document

The tokens of a document are put together one after another. What has been read is a stack of arrays and
objects that are still open, innermost first, and a note on what may come next.
-/

namespace Provenance.Json

/-- An array or object that is not closed yet, what it holds so far standing last first. An object whose
name cannot be read is itself unreadable. -/
inductive Unclosed where
  | array (items : List Json)
  | object (fields : List (String × Json)) (readable : Bool)
  /-- An object after the name of its next field. -/
  | field (fields : List (String × Json)) (readable : Bool) (name : String)

/-- What may come next. -/
inductive Awaited where
  /-- A value. -/
  | value
  /-- The first item of an array, or its end. -/
  | firstItem
  /-- The first name of an object, or its end. -/
  | firstName
  /-- The name of a further field. -/
  | name
  /-- The colon after a name. -/
  | colon
  /-- A comma, or the end of the innermost array or object. -/
  | separator
  /-- Nothing: the document is complete. -/
  | nothing (document : Json)

/-- A document in the course of being read. -/
structure Assembly where
  openings : List Unclosed
  awaited : Awaited

namespace Assembly

/-- A finished value in its place. -/
def place (value : Json) : List Unclosed → Option Assembly
  | [] => some ⟨[], .nothing value⟩
  | .array items :: outer => some ⟨.array (value :: items) :: outer, .separator⟩
  | .field fields readable name :: outer =>
    some ⟨.object ((name, value) :: fields) readable :: outer, .separator⟩
  | .object .. :: _ => none

/-- The start of a value. -/
def placeToken (openings : List Unclosed) : Token → Option Assembly
  | .leaf value => place value openings
  | .openArray => some ⟨.array [] :: openings, .firstItem⟩
  | .openObject => some ⟨.object [] true :: openings, .firstName⟩
  | _ => none

/-- The end of the innermost array or object. -/
def close (openings : List Unclosed) : Token → Option Assembly
  | .closeArray =>
    match openings with
    | .array items :: outer => place (.array items.reverse) outer
    | _ => none
  | .closeObject =>
    match openings with
    | .object fields readable :: outer =>
      place (if readable then .object fields.reverse else .unreadable) outer
    | _ => none
  | _ => none

/-- The name of a field. -/
def placeName (openings : List Unclosed) : Token → Option Assembly
  | .leaf (.text name) =>
    match openings with
    | .object fields readable :: outer => some ⟨.field fields readable name :: outer, .colon⟩
    | _ => none
  | .leaf .unreadable =>
    match openings with
    | .object fields _ :: outer => some ⟨.field fields false "" :: outer, .colon⟩
    | _ => none
  | _ => none

/-- One more token. -/
def step (p : Assembly) (token : Token) : Option Assembly :=
  match p.awaited with
  | .value => placeToken p.openings token
  | .firstItem =>
    match token with
    | .closeArray => close p.openings token
    | token => placeToken p.openings token
  | .firstName =>
    match token with
    | .closeObject => close p.openings token
    | token => placeName p.openings token
  | .name => placeName p.openings token
  | .colon =>
    match token with
    | .colon => some ⟨p.openings, .value⟩
    | _ => none
  | .separator =>
    match token, p.openings with
    | .comma, .array items :: outer => some ⟨.array items :: outer, .value⟩
    | .comma, .object fields readable :: outer => some ⟨.object fields readable :: outer, .name⟩
    | token, openings => close openings token
  | .nothing _ => none

/-- The document, once nothing more may come. -/
def document? (p : Assembly) : Option Json :=
  match p.awaited with
  | .nothing value => some value
  | _ => none

end Assembly

/-- The document that a row of tokens makes. -/
def ofTokens? (tokens : List Token) : Option Json := do
  (← tokens.foldlM Assembly.step ⟨[], .value⟩).document?

/-- The document that a text holds, with all that cannot be read marked in it. -/
def parse? (text : String) : Option Json := do ofTokens? (← tokens? text.toList)

/-- The document that a text holds, if all of it can be read: the fields of its objects are sorted and
single. -/
def parseValue? (text : String) : Option Json := do (← parse? text).read? depthLimit

end Provenance.Json
