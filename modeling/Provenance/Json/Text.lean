import Provenance.Json.Basic

/-!
# The text of a JSON document

A document in one line without spaces, and one laid out over lines with two spaces for each level. Both
write fields in the order they stand in.
-/

namespace Provenance.Json

/-- A character as it stands inside a text: quotes, backslashes and control characters are escaped. -/
def escapeChar (c : Char) : List Char :=
  if c = '"' then ['\\', '"']
  else if c = '\\' then ['\\', '\\']
  else if c = '\n' then ['\\', 'n']
  else if c = '\r' then ['\\', 'r']
  else if c = '\t' then ['\\', 't']
  else if c.toNat = 8 then ['\\', 'b']
  else if c.toNat = 12 then ['\\', 'f']
  else if c.toNat < 32 then '\\' :: 'u' :: Text.Digits.writeHex 4 c.toNat
  else [c]

/-- A text between quotes. -/
def quote (s : String) : List Char :=
  '"' :: (s.toList.flatMap escapeChar ++ ['"'])

/-- The numeral of an integer. -/
def intChars (n : Int) : List Char :=
  if n < 0 then '-' :: Text.Digits.write n.natAbs else Text.Digits.write n.natAbs

/-- A value other than an array or an object. -/
def leafChars : Json → List Char
  | .bool true => ['t', 'r', 'u', 'e']
  | .bool false => ['f', 'a', 'l', 's', 'e']
  | .int n => intChars n
  | .float x => x.text
  | .text s => quote s
  | _ => ['n', 'u', 'l', 'l']

mutual

/-- The characters of the document in one line. -/
def chars : Json → List Char
  | .array items => '[' :: (itemChars items ++ [']'])
  | .object fields => '{' :: (fieldChars fields ++ ['}'])
  | value => leafChars value

def itemChars : List Json → List Char
  | [] => []
  | [item] => item.chars
  | item :: rest => item.chars ++ ',' :: itemChars rest

def fieldChars : List (String × Json) → List Char
  | [] => []
  | [(name, value)] => quote name ++ ':' :: value.chars
  | (name, value) :: rest => quote name ++ ':' :: (value.chars ++ ',' :: fieldChars rest)

end

/-- The document in one line. -/
def compact (value : Json) : String := String.ofList value.chars

/-- The start of a line at a level. -/
def newline (level : Nat) : List Char := '\n' :: List.replicate (2 * level) ' '

mutual

/-- The document over several lines, when its first line stands at the given level. -/
def prettyChars (level : Nat) : Json → List Char
  | .array [] => ['[', ']']
  | .array items => '[' :: (prettyItems (level + 1) items ++ newline level ++ [']'])
  | .object [] => ['{', '}']
  | .object fields => '{' :: (prettyFields (level + 1) fields ++ newline level ++ ['}'])
  | value => leafChars value

def prettyItems (level : Nat) : List Json → List Char
  | [] => []
  | [item] => newline level ++ item.prettyChars level
  | item :: rest => newline level ++ item.prettyChars level ++ ',' :: prettyItems level rest

def prettyFields (level : Nat) : List (String × Json) → List Char
  | [] => []
  | [(name, value)] => newline level ++ quote name ++ ':' :: ' ' :: value.prettyChars level
  | (name, value) :: rest =>
    newline level ++ quote name ++ ':' :: ' ' ::
      (value.prettyChars level ++ ',' :: prettyFields level rest)

end

/-- The document over several lines. -/
def pretty (value : Json) : String := String.ofList (value.prettyChars 0)

end Provenance.Json
