import Provenance.Text.Digits
import Provenance.Yaml.Cursor
import Provenance.Yaml.Token

/-!
# Anchors, tags and directives

The parts of a YAML text that say something about what follows them.
-/

namespace Provenance.Yaml

/-- Whether a character may stand in a name. -/
def isNameChar (c : Char) : Bool := c.isAlphanum || c = '_' || c = '-'

/-! ## Anchors and aliases -/

/-- Whether a name may end in front of a character. -/
def endsName (c : Char) : Bool :=
  isBlank c || isBreak c || ['?', ':', ',', ']', '}', '%', '@', Char.ofNat 96].contains c

/-- The name behind the mark of an anchor or an alias, and the place behind it. -/
def name? (c : Cursor) : Option (String × Cursor) :=
  let (name, c) := c.next.takeWhile isNameChar
  if name ≠ [] ∧ (c.peek? 0).all endsName then some (String.ofList name, c) else none

/-! ## Tags -/

/-- Whether a character may stand in a tag as it is. -/
def isTagChar (c : Char) : Bool :=
  isNameChar c || [';', '/', '?', ':', '@', '&', '=', '+', '$', '.', '!', '~', '*', '\'', '(',
    ')'].contains c

/-- The byte that a percent sign and two hexadecimal digits stand for. -/
def octet? : List Char → Option (Nat × List Char)
  | '%' :: a :: b :: rest => do pure (16 * (← Text.Digits.hexValue? a) + (← Text.Digits.hexValue? b), rest)
  | _ => none

/-- The bytes after the first one of a character, added to its bits. -/
def furtherOctets? : Nat → Nat → List Char → Option (Nat × List Char)
  | 0, bits, cs => some (bits, cs)
  | count + 1, bits, cs => do
    let (octet, cs) ← octet? cs
    if octet / 64 = 2 then furtherOctets? count (64 * bits + octet % 64) cs else none

/-- The character that escaped bytes stand for. -/
def escapedChar? (cs : List Char) : Option (Char × List Char) := do
  let (octet, cs) ← octet? cs
  let (bits, cs) ←
    if octet < 0x80 then some (octet, cs)
    else if octet / 32 = 6 then furtherOctets? 1 (octet % 32) cs
    else if octet / 16 = 14 then furtherOctets? 2 (octet % 16) cs
    else if octet / 8 = 30 then furtherOctets? 3 (octet % 8) cs
    else none
  pure (Char.ofNat bits, cs)

/-- A step through a tag; in a whole one brackets and commas may stand, too. -/
def tagStep (whole : Bool) (text : List Char) (c : Cursor) : Option (Move (List Char)) :=
  match c.rest with
  | [] => some .stop
  | x :: _ =>
    if x = '%' then do
      let (escaped, rest) ← escapedChar? c.rest
      some (.take (c.rest.length - rest.length) (escaped :: text))
    else if isTagChar x || (whole && [',', '[', ']'].contains x) then some (.take 1 (x :: text))
    else some .stop

/-- The characters of a tag that begin here, after some that have been read. -/
def tagText? (whole : Bool) (before : List Char) (c : Cursor) : Option (List Char × Cursor) := do
  let (text, c) ← c.scan (tagStep whole) before.reverse
  pure (text.reverse, c)

/-- The handle of a tag, so far as it stands here: an exclamation mark, and a name up to the next one. -/
def handleChars (c : Cursor) : List Char × Cursor :=
  let (name, c) := c.next.takeWhile isNameChar
  if c.isAt '!' then ('!' :: (name ++ ['!']), c.next) else ('!' :: name, c)

/-- Whether characters are a handle with a name, or without one between two marks. -/
def isHandle (cs : List Char) : Bool := cs.length ≠ 1 && cs.getLast? = some '!'

/-- A tag that begins here, without regard to what follows it. -/
def tagBody? (c : Cursor) : Option (Token × Cursor) :=
  if c.peek? 1 = some '<' then do
    let (text, c) ← tagText? true [] (c.skip 2)
    if text ≠ [] ∧ c.isAt '>' then some (.tag "" (String.ofList text), c.next) else none
  else
    let (handle, c) := handleChars c
    if isHandle handle then do
      let (text, c) ← tagText? false [] c
      if text = [] then none else some (.tag (String.ofList handle) (String.ofList text), c)
    else do
      let (text, c) ← tagText? false (handle.drop 1) c
      some (if text = [] then .tag "" "!" else .tag "!" (String.ofList text), c)

/-- A tag that begins here, and the place behind it. -/
def tag? (flow : Bool) (c : Cursor) : Option (Token × Cursor) := do
  let (token, c) ← tagBody? c
  if c.isSpaceAt 0 || (flow && c.isAt ',') then some (token, c) else none

/-! ## Directives -/

/-- A number of a version, of at most nine digits. -/
def versionPart? (c : Cursor) : Option (Nat × Cursor) :=
  let (digits, c) := c.takeWhile Text.Digits.isDigit
  if digits = [] ∨ 9 < digits.length then none else some (Text.Digits.read digits, c)

/-- The version of a document. -/
def version? (c : Cursor) : Option (Token × Cursor) := do
  let (major, c) ← versionPart? c.skipBlanks
  if c.isAt '.' then
    let (minor, c) ← versionPart? c.next
    some (.version major minor, c)
  else none

/-- A handle and what it stands for. -/
def handle? (c : Cursor) : Option (Token × Cursor) := do
  let c := c.skipBlanks
  if !c.isAt '!' then none
  else
    let (handle, c) := handleChars c
    if (handle = ['!'] ∨ isHandle handle) ∧ (c.peek? 0).any isBlank then
      let (text, c) ← tagText? true [] c.skipBlanks
      if text ≠ [] ∧ c.isSpaceAt 0 then
        some (.handle (String.ofList handle) (String.ofList text), c)
      else none
    else none

/-- A directive that begins here, and the next line. -/
def directive? (c : Cursor) : Option (Token × Cursor) := do
  let (name, c) := c.next.takeWhile isNameChar
  if !c.isSpaceAt 0 then none
  else
    let (token, c) ←
      if name = ['Y', 'A', 'M', 'L'] then version? c
      else if name = ['T', 'A', 'G'] then handle? c
      else none
    some (token, ← c.restOfLine?)

end Provenance.Yaml
