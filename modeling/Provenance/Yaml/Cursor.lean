/-!
# Places in a YAML text

A cursor stands between two characters of a text and knows its line and column. What is read from it on is
decided one step at a time: a step looks at what follows and takes some of it, or stops.
-/

namespace Provenance.Yaml

/-- Whether a character ends a line. -/
def isBreak (c : Char) : Bool := c = '\n' || c.toNat = 0x2028 || c.toNat = 0x2029

/-- Whether a character is a space or a tab. -/
def isBlank (c : Char) : Bool := c = ' ' || c = '\t'

/-- Whether a character may stand in a text. -/
def isAllowed (c : Char) : Bool :=
  let n := c.toNat
  n = 9 || n = 10 || n = 13 || (32 ≤ n && n ≤ 126) || n = 0x85 || (0xA0 ≤ n && n ≤ 0xD7FF) ||
    (0xE000 ≤ n && n ≤ 0xFFFD && n ≠ 0xFEFF) || 0x10000 ≤ n

/-- A text in which lines end in one way only, so far as they end as lines usually do. -/
def unifyBreaks : List Char → List Char
  | '\r' :: '\n' :: rest => '\n' :: unifyBreaks rest
  | c :: rest => (if c = '\r' || c.toNat = 0x85 then '\n' else c) :: unifyBreaks rest
  | [] => []

/-- A place in a text. Lines and columns are counted from zero. -/
structure Cursor where
  rest : List Char
  index : Nat
  line : Nat
  column : Nat

namespace Cursor

/-- The beginning of a text, if all of its characters may stand there. A mark of the byte order in front
does not belong to the text. -/
def start? (text : String) : Option Cursor :=
  let cs := text.toList
  let cs := if cs.head?.any fun c => c.toNat = 0xFEFF then cs.drop 1 else cs
  if cs.all isAllowed then some ⟨unifyBreaks cs, 0, 0, 0⟩ else none

/-- The place behind the next character. -/
def next (c : Cursor) : Cursor :=
  match c.rest with
  | [] => c
  | x :: rest =>
    if isBreak x then ⟨rest, c.index + 1, c.line + 1, 0⟩
    else ⟨rest, c.index + 1, c.line, c.column + 1⟩

/-- The place behind some characters. -/
def skip : Nat → Cursor → Cursor
  | 0, c => c
  | n + 1, c => skip n c.next

/-- The character at a distance. -/
def peek? (c : Cursor) (distance : Nat) : Option Char := c.rest[distance]?

/-- Whether a character stands right here. -/
def isAt (c : Cursor) (x : Char) : Bool := c.rest.head? == some x

/-- Whether there is space, a line's end or the end of the text at a distance. -/
def isSpaceAt (c : Cursor) (distance : Nat) : Bool :=
  match c.peek? distance with
  | some x => isBlank x || isBreak x
  | none => true

/-- Whether a line's end or the end of the text comes next. -/
def isLineEnd (c : Cursor) : Bool :=
  match c.rest with
  | x :: _ => isBreak x
  | [] => true

/-- Whether a line begins here with a mark between documents. -/
def isDocumentMark (c : Cursor) (x : Char) : Bool :=
  c.column = 0 && c.rest.take 3 = [x, x, x] && c.isSpaceAt 3

/-- Whether a line begins here with the mark of a document's start or end. -/
def isAnyDocumentMark (c : Cursor) : Bool := c.isDocumentMark '-' || c.isDocumentMark '.'

/-- The characters from here on that have a property, and the place behind them. -/
def takeWhile (p : Char → Bool) (c : Cursor) : List Char × Cursor :=
  let taken := c.rest.takeWhile p
  (taken, c.skip taken.length)

/-- The place behind blanks. -/
def skipBlanks (c : Cursor) : Cursor := (c.takeWhile isBlank).2

/-- The next line, if there is nothing but blanks and a comment before it. -/
def restOfLine? (c : Cursor) : Option Cursor :=
  let c := c.skipBlanks
  let c := if c.isAt '#' then (c.takeWhile fun x => !isBreak x).2 else c
  if c.isLineEnd then some c.next else none

end Cursor

/-- What a step does: it stops in front of what follows, or takes some characters. -/
inductive Move (σ : Type) where
  | stop
  | take (count : Nat) (state : σ)

namespace Cursor

/-- Takes steps until one stops, but no more than `fuel`. -/
def run (step : σ → Cursor → Option (Move σ)) : Nat → σ → Cursor → Option (σ × Cursor)
  | 0, s, c => some (s, c)
  | fuel + 1, s, c => do
    match ← step s c with
    | .stop => some (s, c)
    | .take count s => run step fuel s (c.skip count)

/-- Takes steps until one stops. Every step takes a character, so there are no more than characters. -/
def scan (step : σ → Cursor → Option (Move σ)) (s : σ) (c : Cursor) : Option (σ × Cursor) :=
  c.run step (c.rest.length + 1) s

end Cursor

end Provenance.Yaml
