import Provenance.Text.Digits
import Provenance.Yaml.Cursor

/-!
# Plain and quoted scalars

Both may go over several lines. Where a line ends, blanks around the end are dropped; a single end of a
line becomes a space, and of several all but the first are kept.
-/

namespace Provenance.Yaml

/-- Blanks and line ends that belong to a scalar only if something follows them. Characters stand last
first. -/
structure Gap where
  /-- Blanks, as long as no line has ended. -/
  blanks : List Char
  /-- The first line end, unless it was escaped. -/
  first : Option Char
  /-- The further line ends. -/
  more : List Char
  /-- Whether a line has ended. -/
  broken : Bool

namespace Gap

/-- Nothing. -/
def empty : Gap := ⟨[], none, [], false⟩

/-- A line end that does not count. -/
def escaped : Gap := ⟨[], none, [], true⟩

/-- Whether there is nothing. -/
def isEmpty (g : Gap) : Bool := g.blanks.isEmpty && !g.broken

/-- One more character. -/
def add (g : Gap) (x : Char) : Gap :=
  if isBreak x then
    if g.broken then { g with more := x :: g.more } else ⟨[], some x, [], true⟩
  else if g.broken then g
  else { g with blanks := x :: g.blanks }

/-- What becomes of the gap inside a scalar, last character first. -/
def folded (g : Gap) : List Char :=
  if !g.broken then g.blanks
  else if g.first = some '\n' then if g.more.isEmpty then [' '] else g.more
  else g.more ++ g.first.toList

end Gap

/-- A scalar as far as it has been read, last character first, and what was read after it. -/
structure Folding where
  text : List Char
  gap : Gap

namespace Folding

/-- Nothing. -/
def empty : Folding := ⟨[], .empty⟩

/-- All that was read. -/
def all (f : Folding) : List Char := f.gap.folded ++ f.text

/-- One more character of the scalar. -/
def push (f : Folding) (x : Char) : Folding := ⟨x :: f.all, .empty⟩

/-- One more character of the gap. -/
def widen (f : Folding) (x : Char) : Folding := { f with gap := f.gap.add x }

end Folding

/-! ## Plain scalars -/

/-- Whether a character has a meaning inside brackets and braces. -/
def isFlowMark (c : Char) : Bool :=
  c = ',' || c = '[' || c = ']' || c = '{' || c = '}'

/-- Whether a plain scalar ends in front of a word that begins here. -/
def endsBeforeWord (flow : Bool) (indent : Int) (c : Cursor) : Bool :=
  (!flow && decide (c.column < indent)) || c.isAnyDocumentMark || c.isAt '#'

/-- A step through a plain scalar. -/
def plainStep (flow : Bool) (indent : Int) (f : Folding) (c : Cursor) : Option (Move Folding) :=
  match c.rest with
  | [] => some .stop
  | x :: _ =>
    if isBlank x || isBreak x then
      if f.gap.broken && x = '\t' && decide (c.column < indent) then none
      else some (.take 1 (f.widen x))
    else if !f.gap.isEmpty && endsBeforeWord flow indent c then some .stop
    else if flow && x = ':' && (c.peek? 1).any fun y => isFlowMark y || y = '?' then none
    else if (x = ':' && c.isSpaceAt 1) || (flow && isFlowMark x) then some .stop
    else some (.take 1 (f.push x))

/-- A plain scalar: its text, whether a line ended after it, and the place behind that. -/
def plain? (flow : Bool) (indent : Int) (c : Cursor) : Option (String × Bool × Cursor) := do
  let (f, c) ← c.scan (plainStep flow indent) .empty
  pure (String.ofList f.text.reverse, f.gap.broken, c)

/-! ## Quoted scalars -/

/-- The character that an escape with one letter stands for. -/
def ofEscape? (c : Char) : Option Char :=
  [('0', 0), ('a', 7), ('b', 8), ('t', 9), ('\t', 9), ('n', 10), ('v', 11), ('f', 12), ('r', 13),
    ('e', 27), (' ', 32), ('"', 34), ('\'', 39), ('/', 47), ('\\', 92), ('N', 0x85), ('_', 0xA0),
    ('L', 0x2028), ('P', 0x2029)].lookup c |>.map Char.ofNat

/-- How many hexadecimal digits follow a letter after a backslash. -/
def escapeDigits? (c : Char) : Option Nat := [('x', 2), ('u', 4), ('U', 8)].lookup c

/-- The character with a number, if there is one. -/
def charOf? (n : Nat) : Option Char := if n.isValidChar then some (Char.ofNat n) else none

/-- A step behind a backslash at the place of the cursor. -/
def escapeStep (f : Folding) (c : Cursor) : Option (Move Folding) := do
  let x ← c.peek? 1
  if isBreak x then some (.take 2 ⟨f.all, .escaped⟩)
  else
    match escapeDigits? x with
    | some count =>
      let digits := (c.rest.drop 2).take count
      let code ← Text.Digits.readHex? digits
      if digits.length = count then some (.take (2 + count) (f.push (← charOf? code))) else none
    | none => some (.take 2 (f.push (← ofEscape? x)))

/-- A step through a scalar between quotes of one kind. -/
def quotedStep (quote : Char) (f : Folding) (c : Cursor) : Option (Move Folding) :=
  match c.rest with
  | [] => none
  | x :: _ =>
    if isBlank x || isBreak x then some (.take 1 (f.widen x))
    else if c.isAnyDocumentMark then none
    else if x = quote then
      if quote = '\'' && c.peek? 1 = some '\'' then some (.take 2 (f.push x)) else some .stop
    else if quote = '"' && x = '\\' then escapeStep f c
    else some (.take 1 (f.push x))

/-- A quoted scalar that begins here, and the place behind it. -/
def quoted? (quote : Char) (c : Cursor) : Option (String × Cursor) := do
  let (f, c) ← c.next.scan (quotedStep quote) .empty
  pure (String.ofList f.all.reverse, c.next)

end Provenance.Yaml
