import Provenance.Text.Digits
import Provenance.Yaml.Cursor

/-!
# Block scalars

A block scalar stands in the lines below its indicator, as far as they are indented. Its lines are taken
as they are, or folded; what becomes of the line ends after the last one is up to the indicator.
-/

namespace Provenance.Yaml

/-- What becomes of the line ends at the end of a block scalar. -/
inductive Chomping where
  | strip
  /-- The first one is kept. -/
  | clip
  | keep
  deriving DecidableEq

/-- What stands behind the indicator of a block scalar. -/
structure BlockHeader where
  chomping : Chomping
  /-- By how much more than what surrounds it the block is indented, if that is said. -/
  increment : Option Nat

namespace BlockHeader

/-- The sign for what becomes of the line ends, if it stands here. -/
def chomping? (c : Cursor) : Option Chomping :=
  if c.isAt '+' then some .keep else if c.isAt '-' then some .strip else none

/-- The digit that stands here. -/
def digit? (c : Cursor) : Option Nat :=
  (c.peek? 0).bind fun x => if Text.Digits.isDigit x then some (Text.Digits.value x) else none

/-- The header that stands here, and the place behind it. Sign and digit may stand in either order. -/
def read? (c : Cursor) : Option (BlockHeader × Cursor) :=
  match chomping? c with
  | some chomping =>
    let c := c.next
    match digit? c with
    | some n => if n = 0 then none else some (⟨chomping, some n⟩, c.next)
    | none => some (⟨chomping, none⟩, c)
  | none =>
    match digit? c with
    | some n =>
      let c := c.next
      if n = 0 then none
      else
        match chomping? c with
        | some chomping => some (⟨chomping, some n⟩, c.next)
        | none => some (⟨.clip, some n⟩, c)
    | none => some (⟨.clip, none⟩, c)

end BlockHeader

/-- A block scalar as far as it has been read; characters stand last first. -/
structure BlockScan where
  /-- The indentation of the block, once it is known. -/
  indent : Option Nat
  /-- The deepest column that a line reached before the indentation was known. -/
  deepest : Nat
  inLine : Bool
  /-- Whether the last line began with a blank. -/
  afterBlank : Bool
  text : List Char
  /-- The end of the last line. -/
  first : Option Char
  /-- The ends of the empty lines after it. -/
  more : List Char

namespace BlockScan

/-- The text and the line ends after it. -/
def joined (s : BlockScan) : List Char := s.more ++ (s.first.toList ++ s.text)

/-- The text and the line ends after it, when one more line follows: folded between two lines that do not
begin with a blank. -/
def beforeLine (literal blank : Bool) (s : BlockScan) : List Char :=
  if !literal && s.first = some '\n' && !s.afterBlank && !blank then
    (if s.more.isEmpty then [' '] else s.more) ++ s.text
  else s.joined

/-- A step between two lines. -/
def stepBetween (literal : Bool) (outer : Int) (s : BlockScan) (c : Cursor) :
    Option (Move BlockScan) :=
  let isIndentation := (s.indent.map fun n => decide (c.column < n)).getD true
  if isIndentation && c.isAt ' ' then some (.take 1 s)
  else if isIndentation && c.isAt '\t' then none
  else
    let s := { s with deepest := max s.deepest c.column }
    match c.rest with
    | [] => some .stop
    | x :: _ =>
      if isBreak x then some (.take 1 { s with more := x :: s.more })
      else
        let indent := s.indent.getD (max s.deepest (max (outer + 1).toNat 1))
        if c.column = indent then
          let text := x :: s.beforeLine literal (isBlank x)
          some (.take 1 ⟨some indent, s.deepest, true, isBlank x, text, none, []⟩)
        else some .stop

/-- A step through a block scalar. -/
def step (literal : Bool) (outer : Int) (s : BlockScan) (c : Cursor) : Option (Move BlockScan) :=
  if s.inLine then
    match c.rest with
    | [] => some .stop
    | x :: _ =>
      if isBreak x then some (.take 1 { s with inLine := false, first := some x })
      else some (.take 1 { s with text := x :: s.text })
  else stepBetween literal outer s c

/-- The whole scalar. -/
def result (chomping : Chomping) (s : BlockScan) : String :=
  String.ofList (match chomping with
    | .strip => s.text
    | .clip => s.first.toList ++ s.text
    | .keep => s.joined).reverse

end BlockScan

/-- A block scalar whose indicator stands here, inside a block indented by `outer`, and the place behind
it. -/
def block? (literal : Bool) (outer : Int) (c : Cursor) : Option (String × Cursor) := do
  let (header, c) ← BlockHeader.read? c.next
  let c ← c.restOfLine?
  let indent := header.increment.map fun n => (max outer 0).toNat + n
  let (s, c) ← c.scan (BlockScan.step literal outer) ⟨indent, 0, false, false, [], none, []⟩
  pure (s.result header.chomping, c)

end Provenance.Yaml
