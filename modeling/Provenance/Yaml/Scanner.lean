import Provenance.Yaml.Block
import Provenance.Yaml.Flow
import Provenance.Yaml.Property

/-!
# From a YAML text to its tokens

Whether something is a key shows only at the colon behind it. A place where a key may begin is remembered,
and the tokens that announce the key are put there once the colon is met: in the same line and not too far
behind. A block begins where something is indented deeper than what surrounds it, and ends where something
is indented less.
-/

namespace Provenance.Yaml

/-- A place where a key may have begun. -/
structure KeyPlace where
  /-- How many tokens there are before it. -/
  tokens : Nat
  /-- Whether a key has to be there: it stands where the keys of a block begin. -/
  required : Bool
  index : Nat
  line : Nat
  column : Nat

namespace KeyPlace

/-- How many characters may lie between the beginning of a key and its colon. -/
def reach : Nat := 1024

/-- Whether the colon of a key that begins there would come too late. -/
def isStale (k : KeyPlace) (c : Cursor) : Bool :=
  decide (k.line < c.line) || decide (k.index + reach < c.index)

/-- The place, if a key may still have begun there. A key that has to be there must not be missing. -/
def refresh? (c : Cursor) : Option KeyPlace → Option (Option KeyPlace)
  | none => some none
  | some k => if !k.isStale c then some (some k) else if k.required then none else some none

end KeyPlace

/-- A text as far as its tokens have been made out. -/
structure Scanner where
  cursor : Cursor
  /-- The tokens, last first. -/
  tokens : List Token
  /-- Where a key may have begun in the innermost brackets or braces. -/
  keyPlace : Option KeyPlace
  /-- Where keys may have begun around the brackets and braces that are open, innermost first. -/
  outerKeys : List (Option KeyPlace)
  /-- The column of the innermost block, or -1 outside of all. -/
  indent : Int
  /-- The columns of the blocks around it, innermost first. -/
  outer : List Int
  /-- Whether a key may begin here. -/
  keyAllowed : Bool

namespace Scanner

/-- The beginning of a text. -/
def start (c : Cursor) : Scanner := ⟨c, [], none, [], -1, [], true⟩

/-- Whether brackets or braces are open. -/
def inFlow (s : Scanner) : Bool := !s.outerKeys.isEmpty

/-- One more token. -/
def push (s : Scanner) (t : Token) : Scanner := { s with tokens := t :: s.tokens }

/-- One more token, for the next character. -/
def pushMark (s : Scanner) (t : Token) : Scanner := { s.push t with cursor := s.cursor.next }

/-- A token with a given number of tokens before it. -/
def insertAt (s : Scanner) (before : Nat) (t : Token) : Scanner :=
  let after := s.tokens.length - before
  { s with tokens := s.tokens.take after ++ t :: s.tokens.drop after }

/-! ## Between tokens -/

/-- A step through the space between two tokens: whether a key may begin after it, and whether it goes
through a comment. -/
def spaceStep (flow : Bool) (state : Bool × Bool) (c : Cursor) : Option (Move (Bool × Bool)) :=
  let (keyAllowed, comment) := state
  match c.rest with
  | [] => some .stop
  | x :: _ =>
    if isBreak x then some (.take 1 (keyAllowed || !flow, false))
    else if comment then some (.take 1 state)
    else if x = ' ' || (x = '\t' && (flow || !keyAllowed)) then some (.take 1 state)
    else if x = '#' then some (.take 1 (keyAllowed, true))
    else some .stop

/-- The place of the next token. -/
def skipSpace? (s : Scanner) : Option Scanner := do
  let ((keyAllowed, _), cursor) ← s.cursor.scan (spaceStep s.inFlow) (s.keyAllowed, false)
  pure { s with cursor, keyAllowed }

/-- Forgets places where no key can have begun any more. -/
def refreshKeys? (s : Scanner) : Option Scanner := do
  let keyPlace ← KeyPlace.refresh? s.cursor s.keyPlace
  let outerKeys ← s.outerKeys.mapM (KeyPlace.refresh? s.cursor)
  pure { s with keyPlace, outerKeys }

/-- The blocks and tokens once all blocks are ended that are indented deeper than a column. -/
def endBlocks (column : Int) : Int → List Int → List Token → Int × List Int × List Token
  | indent, [], tokens => (indent, [], tokens)
  | indent, next :: outer, tokens =>
    if column < indent then endBlocks column next outer (.blockEnd :: tokens)
    else (indent, next :: outer, tokens)

/-- Ends all blocks that are indented deeper than a column. -/
def unindent (s : Scanner) (column : Int) : Scanner :=
  if s.inFlow then s
  else
    let (indent, outer, tokens) := endBlocks column s.indent s.outer s.tokens
    { s with indent, outer, tokens }

/-- Begins a block at a column, if there is none yet. -/
def indentTo (s : Scanner) (column : Nat) (before : Nat) (t : Token) : Scanner :=
  if s.inFlow || decide ((column : Int) ≤ s.indent) then s
  else { s.insertAt before t with indent := column, outer := s.indent :: s.outer }

/-- Begins a block right here, if there is none yet. -/
def indentHere (s : Scanner) (t : Token) : Scanner :=
  s.indentTo s.cursor.column s.tokens.length t

/-! ## Keys -/

/-- Forgets that a key may have begun; one that has to be there must not be missing. -/
def dropKey? (s : Scanner) : Option Scanner :=
  if s.keyPlace.any KeyPlace.required then none else some { s with keyPlace := none }

/-- Remembers that a key may begin here. -/
def saveKey? (s : Scanner) : Option Scanner :=
  if s.keyAllowed then do
    let required := !s.inFlow && decide (s.indent = s.cursor.column)
    let s ← s.dropKey?
    let c := s.cursor
    pure { s with keyPlace := some ⟨s.tokens.length, required, c.index, c.line, c.column⟩ }
  else some s

/-! ## Tokens -/

/-- Ends everything, as at a mark between documents. -/
def closeAll? (s : Scanner) : Option Scanner := do
  let s ← (s.unindent (-1)).dropKey?
  pure { s with keyAllowed := false }

/-- A mark between documents. -/
def documentMark? (s : Scanner) (t : Token) : Option Scanner := do
  let s ← s.closeAll?
  pure { s.push t with cursor := s.cursor.skip 3 }

/-- A directive. -/
def directive? (s : Scanner) : Option Scanner := do
  let s ← s.closeAll?
  let (t, cursor) ← Yaml.directive? s.cursor
  pure { s.push t with cursor }

/-- An opening bracket or brace. -/
def openFlow? (s : Scanner) (t : Token) : Option Scanner := do
  let s ← s.saveKey?
  pure { s.pushMark t with keyPlace := none, outerKeys := s.keyPlace :: s.outerKeys, keyAllowed := true }

/-- A closing bracket or brace. -/
def closeFlow? (s : Scanner) (t : Token) : Option Scanner := do
  let s ← s.dropKey?
  let s := { s.pushMark t with keyAllowed := false }
  match s.outerKeys with
  | keyPlace :: outerKeys => pure { s with keyPlace, outerKeys }
  | [] => pure s

/-- A comma. -/
def flowEntry? (s : Scanner) : Option Scanner := do
  let s ← s.dropKey?
  pure { s.pushMark .flowEntry with keyAllowed := true }

/-- A dash in front of an item. -/
def blockEntry? (s : Scanner) : Option Scanner := do
  if !s.inFlow && !s.keyAllowed then none
  else
    let s ← (s.indentHere .blockSequenceStart).dropKey?
    pure { s.pushMark .blockEntry with keyAllowed := true }

/-- A question mark in front of a key. -/
def key? (s : Scanner) : Option Scanner := do
  if !s.inFlow && !s.keyAllowed then none
  else
    let s ← (s.indentHere .blockMappingStart).dropKey?
    pure { s.pushMark .key with keyAllowed := !s.inFlow }

/-- A colon. -/
def value? (s : Scanner) : Option Scanner :=
  match s.keyPlace with
  | some k =>
    let s := (s.insertAt k.tokens .key).indentTo k.column k.tokens .blockMappingStart
    some { s.pushMark .value with keyPlace := none, keyAllowed := false }
  | none =>
    if !s.inFlow && !s.keyAllowed then none
    else
      let s := s.indentHere .blockMappingStart
      some { s.pushMark .value with keyAllowed := !s.inFlow }

/-- Something that a key may begin with. -/
def node? (s : Scanner) (read : Cursor → Option (Token × Cursor)) : Option Scanner := do
  let s ← s.saveKey?
  let (t, cursor) ← read s.cursor
  pure { s.push t with cursor, keyAllowed := false }

/-- A block scalar. -/
def blockScalar? (s : Scanner) (literal : Bool) : Option Scanner := do
  let s ← s.dropKey?
  let (text, cursor) ← block? literal s.indent s.cursor
  let style := if literal then Style.literal else .other
  pure { s.push (.scalar style text) with cursor, keyAllowed := true }

/-- A plain scalar. A key may begin after it where a line has ended. -/
def plainScalar? (s : Scanner) : Option Scanner := do
  let s ← s.saveKey?
  let (text, broken, cursor) ← plain? s.inFlow (s.indent + 1) s.cursor
  pure { s.push (.scalar .plain text) with cursor, keyAllowed := broken }

/-- A scalar between quotes. -/
def quotedToken? (quote : Char) (c : Cursor) : Option (Token × Cursor) := do
  let (text, c) ← quoted? quote c
  pure (.scalar .other text, c)

/-- An anchor or an alias. -/
def nameToken? (make : String → Token) (c : Cursor) : Option (Token × Cursor) := do
  let (name, c) ← name? c
  pure (make name, c)

/-- Whether a plain scalar may begin with a character where it stands. -/
def startsPlain (s : Scanner) (x : Char) : Bool :=
  if x = '-' then !(s.cursor.peek? 1).any isBlank
  else if x = '?' || x = ':' then !s.inFlow && !s.cursor.isSpaceAt 1
  else !([',', '[', ']', '{', '}', '#', '&', '*', '!', '|', '>', '\'', '"', '%', '@',
    Char.ofNat 96].contains x || isBlank x || isBreak x)

/-- The token that begins with a character. -/
def token? (s : Scanner) (x : Char) : Option Scanner :=
  let c := s.cursor
  if c.column = 0 && x = '%' then s.directive?
  else if c.isDocumentMark '-' then s.documentMark? .documentStart
  else if c.isDocumentMark '.' then s.documentMark? .documentEnd
  else if x = '[' then s.openFlow? .flowSequenceStart
  else if x = '{' then s.openFlow? .flowMappingStart
  else if x = ']' then s.closeFlow? .flowSequenceEnd
  else if x = '}' then s.closeFlow? .flowMappingEnd
  else if x = ',' then s.flowEntry?
  else if x = '-' && c.isSpaceAt 1 then s.blockEntry?
  else if x = '?' && (s.inFlow || c.isSpaceAt 1) then s.key?
  else if x = ':' && (s.inFlow || c.isSpaceAt 1) then s.value?
  else if x = '*' then s.node? (nameToken? .alias)
  else if x = '&' then s.node? (nameToken? .anchor)
  else if x = '!' then s.node? (tag? s.inFlow)
  else if x = '|' && !s.inFlow then s.blockScalar? true
  else if x = '>' && !s.inFlow then s.blockScalar? false
  else if x = '\'' || x = '"' then s.node? (quotedToken? x)
  else if s.startsPlain x then s.plainScalar?
  else none

/-- The tokens from here on, last first. Every token takes a character, so `fuel` is enough if there are
no more characters. -/
def finish? : Nat → Scanner → Option (List Token)
  | 0, _ => none
  | fuel + 1, s => do
    let s ← s.skipSpace?
    let s ← s.refreshKeys?
    let s := s.unindent s.cursor.column
    match s.cursor.rest with
    | [] => do pure (← s.closeAll?).tokens
    | x :: _ => do finish? fuel (← s.token? x)

end Scanner

/-- The tokens of a text. -/
def tokens? (text : String) : Option (List Token) := do
  let c ← Cursor.start? text
  pure (← (Scanner.start c).finish? (c.rest.length + 1)).reverse

end Provenance.Yaml
