import Provenance.Yaml.Scanner

/-!
# Nodes of a YAML document

A document is one node: a scalar, a sequence or a mapping. An alias stands for the node with its anchor. A
text holds at most one document.
-/

namespace Provenance.Yaml

/-- A node with its tag, if it has one. -/
inductive Node where
  | scalar (style : Style) (tag : Option String) (text : String)
  | sequence (tag : Option String) (items : List Node)
  | mapping (tag : Option String) (entries : List (Node × Node))
  /-- A node within itself. -/
  | endless

namespace Node

/-- The node where nothing is written. -/
def missing : Node := .scalar .plain none ""

/-- Tokens that are still to be read, and what they may refer to. -/
structure Feed where
  tokens : List Token
  /-- Nodes by their anchors, the last one first. -/
  anchors : List (String × Node)
  /-- What the handles of tags stand for. -/
  handles : List (String × String)

/-- A part of a document that is read from tokens. -/
abbrev Read := StateT Feed Option

/-- The next token. -/
def peek : Read (Option Token) := do pure (← get).tokens.head?

/-- Passes over the next token. -/
def advance : Read Unit := modify fun f => { f with tokens := f.tokens.drop 1 }

/-- Passes over a token that has to come next. -/
def expect (t : Token) : Read Unit := do
  if (← peek) = some t then advance else failure

/-- Whether a token comes next; if so, passes over it. -/
def accept (t : Token) : Read Bool := do
  if (← peek) = some t then
    advance
    pure true
  else pure false

/-- Whether one of some tokens comes next. -/
def isNext (ts : List Token) : Read Bool := do
  match ← peek with
  | some t => pure (ts.contains t)
  | none => pure false

/-! ## Anchors and tags -/

/-- What is said about a node in front of it. -/
structure Properties where
  anchor : Option String
  tag : Option String

/-- The anchor that comes next. -/
def anchor : Read (Option String) := do
  match ← peek with
  | some (.anchor name) =>
    advance
    pure (some name)
  | _ => pure none

/-- The tag that comes next. -/
def tag : Read (Option String) := do
  match ← peek with
  | some (.tag handle rest) =>
    advance
    if handle = "" then pure (some rest)
    else
      match (← get).handles.lookup handle with
      | some expansion => pure (some (expansion ++ rest))
      | none => failure
  | _ => pure none

/-- An anchor and a tag in either order. -/
def properties : Read Properties := do
  match ← anchor with
  | some name => pure ⟨some name, ← tag⟩
  | none =>
    let t ← tag
    if t.isSome then pure ⟨← anchor, t⟩ else pure ⟨none, none⟩

/-- The node with an anchor. -/
def aliased (name : String) : Read Node := do
  match (← get).anchors.lookup name with
  | some node => pure node
  | none => failure

/-- A node that is known by an anchor from its beginning on. -/
def anchored (name : Option String) (read : Read Node) : Read Node := do
  match name with
  | none => read
  | some name =>
    let before := (← get).anchors.length
    modify fun f => { f with anchors := (name, .endless) :: f.anchors }
    let node ← read
    modify fun f =>
      { f with anchors := f.anchors.set (f.anchors.length - 1 - before) (name, node) }
    pure node

/-- A scalar with its tag. A tag without a name says nothing about a scalar. -/
def ofScalar (style : Style) (tag : Option String) (text : String) : Node :=
  .scalar style (if tag = some "!" then none else tag) text

/-! ## Collections -/

mutual

/-- A node. In a block it may be a collection that is made by indentation, and the value of a key also a
sequence that is not indented. -/
def read (block unindented : Bool) : Nat → Read Node
  | 0 => failure
  | fuel + 1 => do
    match ← peek with
    | some (.alias name) =>
      advance
      aliased name
    | _ =>
      let p ← properties
      anchored p.anchor (content block unindented p fuel)

/-- A node behind its anchor and tag. -/
def content (block unindented : Bool) (p : Properties) : Nat → Read Node
  | 0 => failure
  | fuel + 1 => do
    match ← peek, block, unindented with
    | some .blockEntry, _, true => do pure (.sequence p.tag (← unindentedItems fuel))
    | some (.scalar style text), _, _ =>
      advance
      pure (ofScalar style p.tag text)
    | some .flowSequenceStart, _, _ =>
      advance
      pure (.sequence p.tag (← flowItems true fuel))
    | some .flowMappingStart, _, _ =>
      advance
      pure (.mapping p.tag (← flowEntries true fuel))
    | some .blockSequenceStart, true, _ =>
      advance
      pure (.sequence p.tag (← blockItems fuel))
    | some .blockMappingStart, true, _ =>
      advance
      pure (.mapping p.tag (← blockEntries fuel))
    | _, _, _ => if p.anchor.isSome || p.tag.isSome then pure (ofScalar .plain p.tag "") else failure

/-- The node that comes next, unless one of some tokens does. -/
def optional (block unindented : Bool) (ends : List Token) : Nat → Read Node
  | 0 => failure
  | fuel + 1 => do if ← isNext ends then pure missing else read block unindented fuel

/-- The items of an indented sequence. -/
def blockItems : Nat → Read (List Node)
  | 0 => failure
  | fuel + 1 => do
    if ← accept .blockEntry then
      let item ← optional true false [.blockEntry, .blockEnd] fuel
      pure (item :: (← blockItems fuel))
    else
      expect .blockEnd
      pure []

/-- The items of a sequence that is not indented. -/
def unindentedItems : Nat → Read (List Node)
  | 0 => failure
  | fuel + 1 => do
    if ← accept .blockEntry then
      let item ← optional true false [.blockEntry, .key, .value, .blockEnd] fuel
      pure (item :: (← unindentedItems fuel))
    else pure []

/-- The entries of an indented mapping. -/
def blockEntries : Nat → Read (List (Node × Node))
  | 0 => failure
  | fuel + 1 => do
    if ← accept .key then
      let ends := [Token.key, .value, .blockEnd]
      let key ← optional true true ends fuel
      let value ← if ← accept .value then optional true true ends fuel else pure missing
      pure ((key, value) :: (← blockEntries fuel))
    else
      expect .blockEnd
      pure []

/-- The items between brackets. An item may be a key with a value. -/
def flowItems (first : Bool) : Nat → Read (List Node)
  | 0 => failure
  | fuel + 1 => do
    if ← accept .flowSequenceEnd then pure []
    else
      if !first then expect .flowEntry
      if ← accept .flowSequenceEnd then pure []
      else
        let item ← if ← accept .key then pair fuel else read false false fuel
        pure (item :: (← flowItems false fuel))

/-- A key with a value as an item between brackets. -/
def pair : Nat → Read Node
  | 0 => failure
  | fuel + 1 => do
    let key ←
      if ← isNext [.value, .flowEntry, .flowSequenceEnd] then
        advance
        pure missing
      else read false false fuel
    let value ←
      if ← accept .value then optional false false [.flowEntry, .flowSequenceEnd] fuel
      else pure missing
    pure (.mapping none [(key, value)])

/-- The entries between braces. A key may stand alone. -/
def flowEntries (first : Bool) : Nat → Read (List (Node × Node))
  | 0 => failure
  | fuel + 1 => do
    if ← accept .flowMappingEnd then pure []
    else
      if !first then expect .flowEntry
      if ← accept .flowMappingEnd then pure []
      else
        let entry ← flowEntry fuel
        pure (entry :: (← flowEntries false fuel))

/-- An entry between braces. -/
def flowEntry : Nat → Read (Node × Node)
  | 0 => failure
  | fuel + 1 => do
    if ← accept .key then
      let key ← optional false false [.value, .flowEntry, .flowMappingEnd] fuel
      let value ←
        if ← accept .value then optional false false [.flowEntry, .flowMappingEnd] fuel
        else pure missing
      pure (key, value)
    else pure (← read false false fuel, missing)

end

/-! ## Documents -/

/-- The handles that every document knows. -/
def standardHandles : List (String × String) := [("!", "!"), ("!!", "tag:yaml.org,2002:")]

/-- The directives in front of a document. The version may be told once, and a handle be defined once. -/
def directives (versionKnown : Bool) : Nat → Read Unit
  | 0 => failure
  | fuel + 1 => do
    match ← peek with
    | some (.version major minor) =>
      if versionKnown ∨ major ≠ 1 ∨ ¬ (minor = 1 ∨ minor = 2) then failure
      else
        advance
        directives true fuel
    | some (.handle name expansion) =>
      if ((← get).handles.lookup name).isSome then failure
      else
        advance
        modify fun f => { f with handles := (name, expansion) :: f.handles }
        directives versionKnown fuel
    | _ => pure ()

/-- Whether what comes next announces a document. -/
def isAnnounced : Option Token → Bool
  | some (.version ..) | some (.handle ..) | some .documentStart => true
  | _ => false

/-- Passes over marks of a document's end. -/
def documentEnds : Read Unit :=
  modify fun f => { f with tokens := f.tokens.dropWhile (· = .documentEnd) }

/-- The only document. -/
def document (fuel : Nat) : Read Node := do
  let node ←
    if isAnnounced (← peek) then
      directives false fuel
      expect .documentStart
      modify fun f => { f with handles := f.handles ++ standardHandles }
      let next ← peek
      if next.isNone || isAnnounced next || next = some .documentEnd then pure missing
      else read true false fuel
    else
      modify fun f => { f with handles := standardHandles }
      read true false fuel
  documentEnds
  if (← peek).isNone then pure node else failure

/-- The node that tokens make. Without tokens it is missing. -/
def ofTokens? (tokens : List Token) : Option Node :=
  if tokens.isEmpty then some missing
  else ((document (4 * tokens.length + 4)).run ⟨tokens, [], []⟩).map Prod.fst

/-- The node that a text holds. -/
def parse? (text : String) : Option Node := do ofTokens? (← tokens? text)

end Node

end Provenance.Yaml
