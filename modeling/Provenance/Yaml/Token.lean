/-!
# The tokens of a YAML text

Indentation and the colons after keys are already made out: what is indented together stands between a
start and an end, and a token announces every key.
-/

namespace Provenance.Yaml

/-- How a scalar is written, so far as it matters for what it stands for. -/
inductive Style where
  | plain
  | literal
  | other
  deriving DecidableEq

/-- A token of a text. The end of the text is no token. -/
inductive Token where
  | version (major minor : Nat)
  /-- A handle for tags and what it stands for. -/
  | handle (handle expansion : String)
  | documentStart
  | documentEnd
  | blockSequenceStart
  | blockMappingStart
  | blockEnd
  | flowSequenceStart
  | flowSequenceEnd
  | flowMappingStart
  | flowMappingEnd
  | blockEntry
  | flowEntry
  | key
  | value
  | alias (name : String)
  | anchor (name : String)
  /-- A tag: what its handle stands for is followed by the rest. Without a handle the rest is all. -/
  | tag (handle rest : String)
  | scalar (style : Style) (text : String)
  deriving DecidableEq

end Provenance.Yaml
