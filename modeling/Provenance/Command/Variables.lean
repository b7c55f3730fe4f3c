import Provenance.Command.Machine
import Provenance.Text.Basic

/-!
# Files of variables

A file of variables gives values to variables of the environment that are not set otherwise, one
`NAME=value` a line. A value may be quoted, may go on over several lines while a quote is open, and may refer
to other variables as `$NAME`. The first line that is not well formed ends the file.
-/

namespace Provenance.Variables

/-! ## Lines -/

/-- What the next character of a line stands in. -/
inductive LineMode where
  | plain
  /-- After a blank. -/
  | blank
  | escaped
  | single
  | singleEscaped
  | double
  | doubleEscaped
  | comment
  deriving DecidableEq

/-- The mode outside of quotes after a character. -/
def LineMode.afterPlain (c : Char) : LineMode :=
  if c = '\\' then .escaped
  else if c = '"' then .double
  else if c = '\'' then .single
  else .plain

/-- The mode after a character. A comment begins only after a blank. -/
def LineMode.next (mode : LineMode) (c : Char) : LineMode :=
  match mode with
  | .plain => if Text.isBlank c && c ≠ '\n' && c ≠ '\r' then .blank else afterPlain c
  | .blank => if c = '#' then .comment else afterPlain c
  | .escaped => .plain
  | .single => if c = '\\' then .singleEscaped else if c = '\'' then .plain else .single
  | .singleEscaped => .single
  | .double => if c = '\\' then .doubleEscaped else if c = '"' then .plain else .double
  | .doubleEscaped => .double
  | .comment => .comment

/-- The lines before a place in a file, and the characters of the line there, last first. -/
structure LineState where
  mode : LineMode
  line : List Char
  lines : List (List Char)

namespace LineState

/-- The start of a file. -/
def start : LineState := ⟨.plain, [], []⟩

/-- The state after the end of a line. -/
def endLine (s : LineState) : LineState := ⟨.plain, [], s.lines ++ [s.line.reverse]⟩

/-- The state after a character. A line goes on at its end while a quote is open. -/
def step (s : LineState) (c : Char) : LineState :=
  if s.mode = .comment then
    if c = '\n' then s.endLine else s
  else if c = '#' ∧ s.line.all Text.isBlank then { s with mode := .comment }
  else
    match s.mode.next c with
    | .comment => { s with mode := .comment }
    | .plain => if c = '\n' then s.endLine else { s with mode := .plain, line := c :: s.line }
    | mode => { s with mode, line := c :: s.line }

end LineState

/-- The lines of a file. A last line that ends within a quote or right after a blank does not count. -/
def lines (cs : List Char) : List (List Char) :=
  let s := cs.foldl LineState.step .start
  if s.mode = .plain ∨ s.mode = .comment then s.endLine.lines else s.lines

/-! ## Values -/

/-- A part of a value. -/
inductive Piece where
  | char (c : Char)
  /-- The value of a variable. -/
  | reference (name : String)

/-- What the next character of a value stands in. -/
inductive ValueMode where
  | plain
  | escaped
  | single
  /-- After a dollar sign and the characters of a name, last first. -/
  | reference (name : List Char)
  /-- The same within curly brackets. -/
  | bracketed (name : List Char)
  /-- After a blank that ends the value. -/
  | ended
  | comment

/-- A value up to some character. -/
structure ValueState where
  mode : ValueMode
  /-- Whether a double quote is open. -/
  quoted : Bool
  /-- The parts before, last first. -/
  pieces : List Piece

namespace ValueState

/-- The start of a value. -/
def start : ValueState := ⟨.plain, false, []⟩

/-- The state with a character added to the value. -/
def push (s : ValueState) (c : Char) : ValueState :=
  { s with mode := .plain, pieces := .char c :: s.pieces }

/-- The state with a reference added to the value. -/
def refer (s : ValueState) (name : List Char) : ValueState :=
  { s with mode := .plain, pieces := .reference (String.ofList name.reverse) :: s.pieces }

/-- The state after a character outside of everything but double quotes. -/
def stepPlain (s : ValueState) (c : Char) : ValueState :=
  if c = '$' then { s with mode := .reference [] }
  else if c = '\\' then { s with mode := .escaped }
  else if c = '"' then { s with quoted := !s.quoted }
  else if s.quoted then s.push c
  else if c = '\'' then { s with mode := .single }
  else if c = ' ' ∨ c = '\t' then { s with mode := .ended }
  else s.push c

/-- The state after a character, unless the value is not well formed. A name of a variable consists of
letters and digits of the plain alphabet; curly brackets admit any other character too. -/
def step (s : ValueState) (c : Char) : Option ValueState :=
  match s.mode with
  | .plain => some (s.stepPlain c)
  | .escaped =>
    if c ∈ ['\\', '\'', '"', '$', ' '] then some (s.push c)
    else if c = 'n' then some (s.push '\n')
    else none
  | .single => if c = '\'' then some { s with mode := .plain } else some { s.push c with mode := .single }
  | .reference name =>
    if c.isAlphanum then some { s with mode := .reference (c :: name) }
    else if c = '\x7b' ∧ name = [] then some { s with mode := .bracketed [] }
    else if c = '$' then some { s.refer name with mode := .reference [] }
    else some ((s.refer name).push c)
  | .bracketed name =>
    if c = '\x7d' then some (s.refer name) else some { s with mode := .bracketed (c :: name) }
  | .ended =>
    if c = ' ' ∨ c = '\t' then some s
    else if c = '#' then some { s with mode := .comment }
    else none
  | .comment => some s

/-- The parts of a value at its end, unless a quote or a bracket is open. -/
def finish (s : ValueState) : Option (List Piece) :=
  if s.quoted then none
  else
    match s.mode with
    | .single | .bracketed _ => none
    | .reference name => some (s.refer name).pieces.reverse
    | _ => some s.pieces.reverse

end ValueState

/-- The parts of a value. -/
def value? (cs : List Char) : Option (List Piece) := do
  (← cs.foldlM ValueState.step .start).finish

/-! ## Assignments -/

/-- A variable and the parts of its value. -/
structure Assignment where
  name : String
  value : List Piece

/-- Whether a name may start with a character. -/
def startsName (c : Char) : Bool := c.isAlpha || c == '_'

/-- Whether a name may go on with a character. -/
def continuesName (c : Char) : Bool := c.isAlphanum || c == '_' || c == '.'

/-- The name at the start of a line and what follows it. -/
def name? (cs : List Char) : Option (String × List Char) :=
  if cs.head?.any startsName then
    some (String.ofList (cs.takeWhile continuesName), cs.dropWhile continuesName)
  else none

/-- What follows an equals sign. -/
def afterEquals? : List Char → Option (List Char)
  | '=' :: rest => some (rest.dropWhile Text.isBlank)
  | _ => none

/-- The name at the start of an assignment and what follows its equals sign. A first word `export` may stand
before the name. -/
def target? (cs : List Char) : Option (String × List Char) := do
  let (name, rest) ← name? cs
  let rest := rest.dropWhile Text.isBlank
  match afterEquals? rest with
  | some rest => some (name, rest)
  | none =>
    if name = "export" then
      let (name, rest) ← name? rest
      some (name, ← afterEquals? (rest.dropWhile Text.isBlank))
    else none

/-- The assignment on a line that is neither empty nor a comment. -/
def assignment? (cs : List Char) : Option Assignment := do
  let (name, rest) ← target? cs
  if rest = [] ∨ rest.head? = some '#' then some ⟨name, []⟩ else some ⟨name, ← value? rest⟩

/-- The assignments on lines up to the first that is not well formed. -/
def ofLines : List (List Char) → List Assignment
  | [] => []
  | line :: rest =>
    match Text.trimChars line with
    | [] => ofLines rest
    | '#' :: _ => ofLines rest
    | cs =>
      match assignment? cs with
      | some a => a :: ofLines rest
      | none => []

/-- The assignments in the text of a file. A byte order mark may stand in front of it. -/
def ofText (text : String) : List Assignment :=
  let cs := text.toList
  ofLines (lines (if cs.head? = some '\ufeff' then cs.drop 1 else cs))

/-! ## Environments -/

variable [Monad m]

/-- The value of a variable: that of the environment before one that a file gives. -/
def lookup (machine : Machine m) (given : List (String × String)) (name : String) :
    m (Option String) := do
  match ← machine.environment name with
  | some value => pure (some value)
  | none => pure (given.lookup name)

/-- The text of a value. A variable without a value leaves nothing. -/
def resolve (machine : Machine m) (given : List (String × String)) : List Piece → m String
  | [] => pure ""
  | .char c :: rest => do pure (c.toString ++ (← resolve machine given rest))
  | .reference name :: rest => do
    let value ← lookup machine given name
    pure (value.getD "" ++ (← resolve machine given rest))

/-- The values that assignments give to variables which have none. -/
def assign (machine : Machine m) (given : List (String × String)) :
    List Assignment → m (List (String × String))
  | [] => pure given
  | a :: rest => do
    let value ← resolve machine given a.value
    match ← lookup machine given a.name with
    | some _ => assign machine given rest
    | none => assign machine (given ++ [(a.name, value)]) rest

/-- The name of a file of variables. -/
def fileName : String := ".env"

/-- The text of the nearest file of variables. -/
def nearestFile (machine : Machine m) : List String → m (Option String)
  | [] => pure none
  | folder :: rest => do
    match ← machine.readText (folder ++ fileName) with
    | .ok text => pure (some text)
    | .error _ => nearestFile machine rest

/-- The values that the nearest file of variables gives. -/
def load (machine : Machine m) : m (List (String × String)) := do
  match ← nearestFile machine (← machine.variableFolders) with
  | some text => assign machine [] (ofText text)
  | none => pure []

end Provenance.Variables
