import Provenance.Settings

/-!
# Arguments of the command line

The first argument says what to do, and options follow it, each at most once. Options that take a value take
it after an equals sign or from the next argument. Some may be given by variables of the environment instead.
-/

namespace Provenance

/-- What a run is asked for. -/
structure RunOptions where
  /-- The path of the schema. -/
  schema : String
  /-- The path of the supplied records. -/
  data : String
  /-- The table to materialize. -/
  target : String
  /-- The path of the settings. -/
  settings : Option String
  /-- The row of the target whose lineage is reported. -/
  explainRow : Option Nat
  /-- Whether the whole graph is reported. -/
  graph : Bool
  /-- The folder that the trail is saved in. -/
  store : Option String

/-- What the command line asks for. -/
inductive Request where
  | help
  | version
  | run (options : RunOptions)
  /-- The fingerprint of the schema at a path. -/
  | fingerprint (schema : String)

/-- Options of the command line. -/
inductive CommandOption where
  | schema
  | data
  | target
  | config
  | explainRow
  | graph
  | store
  deriving DecidableEq

namespace CommandOption

/-- The name of an option. -/
def name : CommandOption → String
  | .schema => "schema"
  | .data => "data"
  | .target => "target"
  | .config => "config"
  | .explainRow => "explain-row"
  | .graph => "graph"
  | .store => "store"

/-- The options of a run. -/
def ofRun : List CommandOption := [.schema, .data, .target, .config, .explainRow, .graph, .store]

/-- The options of a fingerprint. -/
def ofFingerprint : List CommandOption := [.schema]

/-- Whether an option has a value. -/
def takesValue (o : CommandOption) : Bool := o ≠ .graph

/-- The variable of the environment that may give the value of an option. -/
def key? : CommandOption → Option String
  | .schema => some "LINEAGE_SCHEMA"
  | .config => some "LINEAGE_CONFIG"
  | .store => some "LINEAGE_STORE"
  | _ => none

/-- Whether a text may be the value of an option. A path is not empty, and a row is a number. -/
def accepts (o : CommandOption) (value : String) : Bool :=
  match o with
  | .target | .graph => true
  | .explainRow => (Text.Digits.readCount? value.toList).isSome
  | _ => value ≠ ""

end CommandOption

/-- Options that are given, with their values. -/
abbrev GivenOptions := List (CommandOption × String)

/-- What a list of options comes to. -/
inductive OptionReading where
  | options (given : GivenOptions)
  /-- Help is asked for before anything is wrong. -/
  | help
  | misuse

namespace OptionReading

/-- Whether an argument can only be an option: it starts with a dash and is more than that. -/
def isDashed (argument : String) : Bool :=
  match argument.toList with
  | '-' :: _ :: _ => true
  | _ => false

/-- The name and the attached value of a long option. -/
def longOption? (argument : String) : Option (String × Option String) :=
  match argument.toList with
  | '-' :: '-' :: cs =>
    let name := String.ofList (cs.takeWhile (· ≠ '='))
    match cs.dropWhile (· ≠ '=') with
    | _ :: value => some (name, some (String.ofList value))
    | [] => some (name, none)
  | _ => none

/-- Whether an argument is a group of short options that starts with the given one. -/
def startsShort (letter : Char) (argument : String) : Bool :=
  match argument.toList with
  | '-' :: c :: _ => c == letter
  | _ => false

/-- The options with one more, unless it is there already or cannot have this value. -/
def add? (given : GivenOptions) (o : CommandOption) (value : String) : Option GivenOptions :=
  if (given.lookup o).isNone && o.accepts value then some (given ++ [(o, value)]) else none

/-- Reads options that stand among the known ones. Two dashes end them, and nothing may follow. -/
def read (known : List CommandOption) (given : GivenOptions) : List String → OptionReading
  | [] => .options given
  | argument :: rest =>
    if argument = "--" then (if rest = [] then .options given else .misuse)
    else
      match longOption? argument with
      | none => if startsShort 'h' argument then .help else .misuse
      | some ("help", none) => .help
      | some (name, attached) =>
        match known.find? (·.name = name), attached, rest with
        | some o, some value, rest =>
          if o.takesValue then
            match add? given o value with
            | some given => read known given rest
            | none => .misuse
          else .misuse
        | some o, none, next :: after =>
          if o.takesValue then
            if isDashed next then .misuse
            else
              match add? given o next with
              | some given => read known given after
              | none => .misuse
          else
            match add? given o "" with
            | some given => read known given (next :: after)
            | none => .misuse
        | some o, none, [] =>
          if o.takesValue then .misuse
          else
            match add? given o "" with
            | some given => .options given
            | none => .misuse
        | none, _, _ => .misuse
termination_by arguments => arguments.length

/-- The options with those that the environment gives and the arguments do not. -/
def complete? (env : String → Option String) (given : GivenOptions) :
    List CommandOption → Option GivenOptions
  | [] => some given
  | o :: rest => do
    match given.lookup o, o.key?.bind env with
    | none, some value => complete? env (← add? given o value) rest
    | _, _ => complete? env given rest

end OptionReading

namespace Request

open OptionReading

/-- The run that options ask for. -/
def ofRunOptions? (given : GivenOptions) : Option Request := do
  some (.run {
    schema := ← given.lookup .schema
    data := ← given.lookup .data
    target := ← given.lookup .target
    settings := given.lookup .config
    explainRow := (given.lookup .explainRow).bind fun value => Text.Digits.readCount? value.toList
    graph := (given.lookup .graph).isSome
    store := given.lookup .store })

/-- The request that a list of options makes. -/
def ofOptions? (env : String → Option String) (known : List CommandOption)
    (make : GivenOptions → Option Request) (arguments : List String) : Option Request :=
  match OptionReading.read known [] arguments with
  | .help => some .help
  | .misuse => none
  | .options given => do make (← complete? env given known)

/-- The request that the arguments make; none if they make no sense. -/
def ofArguments? (env : String → Option String) : List String → Option Request
  | "run" :: rest => ofOptions? env CommandOption.ofRun ofRunOptions? rest
  | "fingerprint" :: rest =>
    ofOptions? env CommandOption.ofFingerprint (fun given => (given.lookup .schema).map .fingerprint) rest
  | ["help"] | ["help", "run"] | ["help", "fingerprint"] | ["help", "help"] => some .help
  | "--help" :: _ => some .help
  | "--version" :: _ => some .version
  | argument :: _ =>
    if startsShort 'h' argument then some .help
    else if startsShort 'V' argument then some .version
    else none
  | [] => none

/-- The variables that may give the values of options. -/
def keys : List String := CommandOption.ofRun.filterMap CommandOption.key?

end Request

end Provenance
