import Provenance.Catalog.Compile
import Provenance.Schema.Reading
import Provenance.Settings
import Provenance.Yaml.Document

/-!
# Documents that a run is set up from
-/

namespace Provenance

/-- The schema that a JSON text holds. -/
def Schema.ofJson (text : String) : Except Error Schema :=
  match Schema.ofJsonText? text with
  | some s => .ok s
  | none => .error (.invalid (.unreadable .schema))

/-- The schema that a YAML text holds. -/
def Schema.ofYaml (text : String) : Except Error Schema :=
  match (Yaml.Node.parse? text).bind (Schema.read? Yaml.Node.depthLimit) with
  | some s => .ok s
  | none => .error (.invalid (.unreadable .schema))

/-- The settings that a YAML text holds. -/
def Settings.ofYaml (text : String) : Except Error Settings :=
  match (Yaml.Node.parse? text).bind (Settings.read? Yaml.Node.depthLimit) with
  | some s => .ok s
  | none => .error (.invalid (.unreadable .settings))

end Provenance
