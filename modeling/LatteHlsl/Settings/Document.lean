import LatteHlsl.Settings.Basic
import LatteHlsl.Toml.Document

/-!
# Settings as documents

Settings are kept as a TOML document with a table for each section.

* `Settings.read`: the settings of a document. What it leaves out has its default, and what it
  has beyond the settings is passed over.
* `Settings.write`: the document of settings.
-/

namespace LatteHlsl

open Toml

/-! ## Reading -/

/-- The values of a section by field name and number, as far as they are given. -/
abbrev SectionFields := String → Nat → Option Value

/-- The fields of a section. A section is a table, or an array of its fields in order. A date in
its place has none of the fields. -/
def sectionFields : Value → Option SectionFields
  | .table _ entries => some fun name _ => Entries.value? entries name
  | .array items => some fun _ n => items[n]?
  | .tables items => some fun _ n => items[n]?.map (Value.table .header)
  | .datetime _ => some fun _ _ => none
  | _ => none

/-- The value of a field, or its default. -/
def fieldOr {α : Type} (read : Value → Option α) (default : α) : Option Value → Option α
  | none => some default
  | some v => read v

/-- A truth value. -/
def readBool : Value → Option Bool
  | .bool b => some b
  | _ => none

/-- A text. -/
def readString : Value → Option String
  | .string s => some s
  | _ => none

/-- Whether a value is an empty table or an empty array. -/
def isEmptyValue : Value → Bool
  | .array items => items.isEmpty
  | .table _ entries => entries.isEmpty
  | .tables items => items.isEmpty
  | _ => false

/-- A level: its name, or a table that has the name as its only key and holds nothing there. -/
def readLevel : Value → Option LogLevel
  | .string s => LogLevel.ofName? s
  | .table _ [(name, v)] => if isEmptyValue v then LogLevel.ofName? name else none
  | _ => none

/-- The settings of the compiler. -/
def readShader (v : Value) : Option ShaderSettings := do
  let field ← sectionFields v
  let default : ShaderSettings := {}
  let emitComments ← fieldOr readBool default.emitComments (field "emit_comments" 0)
  let logSource ← fieldOr readBool default.logSource (field "log_source" 1)
  return { emitComments := emitComments, logSource := logSource }

/-- The settings of the log. -/
def readLogging (v : Value) : Option LoggingSettings := do
  let field ← sectionFields v
  let default : LoggingSettings := {}
  let level ← fieldOr readLevel default.level (field "level" 0)
  let logToFile ← fieldOr readBool default.logToFile (field "log_to_file" 1)
  let logPath ← fieldOr readString default.logPath (field "log_path" 2)
  return { level := level, logToFile := logToFile, logPath := logPath }

/-- The settings of a table. -/
def readSettings (entries : Entries) : Option Settings := do
  let shader ← fieldOr readShader {} (entries.value? "shader")
  let logging ← fieldOr readLogging {} (entries.value? "logging")
  return { shader := shader, logging := logging }

namespace Settings

/-- The settings of a document. -/
def read (text : String) : Except SettingsFault Settings :=
  match (Toml.read text).bind readSettings with
  | some s => .ok s
  | none => .error .malformed

/-! ## Writing -/

/-- The document of settings, with the path of the log as it is quoted. -/
def document (s : Settings) (path : String) : String :=
  "[shader]\n" ++
    s!"emit_comments = {s.shader.emitComments}\n" ++
    s!"log_source = {s.shader.logSource}\n" ++
    "\n[logging]\n" ++
    s!"level = \"{s.logging.level.name}\"\n" ++
    s!"log_to_file = {s.logging.logToFile}\n" ++
    s!"log_path = {path}\n"

/-- Write settings as a document. -/
def write (s : Settings) : Except SettingsFault String :=
  match Quoted.write? s.logging.logPath with
  | some path => .ok (s.document path)
  | none => .error .unwritable

end Settings

end LatteHlsl
