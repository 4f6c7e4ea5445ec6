import LatteHlsl.Settings.Document

/-!
# Stored settings

Settings live in one file, and there are current settings beside it. The file appears with the
first load or save.
-/

namespace LatteHlsl

/-- The path of the settings file, below the directory for settings. -/
def settingsPath : String := "latte-shader/config.toml"

/-- The settings file and the current settings. -/
structure SettingsStore where
  current : Settings := {}
  /-- The contents of the file, if it exists. -/
  file : Option ByteArray := none
  /-- Whether the directory of the file cannot be entered. -/
  blocked : Bool := false

/-- A change to one of the current settings. -/
inductive SettingsEdit where
  | emitComments (b : Bool)
  | logSource (b : Bool)
  | level (l : LogLevel)
  | logToFile (b : Bool)
  | logPath (path : String)
deriving DecidableEq

/-- Apply a change. -/
def Settings.edit (s : Settings) : SettingsEdit → Settings
  | .emitComments b => { s with shader := { s.shader with emitComments := b } }
  | .logSource b => { s with shader := { s.shader with logSource := b } }
  | .level l => { s with logging := { s.logging with level := l } }
  | .logToFile b => { s with logging := { s.logging with logToFile := b } }
  | .logPath path => { s with logging := { s.logging with logPath := path } }

namespace SettingsStore

/-- The text of the file, if it exists and is text. -/
def fileText? (s : SettingsStore) : Option String := s.file.bind String.fromUTF8?

/-- Put contents into the file. -/
def writeFile (s : SettingsStore) (bytes : ByteArray) : SettingsStore :=
  if s.blocked then s else { s with file := some bytes }

/-- Remove the file. -/
def deleteFile (s : SettingsStore) : SettingsStore := { s with file := none }

/-- Make the directory of the file impossible to enter. -/
def block (s : SettingsStore) : SettingsStore := { s with file := none, blocked := true }

/-- Change the current settings. -/
def edit (s : SettingsStore) (e : SettingsEdit) : SettingsStore :=
  { s with current := s.current.edit e }

/-- Write settings to the file. -/
def put (s : SettingsStore) (settings : Settings) : Except SettingsFault SettingsStore :=
  if s.blocked then .error .io else do return s.writeFile (← settings.write).toUTF8

/-- Write the current settings to the file. -/
def save (s : SettingsStore) : Except SettingsFault SettingsStore := s.put s.current

/-- Take the current settings from the file. If there is none, the defaults are taken and
written. -/
def load (s : SettingsStore) : Except SettingsFault SettingsStore :=
  match s.file with
  | none => do return { (← s.put {}) with current := {} }
  | some bytes =>
    match String.fromUTF8? bytes with
    | none => .error .io
    | some text => do return { s with current := ← Settings.read text }

end SettingsStore

end LatteHlsl
