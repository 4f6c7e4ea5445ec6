/-!
# Settings

The settings of the compiler and of its log.
-/

namespace LatteHlsl

/-- How much is logged. -/
inductive LogLevel where
  | off | error | warn | info | debug | trace
deriving DecidableEq

namespace LogLevel

/-- The levels from the quietest on. -/
def all : List LogLevel := [.off, .error, .warn, .info, .debug, .trace]

/-- The level's name in settings. -/
def name : LogLevel → String
  | .off => "Off"
  | .error => "Error"
  | .warn => "Warn"
  | .info => "Info"
  | .debug => "Debug"
  | .trace => "Trace"

/-- The level's name in log filters. -/
def directive : LogLevel → String
  | .off => "off"
  | .error => "error"
  | .warn => "warn"
  | .info => "info"
  | .debug => "debug"
  | .trace => "trace"

/-- The level with the given name. -/
def ofName? (s : String) : Option LogLevel := all.find? (·.name == s)

end LogLevel

/-- Settings of the compiler. -/
structure ShaderSettings where
  /-- Whether comments are written. -/
  emitComments : Bool := true
  /-- Whether sources are logged. -/
  logSource : Bool := false
deriving DecidableEq

/-- Settings of the log. -/
structure LoggingSettings where
  level : LogLevel := .info
  logToFile : Bool := false
  logPath : String := "latte-shader.log"
deriving DecidableEq

/-- All settings. -/
structure Settings where
  shader : ShaderSettings := {}
  logging : LoggingSettings := {}
deriving DecidableEq

/-- Why settings could not be read or written. -/
inductive SettingsFault where
  /-- The text is no settings document. -/
  | malformed
  /-- A file could not be read or written. -/
  | io
  /-- The settings hold a text that no document can hold. -/
  | unwritable
deriving DecidableEq

end LatteHlsl
