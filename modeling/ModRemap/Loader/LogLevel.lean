import ModRemap.Text.Split

/-! How much is logged. -/

namespace ModRemap

inductive LogLevel where
  | trace
  | debug
  | info
  | warn
  | error
deriving DecidableEq, Repr, Inhabited

/-- A word that names no level. -/
structure UnknownLogLevel where
  word : String
deriving DecidableEq, Repr

namespace LogLevel

def all : List LogLevel := [.trace, .debug, .info, .warn, .error]

/-- The level as a log filter names it. -/
def directive : LogLevel → String
  | .trace => "trace"
  | .debug => "debug"
  | .info => "info"
  | .warn => "warn"
  | .error => "error"

def name (level : LogLevel) : String := String.ofList (Text.upper level.directive.toList)

/-- Reads a level. Blanks around it and the case of letters do not matter. -/
def parse (text : String) : Except UnknownLogLevel LogLevel :=
  let word := String.ofList (Text.lower (Text.trim text.toList))
  if word = "warning" then .ok .warn
  else match all.find? fun level => level.directive = word with
    | some level => .ok level
    | none => .error ⟨word⟩

end LogLevel

def UnknownLogLevel.message (e : UnknownLogLevel) : String :=
  s!"unsupported log level: {e.word}. available: " ++
    Text.join ", " (LogLevel.all.map LogLevel.name)

end ModRemap
