/-! Log lines: what an operation tells about its progress. -/
namespace SignatureIndex

inductive LogLevel where
  | debug
  | info
  | warning
  | error
  deriving DecidableEq, Repr

def LogLevel.word : LogLevel → String
  | .debug => "DEBUG"
  | .info => "INFO"
  | .warning => "WARNING"
  | .error => "ERROR"

/-- The order of levels, least important first. -/
def LogLevel.rank : LogLevel → Nat
  | .debug => 0
  | .info => 1
  | .warning => 2
  | .error => 3

/-- One line of the log, with the part of the program that wrote it. -/
structure LogLine where
  level : LogLevel
  channel : String
  message : String
  deriving DecidableEq, Repr

def LogLine.render (line : LogLine) : String :=
  line.level.word ++ " " ++ line.channel ++ ": " ++ line.message

end SignatureIndex
