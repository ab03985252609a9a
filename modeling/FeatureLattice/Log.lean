/-!
# Log records

Records have a level and the name of the part that wrote them. A logger starts without a handler:
then only warnings are shown, as bare messages. Asking for more installs a handler for good, which
shows every record of at least the chosen level with a time stamp.
-/
namespace FeatureLattice

inductive LogLevel where
  | debug
  | info
  | warning
  deriving DecidableEq

namespace LogLevel

def rank : LogLevel → Nat
  | debug => 10
  | info => 20
  | warning => 30

/-- The name of a level in five characters. -/
def label : LogLevel → String
  | debug => "DEBUG"
  | info => "INFO "
  | warning => "WARNI"

end LogLevel

/-- A record of something that happened. -/
structure LogRecord where
  level : LogLevel
  source : String
  message : String
  deriving DecidableEq

/-- Which records are shown, and how. -/
structure Logger where
  threshold : LogLevel := .warning
  hasHandler : Bool := false
  deriving DecidableEq

namespace Logger

/-- Show more: one request asks for information, more ask for everything. -/
def configure (logger : Logger) : Nat → Logger
  | 0 => logger
  | 1 => ⟨.info, true⟩
  | _ => ⟨.debug, true⟩

/-- The line that shows a record, or nothing if the record is not shown. -/
def line (logger : Logger) (stamp : String) (r : LogRecord) : String :=
  if r.level.rank < logger.threshold.rank then ""
  else if logger.hasHandler then
    stamp ++ " [" ++ r.level.label ++ "] " ++ r.source ++ ": " ++ r.message ++ "\n"
  else if r.level = .warning then r.message ++ "\n"
  else ""

end Logger

end FeatureLattice
