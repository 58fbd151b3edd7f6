import TreeSelect.Selector.Parser
import TreeSelect.Selector.Printer

/-!
Log records. They are values beside the results: nothing that is computed looks at them.
-/

namespace TreeSelect

inductive Level where
  | warn
  | info
  | debug
  | trace
  deriving DecidableEq

/-- A higher rank tells more; a limit lets through what ranks no higher. -/
def Level.rank : Level → Nat
  | .warn => 1
  | .info => 2
  | .debug => 3
  | .trace => 4

def Level.name : Level → String
  | .warn => "WARN"
  | .info => "INFO"
  | .debug => "DEBUG"
  | .trace => "TRACE"

def Level.admits (limit level : Level) : Bool := decide (level.rank ≤ limit.rank)

structure Record where
  level : Level
  target : String
  message : String
  deriving DecidableEq

/-- What one attempt at reading a selector leaves in the log. -/
def parseRecord : Except Fault Selector → Record
  | .ok selector => ⟨.trace, "sift::parser", "parsed `" ++ selector.text ++ "`"⟩
  | .error cause => ⟨.debug, "sift::parser", "parse failed: " ++ cause.message⟩

end TreeSelect
