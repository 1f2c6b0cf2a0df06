import LayerLint.Text

/-!
# Log events

What the library reports about its own work, apart from results: each event has a level and a
message.
-/

namespace LayerLint

inductive Level where
  | error | warn | info | debug | trace
  deriving DecidableEq, Repr

/-- The levels from the gravest to the most detailed. -/
def Level.rank : Level → Nat
  | .error => 0
  | .warn => 1
  | .info => 2
  | .debug => 3
  | .trace => 4

def Level.label : Level → Text
  | .error => "ERROR"
  | .warn => "WARN"
  | .info => "INFO"
  | .debug => "DEBUG"
  | .trace => "TRACE"

structure Event where
  level : Level
  message : Text
  deriving DecidableEq, Repr

/-- The event on one line: its level, a space, its message. -/
def Event.line (e : Event) : Text := Text.concat [e.level.label, " ", e.message]

end LayerLint
