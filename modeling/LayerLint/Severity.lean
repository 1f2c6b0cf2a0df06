import LayerLint.Text

/-!
# Severities
-/

namespace LayerLint

inductive Severity where
  | high | medium | low
  deriving DecidableEq, Repr

namespace Severity

def all : List Severity := [.high, .medium, .low]

def label : Severity → Text
  | .high => "high"
  | .medium => "medium"
  | .low => "low"

/-- Position in a report: the gravest first. -/
def rank : Severity → Nat
  | .high => 0
  | .medium => 1
  | .low => 2

/-- Whether the severity is at least `min`. -/
def atLeast (s min : Severity) : Bool := s.rank ≤ min.rank

def ofLabel? (word : Text) : Option Severity := all.find? fun s => s.label = word

end Severity

end LayerLint
