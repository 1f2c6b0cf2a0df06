import LayerLint.Rule.Registry

/-!
# Reports

A report is a Dockerfile with a list of suggestions. Its summary counts them; they can be cut off
at a severity and grouped by the stage of the first line that they cite.
-/

namespace LayerLint

structure Summary where
  totalInstructions : Nat
  totalStages : Nat
  multiStage : Bool
  high : Nat
  medium : Nat
  low : Nat
  totalSuggestions : Nat
  deriving DecidableEq, Repr

def Summary.count (s : Summary) : Severity → Nat
  | .high => s.high
  | .medium => s.medium
  | .low => s.low

structure Report where
  dockerfile : Dockerfile
  suggestions : List Suggestion
  deriving DecidableEq, Repr

/-- Suggestions of one stage, or of none. -/
structure StageGroup where
  stage : Option Stage
  suggestions : List Suggestion
  deriving DecidableEq, Repr

namespace Report

def count (r : Report) (s : Severity) : Nat := r.suggestions.countP fun x => x.severity = s

def summary (r : Report) : Summary where
  totalInstructions := r.dockerfile.instructions.length
  totalStages := r.dockerfile.stages.length
  multiStage := r.dockerfile.multiStage
  high := r.count .high
  medium := r.count .medium
  low := r.count .low
  totalSuggestions := r.suggestions.length

def hasHigh (r : Report) : Bool := 0 < r.summary.high

/-- The suggestions at or above a severity. -/
def atLeast (r : Report) (min : Severity) : List Suggestion :=
  r.suggestions.filter fun s => s.severity.atLeast min

/-- The position of the stage that a suggestion belongs to: that of its first line, if the index of
that stage is a position at all. -/
def placement (r : Report) (s : Suggestion) : Option Nat := do
  let line ← s.lines.head?
  let stage ← r.dockerfile.stageForLine line
  if stage.index < r.dockerfile.stages.length then some stage.index else none

/-- The suggestions at or above a severity by stage; stages without any are left out, and
suggestions without a stage come last. -/
def byStage (r : Report) (min : Severity) : List StageGroup :=
  let shown := r.atLeast min
  let groups := r.dockerfile.stages.zipIdx.map fun (stage, k) =>
    { stage := some stage, suggestions := shown.filter fun s => r.placement s = some k }
  let unplaced := { stage := none, suggestions := shown.filter fun s => r.placement s = none }
  (groups ++ [unplaced]).filter fun g => g.suggestions ≠ []

end Report

/-! ## Analysis -/

/-- The report on a Dockerfile, with the rules of the listed codes left out. -/
def analyze (ignore : List Text) (t : Text) : Report :=
  let d := Dockerfile.parse t
  { dockerfile := d, suggestions := Rule.runAll (Rule.isIgnored ignore) d }

/-- The events of the analysis. -/
def analyzeEvents (ignore : List Text) (t : Text) : List Event :=
  let r := analyze ignore t
  Dockerfile.parseEvents t ++ Rule.runEvents (Rule.isIgnored ignore) r.dockerfile
    ++ [⟨.debug, Text.concat [Text.ofNat r.suggestions.length, " suggestion(s) for ",
          Text.ofNat r.dockerfile.instructions.length, " instruction(s)"]⟩]

end LayerLint
