import LayerLint.Log
import LayerLint.Dockerfile.Image
import LayerLint.Dockerfile.Stage

/-!
# Dockerfiles

A Dockerfile is its instructions in order, its stages, and what follows from these. Reading never
fails: lines with an unknown directive are dropped.
-/

namespace LayerLint

structure Dockerfile where
  instructions : List Instruction
  stages : List Stage
  /-- Whether there is more than one stage. -/
  multiStage : Bool
  /-- Names of the base images without tag and digest, each once, in order of appearance. -/
  baseImages : List Text
  deriving DecidableEq, Repr

namespace Dockerfile

def ofInstructions (instructions : List Instruction) : Dockerfile :=
  let stages := Stage.ofInstructions instructions
  { instructions
    stages
    multiStage := 1 < stages.length
    baseImages := ((stages.map fun s => Image.name s.baseImage).filter (· ≠ [])).eraseDups }

def parse (t : Text) : Dockerfile :=
  ofInstructions ((LogicalLine.ofText t).filterMap Instruction.ofLogicalLine?)

/-- The instructions of a stage; none when the stage does not lie within the list. -/
def stageInstructions (d : Dockerfile) (s : Stage) : List Instruction :=
  if s.start ≤ s.stop ∧ s.stop ≤ d.instructions.length then
    (d.instructions.drop s.start).take (s.stop - s.start)
  else []

/-- The stages with their instructions. -/
def staged (d : Dockerfile) : List (Stage × List Instruction) :=
  d.stages.map fun s => (s, d.stageInstructions s)

/-- The stage of the first instruction on that line. -/
def stageForLine (d : Dockerfile) (line : Nat) : Option Stage := do
  let position ← d.instructions.findIdx? fun i => i.line = line
  d.stages.find? fun s => s.Contains position

/-- The stage that produces the image. -/
def finalStage? (d : Dockerfile) : Option Stage := d.stages.getLast?

/-- The instructions with that directive. -/
def withDirective (d : Dockerfile) (directive : Directive) : List Instruction :=
  d.instructions.filter fun i => i.directive = directive

/-! ## Log -/

/-- What is logged about a logical line: a keyword that is no directive. -/
def droppedEvent? (l : LogicalLine) : Option Event :=
  match l.keyword, Directive.ofKeyword? l.keyword with
  | [], _ => none
  | _, some _ => none
  | word, none =>
    some ⟨.debug, Text.concat
      ["line ", Text.ofNat l.line, ": dropping unknown directive `", word, "`"]⟩

def stageEvent (s : Stage) : Event :=
  ⟨.trace, Text.concat
    ["line ", Text.ofNat s.startLine, ": stage `", s.name, "` from `", s.baseImage, "`"]⟩

/-- The events of reading the text. -/
def parseEvents (t : Text) : List Event :=
  let d := parse t
  (LogicalLine.ofText t).filterMap droppedEvent?
    ++ (if d.withDirective .from = [] then [] else d.stages.map stageEvent)
    ++ [⟨.debug, Text.concat ["parsed ", Text.ofNat d.instructions.length, " instructions in ",
          Text.ofNat d.stages.length, " stage(s)"]⟩]

end Dockerfile

end LayerLint
