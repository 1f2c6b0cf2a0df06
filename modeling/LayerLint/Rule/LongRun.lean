import LayerLint.Rule
import LayerLint.Command.Shell

/-!
# Long chains of commands
-/

namespace LayerLint.Rule

/-- The largest number of `&&` that passes. -/
def maxChained : Nat := 3

def longRunSuggestion (i : Instruction) : Suggestion where
  code := "DFO009"
  severity := .low
  title := Text.concat ["RUN chains ", Text.ofNat (chainedSteps i.command + 1), " commands"]
  recommendation := Text.concat
    ["Split unrelated steps into separate RUNs ordered from least to most frequently changing, or ",
     "move them into a script, so edits rebuild less."]
  lines := [i.line]
  before := none
  after := none

def splitLongRun : Rule where
  code := "DFO009"
  name := "Split long RUN"
  severity := .low
  detect d := ((d.withDirective .run).filter fun i => maxChained < chainedSteps i.command).map
    longRunSuggestion

end LayerLint.Rule
