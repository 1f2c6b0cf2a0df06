import LayerLint.Rule.CombineInstalls
import LayerLint.Rule.SeparateUpdate
import LayerLint.Rule.CopyOrder
import LayerLint.Rule.MissingCleanup
import LayerLint.Rule.PreferCopy
import LayerLint.Rule.MultiStage
import LayerLint.Rule.WholeContext
import LayerLint.Rule.WorkdirPosition
import LayerLint.Rule.LongRun
import LayerLint.Rule.CombineCopies
import LayerLint.Rule.CacheMount

/-!
# The rules and their order

All rules run in a fixed order. The suggestions are then sorted by severity, the gravest first;
those of one severity stay in the order of discovery.
-/

namespace LayerLint.Rule

def all : List Rule :=
  [combineInstalls, separateUpdate, copyOrder, missingCleanup, preferCopy, considerMultiStage,
   wholeContext, workdirPosition, splitLongRun, combineCopies, cacheMount]

def ofCode? (code : Text) : Option Rule := all.find? fun r => Text.sameLetters r.code code

/-- Whether a list of codes names the code; letter case does not matter. -/
def isIgnored (ignore : List Text) (code : Text) : Bool :=
  ignore.any fun entry => Text.sameLetters entry code

/-- The gravest first; the order within a severity stays. -/
def sortBySeverity (ss : List Suggestion) : List Suggestion :=
  ss.mergeSort fun a b => a.severity.rank ≤ b.severity.rank

/-- The suggestions of all rules whose code is not skipped. -/
def runAll (skip : Text → Bool) (d : Dockerfile) : List Suggestion :=
  sortBySeverity ((all.filter fun r => !skip r.code).flatMap fun r => r.detect d)

/-! ## Log -/

def runEvent (skip : Text → Bool) (d : Dockerfile) (r : Rule) : Event :=
  if skip r.code then ⟨.trace, Text.concat ["skipping ignored rule ", r.code]⟩
  else ⟨.trace, Text.concat
    [r.code, " (", r.name, "): ", Text.ofNat (r.detect d).length, " finding(s)"]⟩

def runEvents (skip : Text → Bool) (d : Dockerfile) : List Event := all.map (runEvent skip d)

end LayerLint.Rule
