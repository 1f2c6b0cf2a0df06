import LayerLint.Severity

/-!
# Suggestions

What a rule finds: the code of the rule, a severity, a title, a recommendation, the lines that it
is about, and perhaps the text before and after the change.
-/

namespace LayerLint

structure Suggestion where
  code : Text
  severity : Severity
  title : Text
  recommendation : Text
  lines : List Nat
  before : Option Text
  after : Option Text
  deriving DecidableEq, Repr

end LayerLint
