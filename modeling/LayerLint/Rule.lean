import LayerLint.Dockerfile
import LayerLint.Suggestion

/-!
# Rules

A rule looks at a whole Dockerfile and lists its suggestions in the order of discovery.
-/

namespace LayerLint

structure Rule where
  code : Text
  name : Text
  /-- The severity of its suggestions, unless the rule says otherwise for a Dockerfile. -/
  severity : Severity
  detect : Dockerfile → List Suggestion

end LayerLint
