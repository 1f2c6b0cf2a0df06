import LayerLint.Output.Document
import LayerLint.Output.Terminal

/-!
# Output in either form
-/

namespace LayerLint

/-- The files in the given form, with their suggestions at or above a severity. -/
def OutputFormat.render (f : OutputFormat) (min : Severity) (colours : Bool)
    (outputs : List FileOutput) : Text :=
  match f with
  | .tty => Terminal.render colours min outputs
  | .json => Document.render (.lines 0) min outputs

end LayerLint
