import LayerLint.Rule
import LayerLint.Command.Package

/-!
# Build tools in the final image

Compilers installed in a build of one stage stay in its image.
-/

namespace LayerLint.Rule

def multiStageSuggestion (base : Text) (tools : List Text) (lines : List Nat) : Suggestion where
  code := "DFO006"
  severity := .medium
  title := Text.concat ["Build tooling (", Text.join ", " tools, ") ships in the final image"]
  recommendation := Text.concat
    ["Move compilation into a builder stage and copy only the build output into a slim runtime ",
     "stage."]
  lines := lines
  before := some (Text.concat ["FROM ", base, "\n# build tools and compilation\n..."])
  after := some (Text.concat ["FROM ", base,
    " AS builder\n# build tools and compilation\n...\n\nFROM <runtime-image>\n",
    "COPY --from=builder /app/out /app"])

/-- The base image of the final stage, or a placeholder. -/
def baseOrPlaceholder (d : Dockerfile) : Text :=
  ((d.finalStage?.map (·.baseImage)).filter (· ≠ [])).getD "<base>"

def considerMultiStage : Rule where
  code := "DFO006"
  name := "Consider a multi-stage build"
  severity := .medium
  detect d :=
    let installing := (d.withDirective .run).filter fun i => installedBuildTools i.command ≠ []
    let tools := (installing.flatMap fun i => installedBuildTools i.command).eraseDups
    if d.multiStage || installing.isEmpty then []
    else [multiStageSuggestion (baseOrPlaceholder d) tools (installing.map (·.line))]

end LayerLint.Rule
