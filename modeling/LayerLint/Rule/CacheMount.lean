import LayerLint.Rule
import LayerLint.Command.Shell

/-!
# JavaScript installs without a cache mount
-/

namespace LayerLint.Rule

/-- Whether a leading flag mounts a cache. -/
def hasCacheMount (i : Instruction) : Bool :=
  i.flags.any fun flag => List.isPrefixOf "--mount=".toList flag && Text.mentions "type=cache" flag

/-- Where the package manager of a command keeps its cache. -/
def cacheTarget (command : Text) : Text :=
  if Text.mentions "yarn" command then "/usr/local/share/.cache/yarn" else "/root/.npm"

def cacheMountSuggestion (i : Instruction) : Suggestion where
  code := "DFO011"
  severity := .medium
  title := "npm/yarn install without a cache mount"
  recommendation := Text.concat
    ["Add a BuildKit cache mount so packages are reused across builds even when the install layer ",
     "is invalidated."]
  lines := [i.line]
  before := some i.raw
  after := some (Text.concat
    ["RUN --mount=type=cache,target=", cacheTarget i.command, " ", i.command])

def cacheMount : Rule where
  code := "DFO011"
  name := "Use a cache mount"
  severity := .medium
  detect d := ((d.withDirective .run).filter fun i =>
    isJsInstall i.command && !hasCacheMount i).map cacheMountSuggestion

end LayerLint.Rule
