import LayerLint.Rule
import LayerLint.Command.Manager
import LayerLint.Command.Cleanup

/-!
# Package cache left in the layer

An install leaves indexes and archives behind unless the same `RUN` removes them.
-/

namespace LayerLint.Rule

/-- The command with the cleanup of the manager: as a flag behind the install, or as a last step. -/
def withCleanup (m : PackageManager) (command : Text) : Text :=
  match if m.hintIsFlag then splitAtInstall? m command else none with
  | some (upTo, rest) => Text.concat ["RUN ", upTo, " ", m.cleanupHint, rest]
  | none => Text.concat ["RUN ", command, " \\\n    && ", m.cleanupHint]

def missingCleanupSuggestion (i : Instruction) (m : PackageManager) : Suggestion where
  code := "DFO004"
  severity := .medium
  title := Text.concat ["`", m.command, "` install leaves its cache in the layer"]
  recommendation := Text.concat ["Remove the package cache in the same RUN (`", m.cleanupHint,
    "`) so it never lands in the image."]
  lines := [i.line]
  before := some i.raw
  after := some (withCleanup m i.command)

def missingCleanup : Rule where
  code := "DFO004"
  name := "Clean package cache"
  severity := .medium
  detect d := ((d.withDirective .run).filter fun i => !hasCleanup i.command).filterMap fun i =>
    (installManagers i.command).head?.map (missingCleanupSuggestion i)

end LayerLint.Rule
