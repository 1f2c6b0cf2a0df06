import LayerLint.Rule.CombineInstalls

/-!
# Index update apart from the install

A `RUN` that refreshes a package index and does not install leaves a layer that grows stale. When
the next instruction of the stage is the install, the two can be merged.
-/

namespace LayerLint.Rule

/-- The next instruction, if it is a `RUN` that installs with the manager. -/
def pairedInstall? (m : PackageManager) (next : Option Instruction) : Option Instruction :=
  next.filter fun i => i.directive = .run && m.installsIn i.command

def separateUpdateSuggestion (m : PackageManager) (update : Instruction) :
    Option Instruction → Suggestion
  | some install =>
    { code := "DFO002"
      severity := .high
      title := Text.concat
        ["`", m.command, " update` and the package install run in separate layers"]
      recommendation := Text.concat
        ["Run the index update and the install in the same RUN so a cached update layer can never ",
         "be reused with a newer install."]
      lines := [update.line, install.line]
      before := some (Text.concat [update.raw, "\n", install.raw])
      after := some (mergedRun [update.command, install.command]) }
  | none =>
    { code := "DFO002"
      severity := .high
      title := Text.concat ["`", m.command, " update` without a package install in the same layer"]
      recommendation := Text.concat ["Chain `", m.command,
        " update` directly with the install that needs it; a standalone update layer is cached ",
        "and goes stale."]
      lines := [update.line]
      before := none
      after := none }

/-- The suggestions about one instruction; `next` is the instruction after it in its stage. -/
def separateUpdatesAt (i : Instruction) (next : Option Instruction) : List Suggestion :=
  if i.directive = .run then
    ((updateManagers i.command).filter fun m => !m.installsIn i.command).map fun m =>
      separateUpdateSuggestion m i (pairedInstall? m next)
  else []

def separateUpdates : List Instruction → List Suggestion
  | [] => []
  | i :: rest => separateUpdatesAt i rest.head? ++ separateUpdates rest

def separateUpdate : Rule where
  code := "DFO002"
  name := "Update separate from install"
  severity := .high
  detect d := d.staged.flatMap fun (_, is) => separateUpdates is

end LayerLint.Rule
