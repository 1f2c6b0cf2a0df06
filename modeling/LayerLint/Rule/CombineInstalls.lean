import LayerLint.Rule
import LayerLint.Command.Manager

/-!
# Several installs by one manager

Every `RUN` of a stage that installs with the same manager adds a layer and resolves the index
again. They can be one `RUN`.
-/

namespace LayerLint.Rule

/-- The `RUN`s among the instructions. -/
def runs (is : List Instruction) : List Instruction := is.filter fun i => i.directive = .run

/-- One more `RUN` under the manager it installs with; a manager that is new comes last. -/
def addInstall (run : Instruction) (m : PackageManager) :
    List (PackageManager × List Instruction) → List (PackageManager × List Instruction)
  | [] => [(m, [run])]
  | (m', runs) :: rest =>
    if m' = m then (m', runs ++ [run]) :: rest else (m', runs) :: addInstall run m rest

/-- The `RUN`s listed under each manager that they install with. -/
def installTable (is : List Instruction) : List (PackageManager × List Instruction) :=
  (runs is).foldl
    (fun table i => (installManagers i.command).foldl (fun table m => addInstall i m table) table)
    []

/-- The commands as one `RUN`. -/
def mergedRun (commands : List Text) : Text :=
  Text.concat ["RUN ", Text.join " \\\n    && " commands]

def combineInstallsSuggestion (s : Stage) (m : PackageManager) (is : List Instruction) :
    Suggestion where
  code := "DFO001"
  severity := .high
  title := Text.concat [Text.ofNat is.length, " separate `", m.command,
    "` install layers in stage `", s.name, "`"]
  recommendation := Text.concat ["Combine the `", m.command,
    "` installs into a single RUN so packages are resolved once and cached as one layer."]
  lines := is.map (·.line)
  before := some (Text.join "\n" (is.map (·.raw)))
  after := some (mergedRun (is.map (·.command)))

/-- What is reported about one stage. -/
def repeatedInstalls (s : Stage) (is : List Instruction) : List Suggestion :=
  ((installTable is).filter fun (_, runs) => 2 ≤ runs.length).map fun (m, runs) =>
    combineInstallsSuggestion s m runs

def combineInstalls : Rule where
  code := "DFO001"
  name := "Combine package installs"
  severity := .high
  detect d := d.staged.flatMap fun (s, is) => repeatedInstalls s is

end LayerLint.Rule
