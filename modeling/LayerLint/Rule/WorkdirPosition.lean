import LayerLint.Rule

/-!
# `WORKDIR` after `COPY` or `RUN`
-/

namespace LayerLint.Rule

def workdirSuggestion (s : Stage) (i : Instruction) : Suggestion where
  code := "DFO008"
  severity := .low
  title := Text.concat ["WORKDIR set after COPY/RUN in stage `", s.name, "`"]
  recommendation :=
    "Set WORKDIR right after FROM so every later instruction uses the same, explicit directory."
  lines := [i.line]
  before := none
  after := none

/-- A suggestion for each `WORKDIR` once a `COPY` or `RUN` has been seen. -/
def lateWorkdirs (s : Stage) : (seen : Bool) → List Instruction → List Suggestion
  | _, [] => []
  | seen, i :: rest =>
    match i.directive with
    | .copy | .run => lateWorkdirs s true rest
    | .workdir => (if seen then [workdirSuggestion s i] else []) ++ lateWorkdirs s seen rest
    | _ => lateWorkdirs s seen rest

def workdirPosition : Rule where
  code := "DFO008"
  name := "Set WORKDIR early"
  severity := .low
  detect d := d.staged.flatMap fun (s, is) => lateWorkdirs s false is

end LayerLint.Rule
