import LayerLint.Report
import LayerLint.Estimate
import LayerLint.History

/-!
# What is shown about one file
-/

namespace LayerLint

/-- The forms of output. -/
inductive OutputFormat where
  | tty | json
  deriving DecidableEq, Repr

namespace OutputFormat

def all : List OutputFormat := [.tty, .json]

def label : OutputFormat → Text
  | .tty => "tty"
  | .json => "json"

def ofLabel? (word : Text) : Option OutputFormat := all.find? fun f => f.label = word

end OutputFormat

structure FileOutput where
  file : Text
  report : Report
  estimate : Option Estimate
  history : Option HistoryReport

/-- The outputs for named reports: each with an estimate if wanted, the first with the history. -/
def FileOutput.ofReports (estimateSize : Bool) (history : Option HistoryReport)
    (reports : List (Text × Report)) : List FileOutput :=
  reports.zipIdx.map fun ((file, report), k) =>
    { file
      report
      estimate := if estimateSize then some (Estimate.ofDockerfile report.dockerfile) else none
      history := if k = 0 then history else none }

end LayerLint
