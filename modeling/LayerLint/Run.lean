import LayerLint.Arguments
import LayerLint.Output.Render
import LayerLint.World

/-!
# One run of the program

A run reads its settings, then the Dockerfiles, then the layer history, and writes all reports at
the end; when anything cannot be read it writes nothing. It ends with status 2 when a report has a
suggestion of high severity, whatever is shown, and with status 1 when something could not be
read.
-/

namespace LayerLint

def usageLine : Text := "Usage: dockerfile-optimizer [OPTIONS] [FILES]..."

/-- Why a run could not do its work. -/
inductive Failure where
  | usage (e : UsageError)
  | settings (f : SettingsFault)
  | file (path : Text) (fault : ReadFault)
  deriving DecidableEq, Repr

namespace Failure

def fileMessage (path : Text) (fault : ReadFault) : Text :=
  Text.concat ["Failed to read ", path, ": ", fault.message]

/-- What is written about the failure, the cause repeated behind the message. -/
def line : Failure → Text
  | .usage e => Text.join "\n\n"
    [Text.concat ["error: ", e.message], usageLine, "For more information, try '--help'."]
  | .settings f => Text.concat ["Error: ", f.fullMessage]
  | .file path fault => Text.concat ["Error: ", fileMessage path fault, ": ", fault.message]

/-- Arguments that are refused end a run with status 2, other failures with 1. -/
def exitCode : Failure → Nat
  | .usage _ => 2
  | .settings _ | .file _ _ => 1

end Failure

structure Outcome where
  exitCode : Nat
  output : Text
  /-- The events that are shown. -/
  events : List Event
  failure : Option Failure

/-! ## Reading files -/

def readFile (w : World) (path : Text) : Except Failure Text :=
  (w.read path).mapError (.file path)

/-- The report on the Dockerfile at a path. -/
def analyzeFile (w : World) (ignore : List Text) (path : Text) : Except Failure Report :=
  (readFile w path).map (analyze ignore)

/-- The layers of the history at a path. -/
def loadHistory (w : World) (path : Text) : Except Failure (List Layer) :=
  (readFile w path).map History.parse

/-! ## Settings and arguments together -/

/-- What a run goes by; arguments come before settings. -/
structure Plan where
  files : List Text
  history : Option Text
  threshold : UInt64
  ignore : List Text
  format : OutputFormat
  minSeverity : Severity
  colours : Bool
  estimateSize : Bool
  deriving DecidableEq, Repr

def Plan.ofArguments (w : World) (a : Arguments) (s : Settings) : Plan where
  files := a.files
  history := a.history
  threshold := a.largeLayerBytes
  ignore := (s.ignoreRules ++ a.ignore).map Text.trim
  format := a.format.getD s.format
  minSeverity := a.minSeverity.getD s.minSeverity
  colours := w.allowsColours && s.color && !a.noColor
  estimateSize := a.estimateSize || s.estimateSize

namespace Plan

/-- What is read: a report for each file, and the layers of the history. -/
def gather (p : Plan) (w : World) : Except Failure (List Report × Option (List Layer)) := do
  let reports ← p.files.mapM (analyzeFile w p.ignore)
  match p.history with
  | none => return (reports, none)
  | some path => return (reports, some (← loadHistory w path))

def outputs (p : Plan) (reports : List Report) (layers : Option (List Layer)) : List FileOutput :=
  FileOutput.ofReports p.estimateSize (layers.map fun ls => History.analyze ls p.threshold)
    (p.files.zip reports)

def render (p : Plan) (reports : List Report) (layers : Option (List Layer)) : Text :=
  p.format.render p.minSeverity p.colours (p.outputs reports layers)

/-- The events of reading the files, up to the first that cannot be read. -/
def fileEvents (p : Plan) (w : World) : List Event :=
  let readable := p.files.takeWhile fun path => (w.read path).isOk
  readable.flatMap fun path =>
    match w.read path with
    | .ok t => analyzeEvents p.ignore t
    | .error _ => []

/-- The events of reading the history, once all files have been read. -/
def historyEvents (p : Plan) (w : World) : List Event :=
  match p.history with
  | none => []
  | some path =>
    match w.read path with
    | .ok t => if p.files.all fun file => (w.read file).isOk then History.parseEvents t else []
    | .error _ => []

def events (p : Plan) (w : World) : List Event :=
  ⟨.info, Text.concat ["analyzing ", Text.ofNat p.files.length, " file(s)"]⟩
    :: (p.fileEvents w ++ p.historyEvents w)

end Plan

/-! ## Runs -/

/-- The events that the arguments let through. -/
def shownEvents (a : Arguments) (events : List Event) : List Event :=
  if a.quiet then [] else events.filter fun e => e.level.rank ≤ a.logLevel.rank

def Outcome.ofFailure (f : Failure) (events : List Event) : Outcome :=
  { exitCode := f.exitCode, output := [], events, failure := some f }

/-- The status of a run that has read everything. -/
def statusOf (reports : List Report) : Nat := if reports.any (·.hasHigh) then 2 else 0

/-- A run with arguments that are understood. -/
def runArguments (w : World) (a : Arguments) : Outcome :=
  match w.settings a.config with
  | .error fault => Outcome.ofFailure (.settings fault) []
  | .ok (settings, warnings) =>
    let p := Plan.ofArguments w a settings
    let events := shownEvents a (warnings ++ p.events w)
    match p.gather w with
    | .error f => Outcome.ofFailure f events
    | .ok (reports, layers) =>
      { exitCode := statusOf reports, output := p.render reports layers, events, failure := none }

def versionText : Text := "dockerfile-optimizer 0.4.0\n"

/-! ## Help -/

def helpIndent (line : Text) : Text := Text.concat ["          ", line]

/-- An entry of the help: how it is written, and below that what it stands for. -/
def helpEntry (spelling : Text) (lines : List Text) : List Text :=
  Text.concat ["  ", spelling] :: lines.map helpIndent

def helpOptions : List (List Text) :=
  [helpEntry "-f, --format <FORMAT>" ["Output format"]
     ++ [] :: ["Possible values:".toList, "- tty:  Human-readable colored output".toList,
       "- json: JSON output for CI pipelines".toList].map helpIndent,
   helpEntry "    --min-severity <SEVERITY>"
     ["Only show suggestions at or above this severity", "",
      "[possible values: high, medium, low]"],
   helpEntry "    --ignore <CODE>" ["Rule codes to skip (e.g. DFO007)"],
   helpEntry "    --estimate-size" ["Print a heuristic estimate of the final image size"],
   helpEntry "    --history <FILE>"
     ["Analyze a `docker history` report (id|size|createdBy per line)"],
   helpEntry "    --large-layer-mb <MB>"
     ["Layer size in MB from which history layers are reported", "",
      Text.concat ["[default: ", Text.ofNat Arguments.defaultLargeLayerMb.toNat, "]"]],
   helpEntry "    --no-color" ["Disable colored output"],
   helpEntry "-c, --config <FILE>" ["Path to configuration file"],
   helpEntry "-v, --verbose..."
     ["Enable verbose logging (-v for info, -vv for debug, -vvv for trace)"],
   helpEntry "-q, --quiet" ["Disable logging"],
   helpEntry "-h, --help" ["Print help (see a summary with '-h')"],
   helpEntry "-V, --version" ["Print version"]]

def helpText : Text :=
  Text.unlines (
    [Text.concat
       ["Parses Dockerfiles into instructions and build stages, checks them against a set of ",
        "caching and image-size rules, and reports prioritized suggestions with before/after ",
        "snippets."],
     [], usageLine, [], "Arguments:"]
    ++ helpEntry "[FILES]..."
      ["Dockerfiles to analyze", "", Text.concat ["[default: ", Arguments.defaultFile, "]"]]
    ++ [[], "Options:"]
    ++ List.intercalate [[]] helpOptions)

/-! ## The program -/

/-- The program as a function of what it sees and of its arguments. -/
def run (w : World) (arguments : List Text) : Outcome :=
  match Arguments.parse arguments with
  | .error .help => { exitCode := 0, output := helpText, events := [], failure := none }
  | .error .version => { exitCode := 0, output := versionText, events := [], failure := none }
  | .error (.usage e) => Outcome.ofFailure (.usage e) []
  | .ok a => runArguments w a

end LayerLint
