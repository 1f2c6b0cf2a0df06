import LayerLint.Decimal
import LayerLint.Output
import LayerLint.Output.Paint
import LayerLint.Text.Lines

/-!
# Output for a terminal

Each file has a heading, its suggestions grouped by stage, a line of totals, and then its size
estimate and layer history where there are any. Files stand apart by an empty line.
-/

namespace LayerLint.Terminal

/-- The ending of a noun behind a count. -/
def plural (n : Nat) : Text := if n = 1 then [] else ['s']

/-- A count and its noun. -/
def counted (n : Nat) (noun : Text) : Text := Text.concat [Text.ofNat n, " ", noun, plural n]

def badge (colours : Bool) (s : Severity) : Text :=
  match s with
  | .high => paint colours .boldRed "HIGH  "
  | .medium => paint colours .boldYellow "MEDIUM"
  | .low => paint colours .cyan "LOW   "

def snippet (colours : Bool) (heading : Text) (style : Style) (t : Text) : List Text :=
  Text.concat ["         ", paint colours .dimmed heading]
    :: t.lines.map fun line => Text.concat ["           ", paint colours style line]

/-- The snippets of a suggestion that has both. -/
def snippets (colours : Bool) (s : Suggestion) : List Text :=
  match s.before, s.after with
  | some before, some after =>
    snippet colours "before:" .red before ++ snippet colours "after:" .green after
  | _, _ => []

def suggestion (colours : Bool) (s : Suggestion) : List Text :=
  let cited := Text.concat ["line ", Text.join "," (s.lines.map Text.ofNat)]
  [Text.concat ["  ", badge colours s.severity, " ", paint colours .dimmed s.code, " ",
      paint colours .dimmed cited, " ", s.title],
    Text.concat ["         ", s.recommendation]]
  ++ snippets colours s

def stageHeading : Option Stage → Text
  | some s =>
    if s.baseImage = [] then Text.concat ["Stage ", s.name]
    else Text.concat ["Stage ", s.name, " (FROM ", s.baseImage, ")"]
  | none => "General"

def group (colours : Bool) (g : StageGroup) : List Text :=
  [[], paint colours .bold (stageHeading g.stage)] ++ g.suggestions.flatMap (suggestion colours)

/-- The counts by severity, without those that are zero. -/
def severityCounts (s : Summary) : List Text :=
  (Severity.all.filter fun severity => 0 < s.count severity).map fun severity =>
    Text.concat [Text.ofNat (s.count severity), " ", severity.label]

def totals (colours : Bool) (s : Summary) : Text :=
  if severityCounts s = [] then paint colours .green "No optimization suggestions."
  else
    Text.concat [counted s.totalSuggestions "suggestion", ": ", Text.join ", " (severityCounts s)]

def report (colours : Bool) (min : Severity) (file : Text) (r : Report) : List Text :=
  let groups := r.byStage min
  [Text.concat [paint colours .bold file, ": ",
      counted r.summary.totalInstructions "instruction", ", ",
      counted r.summary.totalStages "stage"]]
  ++ (if groups = [] then
      [Text.concat ["  No suggestions at or above ", min.label, " severity."]]
    else [])
  ++ groups.flatMap (group colours)
  ++ [[], totals colours r.summary]

def contribution (c : Contribution) : Text :=
  Text.concat ["  line ", (Text.ofNat c.line).padRight 4, " ", (Decimal.fixed 1 c.mb).padLeft 7,
    "MB  ", c.label]

def estimate (colours : Bool) (e : Estimate) : List Text :=
  [[], Text.concat
    [paint colours .bold "Estimated image size:", " ~", Decimal.fixed 0 e.estimatedMb,
    "MB (base ", e.baseImage, " ~", Decimal.fixed 0 e.baseMb, "MB)"]]
  ++ e.breakdown.map contribution
  ++ e.recommendations.map fun r => Text.concat ["  - ", r]

def largeLayer (colours : Bool) (f : LargeLayer) : List Text :=
  [Text.concat ["  ", paint colours .yellow ((History.formatBytes f.layer.size).padLeft 9), " ",
      f.layer.createdBy],
    Text.concat ["            ", f.recommendation]]

def history (colours : Bool) (h : HistoryReport) : List Text :=
  [[], Text.concat [paint colours .bold "Image history:", " ", Text.ofNat h.layerCount, " layers, ",
    History.formatBytes h.totalBytes, " total"]]
  ++ h.findings.flatMap (largeLayer colours)

/-- The lines about a file. -/
def file (colours : Bool) (min : Severity) (o : FileOutput) : List Text :=
  report colours min o.file o.report
  ++ (match o.estimate with
    | some e => estimate colours e
    | none => [])
  ++ (match o.history with
    | some h => history colours h
    | none => [])

def render (colours : Bool) (min : Severity) (outputs : List FileOutput) : Text :=
  Text.join ['\n'] (outputs.map fun o => Text.unlines (file colours min o))

end LayerLint.Terminal
