import LayerLint.Json
import LayerLint.Output

/-!
# Output as a JSON document

All files together are one array, with an object for each file. Fields without a value are left
out.
-/

namespace LayerLint.Document

/-- A field that is there only with a value. -/
def optional {α : Type} (name : Text) (f : α → Json) (a : Option α) : List (Text × Json) :=
  (a.map fun a => (name, f a)).toList

/-- An object from groups of fields. -/
def ofParts (parts : List (List (Text × Json))) : Json := .object parts.flatten

def ofSummary (s : Summary) : Json :=
  .object [("total_instructions", .nat s.totalInstructions), ("total_stages", .nat s.totalStages),
    ("multi_stage", .bool s.multiStage), ("high", .nat s.high), ("medium", .nat s.medium),
    ("low", .nat s.low), ("total_suggestions", .nat s.totalSuggestions)]

def ofStage (s : Stage) : Json :=
  ofParts
    [[("index", .nat s.index), ("name", .string s.name), ("base_image", .string s.baseImage)],
      optional "alias" .string s.givenName, [("start_line", .nat s.startLine)]]

def ofSuggestion (s : Suggestion) : Json :=
  ofParts
    [[("code", .string s.code), ("severity", .string s.severity.label), ("title", .string s.title),
        ("recommendation", .string s.recommendation), ("lines", .array (s.lines.map .nat))],
      optional "before" .string s.before, optional "after" .string s.after]

def ofContribution (c : Contribution) : Json :=
  .object [("line", .nat c.line), ("label", .string c.label), ("mb", .float c.mb)]

def ofEstimate (e : Estimate) : Json :=
  .object [("base_image", .string e.baseImage), ("base_mb", .float e.baseMb),
    ("estimated_mb", .float e.estimatedMb), ("breakdown", .array (e.breakdown.map ofContribution)),
    ("recommendations", .array (e.recommendations.map .string))]

def layerFields (l : Layer) : List (Text × Json) :=
  [("id", .string l.id), ("size_bytes", .nat l.size.toNat), ("created_by", .string l.createdBy)]

def ofHistory (h : HistoryReport) : Json :=
  .object [("total_bytes", .nat h.totalBytes.toNat), ("layer_count", .nat h.layerCount),
    ("layers", .array (h.layers.map fun l => .object (layerFields l))),
    ("findings", .array (h.findings.map fun f =>
      ofParts [layerFields f.layer, [("recommendation", .string f.recommendation)]]))]

/-- The object of a file, with its suggestions at or above a severity. -/
def ofFile (min : Severity) (o : FileOutput) : Json :=
  ofParts
    [[("file", .string o.file), ("summary", ofSummary o.report.summary),
        ("base_images", .array (o.report.dockerfile.baseImages.map .string)),
        ("stages", .array (o.report.dockerfile.stages.map ofStage)),
        ("suggestions", .array ((o.report.atLeast min).map ofSuggestion))],
      optional "size_estimate" ofEstimate o.estimate, optional "history" ofHistory o.history]

/-- The document, with a line feed at its end. -/
def render (layout : Json.Layout) (min : Severity) (outputs : List FileOutput) : Text :=
  (Json.array (outputs.map (ofFile min))).render layout ++ ['\n']

end LayerLint.Document
