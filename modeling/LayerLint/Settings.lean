import LayerLint.Output
import LayerLint.Toml

/-!
# Settings

What a settings file can say. Every key may be missing and unknown keys do not matter, but a known
key needs a value of its type.
-/

namespace LayerLint

structure Settings where
  minSeverity : Severity := .low
  ignoreRules : List Text := []
  format : OutputFormat := .tty
  color : Bool := true
  estimateSize : Bool := false
  deriving DecidableEq, Repr

namespace Settings

/-- The name of a settings file in the working directory or the home directory. -/
def fileName : Text := ".dockerfile-optimizer.toml"

/-- One of a few words: as a string, or as the only name in a table, with nothing under it. -/
def word? : Toml.Value → Option Text
  | .string t => some t
  | .table _ [(name, .table _ [])] => some name
  | .table _ [(name, .array [])] => some name
  | _ => none

def boolean? : Toml.Value → Option Bool
  | .boolean b => some b
  | _ => none

def string? : Toml.Value → Option Text
  | .string t => some t
  | _ => none

def strings? : Toml.Value → Option (List Text)
  | .array items => items.mapM string?
  | _ => none

/-- The value of a key: the default when the key is missing, nothing when its value is wrong. -/
def get? {α : Type} (entries : Toml.Entries) (key : Text) (read : Toml.Value → Option α)
    (default : α) : Option α :=
  match entries.get? key with
  | none => some default
  | some value => read value

def ofEntries? (entries : Toml.Entries) : Option Settings := do
  let default : Settings := {}
  let minSeverity ← get? entries "min_severity" (fun v => (word? v).bind Severity.ofLabel?)
    default.minSeverity
  let ignoreRules ← get? entries "ignore_rules" strings? default.ignoreRules
  let format ← get? entries "format" (fun v => (word? v).bind OutputFormat.ofLabel?) default.format
  let color ← get? entries "color" boolean? default.color
  let estimateSize ← get? entries "estimate_size" boolean? default.estimateSize
  some { minSeverity, ignoreRules, format, color, estimateSize }

/-- The settings of a file's text. -/
def parse? (t : Text) : Option Settings := (Toml.parse? t).bind ofEntries?

end Settings

end LayerLint
