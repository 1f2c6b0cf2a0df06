import LayerLint.Decimal
import LayerLint.Output

/-!
# Command-line arguments

Options are long (`--format json`, `--format=json`) or short (`-f json`, `-fjson`, `-f=json`), and
short switches may be bundled (`-qv`). Everything else names a file, and so does everything behind
`--`. An option with its value in the next argument is stored only when something else follows it;
the same goes for files. So a wrong value there is noticed after an unknown name right behind it.
-/

namespace LayerLint

inductive UsageError where
  | unknownArgument
  | invalidValue
  | valueValidation
  | argumentConflict
  | tooManyValues
  deriving DecidableEq, Repr

def UsageError.message : UsageError → Text
  | .unknownArgument => "unexpected argument found"
  | .invalidValue => "one of the values isn't valid for an argument"
  | .valueValidation => "invalid value for one of the arguments"
  | .argumentConflict =>
    "an argument cannot be used with one or more of the other specified arguments"
  | .tooManyValues => "unexpected value for an argument found"

/-- Why there are no arguments to work with. -/
inductive EarlyExit where
  | help
  | version
  | usage (e : UsageError)
  deriving DecidableEq, Repr

structure Arguments where
  files : List Text
  format : Option OutputFormat
  minSeverity : Option Severity
  ignore : List Text
  estimateSize : Bool
  history : Option Text
  largeLayerMb : UInt64
  noColor : Bool
  config : Option Text
  verbose : Nat
  quiet : Bool
  deriving DecidableEq, Repr

namespace Arguments

/-- Options without a value. -/
inductive Switch where
  | estimateSize | noColor | verbose | quiet | help | version
  deriving DecidableEq, Repr

/-- What takes values. -/
inductive Slot where
  | files | format | minSeverity | ignore | history | largeLayerMb | config
  deriving DecidableEq, Repr

inductive Named where
  | switch (s : Switch)
  | slot (s : Slot)
  deriving DecidableEq, Repr

def longNames : List (Text × Named) :=
  [("format", .slot .format), ("min-severity", .slot .minSeverity), ("ignore", .slot .ignore),
   ("estimate-size", .switch .estimateSize), ("history", .slot .history),
   ("large-layer-mb", .slot .largeLayerMb), ("no-color", .switch .noColor),
   ("config", .slot .config), ("verbose", .switch .verbose), ("quiet", .switch .quiet),
   ("help", .switch .help), ("version", .switch .version)]

def shortNames : List (Char × Named) :=
  [('f', .slot .format), ('c', .slot .config), ('v', .switch .verbose), ('q', .switch .quiet),
   ('h', .switch .help), ('V', .switch .version)]

/-- What has been stored so far. -/
structure Given where
  files : List Text := []
  format : Option OutputFormat := none
  minSeverity : Option Severity := none
  ignore : List Text := []
  estimateSize : Bool := false
  history : Option Text := none
  largeLayerMb : Option UInt64 := none
  noColor : Bool := false
  config : Option Text := none
  verbose : Nat := 0
  quiet : Bool := false

abbrev Step := Except EarlyExit

def refuse {α : Type} (e : UsageError) : Step α := .error (.usage e)

/-- A value for something that may be given only once. -/
def once {α : Type} (old : Option α) (new : Step α) : Step (Option α) :=
  if old.isSome then refuse .argumentConflict else new.map some

/-- The value, or a reason to refuse it. -/
def orRefuse {α : Type} (e : UsageError) : Option α → Step α
  | some a => .ok a
  | none => refuse e

/-- A path may not be empty. -/
def path (t : Text) : Step Text := if t = [] then refuse .invalidValue else .ok t

def isComma (c : Char) : Bool := c = ','

/-- The most often that a verbosity switch counts. -/
def maxVerbose : Nat := 255

namespace Given

/-- Stores the value of an option. -/
def storeValue (g : Given) (value : Text) : Slot → Step Given
  | .files => do return { g with files := g.files ++ [← path value] }
  | .format => do
    let format := orRefuse .invalidValue (OutputFormat.ofLabel? value)
    return { g with format := ← once g.format format }
  | .minSeverity => do
    return { g with
      minSeverity := ← once g.minSeverity (orRefuse .invalidValue (Severity.ofLabel? value)) }
  | .ignore => .ok { g with ignore := g.ignore ++ value.splitOnP isComma }
  | .history => do return { g with history := ← once g.history (path value) }
  | .largeLayerMb => do
    return { g with
      largeLayerMb := ← once g.largeLayerMb (orRefuse .valueValidation (Decimal.word64? value)) }
  | .config => do return { g with config := ← once g.config (path value) }

/-- Stores the values that belong together; there has to be one. -/
def store (g : Given) (slot : Slot) (values : List Text) : Step Given :=
  if values = [] then refuse .invalidValue
  else values.foldlM (fun g value => g.storeValue value slot) g

/-- Sets a switch. -/
def set (g : Given) : Switch → Step Given
  | .estimateSize =>
    if g.estimateSize then refuse .argumentConflict else .ok { g with estimateSize := true }
  | .noColor => if g.noColor then refuse .argumentConflict else .ok { g with noColor := true }
  | .quiet => if g.quiet then refuse .argumentConflict else .ok { g with quiet := true }
  | .verbose => .ok { g with verbose := min maxVerbose (g.verbose + 1) }
  | .help => .error .help
  | .version => .error .version

end Given

/-- Values that wait to be stored. -/
structure Pending where
  slot : Slot
  values : List Text

/-- Where reading stands between two arguments. -/
structure Progress where
  given : Given := {}
  pending : Option Pending := none
  /-- Whether the next argument may be the value of an option. -/
  awaitsValue : Bool := false
  /-- Whether only files follow. -/
  onlyFiles : Bool := false

namespace Progress

/-- Stores what is pending. -/
def settle (p : Progress) : Step Given :=
  match p.pending with
  | none => .ok p.given
  | some waiting => p.given.store waiting.slot waiting.values

def setSwitch (p : Progress) (s : Switch) : Step Progress := do
  return { given := ← (← p.settle).set s }

/-- Stores a value that stands in one argument with its option. -/
def attach (p : Progress) (slot : Slot) (value : Text) : Step Progress := do
  return { given := ← (← p.settle).store slot [value] }

/-- Waits for the value of an option. -/
def await (p : Progress) (slot : Slot) : Step Progress := do
  return { given := ← p.settle, pending := some ⟨slot, []⟩, awaitsValue := true }

/-- Reads a long option, from behind its dashes. -/
def long (p : Progress) (t : Text) : Step Progress :=
  let attached := match t.dropWhile (· ≠ '=') with
    | [] => none
    | _ :: value => some value
  match longNames.lookup (t.takeWhile (· ≠ '=')), attached with
  | none, _ => refuse .unknownArgument
  | some (.switch _), some _ => refuse .tooManyValues
  | some (.switch s), none => p.setSwitch s
  | some (.slot slot), some value => p.attach slot value
  | some (.slot slot), none => p.await slot

/-- A value right behind its short option, perhaps with an equals sign between them. -/
def withoutEquals : Text → Text
  | '=' :: value => value
  | value => value

/-- Reads short options, from behind the dash. -/
def short (p : Progress) : Text → Step Progress
  | [] => .ok p
  | c :: rest =>
    match shortNames.lookup c with
    | none => refuse .unknownArgument
    | some (.switch s) => do short (← p.setSwitch s) rest
    | some (.slot slot) => if rest = [] then p.await slot else p.attach slot (withoutEquals rest)

/-- Takes an argument for the value of the option before it. -/
def takeValue (p : Progress) (value : Text) : Progress :=
  { p with
    pending := p.pending.map fun waiting => { waiting with values := waiting.values ++ [value] }
    awaitsValue := false }

/-- Takes an argument for a file. -/
def takeFile (p : Progress) (file : Text) : Step Progress :=
  match p.pending with
  | some ⟨.files, files⟩ => .ok { p with pending := some ⟨.files, files ++ [file]⟩ }
  | _ => do
    return { p with given := ← p.settle, pending := some ⟨.files, [file]⟩, awaitsValue := false }

/-- Reads one argument. -/
def next (p : Progress) (argument : Text) : Step Progress :=
  if p.onlyFiles then p.takeFile argument
  else
    match argument with
    | ['-', '-'] => .ok { p with onlyFiles := true }
    | '-' :: '-' :: t => p.long t
    | '-' :: c :: t => p.short (c :: t)
    | t => if p.awaitsValue then .ok (p.takeValue t) else p.takeFile t

end Progress

/-- The file that is read when none is named. -/
def defaultFile : Text := "Dockerfile"

/-- The size in megabytes from which layers are flagged when none is given. -/
def defaultLargeLayerMb : UInt64 := History.defaultThreshold / 1000000

/-- The arguments with the defaults for what was not given. -/
def ofGiven (g : Given) : Arguments where
  files := if g.files = [] then [defaultFile] else g.files
  format := g.format
  minSeverity := g.minSeverity
  ignore := g.ignore
  estimateSize := g.estimateSize
  history := g.history
  largeLayerMb := g.largeLayerMb.getD defaultLargeLayerMb
  noColor := g.noColor
  config := g.config
  verbose := g.verbose
  quiet := g.quiet

def parse (arguments : List Text) : Step Arguments := do
  let p ← arguments.foldlM Progress.next {}
  return ofGiven (← p.settle)

/-- The size in bytes from which layers are flagged; at most the largest number of 64 bits. -/
def largeLayerBytes (a : Arguments) : UInt64 :=
  UInt64.ofNat (min (a.largeLayerMb.toNat * 1000000) (UInt64.size - 1))

/-- The files that a run with these arguments may read by name. -/
def paths (a : Arguments) : List Text := a.config.toList ++ a.files ++ a.history.toList

/-- The most detailed level of events that is shown. -/
def logLevel (a : Arguments) : Level :=
  match a.verbose with
  | 0 => .warn
  | 1 => .info
  | 2 => .debug
  | _ => .trace

end Arguments

end LayerLint
