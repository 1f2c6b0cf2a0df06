import LayerLint.Log
import LayerLint.History.Size
import LayerLint.Text.Lines
import LayerLint.Text.Quoted

/-!
# Layer history of a built image

A history has one layer a line: an id, a size and the command that created it, with `|` between
them. Lines that do not have that form are passed over with a warning.
-/

namespace LayerLint

structure Layer where
  id : Text
  size : UInt64
  createdBy : Text
  deriving DecidableEq, Repr

/-- A layer that is worth a look, and what to do about it. -/
structure LargeLayer where
  layer : Layer
  recommendation : Text
  deriving DecidableEq, Repr

structure HistoryReport where
  totalBytes : UInt64
  layerCount : Nat
  /-- The layers, the largest first. -/
  layers : List Layer
  findings : List LargeLayer
  deriving DecidableEq, Repr

namespace History

/-! ## Reading -/

/-- The text before and behind the first `|`. -/
def cutAtBar? (t : Text) : Option (Text × Text) :=
  match t.dropWhile (· ≠ '|') with
  | [] => none
  | _ :: rest => some (t.takeWhile (· ≠ '|'), rest)

/-- The id, the size and the command of a line; the command may contain further bars. -/
def fields? (line : Text) : Option (Text × Text × Text) := do
  let (id, rest) ← cutAtBar? line
  let (size, createdBy) ← cutAtBar? rest
  some (id, size, createdBy)

def lineWarning (number : Nat) (problem : Text) : Event :=
  ⟨.warn, Text.concat ["history line ", Text.ofNat number, ": ", problem]⟩

/-- What a numbered line holds: nothing, a layer, or a reason why it is none. -/
def readLine (number : Nat) (line : Text) : Option (Except Event Layer) :=
  let line := line.trim
  if line = [] then none
  else
    match fields? line with
    | none => some (.error (lineWarning number "expected id|size|createdBy"))
    | some (id, size, createdBy) =>
      match parseSize? size with
      | none =>
        some (.error (lineWarning number (Text.concat ["unrecognized size ", size.quoted])))
      | some bytes => some (.ok { id := id.trim, size := bytes, createdBy := createdBy.trim })

def readLines (t : Text) : List (Except Event Layer) :=
  t.numberedLines.filterMap fun (number, line) => readLine number line

def layersOf (rs : List (Except Event Layer)) : List Layer :=
  rs.filterMap fun
    | .ok layer => some layer
    | .error _ => none

def warningsOf (rs : List (Except Event Layer)) : List Event :=
  rs.filterMap fun
    | .ok _ => none
    | .error warning => some warning

/-- The layers of a history text. -/
def parse (t : Text) : List Layer := layersOf (readLines t)

/-- The warnings about a history text. -/
def warnings (t : Text) : List Event := warningsOf (readLines t)

/-- The events of reading a history text. -/
def parseEvents (t : Text) : List Event :=
  warnings t
    ++ [⟨.debug, Text.concat ["parsed ", Text.ofNat (parse t).length, " history layer(s)"]⟩]

/-! ## Analysis -/

/-- What to do about a layer, by the command that created it. -/
def recommendation (createdBy : Text) : Text :=
  let command := createdBy.lower
  let runs := fun (needles : List Text) => needles.any fun needle => Text.mentions needle command
  if runs ["apt-get install", "apt install"] then
    "Use --no-install-recommends and remove /var/lib/apt/lists/* in the same RUN."
  else if runs ["apk add"] then "Use `apk add --no-cache`."
  else if runs ["yum install", "dnf install"] then
    "Run `yum clean all` in the same RUN as the install."
  else if runs ["npm install", "npm ci", "yarn"] then
    "Install only production dependencies, or build in a separate stage."
  else if runs ["pip install"] then "Use `pip install --no-cache-dir`."
  else if runs ["copy", "add "] then
    "Copy only what the image needs and keep build artifacts out via .dockerignore."
  else "Check whether this layer's content is needed in the final image."

/-- The sum, or the largest number of 64 bits when the sum does not fit. -/
def addSaturating (a b : UInt64) : UInt64 :=
  UInt64.ofNat (min (a.toNat + b.toNat) (UInt64.size - 1))

def totalBytes (layers : List Layer) : UInt64 :=
  layers.foldl (fun total l => addSaturating total l.size) 0

/-- The largest first; layers of one size stay in order. -/
def sortBySize (layers : List Layer) : List Layer := layers.mergeSort fun a b => b.size ≤ a.size

/-- A report on layers that flags those of at least `threshold` bytes. -/
def analyze (layers : List Layer) (threshold : UInt64) : HistoryReport where
  totalBytes := totalBytes layers
  layerCount := layers.length
  layers := sortBySize layers
  findings := ((sortBySize layers).filter fun l => threshold ≤ l.size).map fun l =>
    { layer := l, recommendation := recommendation l.createdBy }

/-- The size in bytes from which a layer is flagged by default. -/
def defaultThreshold : UInt64 := 50000000

end History

end LayerLint
