import LayerLint.Dockerfile.Instruction

/-!
# Build stages

A `FROM` opens a stage. Its clause is `[--flag ...] image [AS name]`, with spaces and tabs between
the parts. The stages cut the list of instructions into consecutive pieces: what stands before the
first `FROM` belongs to the first stage, and without any `FROM` all is one stage.
-/

namespace LayerLint

structure Stage where
  /-- Position in the file, from zero. -/
  index : Nat
  /-- The name that its `FROM` gives, or `stage_` and the index. -/
  name : Text
  /-- The base image as written; empty when there is none. -/
  baseImage : Text
  /-- The name that its `FROM` gives, if any. -/
  givenName : Option Text
  startLine : Nat
  /-- Position of the first instruction. -/
  start : Nat
  /-- Position behind the last instruction. -/
  stop : Nat
  deriving DecidableEq, Repr

namespace Stage

/-- Number of instructions. -/
def size (s : Stage) : Nat := s.stop - s.start

def Contains (s : Stage) (position : Nat) : Prop := s.start ≤ position ∧ position < s.stop

instance (s : Stage) (position : Nat) : Decidable (s.Contains position) :=
  inferInstanceAs (Decidable (_ ∧ _))

/-! ## The clause of a `FROM` -/

theorem length_after_flag_le (rest : Text) :
    (rest.afterFirstWord.dropWhile isSpaceOrTab).length ≤ rest.length :=
  Nat.le_trans (List.dropWhile_sublist isSpaceOrTab).length_le
    (List.dropWhile_sublist (fun c => !isBlank c)).length_le

/-- What stands behind the flags. -/
def afterFlags : Text → Text
  | '-' :: '-' :: rest => afterFlags ((Text.afterFirstWord rest).dropWhile isSpaceOrTab)
  | clause => clause
termination_by clause => clause.length
decreasing_by
  have := length_after_flag_le rest
  simp only [List.length_cons]
  omega

/-- The name when the text starts with `AS`, a space or tab, and a word. -/
def givenName? : Text → Option Text
  | a :: s :: gap :: rest =>
    if Text.sameLetters [a, s] "as" && isSpaceOrTab gap then
      match Text.firstWord (rest.dropWhile isSpaceOrTab) with
      | [] => none
      | name => some name
    else none
  | _ => none

/-- The base image and the given name of a clause. -/
def clause (text : Text) : Text × Option Text :=
  let unflagged := afterFlags text
  (unflagged.firstWord, givenName? (unflagged.afterFirstWord.dropWhile isSpaceOrTab))

/-! ## Stages of a list of instructions -/

def defaultName (index : Nat) : Text := Text.concat ["stage_", Text.ofNat index]

/-- The stage that a `FROM` opens. -/
def ofFrom (index : Nat) (opener : Instruction) (start stop : Nat) : Stage :=
  let (baseImage, givenName) := clause opener.argsText
  { index, name := givenName.getD (defaultName index), baseImage, givenName
    startLine := opener.line, start, stop }

/-- The last stage ends at `stop`. -/
def closeLast (stop : Nat) : List Stage → List Stage
  | [] => []
  | [s] => [{ s with stop }]
  | s :: t :: rest => s :: closeLast stop (t :: rest)

/-- The first stage takes in what stands before its `FROM`. -/
def startFirst : List Stage → List Stage
  | [] => []
  | s :: rest => { s with start := 0 } :: rest

/-- A `FROM` ends the stage before it and opens one, which is empty so far. -/
def step (stages : List Stage) : Instruction × Nat → List Stage
  | (i, position) =>
    if i.directive = .from then
      closeLast position stages ++ [ofFrom stages.length i position position]
    else stages

/-- The stage of instructions without a `FROM`, which is empty so far. -/
def unopened (is : List Instruction) : Stage where
  index := 0
  name := defaultName 0
  baseImage := []
  givenName := none
  startLine := match is with
    | [] => 1
    | first :: _ => first.line
  start := 0
  stop := 0

def ofInstructions (is : List Instruction) : List Stage :=
  closeLast is.length <| match is.zipIdx.foldl step [] with
    | [] => [unopened is]
    | opened => startFirst opened

end Stage

end LayerLint
