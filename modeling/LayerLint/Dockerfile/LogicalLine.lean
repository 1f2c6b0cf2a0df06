import LayerLint.Text.Blank
import LayerLint.Text.Lines

/-!
# Logical lines

A physical line that ends in a backslash goes on in the next one. Blank lines and comments are
passed over everywhere, also between the parts of a continued line. A continuation that the end of
the text cuts off is kept as it stands.
-/

namespace LayerLint

structure LogicalLine where
  /-- Number of the first physical line. -/
  line : Nat
  /-- The parts joined by single spaces, without the continuation marks. -/
  text : Text
  /-- The physical lines, each without the white space at its end. -/
  raw : Text
  /-- Whether there is more than one physical line. -/
  continued : Bool
  deriving DecidableEq, Repr

/-- A line that is blank or holds only a comment. -/
def isSkippable (line : Text) : Bool :=
  match line.trim with
  | [] => true
  | c :: _ => c = '#'

/-- Whether the line ends in a continuation mark. -/
def continues (line : Text) : Bool := line.trimEnd.getLast? = some '\\'

/-- The line without its continuation mark and without the white space around the rest. -/
def body (line : Text) : Text :=
  Text.trim (if continues line then line.trimEnd.dropLast else line.trimEnd)

namespace LogicalLine

def ofLine (number : Nat) (line : Text) : LogicalLine :=
  { line := number, text := body line, raw := line.trimEnd, continued := false }

/-- Adds a physical line to a line that is continued. -/
def extend (l : LogicalLine) (line : Text) : LogicalLine :=
  { l with
    text := if body line = [] then l.text
      else if l.text = [] then body line
      else l.text ++ ' ' :: body line
    raw := l.raw ++ '\n' :: line.trimEnd
    continued := true }

/-- Reads numbered physical lines; `pending` is the line that waits for its continuation. -/
def scan : (pending : Option LogicalLine) → List (Nat × Text) → List LogicalLine
  | pending, [] => pending.toList
  | pending, (number, line) :: rest =>
    if isSkippable line then scan pending rest
    else
      let current := match pending with
        | none => ofLine number line
        | some l => l.extend line
      if continues line then scan (some current) rest else current :: scan none rest

def ofText (t : Text) : List LogicalLine := scan none t.numberedLines

end LogicalLine

end LayerLint
