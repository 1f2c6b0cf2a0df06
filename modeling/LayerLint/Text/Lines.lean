import LayerLint.Text

/-!
# Physical lines

A line ends at a line feed; one carriage return right before it belongs to the line end. A text
that ends with a line feed has no further, empty line.
-/

namespace LayerLint.Text

def lines : Text → List Text
  | [] => []
  | '\n' :: rest => [] :: lines rest
  | '\r' :: '\n' :: rest => [] :: lines rest
  | c :: rest =>
    match lines rest with
    | [] => [[c]]
    | line :: more => (c :: line) :: more

/-- The lines with their numbers, counted from one. -/
def numberedLines (t : Text) : List (Nat × Text) :=
  (lines t).zipIdx.map fun (line, k) => (k + 1, line)

end LayerLint.Text
