import LayerLint.Text

/-!
# Colours on a terminal

A painted text stands between an escape sequence that sets its style and one that resets it. Where
the text itself resets the style, the style is set again right behind.
-/

namespace LayerLint

inductive Style where
  | bold | dimmed | red | green | yellow | cyan | boldRed | boldYellow
  deriving DecidableEq, Repr

namespace Style

def codes : Style → Text
  | .bold => "1"
  | .dimmed => "2"
  | .red => "31"
  | .green => "32"
  | .yellow => "33"
  | .cyan => "36"
  | .boldRed => "1;31"
  | .boldYellow => "1;33"

/-- The sequence that sets the style. -/
def start (s : Style) : Text := Text.concat ["\x1b[", s.codes, "m"]

/-- The sequence that ends any style. -/
def reset : Text := "\x1b[0m"

/-- The text with `again` behind each reset in it. -/
def afterResets (again : Text) : Text → Text
  | '\x1b' :: '[' :: '0' :: 'm' :: rest => reset ++ again ++ afterResets again rest
  | c :: rest => c :: afterResets again rest
  | [] => []

end Style

/-- The text in a style, when colours are on. -/
def paint (colours : Bool) (s : Style) (t : Text) : Text :=
  if colours then Text.concat [s.start, Style.afterResets s.start t, Style.reset] else t

end LayerLint
