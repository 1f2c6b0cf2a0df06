import LayerLint.Text
import LayerLint.Text.Visible

/-!
# Quoted text

A text in double quotes, in which every character can be seen: quotes, backslashes and a few
controls have a letter behind a backslash, other unseen characters their code point.
-/

namespace LayerLint.Text

/-- One character of a quoted text. -/
def quotedChar (c : Char) : Text :=
  match c with
  | '"' => "\\\""
  | '\\' => "\\\\"
  | '\n' => "\\n"
  | '\r' => "\\r"
  | '\t' => "\\t"
  | '\x00' => "\\0"
  | c => if isVisible c then [c] else concat ["\\u\x7b", Nat.toDigits 16 c.toNat, "\x7d"]

def quoted (t : Text) : Text := '"' :: t.flatMap quotedChar ++ ['"']

end LayerLint.Text
