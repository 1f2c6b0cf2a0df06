import LayerLint.Decimal.Shortest

/-!
# JSON values and their text

A value is written on one line or over several. Over several lines each member of an array or
object has its own, indented by two spaces a level; empty arrays and objects stay on one line.
-/

namespace LayerLint

inductive Json where
  | bool (b : Bool)
  | nat (n : Nat)
  | float (x : Float)
  | string (t : Text)
  | array (items : List Json)
  | object (fields : List (Text × Json))

namespace Json

/-- One character of a string: quotes, backslashes and controls are escaped. -/
def escapedChar (c : Char) : Text :=
  match c with
  | '"' => "\\\""
  | '\\' => "\\\\"
  | '\x08' => "\\b"
  | '\t' => "\\t"
  | '\n' => "\\n"
  | '\x0c' => "\\f"
  | '\r' => "\\r"
  | c =>
    if c.toNat < 0x10 then Text.concat ["\\u000", Nat.toDigits 16 c.toNat]
    else if c.toNat < 0x20 then Text.concat ["\\u00", Nat.toDigits 16 c.toNat]
    else [c]

def quote (t : Text) : Text := '"' :: t.flatMap escapedChar ++ ['"']

/-- How a value is laid out: on one line, or over several from a level of indentation on. -/
inductive Layout where
  | oneLine
  | lines (level : Nat)

namespace Layout

def deeper : Layout → Layout
  | .oneLine => .oneLine
  | .lines level => .lines (level + 1)

/-- What stands in front of each member. -/
def lineBreak : Layout → Text
  | .oneLine => []
  | .lines level => '\n' :: List.replicate (2 * level) ' '

/-- What stands between a name and its value. -/
def colon : Layout → Text
  | .oneLine => ":"
  | .lines _ => ": "

/-- Members between brackets. -/
def enclose (l : Layout) (left right : Char) (members : List Text) : Text :=
  if members = [] then [left, right]
  else
    Text.concat [[left], l.deeper.lineBreak,
      Text.join (',' :: l.deeper.lineBreak) members, l.lineBreak, [right]]

end Layout

mutual

def render (l : Layout) : Json → Text
  | .bool true => "true"
  | .bool false => "false"
  | .nat n => Text.ofNat n
  | .float x => Decimal.shortest x
  | .string t => quote t
  | .array items => l.enclose '[' ']' (renderItems l.deeper items)
  | .object fields => l.enclose '\x7b' '\x7d' (renderFields l.deeper fields)

def renderItems (l : Layout) : List Json → List Text
  | [] => []
  | item :: rest => render l item :: renderItems l rest

def renderFields (l : Layout) : List (Text × Json) → List Text
  | [] => []
  | (name, value) :: rest =>
    Text.concat [quote name, l.colon, render l value] :: renderFields l rest

end

end Json

end LayerLint
