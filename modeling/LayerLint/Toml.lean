import LayerLint.Toml.Scalar

/-!
# TOML documents

`Toml.parse?` reads a whole document into the entries of its top table, or finds that it is not
valid: keys given twice, tables defined twice, values nested deeper than eighty levels and keys of
more than eighty names are not. An assignment stands on one line, but inside an inline table line
ends and comments may stand wherever a space may, save within a key.
-/

namespace LayerLint.Toml

/-- What follows spaces, tabs, line ends and comments. -/
def skipTrivia? : (inComment : Bool) → Text → Option Text
  | _, [] => some []
  | _, '\n' :: rest => skipTrivia? false rest
  | _, '\r' :: '\n' :: rest => skipTrivia? false rest
  | true, c :: rest => if isControl c then none else skipTrivia? true rest
  | false, c :: rest =>
    if isGap c then skipTrivia? false rest
    else if c = '#' then skipTrivia? true rest
    else some (c :: rest)

/-- The next line, when nothing but spaces, tabs and a comment is left on this one. -/
def lineEnd? (t : Text) : Option Text :=
  match skipGap t with
  | [] => some []
  | '\n' :: rest => some rest
  | '\r' :: '\n' :: rest => some rest
  | '#' :: rest => skipTrivia? true rest
  | _ => none

/-- A reader of values. -/
abbrev Reader := Text → Option (Value × Text)

/-- A key, an equals sign and a value, and what follows them; `skip?` skips what may stand on either
side of the sign. -/
def assignment? (skip? : Text → Option Text) (value? : Reader) (t : Text) :
    Option ((List Text × Text × Value) × Text) := do
  let ((path, key), rest) ← key? t
  match ← skip? rest with
  | '=' :: rest =>
    let (value, rest) ← value? (← skip? rest)
    some ((path, key, value), rest)
  | _ => none

/-- The items of an array, from behind its bracket or a comma on. -/
def items? (value? : Reader) : (steps : Nat) → Text → Option (List Value × Text)
  | 0, _ => none
  | steps + 1, t => do
    match ← skipTrivia? false t with
    | ']' :: rest => some ([], rest)
    | t =>
      let (value, rest) ← value? t
      match ← skipTrivia? false rest with
      | ',' :: rest =>
        let (values, rest) ← items? value? steps rest
        some (value :: values, rest)
      | ']' :: rest => some ([value], rest)
      | _ => none

/-- The entries of an inline table, from behind its brace or a comma on. -/
def fields? (value? : Reader) : (steps : Nat) → Entries → Text → Option (Entries × Text)
  | 0, _, _ => none
  | steps + 1, entries, t => do
    match ← skipTrivia? false t with
    | '\x7d' :: rest => some (entries, rest)
    | t =>
      let ((path, key, value), rest) ← assignment? (skipTrivia? false) value? t
      let entries ← Entries.insert path key value entries
      match ← skipTrivia? false rest with
      | ',' :: rest => fields? value? steps entries rest
      | '\x7d' :: rest => some (entries, rest)
      | _ => none

/-- A string or a plain value. -/
def scalar? : Reader
  | '"' :: t => (string? ('"' :: t)).map fun (s, rest) => (.string s, rest)
  | '\'' :: t => (string? ('\'' :: t)).map fun (s, rest) => (.string s, rest)
  | t => plain? t

/-- A value with at most `depth` levels of arrays and inline tables, and what follows it. -/
def value? : (depth : Nat) → Reader
  | 0, t => scalar? t
  | depth + 1, t =>
    match t with
    | '[' :: rest =>
      (items? (value? depth) (rest.length + 1) rest).map fun (vs, rest) => (.array vs, rest)
    | '\x7b' :: rest =>
      (fields? (value? depth) (rest.length + 1) [] rest).map fun (es, rest) =>
        (.table .inline es, rest)
    | t => scalar? t

/-- The deepest nesting of arrays and inline tables. -/
def maxDepth : Nat := 80

/-- The top table while a document is read, and the path of the last header. -/
structure Progress where
  top : Entries
  header : List Text

/-- One header or assignment, and what follows it on its line. -/
def expression? (p : Progress) : Text → Option (Progress × Text)
  | '[' :: '[' :: t => do
    let ((path, key), rest) ← key? t
    match rest with
    | ']' :: ']' :: rest => some (⟨← p.top.openElement path key, path ++ [key]⟩, rest)
    | _ => none
  | '[' :: t => do
    let ((path, key), rest) ← key? t
    match rest with
    | ']' :: rest => some (⟨← p.top.openTable path key, path ++ [key]⟩, rest)
    | _ => none
  | t => do
    let ((path, key, value), rest) ← assignment? (some ∘ skipGap) (value? maxDepth) t
    some (⟨← p.top.insertUnder p.header path key value, p.header⟩, rest)

/-- The rest of a document, line by line. -/
def document? : (steps : Nat) → Progress → Text → Option Entries
  | 0, _, _ => none
  | steps + 1, p, t => do
    match ← skipTrivia? false t with
    | [] => some p.top
    | t =>
      let (p, rest) ← expression? p t
      document? steps p (← lineEnd? rest)

/-- The text without a byte-order mark in front. -/
def withoutMark : Text → Text
  | '\uFEFF' :: rest => rest
  | t => t

/-- The entries of a document. -/
def parse? (t : Text) : Option Entries :=
  document? (t.length + 1) ⟨[], []⟩ (withoutMark t)

end LayerLint.Toml
