import LayerLint.Json.StringList

/-!
# Strings and keys of TOML

Strings stand in double quotes, where a backslash starts an escape, or in single quotes, where all
stands for itself; three quotes make either kind run over several lines, whose ends are kept as they
are written. A key is one or more names
with points between them, each bare or in quotes.

Readers that go on to the end of a string take a bound on the number of steps; the length of the
text is enough.
-/

namespace LayerLint.Toml

/-- A character that may not stand in a string or comment. -/
def isControl (c : Char) : Bool := (c.toNat < 0x20 && c ≠ '\t') || c.toNat = 0x7F

def isGap (c : Char) : Bool := c = ' ' || c = '\t'

def skipGap (t : Text) : Text := t.dropWhile isGap

/-- The number that hexadecimal digits denote. -/
def hexValue? (digits : Text) : Option Nat :=
  digits.foldlM (fun n c => (Json.hexDigit? c).map fun d => 16 * n + d) 0

/-- The character of an escape with `count` hexadecimal digits, and what follows them. -/
def codePoint? (count : Nat) (t : Text) : Option (Char × Text) := do
  let n ← hexValue? (t.take count)
  if count ≤ t.length ∧ n.isValidChar then some (Char.ofNat n, t.drop count) else none

/-- The character of an escape, read from behind the backslash, and what follows it. -/
def escape? : Text → Option (Char × Text)
  | 'b' :: rest => some ('\x08', rest)
  | 't' :: rest => some ('\t', rest)
  | 'n' :: rest => some ('\n', rest)
  | 'f' :: rest => some ('\x0c', rest)
  | 'r' :: rest => some ('\r', rest)
  | 'e' :: rest => some ('\x1b', rest)
  | '"' :: rest => some ('"', rest)
  | '\\' :: rest => some ('\\', rest)
  | 'x' :: rest => codePoint? 2 rest
  | 'u' :: rest => codePoint? 4 rest
  | 'U' :: rest => codePoint? 8 rest
  | _ => none

/-- The text behind a line end, if it starts with one. -/
def afterNewline? : Text → Option Text
  | '\n' :: rest => some rest
  | '\r' :: '\n' :: rest => some rest
  | _ => none

/-- What follows spaces, tabs and line ends. -/
def skipBlankLines : Text → Text
  | ' ' :: rest | '\t' :: rest | '\n' :: rest | '\r' :: '\n' :: rest => skipBlankLines rest
  | t => t

/-- Puts a character in front of a string that has been read. -/
def prepend (c : Char) : Option (Text × Text) → Option (Text × Text) :=
  Option.map fun (s, rest) => (c :: s, rest)

/-- A string in double quotes, from behind the first one. -/
def basicTail? : (steps : Nat) → Text → Option (Text × Text)
  | 0, _ => none
  | _ + 1, [] => none
  | _ + 1, '"' :: rest => some ([], rest)
  | steps + 1, '\\' :: rest =>
    (escape? rest).bind fun (c, rest) => prepend c (basicTail? steps rest)
  | steps + 1, c :: rest => if isControl c then none else prepend c (basicTail? steps rest)

/-- A string in single quotes, from behind the first one. -/
def literalTail? : Text → Option (Text × Text)
  | [] => none
  | '\'' :: rest => some ([], rest)
  | c :: rest => if isControl c then none else prepend c (literalTail? rest)

/-- The quotes of a closing delimiter that belong to the string, and what follows it: of up to five
quotes in a row the last three close the string. -/
def closing? (quote : Char) (t : Text) : Option (Text × Text) :=
  let quotes := min 5 (t.takeWhile (· = quote)).length
  if 3 ≤ quotes then some (List.replicate (quotes - 3) quote, t.drop quotes) else none

/-- A string in three double quotes, from behind them. -/
def longBasicTail? : (steps : Nat) → Text → Option (Text × Text)
  | 0, _ => none
  | steps + 1, t =>
    match closing? '"' t with
    | some found => some found
    | none =>
      match t with
      | '\r' :: '\n' :: rest => prepend '\r' (prepend '\n' (longBasicTail? steps rest))
      | '\n' :: rest => prepend '\n' (longBasicTail? steps rest)
      | '\\' :: rest =>
        if (afterNewline? (skipGap rest)).isSome then longBasicTail? steps (skipBlankLines rest)
        else (escape? rest).bind fun (c, rest) => prepend c (longBasicTail? steps rest)
      | c :: rest => if isControl c then none else prepend c (longBasicTail? steps rest)
      | [] => none

/-- A string in three single quotes, from behind them. -/
def longLiteralTail? : (steps : Nat) → Text → Option (Text × Text)
  | 0, _ => none
  | steps + 1, t =>
    match closing? '\'' t with
    | some found => some found
    | none =>
      match t with
      | '\r' :: '\n' :: rest => prepend '\r' (prepend '\n' (longLiteralTail? steps rest))
      | '\n' :: rest => prepend '\n' (longLiteralTail? steps rest)
      | c :: rest => if isControl c then none else prepend c (longLiteralTail? steps rest)
      | [] => none

/-- The text without a line end in front. -/
def dropNewline (t : Text) : Text := (afterNewline? t).getD t

/-- A string on one line, and what follows it. -/
def shortString? : Text → Option (Text × Text)
  | '"' :: rest => basicTail? (rest.length + 1) rest
  | '\'' :: rest => literalTail? rest
  | _ => none

/-- A string of any kind, and what follows it. A line end right behind three quotes does not
belong to the string. -/
def string? : Text → Option (Text × Text)
  | '"' :: '"' :: '"' :: rest => longBasicTail? (rest.length + 1) (dropNewline rest)
  | '\'' :: '\'' :: '\'' :: rest => longLiteralTail? (rest.length + 1) (dropNewline rest)
  | t => shortString? t

/-! ## Keys -/

def isBare (c : Char) : Bool := c.isAlphanum || c = '_' || c = '-'

/-- One name of a key, and what follows it. -/
def name? (t : Text) : Option (Text × Text) :=
  match shortString? t with
  | some found => some found
  | none => if t.takeWhile isBare = [] then none else some (t.takeWhile isBare, t.dropWhile isBare)

/-- The names of a key, and what follows them and the spaces and tabs behind. -/
def names? : (steps : Nat) → Text → Option (List Text × Text)
  | 0, _ => none
  | steps + 1, t => do
    let (name, rest) ← name? (skipGap t)
    match skipGap rest with
    | '.' :: more =>
      let (names, rest) ← names? steps more
      some (name :: names, rest)
    | rest => some ([name], rest)

/-- The most names of a key. -/
def maxNames : Nat := 80

/-- A key as the path to its table and its last name, and what follows it. -/
def key? (t : Text) : Option ((List Text × Text) × Text) := do
  let (names, rest) ← names? (t.length + 1) t
  let last ← names.getLast?
  if names.length ≤ maxNames then some ((names.dropLast, last), rest) else none

end LayerLint.Toml
