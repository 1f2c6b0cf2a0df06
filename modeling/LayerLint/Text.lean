/-!
# Text

Everything the library reads, stores and writes is a `Text`: a list of characters. String
literals stand for their characters, and `String` itself appears only where bytes enter or leave
the program.
-/

namespace LayerLint

abbrev Text := List Char

instance : Coe String Text := ⟨String.toList⟩

namespace Text

/-- The pieces, one after the other. -/
def concat (pieces : List Text) : Text := pieces.flatten

/-- The pieces with `sep` between each two of them. -/
def join (sep : Text) (pieces : List Text) : Text := sep.intercalate pieces

/-- Every line followed by a line feed. -/
def unlines (lines : List Text) : Text := concat (lines.map (· ++ ['\n']))

/-- The decimal digits of a number. -/
def ofNat (n : Nat) : Text := Nat.toDigits 10 n

/-- Whether `p` holds of the text from some position on. -/
def anyTail (p : Text → Bool) : Text → Bool
  | [] => p []
  | c :: rest => p (c :: rest) || anyTail p rest

/-- Whether `needle` occurs in the text. -/
def mentions (needle t : Text) : Bool := anyTail needle.isPrefixOf t

/-- The text up to the first `stop`, without it. -/
def before (stop : Char) (t : Text) : Text := t.takeWhile (· != stop)

/-- The text after the last `stop`, or all of it when there is none. -/
def afterLast (stop : Char) (t : Text) : Text := (t.reverse.takeWhile (· != stop)).reverse

/-- The text with spaces in front of it up to `width` characters. -/
def padLeft (width : Nat) (t : Text) : Text := List.replicate (width - t.length) ' ' ++ t

/-- The text with spaces after it up to `width` characters. -/
def padRight (width : Nat) (t : Text) : Text := t ++ List.replicate (width - t.length) ' '

/-- Number of bytes of the text in UTF-8. -/
def byteCount (t : Text) : Nat := t.foldl (fun count c => count + c.utf8Size) 0

/-! ## Letter case -/

/-- The text with the letters `A` to `Z` in lower case. -/
def foldCase (t : Text) : Text := t.map Char.toLower

/-- Equality up to the case of the letters `A` to `Z`. -/
def sameLetters (a b : Text) : Bool := foldCase a == foldCase b

/-- Lower case, as far as an ASCII word can tell: besides `A` to `Z` only the Kelvin sign and the
dotted capital I have an ASCII letter in their lower case. -/
def lower (t : Text) : Text :=
  t.flatMap fun c =>
    if c = '\u212A' then ['k']
    else if c = '\u0130' then ['i', '\u0307']
    else [c.toLower]

end Text

end LayerLint
