import LayerLint.Text
import LayerLint.Text.Ranges

/-!
# White space

A character is blank when it has the Unicode property `White_Space`. Trimming and splitting into
words go by that property; spaces and tabs alone separate the parts of an instruction.
-/

namespace LayerLint

/-- The code points with the property `White_Space`. -/
def blankRanges : List (Nat × Nat) :=
  [(0x09, 0x0D), (0x20, 0x20), (0x85, 0x85), (0xA0, 0xA0), (0x1680, 0x1680), (0x2000, 0x200A),
   (0x2028, 0x2029), (0x202F, 0x202F), (0x205F, 0x205F), (0x3000, 0x3000)]

def isBlank (c : Char) : Bool := inRanges blankRanges c.toNat

/-- A space or a tab. -/
def isSpaceOrTab (c : Char) : Bool := c = ' ' || c = '\t'

namespace Text

def trimStart (t : Text) : Text := t.dropWhile isBlank

def trimEnd (t : Text) : Text := (t.reverse.dropWhile isBlank).reverse

def trim (t : Text) : Text := trimEnd (trimStart t)

/-- The maximal runs of characters that are not blank. -/
def words (t : Text) : List Text := (t.splitOnP isBlank).filter (· ≠ [])

/-- The leading run of characters that are not blank. -/
def firstWord (t : Text) : Text := t.takeWhile fun c => !isBlank c

/-- What stands after the leading run of characters that are not blank. -/
def afterFirstWord (t : Text) : Text := t.dropWhile fun c => !isBlank c

end Text

end LayerLint
