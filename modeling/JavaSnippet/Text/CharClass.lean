import JavaSnippet.Text.AlphabeticTable
import JavaSnippet.Text.ExtendTable
import JavaSnippet.Text.NumericTable
import JavaSnippet.Text.UnprintableTable
/-!
Classes of characters by the properties of Unicode 17. ASCII is decided by comparison; the rest is
looked up in the range tables.
-/
namespace JavaSnippet.Text

/-- Whether a code point lies in one of the inclusive ranges. -/
def inRanges (ranges : List (Nat × Nat)) (point : Nat) : Bool :=
  ranges.any fun range => range.1 ≤ point && point ≤ range.2

/-- The ranges of the property White_Space. -/
def blankRanges : List (Nat × Nat) :=
  [(0x9, 0xd), (0x20, 0x20), (0x85, 0x85), (0xa0, 0xa0), (0x1680, 0x1680), (0x2000, 0x200a),
   (0x2028, 0x2029), (0x202f, 0x202f), (0x205f, 0x205f), (0x3000, 0x3000)]

/-- Unicode white space. -/
def isBlank (c : Char) : Bool :=
  inRanges blankRanges c.toNat

/-- The digits `0` to `9`. -/
def isDigit (c : Char) : Bool :=
  '0' ≤ c && c ≤ '9'

/-- The property Alphabetic. -/
def isLetter (c : Char) : Bool :=
  ('a' ≤ c && c ≤ 'z') || ('A' ≤ c && c ≤ 'Z') ||
    (128 ≤ c.toNat && inRanges alphabeticRanges c.toNat)

/-- The property Alphabetic, or a numeric category. -/
def isLetterOrNumber (c : Char) : Bool :=
  isLetter c || isDigit c || (128 ≤ c.toNat && inRanges numericRanges c.toNat)

/-- Characters that combine with the one before them. -/
def isExtender (c : Char) : Bool :=
  128 ≤ c.toNat && inRanges extendRanges c.toNat

/-- Characters with a visible form, and the space. -/
def isPrintable (c : Char) : Bool :=
  if c.toNat < 128 then 32 ≤ c.toNat && c.toNat < 127
  else !inRanges unprintableRanges c.toNat

/-- A text without the white space at its end. -/
def trimEnd (text : List Char) : List Char :=
  (text.reverse.dropWhile isBlank).reverse

/-- A text without the white space at either end. -/
def trim (text : List Char) : List Char :=
  trimEnd (text.dropWhile isBlank)

theorem isBlank_of_isWhitespace {c : Char} (h : c.isWhitespace = true) : isBlank c = true := by
  simp only [Char.isWhitespace, Bool.or_eq_true, decide_eq_true_eq] at h
  rcases h with ((rfl | rfl) | rfl) | rfl <;> decide

end JavaSnippet.Text
