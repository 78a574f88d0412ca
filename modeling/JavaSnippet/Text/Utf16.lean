/-!
Text as UTF-16 code units. A character beyond the first plane is a pair of surrogates, so a lone
surrogate stands for no character.
-/
namespace JavaSnippet.Text.Utf16

/-- The code units of one character. -/
def units (c : Char) : List UInt16 :=
  if c.toNat < 0x10000 then [c.toNat.toUInt16]
  else
    let rest := c.toNat - 0x10000
    [(0xD800 + rest / 0x400).toUInt16, (0xDC00 + rest % 0x400).toUInt16]

def isHigh (u : UInt16) : Bool :=
  0xD800 ≤ u && u < 0xDC00

def isLow (u : UInt16) : Bool :=
  0xDC00 ≤ u && u < 0xE000

/-- The character of a pair of surrogates. -/
def pair (high low : UInt16) : Char :=
  Char.ofNat (0x10000 + (high.toNat - 0xD800) * 0x400 + (low.toNat - 0xDC00))

/-- Reads the units after the characters already found, which come last first. -/
def decodeAfter (found : List Char) : List UInt16 → Option (List Char)
  | [] => some found.reverse
  | [u] => if isHigh u || isLow u then none else decodeAfter (Char.ofNat u.toNat :: found) []
  | u :: v :: rest =>
    if isLow u then none
    else if isHigh u then
      if isLow v then decodeAfter (pair u v :: found) rest else none
    else decodeAfter (Char.ofNat u.toNat :: found) (v :: rest)

/-- The text of a sequence of units, if every surrogate is paired. -/
def decode (us : List UInt16) : Option (List Char) :=
  decodeAfter [] us

end JavaSnippet.Text.Utf16
