import JavaSnippet.Text.Utf16
/-!
Modified UTF-8, the text encoding of class files: each UTF-16 unit takes one to three bytes, and
the unit zero takes two, so that no encoded text holds a zero byte.
-/
namespace JavaSnippet.Text.ModifiedUtf8

/-- Why bytes are not modified UTF-8. -/
inductive Fault where
  /-- The group that starts at the offset lacks a continuation byte. -/
  | badGroup (offset : Nat)
  /-- The byte at the offset starts no group. -/
  | badStart (byte : UInt8) (offset : Nat)
  | unpairedSurrogate
  deriving DecidableEq, Repr, Inhabited

/-- The bytes of one code unit. -/
def encodeUnit (u : UInt16) : List UInt8 :=
  let n := u.toNat
  if n ≠ 0 ∧ n < 0x80 then [n.toUInt8]
  else if n < 0x800 then [(0xC0 + n / 64).toUInt8, (0x80 + n % 64).toUInt8]
  else [(0xE0 + n / 4096).toUInt8, (0x80 + n / 64 % 64).toUInt8, (0x80 + n % 64).toUInt8]

def encodeChar (c : Char) : List UInt8 :=
  (Utf16.units c).flatMap encodeUnit

def encodeChars (text : List Char) : List UInt8 :=
  text.flatMap encodeChar

def encode (text : String) : List UInt8 :=
  encodeChars text.toList

/-- The six bits that a continuation byte carries. -/
def continuation (b : UInt8) : Option Nat :=
  if 0x80 ≤ b ∧ b < 0xC0 then some (b.toNat % 64) else none

/-- Reads code units from the offset on. The units already found come last first. -/
def unitsAfter (offset : Nat) (found : List UInt16) : List UInt8 → Except Fault (List UInt16)
  | [] => .ok found.reverse
  | b :: rest =>
    if b ≠ 0 ∧ b < 0x80 then unitsAfter (offset + 1) (b.toUInt16 :: found) rest
    else if 0xC0 ≤ b ∧ b < 0xE0 then
      match rest with
      | [] => .error (.badGroup offset)
      | x :: rest =>
        match continuation x with
        | none => .error (.badGroup offset)
        | some low =>
          unitsAfter (offset + 2) ((b.toNat % 32 * 64 + low).toUInt16 :: found) rest
    else if 0xE0 ≤ b ∧ b < 0xF0 then
      match rest with
      | x :: y :: rest =>
        match continuation x, continuation y with
        | some middle, some low =>
          unitsAfter (offset + 3)
            ((b.toNat % 16 * 4096 + middle * 64 + low).toUInt16 :: found) rest
        | _, _ => .error (.badGroup offset)
      | _ => .error (.badGroup offset)
    else .error (.badStart b offset)

/-- The text of modified UTF-8. Groups longer than a unit needs are read all the same. -/
def decode (bytes : List UInt8) : Except Fault String :=
  match unitsAfter 0 [] bytes with
  | .error fault => .error fault
  | .ok units =>
    match Utf16.decode units with
    | none => .error .unpairedSurrogate
    | some text => .ok (String.ofList text)

/-- A byte as two hexadecimal digits. -/
def hexByte (b : UInt8) : String :=
  String.ofList [Nat.digitChar (b.toNat / 16), Nat.digitChar (b.toNat % 16)]

def Fault.message : Fault → String
  | .badGroup offset => s!"invalid modified UTF-8 sequence at byte {offset}"
  | .badStart byte offset => s!"invalid modified UTF-8 byte 0x{hexByte byte} at {offset}"
  | .unpairedSurrogate => "unpaired surrogate in modified UTF-8"

end JavaSnippet.Text.ModifiedUtf8
