/-!
Standard UTF-8. Strict reading tells where and how the bytes go wrong; lenient reading puts the
replacement character in place of each ill-formed group.
-/
namespace JavaSnippet.Text.Utf8

/-- How a group of bytes fails to be a character. -/
inductive GroupFault where
  /-- The first `length` bytes can start no character. -/
  | invalid (length : Nat)
  /-- The input ends inside a character. -/
  | incomplete
  deriving DecidableEq, Repr

/-- A fault and the offset of the group it is in. -/
structure Fault where
  offset : Nat
  group : GroupFault
  deriving DecidableEq, Repr

def isTail (b : UInt8) : Bool :=
  0x80 ≤ b && b ≤ 0xBF

/-- The second bytes that may follow a first byte of a group of three or four. -/
def secondRange (first : UInt8) : UInt8 × UInt8 :=
  if first == 0xE0 then (0xA0, 0xBF)
  else if first == 0xED then (0x80, 0x9F)
  else if first == 0xF0 then (0x90, 0xBF)
  else if first == 0xF4 then (0x80, 0x8F)
  else (0x80, 0xBF)

def isSecond (first second : UInt8) : Bool :=
  (secondRange first).1 ≤ second && second ≤ (secondRange first).2

def bits (b : UInt8) : Nat :=
  b.toNat % 64

/-- The character that starts the bytes, and its length less one. -/
def firstChar (first : UInt8) (rest : List UInt8) : Except GroupFault (Char × Nat) :=
  if first < 0x80 then .ok (Char.ofNat first.toNat, 0)
  else if 0xC2 ≤ first && first ≤ 0xDF then
    match rest with
    | [] => .error .incomplete
    | a :: _ =>
      if isTail a then .ok (Char.ofNat (first.toNat % 32 * 64 + bits a), 1)
      else .error (.invalid 1)
  else if 0xE0 ≤ first && first ≤ 0xEF then
    match rest with
    | [] => .error .incomplete
    | a :: rest =>
      if !isSecond first a then .error (.invalid 1)
      else
        match rest with
        | [] => .error .incomplete
        | b :: _ =>
          if isTail b then
            .ok (Char.ofNat ((first.toNat % 16 * 64 + bits a) * 64 + bits b), 2)
          else .error (.invalid 2)
  else if 0xF0 ≤ first && first ≤ 0xF4 then
    match rest with
    | [] => .error .incomplete
    | a :: rest =>
      if !isSecond first a then .error (.invalid 1)
      else
        match rest with
        | [] => .error .incomplete
        | b :: rest =>
          if !isTail b then .error (.invalid 2)
          else
            match rest with
            | [] => .error .incomplete
            | c :: _ =>
              if isTail c then
                .ok (Char.ofNat (((first.toNat % 8 * 64 + bits a) * 64 + bits b) * 64 + bits c), 3)
              else .error (.invalid 3)
  else .error (.invalid 1)

/-- Reads strictly from the offset on. The characters already found come last first. -/
def decodeAfter (offset : Nat) (found : List Char) : List UInt8 → Except Fault (List Char)
  | [] => .ok found.reverse
  | first :: rest =>
    match firstChar first rest with
    | .error group => .error ⟨offset, group⟩
    | .ok (c, more) => decodeAfter (offset + more + 1) (c :: found) (rest.drop more)
termination_by bytes => bytes.length
decreasing_by simp only [List.length_drop, List.length_cons]; omega

def decode (bytes : List UInt8) : Except Fault String :=
  (decodeAfter 0 [] bytes).map String.ofList

/-- Reads leniently. The characters already found come last first. -/
def decodeLossyAfter (found : List Char) : List UInt8 → List Char
  | [] => found.reverse
  | first :: rest =>
    match firstChar first rest with
    | .ok (c, more) => decodeLossyAfter (c :: found) (rest.drop more)
    | .error (.invalid length) => decodeLossyAfter ('\uFFFD' :: found) (rest.drop (length - 1))
    | .error .incomplete => ('\uFFFD' :: found).reverse
termination_by bytes => bytes.length
decreasing_by all_goals (simp only [List.length_drop, List.length_cons]; omega)

def decodeLossy (bytes : List UInt8) : String :=
  String.ofList (decodeLossyAfter [] bytes)

def Fault.message (fault : Fault) : String :=
  match fault.group with
  | .invalid length => s!"invalid utf-8 sequence of {length} bytes from index {fault.offset}"
  | .incomplete => s!"incomplete utf-8 byte sequence from index {fault.offset}"

end JavaSnippet.Text.Utf8
