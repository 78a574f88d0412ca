import JavaSnippet.Wire.Fault
/-!
Packets of a connection. A packet starts with its own length, and reading one takes exactly that
many bytes from the input.
-/
namespace JavaSnippet.Wire

/-- The length of what comes before the data. -/
def headerLength : Nat := 11

/-- The longest packet that is read. -/
def maxLength : Nat := 64 * 1024 * 1024

inductive Packet where
  | command (id : UInt32) (command : Command) (data : List UInt8)
  | reply (id : UInt32) (code : UInt16) (data : List UInt8)
  deriving DecidableEq, Repr, Inhabited

namespace Packet

def id : Packet → UInt32
  | command id _ _ | reply id _ _ => id

def data : Packet → List UInt8
  | command _ _ data | reply _ _ data => data

/-- Flags, and the command or the error number. -/
def kindBytes : Packet → List UInt8
  | command _ c _ => [0, c.set, c.number]
  | reply _ code _ => 0x80 :: Bytes.ofUInt16 code

/-- The bytes of the packet, if its length can be written in four. -/
def encode (p : Packet) : Except Fault (List UInt8) :=
  let length := headerLength + p.data.length
  if length < UInt32.size then
    .ok (Bytes.ofLength32 length ++ (Bytes.ofUInt32 p.id ++ (p.kindBytes ++ p.data)))
  else .error (.malformed (.oversized p.data.length))

/-- The packet that a header and data make. Of the flags only the highest counts, which marks
replies. -/
def ofParts (id : UInt32) (flags x y : UInt8) (data : List UInt8) : Packet :=
  if flags &&& 0x80 != 0 then reply id (Bytes.toNat [x, y]).toUInt16 data
  else command id ⟨x, y⟩ data

/-- Reads what follows the length. Whatever the input ends in is used up. -/
def readBody (dataLength : Nat) : List UInt8 → Except Fault Packet × List UInt8
  | a :: b :: c :: d :: flags :: x :: y :: rest =>
    match Bytes.split? dataLength rest with
    | some (data, rest) => (.ok (ofParts (Bytes.toNat [a, b, c, d]).toUInt32 flags x y data), rest)
    | none => (.error (.io (.endInData rest.length dataLength)), [])
  | _ => (.error (.io .endOfInput), [])

/-- Reads the next packet. A length out of range is all that is read of its packet. -/
def read (input : List UInt8) : Except Fault Packet × List UInt8 :=
  match Bytes.split? 4 input with
  | none => (.error (.io .endOfInput), [])
  | some (front, rest) =>
    let length := Bytes.toNat front
    if length < headerLength then (.error (.malformed (.shortPacket length)), rest)
    else if maxLength < length then (.error (.malformed (.longPacket length)), rest)
    else readBody (length - headerLength) rest

theorem readBody_length {n : Nat} {input rest : List UInt8} {p : Packet}
    (h : readBody n input = (.ok p, rest)) : rest.length + 7 + n = input.length := by
  unfold readBody at h
  split at h
  · split at h
    · rename_i rest' _ _ found
      obtain ⟨rfl, size⟩ := Bytes.eq_append_of_split? found
      obtain ⟨-, rfl⟩ := Prod.mk.inj h
      simp [size]; omega
    · simp at h
  · simp at h

/-- A packet takes at least its header from the input. -/
theorem length_of_read {input rest : List UInt8} {p : Packet} (h : read input = (.ok p, rest)) :
    rest.length + headerLength ≤ input.length := by
  unfold read at h
  split at h
  · simp at h
  · rename_i front after found
    obtain ⟨rfl, size⟩ := Bytes.eq_append_of_split? found
    simp only at h
    split at h
    · simp at h
    · split at h
      · simp at h
      · have := readBody_length h
        simp [size, headerLength]; omega

end Packet

end JavaSnippet.Wire
