/-!
Numbers as bytes, most significant first, and pieces of byte sequences.
-/
namespace JavaSnippet.Bytes

/-- The low `n` bytes of a number. -/
def ofNat : Nat → Nat → List UInt8
  | 0, _ => []
  | n + 1, value => (value >>> (8 * n)).toUInt8 :: ofNat n value

@[simp] theorem ofNat_length (n value : Nat) : (ofNat n value).length = n := by
  induction n with
  | zero => rfl
  | succ n ih => simp [ofNat, ih]

/-- The number that the bytes spell. -/
def toNat (bytes : List UInt8) : Nat :=
  bytes.foldl (fun value b => value * 256 + b.toNat) 0

def ofUInt16 (value : UInt16) : List UInt8 := ofNat 2 value.toNat

def ofUInt32 (value : UInt32) : List UInt8 := ofNat 4 value.toNat

def ofUInt64 (value : UInt64) : List UInt8 := ofNat 8 value.toNat

/-- The number of elements as two bytes. A longer sequence keeps the low sixteen bits. -/
def ofLength16 (n : Nat) : List UInt8 := ofNat 2 n

def ofLength32 (n : Nat) : List UInt8 := ofNat 4 n

/-- The first `n` bytes and those after them, if there are as many. -/
def split? (n : Nat) (bytes : List UInt8) : Option (List UInt8 × List UInt8) :=
  let front := bytes.take n
  if front.length = n then some (front, bytes.drop n) else none

theorem split?_append (front rest : List UInt8) :
    split? front.length (front ++ rest) = some (front, rest) := by
  simp [split?]

theorem eq_append_of_split? {n : Nat} {bytes front rest : List UInt8}
    (h : split? n bytes = some (front, rest)) : bytes = front ++ rest ∧ front.length = n := by
  unfold split? at h
  simp only at h
  split at h
  · rename_i full
    obtain ⟨rfl, rfl⟩ := Prod.mk.inj (Option.some.inj h)
    exact ⟨(List.take_append_drop n bytes).symm, full⟩
  · cases h

end JavaSnippet.Bytes
