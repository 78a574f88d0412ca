import JavaSnippet.Bytes
import Mathlib.Algebra.Group.Nat.Defs
/-!
Numbers as bytes read back. A number of `n` bytes is recovered when it is below `256 ^ n`, and any
`n` bytes are the bytes of the number they spell.
-/
namespace JavaSnippet.Bytes

theorem foldl_toNat (start : Nat) (bytes : List UInt8) :
    bytes.foldl (fun value b => value * 256 + b.toNat) start =
      start * 256 ^ bytes.length + toNat bytes := by
  induction bytes generalizing start with
  | nil => simp [toNat]
  | cons b bytes ih =>
    have single : toNat (b :: bytes) = b.toNat * 256 ^ bytes.length + toNat bytes := by
      rw [← ih b.toNat, toNat, List.foldl_cons, Nat.zero_mul, Nat.zero_add]
    rw [List.foldl_cons, ih, single, List.length_cons, Nat.pow_succ', Nat.add_mul, Nat.mul_assoc,
      Nat.add_assoc]

theorem toNat_cons (b : UInt8) (bytes : List UInt8) :
    toNat (b :: bytes) = b.toNat * 256 ^ bytes.length + toNat bytes := by
  rw [toNat, List.foldl_cons, Nat.zero_mul, Nat.zero_add, foldl_toNat]

theorem toNat_lt (bytes : List UInt8) : toNat bytes < 256 ^ bytes.length := by
  induction bytes with
  | nil => simp [toNat]
  | cons b bytes ih =>
    have digit := b.toNat_lt
    rw [toNat_cons, List.length_cons, Nat.pow_succ']
    calc
      _ < b.toNat * 256 ^ bytes.length + 256 ^ bytes.length := by omega
      _ = (b.toNat + 1) * 256 ^ bytes.length := by rw [Nat.add_mul, Nat.one_mul]
      _ ≤ 256 * 256 ^ bytes.length := Nat.mul_le_mul_right _ (by omega)

theorem toNat_ofNat_mod (n value : Nat) : toNat (ofNat n value) = value % 256 ^ n := by
  induction n with
  | zero => simp [ofNat, toNat, Nat.mod_one]
  | succ n ih =>
    have top : (value >>> (8 * n)).toUInt8.toNat = value / 256 ^ n % 256 := by
      rw [Nat.toUInt8_eq, UInt8.toNat_ofNat', Nat.shiftRight_eq_div_pow, Nat.pow_mul]
    rw [ofNat, toNat_cons, ih, ofNat_length, top, Nat.pow_succ, Nat.mod_mul]
    rw [Nat.mul_comm (256 ^ n), Nat.add_comm]

theorem toNat_ofNat {n value : Nat} (h : value < 256 ^ n) : toNat (ofNat n value) = value := by
  rw [toNat_ofNat_mod, Nat.mod_eq_of_lt h]

theorem ofNat_add_mul (n a value : Nat) : ofNat n (a * 256 ^ n + value) = ofNat n value := by
  induction n generalizing a with
  | zero => rfl
  | succ n ih =>
    have shifted : (a * 256 ^ (n + 1) + value) >>> (8 * n) = value >>> (8 * n) + 256 * a := by
      rw [Nat.shiftRight_eq_div_pow, Nat.shiftRight_eq_div_pow, Nat.pow_mul, Nat.pow_succ,
        Nat.mul_left_comm, Nat.add_comm, Nat.add_mul_div_left _ _ (Nat.pow_pos (by omega)),
        Nat.mul_comm a]
    have low := ih (a * 256)
    rw [ofNat, ofNat, shifted]
    rw [Nat.mul_assoc, ← Nat.pow_succ'] at low
    rw [low]
    congr 1
    rw [Nat.toUInt8_eq, Nat.toUInt8_eq]
    apply UInt8.toNat_inj.mp
    rw [UInt8.toNat_ofNat', UInt8.toNat_ofNat', Nat.add_mul_mod_self_left]

theorem ofNat_toNat (bytes : List UInt8) : ofNat bytes.length (toNat bytes) = bytes := by
  induction bytes with
  | nil => rfl
  | cons b bytes ih =>
    have below := toNat_lt bytes
    have top : (b.toNat * 256 ^ bytes.length + toNat bytes) >>> (8 * bytes.length) = b.toNat := by
      rw [Nat.shiftRight_eq_div_pow, Nat.pow_mul, Nat.mul_comm, Nat.add_comm,
        Nat.add_mul_div_left _ _ (Nat.pow_pos (by omega)), Nat.div_eq_of_lt below, Nat.zero_add]
    rw [List.length_cons, toNat_cons, ofNat, top, ofNat_add_mul, ih]
    simp

@[simp] theorem ofUInt16_length (value : UInt16) : (ofUInt16 value).length = 2 := ofNat_length ..

@[simp] theorem ofUInt32_length (value : UInt32) : (ofUInt32 value).length = 4 := ofNat_length ..

@[simp] theorem ofUInt64_length (value : UInt64) : (ofUInt64 value).length = 8 := ofNat_length ..

@[simp] theorem ofLength16_length (n : Nat) : (ofLength16 n).length = 2 := ofNat_length ..

@[simp] theorem ofLength32_length (n : Nat) : (ofLength32 n).length = 4 := ofNat_length ..

theorem split?_eq_some {n : Nat} {front rest : List UInt8} (h : front.length = n) :
    split? n (front ++ rest) = some (front, rest) := by
  subst h
  exact split?_append front rest

theorem toNat_append (front back : List UInt8) :
    toNat (front ++ back) = toNat front * 256 ^ back.length + toNat back := by
  rw [toNat, List.foldl_append, foldl_toNat]
  rfl

theorem toNat_zeros (k : Nat) : toNat (List.replicate k 0) = 0 := by
  induction k with
  | zero => rfl
  | succ k ih => rw [List.replicate_succ, toNat_cons, ih, UInt8.toNat_zero, Nat.zero_mul]

/-- A number in more bytes than it needs starts with zeros. -/
theorem ofNat_of_lt {m n value : Nat} (fits : value < 256 ^ m) (wider : m ≤ n) :
    ofNat n value = List.replicate (n - m) 0 ++ ofNat m value := by
  have length : (List.replicate (n - m) (0 : UInt8) ++ ofNat m value).length = n := by
    rw [List.length_append, List.length_replicate, ofNat_length, Nat.sub_add_cancel wider]
  have same : toNat (List.replicate (n - m) 0 ++ ofNat m value) = value := by
    rw [toNat_append, toNat_zeros, toNat_ofNat fits, Nat.zero_mul, Nat.zero_add]
  have back := ofNat_toNat (List.replicate (n - m) 0 ++ ofNat m value)
  rwa [length, same] at back

/-- Where bytes stand at a place and also behind some zeros there, the zeros stand behind the first
occurrence too. -/
theorem eq_zeros_append {k : Nat} {bytes x y : List UInt8}
    (h : bytes ++ x = List.replicate k 0 ++ (bytes ++ y)) : x = List.replicate k 0 ++ y := by
  induction bytes with
  | nil => exact h
  | cons b bytes ih =>
    cases k with
    | zero => exact List.append_cancel_left h
    | succ k =>
      obtain ⟨rfl, rest⟩ := List.cons.inj h
      refine ih (rest.trans ?_)
      rw [List.replicate_succ', List.append_assoc]
      rfl

/-- Where a number stands at a place and another behind some zeros there, the first is smaller by a
power of 256. -/
theorem mul_le_of_zeros {k n a b : Nat} {x y : List UInt8} (smallA : a < 256 ^ n)
    (smallB : b < 256 ^ n) (h : ofNat n a ++ x = List.replicate k 0 ++ (ofNat n b ++ y)) :
    a * 256 ^ k ≤ b := by
  have taken : ofNat n a ++ x.take k = List.replicate k 0 ++ ofNat n b := by
    have left : (ofNat n a ++ x).take ((ofNat n a).length + k) = ofNat n a ++ x.take k :=
      List.take_length_add_append k
    have right : (List.replicate k 0 ++ ofNat n b ++ y).take
        (List.replicate k 0 ++ ofNat n b).length = List.replicate k 0 ++ ofNat n b :=
      List.take_left
    rw [List.length_append, List.length_replicate, ofNat_length, Nat.add_comm,
      List.append_assoc] at right
    rw [ofNat_length, h] at left
    exact left.symm.trans right
  have length : (x.take k).length = k := by
    have total := congrArg List.length taken
    simpa [Nat.add_comm n] using total
  have value := congrArg toNat taken
  rw [toNat_append, toNat_append, toNat_ofNat smallA, toNat_ofNat smallB, toNat_zeros, length,
    Nat.zero_mul, Nat.zero_add] at value
  omega

end JavaSnippet.Bytes
