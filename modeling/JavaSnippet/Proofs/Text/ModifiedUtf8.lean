import JavaSnippet.Text.ModifiedUtf8
import Mathlib.Algebra.Group.Nat.Defs
/-!
Modified UTF-8 reads back what it writes. Writing again what was read never takes more bytes, so
a text that was read from a short field fits in that field. The bytes of a character are also given
by the bits of its code point.
-/
namespace JavaSnippet.Text

namespace Utf16

theorem toNat_ofNat_of_valid {n : Nat} (h : n.isValidChar) : (Char.ofNat n).toNat = n := by
  rw [Char.ofNat, dif_pos h]
  rfl

theorem toNat_toUInt16 {n : Nat} (h : n < 0x10000) : n.toUInt16.toNat = n := by
  rw [Nat.toUInt16_eq, UInt16.toNat_ofNat_of_lt' h]

theorem isHigh_eq (u : UInt16) : isHigh u = decide (0xD800 ≤ u.toNat ∧ u.toNat < 0xDC00) := by
  simp [isHigh, UInt16.le_iff_toNat_le, UInt16.lt_iff_toNat_lt]

theorem isLow_eq (u : UInt16) : isLow u = decide (0xDC00 ≤ u.toNat ∧ u.toNat < 0xE000) := by
  simp [isLow, UInt16.le_iff_toNat_le, UInt16.lt_iff_toNat_lt]

theorem units_single {u : UInt16} (high : isHigh u = false) (low : isLow u = false) :
    units (Char.ofNat u.toNat) = [u] := by
  have bound := u.toNat_lt
  rw [isHigh_eq, decide_eq_false_iff_not] at high
  rw [isLow_eq, decide_eq_false_iff_not] at low
  have valid : u.toNat.isValidChar := by
    simp only [Nat.isValidChar]
    omega
  rw [units, toNat_ofNat_of_valid valid, if_pos bound]
  simp

theorem units_pair {high low : UInt16} (h : isHigh high = true) (l : isLow low = true) :
    units (pair high low) = [high, low] := by
  rw [isHigh_eq, decide_eq_true_eq] at h
  rw [isLow_eq, decide_eq_true_eq] at l
  obtain ⟨a, highIs⟩ : ∃ a, high.toNat = 0xD800 + a := ⟨high.toNat - 0xD800, by omega⟩
  obtain ⟨b, lowIs⟩ : ∃ b, low.toNat = 0xDC00 + b := ⟨low.toNat - 0xDC00, by omega⟩
  have code : 0x10000 + (high.toNat - 0xD800) * 0x400 + (low.toNat - 0xDC00) =
      0x10000 + (a * 0x400 + b) := by omega
  have valid : (0x10000 + (a * 0x400 + b)).isValidChar := by
    simp only [Nat.isValidChar]
    omega
  have quotient : 0xD800 + (a * 0x400 + b) / 0x400 = high.toNat := by omega
  have remainder : 0xDC00 + (a * 0x400 + b) % 0x400 = low.toNat := by omega
  rw [units, pair, code, toNat_ofNat_of_valid valid, if_neg (by omega), Nat.add_sub_cancel_left]
  simp only [quotient, remainder]
  simp

theorem decodeAfter_units (found : List Char) (c : Char) (rest : List UInt16) :
    decodeAfter found (units c ++ rest) = decodeAfter (c :: found) rest := by
  have valid : c.toNat.isValidChar := c.valid
  simp only [Nat.isValidChar] at valid
  by_cases small : c.toNat < 0x10000
  · have value := toNat_toUInt16 small
    have high : isHigh c.toNat.toUInt16 = false := by
      rw [isHigh_eq, value, decide_eq_false_iff_not]
      omega
    have low : isLow c.toNat.toUInt16 = false := by
      rw [isLow_eq, value, decide_eq_false_iff_not]
      omega
    rw [units, if_pos small, List.singleton_append]
    cases rest with
    | nil => simp [decodeAfter, high, low, value]
    | cons v rest => simp [decodeAfter, high, low, value]
  · obtain ⟨r, codeIs⟩ : ∃ r, c.toNat = 0x10000 + r := ⟨c.toNat - 0x10000, by omega⟩
    have highIs : (0xD800 + r / 0x400).toUInt16.toNat = 0xD800 + r / 0x400 :=
      toNat_toUInt16 (by omega)
    have lowIs : (0xDC00 + r % 0x400).toUInt16.toNat = 0xDC00 + r % 0x400 :=
      toNat_toUInt16 (by omega)
    have high : isHigh (0xD800 + r / 0x400).toUInt16 = true := by
      rw [isHigh_eq, highIs, decide_eq_true_eq]
      omega
    have notLow : isLow (0xD800 + r / 0x400).toUInt16 = false := by
      rw [isLow_eq, highIs, decide_eq_false_iff_not]
      omega
    have low : isLow (0xDC00 + r % 0x400).toUInt16 = true := by
      rw [isLow_eq, lowIs, decide_eq_true_eq]
      omega
    have joined : pair (0xD800 + r / 0x400).toUInt16 (0xDC00 + r % 0x400).toUInt16 = c := by
      have code : 0x10000 + (0xD800 + r / 0x400 - 0xD800) * 0x400 + (0xDC00 + r % 0x400 - 0xDC00) =
          c.toNat := by omega
      rw [pair, highIs, lowIs, code, Char.ofNat_toNat]
    rw [units, if_neg small, codeIs, Nat.add_sub_cancel_left]
    simp only
    generalize (0xD800 + r / 0x400).toUInt16 = first at *
    generalize (0xDC00 + r % 0x400).toUInt16 = second at *
    simp [decodeAfter, high, notLow, low, joined]

theorem decodeAfter_flatMap_units (found text : List Char) :
    decodeAfter found (text.flatMap units) = some (found.reverse ++ text) := by
  induction text generalizing found with
  | nil => simp [decodeAfter]
  | cons c text ih =>
    rw [List.flatMap_cons, decodeAfter_units, ih]
    simp

theorem flatMap_units_of_decodeAfter {found text : List Char} {us : List UInt16}
    (h : decodeAfter found us = some text) :
    ∃ more, text = found.reverse ++ more ∧ more.flatMap units = us := by
  fun_induction decodeAfter found us with
  | case1 found => exact ⟨[], by simpa using h.symm, rfl⟩
  | case2 found u odd => cases h
  | case3 found u plain ih =>
    obtain ⟨high, low⟩ : isHigh u = false ∧ isLow u = false := by simpa using plain
    obtain ⟨more, textIs, unitsAre⟩ := ih h
    refine ⟨Char.ofNat u.toNat :: more, by simp [textIs], ?_⟩
    rw [List.flatMap_cons, units_single high low, unitsAre, List.singleton_append]
  | case4 found u v rest low => cases h
  | case5 found u v rest notLow high low ih =>
    obtain ⟨more, textIs, unitsAre⟩ := ih h
    refine ⟨pair u v :: more, by simp [textIs], ?_⟩
    rw [List.flatMap_cons, units_pair high low, unitsAre]
    rfl
  | case6 found u v rest notLow high notPaired => cases h
  | case7 found u v rest notLow notHigh ih =>
    obtain ⟨more, textIs, unitsAre⟩ := ih h
    refine ⟨Char.ofNat u.toNat :: more, by simp [textIs], ?_⟩
    rw [List.flatMap_cons, units_single (by simpa using notHigh) (by simpa using notLow), unitsAre,
      List.singleton_append]

end Utf16

namespace ModifiedUtf8

theorem byte_toNat {n : Nat} (h : n < 256) : n.toUInt8.toNat = n := by
  rw [Nat.toUInt8_eq, UInt8.toNat_ofNat_of_lt' h]

theorem continuation_byte {n : Nat} (h : n < 64) : continuation (0x80 + n).toUInt8 = some n := by
  have value := byte_toNat (n := 0x80 + n) (by omega)
  rw [continuation, if_pos]
  · rw [value]
    congr 1
    omega
  · simp only [UInt8.le_iff_toNat_le, UInt8.lt_iff_toNat_lt, value]
    simp
    omega

theorem continuation_lt {b : UInt8} {n : Nat} (h : continuation b = some n) : n < 64 := by
  unfold continuation at h
  split at h
  · obtain rfl := Option.some.inj h
    exact Nat.mod_lt _ (by omega)
  · cases h

theorem unitsAfter_one {b : UInt8} (h : b ≠ 0 ∧ b < 0x80) (offset : Nat) (found : List UInt16)
    (rest : List UInt8) :
    unitsAfter offset found (b :: rest) = unitsAfter (offset + 1) (b.toUInt16 :: found) rest := by
  rw [unitsAfter.eq_def]
  simp only [h, ne_eq, not_false_eq_true, and_self, if_true]

theorem unitsAfter_two {b x : UInt8} {low : Nat} (h : 0xC0 ≤ b.toNat ∧ b.toNat < 0xE0)
    (hx : continuation x = some low) (offset : Nat) (found : List UInt16) (rest : List UInt8) :
    unitsAfter offset found (b :: x :: rest) =
      unitsAfter (offset + 2) ((b.toNat % 32 * 64 + low).toUInt16 :: found) rest := by
  have notOne : ¬ (b ≠ 0 ∧ b < 0x80) := by
    rw [UInt8.lt_iff_toNat_lt]
    simp
    omega
  have two : 0xC0 ≤ b ∧ b < 0xE0 := by
    rw [UInt8.le_iff_toNat_le, UInt8.lt_iff_toNat_lt]
    exact h
  rw [unitsAfter.eq_def]
  simp only [if_neg notOne, if_pos two, hx]

theorem unitsAfter_three {b x y : UInt8} {middle low : Nat} (h : 0xE0 ≤ b.toNat ∧ b.toNat < 0xF0)
    (hx : continuation x = some middle) (hy : continuation y = some low) (offset : Nat)
    (found : List UInt16) (rest : List UInt8) :
    unitsAfter offset found (b :: x :: y :: rest) =
      unitsAfter (offset + 3)
        ((b.toNat % 16 * 4096 + middle * 64 + low).toUInt16 :: found) rest := by
  have notOne : ¬ (b ≠ 0 ∧ b < 0x80) := by
    rw [UInt8.lt_iff_toNat_lt]
    simp
    omega
  have notTwo : ¬ (0xC0 ≤ b ∧ b < 0xE0) := by
    rw [UInt8.lt_iff_toNat_lt]
    simp
    omega
  have three : 0xE0 ≤ b ∧ b < 0xF0 := by
    rw [UInt8.le_iff_toNat_le, UInt8.lt_iff_toNat_lt]
    exact h
  rw [unitsAfter.eq_def]
  simp only [if_neg notOne, if_neg notTwo, if_pos three, hx, hy]

theorem unitsAfter_encodeUnit (offset : Nat) (found : List UInt16) (u : UInt16)
    (rest : List UInt8) :
    unitsAfter offset found (encodeUnit u ++ rest) =
      unitsAfter (offset + (encodeUnit u).length) (u :: found) rest := by
  have bound := u.toNat_lt
  have low := continuation_byte (Nat.mod_lt u.toNat (y := 64) (by omega))
  have middle := continuation_byte (Nat.mod_lt (u.toNat / 64) (y := 64) (by omega))
  unfold encodeUnit
  simp only
  split
  · rename_i small
    have value := byte_toNat (n := u.toNat) (by omega)
    have plain : u.toNat.toUInt8 ≠ 0 ∧ u.toNat.toUInt8 < 0x80 := by
      rw [Ne, ← UInt8.toNat_inj, UInt8.lt_iff_toNat_lt, value]
      exact small
    have back : u.toNat.toUInt8.toUInt16 = u := by
      apply UInt16.toNat_inj.mp
      rw [UInt8.toNat_toUInt16, value]
    rw [List.singleton_append, unitsAfter_one plain, back]
    rfl
  · split
    · have value := byte_toNat (n := 0xC0 + u.toNat / 64) (by omega)
      have back : ((0xC0 + u.toNat / 64) % 32 * 64 + u.toNat % 64).toUInt16 = u := by
        apply UInt16.toNat_inj.mp
        rw [Utf16.toNat_toUInt16 (by omega)]
        omega
      rw [List.cons_append, List.singleton_append,
        unitsAfter_two (by rw [value]; omega) low, value, back]
      rfl
    · have value := byte_toNat (n := 0xE0 + u.toNat / 4096) (by omega)
      have back : ((0xE0 + u.toNat / 4096) % 16 * 4096 + u.toNat / 64 % 64 * 64 +
          u.toNat % 64).toUInt16 = u := by
        apply UInt16.toNat_inj.mp
        rw [Utf16.toNat_toUInt16 (by omega)]
        omega
      rw [List.cons_append, List.cons_append, List.singleton_append,
        unitsAfter_three (by rw [value]; omega) middle low, value, back]
      rfl

theorem unitsAfter_flatMap (offset : Nat) (found us : List UInt16) :
    unitsAfter offset found (us.flatMap encodeUnit) = .ok (found.reverse ++ us) := by
  induction us generalizing offset found with
  | nil => simp [unitsAfter]
  | cons u us ih =>
    rw [List.flatMap_cons, unitsAfter_encodeUnit, ih]
    simp

theorem encode_eq (text : String) :
    encode text = (text.toList.flatMap Utf16.units).flatMap encodeUnit := by
  rw [List.flatMap_assoc]
  rfl

theorem decode_encode (text : String) : decode (encode text) = .ok text := by
  rw [decode, encode_eq, unitsAfter_flatMap]
  simp [Utf16.decode, Utf16.decodeAfter_flatMap_units]

theorem encodeUnit_length_le (u : UInt16) : (encodeUnit u).length ≤ 3 := by
  unfold encodeUnit
  simp only
  split
  · simp
  · split <;> simp

theorem encodeUnit_length_le_two {u : UInt16} (h : u.toNat < 0x800) :
    (encodeUnit u).length ≤ 2 := by
  unfold encodeUnit
  simp only [h, if_true]
  split <;> simp

theorem encodeUnit_length_ascii {b : UInt8} (h : b ≠ 0 ∧ b < 0x80) :
    (encodeUnit b.toUInt16).length = 1 := by
  have small : b.toUInt16.toNat ≠ 0 ∧ b.toUInt16.toNat < 0x80 := by
    rw [UInt8.toNat_toUInt16]
    rw [Ne, ← UInt8.toNat_inj, UInt8.lt_iff_toNat_lt] at h
    exact h
  rw [encodeUnit]
  simp only [small, ne_eq, not_false_eq_true, and_self, if_true, List.length_singleton]

theorem length_le_of_unitsAfter {offset : Nat} {found us : List UInt16} {bytes : List UInt8}
    (h : unitsAfter offset found bytes = .ok us) :
    ∃ more, us = found.reverse ++ more ∧ (more.flatMap encodeUnit).length ≤ bytes.length := by
  fun_induction unitsAfter offset found bytes with
  | case1 offset found => exact ⟨[], by simpa using h.symm, by simp⟩
  | case2 offset found b rest plain ih =>
    obtain ⟨more, unitsAre, short⟩ := ih h
    refine ⟨b.toUInt16 :: more, by simp [unitsAre], ?_⟩
    have one := encodeUnit_length_ascii plain
    simp only [List.flatMap_cons, List.length_append, List.length_cons]
    omega
  | case3 => cases h
  | case4 => cases h
  | case5 offset found b notPlain two x rest low isLow ih =>
    obtain ⟨more, unitsAre, short⟩ := ih h
    refine ⟨(b.toNat % 32 * 64 + low).toUInt16 :: more, by simp [unitsAre], ?_⟩
    have lowSmall := continuation_lt isLow
    have small : (b.toNat % 32 * 64 + low).toUInt16.toNat < 0x800 := by
      rw [Utf16.toNat_toUInt16 (by omega)]
      omega
    have few := encodeUnit_length_le_two small
    simp only [List.flatMap_cons, List.length_append, List.length_cons]
    omega
  | case6 offset found b notPlain notTwo three x y rest middle low isMiddle isLow ih =>
    obtain ⟨more, unitsAre, short⟩ := ih h
    refine ⟨(b.toNat % 16 * 4096 + middle * 64 + low).toUInt16 :: more, by simp [unitsAre], ?_⟩
    have few := encodeUnit_length_le (b.toNat % 16 * 4096 + middle * 64 + low).toUInt16
    simp only [List.flatMap_cons, List.length_append, List.length_cons]
    omega
  | case7 => cases h
  | case8 => cases h
  | case9 => cases h

theorem encode_length_le_of_decode {bytes : List UInt8} {text : String}
    (h : decode bytes = .ok text) : (encode text).length ≤ bytes.length := by
  unfold decode at h
  split at h
  · cases h
  · rename_i us read
    split at h
    · cases h
    · rename_i chars decoded
      obtain ⟨more, charsAre, unitsAre⟩ := Utf16.flatMap_units_of_decodeAfter decoded
      obtain ⟨all, allIs, short⟩ := length_le_of_unitsAfter read
      have textIs : text.toList = more := by
        rw [← Except.ok.inj h, String.toList_ofList, charsAre]
        rfl
      rw [encode_eq, textIs, unitsAre, allIs]
      exact short

/-- The bytes of a character by the bits of its code point. The first half of a pair carries the
number of the plane less one in four bits, in which sixteen is zero. -/
def bitGroups (c : Char) : List UInt8 :=
  let code := c.toNat
  if code ≠ 0 ∧ code < 0x80 then [code.toUInt8]
  else if code < 0x800 then
    [(code >>> 6 &&& 0x1F).toUInt8 ||| 0xC0, (code &&& 0x3F).toUInt8 ||| 0x80]
  else if code < 0x10000 then
    [(code >>> 12 &&& 0x0F).toUInt8 ||| 0xE0, (code >>> 6 &&& 0x3F).toUInt8 ||| 0x80,
      (code &&& 0x3F).toUInt8 ||| 0x80]
  else
    [0xED, ((code >>> 16 &&& 0x0F).toUInt8 - 1) &&& 0x0F ||| 0xA0,
      (code >>> 10 &&& 0x3F).toUInt8 ||| 0x80,
      0xED, (code >>> 6 &&& 0x0F).toUInt8 ||| 0xB0, (code &&& 0x3F).toUInt8 ||| 0x80]

/-- Low bits of a number behind leading bits. -/
theorem masked_or (n width lead : Nat) (aligned : lead % 2 ^ width = 0) :
    (n &&& 2 ^ width - 1).toUInt8 ||| lead.toUInt8 = (lead + n % 2 ^ width).toUInt8 := by
  have small := Nat.mod_lt n (Nat.two_pow_pos width)
  have leading : lead = (lead / 2 ^ width) <<< width := by
    rw [Nat.shiftLeft_eq, Nat.div_mul_cancel (Nat.dvd_of_mod_eq_zero aligned)]
  have joined : lead + n % 2 ^ width = n % 2 ^ width ||| lead := by
    rw [leading, Nat.shiftLeft_add_eq_or_of_lt small, Nat.or_comm]
  rw [Nat.and_two_pow_sub_one_eq_mod, joined]
  exact (UInt8.ofNat_or _ _).symm

theorem plane_byte : ∀ n < 16,
    ((n + 1 &&& 0x0F).toUInt8 - 1) &&& 0x0F ||| 0xA0 = (0xA0 + n).toUInt8 := by decide

theorem encodeUnit_three {u : UInt16} (h : 0x800 ≤ u.toNat) :
    encodeUnit u = [(0xE0 + u.toNat / 4096).toUInt8, (0x80 + u.toNat / 64 % 64).toUInt8,
      (0x80 + u.toNat % 64).toUInt8] := by
  rw [encodeUnit, if_neg (by omega), if_neg (by omega)]

theorem encodeChar_eq_bitGroups (c : Char) : encodeChar c = bitGroups c := by
  have valid : c.toNat.isValidChar := c.valid
  simp only [Nat.isValidChar] at valid
  have tail (n : Nat) : (n &&& 0x3F).toUInt8 ||| 0x80 = (0x80 + n % 64).toUInt8 :=
    masked_or n 6 0x80 rfl
  have two (n : Nat) : (n &&& 0x1F).toUInt8 ||| 0xC0 = (0xC0 + n % 32).toUInt8 :=
    masked_or n 5 0xC0 rfl
  have three (n : Nat) : (n &&& 0x0F).toUInt8 ||| 0xE0 = (0xE0 + n % 16).toUInt8 :=
    masked_or n 4 0xE0 rfl
  have low (n : Nat) : (n &&& 0x0F).toUInt8 ||| 0xB0 = (0xB0 + n % 16).toUInt8 :=
    masked_or n 4 0xB0 rfl
  unfold encodeChar bitGroups Utf16.units
  simp only [tail, two, three, low, Nat.shiftRight_eq_div_pow, Nat.reducePow]
  generalize c.toNat = code at valid
  by_cases small : code < 0x10000
  · have value := Utf16.toNat_toUInt16 small
    rw [if_pos small, List.flatMap_singleton, encodeUnit, value]
    split
    · rfl
    · split
      · rw [Nat.mod_eq_of_lt (by omega : code / 64 < 32)]
      · rw [Nat.mod_eq_of_lt (by omega : code / 4096 < 16)]
  · obtain ⟨rest, rfl⟩ : ∃ rest, code = 0x10000 + rest := ⟨code - 0x10000, by omega⟩
    have first := Utf16.toNat_toUInt16 (n := 0xD800 + rest / 0x400) (by omega)
    have second := Utf16.toNat_toUInt16 (n := 0xDC00 + rest % 0x400) (by omega)
    have isPlane : (0x10000 + rest) / 65536 = rest / 0x10000 + 1 := by omega
    have highLead : 0xE0 + (0xD800 + rest / 0x400) / 4096 = 0xED := by omega
    have highMiddle : 0x80 + (0xD800 + rest / 0x400) / 64 % 64 = 0xA0 + rest / 0x10000 := by omega
    have highLast : (0xD800 + rest / 0x400) % 64 = (0x10000 + rest) / 1024 % 64 := by omega
    have lowLead : 0xE0 + (0xDC00 + rest % 0x400) / 4096 = 0xED := by omega
    have lowMiddle : 0x80 + (0xDC00 + rest % 0x400) / 64 % 64 =
        0xB0 + (0x10000 + rest) / 64 % 16 := by omega
    have lowLast : (0xDC00 + rest % 0x400) % 64 = (0x10000 + rest) % 64 := by omega
    rw [if_neg small, if_neg (by omega), if_neg (by omega), if_neg small, Nat.add_sub_cancel_left,
      List.flatMap_cons, List.flatMap_singleton, encodeUnit_three (by omega),
      encodeUnit_three (by omega), first, second, isPlane, plane_byte _ (by omega), highLead,
      highMiddle, highLast, lowLead, lowMiddle, lowLast]
    rfl

theorem encode_append (text other : String) :
    encode (text ++ other) = encode text ++ encode other := by
  rw [encode, encodeChars, String.toList_append, List.flatMap_append]
  rfl

theorem mem_encodeUnit {u : UInt16} {b : UInt8} (here : b ∈ encodeUnit u) : b ≠ 0 ∧ b < 0xF0 := by
  have bound := u.toNat_lt
  have within {n : Nat} (h : 0 < n ∧ n < 0xF0) : n.toUInt8 ≠ 0 ∧ n.toUInt8 < 0xF0 := by
    have value := byte_toNat (n := n) (by omega)
    rw [Ne, ← UInt8.toNat_inj, UInt8.lt_iff_toNat_lt, value]
    exact ⟨by simp; omega, h.2⟩
  unfold encodeUnit at here
  simp only at here
  split at here
  · rw [List.mem_singleton.mp here]
    exact within (by omega)
  · split at here
    · simp only [List.mem_cons, List.not_mem_nil, or_false] at here
      rcases here with rfl | rfl <;> exact within (by omega)
    · simp only [List.mem_cons, List.not_mem_nil, or_false] at here
      rcases here with rfl | rfl | rfl <;> exact within (by omega)

theorem mem_encode {text : String} {b : UInt8} (here : b ∈ encode text) : b ≠ 0 ∧ b < 0xF0 := by
  rw [encode_eq] at here
  obtain ⟨u, -, inUnit⟩ := List.mem_flatMap.mp here
  exact mem_encodeUnit inUnit

/-- A text is written by the bits of its characters, without the bytes that the format leaves out,
and read back. What two texts are written as stands side by side for the whole, and a text takes no
more bytes than it was read from. -/
theorem encode_faithful (text : String) :
    encode text = text.toList.flatMap bitGroups ∧ (∀ b ∈ encode text, b ≠ 0 ∧ b < 0xF0) ∧
      decode (encode text) = .ok text ∧
      (∀ other, encode (text ++ other) = encode text ++ encode other) ∧
      ∀ bytes, decode bytes = .ok text →
        (encode text).length ≤ bytes.length ∧ decode (encode text) = decode bytes := by
  refine ⟨?_, fun _ => mem_encode, decode_encode text, encode_append text, fun bytes read => ?_⟩
  · exact congrArg text.toList.flatMap (funext encodeChar_eq_bitGroups)
  · exact ⟨encode_length_le_of_decode read, (decode_encode text).trans read.symm⟩

/-- A letter in two bytes and the character zero in three. -/
theorem encode_faithful_long :
    let text := "A\x00"
    let bytes : List UInt8 := [0xC1, 0x81, 0xE0, 0x80, 0x80]
    decode bytes = .ok text ∧ encode text = [0x41, 0xC0, 0x80] ∧
      (encode text).length ≤ bytes.length ∧ decode (encode text) = decode bytes := by
  intro text bytes
  have read : decode bytes = .ok text := by rfl
  obtain ⟨-, -, -, -, again⟩ := encode_faithful text
  exact ⟨read, by decide, again bytes read⟩

end ModifiedUtf8

end JavaSnippet.Text
