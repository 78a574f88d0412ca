import JavaSnippet.Proofs.Text.ModifiedUtf8
import JavaSnippet.Text.Utf8
/-!
Standard UTF-8 reads back what it writes. In modified UTF-8 the standard form of a text is read as
the same text, or not at all: the two forms differ in the character zero and in those beyond the
first plane, and neither starts a group of modified UTF-8 in its standard form.
-/
namespace JavaSnippet.Text

namespace Utf8

/-- The standard form of a text. -/
def encode (text : String) : List UInt8 := text.toUTF8.data.toList

theorem encode_eq (text : String) : encode text = text.toList.flatMap String.utf8EncodeChar := by
  rw [encode, String.toUTF8_eq_toByteArray, ← String.utf8Encode_toList, List.utf8Encode,
    List.data_toByteArray, List.toList_toArray]

theorem byte_toNat {n : Nat} (h : n < 256) : (UInt8.ofNat n).toNat = n :=
  UInt8.toNat_ofNat_of_lt' h

theorem within_iff (low high : UInt8) {b : UInt8} :
    (low ≤ b && b ≤ high) = true ↔ low.toNat ≤ b.toNat ∧ b.toNat ≤ high.toNat := by
  rw [Bool.and_eq_true, decide_eq_true_eq, decide_eq_true_eq, UInt8.le_iff_toNat_le,
    UInt8.le_iff_toNat_le]

/-- A continuation byte. -/
theorem tail_byte (n : Nat) : isTail (UInt8.ofNat (n % 64 + 128)) = true ∧
    bits (UInt8.ofNat (n % 64 + 128)) = n % 64 := by
  have value := byte_toNat (n := n % 64 + 128) (by omega)
  have range : 0x80 ≤ n % 64 + 128 ∧ n % 64 + 128 ≤ 0xBF := by omega
  rw [← value] at range
  refine ⟨(within_iff 0x80 0xBF).mpr range, ?_⟩
  rw [bits, value]
  omega

theorem isSecond_of_le {first second : UInt8} (tail : 0x80 ≤ second.toNat ∧ second.toNat ≤ 0xBF)
    (afterE0 : first.toNat = 0xE0 → 0xA0 ≤ second.toNat)
    (afterED : first.toNat = 0xED → second.toNat ≤ 0x9F)
    (afterF0 : first.toNat = 0xF0 → 0x90 ≤ second.toNat)
    (afterF4 : first.toNat = 0xF4 → second.toNat ≤ 0x8F) : isSecond first second = true := by
  unfold isSecond secondRange
  simp only [beq_iff_eq, ← UInt8.toNat_inj, Bool.and_eq_true, decide_eq_true_eq,
    UInt8.le_iff_toNat_le]
  split
  · exact ⟨afterE0 ‹_›, tail.2⟩
  · split
    · exact ⟨tail.1, afterED ‹_›⟩
    · split
      · exact ⟨afterF0 ‹_›, tail.2⟩
      · split
        · exact ⟨tail.1, afterF4 ‹_›⟩
        · exact tail

section Groups

variable {first a b c : UInt8} {rest : List UInt8}

theorem firstChar_one (h : first.toNat < 0x80) :
    firstChar first rest = .ok (Char.ofNat first.toNat, 0) := by
  unfold firstChar
  rw [if_pos (UInt8.lt_iff_toNat_lt.mpr h)]

theorem firstChar_two (h : 0xC2 ≤ first.toNat ∧ first.toNat ≤ 0xDF) (tail : isTail a = true) :
    firstChar first (a :: rest) = .ok (Char.ofNat (first.toNat % 32 * 64 + bits a), 1) := by
  have notOne : ¬ first.toNat < 0x80 := by omega
  unfold firstChar
  rw [if_neg (mt UInt8.lt_iff_toNat_lt.mp notOne), if_pos ((within_iff 0xC2 0xDF).mpr h)]
  simp only [tail, if_true]

theorem firstChar_three (h : 0xE0 ≤ first.toNat ∧ first.toNat ≤ 0xEF)
    (second : isSecond first a = true) (tail : isTail b = true) :
    firstChar first (a :: b :: rest) =
      .ok (Char.ofNat ((first.toNat % 16 * 64 + bits a) * 64 + bits b), 2) := by
  have notOne : ¬ first.toNat < 0x80 := by omega
  have notTwo : ¬ (0xC2 ≤ first.toNat ∧ first.toNat ≤ 0xDF) := by omega
  unfold firstChar
  rw [if_neg (mt UInt8.lt_iff_toNat_lt.mp notOne), if_neg (mt (within_iff 0xC2 0xDF).mp notTwo),
    if_pos ((within_iff 0xE0 0xEF).mpr h)]
  simp only [second, tail, Bool.not_true, Bool.false_eq_true, if_false, if_true]

theorem firstChar_four (h : 0xF0 ≤ first.toNat ∧ first.toNat ≤ 0xF4)
    (second : isSecond first a = true) (third : isTail b = true) (tail : isTail c = true) :
    firstChar first (a :: b :: c :: rest) =
      .ok (Char.ofNat (((first.toNat % 8 * 64 + bits a) * 64 + bits b) * 64 + bits c), 3) := by
  have notOne : ¬ first.toNat < 0x80 := by omega
  have notTwo : ¬ (0xC2 ≤ first.toNat ∧ first.toNat ≤ 0xDF) := by omega
  have notThree : ¬ (0xE0 ≤ first.toNat ∧ first.toNat ≤ 0xEF) := by omega
  unfold firstChar
  rw [if_neg (mt UInt8.lt_iff_toNat_lt.mp notOne), if_neg (mt (within_iff 0xC2 0xDF).mp notTwo),
    if_neg (mt (within_iff 0xE0 0xEF).mp notThree), if_pos ((within_iff 0xF0 0xF4).mpr h)]
  simp only [second, third, tail, Bool.not_true, Bool.false_eq_true, if_false, if_true]

end Groups

section Numbers

variable {n : Nat} (rest : List UInt8)

theorem firstChar_twoBytes (h : 0x80 ≤ n ∧ n < 0x800) :
    firstChar (UInt8.ofNat (n / 64 % 32 + 192)) (UInt8.ofNat (n % 64 + 128) :: rest) =
      .ok (Char.ofNat n, 1) := by
  have value := byte_toNat (n := n / 64 % 32 + 192) (by omega)
  obtain ⟨tail, low⟩ := tail_byte n
  have code : (n / 64 % 32 + 192) % 32 * 64 + n % 64 = n := by omega
  rw [firstChar_two (by rw [value]; omega) tail, value, low, code]

/-- Numbers below and those of surrogates are what the second byte excludes. -/
theorem firstChar_threeBytes (h : 0x800 ≤ n ∧ n < 0x10000) (real : n < 0xD800 ∨ 0xDFFF < n) :
    firstChar (UInt8.ofNat (n / 4096 % 16 + 224))
        (UInt8.ofNat (n / 64 % 64 + 128) :: UInt8.ofNat (n % 64 + 128) :: rest) =
      .ok (Char.ofNat n, 2) := by
  have value := byte_toNat (n := n / 4096 % 16 + 224) (by omega)
  obtain ⟨middleTail, middle⟩ := tail_byte (n / 64)
  obtain ⟨tail, low⟩ := tail_byte n
  have second : isSecond (UInt8.ofNat (n / 4096 % 16 + 224)) (UInt8.ofNat (n / 64 % 64 + 128)) =
      true := by
    refine isSecond_of_le ((within_iff 0x80 0xBF).mp middleTail) ?_ ?_ ?_ ?_ <;>
      rw [value, byte_toNat (by omega)] <;> omega
  have code : ((n / 4096 % 16 + 224) % 16 * 64 + n / 64 % 64) * 64 + n % 64 = n := by omega
  rw [firstChar_three (by rw [value]; omega) second tail, value, middle, low, code]

theorem firstChar_fourBytes (h : 0x10000 ≤ n ∧ n < 0x110000) :
    firstChar (UInt8.ofNat (n / 262144 % 8 + 240))
        (UInt8.ofNat (n / 4096 % 64 + 128) :: UInt8.ofNat (n / 64 % 64 + 128) ::
          UInt8.ofNat (n % 64 + 128) :: rest) =
      .ok (Char.ofNat n, 3) := by
  have value := byte_toNat (n := n / 262144 % 8 + 240) (by omega)
  obtain ⟨highTail, high⟩ := tail_byte (n / 4096)
  obtain ⟨middleTail, middle⟩ := tail_byte (n / 64)
  obtain ⟨tail, low⟩ := tail_byte n
  have second : isSecond (UInt8.ofNat (n / 262144 % 8 + 240))
      (UInt8.ofNat (n / 4096 % 64 + 128)) = true := by
    refine isSecond_of_le ((within_iff 0x80 0xBF).mp highTail) ?_ ?_ ?_ ?_ <;>
      rw [value, byte_toNat (by omega)] <;> omega
  have code : (((n / 262144 % 8 + 240) % 8 * 64 + n / 4096 % 64) * 64 + n / 64 % 64) * 64 +
      n % 64 = n := by omega
  rw [firstChar_four (by rw [value]; omega) second middleTail tail, value, high, middle, low, code]

end Numbers

/-- The bytes of a character are read as one group, whatever follows them. -/
theorem firstChar_encodeChar (c : Char) (rest : List UInt8) :
    ∃ first more, String.utf8EncodeChar c = first :: more ∧
      firstChar first (more ++ rest) = .ok (c, more.length) := by
  have valid : c.toNat.isValidChar := c.valid
  simp only [Nat.isValidChar] at valid
  have codeIs : c.val.toNat = c.toNat := rfl
  have same := Char.ofNat_toNat c
  unfold String.utf8EncodeChar
  simp only [codeIs]
  split
  · have value := byte_toNat (n := c.toNat) (by omega)
    have read : firstChar _ rest = _ :=
      firstChar_one (by omega : (UInt8.ofNat c.toNat).toNat < 0x80)
    rw [value, same] at read
    exact ⟨_, [], rfl, read⟩
  · split
    · have read := firstChar_twoBytes rest (by omega : 0x80 ≤ c.toNat ∧ c.toNat < 0x800)
      rw [same] at read
      exact ⟨_, [_], rfl, read⟩
    · split
      · have read := firstChar_threeBytes rest
          (by omega : 0x800 ≤ c.toNat ∧ c.toNat < 0x10000) (by omega)
        rw [same] at read
        exact ⟨_, [_, _], rfl, read⟩
      · have read := firstChar_fourBytes rest
          (by omega : 0x10000 ≤ c.toNat ∧ c.toNat < 0x110000)
        rw [same] at read
        exact ⟨_, [_, _, _], rfl, read⟩

theorem decodeAfter_flatMap (offset : Nat) (found text : List Char) :
    decodeAfter offset found (text.flatMap String.utf8EncodeChar) =
      .ok (found.reverse ++ text) := by
  induction text generalizing offset found with
  | nil => simp [decodeAfter]
  | cons c text ih =>
    obtain ⟨first, more, bytes, read⟩ :=
      firstChar_encodeChar c (text.flatMap String.utf8EncodeChar)
    rw [List.flatMap_cons, bytes, List.cons_append, decodeAfter, read]
    simp only
    rw [List.drop_left, ih]
    simp

theorem decode_encode (text : String) : decode (encode text) = .ok text := by
  rw [decode, encode_eq, decodeAfter_flatMap]
  exact congrArg Except.ok String.ofList_toList

end Utf8

namespace ModifiedUtf8

/-- The characters that both forms write alike. -/
def IsCommon (c : Char) : Prop := c.toNat ≠ 0 ∧ c.toNat < 0x10000

theorem encodeUnit_of_isCommon {c : Char} (common : IsCommon c) :
    Utf16.units c = [c.toNat.toUInt16] ∧
      encodeUnit c.toNat.toUInt16 = String.utf8EncodeChar c := by
  obtain ⟨some, plane⟩ := common
  have codeIs : c.val.toNat = c.toNat := rfl
  have two : c.toNat < 0x800 → c.toNat / 64 % 32 = c.toNat / 64 := by omega
  have three : c.toNat / 4096 % 16 = c.toNat / 4096 := by omega
  refine ⟨if_pos plane, ?_⟩
  rw [encodeUnit, Utf16.toNat_toUInt16 plane, String.utf8EncodeChar]
  simp only [codeIs, Nat.toUInt8_eq]
  by_cases ascii : c.toNat < 0x80
  · rw [if_pos ⟨some, ascii⟩, if_pos (by omega)]
  · rw [if_neg fun both => ascii both.2]
    by_cases small : c.toNat < 0x800
    · rw [if_pos small, if_neg (by omega), if_pos (by omega), two small, Nat.add_comm 0xC0,
        Nat.add_comm 0x80]
    · rw [if_neg small, if_neg (by omega), if_neg (by omega), if_pos (by omega), three,
        Nat.add_comm 0xE0, Nat.add_comm 0x80, Nat.add_comm 0x80]

theorem lead_of_not_isCommon {c : Char} (h : ¬ IsCommon c) : ∃ first more,
    String.utf8EncodeChar c = first :: more ∧ (first.toNat = 0 ∨ 0xF0 ≤ first.toNat) := by
  have codeIs : c.val.toNat = c.toNat := rfl
  have bound : c.toNat < 0x110000 := by
    have valid : c.toNat.isValidChar := c.valid
    simp only [Nat.isValidChar] at valid
    omega
  unfold IsCommon at h
  unfold String.utf8EncodeChar
  simp only [codeIs]
  by_cases zero : c.toNat = 0
  · rw [if_pos (by omega), zero]
    exact ⟨_, [], rfl, .inl rfl⟩
  · rw [if_neg (by omega), if_neg (by omega), if_neg (by omega)]
    refine ⟨_, _, rfl, .inr ?_⟩
    rw [Utf8.byte_toNat (by omega)]
    omega

theorem unitsAfter_bad {b : UInt8} (h : b.toNat = 0 ∨ 0xF0 ≤ b.toNat) (offset : Nat)
    (found : List UInt16) (rest : List UInt8) :
    unitsAfter offset found (b :: rest) = .error (.badStart b offset) := by
  have notOne : ¬ (b ≠ 0 ∧ b < 0x80) := by
    rw [Ne, ← UInt8.toNat_inj, UInt8.lt_iff_toNat_lt]
    show ¬ (b.toNat ≠ 0 ∧ b.toNat < 0x80)
    omega
  have notLead : ∀ low high : UInt8, 0 < low.toNat → high.toNat ≤ 0xF0 →
      ¬ (low ≤ b ∧ b < high) := by
    intro low high some small
    rw [UInt8.le_iff_toNat_le, UInt8.lt_iff_toNat_lt]
    omega
  rw [unitsAfter.eq_def]
  simp only [if_neg notOne, if_neg (notLead 0xC0 0xE0 (by decide) (by decide)),
    if_neg (notLead 0xE0 0xF0 (by decide) (by decide))]

/-- The units that are read from the standard form are those of the text. -/
theorem units_of_standard {offset : Nat} {found us : List UInt16} {text : List Char}
    (h : unitsAfter offset found (text.flatMap String.utf8EncodeChar) = .ok us) :
    us = found.reverse ++ text.flatMap Utf16.units := by
  induction text generalizing offset found with
  | nil => simpa [unitsAfter] using h.symm
  | cons c text ih =>
    rw [List.flatMap_cons] at h
    by_cases common : IsCommon c
    · obtain ⟨units, bytes⟩ := encodeUnit_of_isCommon common
      rw [← bytes, unitsAfter_encodeUnit] at h
      rw [ih h, List.flatMap_cons, units]
      simp
    · obtain ⟨first, more, bytes, bad⟩ := lead_of_not_isCommon common
      rw [bytes, List.cons_append, unitsAfter_bad bad] at h
      cases h

theorem eq_of_decode_standard {text other : String} (h : decode (Utf8.encode text) = .ok other) :
    other = text := by
  rw [Utf8.encode_eq, decode] at h
  split at h
  · cases h
  · rename_i us read
    obtain rfl := units_of_standard read
    rw [List.reverse_nil, List.nil_append, Utf16.decode, Utf16.decodeAfter_flatMap_units] at h
    simpa using (Except.ok.inj h).symm

end ModifiedUtf8

end JavaSnippet.Text
