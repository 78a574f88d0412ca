import JavaSnippet.Proofs.Fallible
import JavaSnippet.Proofs.Text.ModifiedUtf8
import JavaSnippet.Text.Utf8
/-!
How many bytes a text is read from. In modified UTF-8 as in the standard form it is at least one
byte and at most four for each UTF-16 unit of the text, although the bytes need not be the shortest.
-/
namespace JavaSnippet.Text

/-- The number of UTF-16 units of a text. -/
def Utf16.count (text : List Char) : Nat :=
  (text.flatMap units).length

namespace Utf16

theorem count_cons (c : Char) (text : List Char) :
    count (c :: text) = (units c).length + count text := by
  rw [count, List.flatMap_cons, List.length_append, count]

theorem count_reverse (text : List Char) : count text.reverse = count text := by
  rw [count, count, List.length_flatMap, List.length_flatMap, List.map_reverse, List.sum_reverse]

theorem length_units_pos (c : Char) : 0 < (units c).length := by
  unfold units
  split <;> simp

theorem length_units_le (c : Char) : (units c).length ≤ 2 := by
  unfold units
  split <;> simp

theorem length_units_ascii {n : Nat} (h : n < 0x80) : (units (Char.ofNat n)).length = 1 := by
  have valid : n.isValidChar := Or.inl (by omega)
  rw [units, toNat_ofNat_of_valid valid, if_pos (by omega), List.length_singleton]

end Utf16

/-- A number of bytes that a text of so many units can have been read from. -/
def Proportionate (units bytes : Nat) : Prop :=
  units ≤ bytes ∧ bytes ≤ 4 * units

theorem Proportionate.add {a b c d : Nat} (first : Proportionate a b) (next : Proportionate c d) :
    Proportionate (a + c) (b + d) := by
  unfold Proportionate at *
  omega

namespace ModifiedUtf8

theorem proportionate_of_unitsAfter {offset : Nat} {found us : List UInt16} {bytes : List UInt8}
    (h : unitsAfter offset found bytes = .ok us) :
    ∃ more, us.length = found.length + more ∧ Proportionate more bytes.length := by
  have one {k more bytes : Nat} (small : 1 ≤ k ∧ k ≤ 4) (fits : Proportionate more bytes) :
      Proportionate (more + 1) (bytes + k) := fits.add small
  fun_induction unitsAfter offset found bytes with
  | case1 offset found =>
    obtain rfl := Except.ok.inj h
    exact ⟨0, List.length_reverse, by simp [Proportionate]⟩
  | case2 offset found b rest plain ih =>
    obtain ⟨more, total, fits⟩ := ih h
    exact ⟨more + 1, total.trans (Nat.add_right_comm ..), one (by omega) fits⟩
  | case5 offset found b notPlain two x rest low isLow ih =>
    obtain ⟨more, total, fits⟩ := ih h
    exact ⟨more + 1, total.trans (Nat.add_right_comm ..), one (k := 2) (by omega) fits⟩
  | case6 offset found b notPlain notTwo three x y rest middle low isMiddle isLow ih =>
    obtain ⟨more, total, fits⟩ := ih h
    exact ⟨more + 1, total.trans (Nat.add_right_comm ..), one (k := 3) (by omega) fits⟩
  | case3 | case4 | case7 | case8 | case9 => cases h

theorem proportionate_of_decode {bytes : List UInt8} {text : String}
    (h : decode bytes = .ok text) : Proportionate (Utf16.count text.toList) bytes.length := by
  unfold decode at h
  split at h
  · cases h
  · rename_i us read
    split at h
    · cases h
    · rename_i chars decoded
      obtain ⟨more, charsAre, unitsAre⟩ := Utf16.flatMap_units_of_decodeAfter decoded
      obtain ⟨count, total, fits⟩ := proportionate_of_unitsAfter read
      obtain rfl := Except.ok.inj h
      obtain rfl : chars = more := charsAre
      rwa [String.toList_ofList, Utf16.count, unitsAre, total, List.length_nil, Nat.zero_add]

end ModifiedUtf8

namespace Utf8

theorem proportionate_of_firstChar {first : UInt8} {rest : List UInt8} {c : Char} {more : Nat}
    (h : firstChar first rest = .ok (c, more)) :
    more ≤ rest.length ∧ Proportionate (Utf16.units c).length (more + 1) := by
  have pos := Utf16.length_units_pos c
  have le := Utf16.length_units_le c
  suffices more ≤ rest.length ∧ more ≤ 3 ∧ (more = 0 → (Utf16.units c).length = 1) by
    unfold Proportionate
    omega
  have long {d : Char} {k : Nat} (same : Except.ok (d, k) = (.ok (c, more) : Except GroupFault _))
      (some : 1 ≤ k ∧ k ≤ 3) (enough : k ≤ rest.length) :
      more ≤ rest.length ∧ more ≤ 3 ∧ (more = 0 → (Utf16.units c).length = 1) := by
    obtain ⟨-, rfl⟩ := Prod.mk.inj (Except.ok.inj same)
    omega
  revert h
  fun_cases firstChar first rest with
  | case1 =>
    rename_i ascii
    intro h
    obtain ⟨rfl, rfl⟩ := Prod.mk.inj (Except.ok.inj h)
    rw [UInt8.lt_iff_toNat_lt] at ascii
    exact ⟨Nat.zero_le _, by omega, fun _ => Utf16.length_units_ascii ascii⟩
  | case3 | case8 | case15 => exact fun h => long h (by omega) (by simp)
  | _ =>
    intro h
    cases h

theorem proportionate_of_decodeAfter {offset : Nat} {found text : List Char} {bytes : List UInt8}
    (h : decodeAfter offset found bytes = .ok text) :
    ∃ more, Utf16.count text = Utf16.count found + more ∧ Proportionate more bytes.length := by
  fun_induction decodeAfter offset found bytes with
  | case1 offset found =>
    obtain rfl := Except.ok.inj h
    exact ⟨0, Utf16.count_reverse found, by simp [Proportionate]⟩
  | case2 => cases h
  | case3 offset found first rest c more isFirst ih =>
    obtain ⟨count, total, fits⟩ := ih h
    obtain ⟨within, one⟩ := proportionate_of_firstChar isFirst
    refine ⟨count + (Utf16.units c).length, ?_, ?_⟩
    · rw [total, Utf16.count_cons]
      omega
    · have length : (first :: rest).length = (rest.drop more).length + (more + 1) := by
        rw [List.length_cons, List.length_drop]
        omega
      rw [length]
      exact fits.add one

theorem proportionate_of_decode {bytes : List UInt8} {text : String}
    (h : decode bytes = .ok text) : Proportionate (Utf16.count text.toList) bytes.length := by
  obtain ⟨chars, read, rfl⟩ := except_map_eq_ok.mp h
  obtain ⟨count, total, fits⟩ := proportionate_of_decodeAfter read
  have none : Utf16.count [] = 0 := rfl
  rwa [String.toList_ofList, total, none, Nat.zero_add]

end Utf8

end JavaSnippet.Text
