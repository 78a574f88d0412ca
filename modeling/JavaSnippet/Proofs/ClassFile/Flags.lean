import JavaSnippet.ClassFile.Flags
/-!
Flags that are put together from bits with a meaning are kept as they are when they are read.
-/
namespace JavaSnippet.ClassFile

variable {owner : FlagOwner}

/-- Every bit means something to the owner. -/
def Flags.Known (flags : Flags owner) : Prop := Flags.ofBits flags.bits = flags

instance (flags : Flags owner) : Decidable flags.Known :=
  inferInstanceAs (Decidable (Flags.ofBits flags.bits = flags))

theorem known_iff {flags : Flags owner} : flags.Known ↔ flags.bits &&& owner.mask = flags.bits := by
  obtain ⟨bits⟩ := flags
  simp [Flags.Known, Flags.ofBits]

theorem known_none : (Flags.none : Flags owner).Known := by
  rw [known_iff]
  exact UInt16.zero_and

theorem known_ofBits (raw : UInt16) : (Flags.ofBits raw : Flags owner).Known := by
  rw [known_iff]
  simp only [Flags.ofBits, UInt16.and_assoc, UInt16.and_self]

theorem Flags.Known.withBit {flags : Flags owner} (h : flags.Known) {bit : UInt16}
    (meaning : bit &&& owner.mask = bit) (condition : Bool) :
    (flags.withBit bit condition).Known := by
  unfold Flags.withBit
  split
  · rw [known_iff] at h ⊢
    have joined : (flags.bits ||| bit) &&& owner.mask =
        flags.bits &&& owner.mask ||| bit &&& owner.mask := by
      apply UInt16.toBitVec_inj.mp
      simp [BitVec.and_or_distrib_right]
    rw [joined, h, meaning]
  · exact h

namespace Flags

variable (flags : Flags owner) {bit other : UInt16} (condition : Bool)

theorem contains_withBit_apart (apart : bit &&& other = 0) :
    (flags.withBit bit condition).contains other = flags.contains other := by
  unfold withBit
  split
  · have joined : (flags.bits ||| bit) &&& other = flags.bits &&& other := by
      have parts : (flags.bits ||| bit) &&& other = flags.bits &&& other ||| bit &&& other := by
        apply UInt16.toBitVec_inj.mp
        simp [BitVec.and_or_distrib_right]
      rw [parts, apart, UInt16.or_zero]
    rw [contains, contains, joined]
  · rfl

theorem contains_withBit_self :
    (flags.withBit bit condition).contains bit = (condition || flags.contains bit) := by
  unfold withBit
  cases condition with
  | false => rfl
  | true =>
    have joined : (flags.bits ||| bit) &&& bit = bit := by
      apply UInt16.toBitVec_inj.mp
      ext i
      simp only [UInt16.toBitVec_and, UInt16.toBitVec_or, BitVec.getElem_and, BitVec.getElem_or]
      cases bit.toBitVec[i] with
      | false => rw [Bool.and_false]
      | true => rw [Bool.or_true, Bool.and_true]
    rw [if_pos rfl, contains, joined, beq_self_eq_true]
    rfl

end Flags

end JavaSnippet.ClassFile
