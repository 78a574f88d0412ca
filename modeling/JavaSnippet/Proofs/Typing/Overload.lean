import JavaSnippet.Typing.Overload
/-!
Conversions that succeed. A value is passed as it is, or made a `long`; only a constant may be
assigned to a narrower type.
-/
namespace JavaSnippet

namespace FieldType

theorem eq_base_of_base? {t : FieldType} {type : BaseType} (h : t.base? = some type) :
    t = .base type := by
  obtain ⟨element, dimensions⟩ := t
  cases element with
  | object name => cases h
  | base other =>
    cases dimensions with
    | succ n => cases h
    | zero =>
      obtain rfl := Option.some.inj h
      rfl

theorem base_inj {a b : BaseType} (h : FieldType.base a = .base b) : a = b := by
  cases h
  rfl

theorem eq_object_of_class? {t : FieldType} {name : ClassName} (h : t.class? = some name) :
    t = .object name := by
  obtain ⟨element, dimensions⟩ := t
  cases element with
  | base type => cases h
  | object other =>
    cases dimensions with
    | succ n => cases h
    | zero =>
      obtain rfl := Option.some.inj h
      rfl

end FieldType

namespace Typing

variable {path : ClassPath} {a b : Term} {wanted : FieldType}

theorem pass_ok (h : pass path a wanted = some b) :
    isAssignable path a.type wanted = true ∧
      (wanted = .long ∧ a.type.base?.isSome = true ∧ a.type.isLong = false ∧ b = .widen a ∨
        ¬(wanted = .long ∧ a.type.base?.isSome = true ∧ a.type.isLong = false) ∧ b = a) := by
  unfold pass at h
  split at h
  · rename_i assignable
    refine ⟨assignable, ?_⟩
    split at h
    · rename_i widened
      obtain rfl := Option.some.inj h
      exact .inl ⟨widened.1, widened.2.1, by simpa using widened.2.2, rfl⟩
    · rename_i kept
      obtain rfl := Option.some.inj h
      exact .inr ⟨by simpa using kept, rfl⟩
  · cases h

theorem convert_ok (h : convert path a wanted = .ok b) :
    (∃ n, a = .int n ∧ narrows n wanted = true ∧ b = a) ∨ pass path a wanted = some b := by
  unfold convert at h
  simp only at h
  split at h
  · rename_i n
    by_cases narrow : narrows n wanted = true
    · rw [if_pos narrow] at h
      exact .inl ⟨n, rfl, narrow, (Except.ok.inj h).symm⟩
    · rw [if_neg narrow] at h
      split at h
      · rename_i c passed
        rw [passed, Except.ok.inj h]
        exact .inr rfl
      · cases h
  · rw [if_neg Bool.false_ne_true] at h
    split at h
    · rename_i c passed
      rw [passed, Except.ok.inj h]
      exact .inr rfl
    · cases h

theorem isAssignable_base {a : BaseType}
    (h : isAssignable path (.value (.base a)) wanted = true) :
    ∃ b, wanted = .base b ∧ ClassPath.widens a b = true := by
  have isBase : (FieldType.base a).base? = some a := rfl
  simp only [isAssignable, isBase] at h
  cases isWanted : wanted.base? with
  | none =>
    rw [isWanted] at h
    cases h
  | some b =>
    rw [isWanted] at h
    exact ⟨b, FieldType.eq_base_of_base? isWanted, h⟩

end Typing

end JavaSnippet
