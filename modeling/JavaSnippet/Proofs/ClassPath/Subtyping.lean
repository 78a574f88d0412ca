import JavaSnippet.Proofs.ClassPath.Searching
/-!
Subtypes as the language has them: what is reached from a type by direct supertypes, where arrays
vary with their elements. They are compared with what the compiler finds without a search through
array types.
-/
namespace JavaSnippet

/-- The interface of what can be cloned. -/
def ClassName.cloneable : ClassName := ⟨"java/lang/Cloneable"⟩

namespace ClassPath

variable {p : ClassPath} {s t : FieldType} {e f : ElementType} {m n : Nat} {a b : ClassName}

/-- The class and the interfaces that are supertypes of every array. -/
def arraySupertypes : List ClassName := [.object, .cloneable, .serializable]

/-- The second reference type is a direct supertype of the first. -/
inductive Direct (p : ClassPath) : FieldType → FieldType → Prop where
  | inherited {a b : ClassName} (above : p.Extends a b) : Direct p (.object a) (.object b)
  | top (a : ClassName) : Direct p (.object a) (.object .object)
  | special (t : FieldType) {name : ClassName} (above : name ∈ arraySupertypes) :
    Direct p t.array (.object name)
  | array {s t : FieldType} (above : Direct p s t) : Direct p s.array t.array

/-- A number of steps, perhaps none, lead from the first type to the second. -/
def Subtype (p : ClassPath) : FieldType → FieldType → Prop := Relation.ReflTransGen p.Direct

section Steps

/-- A step goes up from the class of the elements, or on to an array of fewer dimensions. -/
theorem direct_iff : p.Direct ⟨e, m⟩ ⟨f, n⟩ ↔ ∃ b, f = .object b ∧
    ((m = n ∧ ∃ a, e = .object a ∧ (p.Extends a b ∨ b = .object)) ∨
      (n < m ∧ b ∈ arraySupertypes)) := by
  constructor
  · intro step
    generalize isSub : (⟨e, m⟩ : FieldType) = s at step
    generalize isSuper : (⟨f, n⟩ : FieldType) = t at step
    induction step generalizing m n with
    | inherited above =>
      cases isSub
      cases isSuper
      exact ⟨_, rfl, .inl ⟨rfl, _, rfl, .inl above⟩⟩
    | top a =>
      cases isSub
      cases isSuper
      exact ⟨_, rfl, .inl ⟨rfl, _, rfl, .inr rfl⟩⟩
    | special t above =>
      cases isSub
      cases isSuper
      exact ⟨_, rfl, .inr ⟨Nat.succ_pos _, above⟩⟩
    | array above ih =>
      cases isSub
      cases isSuper
      obtain ⟨b, isObject, ⟨same, inherits⟩ | ⟨fewer, above⟩⟩ := ih rfl rfl
      · exact ⟨b, isObject, .inl ⟨congrArg (· + 1) same, inherits⟩⟩
      · exact ⟨b, isObject, .inr ⟨Nat.succ_lt_succ fewer, above⟩⟩
  · rintro ⟨b, rfl, ⟨rfl, a, rfl, above⟩ | ⟨fewer, above⟩⟩
    · induction m with
      | zero =>
        rcases above with direct | rfl
        · exact .inherited direct
        · exact .top a
      | succ m ih => exact .array ih
    · induction n generalizing m with
      | zero =>
        obtain ⟨k, rfl⟩ := Nat.exists_eq_succ_of_ne_zero (Nat.ne_of_gt fewer)
        exact .special ⟨e, k⟩ above
      | succ n ih =>
        obtain ⟨k, rfl⟩ := Nat.exists_eq_succ_of_ne_zero (Nat.ne_of_gt (Nat.zero_lt_of_lt fewer))
        exact .array (ih (Nat.lt_of_succ_lt_succ fewer))

theorem subtype_of_below (way : p.Below a b) : p.Subtype ⟨.object a, n⟩ ⟨.object b, n⟩ := by
  induction way with
  | refl => exact .refl
  | tail _ above ih => exact ih.tail (direct_iff.mpr ⟨_, rfl, .inl ⟨rfl, _, rfl, .inl above⟩⟩)

theorem subtype_base_iff {c : BaseType} : p.Subtype s ⟨.base c, n⟩ ↔ s = ⟨.base c, n⟩ := by
  constructor
  · intro way
    rcases Relation.ReflTransGen.cases_tail way with same | ⟨⟨f, k⟩, -, last⟩
    · exact same.symm
    · obtain ⟨b, isObject, -⟩ := direct_iff.mp last
      cases isObject
  · rintro rfl
    exact .refl

/-- The types of arrays and classes above a type. Without supertypes of `java/lang/Object` there are
two ways: up from the class of the elements, or up from what every array extends. -/
theorem subtype_object_iff (top : p.supertypes .object = []) :
    p.Subtype ⟨e, m⟩ ⟨.object b, n⟩ ↔
      (m = n ∧ ∃ a, e = .object a ∧ (b = .object ∨ p.Below a b)) ∨
        (n < m ∧ ∃ a ∈ arraySupertypes, p.Below a b) := by
  constructor
  · intro way
    generalize isSuper : (⟨.object b, n⟩ : FieldType) = t at way
    induction way generalizing b n with
    | refl =>
      cases isSuper
      exact .inl ⟨rfl, b, rfl, .inr .refl⟩
    | @tail t _ before last ih =>
      obtain ⟨f, k⟩ := t
      subst isSuper
      obtain ⟨_, isObject, ⟨rfl, a, rfl, above⟩ | ⟨fewer, above⟩⟩ := direct_iff.mp last
      · cases isObject
        rcases above with direct | rfl
        · rcases ih rfl with ⟨same, first, isFirst, isTop | way⟩ | ⟨fewer, special, isSpecial, way⟩
          · rw [isTop, Extends, top] at direct
            cases direct
          · exact .inl ⟨same, first, isFirst, .inr (way.tail direct)⟩
          · exact .inr ⟨fewer, special, isSpecial, way.tail direct⟩
        · rcases ih rfl with ⟨same, first, isFirst, -⟩ | ⟨fewer, -⟩
          · exact .inl ⟨same, first, isFirst, .inl rfl⟩
          · exact .inr ⟨fewer, .object, List.mem_cons_self, .refl⟩
      · cases isObject
        refine .inr ⟨Nat.lt_of_lt_of_le fewer ?_, _, above, .refl⟩
        cases f with
        | base c =>
          cases subtype_base_iff.mp before
          exact Nat.le_refl _
        | object c =>
          rcases ih rfl with ⟨same, -⟩ | ⟨more, -⟩
          · exact Nat.le_of_eq same.symm
          · exact Nat.le_of_lt more
  · rintro (⟨rfl, a, rfl, isTop | way⟩ | ⟨fewer, a, special, way⟩)
    · subst isTop
      exact .single (direct_iff.mpr ⟨_, rfl, .inl ⟨rfl, a, rfl, .inr rfl⟩⟩)
    · exact subtype_of_below way
    · exact .head (direct_iff.mpr ⟨a, rfl, .inr ⟨fewer, special⟩⟩) (subtype_of_below way)

end Steps

/-- What the compiler does not find: of the supertypes of arrays it knows `java/lang/Object` and
`java/io/Serializable` alone, and arrays of these only where the elements are no primitive arrays.
-/
def Overlooked (sub super : FieldType) : Prop :=
  super.dimensions < sub.dimensions ∧
    (super.element ∉ [.object .object, .object .serializable] ∨
      (0 < super.dimensions ∧ ∃ c, sub.element = .base c))

section Found

theorem isSubtype_base_iff {c : BaseType} :
    p.isSubtype ⟨e, m⟩ ⟨.base c, n⟩ = true ↔ 0 < m ∧ e = .base c ∧ m = n := by
  cases e with
  | base d => cases m <;> cases n <;> simp [isSubtype]
  | object d => cases m <;> cases n <;> simp [isSubtype]

theorem isSubtype_object_iff :
    p.isSubtype ⟨e, m⟩ ⟨.object b, n⟩ = true ↔
      (m = n ∧ ∃ a, e = .object a ∧ p.isSubclass a b = true) ∨
        (n < m ∧ isArraySuper b = true ∧ (n = 0 ∨ ∃ a, e = .object a)) := by
  cases e with
  | base d => cases m <;> cases n <;> simp [isSubtype]
  | object d =>
    cases m with
    | zero => cases n <;> simp [isSubtype]
    | succ m =>
      cases n with
      | zero => simp [isSubtype]
      | succ n =>
        by_cases same : m = n
        · simp [isSubtype, same]
        · simp [isSubtype, same]

theorem isArraySuper_iff : isArraySuper b = true ↔ b = .object ∨ b = .serializable := by
  simp [isArraySuper]

end Found

/-- A reference type is found to be a subtype of another exactly when it is one by the rules of the
language, but for the supertypes of arrays that are overlooked. -/
theorem isSubtype_iff_subtype (top : p.supertypes .object = []) (reference : s.isReference = true) :
    p.isSubtype s t = true ↔ p.Subtype s t ∧ ¬Overlooked s t := by
  obtain ⟨e, m⟩ := s
  obtain ⟨f, n⟩ := t
  cases f with
  | base c =>
    rw [isSubtype_base_iff, subtype_base_iff]
    constructor
    · rintro ⟨-, rfl, rfl⟩
      exact ⟨rfl, fun lost => Nat.lt_irrefl _ lost.1⟩
    · rintro ⟨same, -⟩
      cases same
      cases m with
      | zero => cases reference
      | succ m => exact ⟨Nat.succ_pos m, rfl, rfl⟩
  | object b =>
    rw [isSubtype_object_iff, subtype_object_iff top]
    constructor
    · rintro (⟨rfl, a, rfl, found⟩ | ⟨fewer, special, elements⟩)
      · exact ⟨.inl ⟨rfl, a, rfl, isSubclass_iff.mp found⟩, fun lost => Nat.lt_irrefl _ lost.1⟩
      · have known := isArraySuper_iff.mp special
        refine ⟨.inr ⟨fewer, b, ?_, .refl⟩, ?_⟩
        · rcases known with rfl | rfl <;> simp [arraySupertypes]
        · rintro ⟨-, unknown | ⟨isArray, c, isBase⟩⟩
          · exact unknown (by simpa using known)
          · rcases elements with none | ⟨a, isObject⟩
            · exact Nat.ne_of_gt isArray none
            · cases isBase.symm.trans isObject
    · rintro ⟨⟨same, a, isObject, above⟩ | ⟨fewer, -⟩, seen⟩
      · exact .inl ⟨same, a, isObject, isSubclass_iff.mpr above⟩
      · have known : b = .object ∨ b = .serializable := by
          by_contra unknown
          exact seen ⟨fewer, .inl (by simpa using unknown)⟩
        refine .inr ⟨fewer, isArraySuper_iff.mpr known, ?_⟩
        cases e with
        | object a => exact .inr ⟨a, rfl⟩
        | base c =>
          by_contra isArray
          exact seen ⟨fewer, .inr ⟨Nat.pos_of_ne_zero fun none => isArray (.inl none), c, rfl⟩⟩

/-- Arrays of strings are arrays of objects, and found to be so. Arrays of numbers are objects too,
but arrays of those are not found to be arrays of objects. -/
theorem isSubtype_iff_subtype_grids :
    platform.supertypes .object = [] ∧
      (FieldType.isReference ⟨.object .string, 2⟩ = true ∧
        platform.Subtype ⟨.object .string, 2⟩ ⟨.object .object, 1⟩) ∧
      FieldType.isReference ⟨.base .int, 2⟩ = true ∧
        platform.isSubtype ⟨.base .int, 2⟩ ⟨.object .object, 1⟩ = false ∧
        platform.Subtype ⟨.base .int, 2⟩ ⟨.object .object, 1⟩ ∧
        Overlooked ⟨.base .int, 2⟩ ⟨.object .object, 1⟩ := by
  have top : platform.supertypes .object = [] := by decide +kernel
  have strings : platform.isSubtype ⟨.object .string, 2⟩ ⟨.object .object, 1⟩ = true := by decide
  have missed : platform.isSubtype ⟨.base .int, 2⟩ ⟨.object .object, 1⟩ = false := by decide
  have above : platform.Subtype ⟨.base .int, 2⟩ ⟨.object .object, 1⟩ :=
    .single (.array (.special .int List.mem_cons_self))
  refine ⟨top, ⟨rfl, ((isSubtype_iff_subtype top rfl).mp strings).1⟩, rfl, missed, above, ?_⟩
  by_contra seen
  exact absurd ((isSubtype_iff_subtype top rfl).mpr ⟨above, seen⟩) (by rw [missed]; decide)

end ClassPath

end JavaSnippet
