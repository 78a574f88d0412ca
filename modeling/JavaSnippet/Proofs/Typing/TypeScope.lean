import JavaSnippet.Proofs.ClassFile.Flags
import JavaSnippet.Proofs.Fallible
import JavaSnippet.Typing.TypeScope
/-!
What resolving the head of a method gives. The head keeps the names and modifiers of its source, and
no type in it is a floating-point number.
-/
namespace JavaSnippet.Typing

open Source ClassFile

theorem onLine_eq_ok {α : Type} {line : Nat} {result : Except Cause α} {a : α} :
    onLine line result = .ok a ↔ result = .ok a := by
  constructor
  · intro h
    cases result with
    | error cause => cases h
    | ok b =>
      cases h
      rfl
  · rintro rfl
    rfl

namespace TypeScope

theorem known_methodFlags (m : Modifiers) : (methodFlags m).Known := by
  unfold methodFlags
  refine Flags.Known.withBit (Flags.Known.withBit (Flags.Known.withBit (Flags.Known.withBit
    (Flags.Known.withBit known_none ?_ _) ?_ _) ?_ _) ?_ _) ?_ _
  · decide
  · decide
  · decide
  · decide
  · decide

theorem isStatic_methodFlags (m : Modifiers) :
    (methodFlags m).isStatic = m.isStatic := by
  unfold methodFlags Flags.isStatic
  rw [Flags.contains_withBit_apart _ _ (by decide), Flags.contains_withBit_self,
    Flags.contains_withBit_apart _ _ (by decide), Flags.contains_withBit_apart _ _ (by decide),
    Flags.contains_withBit_apart _ _ (by decide)]
  exact Bool.or_false _

theorem isPrivate_methodFlags (m : Modifiers) :
    (methodFlags m).isPrivate = m.isPrivate := by
  unfold methodFlags Flags.isPrivate
  rw [Flags.contains_withBit_apart _ _ (by decide), Flags.contains_withBit_apart _ _ (by decide),
    Flags.contains_withBit_self, Flags.contains_withBit_apart _ _ (by decide),
    Flags.contains_withBit_apart _ _ (by decide)]
  exact Bool.or_false _

/-- A head is resolved as its types are, one by one. -/
theorem signature_ok {scope : TypeScope} {m : MethodDecl} {enclosing : List ClassName}
    {s : Signature} (h : scope.signature m enclosing = .ok s) :
    s.name = m.name ∧ s.flags = methodFlags m.modifiers ∧
      s.parameterNames = m.parameters.map (·.name) ∧
      m.parameters.map (fun p => onLine p.line (scope.resolveType p.type enclosing)) =
        s.type.parameters.map .ok ∧
      (m.result.mapM fun type => onLine type.line (scope.resolveType type enclosing)) =
        .ok s.type.result := by
  obtain ⟨parameters, areParameters, rest⟩ := except_bind_eq_ok.mp h
  obtain ⟨result, isResult, last⟩ := except_bind_eq_ok.mp rest
  obtain rfl := Except.ok.inj last
  exact ⟨rfl, rfl, rfl, except_mapM_ok areParameters, isResult⟩

/-- The elements of a resolved type are of a base type that its name is the keyword of, or of a
class that its name resolves to. -/
theorem resolveType_ok {scope : TypeScope} {type : TypeName} {enclosing : List ClassName}
    {t : FieldType} (h : scope.resolveType type enclosing = .ok t) :
    (∃ b, BaseType.ofKeyword? (type.path.joined ".") = some b ∧ b.isFloating = false ∧
        t = ⟨.base b, type.dimensions⟩) ∨
      BaseType.ofKeyword? (type.path.joined ".") = none ∧
        ∃ name, scope.resolve type.path enclosing = .ok name ∧
          t = ⟨.object name, type.dimensions⟩ := by
  unfold resolveType at h
  cases keyword : BaseType.ofKeyword? (type.path.joined ".") with
  | some b =>
    rw [keyword] at h
    simp only at h
    split at h
    · cases h
    · rename_i integral
      obtain rfl := Except.ok.inj h
      exact .inl ⟨b, rfl, Bool.eq_false_iff.mpr integral, rfl⟩
  | none =>
    rw [keyword] at h
    obtain ⟨name, resolved, last⟩ := except_bind_eq_ok.mp h
    obtain rfl := Except.ok.inj last
    exact .inr ⟨rfl, name, resolved, rfl⟩

theorem mentionsFloating_of_resolveType {scope : TypeScope} {type : TypeName}
    {enclosing : List ClassName} {t : FieldType} (h : scope.resolveType type enclosing = .ok t) :
    t.mentionsFloating = false := by
  obtain ⟨b, -, integral, rfl⟩ | ⟨-, name, -, rfl⟩ := resolveType_ok h
  · exact integral
  · rfl

/-- Every type in a head is resolved from a type name. -/
theorem resolved_of_signature {scope : TypeScope} {m : MethodDecl} {enclosing : List ClassName}
    {s : Signature} (h : scope.signature m enclosing = .ok s) :
    (∀ t ∈ s.type.parameters, ∃ type, scope.resolveType type enclosing = .ok t) ∧
      ∀ t, s.type.result = some t → ∃ type, scope.resolveType type enclosing = .ok t := by
  obtain ⟨-, -, -, parameters, result⟩ := signature_ok h
  constructor
  · intro t here
    have right : .ok t ∈ s.type.parameters.map (Except.ok (ε := Problem)) :=
      List.mem_map_of_mem here
    rw [← parameters] at right
    obtain ⟨p, -, resolved⟩ := List.mem_map.mp right
    exact ⟨p.type, onLine_eq_ok.mp resolved⟩
  · intro t isResult
    cases declared : m.result with
    | none =>
      rw [declared, isResult] at result
      cases result
    | some type =>
      rw [declared, isResult] at result
      obtain ⟨other, resolved, last⟩ := except_bind_eq_ok.mp result
      obtain rfl := Option.some.inj (Except.ok.inj last)
      exact ⟨type, onLine_eq_ok.mp resolved⟩

/-- No head has a type with floating-point numbers. -/
theorem mentionsFloating_of_signature {scope : TypeScope} {m : MethodDecl}
    {enclosing : List ClassName} {s : Signature} (h : scope.signature m enclosing = .ok s) :
    (∀ t ∈ s.type.parameters, t.mentionsFloating = false) ∧
      ∀ t, s.type.result = some t → t.mentionsFloating = false := by
  obtain ⟨parameters, result⟩ := resolved_of_signature h
  constructor
  · intro t here
    obtain ⟨type, resolved⟩ := parameters t here
    exact mentionsFloating_of_resolveType resolved
  · intro t isResult
    obtain ⟨type, resolved⟩ := result t isResult
    exact mentionsFloating_of_resolveType resolved

end TypeScope

end JavaSnippet.Typing
