import JavaSnippet.Proofs.Descriptor.Text
import JavaSnippet.Proofs.Typing.TypeScope
/-!
Resolution gives valid names. A name is made from a checked text, or nested in a valid name under a
checked one, so descriptors of resolved heads are read back.
-/
namespace JavaSnippet.Typing

open Source

namespace TypeScope

/-- All names that the scope holds itself are valid. -/
structure IsValid (scope : TypeScope) : Prop where
  unitClasses : ∀ name ∈ scope.unitClasses, name.IsValid
  imports : ∀ i ∈ scope.imports, i.2.IsValid

variable {scope : TypeScope} {name : ClassName}

theorem isValid_of_inPackage {package simple : String}
    (h : scope.inPackage package simple = some name) : name.IsValid := by
  unfold inPackage at h
  cases named : ClassName.ofString (qualify package simple) with
  | error fault =>
    rw [named] at h
    cases h
  | ok other =>
    rw [named] at h
    obtain ⟨-, same⟩ := Option.ite_none_right_eq_some.mp h
    obtain rfl := Option.some.inj same
    exact ClassName.isValid_of_ofString named

theorem isValid_of_nestedIn {outer : ClassName} (valid : outer.IsValid) {simple : String}
    (h : scope.nestedIn outer simple = some name) : name.IsValid := by
  unfold nestedIn at h
  cases named : SimpleName.ofString simple with
  | error fault =>
    rw [named] at h
    cases h
  | ok inner =>
    rw [named] at h
    obtain ⟨-, same⟩ := Option.ite_none_right_eq_some.mp h
    obtain rfl := Option.some.inj same
    exact valid.nested (SimpleName.isValid_of_ofString named)

theorem isValid_of_descend {outer : ClassName} (valid : outer.IsValid) {rest : List String}
    (h : scope.descend outer rest = .ok name) : name.IsValid := by
  induction rest generalizing outer with
  | nil =>
    obtain rfl := Except.ok.inj h
    exact valid
  | cons simple rest ih =>
    rw [descend] at h
    split at h
    · rename_i inner isNested
      exact ih (isValid_of_nestedIn valid isNested) h
    · cases h

theorem isValid_of_amongEnclosing {simple : String} {enclosing : List ClassName}
    (valid : ∀ outer ∈ enclosing, outer.IsValid)
    (h : scope.amongEnclosing simple enclosing = some name) : name.IsValid := by
  induction enclosing with
  | nil => cases h
  | cons outer rest ih =>
    obtain ⟨isValid, others⟩ := List.forall_mem_cons.mp valid
    rw [amongEnclosing] at h
    split at h
    · obtain rfl := Option.some.inj h
      exact isValid
    · split at h
      · rename_i inner isNested
        obtain rfl := Option.some.inj h
        exact isValid_of_nestedIn isValid isNested
      · exact ih others h

theorem isValid_of_simple? (valid : scope.IsValid) {simple : String} {enclosing : List ClassName}
    (around : ∀ outer ∈ enclosing, outer.IsValid)
    (h : scope.simple? simple enclosing = some name) : name.IsValid := by
  unfold simple? at h
  simp only [Option.orElse_eq_orElse, Option.orElse_eq_or, Option.or_eq_some_iff] at h
  rcases h with enclosed | ⟨-, inUnit | ⟨-, imported | ⟨-, packaged | ⟨-, lang | ⟨-, demanded⟩⟩⟩⟩⟩
  · exact isValid_of_amongEnclosing (fun outer here => around outer (List.mem_reverse.mp here))
      enclosed
  · exact valid.unitClasses name (List.mem_of_find?_eq_some inUnit)
  · obtain ⟨before, after, split, -⟩ := List.lookup_eq_some_iff.mp imported
    exact valid.imports _ (split ▸ List.mem_append_right before List.mem_cons_self)
  · exact isValid_of_inPackage packaged
  · exact isValid_of_inPackage lang
  · obtain ⟨package, -, found⟩ := List.exists_of_findSome?_eq_some demanded
    exact isValid_of_inPackage found

theorem isValid_of_afterPackage {package : String} {names : List String}
    (h : scope.afterPackage package names = some (.ok name)) : name.IsValid := by
  induction names generalizing package with
  | nil => cases h
  | cons simple rest ih =>
    rw [afterPackage] at h
    split at h
    · rename_i outer found
      exact isValid_of_descend (isValid_of_inPackage found) (Option.some.inj h)
    · exact ih h

theorem isValid_of_qualified {path : Path} (h : scope.qualified path = .ok name) :
    name.IsValid := by
  unfold qualified at h
  split at h
  · rename_i result found
    obtain rfl := h
    exact isValid_of_afterPackage found
  · split at h
    · cases h
    · cases h

theorem isValid_of_resolve (valid : scope.IsValid) {path : Path} {enclosing : List ClassName}
    (around : ∀ outer ∈ enclosing, outer.IsValid)
    (h : scope.resolve path enclosing = .ok name) : name.IsValid := by
  unfold resolve at h
  split at h
  · rename_i outer found
    exact isValid_of_descend (isValid_of_simple? valid around found) h
  · exact isValid_of_qualified h

theorem isValid_of_resolveType (valid : scope.IsValid) {type : TypeName}
    {enclosing : List ClassName} (around : ∀ outer ∈ enclosing, outer.IsValid) {t : FieldType}
    (h : scope.resolveType type enclosing = .ok t) : t.IsValid := by
  obtain ⟨b, -, -, rfl⟩ | ⟨-, name, resolved, rfl⟩ := resolveType_ok h
  · trivial
  · exact isValid_of_resolve valid around resolved

/-- The descriptor of a resolved head names valid classes only. -/
theorem isValid_of_signature (valid : scope.IsValid) {m : MethodDecl} {enclosing : List ClassName}
    (around : ∀ outer ∈ enclosing, outer.IsValid) {s : Signature}
    (h : scope.signature m enclosing = .ok s) : s.type.IsValid := by
  have resolved := resolved_of_signature h
  constructor
  · intro t here
    obtain ⟨type, isType⟩ := resolved.1 t here
    exact isValid_of_resolveType valid around isType
  · intro t isResult
    obtain ⟨type, isType⟩ := resolved.2 t isResult
    exact isValid_of_resolveType valid around isType

theorem isValid_ofUnit (p : ClassPath) (unit : CompilationUnit) : (ofUnit p unit).IsValid where
  unitClasses := by
    intro name here
    obtain ⟨c, -, named⟩ := List.mem_filterMap.mp here
    cases made : ClassName.ofString (qualify (packageOf unit) c.name) with
    | error fault =>
      rw [made] at named
      cases named
    | ok other =>
      rw [made] at named
      obtain rfl := Option.some.inj named
      exact ClassName.isValid_of_ofString made
  imports := by simp [ofUnit]

theorem IsValid.addImport {state : TypeScope × List Problem} (valid : state.1.IsValid)
    (i : Import) : (addImport state i).1.IsValid := by
  unfold TypeScope.addImport
  simp only
  split
  · exact ⟨valid.unitClasses, valid.imports⟩
  · split
    · rename_i name found
      exact ⟨valid.unitClasses,
        List.forall_mem_cons.mpr ⟨isValid_of_qualified found, valid.imports⟩⟩
    · exact valid

theorem isValid_build (p : ClassPath) (unit : CompilationUnit) : (build p unit).1.IsValid := by
  unfold build
  refine List.foldlRecOn (motive := fun state => state.1.IsValid) unit.imports
    TypeScope.addImport (b := (ofUnit p unit, [])) (isValid_ofUnit p unit) ?_
  intro state valid i _
  exact valid.addImport i

end TypeScope

end JavaSnippet.Typing
