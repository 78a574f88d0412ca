import JavaSnippet.ClassPath.Compiled
import JavaSnippet.ClassPath.Hierarchy
import JavaSnippet.ClassPath.Platform
import JavaSnippet.Proofs.Descriptor.Text
/-!
Where the methods of a class come from. A search only finds methods that classes on the path declare
under the name it looks for, so what holds of all declared methods holds of the methods found. What
is read from class files, and the part of the platform that is built in, have methods whose types
only name valid classes.
-/
namespace JavaSnippet

open ClassFile

namespace ClassPath

section Searches

/-- Code can be written for calls of all methods: none takes or gives a floating-point number, and
constructors give nothing. -/
structure Supported (p : ClassPath) : Prop where
  parameters : ∀ c ∈ p.classes, ∀ m ∈ c.methods, ∀ t ∈ m.type.parameters,
    t.mentionsFloating = false
  results : ∀ c ∈ p.classes, ∀ m ∈ c.methods, ∀ t, m.type.result = some t →
    t.mentionsFloating = false
  constructors : ∀ c ∈ p.classes, ∀ m ∈ c.methods, m.name = "<init>" → m.type.result = none

theorem Supported.chain {first second : ClassPath} (h : first.Supported) (g : second.Supported) :
    (first.chain second).Supported := by
  have either : ∀ c ∈ (first.chain second).classes, c ∈ first.classes ∨ c ∈ second.classes :=
    fun c here => List.mem_append.mp here
  constructor
  · intro c here
    rcases either c here with before | after
    · exact h.parameters c before
    · exact g.parameters c after
  · intro c here
    rcases either c here with before | after
    · exact h.results c before
    · exact g.results c after
  · intro c here
    rcases either c here with before | after
    · exact h.constructors c before
    · exact g.constructors c after

variable {p : ClassPath} {start : ClassName} {name : String}

/-- Everything found so far is declared on the path, under the name. -/
def Declares (p : ClassPath) (name : String) (found : List (ClassData × MethodData)) : Prop :=
  ∀ x ∈ found, x.1 ∈ p.classes ∧ x.2 ∈ x.1.methods ∧ x.2.name = name

theorem declares_addMethods {c : ClassData} {found : List (ClassData × MethodData)}
    (onPath : c ∈ p.classes) (old : Declares p name found) :
    Declares p name (addMethods start name c found) := by
  refine List.foldlRecOn c.methods _ old ?_
  intro found old m here
  by_cases other : m.name ≠ name ∨ (m.name = "<init>" ∧ c.name ≠ start)
  · rw [if_pos other]
    exact old
  · rw [if_neg other]
    split
    · exact old
    · intro x inside
      rcases List.mem_append.mp inside with before | last
      · exact old x before
      · rw [List.mem_singleton.mp last]
        simp only [not_or, ne_eq, Decidable.not_not] at other
        exact ⟨onPath, here, other.1⟩

theorem declares_visit {s : MethodSearch} {next : ClassName} {rest : List ClassName}
    (old : Declares p name s.found) : Declares p name (s.visit p start name next rest).found := by
  unfold MethodSearch.visit
  split
  · exact old
  · cases isClass : p.find? next with
    | none =>
      simp only
      split
      · exact old
      · exact old
    | some c =>
      simp only
      split
      · exact declares_addMethods (List.mem_of_find?_eq_some isClass) old
      · exact declares_addMethods (List.mem_of_find?_eq_some isClass) old

theorem declares_run {rounds : Nat} {s : MethodSearch} (old : Declares p name s.found) :
    Declares p name (s.run p start name rounds) := by
  induction rounds generalizing s with
  | zero => exact old
  | succ rounds ih =>
    rw [MethodSearch.run]
    split
    · exact old
    · exact ih (declares_visit old)

/-- A visible method is declared by a class on the path. -/
theorem declares_visibleMethods : Declares p name (p.visibleMethods start name) :=
  declares_run (by simp [Declares])

end Searches

/-- The types of all methods only name valid classes. -/
def IsValid (p : ClassPath) : Prop := ∀ c ∈ p.classes, ∀ m ∈ c.methods, m.type.IsValid

theorem isValid_empty : ClassPath.empty.IsValid := fun _ here => absurd here List.not_mem_nil

theorem IsValid.chain {first second : ClassPath} (h : first.IsValid) (g : second.IsValid) :
    (first.chain second).IsValid :=
  List.forall_mem_append.mpr ⟨h, g⟩

theorem isValid_of_entry {isStatic : Bool} {methods : List (String × String)} :
    ∀ m ∈ methods.filterMap (entry isStatic), m.type.IsValid := by
  intro m here
  obtain ⟨method, -, made⟩ := List.mem_filterMap.mp here
  unfold entry at made
  split at made
  · rename_i type read
    obtain rfl := Option.some.inj made
    exact MethodType.isValid_of_parse read
  · cases made

theorem isValid_platform : platform.IsValid := by
  have entries : ∀ s t (first second : List (String × String)),
      ∀ m ∈ first.filterMap (entry s) ++ second.filterMap (entry t), m.type.IsValid :=
    fun _ _ _ _ => List.forall_mem_append.mpr ⟨isValid_of_entry, isValid_of_entry⟩
  unfold IsValid platform platformClasses
  repeat' refine List.forall_mem_cons.mpr ⟨entries _ _ _ _, ?_⟩
  exact List.forall_mem_nil _

end ClassPath

theorem isValid_of_methodData? {t : ConstantTable} {member : Member .method} {m : MethodData}
    (h : methodData? t member = .ok (some m)) : m.type.IsValid := by
  unfold methodData? at h
  split at h
  · cases h
  split at h
  · split at h
    · cases h
    · split at h
      · rename_i type read
        obtain rfl := Option.some.inj (Except.ok.inj h)
        exact MethodType.isValid_of_parse read
      · cases h
  · cases h

theorem isValid_of_classData {f : ClassFile} {c : ClassData} (h : f.classData = .ok c) :
    ∀ m ∈ c.methods, m.type.IsValid := by
  unfold classData at h
  split at h
  · cases h
  · obtain ⟨interfaces, -, h⟩ := except_bind_eq_ok.mp h
    obtain ⟨methods, areMethods, last⟩ := except_bind_eq_ok.mp h
    obtain rfl := Except.ok.inj last
    intro m here
    obtain ⟨found, isFound, same⟩ := List.mem_filterMap.mp here
    obtain rfl : found = some m := same
    have made : .ok (some m) ∈ methods.map (Except.ok (ε := Fault)) := List.mem_map_of_mem isFound
    rw [← except_mapM_ok areMethods] at made
    obtain ⟨member, -, read⟩ := List.mem_map.mp made
    exact isValid_of_methodData? read

theorem ClassPath.isValid_ofFiles {files : List (List UInt8)} {p : ClassPath}
    (h : ofFiles files = .ok p) : p.IsValid := by
  obtain ⟨entries, areEntries, last⟩ := except_bind_eq_ok.mp h
  obtain rfl := Except.ok.inj last
  intro c here
  have made : .ok c ∈ entries.map (Except.ok (ε := Fault)) :=
    List.mem_map_of_mem (List.mem_reverse.mp here)
  rw [← except_mapM_ok areEntries] at made
  obtain ⟨bytes, -, read⟩ := List.mem_map.mp made
  obtain ⟨f, -, data⟩ := except_bind_eq_ok.mp read
  exact isValid_of_classData data

/-- The class path of a program: the platform, then the classes of its files. -/
theorem ClassPath.isValid_application {files : List (List UInt8)} {p : ClassPath}
    (h : ofFiles files = .ok p) : (platform.chain p).IsValid :=
  isValid_platform.chain (isValid_ofFiles h)

end JavaSnippet
