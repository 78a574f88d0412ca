import JavaSnippet.ClassPath.Hierarchy
import Mathlib.Data.List.Nodup
/-!
Class paths that cannot be told apart. A search asks for one class at a time and takes as many
rounds as there are edges, so the order of classes with different names means nothing.
-/
namespace JavaSnippet.ClassPath

/-- The paths have the same class under every name, and as many edges. -/
structure Alike (p q : ClassPath) : Prop where
  find? : ∀ name, p.find? name = q.find? name
  edgeCount : p.edgeCount = q.edgeCount

section Searches

variable {p q : ClassPath}

theorem Alike.contains (h : p.Alike q) : p.contains = q.contains := by
  funext name
  rw [ClassPath.contains, ClassPath.contains, h.find?]

theorem Alike.isInterface (h : p.Alike q) (name : ClassName) :
    p.isInterface name = q.isInterface name := by
  rw [ClassPath.isInterface, ClassPath.isInterface, h.find?]

theorem Alike.supertypes (h : p.Alike q) (name : ClassName) :
    p.supertypes name = q.supertypes name := by
  rw [ClassPath.supertypes, ClassPath.supertypes, h.find?]

theorem Alike.reaches (h : p.Alike q) (target : ClassName) (rounds : Nat)
    (toVisit seen : List ClassName) :
    p.reaches target rounds toVisit seen = q.reaches target rounds toVisit seen := by
  induction rounds generalizing toVisit seen with
  | zero => rfl
  | succ rounds ih =>
    cases toVisit with
    | nil => rfl
    | cons next toVisit =>
      rw [ClassPath.reaches, ClassPath.reaches, h.supertypes]
      simp only [ih]

theorem Alike.isSubclass (h : p.Alike q) (sub super : ClassName) :
    p.isSubclass sub super = q.isSubclass sub super := by
  rw [ClassPath.isSubclass, ClassPath.isSubclass, h.edgeCount, h.reaches]

theorem Alike.isSubtype (h : p.Alike q) (sub super : FieldType) :
    p.isSubtype sub super = q.isSubtype sub super := by
  unfold ClassPath.isSubtype
  simp only [h.isSubclass]

theorem Alike.visit (h : p.Alike q) (s : MethodSearch) (start : ClassName) (name : String)
    (next : ClassName) (rest : List ClassName) :
    s.visit p start name next rest = s.visit q start name next rest := by
  rw [MethodSearch.visit, MethodSearch.visit, h.find?, h.supertypes]

theorem Alike.run (h : p.Alike q) (start : ClassName) (name : String) (rounds : Nat)
    (s : MethodSearch) : s.run p start name rounds = s.run q start name rounds := by
  induction rounds generalizing s with
  | zero => rfl
  | succ rounds ih =>
    rw [MethodSearch.run, MethodSearch.run]
    split
    · rfl
    · rw [ih, h.visit]

theorem Alike.visibleMethods (h : p.Alike q) (start : ClassName) (name : String) :
    p.visibleMethods start name = q.visibleMethods start name := by
  rw [ClassPath.visibleMethods, ClassPath.visibleMethods, h.edgeCount, h.run]

end Searches

section Names

/-- Whether a class is known depends on the names on the path alone. -/
theorem contains_iff {p : ClassPath} {name : ClassName} :
    p.contains name = true ↔ name ∈ p.classes.map (·.name) := by
  unfold contains find?
  rw [List.find?_isSome, List.mem_map]
  simp only [beq_iff_eq]

theorem contains_eq_of_names {p q : ClassPath}
    (same : ∀ name, name ∈ p.classes.map (·.name) ↔ name ∈ q.classes.map (·.name)) :
    p.contains = q.contains := by
  funext name
  exact Bool.eq_iff_iff.mpr (contains_iff.trans ((same name).trans contains_iff.symm))

end Names

section Moving

variable {first second : List ClassData} {external : ClassPath}

theorem find?_none_of_nodup {cs : List ClassData} {c : ClassData}
    (fresh : c.name ∉ cs.map (·.name)) : (⟨cs⟩ : ClassPath).find? c.name = none := by
  refine List.find?_eq_none.mpr fun d here same => fresh ?_
  rw [← eq_of_beq same]
  exact List.mem_map_of_mem here

theorem find?_eq_some_of_nodup {cs : List ClassData} (unique : (cs.map (·.name)).Nodup)
    {name : ClassName} {c : ClassData} :
    (⟨cs⟩ : ClassPath).find? name = some c ↔ c ∈ cs ∧ c.name = name := by
  constructor
  · intro found
    exact ⟨List.mem_of_find?_eq_some found, by simpa using List.find?_some found⟩
  · rintro ⟨here, rfl⟩
    cases found : (⟨cs⟩ : ClassPath).find? c.name with
    | none => exact absurd (beq_self_eq_true c.name) (List.find?_eq_none.mp found c here)
    | some d =>
      have isD : d ∈ cs := List.mem_of_find?_eq_some found
      have named : d.name = c.name := by simpa using List.find?_some found
      rw [List.inj_on_of_nodup_map unique isD here named]

/-- Of classes with different names it does not matter which is searched first. -/
theorem find?_of_perm {cs ds : List ClassData} (perm : cs.Perm ds)
    (unique : (cs.map (·.name)).Nodup) (name : ClassName) :
    (⟨cs⟩ : ClassPath).find? name = (⟨ds⟩ : ClassPath).find? name := by
  have others : (ds.map (·.name)).Nodup := (perm.map _).nodup_iff.mp unique
  refine Option.ext fun c => ?_
  rw [find?_eq_some_of_nodup unique, find?_eq_some_of_nodup others, perm.mem_iff]

theorem find?_ofEntries {entries : List ClassData} (unique : (entries.map (·.name)).Nodup)
    (name : ClassName) : (ofEntries entries).find? name = (⟨entries⟩ : ClassPath).find? name :=
  (find?_of_perm (List.reverse_perm entries).symm unique name).symm

/-- The order of classes in front of a path means nothing when their names are different. -/
theorem alike_of_perm (perm : first.Perm second) (unique : (first.map (·.name)).Nodup) :
    Alike (chain ⟨first⟩ external) (chain ⟨second⟩ external) where
  find? name := by rw [find?_chain, find?_chain, find?_of_perm perm unique]
  edgeCount := ((perm.append_right external.classes).flatMap_right _).length_eq

theorem perm_moved : ((first ++ second) ++ external.classes).Perm
    (second ++ (external.classes ++ first.reverse)) := by
  rw [List.append_assoc, ← List.append_assoc second]
  exact List.perm_append_comm.trans (List.Perm.append_left _ (List.reverse_perm first).symm)

/-- Classes that are known nowhere else may as well be searched last. -/
theorem alike_moved (unique : ((first ++ second).map (·.name)).Nodup)
    (unknown : ∀ c ∈ first, external.contains c.name = false) :
    Alike (chain ⟨first ++ second⟩ external)
      (chain ⟨second⟩ (external.chain (.ofEntries first))) := by
  rw [List.map_append, List.nodup_append] at unique
  obtain ⟨uniqueFirst, -, apart⟩ := unique
  constructor
  · intro name
    have split : (⟨first ++ second⟩ : ClassPath).find? name =
        ((⟨first⟩ : ClassPath).find? name).or ((⟨second⟩ : ClassPath).find? name) :=
      find?_chain ⟨first⟩ ⟨second⟩ name
    rw [find?_chain, find?_chain, find?_chain, find?_ofEntries uniqueFirst, split]
    cases found : (⟨first⟩ : ClassPath).find? name with
    | none => rw [Option.none_or, Option.or_none]
    | some c =>
      have here : c ∈ first := List.mem_of_find?_eq_some found
      obtain rfl : c.name = name := by simpa using List.find?_some found
      have notAfter : (⟨second⟩ : ClassPath).find? c.name = none := by
        refine find?_none_of_nodup fun later => ?_
        exact apart _ (List.mem_map_of_mem here) _ later rfl
      have notOutside : external.find? c.name = none := by
        simpa [ClassPath.contains] using unknown c here
      rw [notAfter, notOutside]
      rfl
  · exact (perm_moved.flatMap_right _).length_eq

end Moving

end JavaSnippet.ClassPath
