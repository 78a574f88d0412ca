import JavaSnippet.Proofs.Compile.Separate
/-!
The order of units. Units in any order are accepted together or not at all, and each gives the same
class files at its own place in the output.
-/
namespace JavaSnippet.Compile

open Typing Source ClassFile

section Order

variable {external : ClassPath} {units others : List SourceUnit}

theorem contains_of_perm (perm : units.Perm others) :
    (stubsOf external units).contains = (stubsOf external others).contains := by
  have stubs : ((units.flatMap SourceUnit.classes).map (sourceData · []) ++ external.classes).Perm
      ((others.flatMap SourceUnit.classes).map (sourceData · []) ++ external.classes) :=
    ((perm.flatMap_right SourceUnit.classes).map _).append_right external.classes
  exact ClassPath.contains_eq_of_names fun name => (stubs.map _).mem_iff

theorem dataOf_of_perm (stubs : ClassPath) (perm : units.Perm others) :
    (dataOf stubs units).Perm (dataOf stubs others) := by
  unfold dataOf
  exact (perm.flatMap_right _).map _

theorem Declarable.alike_of_perm (h : Declarable units) (perm : units.Perm others) :
    (pathOf external units).Alike (pathOf external others) := by
  have unique : ((dataOf (stubsOf external units) units).map (·.name)).Nodup := by
    rw [names_dataOf]
    exact h.unique
  rw [pathOf, pathOf, dataOf_alike (contains_of_perm perm) others]
  exact ClassPath.alike_of_perm (dataOf_of_perm _ perm) unique

/-- What is right in one order is right in every order. -/
theorem Accepts.of_perm (h : Accepts external units) (perm : units.Perm others) :
    Accepts external others where
  unique := ((perm.flatMap_right SourceUnit.classes).map _).nodup_iff.mp h.unique
  clean unit here := (h.clean unit (perm.mem_iff.mpr here)).alike (contains_of_perm perm)
    (h.declarable.alike_of_perm perm)

/-- The classes of a unit as written, when it is compiled on the given paths. -/
def SourceUnit.written (version : Version) (stubs path : ClassPath) (unit : SourceUnit) :
    List CompiledUnit :=
  (unit.typed stubs path).flatMap fun x =>
    ((emit x.1 version).toOption.map fun file => ⟨x.1.name.dotted, file.encode⟩).toList

theorem emits_eq_flatMap {version : Version} {cs : List TypedClass} {new : List CompiledUnit} :
    List.Forall₂ (Emits version) cs new ↔
      (∀ c ∈ cs, ∃ file, emit c version = .ok file) ∧ new = cs.flatMap fun c =>
        ((emit c version).toOption.map fun file => ⟨c.name.dotted, file.encode⟩).toList := by
  induction cs generalizing new with
  | nil => simp
  | cons c cs ih =>
    rw [List.forall₂_cons_left_iff, List.forall_mem_cons, List.flatMap_cons]
    constructor
    · rintro ⟨u, rest, ⟨file, emitted, rfl⟩, later, rfl⟩
      obtain ⟨all, rfl⟩ := ih.mp later
      exact ⟨⟨⟨file, emitted⟩, all⟩, by rw [emitted]; rfl⟩
    · rintro ⟨⟨⟨file, emitted⟩, all⟩, rfl⟩
      exact ⟨_, _, ⟨file, emitted, rfl⟩, ih.mpr ⟨all, rfl⟩, by rw [emitted]; rfl⟩

/-- Compilation succeeds when all units are accepted and all their classes can be written, and then
gives the classes of one unit after those of another. -/
theorem compile_eq_flatMap {version : Version} {compiled : List CompiledUnit} :
    compile external units version = .ok compiled ↔
      Accepts external units ∧
        (∀ unit ∈ units, ∀ x ∈ unit.typed (stubsOf external units) (pathOf external units),
          ∃ file, emit x.1 version = .ok file) ∧
        compiled = units.flatMap
          (SourceUnit.written version (stubsOf external units) (pathOf external units)) := by
  have each : (∀ c ∈ typedOf external units, ∃ file, emit c version = .ok file) ↔
      ∀ unit ∈ units, ∀ x ∈ unit.typed (stubsOf external units) (pathOf external units),
        ∃ file, emit x.1 version = .ok file := by
    simp only [typedOf, List.forall_mem_map, List.forall_mem_flatMap]
  rw [compile_iff_emits, emits_eq_flatMap, each, typedOf, List.flatMap_map, List.flatMap_assoc]
  rfl

theorem SourceUnit.written_of_perm (h : Declarable units) (perm : units.Perm others)
    (version : Version) :
    SourceUnit.written version (stubsOf external others) (pathOf external others) =
      SourceUnit.written version (stubsOf external units) (pathOf external units) := by
  funext unit
  rw [SourceUnit.written, unit.typed_alike (contains_of_perm perm) (h.alike_of_perm perm)]
  rfl

theorem compile_of_perm {version : Version} {compiled : List CompiledUnit}
    (perm : units.Perm others) (h : compile external units version = .ok compiled) :
    compiled = units.flatMap
        (SourceUnit.written version (stubsOf external units) (pathOf external units)) ∧
      compile external others version = .ok (others.flatMap
        (SourceUnit.written version (stubsOf external units) (pathOf external units))) := by
  obtain ⟨accepts, writable, all⟩ := compile_eq_flatMap.mp h
  have same : SourceUnit.written version (stubsOf external others) (pathOf external others) =
      SourceUnit.written version (stubsOf external units) (pathOf external units) :=
    SourceUnit.written_of_perm accepts.declarable perm version
  refine ⟨all, compile_eq_flatMap.mpr ⟨accepts.of_perm perm, fun unit here x typed => ?_, ?_⟩⟩
  · rw [unit.typed_alike (contains_of_perm perm) (accepts.declarable.alike_of_perm perm)] at typed
    exact writable unit (perm.mem_iff.mpr here) x typed
  · rw [same]

/-- Every class of a unit that can be written is among those written, under its name. -/
theorem SourceUnit.names_written {version : Version} {stubs path : ClassPath} {unit : SourceUnit}
    (writable : ∀ x ∈ unit.typed stubs path, ∃ file, emit x.1 version = .ok file) :
    (unit.written version stubs path).map (·.qualifiedName) =
      unit.classes.map (·.name.dotted) := by
  rw [← unit.dotted_typed, SourceUnit.written, List.map_flatMap, List.map_eq_flatMap]
  refine List.flatMap_congr fun x typed => ?_
  obtain ⟨file, emitted⟩ := writable x typed
  rw [emitted]
  rfl

/-- Units in another order are compiled exactly when they are in the first, and each to the same
class files, which stand where the unit stands. -/
theorem compile_reordered {version : Version} (perm : units.Perm others) :
    ((∃ compiled, compile external units version = .ok compiled) ↔
      ∃ compiled, compile external others version = .ok compiled) ∧
    ∀ compiled reordered, compile external units version = .ok compiled →
      compile external others version = .ok reordered →
        compiled.Perm reordered ∧
        ∃ group : SourceUnit → List CompiledUnit,
          (∀ unit ∈ units, (group unit).map (·.qualifiedName) =
            unit.classes.map (·.name.dotted)) ∧
          compiled = units.flatMap group ∧ reordered = others.flatMap group := by
  refine ⟨⟨?_, ?_⟩, ?_⟩
  · rintro ⟨compiled, h⟩
    exact ⟨_, (compile_of_perm perm h).2⟩
  · rintro ⟨reordered, h⟩
    exact ⟨_, (compile_of_perm perm.symm h).2⟩
  · intro compiled reordered h g
    obtain ⟨first, second⟩ := compile_of_perm perm h
    obtain rfl := Except.ok.inj (second.symm.trans g)
    obtain ⟨-, writable, -⟩ := compile_eq_flatMap.mp h
    refine ⟨?_, _, fun unit here => SourceUnit.names_written (writable unit here), first, rfl⟩
    rw [first]
    exact perm.flatMap_right _

theorem compile_reordered_making :
    [sumUnit, makingUnit].Perm [makingUnit, sumUnit] ∧
      ∃ compiled reordered, compile .empty [sumUnit, makingUnit] ⟨0, 52⟩ = .ok compiled ∧
        compile .empty [makingUnit, sumUnit] ⟨0, 52⟩ = .ok reordered ∧
        compiled.Perm reordered ∧ compiled.map (·.qualifiedName) = ["A", "B"] ∧
        reordered.map (·.qualifiedName) = ["B", "A"] := by
  have perm : [sumUnit, makingUnit].Perm [makingUnit, sumUnit] := .swap _ _ _
  obtain ⟨compiled, h⟩ := compile_making
  obtain ⟨both, output⟩ := compile_reordered perm
  obtain ⟨reordered, g⟩ := both.mp ⟨compiled, h⟩
  obtain ⟨same, group, names, rfl, rfl⟩ := output compiled reordered h g
  have first : (group sumUnit).map (·.qualifiedName) = ["A"] := by
    rw [names sumUnit (by simp), classes_sum]
    decide
  have second : (group makingUnit).map (·.qualifiedName) = ["B"] := by
    rw [names makingUnit (by simp), classes_making]
    decide
  refine ⟨perm, _, _, h, g, same, ?_, ?_⟩
  · rw [List.flatMap_cons, List.flatMap_singleton, List.map_append, first, second]
    rfl
  · rw [List.flatMap_cons, List.flatMap_singleton, List.map_append, first, second]
    rfl

end Order

end JavaSnippet.Compile
