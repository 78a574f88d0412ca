import JavaSnippet.Proofs.Compile.Units
/-!
A compilation unit by unit. When nothing is wrong, the classes of a unit are typed from its text and
the class path alone, and those of several units one unit after the other.
-/
namespace JavaSnippet.Compile

open Typing Source

/-- What names in the units can mean. -/
def stubsOf (external : ClassPath) (units : List SourceUnit) : ClassPath :=
  .chain ⟨(units.flatMap SourceUnit.classes).map (sourceData · [])⟩ external

/-- The data of the classes of the units, with all heads that could be resolved. -/
def dataOf (stubs : ClassPath) (units : List SourceUnit) : List ClassData :=
  (units.flatMap fun unit => unit.resolved stubs).map Resolved.data

/-- What bodies in the units are typed against. -/
def pathOf (external : ClassPath) (units : List SourceUnit) : ClassPath :=
  .chain ⟨dataOf (stubsOf external units) units⟩ external

section Stages

/-- What units give one after the other, each result with the number of its unit. -/
def numbered {α : Type} (units : List SourceUnit) (give : SourceUnit → List α)
    (number : Nat → α → α) : List α :=
  units.zipIdx.flatMap fun x => (give x.1).map (number x.2)

theorem map_numbered {α β : Type} {units : List SourceUnit} (give : SourceUnit → List α)
    (number : Nat → α → α) (f : α → β) (free : ∀ n a, f (number n a) = f a) :
    (numbered units give number).map f = (units.flatMap give).map f := by
  have same : ∀ n, f ∘ number n = f := fun n => funext (free n)
  unfold numbered
  rw [List.map_flatMap, List.map_flatMap]
  simp only [List.map_map, same]
  conv_rhs => rw [← List.zipIdx_map_fst 0 units, List.flatMap_map]

theorem filterMap_numbered {α β : Type} {units : List SourceUnit} {give : SourceUnit → List α}
    {number : Nat → α → α} {f : α → Option β} (change : SourceUnit → α → β)
    (renumber : Nat → β → β)
    (found : ∀ x ∈ units.zipIdx, ∀ a ∈ give x.1,
      f (number x.2 a) = some (renumber x.2 (change x.1 a))) :
    (numbered units give number).filterMap f =
      numbered units (fun unit => (give unit).map (change unit)) renumber := by
  unfold numbered
  rw [List.filterMap_flatMap]
  refine List.flatMap_congr fun x here => ?_
  have each := found x here
  rw [List.map_map]
  generalize give x.1 = as at each
  induction as with
  | nil => rfl
  | cons a as ih =>
    obtain ⟨first, others⟩ := List.forall_mem_cons.mp each
    rw [List.map_cons, List.filterMap_cons_some first, ih others]
    rfl

theorem lookup_zipIdx {α : Type} (f : SourceUnit → α) {units : List SourceUnit} {first : Nat}
    {unit : SourceUnit} {number : Nat} (here : (unit, number) ∈ units.zipIdx first) :
    ((units.zipIdx first).map fun x => (x.2, f x.1)).lookup number = some (f unit) := by
  induction units generalizing first with
  | nil => cases here
  | cons other units ih =>
    rw [List.zipIdx_cons] at here ⊢
    rw [List.map_cons, List.lookup_cons]
    rcases List.mem_cons.mp here with same | later
    · obtain ⟨rfl, rfl⟩ := Prod.mk.inj same
      rw [beq_self_eq_true]
    · have above := (List.mem_zipIdx later).1
      have differ : (number == first) = false := by
        simp only [beq_eq_false_iff_ne]
        omega
      rw [differ]
      exact ih later

variable {external : ClassPath} {units : List SourceUnit}

theorem parseUnits_eq (parses : ∀ unit ∈ units, ∃ parsed, parse unit.text = .ok parsed) :
    parseUnits units = (units.zipIdx.map fun x => (x.2, x.1.content), []) := by
  have read : ∀ unit ∈ units, parse unit.text = .ok unit.content := by
    intro unit here
    obtain ⟨parsed, isParsed⟩ := parses unit here
    rw [SourceUnit.content, isParsed]
  have each : ∀ x ∈ units.zipIdx, parse x.1.text = .ok x.1.content :=
    fun x here => read x.1 (List.fst_mem_of_mem_zipIdx here)
  unfold parseUnits
  simp only [List.filterMap_map]
  refine Prod.ext ?_ ?_
  · rw [← List.filterMap_eq_map]
    refine List.filterMap_congr fun x here => ?_
    simp only [Function.comp_apply, each x here]
    rfl
  · refine List.filterMap_eq_nil_iff.mpr fun x here => ?_
    simp only [Function.comp_apply, each x here]

theorem parses_of_parseUnits (h : (parseUnits units).2 = []) :
    ∀ unit ∈ units, ∃ parsed, parse unit.text = .ok parsed := by
  intro unit here
  rw [← List.zipIdx_map_fst 0 units] at here
  obtain ⟨⟨other, number⟩, inside, rfl⟩ := List.mem_map.mp here
  unfold parseUnits at h
  have none := List.filterMap_eq_nil_iff.mp h _ (List.mem_map_of_mem inside)
  simp only at none
  cases parsed : parse other.text with
  | ok content => exact ⟨content, rfl⟩
  | error fault =>
    rw [parsed] at none
    cases none

theorem declared_eq (parses : ∀ unit ∈ units, ∃ parsed, parse unit.text = .ok parsed) :
    ((parseUnits units).1.map fun (index, unit) => declareUnit index unit).flatMap (·.1) =
      numbered units SourceUnit.classes Declared.at := by
  rw [parseUnits_eq parses]
  simp only [List.map_map, List.flatMap_map]
  exact List.flatMap_congr fun x _ => congrArg Prod.fst (declareUnit_at x.2 x.1.content)

theorem distinct_of_nodup {kept ds : List Declared} {problems : List Located}
    (unique : ((kept.reverse ++ ds).map (·.name)).Nodup) :
    distinct kept problems ds = (kept.reverse ++ ds, problems.reverse) := by
  induction ds generalizing kept with
  | nil => rw [distinct, List.append_nil]
  | cons d ds ih =>
    have fresh : kept.any (·.name == d.name) = false := by
      rw [List.map_append, List.nodup_append] at unique
      refine List.any_eq_false.mpr fun e isKept same => ?_
      have name : e.name ∈ kept.reverse.map (·.name) :=
        List.mem_map_of_mem (List.mem_reverse.mpr isKept)
      exact unique.2.2 _ name _ List.mem_cons_self (eq_of_beq same)
    have shifted : (d :: kept).reverse ++ ds = kept.reverse ++ d :: ds := by simp
    rw [distinct, fresh, if_neg Bool.false_ne_true, ih (by rwa [shifted]), shifted]

theorem problems_of_distinct (kept ds : List Declared) (problems : List Located) :
    ∃ others, (distinct kept problems ds).2 = problems.reverse ++ others := by
  induction ds generalizing kept problems with
  | nil => exact ⟨[], (List.append_nil _).symm⟩
  | cons d ds ih =>
    rw [distinct]
    split
    · obtain ⟨others, same⟩ := ih kept ((d.unit, ⟨d.decl.line, .duplicateClass d.name⟩) :: problems)
      exact ⟨_, by rw [same, List.reverse_cons, List.append_assoc]⟩
    · exact ih (d :: kept) problems

/-- Without a problem all classes are kept. -/
theorem kept_of_distinct {kept ds : List Declared} {problems : List Located}
    (h : (distinct kept problems ds).2 = []) :
    (distinct kept problems ds).1 = kept.reverse ++ ds := by
  induction ds generalizing kept problems with
  | nil => rw [distinct, List.append_nil]
  | cons d ds ih =>
    rw [distinct] at h ⊢
    split at h
    · obtain ⟨others, same⟩ := problems_of_distinct kept ds
        ((d.unit, ⟨d.decl.line, .duplicateClass d.name⟩) :: problems)
      rw [same] at h
      simp at h
    · rename_i fresh
      rw [if_neg fresh, ih h, List.reverse_cons, List.append_assoc]
      rfl

/-- Units of which every text can be parsed and no two classes have one name. -/
structure Declarable (units : List SourceUnit) : Prop where
  parses : ∀ unit ∈ units, ∃ parsed, parse unit.text = .ok parsed
  unique : ((units.flatMap SourceUnit.classes).map (·.name)).Nodup

namespace Declarable

theorem distinct_eq (h : Declarable units) :
    distinct [] []
        (((parseUnits units).1.map fun (index, unit) => declareUnit index unit).flatMap (·.1)) =
      (numbered units SourceUnit.classes Declared.at, []) := by
  have names : (numbered units SourceUnit.classes Declared.at).map (·.name) =
      (units.flatMap SourceUnit.classes).map (·.name) :=
    map_numbered SourceUnit.classes Declared.at _ fun _ _ => rfl
  have unique := h.unique
  rw [← names] at unique
  rw [declared_eq h.parses]
  exact distinct_of_nodup unique

theorem declaredIn_eq (h : Declarable units) :
    declaredIn units = numbered units SourceUnit.classes Declared.at :=
  congrArg Prod.fst h.distinct_eq

theorem scopesIn_eq (h : Declarable units) :
    scopesIn external units =
      units.zipIdx.map fun x => (x.2, TypeScope.build (stubsOf external units) x.1.content) := by
  have stubs : (declaredIn units).map (sourceData · []) =
      (units.flatMap SourceUnit.classes).map (sourceData · []) := by
    rw [h.declaredIn_eq]
    exact map_numbered SourceUnit.classes Declared.at _ fun _ _ => rfl
  unfold scopesIn stubsOf
  rw [parseUnits_eq h.parses, stubs]
  simp only [List.map_map]
  rfl

theorem lookup_scopesIn (h : Declarable units) {unit : SourceUnit} {number : Nat}
    (here : (unit, number) ∈ units.zipIdx) :
    (scopesIn external units).lookup number =
      some (TypeScope.build (stubsOf external units) unit.content) := by
  rw [h.scopesIn_eq]
  exact lookup_zipIdx (fun unit => TypeScope.build (stubsOf external units) unit.content) here

theorem headsIn_eq (h : Declarable units) :
    headsIn external units =
      numbered units (fun unit => unit.heads (stubsOf external units))
        fun number x => (x.1.at number, x.2) := by
  unfold headsIn
  rw [h.declaredIn_eq]
  refine filterMap_numbered (fun unit d => (d, headsOf (unit.scope (stubsOf external units)) d))
    (fun number x => (x.1.at number, x.2)) fun x here d _ => ?_
  have found : (scopesIn external units).lookup (d.at x.2).unit = _ := h.lookup_scopesIn here
  rw [found]
  rfl

theorem resolvedIn_eq (h : Declarable units) :
    resolvedIn external units =
      numbered units (fun unit => unit.resolved (stubsOf external units)) Resolved.at := by
  unfold resolvedIn
  rw [h.headsIn_eq]
  unfold numbered
  rw [List.map_flatMap]
  refine List.flatMap_congr fun x _ => ?_
  unfold SourceUnit.resolved
  rw [List.map_map, List.map_map]
  rfl

theorem pathIn_eq (h : Declarable units) : pathIn external units = pathOf external units := by
  have data : (resolvedIn external units).map Resolved.data =
      dataOf (stubsOf external units) units := by
    rw [h.resolvedIn_eq]
    exact map_numbered _ Resolved.at Resolved.data fun _ _ => rfl
  unfold pathIn pathOf
  rw [data]

/-- The members of a class, which are all in its unit. -/
theorem members_eq (h : Declarable units) {unit : SourceUnit} (here : unit ∈ units)
    {name : ClassName} (own : name ∈ unit.classes.map (·.name)) :
    ((declaredIn units).filter fun d => d.outer == some name).map
        (fun d => (d.name, d.decl.modifiers)) =
      (unit.classes.filter fun d => d.outer == some name).map
        fun d => (d.name, d.decl.modifiers) := by
  let key (d : Declared) := (d.outer, d.name, d.decl.modifiers)
  have byKey : ∀ ds : List Declared,
      (ds.filter fun d => d.outer == some name).map (fun d => (d.name, d.decl.modifiers)) =
        ((ds.map key).filter fun x => x.1 == some name).map (·.2) := by
    intro ds
    rw [List.filter_map, List.map_map]
    rfl
  have keys : (numbered units SourceUnit.classes Declared.at).map key =
      (units.flatMap SourceUnit.classes).map key :=
    map_numbered SourceUnit.classes Declared.at key fun _ _ => rfl
  rw [h.declaredIn_eq, byKey, keys, ← byKey, members_own h.unique here own]

theorem typedIn_eq (h : Declarable units) :
    typedIn external units =
      numbered units (fun unit => unit.typed (stubsOf external units) (pathOf external units))
        fun number x => (x.1, x.2.map (relocate number)) := by
  unfold typedIn
  rw [h.resolvedIn_eq]
  refine filterMap_numbered
    (fun unit => typeClass
      ((unit.scope (stubsOf external units)).withPath (pathOf external units))
      unit.classes unit.fileName)
    (fun number x => (x.1, x.2.map (relocate number))) fun x here r isResolved => ?_
  obtain ⟨unit, number⟩ := x
  have found : (scopesIn external units).lookup (r.at number).declared.unit = _ :=
    h.lookup_scopesIn here
  have file : units[(r.at number).declared.unit]? = some unit :=
    List.mk_mem_zipIdx_iff_getElem?.mp here
  have own : r.declared.name ∈ unit.classes.map (·.name) := by
    obtain ⟨x, isHead, rfl⟩ := List.mem_map.mp isResolved
    obtain ⟨d, isClass, rfl⟩ := List.mem_map.mp isHead
    exact List.mem_map_of_mem isClass
  rw [found, file, h.pathIn_eq]
  simp only [Option.map_some, Option.getD_some]
  rw [typeClass_at (h.members_eq (List.fst_mem_of_mem_zipIdx here) own)]
  rfl

end Declarable

section Problems

theorem typeUnits_problems_eq :
    (typeUnits external units).2 =
      (parseUnits units).2 ++
        ((parseUnits units).1.map fun (index, unit) => declareUnit index unit).flatMap (·.2) ++
        (distinct [] [] (((parseUnits units).1.map fun (index, unit) =>
          declareUnit index unit).flatMap (·.1))).2 ++
        ((scopesIn external units).flatMap fun (index, scope) => scope.2.map (index, ·)) ++
        ((headsIn external units).flatMap fun (d, h) => h.problems.reverse.map (d.unit, ·)) ++
        (typedIn external units).flatMap (·.2) := rfl

theorem exists_of_syntactic {x : Located} (here : x ∈ (parseUnits units).2) :
    ∃ unit fault, (unit, x.1) ∈ units.zipIdx ∧ parse unit.text = .error fault ∧
      x.2 = ⟨fault.line, .syntactic fault.cause⟩ := by
  obtain ⟨⟨index, result⟩, inResults, isProblem⟩ := List.mem_filterMap.mp here
  obtain ⟨⟨unit, number⟩, inUnits, same⟩ := List.mem_map.mp inResults
  obtain ⟨rfl, rfl⟩ := Prod.mk.inj same
  cases parsed : parse unit.text with
  | ok content =>
    rw [parsed] at isProblem
    cases isProblem
  | error fault =>
    rw [parsed] at isProblem
    obtain rfl := Option.some.inj isProblem
    exact ⟨unit, fault, inUnits, parsed, rfl⟩

theorem number_of_declared {number : Nat} {parsed : CompilationUnit} {d : Declared}
    (here : d ∈ (declareUnit number parsed).1) : d.unit = number := by
  rw [declareUnit_at] at here
  obtain ⟨e, -, rfl⟩ := List.mem_map.mp here
  rfl

theorem number_of_misplaced {number : Nat} {parsed : CompilationUnit} {x : Located}
    (here : x ∈ (declareUnit number parsed).2) : x.1 = number := by
  rw [declareUnit_at] at here
  obtain ⟨y, -, rfl⟩ := List.mem_map.mp here
  rfl

/-- A problem with a name that is taken is on the line of the class that has it too. -/
theorem duplicate_of_mem {kept ds : List Declared} {problems : List Located} {x : Located}
    (here : x ∈ (distinct kept problems ds).2) :
    x ∈ problems ∨ ∃ d ∈ ds, x.1 = d.unit ∧ x.2.line = d.decl.line := by
  induction ds generalizing kept problems with
  | nil => exact .inl (List.mem_reverse.mp here)
  | cons d ds ih =>
    rw [distinct] at here
    have later : (∃ e ∈ ds, x.1 = e.unit ∧ x.2.line = e.decl.line) →
        ∃ e ∈ d :: ds, x.1 = e.unit ∧ x.2.line = e.decl.line := by
      rintro ⟨e, isLater, same⟩
      exact ⟨e, List.mem_cons_of_mem d isLater, same⟩
    split at here
    · rcases ih here with old | other
      · rcases List.mem_cons.mp old with rfl | older
        · exact .inr ⟨d, List.mem_cons_self, rfl, rfl⟩
        · exact .inl older
      · exact .inr (later other)
    · exact (ih here).imp_right later

/-- Where a problem comes from: a text, the place or the name of a class, a name that is taken, an
import, the head of a method or a body. -/
inductive Arises (external : ClassPath) (units : List SourceUnit) : Located → Prop where
  | syntactic {unit : SourceUnit} {number : Nat} {fault : SyntaxFault}
      (inUnits : (unit, number) ∈ units.zipIdx) (failed : parse unit.text = .error fault) :
      Arises external units (number, ⟨fault.line, .syntactic fault.cause⟩)
  | misplaced {parsed : Parsed} {x : Located} (isParsed : parsed ∈ (parseUnits units).1)
      (found : x ∈ (declareUnit parsed.1 parsed.2).2) : Arises external units x
  | duplicate {parsed : Parsed} {d : Declared} {problem : Problem}
      (isParsed : parsed ∈ (parseUnits units).1) (declared : d ∈ (declareUnit parsed.1 parsed.2).1)
      (line : problem.line = d.decl.line) : Arises external units (d.unit, problem)
  | imported {parsed : Parsed} {path : ClassPath} {problem : Problem}
      (isParsed : parsed ∈ (parseUnits units).1)
      (found : problem ∈ (TypeScope.build path parsed.2).2) :
      Arises external units (parsed.1, problem)
  | head {d : Declared} {scope : TypeScope} {problem : Problem} (declared : d ∈ declaredIn units)
      (found : problem ∈ (headsOf scope d).problems) : Arises external units (d.unit, problem)
  | body {r : Resolved} {scope : TypeScope} {all : List Declared} {file : String} {x : Located}
      (resolved : r ∈ resolvedIn external units) (found : x ∈ (typeClass scope all file r).2) :
      Arises external units x

theorem arises_of_problem {x : Located} (here : x ∈ (typeUnits external units).2) :
    Arises external units x := by
  rw [typeUnits_problems_eq] at here
  simp only [List.mem_append] at here
  rcases here with ((((syntactic | misplaced) | duplicate) | imported) | head) | body
  · obtain ⟨number, problem⟩ := x
    obtain ⟨unit, fault, inUnits, failed, rfl⟩ := exists_of_syntactic syntactic
    exact .syntactic inUnits failed
  · obtain ⟨result, isResult, found⟩ := List.mem_flatMap.mp misplaced
    obtain ⟨parsed, isParsed, rfl⟩ := List.mem_map.mp isResult
    exact .misplaced isParsed found
  · rcases duplicate_of_mem duplicate with none | ⟨d, isDeclared, number, line⟩
    · cases none
    · obtain ⟨index, problem⟩ := x
      obtain rfl : index = d.unit := number
      obtain ⟨result, isResult, declared⟩ := List.mem_flatMap.mp isDeclared
      obtain ⟨parsed, isParsed, rfl⟩ := List.mem_map.mp isResult
      exact .duplicate isParsed declared line
  · obtain ⟨scope, isScope, inScope⟩ := List.mem_flatMap.mp imported
    obtain ⟨parsed, isParsed, rfl⟩ := List.mem_map.mp isScope
    obtain ⟨problem, found, rfl⟩ := List.mem_map.mp inScope
    exact .imported isParsed found
  · obtain ⟨⟨d, h⟩, isHead, inHead⟩ := List.mem_flatMap.mp head
    obtain ⟨e, declared, made⟩ := List.mem_filterMap.mp isHead
    obtain ⟨scope, -, same⟩ := Option.map_eq_some_iff.mp made
    obtain ⟨rfl, rfl⟩ := Prod.mk.inj same
    obtain ⟨problem, found, rfl⟩ := List.mem_map.mp inHead
    exact .head declared (List.mem_reverse.mp found)
  · obtain ⟨result, isTyped, found⟩ := List.mem_flatMap.mp body
    obtain ⟨r, resolved, made⟩ := List.mem_filterMap.mp isTyped
    obtain ⟨scope, -, rfl⟩ := Option.map_eq_some_iff.mp made
    exact .body resolved found

theorem number_lt_of_parsed {x : Parsed} (here : x ∈ (parseUnits units).1) :
    x.1 < units.length := by
  obtain ⟨unit, inUnits, -⟩ := exists_of_parsed here
  exact (List.mem_zipIdx' inUnits).1

theorem number_lt_of_declaredIn {d : Declared} (here : d ∈ declaredIn units) :
    d.unit < units.length := by
  obtain ⟨x, isParsed, declared⟩ := exists_of_declaredIn here
  rw [number_of_declared declared]
  exact number_lt_of_parsed isParsed

/-- Every problem is in one of the units. -/
theorem number_lt_of_problem {x : Located} (here : x ∈ (typeUnits external units).2) :
    x.1 < units.length := by
  cases arises_of_problem here with
  | syntactic inUnits failed => exact (List.mem_zipIdx' inUnits).1
  | misplaced isParsed found =>
    rw [number_of_misplaced found]
    exact number_lt_of_parsed isParsed
  | duplicate isParsed declared line =>
    rw [number_of_declared declared]
    exact number_lt_of_parsed isParsed
  | imported isParsed found => exact number_lt_of_parsed isParsed
  | head declared found => exact number_lt_of_declaredIn declared
  | body resolved found =>
    obtain ⟨b, -, inBody⟩ := List.mem_flatMap.mp found
    obtain ⟨p, -, rfl⟩ := List.mem_map.mp inBody
    exact number_lt_of_declaredIn (isResolved_of_mem resolved).declared

theorem diagnose_nil : diagnose units [] = [] := List.flatMap_eq_nil_iff.mpr fun _ _ => rfl

theorem problems_of_diagnose {problems : List Located}
    (inRange : ∀ x ∈ problems, x.1 < units.length) (h : diagnose units problems = []) :
    problems = [] := by
  refine List.eq_nil_iff_forall_not_mem.mpr fun x here => ?_
  have inside : (units.get ⟨x.1, inRange x here⟩, x.1) ∈ units.zipIdx :=
    List.mk_mem_zipIdx_iff_getElem?.mpr (List.getElem?_eq_getElem _)
  have empty := List.flatMap_eq_nil_iff.mp h _ inside
  have none := List.map_eq_nil_iff.mp empty
  exact List.filter_eq_nil_iff.mp none x here (beq_self_eq_true x.1)

end Problems

section Acceptance

theorem flatMap_zipIdx_eq_nil {α : Type} {f : SourceUnit × Nat → List α} {P : SourceUnit → Prop}
    (free : ∀ x, f x = [] ↔ P x.1) : units.zipIdx.flatMap f = [] ↔ ∀ unit ∈ units, P unit := by
  rw [List.flatMap_eq_nil_iff]
  constructor
  · intro h unit here
    rw [← List.zipIdx_map_fst 0 units] at here
    obtain ⟨x, inside, rfl⟩ := List.mem_map.mp here
    exact (free x).mp (h x inside)
  · intro h x inside
    exact (free x).mpr (h x.1 (List.fst_mem_of_mem_zipIdx inside))

theorem flatMap_numbered_eq_nil {α β : Type} {give : SourceUnit → List α} {number : Nat → α → α}
    {f : α → List β} {P : α → Prop} (free : ∀ n a, f (number n a) = [] ↔ P a) :
    (numbered units give number).flatMap f = [] ↔ ∀ unit ∈ units, ∀ a ∈ give unit, P a := by
  unfold numbered
  rw [List.flatMap_assoc]
  refine flatMap_zipIdx_eq_nil fun x => ?_
  rw [List.flatMap_eq_nil_iff, List.forall_mem_map]
  exact forall₂_congr fun a _ => free x.2 a

namespace Declarable

theorem misplaced_eq_nil (h : Declarable units) :
    ((parseUnits units).1.map fun (index, unit) => declareUnit index unit).flatMap (·.2) = [] ↔
      ∀ unit ∈ units, (declareUnit 0 unit.content).2 = [] := by
  rw [parseUnits_eq h.parses]
  simp only [List.map_map, List.flatMap_map]
  refine flatMap_zipIdx_eq_nil fun x => ?_
  simp only [Function.comp_apply]
  rw [declareUnit_at]
  exact List.map_eq_nil_iff

theorem imports_eq_nil (h : Declarable units) :
    ((scopesIn external units).flatMap fun (index, scope) => scope.2.map (index, ·)) = [] ↔
      ∀ unit ∈ units, (TypeScope.build (stubsOf external units) unit.content).2 = [] := by
  rw [h.scopesIn_eq]
  simp only [List.flatMap_map]
  exact flatMap_zipIdx_eq_nil fun x => List.map_eq_nil_iff

theorem heads_eq_nil (h : Declarable units) :
    ((headsIn external units).flatMap fun (d, h) => h.problems.reverse.map (d.unit, ·)) = [] ↔
      ∀ unit ∈ units, ∀ x ∈ unit.heads (stubsOf external units), x.2.problems = [] := by
  rw [h.headsIn_eq]
  refine flatMap_numbered_eq_nil fun n x => ?_
  rw [List.map_eq_nil_iff, List.reverse_eq_nil_iff]

theorem bodies_eq_nil (h : Declarable units) :
    (typedIn external units).flatMap (·.2) = [] ↔
      ∀ unit ∈ units, ∀ x ∈ unit.typed (stubsOf external units) (pathOf external units),
        x.2 = [] := by
  rw [h.typedIn_eq]
  exact flatMap_numbered_eq_nil fun n x => List.map_eq_nil_iff

end Declarable

/-- Nothing is wrong with any of the units, also when they are taken together. -/
structure Accepts (external : ClassPath) (units : List SourceUnit) : Prop where
  unique : ((units.flatMap SourceUnit.classes).map (·.name)).Nodup
  clean : ∀ unit ∈ units, unit.Clean (stubsOf external units) (pathOf external units)

theorem Accepts.declarable (h : Accepts external units) : Declarable units :=
  ⟨fun unit here => (h.clean unit here).parses, h.unique⟩

theorem declarable_of_problems (none : (typeUnits external units).2 = []) : Declarable units := by
  rw [typeUnits_problems_eq] at none
  simp only [List.append_eq_nil_iff] at none
  obtain ⟨⟨⟨⟨⟨syntactic, -⟩, duplicates⟩, -⟩, -⟩, -⟩ := none
  have parses := parses_of_parseUnits syntactic
  have kept := kept_of_distinct duplicates
  have unique : ((distinct [] [] (((parseUnits units).1.map fun (index, unit) =>
      declareUnit index unit).flatMap (·.1))).1.map (·.name)).Nodup :=
    distinct_nodup List.nodup_nil
  rw [kept, List.reverse_nil, List.nil_append, declared_eq parses] at unique
  have names : (numbered units SourceUnit.classes Declared.at).map (·.name) =
      (units.flatMap SourceUnit.classes).map (·.name) :=
    map_numbered SourceUnit.classes Declared.at _ fun _ _ => rfl
  rw [names] at unique
  exact ⟨parses, unique⟩

theorem problems_eq_nil_iff : (typeUnits external units).2 = [] ↔ Accepts external units := by
  constructor
  · intro none
    have declarable := declarable_of_problems none
    rw [typeUnits_problems_eq] at none
    simp only [List.append_eq_nil_iff] at none
    obtain ⟨⟨⟨⟨⟨-, misplaced⟩, -⟩, imports⟩, heads⟩, bodies⟩ := none
    exact ⟨declarable.unique, fun unit here =>
      ⟨declarable.parses unit here, declarable.misplaced_eq_nil.mp misplaced unit here,
        declarable.imports_eq_nil.mp imports unit here, declarable.heads_eq_nil.mp heads unit here,
        declarable.bodies_eq_nil.mp bodies unit here⟩⟩
  · intro h
    have declarable := h.declarable
    have syntactic : (parseUnits units).2 = [] :=
      congrArg Prod.snd (parseUnits_eq declarable.parses)
    rw [typeUnits_problems_eq, syntactic, declarable.distinct_eq,
      declarable.misplaced_eq_nil.mpr fun unit here => (h.clean unit here).placed,
      declarable.imports_eq_nil.mpr fun unit here => (h.clean unit here).imports,
      declarable.heads_eq_nil.mpr fun unit here => (h.clean unit here).heads,
      declarable.bodies_eq_nil.mpr fun unit here => (h.clean unit here).bodies]
    rfl

/-- The typed classes of the units, one unit after the other. -/
def typedOf (external : ClassPath) (units : List SourceUnit) : List TypedClass :=
  (units.flatMap fun unit => unit.typed (stubsOf external units) (pathOf external units)).map (·.1)

theorem Accepts.typeUnits_eq (h : Accepts external units) :
    (typeUnits external units).1 = typedOf external units := by
  rw [typeUnits_classes, h.declarable.typedIn_eq]
  exact map_numbered _ _ _ fun _ _ => rfl

/-- Compilation succeeds when nothing is wrong and every class can be written. -/
theorem compile_eq_ok {version : ClassFile.Version} {compiled : List CompiledUnit} :
    compile external units version = .ok compiled ↔
      Accepts external units ∧ emitAll version [] (typedOf external units) = .ok compiled := by
  unfold compile
  simp only
  constructor
  · intro h
    split at h
    · rename_i none
      have accepts := problems_eq_nil_iff.mp
        (problems_of_diagnose (fun x here => number_lt_of_problem here) none)
      rw [accepts.typeUnits_eq] at h
      exact ⟨accepts, h⟩
    · cases h
  · rintro ⟨accepts, h⟩
    rw [problems_eq_nil_iff.mpr accepts, accepts.typeUnits_eq, diagnose_nil]
    exact h

theorem compile_of_typeUnits {version : ClassFile.Version} {classes : List TypedClass}
    (typed : typeUnits external units = (classes, [])) :
    compile external units version = emitAll version [] classes := by
  unfold compile
  rw [typed]
  simp only [diagnose_nil]

theorem compile_singleton {version : ClassFile.Version} {c : TypedClass} {f : ClassFile}
    (typed : typeUnits external units = ([c], [])) (emitted : emit c version = .ok f) :
    compile external units version = .ok [⟨c.name.dotted, f.encode⟩] := by
  rw [compile_of_typeUnits typed]
  simp only [emitAll, emitted]
  rfl

end Acceptance

end Stages

end JavaSnippet.Compile
