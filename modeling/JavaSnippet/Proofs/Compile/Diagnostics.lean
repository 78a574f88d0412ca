import JavaSnippet.Proofs.Compile.ProblemLines
/-!
Diagnostics unit by unit. A unit that cannot be parsed has one diagnostic and no part in the later
stages: the others are numbered without gaps and checked as if it were not there.
-/
namespace JavaSnippet.Compile

open Typing Source

/-- Whether the text can be parsed. -/
def SourceUnit.parses (unit : SourceUnit) : Bool := (parse unit.text).toOption.isSome

section Numbers

/-- The number among all units of the one with a number among those that can be parsed. -/
def places : List SourceUnit → Nat → Nat
  | [], k => k
  | unit :: rest, k =>
    match unit.parses, k with
    | true, 0 => 0
    | true, k + 1 => places rest k + 1
    | false, k => places rest k + 1

theorem places_injective (units : List SourceUnit) : Function.Injective (places units) := by
  induction units with
  | nil => exact fun a b same => same
  | cons unit rest ih =>
    intro a b same
    unfold places at same
    cases parses : unit.parses with
    | false =>
      rw [parses] at same
      exact ih (Nat.succ.inj same)
    | true =>
      rw [parses] at same
      cases a with
      | zero =>
        cases b with
        | zero => rfl
        | succ b => cases same
      | succ a =>
        cases b with
        | zero => cases same
        | succ b => exact congrArg Nat.succ (ih (Nat.succ.inj same))

/-- The units that can be parsed keep their order. -/
theorem filter_zipIdx (units : List SourceUnit) :
    units.zipIdx.filter (fun x => x.1.parses) =
      (units.filter SourceUnit.parses).zipIdx.map fun x => (x.1, places units x.2) := by
  induction units with
  | nil => rfl
  | cons unit rest ih =>
    -- Behind the first unit all numbers are one higher.
    have later : (rest.zipIdx 1).filter (fun x => x.1.parses) =
        (rest.filter SourceUnit.parses).zipIdx.map fun x => (x.1, places rest x.2 + 1) := by
      rw [List.zipIdx_succ, List.filter_map]
      exact (congrArg (List.map _) ih).trans (List.map_map ..)
    rw [List.zipIdx_cons, List.filter_cons, List.filter_cons, later]
    simp only
    cases parses : unit.parses with
    | false =>
      rw [if_neg Bool.false_ne_true, if_neg Bool.false_ne_true]
      refine List.map_congr_left fun x _ => ?_
      rw [places]
      exact parses
    | true =>
      rw [if_pos rfl, if_pos rfl, List.zipIdx_cons, List.map_cons, List.zipIdx_succ, List.map_map]
      congr 1
      · rw [places]
        exact parses
      · refine List.map_congr_left fun x _ => ?_
        simp only [Function.comp_apply]
        rw [places]
        exact parses

end Numbers

section Renumbering

/-- The class under the new number of its unit. -/
def Declared.renumber (f : Nat → Nat) (d : Declared) : Declared := d.at (f d.unit)

def Resolved.renumber (f : Nat → Nat) (r : Resolved) : Resolved := r.at (f r.declared.unit)

/-- What belongs to a unit, under the new number of the unit. -/
def renumber {α : Type} (f : Nat → Nat) (x : Nat × α) : Nat × α := (f x.1, x.2)

theorem lookup_renumber {α : Type} {f : Nat → Nat} (inj : Function.Injective f)
    (xs : List (Nat × α)) (k : Nat) : (xs.map (renumber f)).lookup (f k) = xs.lookup k := by
  induction xs with
  | nil => rfl
  | cons x xs ih =>
    rw [List.map_cons, renumber, List.lookup_cons, List.lookup_cons, ih]
    have same : (f k == f x.1) = (k == x.1) := by
      rw [Bool.eq_iff_iff, beq_iff_eq, beq_iff_eq]
      exact inj.eq_iff
    rw [same]

theorem declareUnit_renumber (f : Nat → Nat) (x : Parsed) :
    declareUnit (f x.1) x.2 = ((declareUnit x.1 x.2).1.map (Declared.renumber f),
      (declareUnit x.1 x.2).2.map (renumber f)) := by
  rw [declareUnit_at (f x.1), declareUnit_at x.1]
  simp only [List.map_map]
  rfl

theorem distinct_renumber (f : Nat → Nat) (kept ds : List Declared) (problems : List Located) :
    distinct (kept.map (Declared.renumber f)) (problems.map (renumber f))
        (ds.map (Declared.renumber f)) =
      ((distinct kept problems ds).1.map (Declared.renumber f),
        (distinct kept problems ds).2.map (renumber f)) := by
  induction ds generalizing kept problems with
  | nil => rw [List.map_nil, distinct, distinct, List.map_reverse, List.map_reverse]
  | cons d ds ih =>
    have known : (kept.map (Declared.renumber f)).any (·.name == (d.renumber f).name) =
        kept.any (·.name == d.name) := by
      rw [List.any_map]
      rfl
    rw [List.map_cons, distinct, distinct, known]
    split
    · exact ih kept ((d.unit, ⟨d.decl.line, .duplicateClass d.name⟩) :: problems)
    · exact ih (d :: kept) problems

variable {external : ClassPath} {more less : List SourceUnit} {f : Nat → Nat}

/-- The problems in units that can be parsed. -/
def checked (external : ClassPath) (units : List SourceUnit) : List Located :=
  ((parseUnits units).1.map fun (index, unit) => declareUnit index unit).flatMap (·.2) ++
    (distinct [] [] (((parseUnits units).1.map fun (index, unit) =>
      declareUnit index unit).flatMap (·.1))).2 ++
    ((scopesIn external units).flatMap fun (index, scope) => scope.2.map (index, ·)) ++
    ((headsIn external units).flatMap fun (d, h) => h.problems.reverse.map (d.unit, ·)) ++
    (typedIn external units).flatMap (·.2)

theorem typeUnits_checked (external : ClassPath) (units : List SourceUnit) :
    (typeUnits external units).2 = (parseUnits units).2 ++ checked external units := by
  rw [typeUnits_problems_eq, checked]
  simp only [List.append_assoc]

/-- Two lists of units in which the same texts can be parsed, under other numbers. -/
structure Renumbers (f : Nat → Nat) (less more : List SourceUnit) : Prop where
  injective : Function.Injective f
  parsed : (parseUnits more).1 = (parseUnits less).1.map (renumber f)

namespace Renumbers

theorem declarations (h : Renumbers f less more) :
    ((parseUnits more).1.map fun (index, unit) => declareUnit index unit).flatMap (·.1) =
      (((parseUnits less).1.map fun (index, unit) =>
        declareUnit index unit).flatMap (·.1)).map (Declared.renumber f) := by
  rw [h.parsed]
  simp only [List.flatMap_map, List.map_flatMap]
  exact List.flatMap_congr fun x _ => congrArg Prod.fst (declareUnit_renumber f x)

theorem misplaced (h : Renumbers f less more) :
    ((parseUnits more).1.map fun (index, unit) => declareUnit index unit).flatMap (·.2) =
      (((parseUnits less).1.map fun (index, unit) =>
        declareUnit index unit).flatMap (·.2)).map (renumber f) := by
  rw [h.parsed]
  simp only [List.flatMap_map, List.map_flatMap]
  exact List.flatMap_congr fun x _ => congrArg Prod.snd (declareUnit_renumber f x)

theorem declaredIn (h : Renumbers f less more) :
    declaredIn more = (declaredIn less).map (Declared.renumber f) := by
  have kept := distinct_renumber f [] (((parseUnits less).1.map fun (index, unit) =>
    declareUnit index unit).flatMap (·.1)) []
  rw [← h.declarations] at kept
  exact congrArg Prod.fst kept

theorem duplicates (h : Renumbers f less more) :
    (distinct [] [] (((parseUnits more).1.map fun (index, unit) =>
        declareUnit index unit).flatMap (·.1))).2 =
      (distinct [] [] (((parseUnits less).1.map fun (index, unit) =>
        declareUnit index unit).flatMap (·.1))).2.map (renumber f) := by
  rw [h.declarations]
  exact congrArg Prod.snd (distinct_renumber f [] _ [])

theorem scopesIn (h : Renumbers f less more) :
    scopesIn external more = (scopesIn external less).map (renumber f) := by
  have stubs : (Compile.declaredIn more).map (sourceData · []) =
      (Compile.declaredIn less).map (sourceData · []) := by
    rw [h.declaredIn, List.map_map]
    rfl
  rw [Compile.scopesIn, Compile.scopesIn, h.parsed, stubs]
  simp only [List.map_map]
  rfl

theorem headsIn (h : Renumbers f less more) :
    headsIn external more =
      (headsIn external less).map fun x => (x.1.renumber f, x.2) := by
  rw [Compile.headsIn, Compile.headsIn, h.declaredIn, h.scopesIn, List.filterMap_map,
    List.map_filterMap]
  refine List.filterMap_congr fun d _ => ?_
  have found := lookup_renumber h.injective (Compile.scopesIn external less) d.unit
  simp only [Function.comp_apply]
  have unit : (d.renumber f).unit = f d.unit := rfl
  rw [unit, found, Option.map_map]
  rfl

theorem resolvedIn (h : Renumbers f less more) :
    resolvedIn external more = (resolvedIn external less).map (Resolved.renumber f) := by
  rw [Compile.resolvedIn, Compile.resolvedIn, h.headsIn, List.map_map, List.map_map]
  rfl

theorem pathIn (h : Renumbers f less more) : pathIn external more = pathIn external less := by
  rw [Compile.pathIn, Compile.pathIn, h.resolvedIn, List.map_map]
  rfl

theorem bodies (h : Renumbers f less more) :
    (typedIn external more).flatMap (·.2) =
      ((typedIn external less).flatMap (·.2)).map (renumber f) := by
  rw [typedIn, typedIn, h.resolvedIn, h.scopesIn, h.pathIn]
  generalize Compile.resolvedIn external less = rs
  induction rs with
  | nil => rfl
  | cons r rs ih =>
    have found : ((Compile.scopesIn external less).map (renumber f)).lookup
        (r.renumber f).declared.unit = (Compile.scopesIn external less).lookup r.declared.unit :=
      lookup_renumber h.injective _ _
    rw [List.map_cons, List.filterMap_cons, List.filterMap_cons, found]
    cases (Compile.scopesIn external less).lookup r.declared.unit with
    | none => exact ih
    | some scope =>
      simp only [Option.map_some, List.flatMap_cons, List.map_append]
      rw [ih]
      congr 1
      unfold typeClass
      simp only [List.map_flatMap, List.map_map]
      rfl

theorem checked (h : Renumbers f less more) :
    checked external more = (checked external less).map (renumber f) := by
  rw [Compile.checked, Compile.checked, h.misplaced, h.duplicates, h.scopesIn, h.headsIn, h.bodies]
  simp only [List.map_append, List.flatMap_map, List.map_flatMap, List.map_map]
  rfl

end Renumbers

end Renumbering

section Reports

variable {external : ClassPath} {units : List SourceUnit} {unit : SourceUnit} {number : Nat}

theorem filter_number {first : Nat} (here : (unit, number) ∈ units.zipIdx first) :
    (units.zipIdx first).filter (·.2 == number) = [(unit, number)] := by
  induction units generalizing first with
  | nil => cases here
  | cons other units ih =>
    rw [List.zipIdx_cons] at here ⊢
    rw [List.filter_cons]
    rcases List.mem_cons.mp here with same | later
    · obtain ⟨rfl, rfl⟩ := Prod.mk.inj same
      have none : (units.zipIdx (number + 1)).filter (·.2 == number) = [] := by
        refine List.filter_eq_nil_iff.mpr fun x isLater same => ?_
        have above := (List.mem_zipIdx isLater).1
        have := beq_iff_eq.mp same
        omega
      rw [if_pos (beq_self_eq_true number), none]
    · have above := (List.mem_zipIdx later).1
      have differ : ¬ (first == number) = true := by
        rw [beq_iff_eq]
        omega
      rw [if_neg differ]
      exact ih later

/-- The problem with a text that cannot be parsed. -/
def syntacticIn (x : SourceUnit × Nat) : Option Located :=
  match parse x.1.text with
  | .ok _ => none
  | .error fault => some (x.2, ⟨fault.line, .syntactic fault.cause⟩)

theorem syntactic_eq : (parseUnits units).2 = units.zipIdx.filterMap syntacticIn := by
  unfold parseUnits
  simp only [List.filterMap_map]
  refine List.filterMap_congr fun x _ => ?_
  cases read : parse x.1.text with
  | ok content => simp only [Function.comp_apply, syntacticIn, read]
  | error fault => simp only [Function.comp_apply, syntacticIn, read]

theorem syntacticIn_number {x : SourceUnit × Nat} {p : Located} (h : syntacticIn x = some p) :
    p.1 = x.2 := by
  unfold syntacticIn at h
  split at h
  · cases h
  · rw [← Option.some.inj h]

theorem filter_syntactic (here : (unit, number) ∈ units.zipIdx) :
    (parseUnits units).2.filter (·.1 == number) = (syntacticIn (unit, number)).toList := by
  have each : ∀ x : SourceUnit × Nat, (syntacticIn x).filter (·.1 == number) =
      if (x.2 == number) = true then syntacticIn x else none := by
    intro x
    cases found : syntacticIn x with
    | none => simp
    | some p => rw [Option.filter_some, syntacticIn_number found]
  rw [syntactic_eq, List.filter_filterMap]
  simp only [each]
  rw [← List.filterMap_filter, filter_number here]
  cases found : syntacticIn (unit, number) with
  | none => simp [found]
  | some p => simp [found]

theorem syntacticIn_parses (parses : unit.parses = true) : syntacticIn (unit, number) = none := by
  unfold SourceUnit.parses at parses
  unfold syntacticIn
  cases read : parse unit.text with
  | ok content => rfl
  | error fault =>
    rw [read] at parses
    cases parses

/-- What a text that can be parsed holds. -/
def contentIn (x : SourceUnit × Nat) : Option Parsed :=
  (parse x.1.text).toOption.map (x.2, ·)

theorem parsed_eq : (parseUnits units).1 = units.zipIdx.filterMap contentIn := by
  unfold parseUnits
  simp only [List.filterMap_map]
  rfl

theorem contentIn_fails {x : SourceUnit × Nat} (fails : ¬ x.1.parses = true) :
    contentIn x = none := by
  have nothing : (parse x.1.text).toOption = none := by
    simpa [SourceUnit.parses] using fails
  rw [contentIn, nothing]
  rfl

theorem filterMap_contentIn (xs : List (SourceUnit × Nat)) :
    (xs.filter fun x => x.1.parses).filterMap contentIn = xs.filterMap contentIn := by
  rw [List.filterMap_filter]
  refine List.filterMap_congr fun x _ => ?_
  split
  · rfl
  · rename_i fails
    exact (contentIn_fails fails).symm

theorem renumbers_filter (units : List SourceUnit) :
    Renumbers (places units) (units.filter SourceUnit.parses) units := by
  refine ⟨places_injective units, ?_⟩
  rw [parsed_eq, parsed_eq, ← filterMap_contentIn, filter_zipIdx, List.filterMap_map,
    List.map_filterMap]
  refine List.filterMap_congr fun x _ => ?_
  simp only [Function.comp_apply, contentIn, Option.map_map]
  rfl

theorem typeUnits_filter :
    (typeUnits external (units.filter SourceUnit.parses)).2 =
      checked external (units.filter SourceUnit.parses) := by
  have none : (parseUnits (units.filter SourceUnit.parses)).2 = [] := by
    rw [syntactic_eq]
    refine List.filterMap_eq_nil_iff.mpr fun x here => ?_
    exact syntacticIn_parses (List.mem_filter.mp (List.fst_mem_of_mem_zipIdx here)).2
  rw [typeUnits_checked, none, List.nil_append]

theorem mem_zipIdx_places (here : (unit, number) ∈ (units.filter SourceUnit.parses).zipIdx) :
    (unit, places units number) ∈ units.zipIdx ∧ unit.parses = true := by
  have inside : (unit, places units number) ∈ units.zipIdx.filter (fun x => x.1.parses) := by
    rw [filter_zipIdx]
    exact List.mem_map_of_mem (f := fun x => (x.1, places units x.2)) here
  exact List.mem_filter.mp inside

/-- Only units that can be parsed are looked at after that. -/
theorem parses_of_checked {x : Located} (here : x ∈ checked external units) :
    ∃ unit, (unit, x.1) ∈ units.zipIdx ∧ unit.parses = true := by
  rw [(renumbers_filter units).checked] at here
  obtain ⟨y, inside, rfl⟩ := List.mem_map.mp here
  have small : y.1 < (units.filter SourceUnit.parses).length :=
    number_lt_of_problem (typeUnits_filter ▸ inside)
  exact ⟨_, mem_zipIdx_places (List.mk_mem_zipIdx_iff_getElem?.mpr
    (List.getElem?_eq_getElem small))⟩

theorem problems_of_broken {fault : SyntaxFault} (here : (unit, number) ∈ units.zipIdx)
    (broken : parse unit.text = .error fault) :
    (typeUnits external units).2.filter (·.1 == number) =
      [(number, ⟨fault.line, .syntactic fault.cause⟩)] := by
  have others : (checked external units).filter (·.1 == number) = [] := by
    refine List.filter_eq_nil_iff.mpr fun x reported same => ?_
    obtain ⟨other, isOther, parses⟩ := parses_of_checked reported
    rw [beq_iff_eq.mp same] at isOther
    have both := (List.mk_mem_zipIdx_iff_getElem?.mp isOther).symm.trans
      (List.mk_mem_zipIdx_iff_getElem?.mp here)
    rw [Option.some.inj both, SourceUnit.parses, broken] at parses
    cases parses
  rw [typeUnits_checked, List.filter_append, filter_syntactic here, others, List.append_nil,
    syntacticIn, broken]
  rfl

theorem problems_of_parses (here : (unit, number) ∈ (units.filter SourceUnit.parses).zipIdx) :
    (typeUnits external units).2.filter (·.1 == places units number) =
      ((typeUnits external (units.filter SourceUnit.parses)).2.filter (·.1 == number)).map
        (renumber (places units)) := by
  obtain ⟨inside, parses⟩ := mem_zipIdx_places here
  have numbers : ((fun x : Located => x.1 == places units number) ∘ renumber (places units)) =
      fun x => x.1 == number := by
    funext x
    rw [Function.comp_apply, renumber, Bool.eq_iff_iff, beq_iff_eq, beq_iff_eq]
    exact (places_injective units).eq_iff
  rw [typeUnits_checked, List.filter_append, filter_syntactic inside, syntacticIn_parses parses,
    (renumbers_filter units).checked, typeUnits_filter, List.filter_map, numbers]
  rfl

/-- The part of the diagnostics that is about one unit. -/
structure UnitReport where
  unit : SourceUnit
  diagnostics : List Diagnostic

/-- The diagnostics are about the unit and point into its text. If it cannot be parsed, there is
one. -/
structure UnitReport.Points (r : UnitReport) : Prop where
  named : ∀ d ∈ r.diagnostics, d.unit = r.unit.qualifiedName
  inside : ∀ d ∈ r.diagnostics, 1 ≤ d.line ∧ d.line ≤ 1 + r.unit.text.toList.count '\n'
  broken : ∀ fault, parse r.unit.text = .error fault →
    r.diagnostics = [⟨r.unit.qualifiedName, fault.line, fault.cause.message⟩]

/-- What is reported of each unit. -/
def reportsOf (external : ClassPath) (units : List SourceUnit) : List UnitReport :=
  units.zipIdx.map fun x => ⟨x.1, ((typeUnits external units).2.filter (·.1 == x.2)).map fun p =>
    ⟨x.1.qualifiedName, p.2.line, p.2.cause.message⟩⟩

theorem diagnose_eq : diagnose units (typeUnits external units).2 =
    (reportsOf external units).flatMap (·.diagnostics) := by
  rw [diagnose, reportsOf, List.flatMap_map]

theorem points_of_mem {r : UnitReport} (here : r ∈ reportsOf external units) : r.Points := by
  obtain ⟨⟨unit, number⟩, isUnit, rfl⟩ := List.mem_map.mp here
  constructor
  · intro d reported
    obtain ⟨p, -, rfl⟩ := List.mem_map.mp reported
    rfl
  · intro d reported
    obtain ⟨p, inFilter, rfl⟩ := List.mem_map.mp reported
    obtain ⟨isProblem, same⟩ := List.mem_filter.mp inFilter
    have line := lineOf_of_problem isProblem
    rw [beq_iff_eq.mp same, LineOf, textOf_zipIdx isUnit] at line
    exact line
  · intro fault broken
    simp only [problems_of_broken isUnit broken]
    rfl

/-- The units that can be parsed are reported on as if there were no others. -/
theorem diagnose_filter :
    diagnose (units.filter SourceUnit.parses)
        (typeUnits external (units.filter SourceUnit.parses)).2 =
      ((reportsOf external units).filter (·.unit.parses)).flatMap (·.diagnostics) := by
  have kept : ((fun r : UnitReport => r.unit.parses) ∘ fun x : SourceUnit × Nat =>
      (⟨x.1, ((typeUnits external units).2.filter (·.1 == x.2)).map fun p =>
        ⟨x.1.qualifiedName, p.2.line, p.2.cause.message⟩⟩ : UnitReport)) =
      fun x => x.1.parses := rfl
  rw [diagnose, reportsOf, List.filter_map, kept, filter_zipIdx, List.map_map, List.flatMap_map]
  refine List.flatMap_congr fun x here => ?_
  simp only [Function.comp_apply]
  rw [problems_of_parses here, List.map_map]
  rfl

theorem emitAll_ne_diagnostics {version : ClassFile.Version} {written : List CompiledUnit}
    {classes : List TypedClass} {ds : List Diagnostic} :
    emitAll version written classes ≠ .error (.diagnostics ds) := by
  intro h
  induction classes generalizing written with
  | nil => cases h
  | cons c classes ih =>
    rw [emitAll] at h
    split at h
    · cases h
    · exact ih h

theorem compile_eq_diagnostics {version : ClassFile.Version} {ds : List Diagnostic} :
    compile external units version = .error (.diagnostics ds) ↔
      ds ≠ [] ∧ ds = diagnose units (typeUnits external units).2 := by
  unfold compile
  simp only
  split
  · rename_i none
    rw [none]
    exact ⟨fun h => absurd h emitAll_ne_diagnostics, fun ⟨wrong, same⟩ => absurd same wrong⟩
  · rename_i wrong
    constructor
    · intro h
      obtain rfl := Failure.diagnostics.inj (Except.error.inj h)
      exact ⟨wrong, rfl⟩
    · rintro ⟨-, rfl⟩
      rfl

/-- Compilation refuses units with diagnostics if there are any. They come unit after unit, each
with the name of its unit and on a line of its text; a unit that cannot be parsed has one; and those
of the others are the diagnostics of a compilation without the units that cannot be parsed. -/
theorem compile_diagnostics (external : ClassPath) (units : List SourceUnit)
    (version : ClassFile.Version) :
    ∃ reports : List UnitReport, reports.map (·.unit) = units ∧ (∀ r ∈ reports, r.Points) ∧
      (∀ ds, compile external units version = .error (.diagnostics ds) ↔
        ds ≠ [] ∧ ds = reports.flatMap (·.diagnostics)) ∧
      ∀ ds, compile external (units.filter SourceUnit.parses) version =
          .error (.diagnostics ds) ↔
        ds ≠ [] ∧ ds = (reports.filter (·.unit.parses)).flatMap (·.diagnostics) := by
  refine ⟨reportsOf external units, ?_, fun r here => points_of_mem here, fun ds => ?_,
    fun ds => ?_⟩
  · rw [reportsOf, List.map_map]
    exact List.zipIdx_map_fst 0 units
  · rw [compile_eq_diagnostics, diagnose_eq]
  · rw [compile_eq_diagnostics, diagnose_filter]

end Reports

end JavaSnippet.Compile
