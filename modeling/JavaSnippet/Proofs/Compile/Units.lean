import JavaSnippet.Proofs.Compile.Typed
import JavaSnippet.Proofs.Typing.Alike
import Mathlib.Data.List.Basic
/-!
The units of a compilation one by one. The number of a unit only tells where a problem is, and all
classes inside a class are in its unit.
-/
namespace JavaSnippet.Compile

open Typing Source

/-- The class in a unit of another number. -/
def Declared.at (number : Nat) (d : Declared) : Declared := { d with unit := number }

def Resolved.at (number : Nat) (r : Resolved) : Resolved :=
  { r with declared := r.declared.at number }

/-- The problem in a unit of another number. -/
def relocate (number : Nat) (p : Located) : Located := (number, p.2)

namespace SourceUnit

variable (unit : SourceUnit) (stubs path : ClassPath)

/-- What the text holds. A text that cannot be parsed holds nothing. -/
def content : CompilationUnit :=
  match parse unit.text with
  | .ok parsed => parsed
  | .error _ => ⟨none, [], []⟩

def classes : List Declared := (declareUnit 0 unit.content).1

def scope : TypeScope := (TypeScope.build stubs unit.content).1

def heads : List (Declared × Heads) :=
  unit.classes.map fun d => (d, headsOf (unit.scope stubs) d)

def resolved : List Resolved :=
  (unit.heads stubs).map fun x => ⟨x.1, x.2.found.reverse⟩

def typed : List (TypedClass × List Located) :=
  (unit.resolved stubs).map
    (typeClass ((unit.scope stubs).withPath path) unit.classes unit.fileName)

/-- Nothing is wrong with the unit. -/
structure Clean : Prop where
  parses : ∃ parsed, parse unit.text = .ok parsed
  placed : (declareUnit 0 unit.content).2 = []
  imports : (TypeScope.build stubs unit.content).2 = []
  heads : ∀ x ∈ unit.heads stubs, x.2.problems = []
  bodies : ∀ x ∈ unit.typed stubs path, x.2 = []

end SourceUnit

section Numbers

mutual

theorem declare_at (number : Nat) : ∀ (decl : ClassDecl) (around : List ClassName)
    (name : ClassName), declare number around name decl =
      ((declare 0 around name decl).1.map (Declared.at number),
        (declare 0 around name decl).2.map (relocate number))
  | .mk simple modifiers methods classes line, around, name => by
    rw [declare, declare, declareNested_at number classes (around ++ [name]) name]
    simp only [List.map_cons, List.map_append, List.map_map]
    rfl

theorem declareNested_at (number : Nat) : ∀ (decls : List ClassDecl) (around : List ClassName)
    (outer : ClassName), declareNested number around outer decls =
      ((declareNested 0 around outer decls).1.map (Declared.at number),
        (declareNested 0 around outer decls).2.map (relocate number))
  | [], around, outer => by
    rw [declareNested, declareNested]
    rfl
  | .mk simple modifiers methods classes line :: rest, around, outer => by
    rw [declareNested, declareNested, declareNested_at number rest around outer]
    cases named : SimpleName.ofString simple with
    | error fault =>
      simp only [List.map_append, List.map_nil, List.map_cons]
      rfl
    | ok inner =>
      simp only [declare_at number _ around (outer.nested inner), List.map_append]

end

theorem declareUnit_at (number : Nat) (parsed : CompilationUnit) : declareUnit number parsed =
    ((declareUnit 0 parsed).1.map (Declared.at number),
      (declareUnit 0 parsed).2.map (relocate number)) := by
  unfold declareUnit
  simp only [List.map_flatMap, List.flatMap_map]
  refine Prod.ext ?_ ?_
  · refine List.flatMap_congr fun decl _ => ?_
    cases ClassName.ofString (qualify (packageOf parsed) decl.name) with
    | error fault => rfl
    | ok name => exact congrArg Prod.fst (declare_at number decl [] name)
  · refine List.flatMap_congr fun decl _ => ?_
    cases ClassName.ofString (qualify (packageOf parsed) decl.name) with
    | error fault => rfl
    | ok name => exact congrArg Prod.snd (declare_at number decl [] name)

theorem typeClass_at {scope : TypeScope} {all own : List Declared} {file : String} {r : Resolved}
    {number : Nat}
    (members : (all.filter fun d => d.outer == some r.declared.name).map
        (fun d => (d.name, d.decl.modifiers)) =
      (own.filter fun d => d.outer == some r.declared.name).map
        fun d => (d.name, d.decl.modifiers)) :
    typeClass scope all file (r.at number) =
      ((typeClass scope own file r).1, (typeClass scope own file r).2.map (relocate number)) := by
  have same : (r.at number).declared.name = r.declared.name := rfl
  unfold typeClass
  simp only [List.map_flatMap, List.map_map, same, members]
  rfl

end Numbers

section Enclosing

mutual

/-- The class around a class is the last of those given, or one of the classes that are declared. -/
theorem enclosed_of_declare : ∀ (decl : ClassDecl) {number : Nat} {around : List ClassName}
    {name : ClassName}, ∀ d ∈ (declare number around name decl).1, d.outer = around.getLast? ∨
      ∃ e ∈ (declare number around name decl).1, d.outer = some e.name
  | .mk simple modifiers methods classes line, number, around, name, d, here => by
    rw [declare] at here ⊢
    rcases List.mem_cons.mp here with rfl | inside
    · exact .inl rfl
    · refine .inr ?_
      rcases enclosed_of_declareNested classes d inside with last | ⟨e, isDeclared, outer⟩
      · exact ⟨_, List.mem_cons_self, last.trans (by simp)⟩
      · exact ⟨e, List.mem_cons_of_mem _ isDeclared, outer⟩

theorem enclosed_of_declareNested : ∀ (decls : List ClassDecl) {number : Nat}
    {around : List ClassName} {outer : ClassName},
    ∀ d ∈ (declareNested number around outer decls).1, d.outer = around.getLast? ∨
      ∃ e ∈ (declareNested number around outer decls).1, d.outer = some e.name
  | [], number, around, outer, d, here => by
    rw [declareNested] at here
    cases here
  | .mk simple modifiers methods classes line :: rest, number, around, outer, d, here => by
    rw [declareNested] at here ⊢
    rcases List.mem_append.mp here with first | others
    · cases named : SimpleName.ofString simple with
      | error fault =>
        rw [named] at first
        cases first
      | ok inner =>
        rw [named] at first
        exact (enclosed_of_declare _ d first).imp_right fun ⟨e, isDeclared, outer⟩ =>
          ⟨e, List.mem_append_left _ isDeclared, outer⟩
    · exact (enclosed_of_declareNested rest d others).imp_right fun ⟨e, isDeclared, outer⟩ =>
        ⟨e, List.mem_append_right _ isDeclared, outer⟩

end

theorem enclosed_of_mem {unit : SourceUnit} {d : Declared} (here : d ∈ unit.classes)
    {outer : ClassName} (isOuter : d.outer = some outer) :
    outer ∈ unit.classes.map (·.name) := by
  unfold SourceUnit.classes declareUnit at here ⊢
  simp only [List.mem_flatMap, List.mem_map] at here
  obtain ⟨part, ⟨decl, isClass, rfl⟩, inPart⟩ := here
  cases named : ClassName.ofString (qualify (packageOf unit.content) decl.name) with
  | error fault =>
    rw [named] at inPart
    cases inPart
  | ok name =>
    rw [named] at inPart
    rcases enclosed_of_declare decl d inPart with last | ⟨e, isDeclared, same⟩
    · rw [isOuter] at last
      cases last
    · obtain rfl := Option.some.inj (isOuter.symm.trans same)
      refine List.mem_map_of_mem (List.mem_flatMap.mpr ⟨_, List.mem_map_of_mem isClass, ?_⟩)
      rw [named]
      exact isDeclared

theorem name_mem_flatMap {units : List SourceUnit} {unit : SourceUnit} (here : unit ∈ units)
    {name : ClassName} (own : name ∈ unit.classes.map (·.name)) :
    name ∈ (units.flatMap SourceUnit.classes).map (·.name) := by
  obtain ⟨d, isClass, rfl⟩ := List.mem_map.mp own
  exact List.mem_map_of_mem (List.mem_flatMap.mpr ⟨unit, here, isClass⟩)

/-- No other unit has classes inside a class of this one. -/
theorem members_own {units : List SourceUnit} {unit : SourceUnit}
    (unique : ((units.flatMap SourceUnit.classes).map (·.name)).Nodup) (here : unit ∈ units)
    {name : ClassName} (own : name ∈ unit.classes.map (·.name)) :
    (units.flatMap SourceUnit.classes).filter (fun d => d.outer == some name) =
      unit.classes.filter fun d => d.outer == some name := by
  induction units with
  | nil => cases here
  | cons first units ih =>
    rw [List.flatMap_cons, List.map_append, List.nodup_append] at unique
    obtain ⟨-, others, apart⟩ := unique
    rw [List.flatMap_cons, List.filter_append]
    rcases List.mem_cons.mp here with rfl | later
    · have foreign : (units.flatMap SourceUnit.classes).filter (·.outer == some name) = [] := by
        refine List.filter_eq_nil_iff.mpr fun d isMem same => ?_
        obtain ⟨other, inUnits, isClass⟩ := List.mem_flatMap.mp isMem
        have around := enclosed_of_mem isClass (eq_of_beq same)
        exact apart name own name (name_mem_flatMap inUnits around) rfl
      rw [foreign, List.append_nil]
    · have foreign : first.classes.filter (·.outer == some name) = [] := by
        refine List.filter_eq_nil_iff.mpr fun d isMem same => ?_
        have around := enclosed_of_mem isMem (eq_of_beq same)
        exact apart name around name (name_mem_flatMap later own) rfl
      rw [foreign, List.nil_append, ih others later]

end Enclosing

end JavaSnippet.Compile
