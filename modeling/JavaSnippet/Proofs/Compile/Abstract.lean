import JavaSnippet.Proofs.Compile.Emission
import JavaSnippet.Proofs.Compile.Stages
/-!
The modifier `abstract` of classes. It has no influence on what is accepted and on the code of any
method: units that differ only in which of their classes are abstract are typed alike.
-/
namespace JavaSnippet.Source

def Modifiers.concrete (m : Modifiers) : Modifiers := { m with isAbstract := false }

mutual

/-- The class as if neither it nor a class inside it were abstract. -/
def ClassDecl.concrete : ClassDecl → ClassDecl
  | .mk name modifiers methods classes line =>
    .mk name modifiers.concrete methods (ClassDecl.concreteAll classes) line

def ClassDecl.concreteAll : List ClassDecl → List ClassDecl
  | [] => []
  | .mk name modifiers methods classes line :: rest =>
    (ClassDecl.mk name modifiers methods classes line).concrete :: ClassDecl.concreteAll rest

end

def CompilationUnit.concrete (unit : CompilationUnit) : CompilationUnit :=
  { unit with classes := unit.classes.map ClassDecl.concrete }

theorem ClassDecl.name_concrete (decl : ClassDecl) : decl.concrete.name = decl.name := by
  cases decl
  rfl

theorem ClassDecl.line_concrete (decl : ClassDecl) : decl.concrete.line = decl.line := by
  cases decl
  rfl

end JavaSnippet.Source

namespace JavaSnippet.Compile

open Typing Source

def Declared.concrete (d : Declared) : Declared := { d with decl := d.decl.concrete }

section Declarations

mutual

theorem declare_concrete : ∀ (decl : ClassDecl) (unit : Nat) (around : List ClassName)
    (name : ClassName), declare unit around name decl.concrete =
      ((declare unit around name decl).1.map Declared.concrete,
        (declare unit around name decl).2)
  | .mk simple modifiers methods classes line, unit, around, name => by
    rw [ClassDecl.concrete, declare, declare,
      declareNested_concrete classes unit (around ++ [name]) name]
    rfl

theorem declareNested_concrete : ∀ (decls : List ClassDecl) (unit : Nat)
    (around : List ClassName) (outer : ClassName),
    declareNested unit around outer (ClassDecl.concreteAll decls) =
      ((declareNested unit around outer decls).1.map Declared.concrete,
        (declareNested unit around outer decls).2)
  | [], unit, around, outer => rfl
  | .mk simple modifiers methods classes line :: rest, unit, around, outer => by
    rw [ClassDecl.concreteAll, ClassDecl.concrete, declareNested, declareNested,
      declareNested_concrete rest unit around outer, ← ClassDecl.concrete]
    cases SimpleName.ofString simple with
    | error fault => simp
    | ok inner =>
      simp only [declare_concrete _ unit around (outer.nested inner), List.map_append]

end

theorem declareUnit_concrete (number : Nat) (content : CompilationUnit) :
    declareUnit number content.concrete =
      ((declareUnit number content).1.map Declared.concrete, (declareUnit number content).2) := by
  have package : packageOf content.concrete = packageOf content := rfl
  unfold declareUnit
  rw [package]
  simp only [CompilationUnit.concrete, List.map_flatMap, List.flatMap_map]
  refine Prod.ext ?_ ?_
  · refine List.flatMap_congr fun decl _ => ?_
    rw [ClassDecl.name_concrete]
    cases ClassName.ofString (qualify (packageOf content) decl.name) with
    | error fault => rfl
    | ok name => exact congrArg Prod.fst (declare_concrete decl number [] name)
  · refine List.flatMap_congr fun decl _ => ?_
    rw [ClassDecl.name_concrete, ClassDecl.line_concrete]
    cases ClassName.ofString (qualify (packageOf content) decl.name) with
    | error fault => rfl
    | ok name =>
      show (declare number [] name decl.concrete).2 = _
      rw [declare_concrete]

end Declarations

section Scopes

theorem build_concrete (stubs : ClassPath) (content : CompilationUnit) :
    TypeScope.build stubs content.concrete = TypeScope.build stubs content := by
  have start : TypeScope.ofUnit stubs content.concrete = TypeScope.ofUnit stubs content := by
    unfold TypeScope.ofUnit CompilationUnit.concrete
    simp only [List.filterMap_map, Function.comp_def, ClassDecl.name_concrete]
    rfl
  unfold TypeScope.build
  rw [start]
  rfl

theorem headsOf_concrete (scope : TypeScope) (d : Declared) :
    headsOf scope d.concrete = headsOf scope d := by
  obtain ⟨unit, ⟨simple, modifiers, methods, classes, line⟩, around, name⟩ := d
  rfl

end Scopes

/-- Units that can be read, and that differ at most in which of their classes are abstract. -/
structure SourceUnit.AlikeButAbstract (a b : SourceUnit) : Prop where
  parses : ∃ parsed, parse a.text = .ok parsed
  otherParses : ∃ parsed, parse b.text = .ok parsed
  content : a.content.concrete = b.content.concrete

section Alike

variable {a b : SourceUnit} {stubs path external : ClassPath} {units others : List SourceUnit}

theorem flatMap_eq_of_forall₂ {α β γ : Type} {R : α → β → Prop} {f : α → List γ} {g : β → List γ}
    (same : ∀ x y, R x y → f x = g y) {xs : List α} {ys : List β} (h : List.Forall₂ R xs ys) :
    xs.flatMap f = ys.flatMap g := by
  have each : List.Forall₂ Eq (xs.flatMap f) (ys.flatMap g) :=
    List.rel_flatMap h fun x y related => List.forall₂_eq_eq_eq ▸ same x y related
  exact List.forall₂_eq_eq_eq ▸ each

namespace SourceUnit.AlikeButAbstract

theorem declareUnit_eq (h : a.AlikeButAbstract b) :
    (a.classes.map Declared.concrete, (declareUnit 0 a.content).2) =
      (b.classes.map Declared.concrete, (declareUnit 0 b.content).2) := by
  have same := congrArg (declareUnit 0) h.content
  rwa [declareUnit_concrete, declareUnit_concrete] at same

theorem classes (h : a.AlikeButAbstract b) :
    a.classes.map Declared.concrete = b.classes.map Declared.concrete :=
  congrArg Prod.fst h.declareUnit_eq

theorem build_eq (h : a.AlikeButAbstract b) :
    TypeScope.build stubs a.content = TypeScope.build stubs b.content := by
  rw [← build_concrete stubs a.content, h.content, build_concrete]

/-- What does not depend on which classes are abstract is the same of the classes of both. -/
theorem map_classes (h : a.AlikeButAbstract b) {γ : Type} {f : Declared → γ}
    (free : ∀ d, f d.concrete = f d) : a.classes.map f = b.classes.map f := by
  have same : f = f ∘ Declared.concrete := funext fun d => (free d).symm
  rw [same, ← List.map_map, ← List.map_map, h.classes]

theorem scope (h : a.AlikeButAbstract b) : a.scope stubs = b.scope stubs :=
  congrArg Prod.fst h.build_eq

theorem map_heads (h : a.AlikeButAbstract b) {γ : Type} {f : Declared × Heads → γ}
    (free : ∀ d heads, f (d.concrete, heads) = f (d, heads)) :
    (a.heads stubs).map f = (b.heads stubs).map f := by
  unfold SourceUnit.heads
  rw [h.scope, List.map_map, List.map_map]
  refine h.map_classes fun d => ?_
  simp only [Function.comp_apply, headsOf_concrete, free]

/-- The bodies of a class are typed without a look at the classes around or at its modifiers. -/
theorem map_typed (h : a.AlikeButAbstract b) (stubs path : ClassPath) :
    (a.typed stubs path).map (fun x => (x.1.name, x.1.methods, x.2)) =
      (b.typed stubs path).map fun x => (x.1.name, x.1.methods, x.2) := by
  let parts (all : List Declared) (file : String) (x : Declared × Heads) :=
    let typed := typeClass ((a.scope stubs).withPath path) all file ⟨x.1, x.2.found.reverse⟩
    (typed.1.name, typed.1.methods, typed.2)
  have every (all : List Declared) (file : String) : parts all file = parts [] "" := rfl
  have first : (a.typed stubs path).map (fun x => (x.1.name, x.1.methods, x.2)) =
      (a.heads stubs).map (parts a.classes a.fileName) := by
    simp only [SourceUnit.typed, SourceUnit.resolved, List.map_map]
    rfl
  have second : (b.typed stubs path).map (fun x => (x.1.name, x.1.methods, x.2)) =
      (b.heads stubs).map (parts b.classes b.fileName) := by
    simp only [SourceUnit.typed, SourceUnit.resolved, List.map_map, parts, h.scope]
    rfl
  rw [first, second, every, every b.classes]
  exact h.map_heads fun _ _ => rfl

theorem map_data (h : a.AlikeButAbstract b) :
    (a.resolved stubs).map Resolved.data = (b.resolved stubs).map Resolved.data := by
  unfold SourceUnit.resolved
  rw [List.map_map, List.map_map]
  exact h.map_heads fun _ _ => rfl

theorem clean (h : a.AlikeButAbstract b) (clean : a.Clean stubs path) : b.Clean stubs path where
  parses := h.otherParses
  placed := (congrArg Prod.snd h.declareUnit_eq).symm.trans clean.placed
  imports := by
    rw [← h.build_eq]
    exact clean.imports
  heads := by
    have same : (a.heads stubs).map (·.2.problems) = (b.heads stubs).map (·.2.problems) :=
      h.map_heads fun _ _ => rfl
    have none : ∀ problems ∈ (a.heads stubs).map (·.2.problems), problems = [] :=
      List.forall_mem_map.mpr clean.heads
    rw [same] at none
    exact List.forall_mem_map.mp none
  bodies := by
    have same : (a.typed stubs path).map (·.2) = (b.typed stubs path).map (·.2) := by
      have parts := congrArg (List.map fun x => x.2.2) (h.map_typed stubs path)
      rwa [List.map_map, List.map_map] at parts
    have none : ∀ problems ∈ (a.typed stubs path).map (·.2), problems = [] :=
      List.forall_mem_map.mpr clean.bodies
    rw [same] at none
    exact List.forall_mem_map.mp none

end SourceUnit.AlikeButAbstract

open SourceUnit (AlikeButAbstract)

theorem stubsOf_alike (h : List.Forall₂ AlikeButAbstract units others) :
    stubsOf external units = stubsOf external others := by
  unfold stubsOf
  rw [List.map_flatMap, List.map_flatMap,
    flatMap_eq_of_forall₂ (fun _ _ alike => alike.map_classes fun _ => rfl) h]

theorem pathOf_alike (h : List.Forall₂ AlikeButAbstract units others) :
    pathOf external units = pathOf external others := by
  unfold pathOf dataOf
  rw [stubsOf_alike h, List.map_flatMap, List.map_flatMap,
    flatMap_eq_of_forall₂ (fun _ _ alike => alike.map_data) h]

/-- Whether units are accepted does not depend on which of their classes are abstract. -/
theorem Accepts.alike (accepts : Accepts external units)
    (h : List.Forall₂ AlikeButAbstract units others) : Accepts external others := by
  have names : (units.flatMap SourceUnit.classes).map (·.name) =
      (others.flatMap SourceUnit.classes).map (·.name) := by
    rw [List.map_flatMap, List.map_flatMap]
    exact flatMap_eq_of_forall₂ (fun _ _ alike => alike.map_classes fun _ => rfl) h
  refine ⟨names ▸ accepts.unique, fun b here => ?_⟩
  obtain ⟨a, isUnit, alike⟩ := exists_of_forall₂ h here
  rw [← stubsOf_alike h, ← pathOf_alike h]
  exact alike.clean (accepts.clean a isUnit)

/-- Neither does the code of any method. -/
theorem typedOf_alike (h : List.Forall₂ AlikeButAbstract units others) :
    (typedOf external units).map (fun c => (c.name, c.methods)) =
      (typedOf external others).map fun c => (c.name, c.methods) := by
  have each : ∀ a b, AlikeButAbstract a b →
      (a.typed (stubsOf external others) (pathOf external others)).map
          (fun x => (x.1.name, x.1.methods)) =
        (b.typed (stubsOf external others) (pathOf external others)).map
          fun x => (x.1.name, x.1.methods) := by
    intro a b alike
    have same := congrArg (List.map fun x => (x.1, x.2.1))
      (alike.map_typed (stubsOf external others) (pathOf external others))
    rwa [List.map_map, List.map_map] at same
  unfold typedOf
  rw [stubsOf_alike h, pathOf_alike h]
  simp only [List.map_map, List.map_flatMap]
  exact flatMap_eq_of_forall₂ each h

end Alike

end JavaSnippet.Compile
