import JavaSnippet.Proofs.Compile.Stages
import JavaSnippet.Proofs.Typing.ProblemLines
/-!
The lines of problems in several units. Each stage reports a problem under the number of the unit
whose tree the line was taken from.
-/
namespace JavaSnippet.Compile

open Typing Source

variable {P : Nat → Prop}

section Declarations

theorem line_of_placement {decl : ClassDecl} (here : P decl.line) (around : List ClassName) :
    ∀ problem ∈ placement decl around, P problem.line := by
  unfold placement
  split
  · split
    · exact List.forall_mem_singleton.mpr here
    · exact List.forall_mem_nil _
  · split
    · exact List.forall_mem_nil _
    · exact List.forall_mem_singleton.mpr here

/-- Classes of a tree whose lines have a property, and problems on such lines. -/
structure OnLines (P : Nat → Prop) (found : List Declared × List Located) : Prop where
  classes : ∀ d ∈ found.1, d.decl.On P
  problems : ∀ x ∈ found.2, P x.2.line

theorem OnLines.append {first second : List Declared × List Located} (one : OnLines P first)
    (two : OnLines P second) : OnLines P (first.1 ++ second.1, first.2 ++ second.2) :=
  ⟨List.forall_mem_append.mpr ⟨one.classes, two.classes⟩,
    List.forall_mem_append.mpr ⟨one.problems, two.problems⟩⟩

theorem onLines_fault {number line : Nat} {cause : Cause} (here : P line) :
    OnLines P ([], [(number, ⟨line, cause⟩)]) :=
  ⟨List.forall_mem_nil _, List.forall_mem_singleton.mpr here⟩

mutual

theorem onLines_declare (number : Nat) : ∀ (decl : ClassDecl) (around : List ClassName)
    (name : ClassName), decl.On P → OnLines P (declare number around name decl)
  | .mk simple modifiers methods classes line, around, name, on => by
    obtain ⟨members, inner, here⟩ := on
    have nested := onLines_declareNested number classes (around ++ [name]) name inner
    have itself : OnLines P ([⟨number, .mk simple modifiers methods classes line, around, name⟩],
        (placement (.mk simple modifiers methods classes line) around).map (number, ·)) :=
      ⟨List.forall_mem_singleton.mpr (.mk members inner here),
        List.forall_mem_map.mpr (line_of_placement here around)⟩
    rw [declare]
    exact itself.append nested

theorem onLines_declareNested (number : Nat) : ∀ (decls : List ClassDecl)
    (around : List ClassName) (outer : ClassName), (∀ c ∈ decls, c.On P) →
      OnLines P (declareNested number around outer decls)
  | [], around, outer, _ => by
    rw [declareNested]
    exact ⟨List.forall_mem_nil _, List.forall_mem_nil _⟩
  | .mk simple modifiers methods classes line :: rest, around, outer, on => by
    obtain ⟨first, others⟩ := List.forall_mem_cons.mp on
    have later := onLines_declareNested number rest around outer others
    rw [declareNested]
    cases named : SimpleName.ofString simple with
    | error fault => exact (onLines_fault first.line).append later
    | ok inner => exact (onLines_declare number _ around (outer.nested inner) first).append later

end

theorem onLines_declareUnit (number : Nat) {parsed : CompilationUnit} (on : parsed.On P) :
    OnLines P (declareUnit number parsed) := by
  constructor
  · intro d here
    obtain ⟨part, inParts, inPart⟩ := List.mem_flatMap.mp here
    obtain ⟨decl, isClass, rfl⟩ := List.mem_map.mp inParts
    cases named : ClassName.ofString (qualify (packageOf parsed) decl.name) with
    | error fault =>
      rw [named] at inPart
      cases inPart
    | ok name =>
      rw [named] at inPart
      exact (onLines_declare number decl [] name (on.classes decl isClass)).classes d inPart
  · intro x here
    obtain ⟨part, inParts, inPart⟩ := List.mem_flatMap.mp here
    obtain ⟨decl, isClass, rfl⟩ := List.mem_map.mp inParts
    have first := on.classes decl isClass
    cases named : ClassName.ofString (qualify (packageOf parsed) decl.name) with
    | error fault =>
      rw [named] at inPart
      exact (onLines_fault first.line).problems x inPart
    | ok name =>
      rw [named] at inPart
      exact (onLines_declare number decl [] name first).problems x inPart

end Declarations

section Heads

theorem line_of_add {scope : TypeScope} {d : Declared} {heads : Heads} {m : MethodDecl}
    (on : m.On P) (known : ∀ problem ∈ heads.problems, P problem.line) :
    ∀ problem ∈ (heads.add scope d m).problems, P problem.line := by
  unfold Heads.add
  split
  · exact List.forall_mem_cons.mpr ⟨on.line, known⟩
  split
  · rename_i problem failed
    exact List.forall_mem_cons.mpr ⟨TypeScope.reports_signature on _ problem failed, known⟩
  split
  · exact List.forall_mem_cons.mpr ⟨on.line, known⟩
  · exact known

theorem line_of_headsOf {scope : TypeScope} {d : Declared} (on : d.decl.On P) :
    ∀ problem ∈ (headsOf scope d).problems, P problem.line := by
  have start : ∀ problem ∈ (⟨[], []⟩ : Heads).problems, P problem.line := List.forall_mem_nil _
  have methods := on.methods
  unfold headsOf
  revert start
  generalize d.decl.methods = ms at methods
  generalize (⟨[], []⟩ : Heads) = heads
  intro known
  induction ms generalizing heads with
  | nil => exact known
  | cons m ms ih =>
    obtain ⟨first, others⟩ := List.forall_mem_cons.mp methods
    exact ih others _ (line_of_add first known)

theorem line_of_signature {scope : TypeScope} {m : MethodDecl} {enclosing : List ClassName}
    {s : Signature} (h : scope.signature m enclosing = .ok s) : s.line = m.line := by
  obtain ⟨parameters, -, rest⟩ := except_bind_eq_ok.mp h
  obtain ⟨result, -, made⟩ := except_bind_eq_ok.mp rest
  rw [← Except.ok.inj made]

theorem line_of_typeClass {scope : TypeScope} {all : List Declared} {file : String} {r : Resolved}
    (on : r.declared.decl.On P) {heads : TypeScope}
    (areHeads : ∀ head ∈ r.methods, IsHead heads r.declared head) :
    ∀ x ∈ (typeClass scope all file r).2, x.1 = r.declared.unit ∧ P x.2.line := by
  intro x here
  obtain ⟨body, isBody, inBody⟩ := List.mem_flatMap.mp here
  obtain ⟨problem, reported, rfl⟩ := List.mem_map.mp inBody
  obtain ⟨m, isMethod, rfl⟩ := List.mem_map.mp isBody
  obtain ⟨inDecl, -, resolved⟩ := areHeads m isMethod
  have method := on.methods m.2 inDecl
  have head : P m.1.line := by
    rw [line_of_signature resolved]
    exact method.line
  exact ⟨rfl, MethodContext.line_of_body method.body head problem reported⟩

end Heads

section Units

variable {external : ClassPath} {units : List SourceUnit}

/-- The text of a unit. There is none behind the last. -/
def textOf (units : List SourceUnit) (number : Nat) : String :=
  ((units[number]?).map SourceUnit.text).getD ""

/-- The line is one of the unit of this number. -/
def LineOf (units : List SourceUnit) (number : Nat) : Nat → Prop :=
  IsLine (lastLine (textOf units number))

theorem textOf_zipIdx {unit : SourceUnit} {number : Nat} (here : (unit, number) ∈ units.zipIdx) :
    textOf units number = unit.text := by
  have found : units[number]? = some unit := List.mk_mem_zipIdx_iff_getElem?.mp here
  rw [textOf, found]
  rfl

theorem lineOf_of_parsed {x : Parsed} (here : x ∈ (parseUnits units).1) :
    x.2.On (LineOf units x.1) := by
  obtain ⟨unit, inUnits, read⟩ := exists_of_parsed here
  have parsed := isLine_of_parse unit.text
  rw [read, ← textOf_zipIdx inUnits] at parsed
  exact parsed

theorem lineOf_of_declared {x : Parsed} (here : x ∈ (parseUnits units).1) {d : Declared}
    (declared : d ∈ (declareUnit x.1 x.2).1) : d.decl.On (LineOf units d.unit) := by
  rw [number_of_declared declared]
  exact (onLines_declareUnit x.1 (lineOf_of_parsed here)).classes d declared

theorem lineOf_of_declaredIn {d : Declared} (here : d ∈ declaredIn units) :
    d.decl.On (LineOf units d.unit) := by
  obtain ⟨x, isParsed, declared⟩ := exists_of_declaredIn here
  exact lineOf_of_declared isParsed declared

/-- Every problem is on a line of its unit. -/
theorem lineOf_of_problem {x : Located} (here : x ∈ (typeUnits external units).2) :
    LineOf units x.1 x.2.line := by
  cases arises_of_problem here with
  | @syntactic unit number fault inUnits failed =>
    have line := isLine_of_parse unit.text
    rw [failed, ← textOf_zipIdx inUnits] at line
    exact line
  | @misplaced parsed x isParsed found =>
    rw [number_of_misplaced found]
    exact (onLines_declareUnit parsed.1 (lineOf_of_parsed isParsed)).problems x found
  | duplicate isParsed declared line =>
    rw [line]
    exact (lineOf_of_declared isParsed declared).line
  | imported isParsed found =>
    exact TypeScope.line_of_build (lineOf_of_parsed isParsed) _ found
  | head declared found => exact line_of_headsOf (lineOf_of_declaredIn declared) _ found
  | body resolved found =>
    obtain ⟨declared, heads, areHeads⟩ := isResolved_of_mem resolved
    obtain ⟨number, line⟩ := line_of_typeClass (lineOf_of_declaredIn declared) areHeads x found
    rw [number]
    exact line

end Units

end JavaSnippet.Compile
