import JavaSnippet.Proofs.Fallible
import JavaSnippet.Proofs.Source.TreeLines
import JavaSnippet.Proofs.Typing.Variables
/-!
The lines of problems. Typing reports a problem on the line of a node it was given, or of the head
of the method, so problems lie where the tree does.
-/
namespace JavaSnippet.Typing

open Source

variable {α β : Type} {P : Nat → Prop}

/-- A failure is reported on a line with a property. -/
def Reports (P : Nat → Prop) (x : Except Problem α) : Prop :=
  ∀ problem, x = .error problem → P problem.line

theorem reports_ok (a : α) : Reports P (.ok a : Except Problem α) := nofun

theorem reports_error {problem : Problem} (h : P problem.line) :
    Reports P (.error problem : Except Problem α) := by
  intro other failed
  rwa [← Except.error.inj failed]

theorem reports_reportAt {line : Nat} {cause : Cause} (h : P line) :
    Reports P (reportAt line cause : Except Problem α) :=
  reports_error h

theorem reports_onLine {line : Nat} (h : P line) (result : Except Cause α) :
    Reports P (onLine line result) := by
  cases result with
  | ok a => exact reports_ok a
  | error cause => exact reports_reportAt h

namespace Reports

theorem bind {x : Except Problem α} {f : α → Except Problem β} (first : Reports P x)
    (next : ∀ a, Reports P (f a)) : Reports P (x >>= f) := by
  intro problem failed
  cases x with
  | ok a => exact next a problem failed
  | error other =>
    obtain rfl : other = problem := Except.error.inj failed
    exact first other rfl

theorem map {x : Except Problem α} (h : Reports P x) (f : α → β) : Reports P (x.map f) := by
  intro problem failed
  cases x with
  | ok a => cases failed
  | error other =>
    obtain rfl : other = problem := Except.error.inj failed
    exact h other rfl

theorem mapM {f : α → Except Problem β} {as : List α} (h : ∀ a ∈ as, Reports P (f a)) :
    Reports P (as.mapM f) := by
  intro problem failed
  obtain ⟨a, here, fails⟩ := except_mapM_error failed
  exact h a here problem fails

end Reports

namespace Place

variable (place : Place)

theorem reports_used {line : Nat} (h : P line) (t : Term) : Reports P (used line t) := by
  unfold used
  split
  · exact reports_reportAt h
  · exact reports_ok t

theorem reports_classReceiver {e : Expr} (h : P e.line) : Reports P (place.classReceiver e) := by
  unfold classReceiver
  split
  · exact reports_ok none
  split
  · exact reports_ok _
  split
  · exact reports_reportAt h
  · exact reports_reportAt h

mutual

theorem reports_expression : ∀ e : Expr, e.On P → Reports P (place.expression e)
  | .int value line, .int here => by
    rw [expression]
    exact reports_onLine here _
  | .long value line, .long here => by
    rw [expression]
    exact reports_onLine here _
  | .string text line, _ => by
    rw [expression]
    exact reports_ok _
  | .bool value line, _ => by
    rw [expression]
    exact reports_ok _
  | .null line, _ => by
    rw [expression]
    exact reports_ok _
  | .name text line, .name here => by
    rw [expression]
    exact reports_onLine here _
  | .select qualifier member line, .select inner here => by
    rw [expression]
    split
    · exact reports_reportAt here
    · exact (reports_expression qualifier inner).bind fun t => (reports_used inner.line t).bind
        fun _ => reports_reportAt here
  | .neg operand line, .neg inner here => by
    rw [expression]
    exact (reports_expression operand inner).bind fun t => (reports_used inner.line t).bind
      fun _ => reports_onLine here _
  | .binary op left right line, .binary first second here => by
    rw [expression]
    exact (reports_expression left first).bind fun l => (reports_used first.line l).bind fun _ =>
      (reports_expression right second).bind fun r => (reports_used second.line r).bind fun _ =>
        reports_onLine here _
  | .call method args line, .call inner here => by
    rw [expression]
    exact (reports_expressions args inner).bind fun _ => reports_onLine here _
  | .callOn receiver method args line, .callOn subject inner here => by
    rw [expression]
    refine (place.reports_classReceiver subject.line).bind fun owner =>
      (reports_expressions args inner).bind fun passed => ?_
    cases owner with
    | some owner => exact reports_onLine here _
    | none =>
      exact (reports_expression receiver subject).bind fun t =>
        (reports_used subject.line t).bind fun _ => reports_onLine here _
  | .create type args line, .create named inner here => by
    rw [expression]
    exact (reports_onLine here _).bind fun _ => (reports_expressions args inner).bind fun _ =>
      reports_onLine here _

theorem reports_expressions : ∀ es : List Expr, (∀ e ∈ es, e.On P) →
    Reports P (place.expressions es)
  | [], _ => by
    rw [expressions]
    exact reports_ok []
  | e :: rest, on => by
    obtain ⟨first, others⟩ := List.forall_mem_cons.mp on
    rw [expressions]
    exact (reports_expression e first).bind fun t => (reports_used first.line t).bind fun _ =>
      (reports_expressions rest others).bind fun _ => reports_ok _

end

theorem reports_value {e : Expr} (on : e.On P) : Reports P (place.value e) :=
  (place.reports_expression e on).bind fun t => reports_used on.line t

theorem reports_assigned {e : Expr} (on : e.On P) (wanted : FieldType) :
    Reports P (place.assigned e wanted) :=
  (place.reports_value on).bind fun _ => reports_onLine on.line _

end Place

namespace MethodContext

variable {c : MethodContext}

theorem reports_declaration {v : Variables} {type : TypeName} {name : String} {isFinal : Bool}
    {value : Option Expr} {line : Nat} (named : P type.line) (inner : OnValue P value)
    (here : P line) : Reports P (c.declaration v type name isFinal value line).1 := by
  unfold declaration
  split
  · exact reports_reportAt here
  split
  · rename_i problem failed
    exact reports_error (reports_onLine named _ problem failed)
  split
  · exact reports_ok _
  · rename_i e
    simp only
    split
    · rename_i problem failed
      exact reports_error (Place.reports_assigned _ (inner e rfl) _ problem failed)
    · exact reports_ok _

theorem reports_assignment {v : Variables} {name : String} {value : Expr} {line : Nat}
    (inner : value.On P) (here : P line) :
    Reports P (c.assignment v name value line).1 := by
  unfold assignment
  split
  · exact reports_reportAt here
  split
  · exact reports_reportAt here
  split
  · rename_i problem failed
    exact reports_error (Place.reports_assigned _ inner _ problem failed)
  · exact reports_ok _

theorem reports_returning {v : Variables} {value : Option Expr} {line : Nat}
    (inner : OnValue P value) (here : P line) : Reports P (c.returning v value line) := by
  unfold returning
  split
  · exact reports_ok _
  · exact reports_reportAt here
  · exact reports_reportAt here
  · exact (Place.reports_assigned _ (inner _ rfl) _).bind fun _ => reports_ok _

theorem reports_throwing {v : Variables} {value : Expr} (inner : value.On P) :
    Reports P (c.throwing v value) := by
  refine (Place.reports_value _ inner).bind fun t => ?_
  split
  · exact reports_ok _
  · exact reports_reportAt inner.line

theorem reports_statement {st : Stmt} (on : st.On P) (v : Variables) :
    Reports P (c.statement v st).1 := by
  cases on with
  | declare named inner here => exact reports_declaration named inner here
  | assign inner here => exact reports_assignment inner here
  | returns inner here => exact reports_returning inner here
  | throws inner here => exact reports_throwing inner
  | expr inner => exact (Place.reports_expression _ _ inner).map _

theorem line_of_step {st : Stmt} (on : st.On P) {p : Progress}
    (known : ∀ problem ∈ p.problems, P problem.line) :
    ∀ problem ∈ (c.step p st).problems, P problem.line := by
  unfold step
  split
  · exact known
  · rename_i problem failed
    exact List.forall_mem_cons.mpr ⟨reports_statement on p.vars problem failed, known⟩

theorem line_of_statements {stmts : List Stmt} (on : ∀ st ∈ stmts, st.On P) {p : Progress}
    (known : ∀ problem ∈ p.problems, P problem.line) :
    ∀ problem ∈ (c.statements p stmts).1.problems, P problem.line := by
  induction stmts generalizing p with
  | nil => exact known
  | cons st stmts ih =>
    obtain ⟨first, others⟩ := List.forall_mem_cons.mp on
    have next := line_of_step (c := c) first known
    rw [statements_cons]
    split
    · split
      · exact next
      · rename_i after rest
        exact List.forall_mem_cons.mpr ⟨(others after List.mem_cons_self).line, next⟩
    · exact ih others next

/-- Problems in a body are on lines of the body or on that of the head. -/
theorem line_of_body {stmts : List Stmt} (on : ∀ st ∈ stmts, st.On P) (here : P c.signature.line) :
    ∀ problem ∈ (c.body stmts).2, P problem.line := by
  intro problem reported
  rcases List.mem_append.mp reported with inside | missing
  · exact line_of_statements on (List.forall_mem_nil _) problem (List.mem_reverse.mp inside)
  · split at missing
    · rw [List.mem_singleton.mp missing]
      exact here
    · cases missing

end MethodContext

namespace TypeScope

variable {scope : TypeScope}

theorem reports_signature {m : MethodDecl} (on : m.On P) (enclosing : List ClassName) :
    Reports P (scope.signature m enclosing) := by
  refine (Reports.mapM fun p here => reports_onLine (on.parameters p here).line _).bind
    fun _ => ?_
  refine Reports.bind ?_ fun _ => reports_ok _
  cases isResult : m.result with
  | none => exact reports_ok none
  | some type => exact (reports_onLine (on.result type isResult) _).bind fun _ => reports_ok _

theorem line_of_addImport {i : Import} (here : P i.line) {state : TypeScope × List Problem}
    (known : ∀ problem ∈ state.2, P problem.line) :
    ∀ problem ∈ (addImport state i).2, P problem.line := by
  unfold addImport
  simp only
  split
  · exact known
  split
  · exact known
  · intro problem reported
    rcases List.mem_append.mp reported with old | new
    · exact known problem old
    · rw [List.mem_singleton.mp new]
      exact here

theorem line_of_build {path : ClassPath} {unit : CompilationUnit} (on : unit.On P) :
    ∀ problem ∈ (build path unit).2, P problem.line := by
  unfold build
  have imports := on.imports
  generalize unit.imports = is at imports
  have start : ∀ problem ∈ (ofUnit path unit, ([] : List Problem)).2, P problem.line :=
    List.forall_mem_nil _
  revert start
  generalize (ofUnit path unit, ([] : List Problem)) = state
  intro known
  induction is generalizing state with
  | nil => exact known
  | cons i is ih =>
    obtain ⟨first, others⟩ := List.forall_mem_cons.mp imports
    exact ih others _ (line_of_addImport first known)

end TypeScope

end JavaSnippet.Typing
