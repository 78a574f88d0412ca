import JavaSnippet.Proofs.Source.TokenLines
import JavaSnippet.Source.Parser
/-!
The lines in syntax trees and syntax faults. A parser takes a line from the next token or from the
end and counts none itself, so all lines in what it gives have every property that those have.
-/
namespace JavaSnippet.Source

/-- All lines in an expression have a property. -/
inductive Expr.On (P : Nat → Prop) : Expr → Prop where
  | int {value : Int} {line : Nat} (here : P line) : On P (.int value line)
  | long {value : Int} {line : Nat} (here : P line) : On P (.long value line)
  | string {text : String} {line : Nat} (here : P line) : On P (.string text line)
  | bool {value : Bool} {line : Nat} (here : P line) : On P (.bool value line)
  | null {line : Nat} (here : P line) : On P (.null line)
  | name {text : String} {line : Nat} (here : P line) : On P (.name text line)
  | select {qualifier : Expr} {member : String} {line : Nat} (inner : On P qualifier)
    (here : P line) : On P (.select qualifier member line)
  | neg {operand : Expr} {line : Nat} (inner : On P operand) (here : P line) :
    On P (.neg operand line)
  | binary {op : ArithOp} {left right : Expr} {line : Nat} (first : On P left)
    (second : On P right) (here : P line) : On P (.binary op left right line)
  | call {method : String} {args : List Expr} {line : Nat} (inner : ∀ e ∈ args, On P e)
    (here : P line) : On P (.call method args line)
  | callOn {receiver : Expr} {method : String} {args : List Expr} {line : Nat}
    (subject : On P receiver) (inner : ∀ e ∈ args, On P e) (here : P line) :
    On P (.callOn receiver method args line)
  | create {type : TypeName} {args : List Expr} {line : Nat} (named : P type.line)
    (inner : ∀ e ∈ args, On P e) (here : P line) : On P (.create type args line)

theorem Expr.On.line {P : Nat → Prop} {e : Expr} (h : e.On P) : P e.line := by
  cases h <;> assumption

/-- All lines in an expression that may be left out have a property. -/
def OnValue (P : Nat → Prop) (value : Option Expr) : Prop := ∀ e, value = some e → e.On P

theorem onValue_none {P : Nat → Prop} : OnValue P none := nofun

/-- All lines in a statement have a property. -/
inductive Stmt.On (P : Nat → Prop) : Stmt → Prop where
  | declare {type : TypeName} {name : String} {isFinal : Bool} {value : Option Expr} {line : Nat}
    (named : P type.line) (inner : OnValue P value) (here : P line) :
    On P (.declare type name isFinal value line)
  | assign {name : String} {value : Expr} {line : Nat} (inner : value.On P) (here : P line) :
    On P (.assign name value line)
  | returns {value : Option Expr} {line : Nat} (inner : OnValue P value)
    (here : P line) : On P (.returns value line)
  | throws {value : Expr} {line : Nat} (inner : value.On P) (here : P line) :
    On P (.throws value line)
  | expr {value : Expr} (inner : value.On P) : On P (.expr value)

theorem Stmt.On.line {P : Nat → Prop} {st : Stmt} (h : st.On P) : P st.line := by
  cases h with
  | expr inner => exact inner.line
  | _ => assumption

/-- Both lines in a parameter have a property. -/
structure Parameter.On (P : Nat → Prop) (p : Parameter) : Prop where
  type : P p.type.line
  line : P p.line

/-- The line of a result type, which `void` methods do not have, has a property. -/
def OnResult (P : Nat → Prop) (result : Option TypeName) : Prop :=
  ∀ type, result = some type → P type.line

/-- All lines in a method have a property. -/
structure MethodDecl.On (P : Nat → Prop) (m : MethodDecl) : Prop where
  result : OnResult P m.result
  parameters : ∀ p ∈ m.parameters, p.On P
  body : ∀ st ∈ m.body, st.On P
  line : P m.line

/-- All lines in a class and in those inside it have a property. -/
inductive ClassDecl.On (P : Nat → Prop) : ClassDecl → Prop where
  | mk {name : String} {modifiers : Modifiers} {methods : List MethodDecl}
    {classes : List ClassDecl} {line : Nat} (members : ∀ m ∈ methods, m.On P)
    (inner : ∀ c ∈ classes, On P c) (here : P line) : On P (.mk name modifiers methods classes line)

namespace ClassDecl.On

variable {P : Nat → Prop} {c : ClassDecl}

theorem line (h : c.On P) : P c.line := by
  cases h with
  | mk members inner here => exact here

theorem methods (h : c.On P) : ∀ m ∈ c.methods, m.On P := by
  cases h with
  | mk members inner here => exact members

end ClassDecl.On

/-- All lines in a unit have a property. -/
structure CompilationUnit.On (P : Nat → Prop) (unit : CompilationUnit) : Prop where
  imports : ∀ i ∈ unit.imports, P i.line
  classes : ∀ c ∈ unit.classes, c.On P

/-- The lines of the tokens and the end have a property. -/
structure Lexemes.On (P : Nat → Prop) (s : Lexemes) : Prop where
  rest : ∀ x ∈ s.rest, P x.line
  endLine : P s.endLine

namespace Parser

variable {α β : Type} {P : Nat → Prop} {Q : α → Prop} {R : β → Prop}

/-- Where the lines of the tokens have a property, that of a fault has it, and what is left after
the parser gives a result has it too. Something may be said of the result then. -/
def Lines (P : Nat → Prop) (Q : α → Prop) (x : Parse α) : Prop :=
  ∀ s : Lexemes, s.On P →
    match x s with
    | .ok (a, t) => t.On P ∧ Q a
    | .error fault => P fault.line

/-- Nothing is said of the result. -/
abbrev Steps (P : Nat → Prop) (x : Parse α) : Prop := Lines P (fun _ => True) x

theorem lines_pure {a : α} (h : Q a) : Lines P Q (pure a) := fun _ on => ⟨on, h⟩

theorem steps_pure (a : α) : Steps P (pure a) := lines_pure trivial

theorem Lines.bind {x : Parse α} {f : α → Parse β} (first : Lines P Q x)
    (next : ∀ a, Q a → Lines P R (f a)) : Lines P R (x >>= f) := by
  intro s on
  have step := first s on
  rw [StateExcept.bind_apply]
  cases made : x s with
  | error fault =>
    rw [made] at step
    exact step
  | ok result =>
    rw [made] at step
    exact next result.1 step.2 result.2 step.1

theorem Lines.then {x : Parse α} {f : α → Parse β} (first : Lines P Q x)
    (next : ∀ a, Lines P R (f a)) : Lines P R (x >>= f) := first.bind fun a _ => next a

/-- A step that is only taken under a condition. -/
theorem Lines.after {c : Prop} [Decidable c] {x : Parse Unit} {f : Unit → Parse β}
    (check : Steps P x) (next : ∀ u, Lines P R (f u)) :
    Lines P R (if c then x >>= f else f ()) := by
  split
  · exact check.then next
  · exact next ()

theorem lines_fail {cause : SyntaxCause} : Lines P Q (fail cause) := by
  intro s on
  unfold fail
  cases left : s.rest with
  | nil => exact on.endLine
  | cons next rest => exact on.rest next (left ▸ List.mem_cons_self)

theorem steps_fail {cause : SyntaxCause} : Steps P (fail cause : Parse α) := lines_fail

theorem steps_failAt {line : Nat} {cause : SyntaxCause} (h : P line) :
    Steps P (failAt line cause : Parse α) := fun _ _ => h

theorem steps_peek : Steps P peek := fun _ on => ⟨on, trivial⟩

theorem steps_get : Steps P (get : Parse Lexemes) := fun _ on => ⟨on, trivial⟩

theorem lines_line : Lines P P line := by
  intro s on
  refine ⟨on, ?_⟩
  cases left : s.rest with
  | nil => exact on.endLine
  | cons next rest => exact on.rest next (left ▸ List.mem_cons_self)

theorem steps_skip : Steps P skip := fun _ on =>
  ⟨⟨fun x here => on.rest x (List.mem_of_mem_drop here), on.endLine⟩, trivial⟩

theorem steps_isNext (token : Token) : Steps P (isNext token) :=
  steps_peek.then fun _ => steps_pure _

theorem steps_eat (token : Token) : Steps P (eat token) := by
  refine (steps_isNext token).then fun next => ?_
  split
  · exact steps_skip.then fun _ => steps_pure _
  · exact steps_pure _

theorem steps_eatPunct (c : Char) : Steps P (eatPunct c) := steps_eat _

theorem steps_eatWord (text : String) : Steps P (eatWord text) := steps_eat _

theorem steps_expect (c : Char) : Steps P (expect c) := by
  refine (steps_eatPunct c).then fun eaten => ?_
  split
  · exact steps_fail
  · exact steps_pure _

theorem steps_identifier : Steps P identifier := by
  refine steps_peek.then fun next => ?_
  split
  · split
    · exact steps_fail
    · exact steps_skip.then fun _ => steps_pure _
  · exact steps_fail

theorem steps_pathFrom (budget : List Lexeme) (path : Path) : Steps P (pathFrom budget path) := by
  induction budget generalizing path with
  | nil =>
    unfold pathFrom
    exact steps_pure _
  | cons x budget ih =>
    unfold pathFrom
    refine steps_get.then fun s => ?_
    split
    · exact steps_skip.then fun _ => steps_identifier.then fun segment => ih _
    · exact steps_pure _

theorem steps_path : Steps P path :=
  steps_identifier.then fun _ => steps_get.then fun _ => steps_pathFrom _ _

theorem steps_dimensionsFrom (budget : List Lexeme) (count : Nat) :
    Steps P (dimensionsFrom budget count) := by
  induction budget generalizing count with
  | nil =>
    unfold dimensionsFrom
    exact steps_pure _
  | cons x budget ih =>
    unfold dimensionsFrom
    refine steps_get.then fun s => ?_
    split
    · exact steps_skip.then fun _ => steps_skip.then fun _ => ih _
    · exact steps_pure _

theorem lines_typeName : Lines P (fun type => P type.line) typeName := by
  refine lines_line.bind fun start here => steps_peek.then fun next => ?_
  have whole : ∀ name : Path, Lines P (fun type => P type.line) (do
      return (⟨name, ← dimensionsFrom (← get).rest 0, start⟩ : TypeName)) := fun name =>
    steps_get.then fun _ => (steps_dimensionsFrom _ _).then fun _ => lines_pure here
  split
  · split
    · exact steps_skip.then fun _ => whole _
    · exact steps_path.then whole
  · exact steps_path.then whole

theorem steps_atDeclaration : Steps P atDeclaration := by
  intro s on
  unfold atDeclaration
  cases (do let _ ← typeName; identifier : Parse String) s with
  | ok result => exact ⟨on, trivial⟩
  | error fault => exact ⟨on, trivial⟩

section Expressions

variable {operator : Token → Option ArithOp} {operand : Parse Expr}

theorem lines_operationsFrom (h : Lines P (Expr.On P) operand) (budget : List Lexeme) {left : Expr}
    (on : left.On P) : Lines P (Expr.On P) (operationsFrom operator operand budget left) := by
  induction budget generalizing left with
  | nil =>
    unfold operationsFrom
    exact lines_pure on
  | cons x budget ih =>
    unfold operationsFrom
    refine steps_peek.then fun next => ?_
    split
    · exact lines_line.bind fun _ here => steps_skip.then fun _ => h.bind fun _ second =>
        ih (.binary on second here)
    · exact lines_pure on

theorem lines_operations (h : Lines P (Expr.On P) operand) :
    Lines P (Expr.On P) (operations operator operand) :=
  h.bind fun _ first => steps_get.then fun _ => lines_operationsFrom h _ first

theorem lines_expressionOf {unary : Parse Expr} (h : Lines P (Expr.On P) unary) :
    Lines P (Expr.On P) (expressionOf unary) :=
  lines_operations (lines_operations h)

variable {expression : Parse Expr}

theorem lines_argumentsFrom (h : Lines P (Expr.On P) expression) (budget : List Lexeme)
    {found : List Expr} (on : ∀ e ∈ found, e.On P) :
    Lines P (fun args => ∀ e ∈ args, e.On P) (argumentsFrom expression budget found) := by
  have closing : ∀ {arg : Expr}, arg.On P → ∀ e ∈ (arg :: found).reverse, e.On P :=
    fun first e here => List.forall_mem_cons.mpr ⟨first, on⟩ e (List.mem_reverse.mp here)
  induction budget generalizing found with
  | nil =>
    unfold argumentsFrom
    refine h.bind fun arg first => (steps_eatPunct _).then fun closed => ?_
    split
    · exact lines_pure (closing first)
    refine (steps_isNext _).then fun more => ?_
    split
    · exact steps_skip.then fun _ => lines_fail
    · exact lines_fail
  | cons x budget ih =>
    unfold argumentsFrom
    refine h.bind fun arg first => (steps_eatPunct _).then fun closed => ?_
    split
    · exact lines_pure (closing first)
    refine (steps_isNext _).then fun more => ?_
    have all : ∀ e ∈ arg :: found, e.On P := List.forall_mem_cons.mpr ⟨first, on⟩
    split
    · exact steps_skip.then fun _ => ih all fun second e here =>
        List.forall_mem_cons.mpr ⟨second, all⟩ e (List.mem_reverse.mp here)
    · exact lines_fail

theorem lines_arguments (h : Lines P (Expr.On P) expression) :
    Lines P (fun args => ∀ e ∈ args, e.On P) (arguments expression) := by
  refine (steps_expect _).then fun _ => (steps_eatPunct _).then fun empty => ?_
  split
  · exact lines_pure (List.forall_mem_nil _)
  · exact steps_get.then fun _ => lines_argumentsFrom h _ (List.forall_mem_nil _)

theorem lines_postfixFrom (h : Lines P (Expr.On P) expression) (budget : List Lexeme)
    {subject : Expr} (on : subject.On P) :
    Lines P (Expr.On P) (postfixFrom expression budget subject) := by
  induction budget generalizing subject with
  | nil =>
    unfold postfixFrom
    exact lines_pure on
  | cons x budget ih =>
    unfold postfixFrom
    refine (steps_isNext _).then fun dot => ?_
    split
    · refine steps_skip.then fun _ => lines_line.bind fun _ here =>
        steps_identifier.then fun member => (steps_isNext _).then fun called => ?_
      split
      · exact (lines_arguments h).bind fun _ args => ih (.callOn on args here)
      · exact ih (.select on here)
    · exact lines_pure on

theorem lines_worded (h : Lines P (Expr.On P) expression) {start : Nat} (here : P start)
    (text : String) : Lines P (Expr.On P) (worded expression start text) := by
  have literal : ∀ {e : Expr}, e.On P → Lines P (Expr.On P) (do skip; return e) := fun on =>
    steps_skip.then fun _ => lines_pure on
  unfold worded
  split
  · exact literal (.bool here)
  · exact literal (.bool here)
  · exact literal (.null here)
  · exact steps_skip.then fun _ => lines_typeName.bind fun _ named =>
      steps_fail.after fun _ => (lines_arguments h).bind fun _ args =>
        lines_pure (.create named args here)
  · split
    · exact lines_fail
    · refine steps_skip.then fun _ => (steps_isNext _).then fun called => ?_
      split
      · exact (lines_arguments h).bind fun _ args => lines_pure (.call args here)
      · exact lines_pure (.name here)

theorem lines_primary (h : Lines P (Expr.On P) expression) :
    Lines P (Expr.On P) (primary expression) := by
  have literal : ∀ {e : Expr}, e.On P → Lines P (Expr.On P) (do skip; return e) := fun on =>
    steps_skip.then fun _ => lines_pure on
  refine lines_line.bind fun start here => steps_peek.then fun next => ?_
  split
  · exact literal (.int here)
  · exact literal (.long here)
  · exact literal (.string here)
  · exact lines_worded h here _
  · split
    · exact steps_skip.then fun _ => h.bind fun _ on => (steps_expect _).then fun _ =>
        lines_pure on
    · exact lines_fail
  · exact lines_fail

theorem lines_signed {unary : Parse Expr} (h : Lines P (Expr.On P) unary) :
    Lines P (Expr.On P) (signed unary) := by
  have postfixed : ∀ subject : Expr, subject.On P → Lines P (Expr.On P) (do
      postfixFrom (expressionOf unary) (← get).rest subject) := fun _ on =>
    steps_get.then fun _ => lines_postfixFrom (lines_expressionOf h) _ on
  unfold signed
  refine lines_line.bind fun start here => (steps_eatPunct _).then fun plus => ?_
  split
  · exact h
  refine (steps_eatPunct _).then fun minus => ?_
  split
  · refine steps_peek.then fun next => ?_
    split
    · exact steps_skip.then fun _ => postfixed _ (.int here)
    · exact steps_skip.then fun _ => postfixed _ (.long here)
    · exact h.bind fun _ on => lines_pure (.neg on here)
  · exact (lines_primary (lines_expressionOf h)).bind postfixed

theorem lines_unary (depth : Nat) : Lines P (Expr.On P) (unary depth) := by
  induction depth with
  | zero => exact lines_fail
  | succ depth ih => exact lines_signed ih

end Expressions

theorem lines_expression : Lines P (Expr.On P) Parser.expression :=
  lines_expressionOf (lines_unary _)

theorem lines_some : Lines P (OnValue P) (some <$> Parser.expression) := by
  rw [map_eq_pure_bind]
  refine lines_expression.bind fun e on => lines_pure fun other same => ?_
  rwa [← Option.some.inj same]

theorem lines_declaration (isFinal : Bool) {start : Nat} (here : P start) :
    Lines P (Stmt.On P) (declaration isFinal start) := by
  refine lines_typeName.bind fun type named => steps_identifier.then fun name =>
    (steps_eatPunct _).then fun filled => ?_
  have whole : ∀ value, OnValue P value → Lines P (Stmt.On P) (do
      expect ';'
      return Stmt.declare type name isFinal value start) := fun _ inner =>
    (steps_expect _).then fun _ => lines_pure (.declare named inner here)
  split
  · exact lines_some.bind whole
  · exact (lines_pure onValue_none).bind whole

theorem lines_assignmentOrCall {start : Nat} (here : P start) :
    Lines P (Stmt.On P) (assignmentOrCall start) := by
  refine steps_get.then fun s => ?_
  split
  · exact steps_skip.then fun _ => steps_skip.then fun _ => lines_expression.bind fun _ inner =>
      (steps_expect _).then fun _ => lines_pure (.assign inner here)
  · exact lines_expression.bind fun value inner =>
      (steps_failAt inner.line).after fun _ => (steps_expect _).then fun _ =>
        lines_pure (.expr inner)

theorem lines_statement : Lines P (Stmt.On P) statement := by
  refine lines_line.bind fun start here => (steps_eatWord _).then fun returns => ?_
  split
  · refine (steps_isNext _).then fun empty => ?_
    have whole : ∀ value, OnValue P value → Lines P (Stmt.On P) (do
        expect ';'
        return Stmt.returns value start) := fun _ inner =>
      (steps_expect _).then fun _ => lines_pure (.returns inner here)
    split
    · exact (lines_pure onValue_none).bind whole
    · exact lines_some.bind whole
  refine (steps_eatWord _).then fun throws => ?_
  split
  · exact lines_expression.bind fun _ inner => (steps_expect _).then fun _ =>
      lines_pure (.throws inner here)
  refine (steps_eatWord _).then fun isFinal => ?_
  split
  · exact lines_declaration _ here
  refine steps_atDeclaration.then fun declares => ?_
  split
  · exact lines_declaration _ here
  · exact lines_assignmentOrCall here

theorem forall_mem_reverse {γ : Type} {p : γ → Prop} {as : List γ} (h : ∀ a ∈ as, p a) :
    ∀ a ∈ as.reverse, p a :=
  fun a here => h a (List.mem_reverse.mp here)

theorem lines_statementsFrom (budget : List Lexeme) {found : List Stmt}
    (on : ∀ st ∈ found, st.On P) :
    Lines P (fun body => ∀ st ∈ body, st.On P) (statementsFrom budget found) := by
  induction budget generalizing found with
  | nil =>
    unfold statementsFrom
    refine (steps_eatPunct _).then fun closed => ?_
    split
    · exact lines_pure (forall_mem_reverse on)
    · exact lines_fail
  | cons x budget ih =>
    unfold statementsFrom
    refine (steps_eatPunct _).then fun closed => ?_
    split
    · exact lines_pure (forall_mem_reverse on)
    exact steps_peek.then fun next => steps_fail.after fun _ => lines_statement.bind fun _ first =>
      ih (List.forall_mem_cons.mpr ⟨first, on⟩)

theorem steps_modifiersFrom (budget : List Lexeme) (m : Modifiers) :
    Steps P (modifiersFrom budget m) := by
  induction budget generalizing m with
  | nil =>
    unfold modifiersFrom
    exact steps_pure _
  | cons x budget ih =>
    unfold modifiersFrom
    refine steps_peek.then fun next => ?_
    split
    · split
      · exact steps_skip.then fun _ => ih _
      · exact steps_pure _
    · exact steps_pure _

theorem steps_modifiers : Steps P modifiers := steps_get.then fun _ => steps_modifiersFrom _ _

theorem lines_parameter : Lines P (Parameter.On P) parameter :=
  (steps_eatWord _).then fun _ => lines_line.bind fun _ here => lines_typeName.bind fun _ named =>
    steps_identifier.then fun _ => lines_pure ⟨named, here⟩

theorem lines_parametersFrom (budget : List Lexeme) {found : List Parameter}
    (on : ∀ p ∈ found, p.On P) :
    Lines P (fun ps => ∀ p ∈ ps, p.On P) (parametersFrom budget found) := by
  induction budget generalizing found with
  | nil =>
    unfold parametersFrom
    refine lines_parameter.bind fun _ first => (steps_eatPunct _).then fun closed => ?_
    split
    · exact lines_pure (forall_mem_reverse (List.forall_mem_cons.mpr ⟨first, on⟩))
    · exact (steps_expect _).then fun _ => lines_fail
  | cons x budget ih =>
    unfold parametersFrom
    refine lines_parameter.bind fun _ first => (steps_eatPunct _).then fun closed => ?_
    have all := List.forall_mem_cons.mpr ⟨first, on⟩
    split
    · exact lines_pure (forall_mem_reverse all)
    · exact (steps_expect _).then fun _ => ih all

theorem lines_parameters : Lines P (fun ps => ∀ p ∈ ps, p.On P) parameters := by
  refine (steps_expect _).then fun _ => (steps_eatPunct _).then fun empty => ?_
  split
  · exact lines_pure (List.forall_mem_nil _)
  · exact steps_get.then fun _ => lines_parametersFrom _ (List.forall_mem_nil _)

theorem lines_result : Lines P (OnResult P) result := by
  refine (steps_eatWord _).then fun isVoid => ?_
  split
  · exact lines_pure nofun
  · refine lines_typeName.bind fun type named => lines_pure fun other same => ?_
    rwa [← Option.some.inj same]

theorem lines_block : Lines P (fun body => ∀ st ∈ body, st.On P) block :=
  (steps_expect _).then fun _ => steps_get.then fun _ =>
    lines_statementsFrom _ (List.forall_mem_nil _)

theorem lines_methodDecl (m : Modifiers) : Lines P (MethodDecl.On P) (methodDecl m) :=
  lines_line.bind fun _ here => lines_result.bind fun _ result => steps_identifier.then fun _ =>
    lines_parameters.bind fun _ parameters => lines_block.bind fun _ body =>
      lines_pure ⟨result, parameters, body, here⟩

theorem steps_classHead : Steps P classHead :=
  (steps_eatWord _).then fun _ => steps_fail.after fun _ => steps_identifier.then fun _ =>
    (steps_isNext _).then fun _ => (steps_isNext _).then fun _ => steps_fail.after fun _ =>
      (steps_expect _).then fun _ => steps_pure _

/-- What is said of the members found so far. -/
structure OnMembers (P : Nat → Prop) (members : List MethodDecl × List ClassDecl) : Prop where
  methods : ∀ m ∈ members.1, m.On P
  classes : ∀ c ∈ members.2, c.On P

namespace OnMembers

variable {methods : List MethodDecl} {classes : List ClassDecl}

theorem none : OnMembers P ([], []) := ⟨List.forall_mem_nil _, List.forall_mem_nil _⟩

theorem reverse (h : OnMembers P (methods, classes)) :
    OnMembers P (methods.reverse, classes.reverse) :=
  ⟨forall_mem_reverse h.methods, forall_mem_reverse h.classes⟩

theorem method (h : OnMembers P (methods, classes)) {m : MethodDecl} (on : m.On P) :
    OnMembers P (m :: methods, classes) :=
  ⟨List.forall_mem_cons.mpr ⟨on, h.methods⟩, h.classes⟩

theorem nested (h : OnMembers P (methods, classes)) {c : ClassDecl} (on : c.On P) :
    OnMembers P (methods, c :: classes) :=
  ⟨h.methods, List.forall_mem_cons.mpr ⟨on, h.classes⟩⟩

end OnMembers

theorem lines_membersFrom (budget : List Lexeme) {methods : List MethodDecl}
    {classes : List ClassDecl} (on : OnMembers P (methods, classes)) :
    Lines P (OnMembers P) (membersFrom budget methods classes) := by
  induction budget generalizing methods classes with
  | nil =>
    unfold membersFrom
    refine (steps_eatPunct _).then fun closed => ?_
    split
    · exact lines_pure on.reverse
    · exact lines_fail
  | cons x budget ih =>
    unfold membersFrom
    refine (steps_eatPunct _).then fun closed => ?_
    split
    · exact lines_pure on.reverse
    refine steps_peek.then fun next => steps_fail.after fun _ =>
      (steps_eatPunct _).then fun empty => ?_
    split
    · exact ih on
    refine steps_modifiers.then fun m => (steps_isNext _).then fun isClass => ?_
    split
    · exact lines_line.bind fun _ here => steps_classHead.then fun _ =>
        (ih .none).bind fun _ inside => ih (on.nested (.mk inside.methods inside.classes here))
    · exact (lines_methodDecl m).bind fun _ method => ih (on.method method)

theorem lines_classDecl (m : Modifiers) : Lines P (ClassDecl.On P) (classDecl m) :=
  lines_line.bind fun _ here => steps_classHead.then fun _ => steps_get.then fun _ =>
    (lines_membersFrom _ .none).bind fun _ inside =>
      lines_pure (.mk inside.methods inside.classes here)

theorem steps_packageDecl : Steps P packageDecl := by
  refine (steps_eatWord _).then fun declared => ?_
  split
  · exact steps_path.then fun _ => (steps_expect _).then fun _ => steps_pure _
  · exact steps_pure _

theorem lines_importsFrom (budget : List Lexeme) {found : List Import}
    (on : ∀ i ∈ found, P i.line) :
    Lines P (fun imports => ∀ i ∈ imports, P i.line) (importsFrom budget found) := by
  induction budget generalizing found with
  | nil =>
    unfold importsFrom
    exact lines_pure (forall_mem_reverse on)
  | cons x budget ih =>
    unfold importsFrom
    refine (steps_isNext _).then fun more => ?_
    split
    · exact lines_line.bind fun _ here => steps_skip.then fun _ => steps_path.then fun _ =>
        (steps_eatPunct _).then fun _ => (steps_expect _).after fun _ =>
          (steps_expect _).then fun _ => ih (List.forall_mem_cons.mpr ⟨here, on⟩)
    · exact lines_pure (forall_mem_reverse on)

theorem lines_classesFrom (budget : List Lexeme) {found : List ClassDecl}
    (on : ∀ c ∈ found, c.On P) :
    Lines P (fun classes => ∀ c ∈ classes, c.On P) (classesFrom budget found) := by
  induction budget generalizing found with
  | nil =>
    unfold classesFrom
    exact lines_pure (forall_mem_reverse on)
  | cons x budget ih =>
    unfold classesFrom
    refine steps_peek.then fun next => ?_
    split
    · exact lines_pure (forall_mem_reverse on)
    refine (steps_eatPunct _).then fun empty => ?_
    split
    · exact ih on
    have declared : ∀ m : Modifiers, Lines P (fun classes => ∀ c ∈ classes, c.On P) (do
        let c ← classDecl m
        classesFrom budget (c :: found)) := fun m =>
      (lines_classDecl m).bind fun _ first => ih (List.forall_mem_cons.mpr ⟨first, on⟩)
    refine steps_modifiers.then fun m => (steps_isNext _).then fun isClass => ?_
    split
    · exact lines_line.bind fun _ here => (steps_failAt here).then fun _ => declared m
    · exact declared m

theorem lines_compilationUnit : Lines P (CompilationUnit.On P) compilationUnit :=
  steps_packageDecl.then fun _ => steps_get.then fun _ =>
    (lines_importsFrom _ (List.forall_mem_nil _)).bind fun _ imports => steps_get.then fun _ =>
      (lines_classesFrom _ (List.forall_mem_nil _)).bind fun _ classes =>
        lines_pure ⟨imports, classes⟩

end Parser

/-- What a parse says of a text is on its lines. -/
theorem isLine_of_parse (text : String) :
    match parse text with
    | .ok unit => unit.On (IsLine (lastLine text))
    | .error fault => IsLine (lastLine text) fault.line := by
  have scanned := isLine_of_scan text
  unfold parse
  cases made : scan text with
  | error fault =>
    rw [made] at scanned
    exact scanned
  | ok lexemes =>
    rw [made] at scanned
    have parsed := Parser.lines_compilationUnit lexemes ⟨scanned.1, scanned.2⟩
    have run : StateT.run Parser.compilationUnit lexemes = Parser.compilationUnit lexemes := rfl
    simp only [run]
    cases read : Parser.compilationUnit lexemes with
    | error fault =>
      rw [read] at parsed
      exact parsed
    | ok result =>
      rw [read] at parsed
      exact parsed.2

end JavaSnippet.Source
