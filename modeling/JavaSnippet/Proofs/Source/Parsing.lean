import JavaSnippet.Proofs.Fallible
import JavaSnippet.Proofs.Source.Words
import JavaSnippet.Source.Parser
/-!
What parsing a unit keeps. Parsers take tokens off the front, so every name in a parsed unit is a
word of its text. Loops are gone through by induction on the tokens that bound them.
-/
namespace JavaSnippet.Source

namespace Parser

variable {α β : Type} {P : α → Prop} {Q : β → Prop}

/-- What is left after a parser has word tokens that are words if there were no others before, and
its result has a property then. -/
def Keeps (P : α → Prop) (x : Parse α) : Prop :=
  ∀ ⦃s t : Lexemes⦄ ⦃a : α⦄, Plain s.rest → x s = .ok (a, t) → Plain t.rest ∧ P a

/-- Nothing is said of the result. -/
abbrev Passes (x : Parse α) : Prop := Keeps (fun _ => True) x

theorem keeps_pure {a : α} (h : P a) : Keeps P (pure a) := by
  intro s t b plain made
  obtain ⟨rfl, rfl⟩ := Prod.mk.inj (Except.ok.inj made)
  exact ⟨plain, h⟩

theorem passes_pure (a : α) : Passes (pure a) := keeps_pure trivial

theorem Keeps.bind {x : Parse α} {f : α → Parse β} (first : Keeps P x)
    (next : ∀ a, P a → Keeps Q (f a)) : Keeps Q (x >>= f) := by
  intro s u b plain made
  obtain ⟨a, t, one, two⟩ := StateExcept.bind_eq_ok.mp made
  obtain ⟨plainNext, right⟩ := first plain one
  exact next a right plainNext two

theorem Keeps.then {x : Parse α} {f : α → Parse β} (first : Keeps P x)
    (next : ∀ a, Keeps Q (f a)) : Keeps Q (x >>= f) := first.bind fun a _ => next a

/-- A step that is only taken under a condition. -/
theorem Keeps.after {c : Prop} [Decidable c] {x : Parse Unit} {f : Unit → Parse α}
    (check : Passes x) (next : ∀ u, Keeps P (f u)) : Keeps P (if c then x >>= f else f ()) := by
  split
  · exact check.then next
  · exact next ()

theorem passes_map {x : Parse α} {f : α → β} (h : Passes x) : Passes (f <$> x) := by
  rw [map_eq_pure_bind]
  exact h.then fun _ => passes_pure _

theorem keeps_fail {cause : SyntaxCause} : Keeps P (fail cause) := by
  intro s t a plain made
  unfold fail at made
  split at made
  · cases made
  · cases made

theorem passes_fail {cause : SyntaxCause} : Passes (fail cause : Parse α) := keeps_fail

theorem passes_failAt {line : Nat} {cause : SyntaxCause} :
    Passes (failAt line cause : Parse α) := by
  intro s t a plain made
  cases made

theorem keeps_peek : Keeps (fun next => ∀ token, next = some token → token.IsPlain) peek := by
  intro s t a plain made
  obtain ⟨rfl, rfl⟩ := Prod.mk.inj (Except.ok.inj made)
  refine ⟨plain, ?_⟩
  intro token found
  obtain ⟨x, here, rfl⟩ := Option.map_eq_some_iff.mp found
  exact plain x (List.mem_of_mem_head? here)

theorem passes_get : Passes (get : Parse Lexemes) := by
  intro s t a plain made
  obtain ⟨rfl, rfl⟩ := Prod.mk.inj (Except.ok.inj made)
  exact ⟨plain, trivial⟩

theorem passes_line : Passes line := by
  intro s t a plain made
  obtain ⟨rfl, rfl⟩ := Prod.mk.inj (Except.ok.inj made)
  exact ⟨plain, trivial⟩

theorem passes_skip : Passes skip := by
  intro s t a plain made
  obtain ⟨rfl, rfl⟩ := Prod.mk.inj (Except.ok.inj made)
  exact ⟨fun x here => plain x (List.mem_of_mem_drop here), trivial⟩

theorem passes_isNext (token : Token) : Passes (isNext token) :=
  keeps_peek.then fun _ => passes_pure _

theorem passes_eat (token : Token) : Passes (eat token) := by
  refine (passes_isNext token).then fun next => ?_
  split
  · exact passes_skip.then fun _ => passes_pure _
  · exact passes_pure _

theorem passes_eatPunct (c : Char) : Passes (eatPunct c) := passes_eat _

theorem passes_eatWord (text : String) : Passes (eatWord text) := passes_eat _

theorem passes_expect (c : Char) : Passes (expect c) := by
  refine (passes_eatPunct c).then fun eaten => ?_
  split
  · exact keeps_fail
  · exact passes_pure _

theorem keeps_identifier : Keeps IsWord identifier := by
  refine keeps_peek.bind fun next plain => ?_
  split
  · rename_i text
    split
    · exact keeps_fail
    · exact passes_skip.then fun _ => keeps_pure (plain _ rfl)
  · exact keeps_fail

theorem passes_pathFrom (budget : List Lexeme) (path : Path) : Passes (pathFrom budget path) := by
  induction budget generalizing path with
  | nil =>
    unfold pathFrom
    exact passes_pure _
  | cons x budget ih =>
    unfold pathFrom
    refine passes_get.then fun s => ?_
    split
    · exact passes_skip.then fun _ => keeps_identifier.then fun segment => ih _
    · exact passes_pure _

theorem passes_path : Passes path :=
  keeps_identifier.then fun _ => passes_get.then fun _ => passes_pathFrom _ _

theorem passes_dimensionsFrom (budget : List Lexeme) (count : Nat) :
    Passes (dimensionsFrom budget count) := by
  induction budget generalizing count with
  | nil =>
    unfold dimensionsFrom
    exact passes_pure _
  | cons x budget ih =>
    unfold dimensionsFrom
    refine passes_get.then fun s => ?_
    split
    · exact passes_skip.then fun _ => passes_skip.then fun _ => ih _
    · exact passes_pure _

theorem passes_typeName : Passes typeName := by
  refine passes_line.then fun start => keeps_peek.then fun next => ?_
  have whole : ∀ name : Path, Passes (do
      return (⟨name, ← dimensionsFrom (← get).rest 0, start⟩ : TypeName)) := fun name =>
    passes_get.then fun _ => (passes_dimensionsFrom _ _).then fun _ => passes_pure _
  split
  · split
    · exact passes_skip.then fun _ => whole _
    · exact passes_path.then whole
  · exact passes_path.then whole

theorem passes_atDeclaration : Passes atDeclaration := by
  intro s t a plain made
  unfold atDeclaration at made
  split at made
  · obtain ⟨rfl, rfl⟩ := Prod.mk.inj (Except.ok.inj made)
    exact ⟨plain, trivial⟩
  · obtain ⟨rfl, rfl⟩ := Prod.mk.inj (Except.ok.inj made)
    exact ⟨plain, trivial⟩

section Expressions

variable {operator : Token → Option ArithOp} {operand : Parse Expr}

theorem passes_operationsFrom (h : Passes operand) (budget : List Lexeme) (left : Expr) :
    Passes (operationsFrom operator operand budget left) := by
  induction budget generalizing left with
  | nil =>
    unfold operationsFrom
    exact passes_pure _
  | cons x budget ih =>
    unfold operationsFrom
    refine keeps_peek.then fun next => ?_
    split
    · exact passes_line.then fun _ => passes_skip.then fun _ => h.then fun _ => ih _
    · exact passes_pure _

theorem passes_operations (h : Passes operand) : Passes (operations operator operand) :=
  h.then fun _ => passes_get.then fun _ => passes_operationsFrom h _ _

theorem passes_expressionOf {unary : Parse Expr} (h : Passes unary) : Passes (expressionOf unary) :=
  passes_operations (passes_operations h)

variable {expression : Parse Expr}

theorem passes_argumentsFrom (h : Passes expression) (budget : List Lexeme) (found : List Expr) :
    Passes (argumentsFrom expression budget found) := by
  induction budget generalizing found with
  | nil =>
    unfold argumentsFrom
    refine h.then fun arg => (passes_eatPunct _).then fun closed => ?_
    split
    · exact passes_pure _
    refine (passes_isNext _).then fun more => ?_
    split
    · exact passes_skip.then fun _ => keeps_fail
    · exact keeps_fail
  | cons x budget ih =>
    unfold argumentsFrom
    refine h.then fun arg => (passes_eatPunct _).then fun closed => ?_
    split
    · exact passes_pure _
    refine (passes_isNext _).then fun more => ?_
    split
    · exact passes_skip.then fun _ => ih _
    · exact keeps_fail

theorem passes_arguments (h : Passes expression) : Passes (arguments expression) := by
  refine (passes_expect _).then fun _ => (passes_eatPunct _).then fun empty => ?_
  split
  · exact passes_pure _
  · exact passes_get.then fun _ => passes_argumentsFrom h _ _

theorem passes_postfixFrom (h : Passes expression) (budget : List Lexeme) (subject : Expr) :
    Passes (postfixFrom expression budget subject) := by
  induction budget generalizing subject with
  | nil =>
    unfold postfixFrom
    exact passes_pure _
  | cons x budget ih =>
    unfold postfixFrom
    refine (passes_isNext _).then fun dot => ?_
    split
    · refine passes_skip.then fun _ => passes_line.then fun _ => keeps_identifier.then fun member =>
        (passes_isNext _).then fun called => ?_
      split
      · exact (passes_arguments h).then fun _ => ih _
      · exact ih _
    · exact passes_pure _

theorem passes_worded (h : Passes expression) (start : Nat) (text : String) :
    Passes (worded expression start text) := by
  have literal : ∀ e : Expr, Passes (do skip; return e) := fun _ =>
    passes_skip.then fun _ => passes_pure _
  unfold worded
  split
  · exact literal _
  · exact literal _
  · exact literal _
  · exact passes_skip.then fun _ => passes_typeName.then fun type =>
      passes_fail.after fun _ => (passes_arguments h).then fun _ => passes_pure _
  · split
    · exact keeps_fail
    · refine passes_skip.then fun _ => (passes_isNext _).then fun called => ?_
      split
      · exact (passes_arguments h).then fun _ => passes_pure _
      · exact passes_pure _

theorem passes_primary (h : Passes expression) : Passes (primary expression) := by
  have literal : ∀ e : Expr, Passes (do skip; return e) := fun _ =>
    passes_skip.then fun _ => passes_pure _
  refine passes_line.then fun start => keeps_peek.then fun next => ?_
  split
  · exact literal _
  · exact literal _
  · exact literal _
  · exact passes_worded h start _
  · split
    · exact passes_skip.then fun _ => h.then fun _ => (passes_expect _).then fun _ => passes_pure _
    · exact keeps_fail
  · exact keeps_fail

theorem passes_signed {unary : Parse Expr} (h : Passes unary) : Passes (signed unary) := by
  have postfixed : ∀ subject, Passes (do
      postfixFrom (expressionOf unary) (← get).rest subject) := fun _ =>
    passes_get.then fun _ => passes_postfixFrom (passes_expressionOf h) _ _
  unfold signed
  refine passes_line.then fun start => (passes_eatPunct _).then fun plus => ?_
  split
  · exact h
  refine (passes_eatPunct _).then fun minus => ?_
  split
  · refine keeps_peek.then fun next => ?_
    split
    · exact passes_skip.then fun _ => postfixed _
    · exact passes_skip.then fun _ => postfixed _
    · exact h.then fun _ => passes_pure _
  · exact (passes_primary (passes_expressionOf h)).then postfixed

theorem passes_unary (depth : Nat) : Passes (unary depth) := by
  induction depth with
  | zero => exact keeps_fail
  | succ depth ih => exact passes_signed ih

end Expressions

theorem passes_expression : Passes Parser.expression := passes_expressionOf (passes_unary _)

theorem passes_declaration (isFinal : Bool) (start : Nat) :
    Passes (declaration isFinal start) := by
  refine passes_typeName.then fun type => keeps_identifier.then fun name =>
    (passes_eatPunct _).then fun filled => ?_
  have whole : ∀ value, Passes (do
      expect ';'
      return Stmt.declare type name isFinal value start) := fun _ =>
    (passes_expect _).then fun _ => passes_pure _
  split
  · exact (passes_map passes_expression).then whole
  · exact (passes_pure _).then whole

theorem passes_assignmentOrCall (start : Nat) : Passes (assignmentOrCall start) := by
  refine passes_get.then fun s => ?_
  split
  · exact passes_skip.then fun _ => passes_skip.then fun _ => passes_expression.then fun _ =>
      (passes_expect _).then fun _ => passes_pure _
  · exact passes_expression.then fun value =>
      passes_failAt.after fun _ => (passes_expect _).then fun _ => passes_pure _

theorem passes_statement : Passes statement := by
  refine passes_line.then fun start => (passes_eatWord _).then fun returns => ?_
  split
  · refine (passes_isNext _).then fun empty => ?_
    have whole : ∀ value, Passes (do
        expect ';'
        return Stmt.returns value start) := fun _ =>
      (passes_expect _).then fun _ => passes_pure _
    split
    · exact (passes_pure _).then whole
    · exact (passes_map passes_expression).then whole
  refine (passes_eatWord _).then fun throws => ?_
  split
  · exact passes_expression.then fun _ => (passes_expect _).then fun _ => passes_pure _
  refine (passes_eatWord _).then fun isFinal => ?_
  split
  · exact passes_declaration _ _
  refine passes_atDeclaration.then fun declares => ?_
  split
  · exact passes_declaration _ _
  · exact passes_assignmentOrCall _

theorem passes_statementsFrom (budget : List Lexeme) (found : List Stmt) :
    Passes (statementsFrom budget found) := by
  induction budget generalizing found with
  | nil =>
    unfold statementsFrom
    refine (passes_eatPunct _).then fun closed => ?_
    split
    · exact passes_pure _
    · exact keeps_fail
  | cons x budget ih =>
    unfold statementsFrom
    refine (passes_eatPunct _).then fun closed => ?_
    split
    · exact passes_pure _
    exact keeps_peek.then fun next => passes_fail.after fun _ => passes_statement.then fun _ => ih _

theorem passes_modifiersFrom (budget : List Lexeme) (m : Modifiers) :
    Passes (modifiersFrom budget m) := by
  induction budget generalizing m with
  | nil =>
    unfold modifiersFrom
    exact passes_pure _
  | cons x budget ih =>
    unfold modifiersFrom
    refine keeps_peek.then fun next => ?_
    split
    · split
      · exact passes_skip.then fun _ => ih _
      · exact passes_pure _
    · exact passes_pure _

theorem passes_modifiers : Passes modifiers := passes_get.then fun _ => passes_modifiersFrom _ _

theorem passes_parameter : Passes parameter :=
  (passes_eatWord _).then fun _ => passes_line.then fun _ => passes_typeName.then fun _ =>
    keeps_identifier.then fun _ => passes_pure _

theorem passes_parametersFrom (budget : List Lexeme) (found : List Parameter) :
    Passes (parametersFrom budget found) := by
  induction budget generalizing found with
  | nil =>
    unfold parametersFrom
    refine passes_parameter.then fun _ => (passes_eatPunct _).then fun closed => ?_
    split
    · exact passes_pure _
    · exact (passes_expect _).then fun _ => keeps_fail
  | cons x budget ih =>
    unfold parametersFrom
    refine passes_parameter.then fun _ => (passes_eatPunct _).then fun closed => ?_
    split
    · exact passes_pure _
    · exact (passes_expect _).then fun _ => ih _

theorem passes_parameters : Passes parameters := by
  refine (passes_expect _).then fun _ => (passes_eatPunct _).then fun empty => ?_
  split
  · exact passes_pure _
  · exact passes_get.then fun _ => passes_parametersFrom _ _

theorem passes_result : Passes result := by
  refine (passes_eatWord _).then fun isVoid => ?_
  split
  · exact passes_pure _
  · exact passes_typeName.then fun _ => passes_pure _

theorem passes_block : Passes block :=
  (passes_expect _).then fun _ => passes_get.then fun _ => passes_statementsFrom _ _

theorem keeps_methodDecl (m : Modifiers) :
    Keeps (fun method => IsWord method.name) (methodDecl m) :=
  passes_line.then fun _ => passes_result.then fun _ => keeps_identifier.bind fun _ word =>
    passes_parameters.then fun _ => passes_block.then fun _ => keeps_pure word

theorem passes_classHead : Passes classHead :=
  (passes_eatWord _).then fun _ => passes_fail.after fun _ => keeps_identifier.then fun _ =>
    (passes_isNext _).then fun _ => (passes_isNext _).then fun _ => passes_fail.after fun _ =>
      (passes_expect _).then fun _ => passes_pure _

/-- The methods of a class and of the classes inside it have words for names. -/
inductive Named : ClassDecl → Prop where
  | mk {name : String} {modifiers : Modifiers} {methods : List MethodDecl}
    {classes : List ClassDecl} {line : Nat} (words : ∀ m ∈ methods, IsWord m.name)
    (inner : ∀ c ∈ classes, Named c) : Named (.mk name modifiers methods classes line)

theorem Named.methods {c : ClassDecl} (h : Named c) : ∀ m ∈ c.methods, IsWord m.name := by
  cases h with
  | mk words inner => exact words

/-- What is said of the members found so far. -/
def NamedMembers (members : List MethodDecl × List ClassDecl) : Prop :=
  (∀ m ∈ members.1, IsWord m.name) ∧ ∀ c ∈ members.2, Named c

theorem NamedMembers.reverse {methods : List MethodDecl} {classes : List ClassDecl}
    (h : NamedMembers (methods, classes)) : NamedMembers (methods.reverse, classes.reverse) :=
  ⟨fun m here => h.1 m (List.mem_reverse.mp here), fun c here => h.2 c (List.mem_reverse.mp here)⟩

theorem keeps_membersFrom (budget : List Lexeme) {methods : List MethodDecl}
    {classes : List ClassDecl} (named : NamedMembers (methods, classes)) :
    Keeps NamedMembers (membersFrom budget methods classes) := by
  induction budget generalizing methods classes with
  | nil =>
    unfold membersFrom
    refine (passes_eatPunct _).then fun closed => ?_
    split
    · exact keeps_pure named.reverse
    · exact keeps_fail
  | cons x budget ih =>
    unfold membersFrom
    refine (passes_eatPunct _).then fun closed => ?_
    split
    · exact keeps_pure named.reverse
    refine keeps_peek.then fun next => passes_fail.after fun _ =>
      (passes_eatPunct _).then fun empty => ?_
    split
    · exact ih named
    refine passes_modifiers.then fun m => (passes_isNext _).then fun isClass => ?_
    split
    · refine passes_line.then fun start => passes_classHead.then fun name =>
        (ih ⟨by simp, by simp⟩).bind fun members inside => ?_
      exact ih ⟨named.1, List.forall_mem_cons.mpr ⟨.mk inside.1 inside.2, named.2⟩⟩
    · refine (keeps_methodDecl m).bind fun method word => ?_
      exact ih ⟨List.forall_mem_cons.mpr ⟨word, named.1⟩, named.2⟩

theorem keeps_classDecl (m : Modifiers) : Keeps Named (classDecl m) :=
  passes_line.then fun _ => passes_classHead.then fun _ => passes_get.then fun _ =>
    (keeps_membersFrom _ ⟨by simp, by simp⟩).bind fun _ inside => keeps_pure (.mk inside.1 inside.2)

theorem passes_packageDecl : Passes packageDecl := by
  refine (passes_eatWord _).then fun declared => ?_
  split
  · exact passes_path.then fun _ => (passes_expect _).then fun _ => passes_pure _
  · exact passes_pure _

theorem passes_importsFrom (budget : List Lexeme) (found : List Import) :
    Passes (importsFrom budget found) := by
  induction budget generalizing found with
  | nil =>
    unfold importsFrom
    exact passes_pure _
  | cons x budget ih =>
    unfold importsFrom
    refine (passes_isNext _).then fun more => ?_
    split
    · exact passes_line.then fun _ => passes_skip.then fun _ => passes_path.then fun _ =>
        (passes_eatPunct _).then fun _ => (passes_expect _).after fun _ =>
          (passes_expect _).then fun _ => ih _
    · exact passes_pure _

theorem keeps_classesFrom (budget : List Lexeme) {found : List ClassDecl}
    (named : ∀ c ∈ found, Named c) :
    Keeps (fun classes => ∀ c ∈ classes, Named c) (classesFrom budget found) := by
  induction budget generalizing found with
  | nil =>
    unfold classesFrom
    exact keeps_pure fun c here => named c (List.mem_reverse.mp here)
  | cons x budget ih =>
    unfold classesFrom
    refine keeps_peek.then fun next => ?_
    split
    · exact keeps_pure fun c here => named c (List.mem_reverse.mp here)
    refine (passes_eatPunct _).then fun empty => ?_
    split
    · exact ih named
    refine passes_modifiers.then fun m => (passes_isNext _).then fun isClass => ?_
    split
    · exact passes_line.then fun _ => passes_failAt.then fun _ =>
        (keeps_classDecl m).bind fun c isNamed => ih (List.forall_mem_cons.mpr ⟨isNamed, named⟩)
    · exact (keeps_classDecl m).bind fun c isNamed =>
        ih (List.forall_mem_cons.mpr ⟨isNamed, named⟩)

theorem keeps_compilationUnit :
    Keeps (fun unit => ∀ c ∈ unit.classes, Named c) compilationUnit :=
  passes_packageDecl.then fun _ => passes_get.then fun _ => (passes_importsFrom _ _).then fun _ =>
    passes_get.then fun _ => (keeps_classesFrom _ (by simp)).bind fun _ named => keeps_pure named

end Parser

/-- The methods of a parsed unit have words for names. -/
theorem named_of_parse {text : String} {unit : CompilationUnit} (h : parse text = .ok unit) :
    ∀ c ∈ unit.classes, Parser.Named c := by
  unfold parse at h
  cases scanned : scan text with
  | error fault =>
    rw [scanned] at h
    cases h
  | ok lexemes =>
    simp only [scanned] at h
    obtain ⟨result, made, rfl⟩ := except_map_eq_ok.mp h
    exact (Parser.keeps_compilationUnit (scan_plain scanned) made).2

end JavaSnippet.Source
