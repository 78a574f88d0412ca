import JavaSnippet.Proofs.Fallible
import JavaSnippet.Proofs.Source.Activations
/-!
What activations do. Each gives what the parser of its rule gives, whatever the tokens that bound
the loops of that, as long as they are not too few; it leaves the counter as it found it; and it
calls others only with fewer tokens or from further down in the grammar.
-/
namespace JavaSnippet.Source.Parser

open Code

variable {α β γ : Type}

section Tokens

variable {s : Lexemes}

theorem pos_of_head {token : Token}
    (ahead : s.rest.head?.map (·.token) = some token) : 0 < s.rest.length := by
  refine List.length_pos_iff.mpr fun none => ?_
  rw [none] at ahead
  cases ahead

theorem fewer_skip {token : Token}
    (ahead : s.rest.head?.map (·.token) = some token) :
    (s.rest.drop 1).length < s.rest.length := by
  have some := pos_of_head ahead
  rw [List.length_drop]
  omega

theorem fail_ne_ok {cause : SyntaxCause} {t : Lexemes} {a : α} : fail cause s ≠ .ok (a, t) := by
  intro made
  unfold fail at made
  split at made <;> cases made

/-- A token is taken if it is next, and nothing else. -/
theorem eat_cases {token : Token} {t : Lexemes} {found : Bool}
    (made : eat token s = .ok (found, t)) :
    found = true ∧ t.rest.length < s.rest.length ∨ found = false ∧ t = s := by
  obtain ⟨next, u, looked, made⟩ := StateExcept.bind_eq_ok.mp made
  obtain ⟨isNext, rfl⟩ := Prod.mk.inj (Except.ok.inj looked)
  cases next with
  | true =>
    obtain ⟨rfl, rfl⟩ := Prod.mk.inj (Except.ok.inj made)
    exact .inl ⟨rfl, fewer_skip (beq_iff_eq.mp isNext)⟩
  | false =>
    obtain ⟨rfl, rfl⟩ := Prod.mk.inj (Except.ok.inj made)
    exact .inr ⟨rfl, rfl⟩

theorem eat_kept {token : Token} {t : Lexemes} {found : Bool}
    (made : eat token s = .ok (found, t)) : t.rest.length ≤ s.rest.length := by
  obtain ⟨-, fewer⟩ | ⟨-, rfl⟩ := eat_cases made
  · exact Nat.le_of_lt fewer
  · exact Nat.le_refl _

theorem fewer_expect {c : Char} {t : Lexemes} {u : Unit} (made : expect c s = .ok (u, t)) :
    t.rest.length < s.rest.length := by
  obtain ⟨found, v, eaten, last⟩ := StateExcept.bind_eq_ok.mp made
  obtain ⟨rfl, fewer⟩ | ⟨rfl, -⟩ := eat_cases eaten
  · obtain ⟨-, rfl⟩ := Prod.mk.inj (Except.ok.inj last)
    exact fewer
  · exact (fail_ne_ok last).elim

theorem fewer_identifier {text : String} {t : Lexemes}
    (made : identifier s = .ok (text, t)) : t.rest.length < s.rest.length := by
  obtain ⟨next, u, looked, rest⟩ := StateExcept.bind_eq_ok.mp made
  obtain ⟨isNext, rfl⟩ := Prod.mk.inj (Except.ok.inj looked)
  split at rest
  · split at rest
    · exact (fail_ne_ok rest).elim
    · obtain ⟨-, rfl⟩ := Prod.mk.inj (Except.ok.inj rest)
      exact fewer_skip isNext
  · exact (fail_ne_ok rest).elim

end Tokens

section Contracts

/-- A loop that is bounded by the tokens given, or by those left if none are. -/
def within (budget : Option (List Lexeme)) (loop : List Lexeme → Parse α) : Parse α :=
  fun s => loop (budget.getD s.rest) s

/-- There are tokens enough for a loop. -/
def Covers (budget : Option (List Lexeme)) (s : Lexemes) : Prop :=
  s.rest.length ≤ (budget.getD s.rest).length

theorem covers_none (s : Lexemes) : Covers none s := Nat.le_refl _

namespace Covers

variable {budget : Option (List Lexeme)} {x : Lexeme} {more : List Lexeme} {s t : Lexemes}

theorem mono (covers : Covers budget s) (kept : t.rest.length ≤ s.rest.length) :
    Covers budget t := by
  cases budget with
  | none => exact Nat.le_refl _
  | some tokens => exact Nat.le_trans kept covers

/-- A round of a loop takes a token. -/
theorem fewer (covers : Covers (some (x :: more)) s) (taken : t.rest.length < s.rest.length) :
    Covers (some more) t :=
  Nat.le_of_lt_succ (Nat.lt_of_lt_of_le taken covers)

end Covers

def Level.parser (unary : Parse Expr) : Level → Parse Expr
  | .sums => operations multiplicative? unary
  | .products => unary

def classDeclWithin (budget : Option (List Lexeme)) (m : Modifiers) : Parse ClassDecl := do
  let start ← line
  let name ← classHead
  let (methods, classes) ← within (budget.map List.tail) (membersFrom · [] [])
  return .mk name m methods classes start

/-- The unary expressions at a depth. -/
def unaryAt (depth : Nat) : Parse Expr := Parser.unary (maxNesting - depth)

/-- The parser of a rule at a depth. -/
def Rule.parser (budget : Option (List Lexeme)) (depth : Nat) : {α : Type} → Rule α → Parse α
  | _, .unit => compilationUnit
  | _, .imports found => within budget (importsFrom · found)
  | _, .classes found => within budget (classesFrom · found)
  | _, .modifiers found => within budget (modifiersFrom · found)
  | _, .classDecl m => classDeclWithin budget m
  | _, .members ms cs => within budget (membersFrom · ms cs)
  | _, .methodDecl m => Parser.methodDecl m
  | _, .parameters found => within budget (parametersFrom · found)
  | _, .statements found => within budget (statementsFrom · found)
  | _, .typeName => Parser.typeName
  | _, .dimensions found => within budget (dimensionsFrom · found)
  | _, .path => Parser.path
  | _, .segments found => within budget (pathFrom · found)
  | _, .atDeclaration => Parser.atDeclaration
  | _, .statement => Parser.statement
  | _, .operations level => Parser.operations level.operator (level.parser (unaryAt depth))
  | _, .operators level found =>
    within budget (operationsFrom level.operator (level.parser (unaryAt depth)) · found)
  | _, .unary => unaryAt depth
  | _, .nestedUnary => signed (unaryAt depth)
  | _, .postfixes found => within budget (postfixFrom (expressionOf (unaryAt depth)) · found)
  | _, .arguments => Parser.arguments (expressionOf (unaryAt depth))
  | _, .argumentList found => within budget (argumentsFrom (expressionOf (unaryAt depth)) · found)
  | _, .primary => Parser.primary (expressionOf (unaryAt depth))

/-- The depths that a rule can be called at. -/
def Rule.Fits (depth : Nat) : {α : Type} → Rule α → Prop
  | _, .nestedUnary | _, .operations _ | _, .operators _ _ | _, .unary | _, .postfixes _
  | _, .arguments | _, .argumentList _ | _, .primary | _, .typeName | _, .dimensions _ | _, .path
  | _, .segments _ => depth ≤ maxNesting
  | _, _ => depth = 0

/-- How many tokens are gone at least after a result. -/
def Rule.takes : {α : Type} → Rule α → Nat
  | _, .unit | _, .imports _ | _, .classes _ | _, .modifiers _ | _, .dimensions _ | _, .segments _
  | _, .operators _ _ | _, .postfixes _ | _, .atDeclaration => 0
  | _, _ => 1

/-- Whether the rule only looks ahead. -/
def Rule.looksAhead : {α : Type} → Rule α → Bool
  | _, .atDeclaration => true
  | _, _ => false

/-- The result is the expected one, and where there is one nothing else was taken. -/
def Agrees : Except SyntaxFault (α × Lexemes) → Except SyntaxFault α → Lexemes → Prop
  | .ok (a, left), result, s => result = .ok a ∧ s = left
  | .error fault, result, _ => result = .error fault

theorem Agrees.ok {x : Except SyntaxFault (α × Lexemes)} {a : α} {s : Lexemes}
    (h : Agrees x (.ok a) s) : x = .ok (a, s) := by
  cases x with
  | error fault => cases h
  | ok made =>
    obtain ⟨same, rfl⟩ := h
    rw [Except.ok.inj same]

theorem Agrees.error {x : Except SyntaxFault (α × Lexemes)} {fault : SyntaxFault} {s : Lexemes}
    (h : Agrees x (.error fault) s) : x = .error fault := by
  cases x with
  | error other => rw [Except.error.inj h]
  | ok made => cases h.1

/-- What is left by an activation that was entered in a state. -/
structure Returns (rule : Rule α) (entered : State) (result : Except SyntaxFault α) (s : State) :
    Prop where
  depth : s.depth = entered.depth
  agrees : ∀ budget, Covers budget entered.lexemes →
    Agrees (rule.parser budget entered.depth entered.lexemes) result s.lexemes
  taken : ∀ a, result = .ok a → s.left + rule.takes ≤ entered.left
  back : rule.looksAhead = true → s = entered

/-- A call that gets nearer to the end of the parse: it is made after a token was taken, or it goes
down in the grammar. -/
structure Descends (caller : Rule γ) (entered : State) (rule : Rule β) (s : State) : Prop where
  fits : rule.Fits s.depth
  depth : s.depth = entered.depth + rule.nests
  smaller : s.left < entered.left ∨ s.left = entered.left ∧ rule.rank < caller.rank

namespace Descends

variable {caller : Rule γ} {rule : Rule β} {origin s : Lexemes} {depth : Nat}

theorem fewer (fits : rule.Fits depth) (nests : rule.nests = 0)
    (taken : s.rest.length < origin.rest.length) :
    Descends caller ⟨origin, depth⟩ rule ⟨s, depth⟩ :=
  ⟨fits, by rw [nests]; rfl, .inl taken⟩

theorem lower (fits : rule.Fits depth) (nests : rule.nests = 0)
    (kept : s.rest.length ≤ origin.rest.length) (below : rule.rank < caller.rank) :
    Descends caller ⟨origin, depth⟩ rule ⟨s, depth⟩ :=
  ⟨fits, by rw [nests]; rfl, (Nat.lt_or_eq_of_le kept).imp_right fun same => ⟨same, below⟩⟩

end Descends

/-- All calls get nearer to the end, and the end is as asked if they give what they should. -/
def Outcome.Meets (caller : Rule γ) (entered : State)
    (post : Except SyntaxFault α → State → Prop) : Outcome α → Prop
  | .done result s => post result s
  | .call rule s resume => Descends caller entered rule s ∧
    ∀ result t, Returns rule s result t → (resume result t).Meets caller entered post

end Contracts

section Steps

variable {caller : Rule γ} {entered : State} {limit : Nat}

/-- What an activation still does gives what is expected, and leaves fewer tokens than the limit. -/
def Runs (caller : Rule γ) (entered : State) (limit : Nat)
    (expected : Except SyntaxFault (α × Lexemes)) (o : Outcome α) : Prop :=
  o.Meets caller entered fun result s => s.depth = entered.depth ∧
    Agrees expected result s.lexemes ∧ ∀ a, result = .ok a → s.left < limit

theorem Outcome.Meets.andThen {post : Except SyntaxFault α → State → Prop}
    {last : Except SyntaxFault β → State → Prop} {o : Outcome α} {f : α → Code β}
    (first : o.Meets caller entered post)
    (next : ∀ a s, post (.ok a) s → (f a s).Meets caller entered last)
    (failed : ∀ fault s, post (.error fault) s → last (.error fault) s) :
    (o.andThen f).Meets caller entered last := by
  induction o with
  | done result s =>
    cases result with
    | ok a => exact next a s first
    | error fault => exact failed fault s first
  | call rule s resume ih =>
    exact ⟨first.1, fun result t returns => ih result t (first.2 result t returns)⟩

theorem Runs.bind {x : Parse α} {g : α → Parse β} {c : Code α} {f : α → Code β} {s : Lexemes}
    {bound : Nat} (first : Runs caller entered bound (x s) (c ⟨s, entered.depth⟩))
    (next : ∀ a t, t.rest.length < bound → x s = .ok (a, t) →
      Runs caller entered limit (g a t) (f a ⟨t, entered.depth⟩)) :
    Runs caller entered limit ((x >>= g) s) ((c >>= f) ⟨s, entered.depth⟩) := by
  rw [StateExcept.bind_apply]
  refine Outcome.Meets.andThen first ?_ ?_
  · rintro a ⟨t, depth⟩ ⟨same, agrees, short⟩
    obtain rfl : depth = entered.depth := same
    have made := agrees.ok
    rw [made]
    exact next a t (short a rfl) made
  · rintro fault t ⟨same, agrees, -⟩
    rw [agrees.error]
    exact ⟨same, rfl, nofun⟩

/-- Without a call. -/
theorem runs_of {x : Parse α} {s : Lexemes}
    (short : ∀ a t, x s = .ok (a, t) → t.rest.length < limit) :
    Runs caller entered limit (x s) (of x ⟨s, entered.depth⟩) := by
  unfold Code.of
  simp only
  cases made : x s with
  | ok result =>
    refine ⟨rfl, ⟨rfl, rfl⟩, fun a same => ?_⟩
    exact short result.1 result.2 made
  | error fault => exact ⟨rfl, rfl, nofun⟩

theorem runs_fail {cause : SyntaxCause} {s : Lexemes} :
    Runs caller entered limit (fail cause s : Except SyntaxFault (α × Lexemes))
      (of (fail cause) ⟨s, entered.depth⟩) :=
  runs_of fun _ _ made => (fail_ne_ok made).elim

theorem runs_pure {a : α} {s : Lexemes} (short : s.rest.length < limit) :
    Runs caller entered limit ((pure a : Parse α) s) ((pure a : Code α) ⟨s, entered.depth⟩) :=
  ⟨rfl, ⟨rfl, rfl⟩, fun _ _ => short⟩

/-- At the end of a loop where no tokens are left. -/
theorem runs_stop {a : α} {code : Code α} {s : Lexemes} (none : s.rest = [])
    (stops : ∀ endLine, code ⟨⟨[], endLine⟩, entered.depth⟩ =
      .done (.ok a) ⟨⟨[], endLine⟩, entered.depth⟩) :
    Runs caller entered (s.rest.length + 1) ((pure a : Parse α) s) (code ⟨s, entered.depth⟩) := by
  obtain ⟨rest, endLine⟩ := s
  obtain rfl : rest = [] := none
  rw [stops]
  exact runs_pure (Nat.lt_succ_self _)

theorem runs_call (rule : Rule α) {x : Parse α} {s : Lexemes} {budget : Option (List Lexeme)}
    (covers : Covers budget s) (same : x s = rule.parser budget entered.depth s)
    (descends : Descends caller entered rule ⟨s, entered.depth⟩)
    (short : s.rest.length < limit + rule.takes) :
    Runs caller entered limit (x s) (call rule ⟨s, entered.depth⟩) := by
  refine ⟨descends, fun result t returns => ⟨returns.depth, ?_, fun a isOk => ?_⟩⟩
  · rw [same]
    exact returns.agrees budget covers
  · have taken : t.left + rule.takes ≤ s.rest.length := returns.taken a isOk
    omega

variable {s : Lexemes} {x : Parse α} {g : α → Parse β} {f : α → Code β}

namespace Runs

/-- A step without a call. -/
theorem of (next : ∀ a t, x s = .ok (a, t) →
      Runs caller entered limit (g a t) (f a ⟨t, entered.depth⟩)) :
    Runs caller entered limit ((x >>= g) s) ((Code.of x >>= f) ⟨s, entered.depth⟩) := by
  rw [StateExcept.bind_apply]
  have step : (Code.of x >>= f) ⟨s, entered.depth⟩ =
      (Code.of x ⟨s, entered.depth⟩).andThen f := rfl
  rw [step, Code.of]
  simp only
  cases made : x s with
  | ok result => exact next result.1 result.2 made
  | error fault => exact ⟨rfl, rfl, nofun⟩

/-- On the side of the parser only. -/
theorem parsed {a : α} {o : Outcome β} (made : x s = .ok (a, s))
    (next : Runs caller entered limit (g a s) o) :
    Runs caller entered limit ((x >>= g) s) o := by
  rw [StateExcept.bind_apply, made]
  exact next

/-- On the side of the activation only. -/
theorem looked {a : α} {expected : Except SyntaxFault (β × Lexemes)} (made : x s = .ok (a, s))
    (next : Runs caller entered limit expected (f a ⟨s, entered.depth⟩)) :
    Runs caller entered limit expected ((Code.of x >>= f) ⟨s, entered.depth⟩) := by
  have step : (Code.of x >>= f) ⟨s, entered.depth⟩ =
      (Code.of x ⟨s, entered.depth⟩).andThen f := rfl
  rw [step, Code.of]
  simp only [made]
  exact next

/-- On both sides. -/
theorem known {a : α} (made : x s = .ok (a, s))
    (next : Runs caller entered limit (g a s) (f a ⟨s, entered.depth⟩)) :
    Runs caller entered limit ((x >>= g) s) ((Code.of x >>= f) ⟨s, entered.depth⟩) :=
  parsed made (looked made next)

/-- The parser counts the tokens that are left. -/
theorem get {g : Lexemes → Parse α} {o : Outcome α}
    (next : Runs caller entered limit (g s s) o) :
    Runs caller entered limit ((MonadState.get >>= g) s) o := next

theorem call (rule : Rule α) {budget : Option (List Lexeme)} (covers : Covers budget s)
    (same : x s = rule.parser budget entered.depth s)
    (descends : Descends caller entered rule ⟨s, entered.depth⟩)
    (next : ∀ a t, t.rest.length + rule.takes ≤ s.rest.length →
      Runs caller entered limit (g a t) (f a ⟨t, entered.depth⟩)) :
    Runs caller entered limit ((x >>= g) s) ((Code.call rule >>= f) ⟨s, entered.depth⟩) := by
  have called : Runs caller entered (s.rest.length + 1 - rule.takes) (x s)
      (Code.call rule ⟨s, entered.depth⟩) :=
    runs_call rule covers same descends (by omega)
  exact called.bind fun a t short _ => next a t (by omega)

theorem fail {cause : SyntaxCause} :
    Runs caller entered limit ((Parser.fail cause >>= g) s)
      ((Code.of (Parser.fail cause) >>= f) ⟨s, entered.depth⟩) :=
  of fun _ _ made => (fail_ne_ok made).elim

/-- The parser refuses with its last step. -/
theorem failed {cause : SyntaxCause} :
    Runs caller entered limit (Parser.fail cause s : Except SyntaxFault (β × Lexemes))
      ((Code.of (Parser.fail cause : Parse α) >>= f) ⟨s, entered.depth⟩) := by
  obtain ⟨rest, endLine⟩ := s
  cases rest with
  | nil => exact ⟨rfl, rfl, nofun⟩
  | cons x rest => exact ⟨rfl, rfl, nofun⟩

theorem failAt {n : Nat} {cause : SyntaxCause} :
    Runs caller entered limit ((Parser.failAt n cause >>= g) s)
      ((Code.of (Parser.failAt n cause) >>= f) ⟨s, entered.depth⟩) :=
  of fun _ _ made => nomatch made

/-- A call that takes at least one token. -/
theorem take (rule : Rule α) {budget : Option (List Lexeme)} (covers : Covers budget s)
    (same : x s = rule.parser budget entered.depth s) (takes : rule.takes = 1)
    (descends : Descends caller entered rule ⟨s, entered.depth⟩)
    (next : ∀ a t, t.rest.length < s.rest.length →
      Runs caller entered limit (g a t) (f a ⟨t, entered.depth⟩)) :
    Runs caller entered limit ((x >>= g) s) ((Code.call rule >>= f) ⟨s, entered.depth⟩) := by
  refine .call rule covers same descends fun a t taken => next a t ?_
  rw [takes] at taken
  exact taken

theorem line {g : Nat → Parse β} {f : Nat → Code β}
    (next : ∀ n, Runs caller entered limit (g n s) (f n ⟨s, entered.depth⟩)) :
    Runs caller entered limit ((Parser.line >>= g) s)
      ((Code.of Parser.line >>= f) ⟨s, entered.depth⟩) :=
  known rfl (next _)

theorem peek {g : Option Token → Parse β} {f : Option Token → Code β}
    (next : ∀ o, (∀ token, o = some token → 0 < s.rest.length) →
      Runs caller entered limit (g o s) (f o ⟨s, entered.depth⟩)) :
    Runs caller entered limit ((Parser.peek >>= g) s)
      ((Code.of Parser.peek >>= f) ⟨s, entered.depth⟩) :=
  known rfl (next _ fun _ ahead => pos_of_head ahead)

theorem skip {g : Unit → Parse β} {f : Unit → Code β}
    (next : ∀ t : Lexemes, t.rest.length = s.rest.length - 1 →
      Runs caller entered limit (g () t) (f () ⟨t, entered.depth⟩)) :
    Runs caller entered limit ((Parser.skip >>= g) s)
      ((Code.of Parser.skip >>= f) ⟨s, entered.depth⟩) := by
  refine of fun a t made => ?_
  obtain ⟨-, rfl⟩ := Prod.mk.inj (Except.ok.inj made)
  exact next _ List.length_drop

variable {hit miss : Parse α} {hitCode missCode : Code α} {token : Token}

/-- A token that may be next. -/
theorem next
    (onHit : 0 < s.rest.length → Runs caller entered limit (hit s) (hitCode ⟨s, entered.depth⟩))
    (onMiss : Runs caller entered limit (miss s) (missCode ⟨s, entered.depth⟩)) :
    Runs caller entered limit
      ((isNext token >>= fun found => if found = true then hit else miss) s)
      ((Code.of (isNext token) >>= fun found => if found = true then hitCode else missCode)
        ⟨s, entered.depth⟩) := by
  refine known (a := s.rest.head?.map (·.token) == some token) rfl ?_
  cases found : s.rest.head?.map (·.token) == some token with
  | true => exact onHit (pos_of_head (beq_iff_eq.mp found))
  | false => exact onMiss

/-- A token that is taken if it is next. -/
theorem eat (onHit : ∀ t : Lexemes, t.rest.length < s.rest.length →
      Runs caller entered limit (hit t) (hitCode ⟨t, entered.depth⟩))
    (onMiss : Runs caller entered limit (miss s) (missCode ⟨s, entered.depth⟩)) :
    Runs caller entered limit
      ((Parser.eat token >>= fun found => if found = true then hit else miss) s)
      ((Code.of (Parser.eat token) >>= fun found => if found = true then hitCode else missCode)
        ⟨s, entered.depth⟩) := by
  refine of fun found t made => ?_
  obtain ⟨rfl, fewer⟩ | ⟨rfl, rfl⟩ := eat_cases made
  · exact onHit t fewer
  · exact onMiss

theorem expect {c : Char} {g : Unit → Parse β} {f : Unit → Code β}
    (next : ∀ t : Lexemes, t.rest.length < s.rest.length →
      Runs caller entered limit (g () t) (f () ⟨t, entered.depth⟩)) :
    Runs caller entered limit ((Parser.expect c >>= g) s)
      ((Code.of (Parser.expect c) >>= f) ⟨s, entered.depth⟩) :=
  of fun _ t made => next t (fewer_expect made)

theorem identifier {g : String → Parse β} {f : String → Code β}
    (next : ∀ text t, t.rest.length < s.rest.length →
      Runs caller entered limit (g text t) (f text ⟨t, entered.depth⟩)) :
    Runs caller entered limit ((Parser.identifier >>= g) s)
      ((Code.of Parser.identifier >>= f) ⟨s, entered.depth⟩) :=
  of fun text t made => next text t (fewer_identifier made)

/-- A loop is at its end, where no tokens are left, or it takes one before it goes on. -/
theorem loop {budget : Option (List Lexeme)} {loop : List Lexeme → Parse α} {o : Outcome α}
    (covers : Covers budget s) (stop : s.rest = [] → Runs caller entered limit (loop [] s) o)
    (round : ∀ x more, Covers (some (x :: more)) s →
      Runs caller entered limit (loop (x :: more) s) o) :
    Runs caller entered limit (within budget loop s) o := by
  unfold within
  unfold Covers at covers
  cases given : budget.getD s.rest with
  | nil =>
    rw [given] at covers
    exact stop (List.length_eq_zero_iff.mp (Nat.le_zero.mp covers))
  | cons x more =>
    rw [given] at covers
    exact round x more covers

end Runs

end Steps

end JavaSnippet.Source.Parser
