import Mathlib.Logic.Relation
import JavaSnippet.Proofs.Source.Lockstep
/-!
A parse comes to an end, and at every moment of it the counter tells how many unary expressions are
open, at most 128. What waits on the stack is kept as an invariant: each activation there was called
nearer to the end than its caller, and goes on as it should with whatever the one above may return.
-/
namespace JavaSnippet.Source.Parser

variable {α β : Type}

/-- All that wait can go on after the newest activation, a rule entered in a state. -/
def Stack.Awaits : {α : Type} → Rule α → State → Stack α → Prop
  | _, rule, entered, .bottom => rule.Fits entered.depth ∧ entered.depth = rule.nests
  | _, rule, entered, .push caller start resume rest =>
    Descends caller start rule entered ∧
    (∀ result t, Returns rule entered result t →
      (resume result t).Meets caller start (Returns caller start)) ∧
    rest.Awaits caller start

theorem Rule.Fits.le {rule : Rule α} {depth : Nat} (fits : rule.Fits depth) :
    depth ≤ maxNesting := by
  cases rule <;> first | exact fits | exact Nat.le_trans (Nat.le_of_eq fits) (Nat.zero_le _)

theorem Rule.rank_lt (rule : Rule α) : rule.rank < 7 := by
  unfold Rule.rank
  split <;> decide

theorem Stack.Awaits.fits {rule : Rule α} {entered : State} {stack : Stack α}
    (h : stack.Awaits rule entered) : rule.Fits entered.depth := by
  cases stack with
  | bottom => exact h.1
  | push caller start resume rest => exact h.1.fits

theorem Stack.Awaits.depth {rule : Rule α} {entered : State} {stack : Stack α}
    (h : stack.Awaits rule entered) : entered.depth = rule.nests + stack.nested := by
  induction stack generalizing entered with
  | bottom => exact h.2
  | push caller start resume rest ih =>
    have below := ih h.2.2
    have above := h.1.depth
    rw [Stack.nested]
    omega

namespace Config

/-- What holds at every moment. -/
structure Safe (c : Config) : Prop where
  meets : c.outcome.Meets c.rule c.entered (Returns c.rule c.entered)
  awaits : c.stack.Awaits c.rule c.entered

theorem safe_start (lexemes : Lexemes) : (start lexemes).Safe :=
  ⟨Rule.meets_code .unit rfl, rfl, rfl⟩

theorem Safe.step {c d : Config} (safe : c.Safe) (stepped : c.step = some d) : d.Safe := by
  obtain ⟨rule, entered, outcome, stack⟩ := c
  obtain ⟨meets, awaits⟩ := safe
  cases outcome with
  | call callee s resume =>
    obtain rfl := Option.some.inj stepped
    exact ⟨callee.meets_code meets.1.fits, meets.1, meets.2, awaits⟩
  | done result s =>
    cases stack with
    | bottom => cases stepped
    | push caller start resume rest =>
      obtain rfl := Option.some.inj stepped
      exact ⟨awaits.2.1 result s meets, awaits.2.2⟩

/-- One moment comes after another. -/
def Reaches : Config → Config → Prop := Relation.ReflTransGen fun c d => c.step = some d

theorem Safe.reaches {c d : Config} (safe : c.Safe) (run : Reaches c d) : d.Safe := by
  induction run with
  | refl => exact safe
  | tail _ stepped ih => exact ih.step stepped

/-- What can be seen of a parse at a moment. -/
structure Sound (c : Config) : Prop where
  counted : c.depth = c.nested
  bounded : c.nested ≤ maxNesting
  /-- A call is made after a token was taken, or it goes down in the grammar. -/
  descends : ∀ {β : Type} (callee : Rule β) (s : State)
    (resume : Except SyntaxFault β → State → Outcome c.α), c.outcome = .call callee s resume →
    s.left < c.entered.left ∨ s.left = c.entered.left ∧ callee.rank < c.rule.rank
  /-- An activation ends with what the parser gives for its rule. -/
  agrees : ∀ result s, c.outcome = .done result s →
    Agrees (c.rule.parser none c.entered.depth c.entered.lexemes) result s.lexemes
  /-- Looking ahead ends where it began. -/
  restores : ∀ result s, c.outcome = .done result s → c.rule.looksAhead = true → s = c.entered

theorem Safe.sound {c : Config} (safe : c.Safe) : c.Sound := by
  obtain ⟨rule, entered, outcome, stack⟩ := c
  obtain ⟨meets, awaits⟩ := safe
  have atEntry := awaits.depth
  cases outcome with
  | call callee s resume =>
    have counted : s.depth = callee.nests + (rule.nests + stack.nested) := by
      rw [meets.1.depth, atEntry, Nat.add_comm]
    refine ⟨counted, Nat.le_trans (Nat.le_of_eq counted.symm) meets.1.fits.le, ?_, nofun, nofun⟩
    intro β other t further same
    cases same
    exact meets.1.smaller
  | done result s =>
    have counted : s.depth = rule.nests + stack.nested := meets.depth.trans atEntry
    refine ⟨counted, Nat.le_trans (Nat.le_of_eq atEntry.symm) awaits.fits.le, nofun, ?_, ?_⟩
    · intro other t same
      cases same
      exact meets.agrees none (covers_none _)
    · intro other t same looks
      cases same
      exact meets.back looks

/-- The end of a parse, with what the parser gives. -/
def finish (lexemes left : Lexemes) : Config :=
  ⟨.unit, ⟨lexemes, 0⟩, .done ((compilationUnit lexemes).map (·.1)) ⟨left, 0⟩, .bottom⟩

end Config

section Ending

/-- An activation comes to its end if those that it calls do. -/
theorem Outcome.Meets.reaches {rule : Rule α} {entered : State} {stack : Stack α}
    {post : Except SyntaxFault α → State → Prop} {o : Outcome α} (meets : o.Meets rule entered post)
    (calls : ∀ {β : Type} (callee : Rule β) (s : State) (above : Stack β),
      Descends rule entered callee s → ∃ result t, Returns callee s result t ∧
        Config.Reaches ⟨callee, s, callee.code s, above⟩ ⟨callee, s, .done result t, above⟩) :
    ∃ result t, post result t ∧
      Config.Reaches ⟨rule, entered, o, stack⟩ ⟨rule, entered, .done result t, stack⟩ := by
  induction o with
  | done result t => exact ⟨result, t, meets, .refl⟩
  | call callee s resume ih =>
    obtain ⟨given, u, returns, called⟩ :=
      calls callee s (.push rule entered resume stack) meets.1
    obtain ⟨result, t, holds, rest⟩ := ih given u (meets.2 given u returns)
    exact ⟨result, t, holds, .head rfl (called.trans (.head rfl rest))⟩

theorem Rule.reaches_done (rule : Rule α) {entered : State} (fits : rule.Fits entered.depth)
    (stack : Stack α) : ∃ result t, Returns rule entered result t ∧
      Config.Reaches ⟨rule, entered, rule.code entered, stack⟩
        ⟨rule, entered, .done result t, stack⟩ := by
  induction size : entered.left * 7 + rule.rank using Nat.strongRecOn
    generalizing α entered with
  | _ size ih =>
    refine (rule.meets_code fits).reaches fun callee s above descends => ?_
    refine ih _ ?_ callee descends.fits above rfl
    -- One token counts for more than all of the grammar.
    have low : callee.rank < 7 := callee.rank_lt
    obtain fewer | ⟨same, lower⟩ := descends.smaller <;> omega

theorem Agrees.map {x : Except SyntaxFault (α × Lexemes)} {result : Except SyntaxFault α}
    {s : Lexemes} (h : Agrees x result s) : result = x.map (·.1) := by
  cases x with
  | error fault => exact h
  | ok made => exact h.1

/-- Whatever the tokens, every moment of a parse is sound, and comes before the same end. -/
theorem terminates_within_nesting (lexemes : Lexemes) :
    ∃ left, (Config.finish lexemes left).step = none ∧
      ∀ c, Config.Reaches (.start lexemes) c →
        c.Sound ∧ Config.Reaches c (.finish lexemes left) := by
  obtain ⟨result, ⟨left, depth⟩, returns, finished⟩ :=
    Rule.unit.reaches_done (rfl : Rule.unit.Fits (State.mk lexemes 0).depth) .bottom
  obtain rfl : depth = 0 := returns.depth
  obtain rfl := (returns.agrees none (covers_none _)).map
  refine ⟨left, rfl, fun c run => ⟨((Config.safe_start lexemes).reaches run).sound, ?_⟩⟩
  -- A step has one outcome, so of two moments one comes before the other.
  obtain ahead | behind := Relation.ReflTransGen.total_of_right_unique
    (fun _ _ _ first second => Option.some.inj (first.symm.trans second)) run finished
  · exact ahead
  · obtain rfl | ⟨_, stepped, _⟩ := behind.cases_head
    · exact .refl
    · cases stepped

end Ending

end JavaSnippet.Source.Parser
