import JavaSnippet.Proofs.Source.Reading
import Mathlib.Data.List.Forall2
/-!
Printed expressions are parsed. Each kind of expression is taken by the loop of its own level, which
goes on from it with whatever comes next; an expression at a place is taken there because its
parentheses are enough. The induction is on the expression.
-/
namespace JavaSnippet.Source

namespace Parser

variable {x operand u : Parse Expr} {tokens left : List Token} {e : Expr}

section Levels

/-- The tokens start with none of the punctuation. -/
def Avoids (stops : List Char) (tokens : List Token) : Prop :=
  ∀ c ∈ stops, tokens.head? ≠ some (.punct c)

theorem Avoids.mono {stops stops' : List Char} (h : Avoids stops' tokens) (fewer : stops ⊆ stops') :
    Avoids stops tokens := fun c here => h c (fewer here)

theorem avoids_punct {stops : List Char} {c : Char} (other : c ∉ stops) :
    Avoids stops (.punct c :: tokens) := by
  rintro d here same
  obtain rfl : c = d := Token.punct.inj (Option.some.inj same)
  exact other here

/-- The tokens of an expression start like one. -/
def Opens (tokens : List Token) : Prop :=
  ∃ t rest, tokens = t :: rest ∧ ∀ c, t = .punct c → c = '(' ∨ c = '-'

theorem Opens.head_ne (h : Opens tokens) {c : Char} (noParenthesis : c ≠ '(') (noMinus : c ≠ '-')
    (left : List Token) : (tokens ++ left).head? ≠ some (.punct c) := by
  obtain ⟨t, rest, rfl, opens⟩ := h
  intro same
  rcases opens c (Option.some.inj same) with one | other
  · exact noParenthesis one
  · exact noMinus other

theorem Opens.append (h : Opens tokens) (left : List Token) : Opens (tokens ++ left) := by
  obtain ⟨t, rest, rfl, opens⟩ := h
  exact ⟨t, rest ++ left, rfl, opens⟩

/-- In front of tokens that do not go on with it, a parser takes an expression. -/
def Yields (x : Parse Expr) (stops : List Char) (tokens : List Token) (e : Expr) : Prop :=
  ∀ left, Avoids stops left → Takes x (tokens ++ left) left (·.withoutLines = e.withoutLines)

/-- A parser takes what it does by entering a loop with an expression. -/
def Enters (x : Parse Expr) (loop : List Lexeme → Expr → Parse Expr) (stops : List Char)
    (tokens : List Token) (e : Expr) : Prop :=
  ∀ left, Avoids stops left → ∀ (final : List Token) (P : Expr → Prop),
    (∀ budget found, left.length ≤ budget.length → found.withoutLines = e.withoutLines →
      Takes (loop budget found) left final P) → Takes x (tokens ++ left) final P

theorem Enters.yields {loop : List Lexeme → Expr → Parse Expr} {stops stops' : List Char}
    (h : Enters x loop stops tokens e) (fewer : stops ⊆ stops')
    (ends : ∀ budget found left, Avoids stops' left →
      Takes (loop budget found) left left (· = found)) :
    Yields x stops' tokens e := by
  intro left apart
  refine h left (apart.mono fewer) left _ fun budget found _ like => ?_
  exact (ends budget found left apart).mono fun _ same => by rw [same, like]

/-- A subject that selections and calls may follow. -/
abbrev Chained (u : Parse Expr) (tokens : List Token) (e : Expr) : Prop :=
  Enters (signed u) (postfixFrom (expressionOf u)) ['('] tokens e

abbrev Unary (u : Parse Expr) (tokens : List Token) (e : Expr) : Prop :=
  Yields u ['(', '.'] tokens e

/-- A left operand of multiplications. -/
abbrev Product (u : Parse Expr) (tokens : List Token) (e : Expr) : Prop :=
  Enters (operations multiplicative? u) (operationsFrom multiplicative? u) ['(', '.'] tokens e

/-- A left operand of additions. -/
abbrev Sum (u : Parse Expr) (tokens : List Token) (e : Expr) : Prop :=
  Enters (expressionOf u) (operationsFrom additive? (operations multiplicative? u))
    ['(', '.', '*', '/', '%'] tokens e

abbrev Whole (u : Parse Expr) (tokens : List Token) (e : Expr) : Prop :=
  Yields (expressionOf u) ['(', '.', '*', '/', '%', '+', '-'] tokens e

end Levels

section Operations

variable {operator : Token → Option ArithOp} {stops : List Char}

theorem takes_operationsFrom_done (ends : ∀ t, tokens.head? = some t → operator t = none)
    (budget : List Lexeme) (found : Expr) :
    Takes (operationsFrom operator operand budget found) tokens tokens (· = found) := by
  unfold operationsFrom
  cases budget with
  | nil => exact takes_pure rfl
  | cons y budget =>
    refine takes_peek.known ?_
    have none : tokens.head?.bind operator = none := by
      cases head : tokens.head? with
      | none => rfl
      | some t => exact ends t head
    rw [none]
    exact takes_pure rfl

theorem enters_operations (h : Yields operand stops tokens e) :
    Enters (operations operator operand) (operationsFrom operator operand) stops tokens e := by
  intro left apart final P loop
  refine (h left apart).bind fun found like => ?_
  refine takes_get.bind fun s here => ?_
  exact loop _ _ (room_of_rest here) like

theorem enters_binary {op : ArithOp} {ls rs : List Token} {l r : Expr} (line : Nat)
    (isLeft : Enters (operations operator operand) (operationsFrom operator operand) stops ls l)
    (isRight : Yields operand stops rs r) (isOperator : operator (.punct op.symbol) = some op)
    (starts : op.symbol ∉ stops) :
    Enters (operations operator operand) (operationsFrom operator operand) stops
      (ls ++ .punct op.symbol :: rs) (.binary op l r line) := by
  intro left apart final P loop
  rw [List.append_assoc, List.cons_append]
  refine isLeft _ (avoids_punct starts) final P fun budget found room like => ?_
  unfold operationsFrom
  cases budget with
  | nil => simp at room
  | cons y budget =>
    simp only [List.length_cons, List.length_append, Nat.add_le_add_iff_right] at room
    refine takes_peek.known ?_
    simp only [List.head?_cons, Option.bind_some, isOperator]
    refine takes_line.bind fun start _ => takes_skip.bind fun _ _ => ?_
    refine (isRight left apart).bind fun found' like' => ?_
    refine loop budget _ (by omega) ?_
    rw [Expr.withoutLines, Expr.withoutLines, like, like']

theorem additive_none {t : Token} (h : Avoids ['+', '-'] tokens) (isHead : tokens.head? = some t) :
    additive? t = none := by
  unfold additive?
  split
  · exact absurd isHead (h '+' (by decide))
  · exact absurd isHead (h '-' (by decide))
  · rfl

theorem multiplicative_none {t : Token} (h : Avoids ['*', '/', '%'] tokens)
    (isHead : tokens.head? = some t) : multiplicative? t = none := by
  unfold multiplicative?
  split
  · exact absurd isHead (h '*' (by decide))
  · exact absurd isHead (h '/' (by decide))
  · exact absurd isHead (h '%' (by decide))
  · rfl

theorem Unary.product (h : Unary u tokens e) : Product u tokens e := enters_operations h

theorem Product.yields (h : Product u tokens e) :
    Yields (operations multiplicative? u) ['(', '.', '*', '/', '%'] tokens e :=
  Enters.yields h (by decide) fun budget found _ apart =>
    takes_operationsFrom_done (fun _ => multiplicative_none (apart.mono (by decide))) budget found

theorem Product.sum (h : Product u tokens e) : Sum u tokens e := enters_operations h.yields

theorem Sum.whole (h : Sum u tokens e) : Whole u tokens e :=
  Enters.yields h (by decide) fun budget found _ apart =>
    takes_operationsFrom_done (fun _ => additive_none (apart.mono (by decide))) budget found

end Operations

section Postfixes

theorem takes_postfixFrom_done (apart : Avoids ['.'] tokens) (budget : List Lexeme) (found : Expr) :
    Takes (postfixFrom x budget found) tokens tokens (· = found) := by
  unfold postfixFrom
  cases budget with
  | nil => exact takes_pure rfl
  | cons y budget =>
    refine (takes_isNext_miss (apart '.' (by decide))).known ?_
    exact takes_pure rfl

theorem Chained.unary (h : Chained u tokens e) : Unary (signed u) tokens e :=
  Enters.yields h (by decide) fun budget found _ apart =>
    takes_postfixFrom_done (apart.mono (by decide)) budget found

theorem chained_select {q : Expr} {member : String} (line : Nat) (h : Chained u tokens q)
    (free : member ∉ keywords) :
    Chained u (tokens ++ [.punct '.', .word member]) (.select q member line) := by
  intro left apart final P loop
  rw [List.append_assoc]
  refine h (.punct '.' :: .word member :: left) (avoids_punct (by decide)) final P
    fun budget found room like => ?_
  unfold postfixFrom
  cases budget with
  | nil => simp at room
  | cons y budget =>
    simp only [List.length_cons, Nat.add_le_add_iff_right] at room
    refine takes_isNext_hit.known ?_
    refine takes_skip.bind fun _ _ => takes_line.bind fun start _ => ?_
    refine (takes_identifier free).known ?_
    refine (takes_isNext_miss (apart '(' (by decide))).known ?_
    refine loop budget _ (by omega) ?_
    rw [Expr.withoutLines, Expr.withoutLines, like]

end Postfixes

section Arguments

theorem allWithoutLines_eq_map (es : List Expr) :
    Expr.allWithoutLines es = es.map Expr.withoutLines := by
  induction es with
  | nil => rfl
  | cons e es ih => rw [Expr.allWithoutLines, ih, List.map_cons]

/-- The tokens of an argument. -/
structure Argument (x : Parse Expr) (tokens : List Token) (e : Expr) : Prop where
  yields : Yields x ['(', '.', '*', '/', '%', '+', '-'] tokens e
  opens : Opens tokens

theorem takes_argumentsFrom {items : List (List Token)} {args : List Expr}
    (h : List.Forall₂ (Argument x) items args) {tokens : List Token} {e : Expr}
    (first : Argument x tokens e) (left : List Token) {budget : List Lexeme}
    (room : items.length ≤ budget.length) (found : List Expr) :
    Takes (argumentsFrom x budget found)
      (List.intercalate [.punct ','] (tokens :: items) ++ .punct ')' :: left) left
      fun all => Expr.allWithoutLines all = Expr.allWithoutLines (found.reverse ++ e :: args) := by
  induction h generalizing tokens e budget found with
  | nil =>
    unfold argumentsFrom
    rw [List.intercalate_singleton]
    refine (first.yields _ (avoids_punct (by decide))).bind fun arg like => ?_
    refine takes_eat_hit.known ?_
    refine takes_pure ?_
    simp only [allWithoutLines_eq_map, List.reverse_cons, List.map_append, List.map_cons, like,
      List.map_nil]
  | @cons second next items args isSecond others ih =>
    unfold argumentsFrom
    rw [List.intercalate_cons_cons, List.append_assoc, List.append_assoc]
    refine (first.yields _ (avoids_punct (by decide))).bind fun arg like => ?_
    refine (takes_eat_miss (by simp)).known ?_
    refine takes_isNext_hit.known ?_
    refine takes_skip.bind fun _ _ => ?_
    cases budget with
    | nil => simp at room
    | cons y budget =>
      refine (ih isSecond (Nat.le_of_succ_le_succ room) (arg :: found)).mono fun all same => ?_
      rw [same]
      simp only [allWithoutLines_eq_map, List.reverse_cons, List.map_append, List.map_cons, like,
        List.append_assoc, List.singleton_append]

theorem opens_intercalate {tokens : List Token} {items : List (List Token)}
    (h : ∀ item ∈ tokens :: items, Opens item) :
    Opens (List.intercalate [.punct ','] (tokens :: items)) := by
  have first := h tokens List.mem_cons_self
  cases items with
  | nil =>
    rw [List.intercalate_singleton]
    exact first
  | cons second items =>
    rw [List.intercalate_cons_cons, List.append_assoc]
    exact first.append _

theorem length_le_intercalate {items : List (List Token)} (h : ∀ tokens ∈ items, Opens tokens) :
    items.length ≤ (List.intercalate [Token.punct ','] items).length := by
  induction items with
  | nil => exact Nat.zero_le _
  | cons tokens items ih =>
    obtain ⟨opens, others⟩ := List.forall_mem_cons.mp h
    obtain ⟨t, rest, rfl, -⟩ := opens
    cases items with
    | nil => simp
    | cons second items =>
      have := ih others
      rw [List.intercalate_cons_cons]
      simp only [List.length_cons, List.length_append, List.length_nil] at this ⊢
      omega

theorem opens_of_arguments {items : List (List Token)} {args : List Expr}
    (h : List.Forall₂ (Argument x) items args) : ∀ tokens ∈ items, Opens tokens := by
  induction h with
  | nil => simp
  | cons first others ih => exact List.forall_mem_cons.mpr ⟨first.opens, ih⟩

theorem takes_arguments {items : List (List Token)} {args : List Expr}
    (h : List.Forall₂ (Argument x) items args) (left : List Token) :
    Takes (arguments x) (listed items ++ left) left
      fun all => Expr.allWithoutLines all = Expr.allWithoutLines args := by
  rw [listed, List.cons_append, List.append_assoc]
  refine takes_expect.bind fun _ _ => ?_
  cases h with
  | nil =>
    refine takes_eat_hit.known ?_
    exact takes_pure rfl
  | @cons tokens e items args first others =>
    have areOpen := List.forall_mem_cons.mpr ⟨first.opens, opens_of_arguments others⟩
    have start := opens_intercalate areOpen
    refine (takes_eat_miss (start.head_ne (by decide) (by decide) _)).known ?_
    refine takes_get.bind fun s here => ?_
    refine takes_argumentsFrom others first left ?_ []
    have counted := length_le_intercalate areOpen
    have := room_of_rest here
    simp only [List.length_append, List.length_cons] at this counted
    omega

end Arguments

section Primaries

theorem yields_bool (value : Bool) (line : Nat) :
    Yields (primary x) ['('] [.word (if value then "true" else "false")] (.bool value line) := by
  intro left apart
  refine takes_line.bind fun start _ => takes_peek.known ?_
  cases value with
  | true => exact takes_skip.bind fun _ _ => takes_pure rfl
  | false => exact takes_skip.bind fun _ _ => takes_pure rfl

theorem yields_null (line : Nat) : Yields (primary x) ['('] [.word "null"] (.null line) := by
  intro left apart
  refine takes_line.bind fun start _ => takes_peek.known ?_
  exact takes_skip.bind fun _ _ => takes_pure rfl

/-- Words that start an expression of their own. -/
theorem worded_free {text : String} (free : text ∉ keywords) (line : Nat) :
    worded x line text = (do
      skip
      if ← isNext (.punct '(') then return .call text (← arguments x) line
      else return .name text line) := by
  unfold worded
  split
  · exact absurd (by decide) free
  · exact absurd (by decide) free
  · exact absurd (by decide) free
  · exact absurd (by decide) free
  · rw [if_neg free]

theorem yields_name {text : String} (free : text ∉ keywords) (line : Nat) :
    Yields (primary x) ['('] [.word text] (.name text line) := by
  intro left apart
  refine takes_line.bind fun start _ => takes_peek.known ?_
  show Takes (worded x start text) _ _ _
  rw [worded_free free]
  refine takes_skip.bind fun _ _ => ?_
  refine (takes_isNext_miss (apart '(' (by decide))).known ?_
  exact takes_pure rfl

theorem yields_call {text : String} {items : List (List Token)} {args : List Expr}
    (free : text ∉ keywords) (h : List.Forall₂ (Argument x) items args) (line : Nat) :
    Yields (primary x) ['('] (.word text :: listed items) (.call text args line) := by
  intro left apart
  refine takes_line.bind fun start _ => takes_peek.known ?_
  show Takes (worded x start text) _ _ _
  rw [worded_free free]
  refine takes_skip.bind fun _ _ => ?_
  refine takes_isNext_hit.known ?_
  refine (takes_arguments h left).bind fun all same => ?_
  exact takes_pure (by rw [Expr.withoutLines, Expr.withoutLines, same])

theorem yields_create {type : TypeName} {items : List (List Token)} {args : List Expr}
    (isName : type.isName = true) (noArray : type.dimensions = 0)
    (h : List.Forall₂ (Argument x) items args) (line : Nat) :
    Yields (primary x) ['('] (.word "new" :: (type.tokens ++ listed items))
      (.create type args line) := by
  intro left apart
  refine takes_line.bind fun start _ => takes_peek.known ?_
  show Takes (worded x start "new") _ _ _
  have apart' : type.tokens ++ listed items ++ left = type.tokens ++ (listed items ++ left) :=
    List.append_assoc _ _ _
  rw [List.cons_append, apart']
  refine takes_skip.bind fun _ _ => ?_
  have ends : EndsType (listed items ++ left) := by
    have opens : Avoids ['.', '['] (listed items ++ left) := avoids_punct (by decide)
    exact ⟨opens '.' (by decide), opens '[' (by decide)⟩
  refine (takes_typeName isName ends).bind fun found like => ?_
  have flat : found.dimensions = 0 := (congrArg TypeName.dimensions like).trans noArray
  simp only [flat, ne_eq, not_true_eq_false, if_false]
  refine (takes_arguments h left).bind fun all same => ?_
  exact takes_pure (by rw [Expr.withoutLines, Expr.withoutLines, same, like])

theorem yields_parentheses
    (h : Yields x ['(', '.', '*', '/', '%', '+', '-'] tokens e) :
    Yields (primary x) ['('] (.punct '(' :: (tokens ++ [.punct ')'])) e := by
  intro left apart
  rw [List.cons_append, List.append_assoc]
  refine takes_line.bind fun start _ => takes_peek.known ?_
  refine takes_skip.bind fun _ _ => ?_
  refine (h _ (avoids_punct (by decide))).bind fun found like => ?_
  refine takes_expect.bind fun _ _ => ?_
  exact takes_pure like

theorem yields_int (value : UInt64) (line : Nat) :
    Yields (primary x) ['('] [.int value] (.int value.toNat line) := by
  intro left apart
  refine takes_line.bind fun start _ => takes_peek.known ?_
  exact takes_skip.bind fun _ _ => takes_pure rfl

theorem yields_long (value : UInt64) (line : Nat) :
    Yields (primary x) ['('] [.long value] (.long value.toNat line) := by
  intro left apart
  refine takes_line.bind fun start _ => takes_peek.known ?_
  exact takes_skip.bind fun _ _ => takes_pure rfl

theorem yields_string (text : String) (line : Nat) :
    Yields (primary x) ['('] [.string text] (.string text line) := by
  intro left apart
  refine takes_line.bind fun start _ => takes_peek.known ?_
  exact takes_skip.bind fun _ _ => takes_pure rfl

end Primaries

section Signs

theorem chained_primary {t : Token} {rest : List Token} (noPlus : t ≠ .punct '+')
    (noMinus : t ≠ .punct '-') (h : Yields (primary (expressionOf u)) ['('] (t :: rest) e) :
    Chained u (t :: rest) e := by
  intro left apart final P loop
  unfold signed
  refine takes_line.bind fun start _ => ?_
  refine (takes_eat_miss (by simpa using noPlus)).known ?_
  refine (takes_eat_miss (by simpa using noMinus)).known ?_
  refine (h left apart).bind fun found like => ?_
  refine takes_get.bind fun s here => ?_
  exact loop _ _ (room_of_rest here) like

/-- A minus sign becomes part of a literal behind it, and what follows applies to the literal. -/
theorem chained_negative_int (value : UInt64) (line : Nat) :
    Chained u [.punct '-', .int value] (.int (-value.toNat) line) := by
  intro left apart final P loop
  unfold signed
  refine takes_line.bind fun start _ => ?_
  refine (takes_eat_miss (by simp)).known ?_
  refine takes_eat_hit.known ?_
  refine takes_peek.known ?_
  refine takes_skip.bind fun _ _ => takes_get.bind fun s here => ?_
  exact loop _ _ (room_of_rest here) rfl

theorem chained_negative_long (value : UInt64) (line : Nat) :
    Chained u [.punct '-', .long value] (.long (-value.toNat) line) := by
  intro left apart final P loop
  unfold signed
  refine takes_line.bind fun start _ => ?_
  refine (takes_eat_miss (by simp)).known ?_
  refine takes_eat_hit.known ?_
  refine takes_peek.known ?_
  refine takes_skip.bind fun _ _ => takes_get.bind fun s here => ?_
  exact loop _ _ (room_of_rest here) rfl

theorem toNat_natAbs {value : Int} (small : value.natAbs < UInt64.size) :
    value.natAbs.toUInt64.toNat = value.natAbs := Nat.mod_eq_of_lt small

/-- A literal is taken with its sign when both of its forms are. -/
theorem chained_numeral {token : UInt64 → Token} (literal : Int → Expr) {value : Int}
    (small : value.natAbs < UInt64.size)
    (plain : ∀ n : UInt64, Chained u [token n] (literal n.toNat))
    (negative : ∀ n : UInt64, Chained u [.punct '-', token n] (literal (-n.toNat))) :
    Chained u (numeral token value) (literal value) := by
  unfold numeral
  split
  · have same := negative value.natAbs.toUInt64
    rwa [toNat_natAbs small, show -(value.natAbs : Int) = value by omega] at same
  · have same := plain value.natAbs.toUInt64
    rwa [toNat_natAbs small, show (value.natAbs : Int) = value by omega] at same

theorem chained_int {value : Int} (small : value.natAbs < UInt64.size) (line : Nat) :
    Chained u (numeral .int value) (.int value line) :=
  chained_numeral (.int · line) small
    (fun n => chained_primary (by simp) (by simp) (yields_int n line))
    fun n => chained_negative_int n line

theorem chained_long {value : Int} (small : value.natAbs < UInt64.size) (line : Nat) :
    Chained u (numeral .long value) (.long value line) :=
  chained_numeral (.long · line) small
    (fun n => chained_primary (by simp) (by simp) (yields_long n line))
    fun n => chained_negative_long n line

/-- No literal comes first, which a minus sign in front would become part of. -/
def NoLiteral (tokens : List Token) : Prop :=
  ∃ t rest, tokens = t :: rest ∧ ∀ value, t ≠ .int value ∧ t ≠ .long value

theorem unary_neg (h : Unary u tokens e) (noLiteral : NoLiteral tokens) (line : Nat) :
    Unary (signed u) (.punct '-' :: tokens) (.neg e line) := by
  intro left apart
  obtain ⟨t, rest, rfl, free⟩ := noLiteral
  unfold signed
  refine takes_line.bind fun start _ => ?_
  refine (takes_eat_miss (by simp)).known ?_
  refine takes_eat_hit.known ?_
  refine takes_peek.known ?_
  have operand : Takes (do return Expr.neg (← u) start) (t :: rest ++ left) left
      fun found => found.withoutLines = (Expr.neg e line).withoutLines :=
    (h left apart).bind fun found like => takes_pure (by
      rw [Expr.withoutLines, Expr.withoutLines, like])
  split
  · rename_i value same
    exact absurd (Option.some.inj same) (free value).1
  · rename_i value same
    exact absurd (Option.some.inj same) (free value).2
  · exact operand

theorem chained_callOn {receiver : Expr} {method : String} {items : List (List Token)}
    {args : List Expr} (line : Nat) (h : Chained u tokens receiver) (free : method ∉ keywords)
    (arguments : List.Forall₂ (Argument (expressionOf u)) items args) :
    Chained u (tokens ++ .punct '.' :: .word method :: listed items)
      (.callOn receiver method args line) := by
  intro left apart final P loop
  rw [List.append_assoc]
  refine h (.punct '.' :: .word method :: (listed items ++ left)) (avoids_punct (by decide)) final P
    fun budget found room like => ?_
  unfold postfixFrom
  cases budget with
  | nil => simp at room
  | cons y budget =>
    simp only [List.length_cons, List.length_append, Nat.add_le_add_iff_right] at room
    refine takes_isNext_hit.known ?_
    refine takes_skip.bind fun _ _ => takes_line.bind fun start _ => ?_
    refine (takes_identifier free).known ?_
    refine takes_isNext_hit.known ?_
    refine (takes_arguments arguments left).bind fun all same => ?_
    refine loop budget _ (by omega) ?_
    rw [Expr.withoutLines, Expr.withoutLines, like, same]

end Signs

section Levels

variable {style : Style} {place : Position}

theorem opens_numeral (token : UInt64 → Token) (noPunct : ∀ value c, token value ≠ .punct c)
    (value : Int) : Opens (numeral token value) := by
  unfold numeral
  split
  · exact ⟨_, _, rfl, fun c same => .inr (Token.punct.inj same).symm⟩
  · exact ⟨_, _, rfl, fun c same => absurd same (noPunct _ c)⟩

theorem Opens.parenthesized (h : Opens tokens) (inside : Bool) :
    Opens (Source.parenthesized inside tokens) := by
  cases inside with
  | true => exact ⟨_, _, rfl, fun c same => .inl (Token.punct.inj same).symm⟩
  | false => exact h

theorem opens_word (text : String) (rest : List Token) : Opens (.word text :: rest) :=
  ⟨_, _, rfl, fun c same => by cases same⟩

theorem opens_tokens (style : Style) (e : Expr) : Opens (e.tokens style) := by
  match e with
  | .int value _ => exact opens_numeral .int (fun _ _ same => by cases same) value
  | .long value _ => exact opens_numeral .long (fun _ _ same => by cases same) value
  | .string text _ => exact ⟨_, _, rfl, fun c same => by cases same⟩
  | .bool value _ => exact opens_word _ _
  | .null _ => exact opens_word _ _
  | .name text _ => exact opens_word _ _
  | .select qualifier member _ => exact ((opens_tokens style qualifier).parenthesized _).append _
  | .neg operand _ => exact ⟨_, _, rfl, fun c same => .inr (Token.punct.inj same).symm⟩
  | .binary op left right _ => exact ((opens_tokens style left).parenthesized _).append _
  | .call method args _ => exact opens_word _ _
  | .callOn receiver method args _ => exact ((opens_tokens style receiver).parenthesized _).append _
  | .create type args _ => exact opens_word _ _

theorem NoLiteral.append (h : NoLiteral tokens) (left : List Token) :
    NoLiteral (tokens ++ left) := by
  obtain ⟨t, rest, rfl, free⟩ := h
  exact ⟨t, rest ++ left, rfl, free⟩

theorem noLiteral_cons {t : Token} (free : ∀ value, t ≠ .int value ∧ t ≠ .long value)
    (rest : List Token) : NoLiteral (t :: rest) := ⟨t, rest, rfl, free⟩

theorem noLiteral_numeral {token : UInt64 → Token} {value : Int} (negative : ¬ 0 ≤ value) :
    NoLiteral (numeral token value) := by
  rw [numeral, if_pos (by omega)]
  exact noLiteral_cons (by simp) _

theorem noLiteral_tokensAt {e : Expr} (h : style place e = false → NoLiteral (e.tokens style)) :
    NoLiteral (e.tokensAt style place) := by
  unfold Expr.tokensAt
  cases inside : style place e with
  | true => exact noLiteral_cons (by simp) _
  | false => exact h inside

/-- What stands without parentheses needs none. -/
theorem needless (safe : style.IsSafe) {e : Expr} (bare : style place e = false) :
    Position.needsParentheses place e = false := by
  rw [← Bool.not_eq_true]
  intro needed
  exact absurd ((safe place e needed).symm.trans bare) (by decide)

theorem negated_of_receiver {e : Expr} (h : Position.needsParentheses .receiver e = false) :
    Position.needsParentheses .negated e = false := by
  cases e with
  | int value line => exact h
  | long value line => exact h
  | binary op left right line => cases h
  | _ => rfl

/-- What may follow a minus sign without parentheses does not start with a literal. -/
theorem noLiteral_tokens (safe : style.IsSafe) (e : Expr)
    (bare : Position.needsParentheses .negated e = false) : NoLiteral (e.tokens style) := by
  match e with
  | .int value _ => exact noLiteral_numeral (of_decide_eq_false bare)
  | .long value _ => exact noLiteral_numeral (of_decide_eq_false bare)
  | .binary _ _ _ _ => cases bare
  | .select qualifier member _ =>
    exact (noLiteral_tokensAt fun inside => noLiteral_tokens safe qualifier
      (negated_of_receiver (needless safe inside))).append _
  | .callOn receiver method args _ =>
    exact (noLiteral_tokensAt fun inside => noLiteral_tokens safe receiver
      (negated_of_receiver (needless safe inside))).append _
  | .string _ _ | .bool _ _ | .null _ | .name _ _ | .neg _ _ | .call _ _ _ | .create _ _ _ =>
    exact noLiteral_cons (by simp) _

/-- The parser of its level takes an expression without parentheses around it. -/
def AtLevel (style : Style) (u : Parse Expr) (e : Expr) : Prop :=
  match e with
  | .binary op _ _ _ =>
    if isAdditive op then Sum (signed u) (e.tokens style) e
    else Product (signed u) (e.tokens style) e
  | .neg _ _ => Unary (signed u) (e.tokens style) e
  | _ => Chained u (e.tokens style) e

theorem AtLevel.chained (h : AtLevel style u e)
    (bare : Position.needsParentheses .receiver e = false) : Chained u (e.tokens style) e := by
  cases e with
  | binary op left right line => cases bare
  | neg operand line => cases bare
  | _ => exact h

theorem AtLevel.unary (h : AtLevel style u e)
    (bare : Position.needsParentheses .factor e = false) : Unary (signed u) (e.tokens style) e := by
  cases e with
  | binary op left right line => cases bare
  | neg operand line => exact h
  | _ => exact Chained.unary h

theorem AtLevel.product (h : AtLevel style u e)
    (bare : Position.needsParentheses .product e = false) :
    Product (signed u) (e.tokens style) e := by
  cases e with
  | binary op left right line =>
    have binds : isAdditive op = false := bare
    simp only [AtLevel, binds] at h
    exact h
  | neg operand line => exact Unary.product h
  | _ => exact (Chained.unary h).product

theorem AtLevel.sum (h : AtLevel style u e) : Sum (signed u) (e.tokens style) e := by
  cases additive : Position.needsParentheses .product e with
  | false => exact (h.product additive).sum
  | true =>
    cases e with
    | binary op left right line =>
      have binds : isAdditive op = true := additive
      simp only [AtLevel, binds] at h
      exact h
    | _ => cases additive

theorem chained_parenthesized (h : Whole u tokens e) : Chained u (parenthesized true tokens) e :=
  chained_primary (by simp) (by simp) (yields_parentheses h)

/-- The expression is taken on its own, with as many levels as it nests. -/
def Parsed (style : Style) (e : Expr) : Prop :=
  ∀ depth, e.nesting style ≤ depth → AtLevel style (unary depth) e

/-- In parentheses, an expression is taken like a name. -/
theorem Parsed.inside (h : Parsed style e) {depth : Nat} (inside : style place e = true)
    (shallow : levels (style place e) (e.nesting style) ≤ depth) :
    Chained (unary depth) (e.tokensAt style place) e := by
  rw [inside] at shallow
  cases depth with
  | zero => cases shallow
  | succ depth =>
    rw [Expr.tokensAt, inside]
    exact chained_parenthesized (h depth (Nat.le_of_succ_le_succ shallow)).sum.whole

theorem Parsed.outside (h : Parsed style e) {depth : Nat} (outside : style place e = false)
    (shallow : levels (style place e) (e.nesting style) ≤ depth) :
    AtLevel style (unary depth) e ∧ e.tokensAt style place = e.tokens style := by
  rw [outside] at shallow
  refine ⟨h depth shallow, ?_⟩
  rw [Expr.tokensAt, outside]
  rfl

variable {depth : Nat}

theorem Parsed.receiver (h : Parsed style e) (safe : style.IsSafe)
    (shallow : levels (style .receiver e) (e.nesting style) ≤ depth) :
    Chained (Parser.unary depth) (e.tokensAt style .receiver) e := by
  cases inside : style .receiver e with
  | true => exact h.inside inside shallow
  | false =>
    obtain ⟨level, same⟩ := h.outside inside shallow
    rw [same]
    exact level.chained (needless safe inside)

theorem Parsed.factor (h : Parsed style e) (safe : style.IsSafe)
    (shallow : levels (style .factor e) (e.nesting style) ≤ depth) :
    Unary (Parser.unary (depth + 1)) (e.tokensAt style .factor) e := by
  cases inside : style .factor e with
  | true => exact (h.inside inside shallow).unary
  | false =>
    obtain ⟨level, same⟩ := h.outside inside shallow
    rw [same]
    exact level.unary (needless safe inside)

theorem factor_of_negated {e : Expr} (h : Position.needsParentheses .negated e = false) :
    Position.needsParentheses .factor e = false := by
  cases e with
  | binary op left right line => cases h
  | _ => rfl

theorem Parsed.negated (h : Parsed style e) (safe : style.IsSafe)
    (shallow : levels (style .negated e) (e.nesting style) ≤ depth) :
    Unary (Parser.unary (depth + 1)) (e.tokensAt style .negated) e := by
  cases inside : style .negated e with
  | true => exact (h.inside inside shallow).unary
  | false =>
    obtain ⟨level, same⟩ := h.outside inside shallow
    rw [same]
    exact level.unary (factor_of_negated (needless safe inside))

theorem Parsed.product (h : Parsed style e) (safe : style.IsSafe)
    (shallow : levels (style .product e) (e.nesting style) ≤ depth) :
    Product (Parser.unary (depth + 1)) (e.tokensAt style .product) e := by
  cases inside : style .product e with
  | true => exact (h.inside inside shallow).unary.product
  | false =>
    obtain ⟨level, same⟩ := h.outside inside shallow
    rw [same]
    exact level.product (needless safe inside)

theorem Parsed.sum (h : Parsed style e)
    (shallow : levels (style .whole e) (e.nesting style) ≤ depth) :
    Sum (Parser.unary (depth + 1)) (e.tokensAt style .whole) e := by
  cases inside : style .whole e with
  | true => exact (h.inside inside shallow).unary.product.sum
  | false =>
    obtain ⟨level, same⟩ := h.outside inside shallow
    rw [same]
    exact level.sum

end Levels

section Induction

variable {style : Style}

theorem additive?_symbol {op : ArithOp} (h : isAdditive op = true) :
    additive? (.punct op.symbol) = some op ∧ op.symbol ∉ ['(', '.', '*', '/', '%'] := by
  cases op with
  | add => exact ⟨rfl, by decide⟩
  | sub => exact ⟨rfl, by decide⟩
  | _ => cases h

theorem multiplicative?_symbol {op : ArithOp} (h : isAdditive op = false) :
    multiplicative? (.punct op.symbol) = some op ∧ op.symbol ∉ ['(', '.'] := by
  cases op with
  | add => cases h
  | sub => cases h
  | mul => exact ⟨rfl, by decide⟩
  | div => exact ⟨rfl, by decide⟩
  | rem => exact ⟨rfl, by decide⟩

theorem parsed_binary {op : ArithOp} {l r : Expr} (safe : style.IsSafe) (isLeft : Parsed style l)
    (isRight : Parsed style r) (line : Nat) : Parsed style (.binary op l r line) := by
  intro depth shallow
  rw [Expr.nesting, Nat.max_le] at shallow
  cases additive : isAdditive op with
  | true =>
    simp only [leftPosition, rightPosition, additive, if_true] at shallow
    obtain ⟨isOperator, starts⟩ := additive?_symbol additive
    have whole := enters_binary line (isLeft.sum shallow.1) (isRight.product safe shallow.2).yields
      isOperator starts
    simp only [AtLevel, additive, if_true, Expr.tokens, leftPosition, rightPosition]
    exact whole
  | false =>
    simp only [leftPosition, rightPosition, additive] at shallow
    obtain ⟨isOperator, starts⟩ := multiplicative?_symbol additive
    have whole := enters_binary line (isLeft.product safe shallow.1) (isRight.factor safe shallow.2)
      isOperator starts
    simp only [AtLevel, additive, Expr.tokens, leftPosition, rightPosition]
    exact whole

theorem parsed_neg {operand : Expr} (safe : style.IsSafe) (h : Parsed style operand) (line : Nat) :
    Parsed style (.neg operand line) := by
  intro depth shallow
  rw [Expr.nesting] at shallow
  cases depth with
  | zero => cases shallow
  | succ depth =>
    have taken := h.negated safe (Nat.le_of_succ_le_succ shallow)
    have noLiteral : NoLiteral (operand.tokensAt style .negated) :=
      noLiteral_tokensAt fun inside => noLiteral_tokens safe operand (needless safe inside)
    exact unary_neg taken noLiteral line

mutual

theorem parsed_of_isWritable (safe : style.IsSafe) (e : Expr) (writable : e.isWritable = true) :
    Parsed style e := by
  match e with
  | .int value line => exact fun _ _ => chained_int (of_decide_eq_true writable) line
  | .long value line => exact fun _ _ => chained_long (of_decide_eq_true writable) line
  | .string text line =>
    exact fun _ _ => chained_primary (by simp) (by simp) (yields_string text line)
  | .bool value line =>
    exact fun _ _ => chained_primary (by simp) (by simp) (yields_bool value line)
  | .null line => exact fun _ _ => chained_primary (by simp) (by simp) (yields_null line)
  | .name text line =>
    exact fun _ _ => chained_primary (by simp) (by simp)
      (yields_name (free_of_isIdentifier writable) line)
  | .select qualifier member line =>
    obtain ⟨isQualifier, isMember⟩ := Bool.and_eq_true_iff.mp writable
    have parsed := parsed_of_isWritable safe qualifier isQualifier
    intro depth shallow
    rw [Expr.nesting] at shallow
    exact chained_select line (parsed.receiver safe shallow) (free_of_isIdentifier isMember)
  | .neg operand line => exact parsed_neg safe (parsed_of_isWritable safe operand writable) line
  | .binary op left right line =>
    obtain ⟨isLeft, isRight⟩ := Bool.and_eq_true_iff.mp writable
    exact parsed_binary safe (parsed_of_isWritable safe left isLeft)
      (parsed_of_isWritable safe right isRight) line
  | .call method args line =>
    obtain ⟨isMethod, areArgs⟩ := Bool.and_eq_true_iff.mp writable
    intro depth shallow
    rw [Expr.nesting] at shallow
    exact chained_primary (by simp) (by simp) (yields_call (free_of_isIdentifier isMethod)
      (arguments_of_areWritable safe args areArgs depth shallow) line)
  | .callOn receiver method args line =>
    obtain ⟨before, areArgs⟩ := Bool.and_eq_true_iff.mp writable
    obtain ⟨isReceiver, isMethod⟩ := Bool.and_eq_true_iff.mp before
    have parsed := parsed_of_isWritable safe receiver isReceiver
    intro depth shallow
    rw [Expr.nesting, Nat.max_le] at shallow
    exact chained_callOn line (parsed.receiver safe shallow.1) (free_of_isIdentifier isMethod)
      (arguments_of_areWritable safe args areArgs depth shallow.2)
  | .create type args line =>
    obtain ⟨before, areArgs⟩ := Bool.and_eq_true_iff.mp writable
    obtain ⟨isName, noArray⟩ := Bool.and_eq_true_iff.mp before
    intro depth shallow
    rw [Expr.nesting] at shallow
    exact chained_primary (by simp) (by simp) (yields_create isName (eq_of_beq noArray)
      (arguments_of_areWritable safe args areArgs depth shallow) line)

theorem arguments_of_areWritable (safe : style.IsSafe) (args : List Expr)
    (writable : Expr.areWritable args = true) (depth : Nat)
    (shallow : Expr.argumentNesting style args ≤ depth) :
    List.Forall₂ (Argument (expressionOf (unary depth))) (Expr.argumentTokens style args) args := by
  match args with
  | [] => exact .nil
  | e :: rest =>
    obtain ⟨isFirst, areOthers⟩ := Bool.and_eq_true_iff.mp writable
    rw [Expr.argumentNesting, Nat.max_le] at shallow
    have others := arguments_of_areWritable safe rest areOthers depth shallow.2
    have parsed := parsed_of_isWritable safe e isFirst
    refine .cons ⟨?_, (opens_tokens style e).parenthesized _⟩ others
    cases depth with
    | zero => cases shallow.1
    | succ depth => exact (parsed.sum (Nat.le_of_succ_le_succ shallow.1)).whole

end

/-- An expression that can be written down is taken, unless it nests too deeply. -/
theorem yields_expression (safe : style.IsSafe) {e : Expr} (writable : e.isWritable = true)
    (shallow : e.isShallow style = true) :
    Yields expression ['(', '.', '*', '/', '%', '+', '-'] (e.tokensAt style .whole) e :=
  ((parsed_of_isWritable safe e writable).sum
    (Nat.le_of_lt_succ (of_decide_eq_true shallow))).whole

end Induction

end Parser

end JavaSnippet.Source
