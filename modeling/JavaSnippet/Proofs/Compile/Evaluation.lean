import JavaSnippet.Proofs.Compile.Codes
import JavaSnippet.Proofs.Source.Meaning
import JavaSnippet.Proofs.Typing.Body
/-!
Integer expressions keep their meaning. The code of a typed expression leaves the value of the
expression on the stack, whatever lies below it and whatever code follows, or ends the method with
the exception that evaluation ends with.
-/
namespace JavaSnippet.Compile

open ClassFile Typing Source Machine

section Yields

variable (t : ConstantTable) (locals : Locals Value)

/-- Started on some operands, the instructions replace them by the value of the type, or end the
method as the evaluation ends. What lies below the operands does not matter. -/
def Yields (operands : List Value) (is : List Instruction) (type : BaseType) :
    Except Halt Value → Prop
  | .ok v => v.isOf type = true ∧ ∀ stack rest,
      run t (is.flatMap Instruction.encode ++ rest) ⟨operands ++ stack, locals⟩ =
        run t rest ⟨v :: stack, locals⟩
  | .error .arithmeticException => ∀ stack rest,
      run t (is.flatMap Instruction.encode ++ rest) ⟨operands ++ stack, locals⟩ =
        some .arithmeticException
  | .error .stuck => False

variable {t locals}

/-- One instruction after another. -/
theorem Yields.bind {front back : List Value} {is js : List Instruction} {a b : BaseType}
    {r : Except Halt Value} {f : Value → Except Halt Value} (first : Yields t locals front is a r)
    (next : ∀ v, v.isOf a = true → Yields t locals (v :: back) js b (f v)) :
    Yields t locals (front ++ back) (is ++ js) b (r >>= f) := by
  cases r with
  | error halt =>
    cases halt with
    | stuck => exact first
    | arithmeticException =>
      intro stack rest
      rw [List.flatMap_append, List.append_assoc, List.append_assoc]
      exact first (back ++ stack) _
  | ok v =>
    obtain ⟨isOf, runs⟩ := first
    have later := next v isOf
    change Yields t locals (front ++ back) (is ++ js) b (f v)
    cases result : f v with
    | error halt =>
      rw [result] at later
      cases halt with
      | stuck => exact later
      | arithmeticException =>
        intro stack rest
        rw [List.flatMap_append, List.append_assoc, List.append_assoc, runs]
        exact later stack rest
    | ok w =>
      rw [result] at later
      refine ⟨later.1, fun stack rest => ?_⟩
      rw [List.flatMap_append, List.append_assoc, List.append_assoc, runs]
      exact later.2 stack rest

theorem yields_step {operands : List Value} {i : Instruction} {type : BaseType}
    {result : Option Value} (plain : Plain i)
    (isOf : ∀ v, result = some v → v.isOf type = true)
    (steps : ∀ stack, step t i ⟨operands ++ stack, locals⟩ =
      some (Frame.finish ⟨stack, locals⟩ result)) :
    Yields t locals operands [i] type (computed result) := by
  cases result with
  | some v =>
    refine ⟨isOf v rfl, fun stack rest => ?_⟩
    rw [List.flatMap_singleton]
    exact run_goesOn plain (steps stack) rest
  | none =>
    intro stack rest
    rw [List.flatMap_singleton]
    exact run_ends plain (steps stack) rest

theorem yields_push {i : Instruction} {v : Value} {type : BaseType} (plain : Plain i)
    (isOf : v.isOf type = true)
    (steps : ∀ stack, step t i ⟨stack, locals⟩ = some (.goesOn ⟨v :: stack, locals⟩)) :
    Yields t locals [] [i] type (.ok v) := by
  refine (yields_step plain ?_ steps : Yields t locals [] [i] type (computed (some v)))
  rintro w ⟨⟩
  exact isOf

theorem yields_neg {width : IntWidth} {v : Value} (isOf : v.isOf (widthBase width) = true) :
    Yields t locals [v] [.neg width] (widthBase width) (negate v) := by
  cases width with
  | int =>
    cases v with
    | int n =>
      have negated : negate (.int n) = computed (some (.int (-n))) := by
        simp [negate, number, wrap, computed, bind, Except.bind, pure, Except.pure]
      rw [negated]
      exact yields_step (by trivial) (by rintro _ ⟨⟩; rfl) fun stack => rfl
    | long n => cases isOf
    | reference address => cases isOf
  | long =>
    cases v with
    | long n =>
      have negated : negate (.long n) = computed (some (.long (-n))) := by
        simp [negate, number, wrap, computed, bind, Except.bind, pure, Except.pure]
      rw [negated]
      exact yields_step (by trivial) (by rintro _ ⟨⟩; rfl) fun stack => rfl
    | int n => cases isOf
    | reference address => cases isOf

theorem yields_arith (op : ArithOp) {width : IntWidth} {l r : Value}
    (left : l.isOf (widthBase width) = true) (right : r.isOf (widthBase width) = true) :
    Yields t locals [r, l] [.arith op width] (widthBase width) (operate op l r) := by
  cases width with
  | int =>
    cases l with
    | int a =>
      cases r with
      | int b =>
        rw [operate_int]
        refine yields_step (by trivial) ?_ fun stack => rfl
        intro v isResult
        obtain ⟨n, -, rfl⟩ := Option.map_eq_some_iff.mp isResult
        rfl
      | long b => cases right
      | reference address => cases right
    | long a => cases left
    | reference address => cases left
  | long =>
    cases l with
    | long a =>
      cases r with
      | long b =>
        rw [operate_long]
        refine yields_step (by trivial) ?_ fun stack => rfl
        intro v isResult
        obtain ⟨n, -, rfl⟩ := Option.map_eq_some_iff.mp isResult
        rfl
      | int b => cases right
      | reference address => cases right
    | int a => cases left
    | reference address => cases left

theorem yields_widen {type : BaseType} {v : Value} (integral : type.isIntegral = true)
    (narrow : widthOf type = .int) (isOf : v.isOf type = true) :
    Yields t locals [v] [.widen] .long (.ok (lift .long v)) := by
  rcases int_or_long integral isOf with ⟨width, -⟩ | ⟨-, n, rfl⟩
  · rw [narrow] at width
    cases width
  · have widened : (.ok (lift .long (.int n)) : Except Halt Value) =
        computed (some (.long n.toInt64)) := by
      have same : Int64.ofInt n.toInt = n.toInt64 := by
        rw [← Int64.toInt_inj, toInt_widened, Int32.toInt_toInt64]
      simp [lift, wrap, computed, same]
    rw [widened]
    exact yields_step (by trivial) (by rintro _ ⟨⟩; rfl) fun stack => rfl

theorem Yields.mono {operands : List Value} {is : List Instruction} {a b : BaseType}
    {r : Except Halt Value} (h : Yields t locals operands is a r)
    (wider : ∀ v : Value, v.isOf a = true → v.isOf b = true) :
    Yields t locals operands is b r := by
  cases r with
  | error halt =>
    cases halt with
    | stuck => exact h
    | arithmeticException => exact h
  | ok v => exact ⟨wider v h.1, h.2⟩

/-- What is made of the value is the value itself, which is of the other type as well. -/
theorem Yields.keep {operands : List Value} {is : List Instruction} {a b : BaseType}
    {r : Except Halt Value} {f : Value → Except Halt Value} (h : Yields t locals operands is a r)
    (keeps : ∀ v, v.isOf a = true → v.isOf b = true ∧ f v = .ok v) :
    Yields t locals operands is b (r >>= f) := by
  have wider := h.mono fun v isOf => (keeps v isOf).1
  cases r with
  | error halt => exact wider
  | ok v =>
    change Yields t locals operands is b (f v)
    rw [(keeps v h.1).2]
    exact wider

end Yields

section Terms

variable (t : ConstantTable) (slots : SlotMap) (locals : Locals Value)

/-- The code of the term computes a value of the type as the evaluation does. -/
structure Means (a : Term) (type : BaseType) (r : Except Halt Value) : Prop where
  isType : a.type = .value (.base type)
  integral : type.isIntegral = true
  isOf : ∀ v, r = .ok v → v.isOf type = true
  yields : ∀ is, Codes t slots a is → Yields t locals [] is type r
  literal : ∀ n, a = .int n → r = .ok (.int n)

variable {t slots locals}

theorem isLong_eq {a : Term} {type : BaseType} (h : a.type = .value (.base type)) :
    a.type.isLong = decide (widthOf type = .long) := by
  rw [h]
  cases type
  all_goals rfl

theorem base_widthType (width : IntWidth) : widthType width = .value (.base (widthBase width)) := by
  cases width with
  | int => rfl
  | long => rfl

/-- A term that is brought to a width computes the value at that width. -/
theorem Means.promote {a : Term} {type : BaseType} {r : Except Halt Value} {width : IntWidth}
    (h : Means t slots locals a type r) (fits : width = .int → widthOf type = .int)
    {is : List Instruction} (codes : Codes t slots (Place.promote width a) is) :
    Yields t locals [] is (widthBase width) (r >>= fun v => .ok (lift width v)) := by
  have stays : widthOf type = width → Codes t slots a is →
      Yields t locals [] is (widthBase width) (r >>= fun v => .ok (lift width v)) := by
    rintro rfl codes
    refine (h.yields is codes).keep fun v isOf => ⟨isOf_width h.integral isOf, ?_⟩
    rcases int_or_long h.integral isOf with ⟨same, n, rfl⟩ | ⟨same, n, rfl⟩
    · rw [same]
      rfl
    · rw [same]
      rfl
  cases width with
  | int => exact stays (fits rfl) codes
  | long =>
    rw [Place.promote, isLong_eq h.isType] at codes
    by_cases isLong : widthOf type = .long
    · rw [if_pos (decide_eq_true isLong)] at codes
      exact stays isLong codes
    · rw [if_neg (by simpa using isLong)] at codes
      have narrow : widthOf type = .int := by
        cases width : widthOf type with
        | int => rfl
        | long => exact absurd width isLong
      obtain ⟨xs, inner, rfl⟩ := codes
      exact (h.yields xs inner).bind fun v isOf => yields_widen h.integral narrow isOf

theorem Means.negation {a b : Term} {type : BaseType} {r : Except Halt Value}
    (h : Means t slots locals a type r) (typed : Place.negation a = .ok b) :
    Means t slots locals b (widthBase (widthOf type)) (r >>= negate) := by
  unfold Place.negation at typed
  split at typed
  · cases typed
  · obtain rfl := Except.ok.inj typed
    have width : (if a.type.isLong then IntWidth.long else .int) = widthOf type := by
      rw [isLong_eq h.isType]
      cases widthOf type with
      | int => rfl
      | long => rfl
    rw [width]
    refine ⟨base_widthType _, integral_widthBase _, ?_, ?_, ?_⟩
    · intro v isResult
      obtain ⟨w, evaluated, negated⟩ := except_bind_eq_ok.mp isResult
      exact isOf_negate h.integral (h.isOf w evaluated) negated
    · rintro is ⟨xs, codes, rfl⟩
      have inner := (h.yields xs codes).mono fun v isOf => isOf_width h.integral isOf
      exact inner.bind fun v isOf => yields_neg isOf
    · intro n isInt
      cases isInt

theorem Means.binary {op : ArithOp} {a b c : Term} {left right : BaseType}
    {r s : Except Halt Value} (h : Means t slots locals a left r)
    (g : Means t slots locals b right s) (typed : Place.binary op a b = .ok c) :
    Means t slots locals c (widthBase (commonWidth (widthOf left) (widthOf right)))
      (r >>= fun l => s >>= fun m => operate op l m) := by
  have noText : ¬(op = .add ∧ (a.type.isString || b.type.isString) = true) := by
    rw [h.isType, g.isType]
    rintro ⟨-, isText⟩
    cases isText
  have width : (if a.type.isLong || b.type.isLong then IntWidth.long else .int) =
      commonWidth (widthOf left) (widthOf right) := by
    rw [isLong_eq h.isType, isLong_eq g.isType]
    cases widthOf left with
    | int =>
      cases widthOf right with
      | int => rfl
      | long => rfl
    | long => rfl
  unfold Place.binary at typed
  rw [if_neg noText, width] at typed
  split at typed
  · cases typed
  · obtain rfl := Except.ok.inj typed
    refine ⟨base_widthType _, integral_widthBase _, ?_, ?_, ?_⟩
    · intro v isResult
      obtain ⟨l, first, rest⟩ := except_bind_eq_ok.mp isResult
      obtain ⟨m, second, last⟩ := except_bind_eq_ok.mp rest
      exact isOf_operate h.integral g.integral (h.isOf l first) (g.isOf m second) last
    · rintro is ⟨xs, ys, codesLeft, codesRight, rfl⟩
      have fitsLeft : commonWidth (widthOf left) (widthOf right) = .int → widthOf left = .int := by
        cases widthOf left with
        | int => exact fun _ => rfl
        | long => exact fun narrow => narrow
      have fitsRight : commonWidth (widthOf left) (widthOf right) = .int →
          widthOf right = .int := by
        cases widthOf left with
        | int =>
          cases widthOf right with
          | int => exact fun _ => rfl
          | long => exact fun narrow => narrow
        | long =>
          intro narrow
          cases narrow
      have second : ∀ l : Value, l.isOf _ = true → Yields t locals [l] _ _ _ := fun l isLeft =>
        Yields.bind (g.promote fitsRight codesRight) fun m isRight => yields_arith op isLeft isRight
      have lifted := (h.promote fitsLeft codesLeft).bind second
      cases r with
      | error halt => exact lifted
      | ok l =>
        cases s with
        | error halt => exact lifted
        | ok m =>
          have same := operate_lift op h.integral g.integral (h.isOf l rfl) (g.isOf m rfl)
          change Yields t locals [] _ _ (operate op l m)
          rw [← same]
          exact lifted
    · intro n isInt
      cases isInt

/-- What is assigned is the value that the variable takes. -/
theorem Means.assigned {path : ClassPath} {a b : Term} {type : BaseType} {wanted : FieldType}
    {r : Except Halt Value} (h : Means t slots locals a type r)
    (typed : convert path a wanted = .ok b) :
    ∃ other, wanted = .base other ∧ other.isIntegral = true ∧
      ∀ is, Codes t slots b is → Yields t locals [] is other (r >>= converted (some other)) := by
  rcases convert_ok typed with ⟨n, rfl, narrowed, rfl⟩ | passed
  · obtain ⟨other, isWanted, integral, isOf, takes⟩ := isOf_of_narrows narrowed
    refine ⟨other, isWanted, integral, fun is codes => ?_⟩
    have pushed := h.yields is codes
    rw [h.literal n rfl] at pushed ⊢
    change Yields t locals [] is other (converted (some other) (.int n))
    rw [takes]
    exact ⟨isOf, pushed.2⟩
  · obtain ⟨assignable, form⟩ := pass_ok passed
    rw [h.isType] at assignable
    obtain ⟨other, isWanted, widens⟩ := isAssignable_base assignable
    refine ⟨other, isWanted, integral_of_widens h.integral widens, fun is codes => ?_⟩
    rcases form with ⟨isLong, -, narrow, rfl⟩ | ⟨stays, rfl⟩
    · obtain ⟨xs, inner, rfl⟩ := codes
      obtain rfl : other = .long := FieldType.base_inj (isWanted.symm.trans isLong)
      have width : widthOf type = .int := by
        rw [isLong_eq h.isType, decide_eq_false_iff_not] at narrow
        cases isWidth : widthOf type with
        | int => rfl
        | long => exact absurd isWidth narrow
      refine (h.yields xs inner).bind fun v isOf => ?_
      rcases int_or_long h.integral isOf with ⟨wide, -⟩ | ⟨-, n, rfl⟩
      · rw [width] at wide
        cases wide
      · exact yields_widen h.integral width isOf
    · have same : other = .long → type = .long := by
        rintro rfl
        by_cases isLong : type = .long
        · exact isLong
        · refine absurd ⟨isWanted, by rw [h.isType]; rfl, ?_⟩ stays
          rw [isLong_eq h.isType, widthOf, if_neg isLong]
          rfl
      exact (h.yields is codes).keep fun v isOf =>
        converted_of_widens h.integral widens same isOf

end Terms

end JavaSnippet.Compile
