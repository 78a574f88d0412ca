import JavaSnippet.Descriptor
import JavaSnippet.Proofs.Fallible
import JavaSnippet.Proofs.Machine.Execution
import JavaSnippet.Proofs.Machine.Value
import JavaSnippet.Proofs.Typing.Overload
import JavaSnippet.Source.Syntax
/-!
What methods over integers mean in Java. Operands are evaluated from left to right as mathematical
integers and brought to the width of the operation, whose result wraps around; an assigned value
takes the type of the variable. The machine computes with words, both brought to one width, and
comes to the same.
-/
namespace JavaSnippet.Source

section Evaluation

open Machine (Value Outcome)

/-- Why an evaluation ends early. What has no meaning here is stuck. -/
inductive Halt where
  | arithmeticException
  | stuck
  deriving DecidableEq, Repr, Inhabited

/-- A variable, with its type if that is an integer type and its value once it has one. -/
structure Variable where
  type : Option BaseType
  value : Option Value
  deriving Repr, Inhabited

/-- The variables in scope, the newest first. Changed ones are newer than they were before. -/
abbrev Env := List (String × Variable)

/-- The integer type that is named, if it is one. -/
def TypeName.integer? (type : TypeName) : Option BaseType :=
  if type.dimensions = 0 then (BaseType.ofKeyword? (type.path.joined ".")).filter (·.isIntegral)
  else none

/-- The result of an operator on integers. Quotients are rounded toward zero. -/
def result? (op : ArithOp) (a b : Int) : Option Int :=
  match op with
  | .add => some (a + b)
  | .sub => some (a - b)
  | .mul => some (a * b)
  | .div => if b = 0 then none else some (a.tdiv b)
  | .rem => if b = 0 then none else some (a.tmod b)

/-- The value of a width that an integer becomes by wrapping around. -/
def wrap (width : IntWidth) (n : Int) : Value :=
  match width with
  | .int => .int (Int32.ofInt n)
  | .long => .long (Int64.ofInt n)

/-- The integer that a value is, and its width. -/
def number (v : Value) : Except Halt (IntWidth × Int) :=
  match v with
  | .int n => .ok (.int, n.toInt)
  | .long n => .ok (.long, n.toInt)
  | .reference _ => .error .stuck

/-- The width that both operands are brought to. -/
def commonWidth : IntWidth → IntWidth → IntWidth
  | .int, .int => .int
  | _, _ => .long

def negate (v : Value) : Except Halt Value := do
  let (width, n) ← number v
  return wrap width (-n)

def operate (op : ArithOp) (left right : Value) : Except Halt Value := do
  let (a, m) ← number left
  let (b, n) ← number right
  match result? op m n with
  | some k => return wrap (commonWidth a b) k
  | none => throw .arithmeticException

/-- The value that a variable of a type takes. Only `int` becomes `long`; a narrower variable has to
hold the value as it is. -/
def converted (type : Option BaseType) (v : Value) : Except Halt Value :=
  match type, v with
  | some .long, .int n => .ok (wrap .long n.toInt)
  | some type, v => if v.isOf type then .ok v else .error .stuck
  | none, _ => .error .stuck

def evaluate (env : Env) : Expr → Except Halt Value
  | .int value _ =>
    match int32? value with
    | some n => .ok (.int n)
    | none => .error .stuck
  | .long value _ =>
    match int64? value with
    | some n => .ok (.long n)
    | none => .error .stuck
  | .name text _ =>
    match env.lookup text with
    | some ⟨some _, some v⟩ => .ok v
    | _ => .error .stuck
  | .neg operand _ => do negate (← evaluate env operand)
  | .binary op left right _ => do
    let l ← evaluate env left
    let r ← evaluate env right
    operate op l r
  | _ => .error .stuck

/-- The value that a method with the result type returns, if it gets to a return at all. -/
def execute (result : Option BaseType) (env : Env) : List Stmt → Except Halt (Option Value)
  | [] => .ok none
  | .declare type name _ none _ :: rest =>
    execute result ((name, ⟨type.integer?, none⟩) :: env) rest
  | .declare type name _ (some e) _ :: rest => do
    let declared : Env := (name, ⟨type.integer?, none⟩) :: env
    let v ← converted type.integer? (← evaluate declared e)
    execute result ((name, ⟨type.integer?, some v⟩) :: env) rest
  | .assign name e _ :: rest =>
    match env.lookup name with
    | some ⟨type, _⟩ => do
      let v ← converted type (← evaluate env e)
      execute result ((name, ⟨type, some v⟩) :: env) rest
    | none => .error .stuck
  | .returns none _ :: _ => .ok none
  | .returns (some e) _ :: _ => do return some (← converted result (← evaluate env e))
  | _ :: _ => .error .stuck

namespace MethodDecl

variable (m : MethodDecl)

/-- The types of the parameters by name, the last first. -/
def parameterTypes : List (String × Option BaseType) :=
  (m.parameters.map fun p => (p.name, p.type.integer?)).reverse

/-- The variables at the start of a call. -/
def start (args : List Value) : Env :=
  ((m.parameters.zip args).map fun (p, v) => (p.name, ⟨p.type.integer?, some v⟩)).reverse

/-- How a call ends, if it has a meaning. -/
def outcome? (args : List Value) : Option Outcome :=
  match execute (m.result.bind TypeName.integer?) (m.start args) m.body with
  | .ok value => some (.returns value)
  | .error .arithmeticException => some .arithmeticException
  | .error .stuck => none

end MethodDecl

/-- Whether an expression is made of literals, integer variables and arithmetic. -/
def Expr.isInteger (isVariable : String → Bool) : Expr → Bool
  | .int _ _ | .long _ _ => true
  | .name text _ => isVariable text
  | .neg operand _ => operand.isInteger isVariable
  | .binary _ left right _ => left.isInteger isVariable && right.isInteger isVariable
  | _ => false

/-- Whether statements declare and assign integer variables and return, and nothing else. -/
def areInteger (isVariable : String → Bool) : List Stmt → Bool
  | [] => true
  | .declare type name _ value _ :: rest =>
    let extended := fun other => other == name || isVariable other
    type.integer?.isSome && value.all (·.isInteger extended) && areInteger extended rest
  | .assign name e _ :: rest =>
    isVariable name && e.isInteger isVariable && areInteger isVariable rest
  | .returns value _ :: rest => value.all (·.isInteger isVariable) && areInteger isVariable rest
  | _ :: _ => false

/-- Whether the body of a method only computes with integers. There may be other parameters. -/
def MethodDecl.isInteger (m : MethodDecl) : Bool :=
  areInteger (fun name => (m.parameterTypes.lookup name).join.isSome) m.body

end Evaluation

open Machine Typing

/-- The primitive type of a width. -/
def widthBase : IntWidth → BaseType
  | .int => .int
  | .long => .long

theorem integral_widthBase (width : IntWidth) : (widthBase width).isIntegral = true := by
  cases width with
  | int => rfl
  | long => rfl

/-- What a computation of the machine comes to. -/
def computed : Option Value → Except Halt Value
  | some v => .ok v
  | none => .error .arithmeticException

theorem arith32_eq (op : ArithOp) (a b : Int32) :
    arith32 op a b = (result? op a.toInt b.toInt).map Int32.ofInt := by
  have zero : b = 0 ↔ b.toInt = 0 := by
    rw [← Int32.toInt_inj]
    rfl
  cases op with
  | add => simp [arith32, result?]
  | sub => simp [arith32, result?]
  | mul => simp [arith32, result?]
  | div =>
    by_cases divides : b = 0
    · simp [arith32, result?, divides]
    · have same : Int32.ofInt (a.toInt.tdiv b.toInt) = a / b := by
        apply Int32.toInt_inj.mp
        rw [Int32.toInt_ofInt, Int32.toInt_div]
      simp [arith32, result?, divides, mt zero.mpr divides, same]
  | rem =>
    by_cases divides : b = 0
    · simp [arith32, result?, divides]
    · have same : Int32.ofInt (a.toInt.tmod b.toInt) = a % b := by
        rw [← Int32.toInt_mod, Int32.ofInt_toInt]
      simp [arith32, result?, divides, mt zero.mpr divides, same]

theorem arith64_eq (op : ArithOp) (a b : Int64) :
    arith64 op a b = (result? op a.toInt b.toInt).map Int64.ofInt := by
  have zero : b = 0 ↔ b.toInt = 0 := by
    rw [← Int64.toInt_inj]
    rfl
  cases op with
  | add => simp [arith64, result?]
  | sub => simp [arith64, result?]
  | mul => simp [arith64, result?]
  | div =>
    by_cases divides : b = 0
    · simp [arith64, result?, divides]
    · have same : Int64.ofInt (a.toInt.tdiv b.toInt) = a / b := by
        apply Int64.toInt_inj.mp
        rw [Int64.toInt_ofInt, Int64.toInt_div]
      simp [arith64, result?, divides, mt zero.mpr divides, same]
  | rem =>
    by_cases divides : b = 0
    · simp [arith64, result?, divides]
    · have same : Int64.ofInt (a.toInt.tmod b.toInt) = a % b := by
        rw [← Int64.toInt_mod, Int64.ofInt_toInt]
      simp [arith64, result?, divides, mt zero.mpr divides, same]

theorem operate_int (op : ArithOp) (a b : Int32) :
    operate op (.int a) (.int b) = computed ((arith32 op a b).map .int) := by
  rw [arith32_eq]
  simp only [operate, number, commonWidth, bind, Except.bind]
  cases result? op a.toInt b.toInt with
  | some k => rfl
  | none => rfl

theorem operate_long (op : ArithOp) (a b : Int64) :
    operate op (.long a) (.long b) = computed ((arith64 op a b).map .long) := by
  rw [arith64_eq]
  simp only [operate, number, commonWidth, bind, Except.bind]
  cases result? op a.toInt b.toInt with
  | some k => rfl
  | none => rfl

/-- The width that values of an integer type are computed with. -/
def widthOf (type : BaseType) : IntWidth := if type = .long then .long else .int

/-- The value at a width. -/
def lift (width : IntWidth) (v : Value) : Value :=
  match width, v with
  | .long, .int n => wrap .long n.toInt
  | _, v => v

theorem int_or_long {type : BaseType} {v : Value} (integral : type.isIntegral = true)
    (h : v.isOf type = true) :
    widthOf type = .long ∧ (∃ n, v = .long n) ∨ widthOf type = .int ∧ ∃ n, v = .int n := by
  cases v with
  | int n =>
    refine .inr ⟨if_neg ?_, n, rfl⟩
    rintro rfl
    cases h
  | long n =>
    refine .inl ⟨if_pos ?_, n, rfl⟩
    cases type
    all_goals first | rfl | cases h
  | reference address =>
    cases type
    all_goals cases h

theorem isOf_width {type : BaseType} {v : Value} (integral : type.isIntegral = true)
    (h : v.isOf type = true) : v.isOf (widthBase (widthOf type)) = true := by
  rcases int_or_long integral h with ⟨width, n, rfl⟩ | ⟨width, n, rfl⟩
  · rw [width]
    rfl
  · rw [width]
    rfl

theorem toInt_widened (n : Int32) : (Int64.ofInt n.toInt).toInt = n.toInt := by
  have low := n.le_toInt
  have high := n.toInt_lt
  exact Int64.toInt_ofInt_of_le (by omega) (by omega)

/-- Both operands may be brought to the common width first. -/
theorem operate_lift (op : ArithOp) {a b : BaseType} {l r : Value}
    (integralLeft : a.isIntegral = true) (integralRight : b.isIntegral = true)
    (left : l.isOf a = true) (right : r.isOf b = true) :
    operate op (lift (commonWidth (widthOf a) (widthOf b)) l)
      (lift (commonWidth (widthOf a) (widthOf b)) r) = operate op l r := by
  rcases int_or_long integralLeft left with ⟨first, m, rfl⟩ | ⟨first, m, rfl⟩
  · rcases int_or_long integralRight right with ⟨second, n, rfl⟩ | ⟨second, n, rfl⟩
    · rw [first, second]
      rfl
    · rw [first, second]
      simp only [commonWidth, lift, wrap, operate, number, toInt_widened]
      rfl
  · rcases int_or_long integralRight right with ⟨second, n, rfl⟩ | ⟨second, n, rfl⟩
    · rw [first, second]
      simp only [commonWidth, lift, wrap, operate, number, toInt_widened]
      rfl
    · rw [first, second]
      rfl

theorem isOf_negate {type : BaseType} {v w : Value} (integral : type.isIntegral = true)
    (isOf : v.isOf type = true) (h : negate v = .ok w) :
    w.isOf (widthBase (widthOf type)) = true := by
  rcases int_or_long integral isOf with ⟨width, n, rfl⟩ | ⟨width, n, rfl⟩
  · obtain rfl := Except.ok.inj h
    rw [width]
    rfl
  · obtain rfl := Except.ok.inj h
    rw [width]
    rfl

theorem isOf_operate {op : ArithOp} {a b : BaseType} {l r v : Value}
    (integralLeft : a.isIntegral = true) (integralRight : b.isIntegral = true)
    (left : l.isOf a = true) (right : r.isOf b = true) (h : operate op l r = .ok v) :
    v.isOf (widthBase (commonWidth (widthOf a) (widthOf b))) = true := by
  obtain ⟨⟨x, m⟩, first, rest⟩ := except_bind_eq_ok.mp h
  obtain ⟨⟨y, n⟩, second, last⟩ := except_bind_eq_ok.mp rest
  have widths : x = widthOf a ∧ y = widthOf b := by
    constructor
    · rcases int_or_long integralLeft left with ⟨width, k, rfl⟩ | ⟨width, k, rfl⟩
      · rw [width]
        exact (Prod.mk.inj (Except.ok.inj first)).1.symm
      · rw [width]
        exact (Prod.mk.inj (Except.ok.inj first)).1.symm
    · rcases int_or_long integralRight right with ⟨width, k, rfl⟩ | ⟨width, k, rfl⟩
      · rw [width]
        exact (Prod.mk.inj (Except.ok.inj second)).1.symm
      · rw [width]
        exact (Prod.mk.inj (Except.ok.inj second)).1.symm
  obtain ⟨rfl, rfl⟩ := widths
  simp only at last
  split at last
  · obtain rfl := Except.ok.inj last
    cases commonWidth (widthOf a) (widthOf b) with
    | int => rfl
    | long => rfl
  · cases last

theorem isOf_of_widens {a b : BaseType} {n : Int32} (widens : ClassPath.widens a b = true)
    (narrow : b ≠ .long) (isOf : (Value.int n).isOf a = true) :
    (Value.int n).isOf b = true := by
  cases a
  all_goals
    cases b
    all_goals simp [ClassPath.widens, Value.isOf] at widens narrow isOf ⊢
  all_goals omega

/-- A variable that need not become `long` takes the value as it is. -/
theorem converted_of_widens {a b : BaseType} {v : Value} (integral : a.isIntegral = true)
    (widens : ClassPath.widens a b = true) (same : b = .long → a = .long)
    (isOf : v.isOf a = true) : v.isOf b = true ∧ converted (some b) v = .ok v := by
  rcases int_or_long integral isOf with ⟨-, n, rfl⟩ | ⟨narrow, n, rfl⟩
  · have long : b = .long := by
      have isLong : a = .long := by
        cases a
        case long => rfl
        all_goals cases isOf
      subst isLong
      cases b
      all_goals first | rfl | cases widens
    subst long
    exact ⟨rfl, rfl⟩
  · have notLong : b ≠ .long := by
      intro long
      rw [same long] at narrow
      cases narrow
    have isWider := isOf_of_widens widens notLong isOf
    refine ⟨isWider, ?_⟩
    cases b
    case long => exact absurd rfl notLong
    all_goals simp [converted, isWider]

theorem isOf_of_narrows {n : Int32} {wanted : FieldType} (h : narrows n wanted = true) :
    ∃ type, wanted = .base type ∧ type.isIntegral = true ∧
      (Value.int n).isOf type = true ∧ converted (some type) (.int n) = .ok (.int n) := by
  cases isBase : wanted.base? with
  | none =>
    rw [narrows, isBase] at h
    cases h
  | some type =>
    rw [narrows, isBase] at h
    have isOf : (Value.int n).isOf type = true := by
      cases type
      all_goals
        simp only [Bool.and_eq_true, decide_eq_true_eq, Int32.le_iff_toInt_le,
          Int32.lt_iff_toInt_lt, Bool.false_eq_true] at h
      all_goals simpa [Value.isOf] using h
    refine ⟨type, FieldType.eq_base_of_base? isBase, ?_, isOf, ?_⟩
    · cases type
      all_goals first | rfl | cases h
    · cases type
      case long => cases h
      all_goals simp [converted, isOf]

theorem integral_of_widens {a b : BaseType} (integral : a.isIntegral = true)
    (widens : ClassPath.widens a b = true) : b.isIntegral = true := by
  cases a
  all_goals
    cases b
    all_goals first | rfl | exact absurd widens (by decide) | exact absurd integral (by decide)

end JavaSnippet.Source
