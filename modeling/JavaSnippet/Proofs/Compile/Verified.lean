import JavaSnippet.Proofs.Compile.Layout
import JavaSnippet.Proofs.Machine.Verifier
import JavaSnippet.Proofs.Typing.Expressions
/-!
The code of terms is accepted. Whatever is on the stack below, the code of a term with the right
kinds leaves its value on top of it and the locals alone.
-/
namespace JavaSnippet.Compile

open ClassFile Typing Machine
open MethodBody (valueKind?)

variable {t : ConstantTable} {result : Option FieldType} {v : Variables} {slots : SlotMap}
  {locals : Locals ValueKind}

/-- Accepted code that changes the top of the stack and nothing else. -/
def Leaves (t : ConstantTable) (result : Option FieldType) (locals : Locals ValueKind)
    (is : List Instruction) (before after : List ValueKind) : Prop :=
  ∀ stack, verifyAll t result is ⟨before ++ stack, locals, false⟩ =
    some ⟨after ++ stack, locals, false⟩

theorem leaves_nil (kinds : List ValueKind) : Leaves t result locals [] kinds kinds :=
  fun _ => rfl

theorem Leaves.append {is js : List Instruction} {a b c : List ValueKind}
    (first : Leaves t result locals is a b) (next : Leaves t result locals js b c) :
    Leaves t result locals (is ++ js) a c := by
  intro stack
  rw [verifyAll_append, first stack]
  exact next stack

theorem Leaves.above {is : List Instruction} {a b : List ValueKind}
    (h : Leaves t result locals is a b) (below : List ValueKind) :
    Leaves t result locals is (a ++ below) (b ++ below) := by
  intro stack
  rw [List.append_assoc, List.append_assoc]
  exact h (below ++ stack)

theorem leaves_one {i : Instruction} {before after : List ValueKind}
    (goesOn : i.isTerminal = false)
    (accepted : ∀ stack,
      effect t result i (before ++ stack) locals = some (after ++ stack, locals)) :
    Leaves t result locals [i] before after := by
  intro stack
  simp only [verifyAll, verify, accepted stack]
  simp [goesOn]

theorem leaves_codesInt {value : Int32} {i : Instruction} (codes : CodesInt t value i) :
    Leaves t result locals [i] [] [.int] := by
  rcases codes with ⟨-, -, rfl⟩ | ⟨index, rfl, found⟩
  · exact leaves_one rfl fun _ => rfl
  · refine leaves_one rfl fun stack => ?_
    simp [effect, constantKind?, found]

theorem leaves_codesLong {value : Int64} {i : Instruction} (codes : CodesLong t value i) :
    Leaves t result locals [i] [] [.long] := by
  rcases codes with ⟨-, rfl⟩ | ⟨index, rfl, found⟩
  · exact leaves_one rfl fun _ => rfl
  · refine leaves_one rfl fun stack => ?_
    simp [effect, found]

theorem leaves_newObject {index : PoolIndex} {name : String}
    (isClass : t.className? index = some name) :
    Leaves t result locals [.newObject index] [] [.reference] :=
  leaves_one rfl fun _ => by simp [effect, isClass]

theorem leaves_dup : Leaves t result locals [.dup] [.reference] [.reference, .reference] :=
  leaves_one rfl fun _ => rfl

theorem isPrefixOf?_append (front back : List ValueKind) :
    front.isPrefixOf? (front ++ back) = some back := by
  induction front with
  | nil => rfl
  | cons kind front ih =>
    change (if kind == kind then front.isPrefixOf? (front ++ back) else none) = some back
    rw [if_pos (beq_self_eq_true kind), ih]

theorem methodDescriptor_of_names {index : PoolIndex} {owner : ClassName} {name : String}
    {type : MethodType} {ofInterface : Bool} (h : t.NamesMethod index owner name type ofInterface) :
    methodDescriptor? t index = some (type.render, ofInterface) := by
  obtain ⟨ownerIndex, member, isMethod, -, nameIndex, descriptor, isMember, -, described⟩ :=
    h.reference
  simp [methodDescriptor?, isMethod, isMember, described]

/-- The values that a call leaves. -/
theorem result_of_kinded {type : MethodType} (h : KindedResult type) :
    result? type = some (resultType type).kind?.toList := by
  unfold result? resultType
  cases isResult : type.result with
  | none => rfl
  | some returned =>
    obtain ⟨kind, isKind⟩ := h returned isResult
    simp [ExprType.kind?, isKind]

theorem leaves_call (result : Option FieldType) (locals : Locals ValueKind) {kind : InvokeKind}
    {owner : ClassName} {method : String} {type : MethodType} {i : Instruction}
    {kinds : List ValueKind} (codes : CodesCall t kind owner method type i)
    (parameters : type.parameters.mapM valueKind? = some kinds) (kinded : KindedResult type) :
    Leaves t result locals [i] (kinds.reverse ++ receiver kind)
      (resultType type).kind?.toList := by
  obtain ⟨index, names, rfl⟩ := codes
  have operands : operands? kind type = some (kinds.reverse ++ receiver kind) := by
    rw [operands?, parameters]
    rfl
  have called : ∀ stack, call? kind type ((kinds.reverse ++ receiver kind) ++ stack) =
      some ((resultType type).kind?.toList ++ stack) := by
    intro stack
    have taken := isPrefixOf?_append (kinds.reverse ++ receiver kind) stack
    simp only [call?, operands, result_of_kinded kinded, taken, Option.bind_eq_bind,
      Option.bind_some]
    rfl
  refine leaves_one rfl fun stack => ?_
  simp only [effect, methodDescriptor_of_names names, called]
  simp

theorem kindedResult_void {type : MethodType} (isVoid : type.result = none) :
    KindedResult type := by
  intro returned isResult
  rw [isVoid] at isResult
  cases isResult

theorem kindedResult_object (parameters : List FieldType) (name : ClassName) :
    KindedResult ⟨parameters, some (.object name)⟩ := by
  intro returned isResult
  rw [← Option.some.inj isResult]
  exact ⟨.reference, rfl⟩

/-- Every variable that holds a value has it in its slot. -/
def Stores (v : Variables) (slots : SlotMap) (locals : Locals ValueKind) : Prop :=
  ∀ id type slot kind, v.Holds id type → slots[id]? = some (some slot) →
    valueKind? type = some kind → locals slot.toNat = some kind

theorem leaves_dropCode {type : ExprType} {kind : ValueKind} (isKind : type.kind? = some kind) :
    Leaves t result locals (dropCode type) [kind] [] := by
  cases type with
  | void => cases isKind
  | null =>
    obtain rfl := Option.some.inj isKind
    exact leaves_one rfl fun _ => rfl
  | value type =>
    rw [dropCode, ← FieldType.slots_of_kind isKind]
    cases kind with
    | int => exact leaves_one rfl fun _ => rfl
    | long => exact leaves_one rfl fun _ => rfl
    | reference => exact leaves_one rfl fun _ => rfl

/-- A value that is not used is dropped, if there is one. -/
theorem leaves_drop {a : Term} (kinded : Kinded v a) :
    Leaves t result locals (dropCode a.type) a.type.kind?.toList [] := by
  by_cases isVoid : a.type = .void
  · rw [isVoid]
    exact leaves_nil []
  · obtain ⟨kind, isKind⟩ := kinded.kind isVoid
    rw [isKind]
    exact leaves_dropCode isKind

theorem kind_of_appendParameter {type : ExprType} {kind : ValueKind}
    (isKind : type.kind? = some kind) :
    valueKind? (Emit.appendParameter type) = some kind := by
  unfold Emit.appendParameter
  cases type with
  | void => cases isKind
  | null => exact isKind
  | value type =>
    cases isBase : type.base? with
    | none =>
      have isReference : valueKind? type = some kind := isKind
      rw [FieldType.kind_of_reference isBase] at isReference
      simp only [ExprType.base?, isBase]
      split
      · exact isReference
      · exact isReference
    | some b =>
      obtain rfl := FieldType.eq_base_of_base? isBase
      cases b with
      | float => cases isKind
      | double => cases isKind
      | _ => exact isKind

mutual

/-- The code of a term leaves the value of the term. -/
theorem leaves_of_codes (result : Option FieldType) (stores : Stores v slots locals) :
    ∀ (a : Term) {is : List Instruction}, Kinded v a → Codes t slots a is →
      Leaves t result locals is [] a.type.kind?.toList
  | .int value, is, kinded, codes => by
    obtain ⟨i, isInt, rfl⟩ := codes
    exact leaves_codesInt isInt
  | .long value, is, kinded, codes => by
    obtain ⟨i, isLong, rfl⟩ := codes
    exact leaves_codesLong isLong
  | .string text, is, kinded, codes => by
    obtain ⟨index, content, found, -, rfl⟩ := codes
    exact leaves_one rfl fun _ => by simp [effect, constantKind?, found, Term.type]; rfl
  | .bool value, is, kinded, codes => by
    obtain ⟨i, isInt, rfl⟩ := codes
    exact leaves_codesInt isInt
  | .null, is, kinded, codes => by
    obtain rfl := codes
    exact leaves_one rfl fun _ => rfl
  | .localVar id type, is, kinded, codes => by
    obtain ⟨kind, slot, isKind, found, rfl⟩ := codes
    rw [Kinded] at kinded
    have held := stores id type slot kind kinded.1 found isKind
    refine leaves_one rfl fun stack => ?_
    simp [effect, held, Term.type, ExprType.kind?, isKind]
  | .neg width operand, is, kinded, codes => by
    obtain ⟨xs, codesOperand, rfl⟩ := codes
    rw [Kinded] at kinded
    have first := leaves_of_codes result stores operand kinded.1 codesOperand
    rw [kinded.2] at first
    refine first.append ?_
    rw [Term.type, kind_widthType]
    exact leaves_one rfl fun _ => if_pos rfl
  | .arith op width left right, is, kinded, codes => by
    obtain ⟨xs, ys, codesLeft, codesRight, rfl⟩ := codes
    rw [Kinded] at kinded
    obtain ⟨⟨kindedLeft, kindLeft⟩, kindedRight, kindRight⟩ := kinded
    have first := leaves_of_codes result stores left kindedLeft codesLeft
    have second := (leaves_of_codes result stores right kindedRight codesRight).above [width.kind]
    rw [kindLeft] at first
    rw [kindRight] at second
    refine first.append (second.append ?_)
    rw [Term.type, kind_widthType]
    exact leaves_one rfl fun _ => if_pos ⟨rfl, rfl⟩
  | .widen operand, is, kinded, codes => by
    obtain ⟨xs, codesOperand, rfl⟩ := codes
    rw [Kinded] at kinded
    have first := leaves_of_codes result stores operand kinded.1 codesOperand
    rw [kinded.2] at first
    exact first.append (leaves_one rfl fun _ => rfl)
  | .concat parts, is, kinded, codes => by
    obtain ⟨builder, create, finish, xs, isBuilder, creates, codesParts, finishes, rfl⟩ := codes
    rw [Kinded] at kinded
    have start : Leaves t result locals [.newObject builder, .dup, create] [] [.reference] :=
      (leaves_newObject isBuilder).append (leaves_dup.append
        ((leaves_call result locals creates rfl (kindedResult_void rfl)).above [.reference]))
    have appended := leaves_of_codesParts result stores parts kinded codesParts
    have finished := leaves_call result locals finishes rfl
      (kindedResult_object [] .string)
    exact start.append (appended.append finished)
  | .callStatic owner method type args, is, kinded, codes => by
    obtain ⟨xs, call, codesArgs, calls, rfl⟩ := codes
    rw [Kinded] at kinded
    obtain ⟨kinds, areKinds, passed⟩ := leaves_of_codesAll result stores args kinded.1 codesArgs
    have called := leaves_call result locals calls areKinds kinded.2
    rw [receiver, List.append_nil] at called
    exact passed.append called
  | .callStaticOn target owner method type args, is, kinded, codes => by
    obtain ⟨xs, ys, call, codesTarget, codesArgs, calls, rfl⟩ := codes
    rw [Kinded] at kinded
    obtain ⟨⟨kindedTarget, kind, isKind⟩, kindedArgs, kindedResult⟩ := kinded
    have first := leaves_of_codes result stores target kindedTarget codesTarget
    rw [isKind] at first
    obtain ⟨kinds, areKinds, passed⟩ := leaves_of_codesAll result stores args kindedArgs codesArgs
    have called := leaves_call result locals calls areKinds kindedResult
    rw [receiver, List.append_nil] at called
    exact first.append ((leaves_dropCode isKind).append (passed.append called))
  | .callInstance target ofInterface owner method type args, is, kinded, codes => by
    obtain ⟨xs, ys, call, codesTarget, codesArgs, calls, rfl⟩ := codes
    rw [Kinded] at kinded
    obtain ⟨⟨kindedTarget, isKind⟩, kindedArgs, kindedResult⟩ := kinded
    have first := leaves_of_codes result stores target kindedTarget codesTarget
    rw [isKind] at first
    obtain ⟨kinds, areKinds, passed⟩ := leaves_of_codesAll result stores args kindedArgs codesArgs
    have called := leaves_call result locals calls areKinds kindedResult
    have onObject : receiver (if ofInterface then .interface else .virtual) = [.reference] := by
      cases ofInterface with
      | true => rfl
      | false => rfl
    rw [onObject] at called
    exact first.append ((passed.above [.reference]).append called)
  | .create owner type args, is, kinded, codes => by
    obtain ⟨object, xs, call, isObject, codesArgs, calls, rfl⟩ := codes
    rw [Kinded] at kinded
    obtain ⟨kindedArgs, isVoid⟩ := kinded
    obtain ⟨kinds, areKinds, passed⟩ := leaves_of_codesAll result stores args kindedArgs codesArgs
    have called := (leaves_call result locals calls areKinds
      (kindedResult_void isVoid)).above [.reference]
    rw [resultType, isVoid] at called
    rw [List.append_assoc] at called
    have start : Leaves t result locals [.newObject object, .dup] [] [.reference, .reference] :=
      (leaves_newObject isObject).append leaves_dup
    exact start.append ((passed.above [.reference, .reference]).append called)

theorem leaves_of_codesAll (result : Option FieldType) (stores : Stores v slots locals) :
    ∀ (as : List Term) {types : List FieldType} {is : List Instruction}, KindedArgs v as types →
      CodesAll t slots as is → ∃ kinds, types.mapM valueKind? = some kinds ∧
        Leaves t result locals is [] kinds.reverse
  | [], [], is, kinded, codes => by
    obtain rfl := codes
    exact ⟨[], rfl, leaves_nil []⟩
  | [], type :: types, is, kinded, codes => by
    simp [KindedArgs] at kinded
  | a :: rest, [], is, kinded, codes => by
    simp [KindedArgs] at kinded
  | a :: rest, type :: types, is, kinded, codes => by
    obtain ⟨xs, ys, codesFirst, codesRest, rfl⟩ := codes
    rw [KindedArgs] at kinded
    obtain ⟨⟨kindedFirst, kind, isKind, wanted⟩, kindedRest⟩ := kinded
    have first := leaves_of_codes result stores a kindedFirst codesFirst
    rw [isKind] at first
    obtain ⟨kinds, areKinds, others⟩ := leaves_of_codesAll result stores rest kindedRest codesRest
    refine ⟨kind :: kinds, ?_, ?_⟩
    · rw [List.mapM_cons, wanted, areKinds]
      rfl
    · rw [List.reverse_cons]
      exact first.append (others.above [kind])

theorem leaves_of_codesParts (result : Option FieldType) (stores : Stores v slots locals) :
    ∀ (parts : List Term) {is : List Instruction}, KindedParts v parts →
      CodesParts t slots parts is → Leaves t result locals is [.reference] [.reference]
  | [], is, kinded, codes => by
    obtain rfl := codes
    exact leaves_nil _
  | a :: rest, is, kinded, codes => by
    obtain ⟨xs, append, ys, codesFirst, appends, codesRest, rfl⟩ := codes
    rw [KindedParts] at kinded
    obtain ⟨⟨kindedFirst, kind, isKind⟩, kindedRest⟩ := kinded
    have first := (leaves_of_codes result stores a kindedFirst codesFirst).above [.reference]
    rw [isKind] at first
    have parameter : [Emit.appendParameter a.type].mapM valueKind? = some [kind] := by
      rw [List.mapM_cons, kind_of_appendParameter isKind]
      rfl
    have appended := leaves_call result locals appends parameter
      (kindedResult_object _ .stringBuilder)
    have others := leaves_of_codesParts result stores rest kindedRest codesRest
    exact first.append (appended.append others)

end

end JavaSnippet.Compile
