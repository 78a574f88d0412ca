import JavaSnippet.Proofs.ClassFile.Kinds
import JavaSnippet.Proofs.ClassFile.MethodBody
import JavaSnippet.Proofs.Machine.Value
/-!
Checking code before it is run. Only the kinds of values are followed; an instruction is accepted
when its operands are on the stack, when the slot it loads was filled with a value of its kind, and
when the constant it names is what it needs.
-/
namespace JavaSnippet.Machine

open ClassFile
open MethodBody (valueKind?)

/-- What is known at a place of the code. The top of the stack comes first. -/
structure Shape where
  stack : List ValueKind
  locals : Locals ValueKind
  /-- Whether the method has ended. -/
  ended : Bool

namespace Shape

/-- The shape at the start of a method, whose parameters are in the first slots. -/
def start (parameters : List ValueKind) : Shape := ⟨[], Locals.ofList 0 parameters, false⟩

end Shape

/-- The kind of a constant of one slot. -/
def constantKind? (t : ConstantTable) (index : PoolIndex) : Option ValueKind :=
  match t.constant? index with
  | some (.integer _) => some .int
  | some (.string _) => some .reference
  | _ => none

/-- The descriptor of a method reference, and whether it names a method of an interface. -/
def methodDescriptor? (t : ConstantTable) (index : PoolIndex) : Option (String × Bool) :=
  match t.constant? index with
  | some (.methodRef _ member ofInterface) =>
    match t.constant? member with
    | some (.nameAndType _ descriptor) => (t.utf8? descriptor).map (·, ofInterface)
    | _ => none
  | _ => none

/-- The object that a method is called on, which lies below the arguments. -/
def receiver : InvokeKind → List ValueKind
  | .static => []
  | _ => [.reference]

/-- What a call takes from the stack, the last argument first. -/
def operands? (kind : InvokeKind) (type : MethodType) : Option (List ValueKind) :=
  (type.parameters.mapM valueKind?).map fun kinds => kinds.reverse ++ receiver kind

/-- What a call leaves on the stack. -/
def result? (type : MethodType) : Option (List ValueKind) :=
  match type.result with
  | none => some []
  | some t => (valueKind? t).map ([·])

def call? (kind : InvokeKind) (type : MethodType) (stack : List ValueKind) :
    Option (List ValueKind) := do
  let operands ← operands? kind type
  let rest ← operands.isPrefixOf? stack
  return (← result? type) ++ rest

/-- What an instruction makes of the stack and the locals, if it is accepted. One that ends the
method has to leave nothing on the stack. -/
def effect (t : ConstantTable) (result : Option FieldType) (i : Instruction)
    (stack : List ValueKind) (locals : Locals ValueKind) :
    Option (List ValueKind × Locals ValueKind) :=
  match i with
  | .nullConst => some (.reference :: stack, locals)
  | .intConst _ => some (.int :: stack, locals)
  | .longConst _ => some (.long :: stack, locals)
  | .ldc index => (constantKind? t index).map fun kind => (kind :: stack, locals)
  | .ldc2 index =>
    match t.constant? index with
    | some (.long _) => some (.long :: stack, locals)
    | _ => none
  | .load kind slot =>
    if locals slot.toNat = some kind then some (kind :: stack, locals) else none
  | .store kind slot =>
    match stack with
    | top :: rest => if top = kind then some (rest, locals.set slot.toNat kind) else none
    | [] => none
  | .arith _ width =>
    match stack with
    | right :: left :: rest =>
      if left = width.kind ∧ right = width.kind then some (width.kind :: rest, locals) else none
    | _ => none
  | .neg width =>
    match stack with
    | top :: rest => if top = width.kind then some (width.kind :: rest, locals) else none
    | [] => none
  | .widen =>
    match stack with
    | .int :: rest => some (.long :: rest, locals)
    | _ => none
  | .pop =>
    match stack with
    | top :: rest => if top.slots = 1 then some (rest, locals) else none
    | [] => none
  | .pop2 =>
    match stack with
    | .long :: rest => some (rest, locals)
    | _ => none
  | .dup =>
    match stack with
    | top :: rest => if top.slots = 1 then some (top :: top :: rest, locals) else none
    | [] => none
  | .newObject index =>
    if (t.className? index).isSome then some (.reference :: stack, locals) else none
  | .checkCast index =>
    match stack with
    | .reference :: rest =>
      if (t.className? index).isSome then some (.reference :: rest, locals) else none
    | _ => none
  | .invoke kind method type =>
    if methodDescriptor? t method = some (type.render, kind == .interface) then
      (call? kind type stack).map fun stack => (stack, locals)
    else none
  | .throwObject => if stack = [.reference] then some ([], locals) else none
  | .returnValue kind =>
    if stack = [kind] ∧ result.bind valueKind? = some kind then some ([], locals) else none
  | .returnVoid => if stack = [] ∧ result = none then some ([], locals) else none

/-- Follows an instruction of a method with a declared result. Nothing is accepted after one that
ends the method. -/
def verify (t : ConstantTable) (result : Option FieldType) (i : Instruction) (s : Shape) :
    Option Shape :=
  if s.ended then none
  else (effect t result i s.stack s.locals).map fun after => ⟨after.1, after.2, i.isTerminal⟩

variable {t : ConstantTable} {result : Option FieldType}

/-- Follows instructions in order. -/
def verifyAll (t : ConstantTable) (result : Option FieldType) :
    List Instruction → Shape → Option Shape
  | [], s => some s
  | i :: is, s => (verify t result i s).bind (verifyAll t result is)

/-- Follows the instructions of one statement after the other. The stack has to be empty between
them. -/
def verifyBlocks (t : ConstantTable) (result : Option FieldType) :
    List (List Instruction) → Shape → Option Shape
  | [], s => some s
  | is :: rest, s =>
    (verifyAll t result is s).bind fun after =>
      if after.stack = [] then verifyBlocks t result rest after else none

theorem verifyAll_append {is js : List Instruction} {s : Shape} :
    verifyAll t result (is ++ js) s = (verifyAll t result is s).bind (verifyAll t result js) := by
  induction is generalizing s with
  | nil => rfl
  | cons i is ih =>
    rw [List.cons_append, verifyAll, verifyAll, Option.bind_assoc]
    exact congrArg _ (funext fun _ => ih)

theorem verifyAll_flatten {blocks : List (List Instruction)} {s after : Shape}
    (h : verifyBlocks t result blocks s = some after) :
    verifyAll t result blocks.flatten s = some after := by
  induction blocks generalizing s with
  | nil => exact h
  | cons is rest ih =>
    obtain ⟨between, first, others⟩ := Option.bind_eq_some_iff.mp h
    rw [List.flatten_cons, verifyAll_append, first]
    split at others
    · exact ih others
    · cases others

theorem verify_ended {i : Instruction} {s after : Shape} (h : verify t result i s = some after) :
    s.ended = false ∧ after.ended = i.isTerminal := by
  unfold verify at h
  split at h
  · cases h
  · rename_i goesOn
    obtain ⟨made, -, rfl⟩ := Option.map_eq_some_iff.mp h
    exact ⟨by simpa using goesOn, rfl⟩

/-- The instruction ends a method with the declared result. -/
def Ends (result : Option FieldType) (i : Instruction) : Prop :=
  i = .throwObject ∨ (i = .returnVoid ∧ result = none) ∨
    ∃ type kind, i = .returnValue kind ∧ result = some type ∧ valueKind? type = some kind

theorem ends_of_verify {i : Instruction} {s after : Shape} (h : verify t result i s = some after)
    (terminal : i.isTerminal = true) : Ends result i := by
  unfold verify at h
  split at h
  · cases h
  · obtain ⟨made, accepted, -⟩ := Option.map_eq_some_iff.mp h
    cases i with
    | throwObject => exact .inl rfl
    | returnVoid =>
      rw [effect] at accepted
      split at accepted
      · rename_i isVoid
        exact .inr (.inl ⟨rfl, isVoid.2⟩)
      · cases accepted
    | returnValue kind =>
      rw [effect] at accepted
      split at accepted
      · rename_i same
        obtain ⟨type, isResult, isKind⟩ := Option.bind_eq_some_iff.mp same.2
        exact .inr (.inr ⟨type, kind, rfl, isResult, isKind⟩)
      · cases accepted
    | _ => cases terminal

/-- Code that is accepted to its end ends with its last instruction and no other, as the method has
declared. -/
theorem ends_of_verifyAll {is : List Instruction} {s after : Shape} (goesOn : s.ended = false)
    (h : verifyAll t result is s = some after) (ended : after.ended = true) :
    ∃ front last, is = front ++ [last] ∧ (∀ i ∈ front, i.isTerminal = false) ∧
      Ends result last := by
  induction is generalizing s with
  | nil =>
    obtain rfl := Option.some.inj h
    rw [goesOn] at ended
    cases ended
  | cons i is ih =>
    obtain ⟨between, first, others⟩ := Option.bind_eq_some_iff.mp h
    have isTerminal := (verify_ended first).2
    cases terminal : i.isTerminal with
    | true =>
      cases is with
      | nil => exact ⟨[], i, rfl, by simp, ends_of_verify first terminal⟩
      | cons j is =>
        obtain ⟨later, second, -⟩ := Option.bind_eq_some_iff.mp others
        have still := (verify_ended second).1
        rw [isTerminal, terminal] at still
        cases still
    | false =>
      rw [terminal] at isTerminal
      obtain ⟨front, last, rfl, before, ends⟩ := ih isTerminal others
      exact ⟨i :: front, last, rfl, List.forall_mem_cons.mpr ⟨terminal, before⟩, ends⟩

end JavaSnippet.Machine
