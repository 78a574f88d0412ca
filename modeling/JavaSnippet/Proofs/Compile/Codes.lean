import JavaSnippet.Compile.Emission
import JavaSnippet.Proofs.ClassFile.MethodBody
/-!
The instructions that terms and statements stand for, over a table of constants and a map of slots.
They are said without a body under construction; whatever is emitted are such instructions.
-/
namespace JavaSnippet.Compile

open ClassFile Typing

section Terms

variable (t : ConstantTable) (slots : SlotMap)

def CodesInt (value : Int32) (i : Instruction) : Prop :=
  -32768 ≤ value ∧ value < 32768 ∧ i = .intConst value ∨
    ∃ index, i = .ldc index ∧ t.constant? index = some (.integer value)

def CodesLong (value : Int64) (i : Instruction) : Prop :=
  (value = 0 ∨ value = 1) ∧ i = .longConst value ∨
    ∃ index, i = .ldc2 index ∧ t.constant? index = some (.long value)

def dropCode : ExprType → List Instruction
  | .void => []
  | .null => [.pop]
  | .value type => [if width type = 2 then .pop2 else .pop]

/-- The call that a method reference in the table makes. -/
def CodesCall (kind : InvokeKind) (owner : ClassName) (method : String) (type : MethodType)
    (i : Instruction) : Prop :=
  ∃ index, t.NamesMethod index owner method type (kind == .interface) ∧ i = .invoke kind index type

mutual

def Codes : Term → List Instruction → Prop
  | .int value, is => ∃ i, CodesInt t value i ∧ is = [i]
  | .long value, is => ∃ i, CodesLong t value i ∧ is = [i]
  | .string text, is =>
    ∃ index content, t.constant? index = some (.string content) ∧
      t.utf8? content = some text ∧ is = [.ldc index]
  | .bool value, is => ∃ i, CodesInt t (if value then 1 else 0) i ∧ is = [i]
  | .null, is => is = [.nullConst]
  | .localVar id type, is =>
    ∃ kind slot, MethodBody.valueKind? type = some kind ∧ slots[id]? = some (some slot) ∧
      is = [.load kind slot]
  | .neg width operand, is => ∃ xs, Codes operand xs ∧ is = xs ++ [.neg width]
  | .arith op width left right, is =>
    ∃ xs ys, Codes left xs ∧ Codes right ys ∧ is = xs ++ (ys ++ [.arith op width])
  | .widen operand, is => ∃ xs, Codes operand xs ∧ is = xs ++ [.widen]
  | .concat parts, is =>
    ∃ builder create finish xs, t.className? builder = some ClassName.stringBuilder.text ∧
      CodesCall t .special .stringBuilder "<init>" noArguments create ∧ CodesParts parts xs ∧
      CodesCall t .virtual .stringBuilder "toString" ⟨[], some .string⟩ finish ∧
      is = [.newObject builder, .dup, create] ++ (xs ++ [finish])
  | .callStatic owner method type args, is =>
    ∃ xs call, CodesAll args xs ∧ CodesCall t .static owner method type call ∧ is = xs ++ [call]
  | .callStaticOn receiver owner method type args, is =>
    ∃ xs ys call, Codes receiver xs ∧ CodesAll args ys ∧
      CodesCall t .static owner method type call ∧
      is = xs ++ (dropCode receiver.type ++ (ys ++ [call]))
  | .callInstance receiver ofInterface owner method type args, is =>
    ∃ xs ys call, Codes receiver xs ∧ CodesAll args ys ∧
      CodesCall t (if ofInterface then .interface else .virtual) owner method type call ∧
      is = xs ++ (ys ++ [call])
  | .create owner type args, is =>
    ∃ object xs call, t.className? object = some owner.text ∧ CodesAll args xs ∧
      CodesCall t .special owner "<init>" type call ∧
      is = [.newObject object, .dup] ++ (xs ++ [call])

def CodesAll : List Term → List Instruction → Prop
  | [], is => is = []
  | a :: rest, is => ∃ xs ys, Codes a xs ∧ CodesAll rest ys ∧ is = xs ++ ys

def CodesParts : List Term → List Instruction → Prop
  | [], is => is = []
  | a :: rest, is =>
    ∃ xs append ys, Codes a xs ∧
      CodesCall t .virtual .stringBuilder "append"
        ⟨[Emit.appendParameter a.type], some (.object .stringBuilder)⟩ append ∧
      CodesParts rest ys ∧ is = xs ++ (append :: ys)

end

def CodesReturn : Option FieldType → Instruction → Prop
  | none, i => i = .returnVoid
  | some type, i => ∃ kind, MethodBody.valueKind? type = some kind ∧ i = .returnValue kind

def CodesOptional : Option Term → List Instruction → Prop
  | none, is => is = []
  | some a, is => Codes t slots a is

end Terms

section Statements

variable (t : ConstantTable) (m : TypedMethod)

/-- A statement between two places of a body, each given by the slots of the variables and the next
free slot. -/
inductive CodesStmt : SlotMap → Nat → TypedStmt → List Instruction → SlotMap → Nat → Prop where
  | declare {slots : SlotMap} {next id : Nat} (room : next < 65536) :
    CodesStmt slots next (.declare id none) [] (slots.setIfInBounds id (some next.toUInt16))
      (next + width (m.locals.getD id .int))
  | fill {slots : SlotMap} {next id : Nat} {value : Term} {xs : List Instruction}
    {kind : ValueKind} (room : next < 65536)
    (codes : Codes t (slots.setIfInBounds id (some next.toUInt16)) value xs)
    (isKind : MethodBody.valueKind? (m.locals.getD id .int) = some kind) :
    CodesStmt slots next (.declare id (some value)) (xs ++ [.store kind next.toUInt16])
      (slots.setIfInBounds id (some next.toUInt16)) (next + width (m.locals.getD id .int))
  | store {slots : SlotMap} {next id : Nat} {value : Term} {slot : UInt16} {xs : List Instruction}
    {kind : ValueKind} (found : slots[id]? = some (some slot)) (codes : Codes t slots value xs)
    (isKind : MethodBody.valueKind? (m.locals.getD id .int) = some kind) :
    CodesStmt slots next (.store id value) (xs ++ [.store kind slot]) slots next
  | returns {slots : SlotMap} {next : Nat} {value : Option Term} {xs : List Instruction}
    {last : Instruction} (codes : CodesOptional t slots value xs)
    (isReturn : CodesReturn m.signature.type.result last) :
    CodesStmt slots next (.returns value) (xs ++ [last]) slots next
  | throws {slots : SlotMap} {next : Nat} {value : Term} {xs : List Instruction}
    (codes : Codes t slots value xs) :
    CodesStmt slots next (.throws value) (xs ++ [.throwObject]) slots next
  | expr {slots : SlotMap} {next : Nat} {value : Term} {xs : List Instruction}
    (codes : Codes t slots value xs) :
    CodesStmt slots next (.expr value) (xs ++ dropCode value.type) slots next

/-- Statements in order, each with a block of instructions. -/
inductive CodesStmts : SlotMap → Nat → List TypedStmt → List (List Instruction) → Prop where
  | nil {slots : SlotMap} {next : Nat} : CodesStmts slots next [] []
  | cons {slots after : SlotMap} {next later : Nat} {s : TypedStmt} {rest : List TypedStmt}
    {is : List Instruction} {blocks : List (List Instruction)}
    (first : CodesStmt t m slots next s is after later)
    (others : CodesStmts after later rest blocks) :
    CodesStmts slots next (s :: rest) (is :: blocks)

end Statements

namespace Emit

open MethodBody ExceptState

theorem slotOf_ok {slots : SlotMap} {id : Nat} {slot : UInt16} {b d : MethodBody}
    (h : slotOf slots id b = (.ok slot, d)) : slots[id]? = some (some slot) ∧ d = b := by
  unfold slotOf at h
  cases found : slots[id]? with
  | none =>
    rw [found] at h
    cases h
  | some held =>
    rw [found] at h
    cases held with
    | none => cases h
    | some other =>
      obtain ⟨same, rfl⟩ := Prod.mk.inj h
      obtain rfl := Except.ok.inj same
      exact ⟨rfl, rfl⟩

theorem dropResult_ok {type : ExprType} {b d : MethodBody} (sound : b.Sound)
    (h : dropResult type b = (.ok (), d)) : b.Extends (dropCode type) d := by
  cases type with
  | void =>
    obtain ⟨-, rfl⟩ := Prod.mk.inj h
    exact sound.extends
  | null => exact push_extends sound h
  | value type => exact push_extends sound h

theorem call_ok {kind : InvokeKind} {owner : ClassName} {name : String} {type : MethodType}
    {b d : MethodBody} (sound : b.Sound) (h : invoke kind owner name type b = (.ok (), d)) :
    ∃ call, b.Extends [call] d ∧ ∀ t, d.pool.Within t → CodesCall t kind owner name type call := by
  obtain ⟨index, grown, named⟩ := invoke_ok sound h
  exact ⟨_, grown, fun t within => ⟨index, named t within, rfl⟩⟩

theorem startBuilder_ok {b d : MethodBody} (sound : b.Sound) (h : startBuilder b = (.ok (), d)) :
    ∃ is, b.Extends is d ∧ ∀ t, d.pool.Within t →
      ∃ builder create, t.className? builder = some ClassName.stringBuilder.text ∧
        CodesCall t .special .stringBuilder "<init>" noArguments create ∧
        is = [.newObject builder, .dup, create] := by
  obtain ⟨⟨⟩, c, first, h⟩ := bind_eq_ok.mp h
  obtain ⟨builder, grownObject, isBuilder⟩ := newObject_ok sound first
  obtain ⟨⟨⟩, e, second, last⟩ := bind_eq_ok.mp h
  have grownDup := push_extends grownObject.sound second
  obtain ⟨create, grownCall, creates⟩ := call_ok grownDup.sound last
  refine ⟨_, grownObject.trans (grownDup.trans grownCall), fun t within => ?_⟩
  have atObject := grownDup.pool.within (grownCall.pool.within within)
  exact ⟨builder, create, isBuilder t atObject, creates t within, rfl⟩

variable {slots : SlotMap}

mutual

/-- What is emitted for a term is its code, whatever is added later. -/
theorem term_ok : ∀ (a : Term) {b d : MethodBody}, b.Sound → term slots a b = (.ok (), d) →
    ∃ is, b.Extends is d ∧ ∀ t, d.pool.Within t → Codes t slots a is
  | .int value, b, d, sound, h => by
    obtain ⟨i, grown, ⟨low, high, rfl⟩ | ⟨index, rfl, found⟩⟩ := pushInt_ok sound h
    · exact ⟨_, grown, fun t _ => ⟨_, .inl ⟨low, high, rfl⟩, rfl⟩⟩
    · exact ⟨_, grown, fun t within => ⟨_, .inr ⟨index, rfl, found t within⟩, rfl⟩⟩
  | .long value, b, d, sound, h => by
    obtain ⟨i, grown, ⟨small, rfl⟩ | ⟨index, rfl, found⟩⟩ := pushLong_ok sound h
    · exact ⟨_, grown, fun t _ => ⟨_, .inl ⟨small, rfl⟩, rfl⟩⟩
    · exact ⟨_, grown, fun t within => ⟨_, .inr ⟨index, rfl, found t within⟩, rfl⟩⟩
  | .string text, b, d, sound, h => by
    obtain ⟨index, grown, found⟩ := pushString_ok sound h
    refine ⟨_, grown, fun t within => ?_⟩
    obtain ⟨content, isString, isText⟩ := found t within
    exact ⟨index, content, isString, isText, rfl⟩
  | .bool value, b, d, sound, h => by
    obtain ⟨i, grown, ⟨low, high, rfl⟩ | ⟨index, rfl, found⟩⟩ := pushInt_ok sound h
    · exact ⟨_, grown, fun t _ => ⟨_, .inl ⟨low, high, rfl⟩, rfl⟩⟩
    · exact ⟨_, grown, fun t within => ⟨_, .inr ⟨index, rfl, found t within⟩, rfl⟩⟩
  | .null, b, d, sound, h => ⟨_, push_extends sound h, fun _ _ => rfl⟩
  | .localVar id type, b, d, sound, h => by
    obtain ⟨slot, c, isSlot, last⟩ := bind_eq_ok.mp h
    obtain ⟨found, rfl⟩ := slotOf_ok isSlot
    obtain ⟨kind, isKind, grown⟩ := load_ok sound last
    exact ⟨_, grown, fun t _ => ⟨kind, slot, isKind, found, rfl⟩⟩
  | .neg width operand, b, d, sound, h => by
    obtain ⟨⟨⟩, c, first, last⟩ := bind_eq_ok.mp h
    obtain ⟨xs, grown, codes⟩ := term_ok operand sound first
    have final := push_extends grown.sound last
    exact ⟨_, grown.trans final, fun t within => ⟨xs, codes t (final.pool.within within), rfl⟩⟩
  | .arith op width left right, b, d, sound, h => by
    obtain ⟨⟨⟩, c, first, h⟩ := bind_eq_ok.mp h
    obtain ⟨xs, grownLeft, codesLeft⟩ := term_ok left sound first
    obtain ⟨⟨⟩, e, second, last⟩ := bind_eq_ok.mp h
    obtain ⟨ys, grownRight, codesRight⟩ := term_ok right grownLeft.sound second
    have final := push_extends grownRight.sound last
    refine ⟨_, grownLeft.trans (grownRight.trans final), fun t within => ?_⟩
    have atRight := final.pool.within within
    exact ⟨xs, ys, codesLeft t (grownRight.pool.within atRight), codesRight t atRight, rfl⟩
  | .widen operand, b, d, sound, h => by
    obtain ⟨⟨⟩, c, first, last⟩ := bind_eq_ok.mp h
    obtain ⟨xs, grown, codes⟩ := term_ok operand sound first
    have final := push_extends grown.sound last
    exact ⟨_, grown.trans final, fun t within => ⟨xs, codes t (final.pool.within within), rfl⟩⟩
  | .concat parts, b, d, sound, h => by
    obtain ⟨⟨⟩, c, first, h⟩ := bind_eq_ok.mp h
    obtain ⟨start, grownStart, starts⟩ := startBuilder_ok sound first
    obtain ⟨⟨⟩, e, second, last⟩ := bind_eq_ok.mp h
    obtain ⟨xs, grownParts, codes⟩ := appendParts_ok parts grownStart.sound second
    obtain ⟨finish, grownFinish, finishes⟩ := call_ok grownParts.sound last
    refine ⟨_, grownStart.trans (grownParts.trans grownFinish), fun t within => ?_⟩
    have atParts := grownFinish.pool.within within
    obtain ⟨builder, create, isBuilder, creates, rfl⟩ :=
      starts t (grownParts.pool.within atParts)
    exact ⟨builder, create, finish, xs, isBuilder, creates, codes t atParts, finishes t within, rfl⟩
  | .callStatic owner method type args, b, d, sound, h => by
    obtain ⟨⟨⟩, c, first, last⟩ := bind_eq_ok.mp h
    obtain ⟨xs, grown, codes⟩ := terms_ok args sound first
    obtain ⟨call, grownCall, calls⟩ := call_ok grown.sound last
    exact ⟨_, grown.trans grownCall, fun t within =>
      ⟨xs, call, codes t (grownCall.pool.within within), calls t within, rfl⟩⟩
  | .callStaticOn receiver owner method type args, b, d, sound, h => by
    obtain ⟨⟨⟩, c, first, h⟩ := bind_eq_ok.mp h
    obtain ⟨xs, grownReceiver, codesReceiver⟩ := term_ok receiver sound first
    obtain ⟨⟨⟩, e, second, h⟩ := bind_eq_ok.mp h
    have grownDrop := dropResult_ok grownReceiver.sound second
    obtain ⟨⟨⟩, f, third, last⟩ := bind_eq_ok.mp h
    obtain ⟨ys, grownArgs, codesArgs⟩ := terms_ok args grownDrop.sound third
    obtain ⟨call, grownCall, calls⟩ := call_ok grownArgs.sound last
    refine ⟨_, grownReceiver.trans (grownDrop.trans (grownArgs.trans grownCall)),
      fun t within => ?_⟩
    have atArgs := grownCall.pool.within within
    have atReceiver := grownDrop.pool.within (grownArgs.pool.within atArgs)
    exact ⟨xs, ys, call, codesReceiver t atReceiver, codesArgs t atArgs, calls t within, rfl⟩
  | .callInstance receiver ofInterface owner method type args, b, d, sound, h => by
    obtain ⟨⟨⟩, c, first, h⟩ := bind_eq_ok.mp h
    obtain ⟨xs, grownReceiver, codesReceiver⟩ := term_ok receiver sound first
    obtain ⟨⟨⟩, e, second, last⟩ := bind_eq_ok.mp h
    obtain ⟨ys, grownArgs, codesArgs⟩ := terms_ok args grownReceiver.sound second
    obtain ⟨call, grownCall, calls⟩ := call_ok grownArgs.sound last
    refine ⟨_, grownReceiver.trans (grownArgs.trans grownCall), fun t within => ?_⟩
    have atArgs := grownCall.pool.within within
    exact ⟨xs, ys, call, codesReceiver t (grownArgs.pool.within atArgs), codesArgs t atArgs,
      calls t within, rfl⟩
  | .create owner type args, b, d, sound, h => by
    obtain ⟨⟨⟩, c, first, h⟩ := bind_eq_ok.mp h
    obtain ⟨object, grownObject, isObject⟩ := newObject_ok sound first
    obtain ⟨⟨⟩, e, second, h⟩ := bind_eq_ok.mp h
    have grownDup := push_extends grownObject.sound second
    obtain ⟨⟨⟩, f, third, last⟩ := bind_eq_ok.mp h
    obtain ⟨xs, grownArgs, codesArgs⟩ := terms_ok args grownDup.sound third
    obtain ⟨call, grownCall, calls⟩ := call_ok grownArgs.sound last
    refine ⟨_, (grownObject.trans grownDup).trans (grownArgs.trans grownCall), fun t within => ?_⟩
    have atArgs := grownCall.pool.within within
    have atObject := grownDup.pool.within (grownArgs.pool.within atArgs)
    exact ⟨object, xs, call, isObject t atObject, codesArgs t atArgs, calls t within, rfl⟩

theorem terms_ok : ∀ (as : List Term) {b d : MethodBody}, b.Sound →
    terms slots as b = (.ok (), d) →
    ∃ is, b.Extends is d ∧ ∀ t, d.pool.Within t → CodesAll t slots as is
  | [], b, d, sound, h => by
    obtain ⟨-, rfl⟩ := Prod.mk.inj h
    exact ⟨[], sound.extends, fun _ _ => rfl⟩
  | a :: rest, b, d, sound, h => by
    obtain ⟨⟨⟩, c, first, last⟩ := bind_eq_ok.mp h
    obtain ⟨xs, grown, codes⟩ := term_ok a sound first
    obtain ⟨ys, grownRest, codesRest⟩ := terms_ok rest grown.sound last
    exact ⟨_, grown.trans grownRest, fun t within =>
      ⟨xs, ys, codes t (grownRest.pool.within within), codesRest t within, rfl⟩⟩

theorem appendParts_ok : ∀ (as : List Term) {b d : MethodBody}, b.Sound →
    appendParts slots as b = (.ok (), d) →
    ∃ is, b.Extends is d ∧ ∀ t, d.pool.Within t → CodesParts t slots as is
  | [], b, d, sound, h => by
    obtain ⟨-, rfl⟩ := Prod.mk.inj h
    exact ⟨[], sound.extends, fun _ _ => rfl⟩
  | a :: rest, b, d, sound, h => by
    obtain ⟨⟨⟩, c, first, h⟩ := bind_eq_ok.mp h
    obtain ⟨xs, grown, codes⟩ := term_ok a sound first
    obtain ⟨⟨⟩, e, second, last⟩ := bind_eq_ok.mp h
    obtain ⟨append, grownCall, calls⟩ := call_ok grown.sound second
    obtain ⟨ys, grownRest, codesRest⟩ := appendParts_ok rest grownCall.sound last
    refine ⟨_, grown.trans (grownCall.trans grownRest), fun t within => ?_⟩
    have atCall := grownRest.pool.within within
    exact ⟨xs, append, ys, codes t (grownCall.pool.within atCall), calls t atCall,
      codesRest t within, rfl⟩

end

theorem returnValue_ok {result : Option FieldType} {b d : MethodBody} (sound : b.Sound)
    (h : returnValue result b = (.ok (), d)) :
    ∃ i, b.Extends [i] d ∧ CodesReturn result i := by
  cases result with
  | none => exact ⟨_, push_extends sound h, rfl⟩
  | some type =>
    obtain ⟨kind, c, isKind, last⟩ := bind_eq_ok.mp h
    obtain ⟨found, rfl⟩ := kindOr_ok isKind
    exact ⟨_, push_extends sound last, kind, found, rfl⟩

theorem statement_ok {m : TypedMethod} {s : TypedStmt} {after : SlotMap} {b d : MethodBody}
    (sound : b.Sound) (h : statement slots m s b = (.ok after, d)) :
    ∃ is, b.Appends is d ∧ ∀ t, d.pool.Within t →
      CodesStmt t m slots b.nextLocal s is after d.nextLocal := by
  unfold statement at h
  cases s with
  | declare id value =>
    obtain ⟨slot, c, fresh, h⟩ := bind_eq_ok.mp h
    obtain ⟨room, rfl, taken, grown⟩ := freshLocal_ok sound fresh
    cases value with
    | none =>
      obtain ⟨same, rfl⟩ := Prod.mk.inj h
      obtain rfl := Except.ok.inj same
      exact ⟨_, grown, fun t _ => taken ▸ .declare room⟩
    | some value =>
      obtain ⟨⟨⟩, e, first, h⟩ := bind_eq_ok.mp h
      obtain ⟨xs, evaluated, codes⟩ := term_ok value grown.sound first
      obtain ⟨⟨⟩, f, second, last⟩ := bind_eq_ok.mp h
      obtain ⟨kind, isKind, stored⟩ := store_ok evaluated.sound second
      obtain ⟨same, rfl⟩ := Prod.mk.inj last
      obtain rfl := Except.ok.inj same
      have filled := evaluated.trans stored
      refine ⟨_, grown.trans filled.toAppends, fun t within => ?_⟩
      rw [filled.nextLocal, taken]
      exact .fill room (codes t (stored.pool.within within)) isKind
  | store id value =>
    obtain ⟨slot, c, isSlot, rest⟩ := bind_eq_ok.mp h
    obtain ⟨found, rfl⟩ := slotOf_ok isSlot
    obtain ⟨⟨⟩, e, first, rest⟩ := bind_eq_ok.mp rest
    obtain ⟨xs, grown, codes⟩ := term_ok value sound first
    obtain ⟨⟨⟩, f, second, last⟩ := bind_eq_ok.mp rest
    obtain ⟨kind, isKind, stored⟩ := store_ok grown.sound second
    obtain ⟨same, rfl⟩ := Prod.mk.inj last
    obtain rfl := Except.ok.inj same
    have whole := grown.trans stored
    refine ⟨_, whole.toAppends, fun t within => ?_⟩
    rw [whole.nextLocal]
    exact .store found (codes t (stored.pool.within within)) isKind
  | returns value =>
    cases value with
    | none =>
      obtain ⟨⟨⟩, e, first, last⟩ := bind_eq_ok.mp h
      obtain ⟨i, grown, returns⟩ := returnValue_ok sound first
      obtain ⟨same, rfl⟩ := Prod.mk.inj last
      obtain rfl := Except.ok.inj same
      refine ⟨_, grown.toAppends, fun t within => ?_⟩
      rw [grown.nextLocal]
      exact .returns (show CodesOptional t slots none [] from rfl) returns
    | some value =>
      obtain ⟨⟨⟩, e, first, h⟩ := bind_eq_ok.mp h
      obtain ⟨xs, evaluated, codes⟩ := term_ok value sound first
      obtain ⟨⟨⟩, f, second, last⟩ := bind_eq_ok.mp h
      obtain ⟨i, grown, returns⟩ := returnValue_ok evaluated.sound second
      obtain ⟨same, rfl⟩ := Prod.mk.inj last
      obtain rfl := Except.ok.inj same
      have whole := evaluated.trans grown
      refine ⟨_, whole.toAppends, fun t within => ?_⟩
      rw [whole.nextLocal]
      exact .returns (codes t (grown.pool.within within)) returns
  | throws value =>
    obtain ⟨⟨⟩, e, first, h⟩ := bind_eq_ok.mp h
    obtain ⟨xs, evaluated, codes⟩ := term_ok value sound first
    obtain ⟨⟨⟩, f, second, last⟩ := bind_eq_ok.mp h
    have thrown := push_extends evaluated.sound second
    obtain ⟨same, rfl⟩ := Prod.mk.inj last
    obtain rfl := Except.ok.inj same
    have whole := evaluated.trans thrown
    refine ⟨_, whole.toAppends, fun t within => ?_⟩
    rw [whole.nextLocal]
    exact .throws (codes t (thrown.pool.within within))
  | expr value =>
    obtain ⟨⟨⟩, e, first, h⟩ := bind_eq_ok.mp h
    obtain ⟨xs, evaluated, codes⟩ := term_ok value sound first
    obtain ⟨⟨⟩, f, second, last⟩ := bind_eq_ok.mp h
    have dropped := dropResult_ok evaluated.sound second
    obtain ⟨same, rfl⟩ := Prod.mk.inj last
    obtain rfl := Except.ok.inj same
    have whole := evaluated.trans dropped
    refine ⟨_, whole.toAppends, fun t within => ?_⟩
    rw [whole.nextLocal]
    exact .expr (codes t (dropped.pool.within within))

theorem statements_ok {m : TypedMethod} {ss : List TypedStmt} {slots : SlotMap}
    {b d : MethodBody} (sound : b.Sound) (h : statements m slots ss b = (.ok (), d)) :
    ∃ blocks, b.Appends blocks.flatten d ∧ ∀ t, d.pool.Within t →
      CodesStmts t m slots b.nextLocal ss blocks := by
  induction ss generalizing slots b with
  | nil =>
    obtain ⟨-, rfl⟩ := Prod.mk.inj h
    exact ⟨[], sound.extends.toAppends, fun _ _ => .nil⟩
  | cons s rest ih =>
    obtain ⟨after, c, first, last⟩ := bind_eq_ok.mp h
    obtain ⟨is, grown, codes⟩ := statement_ok sound first
    obtain ⟨blocks, grownRest, codesRest⟩ := ih grown.sound last
    exact ⟨is :: blocks, grown.trans grownRest, fun t within =>
      .cons (codes t (grownRest.pool.within within)) (codesRest t within)⟩

end Emit

end JavaSnippet.Compile
