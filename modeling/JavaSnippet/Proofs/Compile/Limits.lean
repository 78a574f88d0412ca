import JavaSnippet.Proofs.ClassFile.Limits
import JavaSnippet.Proofs.Compile.Accepted
/-!
Typed bodies only fail on limits. The code of a term takes nothing from the stack and leaves the
slots of its value, and every variable has a slot from its declaration on.
-/
namespace JavaSnippet.Compile

open ClassFile Typing Source
open MethodBody

/-- The stack slots of a value, if there is one. -/
def kindSlots (kind : Option ValueKind) : Nat := kind.elim 0 ValueKind.slots

theorem resultSlots_of_kinded {type : MethodType} (h : KindedResult type) :
    type.resultSlots = kindSlots (resultType type).kind? := by
  unfold MethodType.resultSlots resultType
  cases isResult : type.result with
  | none => rfl
  | some returned =>
    obtain ⟨kind, isKind⟩ := h returned isResult
    have kinds : (ExprType.value returned).kind? = some kind := isKind
    rw [kinds]
    exact (FieldType.slots_of_kind isKind).symm

variable {v : Variables} {slots : SlotMap}

/-- Every variable has a slot. -/
def Covers (slots : SlotMap) (count : Nat) : Prop :=
  ∀ id < count, ∃ slot, slots[id]? = some (some slot)

/-- The variables of a declaration have slots if those before it have. -/
theorem Covers.declare {count : Nat} {slot : UInt16} (covers : Covers slots count)
    (room : count < slots.size) :
    Covers (slots.setIfInBounds count (some slot)) (count + 1) := by
  intro id inside
  by_cases last : id = count
  · subst last
    exact ⟨slot, by simp [room]⟩
  · obtain ⟨other, found⟩ := covers id (by omega)
    exact ⟨other, by rw [Array.getElem?_setIfInBounds_ne (Ne.symm last)]; exact found⟩

namespace Emit

theorem balanced_slotOf {n id : Nat} {slot : UInt16} (found : slots[id]? = some (some slot)) :
    Balanced n (slotOf slots id) n fun _ => True := by
  unfold slotOf
  rw [found]
  exact balanced_pure trivial

theorem balanced_dropResult {type : ExprType} {kind : ValueKind} (isKind : type.kind? = some kind) :
    Balanced kind.slots (dropResult type) 0 fun _ => True := by
  cases type with
  | void => cases isKind
  | null =>
    obtain rfl := Option.some.inj isKind
    exact balanced_push rfl rfl
  | value type =>
    change Balanced kind.slots (push (if width type = 2 then .pop2 else .pop)) 0 fun _ => True
    rw [← FieldType.slots_of_kind isKind]
    cases kind with
    | int => exact balanced_push rfl rfl
    | long => exact balanced_push rfl rfl
    | reference => exact balanced_push rfl rfl

theorem balanced_startBuilder : Balanced 0 startBuilder 1 fun _ => True := by
  refine balanced_newObject.bind fun _ _ => ?_
  have copied : Balanced 1 (push .dup) 2 fun _ => True := balanced_push rfl rfl
  have created : Balanced 1 (invoke .special .stringBuilder "<init>" noArguments) 0
      fun _ => True := balanced_invoke rfl rfl
  exact copied.bind fun _ _ => created.above 1

mutual

/-- The code of a term leaves the slots of its value. -/
theorem balanced_term (covers : Covers slots v.locals.size) :
    ∀ (a : Term), Kinded v a →
      Balanced 0 (term slots a) (kindSlots a.type.kind?) fun _ => True
  | .int value, kinded => balanced_pushInt
  | .long value, kinded => balanced_pushLong
  | .string text, kinded => balanced_pushString
  | .bool value, kinded => balanced_pushInt
  | .null, kinded => balanced_push rfl rfl
  | .localVar id type, kinded => by
    rw [Kinded] at kinded
    obtain ⟨⟨state, found, -⟩, kind, isKind⟩ := kinded
    obtain ⟨slot, isSlot⟩ := covers id (Array.getElem?_eq_some_iff.mp found).1
    have kinds : (Term.localVar id type).type.kind? = some kind := isKind
    rw [kinds]
    exact (balanced_slotOf isSlot).bind fun _ _ => balanced_load isKind
  | .neg width operand, kinded => by
    rw [Kinded] at kinded
    have first := balanced_term covers operand kinded.1
    rw [kinded.2] at first
    rw [Term.type, kind_widthType]
    refine first.bind fun _ _ => balanced_push rfl ?_
    simp [kindSlots, Instruction.stackEffect, IntWidth.slots_kind]
  | .arith op width left right, kinded => by
    rw [Kinded] at kinded
    obtain ⟨⟨kindedLeft, kindLeft⟩, kindedRight, kindRight⟩ := kinded
    have first := balanced_term covers left kindedLeft
    have second := (balanced_term covers right kindedRight).above width.kind.slots
    rw [kindLeft] at first
    rw [kindRight] at second
    rw [Term.type, kind_widthType]
    refine first.bind fun _ _ => second.bind fun _ _ => balanced_push rfl ?_
    simp [kindSlots, Instruction.stackEffect, IntWidth.slots_kind, Nat.two_mul]
  | .widen operand, kinded => by
    rw [Kinded] at kinded
    have first := balanced_term covers operand kinded.1
    rw [kinded.2] at first
    exact first.bind fun _ _ => balanced_push rfl rfl
  | .concat parts, kinded => by
    rw [Kinded] at kinded
    exact balanced_startBuilder.bind fun _ _ =>
      (balanced_appendParts covers parts kinded).bind fun _ _ => balanced_invoke rfl rfl
  | .callStatic owner method type args, kinded => by
    rw [Kinded] at kinded
    exact (balanced_terms covers args kinded.1).bind fun _ _ =>
      balanced_invoke (Nat.zero_add _) (resultSlots_of_kinded kinded.2)
  | .callStaticOn target owner method type args, kinded => by
    rw [Kinded] at kinded
    obtain ⟨⟨kindedTarget, kind, isKind⟩, kindedArgs, kindedResult⟩ := kinded
    have first := balanced_term covers target kindedTarget
    rw [isKind] at first
    exact first.bind fun _ _ => (balanced_dropResult isKind).bind fun _ _ =>
      (balanced_terms covers args kindedArgs).bind fun _ _ =>
        balanced_invoke (Nat.zero_add _) (resultSlots_of_kinded kindedResult)
  | .callInstance target ofInterface owner method type args, kinded => by
    rw [Kinded] at kinded
    obtain ⟨⟨kindedTarget, isKind⟩, kindedArgs, kindedResult⟩ := kinded
    have first := balanced_term covers target kindedTarget
    rw [isKind] at first
    have onObject : ((if ofInterface then .interface else .virtual : InvokeKind) != .static) =
        true := by
      cases ofInterface with
      | true => rfl
      | false => rfl
    refine first.bind fun _ _ => ((balanced_terms covers args kindedArgs).above 1).bind fun _ _ =>
      balanced_invoke ?_ (resultSlots_of_kinded kindedResult)
    rw [onObject]
    rfl
  | .create owner type args, kinded => by
    rw [Kinded] at kinded
    obtain ⟨kindedArgs, isVoid⟩ := kinded
    have copied : Balanced 1 (push .dup) 2 fun _ => True := balanced_push rfl rfl
    have leaves : type.resultSlots = 0 := by
      rw [MethodType.resultSlots, isVoid]
    have called : Balanced (1 + totalWidth type.parameters)
        (invoke .special owner "<init>" type) 0 fun _ => True := balanced_invoke rfl leaves
    have together : 2 + totalWidth type.parameters = 1 + (1 + totalWidth type.parameters) := by
      omega
    refine balanced_newObject.bind fun _ _ => copied.bind fun _ _ =>
      ((balanced_terms covers args kindedArgs).above 2).bind fun _ _ => ?_
    rw [together]
    exact called.above 1

theorem balanced_terms (covers : Covers slots v.locals.size) :
    ∀ (as : List Term) {types : List FieldType}, KindedArgs v as types →
      Balanced 0 (terms slots as) (totalWidth types) fun _ => True
  | [], [], kinded => balanced_pure trivial
  | [], type :: types, kinded => by
    simp [KindedArgs] at kinded
  | a :: rest, [], kinded => by
    simp [KindedArgs] at kinded
  | a :: rest, type :: types, kinded => by
    rw [KindedArgs] at kinded
    obtain ⟨⟨kindedFirst, kind, isKind, wanted⟩, kindedRest⟩ := kinded
    have first := balanced_term covers a kindedFirst
    have others := (balanced_terms covers rest kindedRest).above kind.slots
    rw [isKind] at first
    rw [totalWidth, ← FieldType.slots_of_kind wanted]
    exact first.bind fun _ _ => others

theorem balanced_appendParts (covers : Covers slots v.locals.size) :
    ∀ (parts : List Term), KindedParts v parts →
      Balanced 1 (appendParts slots parts) 1 fun _ => True
  | [], kinded => balanced_pure trivial
  | a :: rest, kinded => by
    rw [KindedParts] at kinded
    obtain ⟨⟨kindedFirst, kind, isKind⟩, kindedRest⟩ := kinded
    have first := (balanced_term covers a kindedFirst).above 1
    rw [isKind] at first
    have appended : Balanced (1 + kind.slots) (appendPart a.type) 1 fun _ => True := by
      refine balanced_invoke ?_ rfl
      have wide := FieldType.slots_of_kind (kind_of_appendParameter isKind)
      simp [MethodType.parameterSlots, totalWidth, wide]
    exact first.bind fun _ _ => appended.bind fun _ _ =>
      balanced_appendParts covers rest kindedRest

end

section Statements

variable {m : TypedMethod} {c : MethodContext} {after : Variables} {s : Stmt} {a : TypedStmt}

/-- After a statement that goes on the stack is as before, and all variables have slots. -/
theorem balanced_statement (typed : TypesStmt c v s a after)
    (goesOn : MethodContext.leaves s = false) (path : c.scope.classPath.Supported)
    (vars : SupportedVars v) (covers : Covers slots v.locals.size)
    (size : slots.size = m.locals.length) (room : after.types <+: m.locals) :
    Balanced 0 (statement slots m a) 0 fun slotsAfter =>
      Covers slotsAfter after.locals.size ∧ slotsAfter.size = m.locals.length := by
  have onPath : ∀ w, (c.place w).path.Supported := fun _ => path
  have declares : ∀ {type : FieldType}, m.locals[v.locals.size]? = some type → ∀ slot,
      Covers (slots.setIfInBounds v.locals.size (some slot)) (v.locals.size + 1) ∧
        (slots.setIfInBounds v.locals.size (some slot)).size = m.locals.length := by
    intro type isType slot
    have inside := (List.getElem?_eq_some_iff.mp isType).1
    exact ⟨covers.declare (by omega), by rw [Array.size_setIfInBounds, size]⟩
  cases typed with
  | returnVoid => cases goesOn
  | returnValue => cases goesOn
  | throws => cases goesOn
  | declare fresh resolved =>
    rw [statement]
    refine balanced_freshLocal.bind fun slot _ => balanced_pure ?_
    simp only [Variables.declare, Array.size_push]
    exact declares (type_of_declared room) slot
  | @fill type name isFinal line fieldType e term fresh resolved typed =>
    have isType := type_of_declared room
    have supported := TypeScope.mentionsFloating_of_resolveType resolved
    obtain ⟨kind, isKind⟩ := FieldType.kind_of_supported supported
    obtain ⟨kinded, same⟩ := kinded_assigned (onPath _) (vars.declare supported) typed
    have locals : m.locals.getD v.locals.size .int = fieldType := by
      rw [List.getD_eq_getElem?_getD, isType]
      rfl
    rw [statement]
    refine balanced_freshLocal.bind fun slot _ => ?_
    obtain ⟨coversAfter, sizeAfter⟩ := declares isType slot
    have first := balanced_term (v := v.declare name ⟨fieldType, false, false⟩)
      (by simpa [Variables.declare] using coversAfter) term kinded
    rw [same, isKind] at first
    refine first.bind fun _ _ => ?_
    rw [locals]
    refine (balanced_store isKind).bind fun _ _ => balanced_pure ?_
    simp only [Variables.declare, Array.size_push]
    exact ⟨coversAfter, sizeAfter⟩
  | @assign name e line id state term found isOpen typed =>
    have target := (Variables.find?_eq_some.mp found).2
    obtain ⟨slot, isSlot⟩ := covers id (Array.getElem?_eq_some_iff.mp target).1
    obtain ⟨kinded, same⟩ := kinded_assigned (onPath v) vars typed
    have supported : state.type.mentionsFloating = false :=
      vars _ (List.mem_of_getElem? (Variables.types_of_find? found))
    obtain ⟨kind, isKind⟩ := FieldType.kind_of_supported supported
    rw [Variables.types_assigned] at room
    have locals : m.locals.getD id .int = state.type := by
      rw [List.getD_eq_getElem?_getD, type_of_local room target]
      rfl
    have first := balanced_term covers term kinded
    rw [same, isKind] at first
    rw [statement]
    refine (balanced_slotOf isSlot).bind fun _ _ => first.bind fun _ _ => ?_
    rw [locals]
    refine (balanced_store isKind).bind fun _ _ => balanced_pure ⟨?_, size⟩
    simpa [Variables.update] using covers
  | @expr e term typed =>
    have kinded := kinded_expression (onPath v) vars _ typed
    have first := balanced_term covers term kinded
    rw [statement]
    refine first.bind fun _ _ => ?_
    have dropped : Balanced (kindSlots term.type.kind?) (dropResult term.type) 0 fun _ => True := by
      by_cases isVoid : term.type = .void
      · rw [isVoid]
        exact balanced_pure trivial
      · obtain ⟨kind, isKind⟩ := kinded.kind isVoid
        rw [isKind]
        exact balanced_dropResult isKind
    exact dropped.bind fun _ _ => balanced_pure ⟨covers, size⟩

/-- What ends a method finds what it needs on the stack. -/
theorem limited_leaving (typed : TypesStmt c v s a after)
    (leaves : MethodContext.leaves s = true) (signature : m.signature = c.signature)
    (path : c.scope.classPath.Supported) (vars : SupportedVars v)
    (result : ∀ type, c.signature.type.result = some type → type.mentionsFloating = false)
    (covers : Covers slots v.locals.size) :
    LimitedTo (AtDepth 0) (statement slots m a) fun _ _ => True := by
  have onPath : (c.place v).path.Supported := path
  cases typed with
  | declare => cases leaves
  | fill => cases leaves
  | assign => cases leaves
  | expr => cases leaves
  | returnVoid isVoid =>
    rw [statement, signature, isVoid]
    have returned : LimitedTo (AtDepth 0) (push .returnVoid) fun _ _ => True := limited_push rfl
    exact returned.bind fun _ => limited_pure fun _ _ => trivial
  | @returnValue e line type term isType typed =>
    obtain ⟨kind, isKind⟩ := FieldType.kind_of_supported (result type isType)
    obtain ⟨kinded, same⟩ := kinded_assigned onPath vars typed
    have first := balanced_term covers term kinded
    rw [same, isKind] at first
    rw [statement, signature, isType]
    refine first.followed fun _ _ => ?_
    exact (limited_returnValue isKind).bind fun _ => limited_pure fun _ _ => trivial
  | throws typed throwable =>
    have kinded := kinded_value onPath vars typed
    have first := balanced_term covers _ kinded
    rw [kind_of_throwable throwable] at first
    rw [statement]
    have thrown : LimitedTo (AtDepth 1) (push .throwObject) fun _ _ => True := limited_push rfl
    exact first.followed fun _ _ => thrown.bind fun _ => limited_pure fun _ _ => trivial

/-- Only limits keep the code of a typed body from being written. -/
theorem limited_statements {stmts : List Stmt} {as : List TypedStmt} {final : Variables}
    {reachesEnd : Bool} (typed : TypesStmts c v stmts as final reachesEnd)
    (signature : m.signature = c.signature) (path : c.scope.classPath.Supported)
    (vars : SupportedVars v)
    (result : ∀ type, c.signature.type.result = some type → type.mentionsFloating = false)
    (covers : Covers slots v.locals.size) (size : slots.size = m.locals.length)
    (whole : final.types <+: m.locals) :
    LimitedTo (AtDepth 0) (statements m slots as) fun _ b => reachesEnd = true → AtDepth 0 b := by
  induction typed generalizing slots with
  | nil => exact limited_pure fun _ start _ => start
  | leave first leaves =>
    rw [statements]
    refine (limited_leaving first leaves signature path vars result covers).bind fun _ => ?_
    exact limited_pure fun _ _ reached => by cases reached
  | cons first goesOn others ih =>
    rw [statements]
    have one := balanced_statement first goesOn path vars covers size (others.types.trans whole)
    refine one.followed fun slotsAfter kept => ?_
    exact ih (vars.step first) kept.1 kept.2 whole

/-- The parameters have slots at the start of a method. -/
theorem covers_start {parameters : List (Option UInt16)}
    (placed : parameterSlots 0 m.signature.type.parameters = some parameters)
    (isPrefix : m.signature.type.parameters <+: m.locals) :
    Covers (startSlots m parameters) m.signature.type.parameters.length ∧
      (startSlots m parameters).size = m.locals.length := by
  have length := (slot_of_parameterSlots placed).1
  have fits := isPrefix.length_le
  constructor
  · intro id inside
    obtain ⟨slot, found⟩ := covered_of_parameterSlots placed id inside
    refine ⟨slot, ?_⟩
    rw [startSlots, List.getElem?_toArray, List.getElem?_append_left (by omega), found]
  · simp only [startSlots, List.size_toArray, List.length_append, List.length_replicate]
    omega

/-- Only limits keep a method whose body has no problem from being written. -/
theorem limited_method {stmts : List Stmt} {parameters : List (Option UInt16)}
    (checked : Checked c stmts m)
    (placed : parameterSlots 0 m.signature.type.parameters = some parameters) :
    LimitedTo (AtDepth 0) (method m (startSlots m parameters)) fun _ _ => True := by
  obtain ⟨signature, final, locals, typed, -⟩ := checked.typed
  have isPrefix := checked.isPrefix
  rw [← signature] at isPrefix
  obtain ⟨covers, size⟩ := covers_start placed isPrefix
  rw [signature, checked.count] at covers
  have whole : final.types <+: m.locals := ⟨[], by rw [List.append_nil, locals]⟩
  have body := limited_statements typed signature checked.path checked.vars checked.result covers
    size whole
  rw [method]
  refine body.bind fun _ => ?_
  cases falls : m.fallsThrough with
  | false => exact limited_finish
  | true =>
    have returned : LimitedTo (fun b => true = true → AtDepth 0 b) (push .returnVoid)
        fun _ _ => True := fun b before => limited_push rfl b (before rfl)
    exact returned.bind fun _ => limited_finish

end Statements

/-- The constructor is always right. -/
theorem limited_constructor : LimitedTo (AtDepth 0) constructor fun _ _ => True := by
  have loaded : Balanced 0 (push (.load .reference 0)) 1 fun _ => True := balanced_push rfl rfl
  have called : Balanced 1 (invoke .special .object "<init>" noArguments) 0 fun _ => True :=
    balanced_invoke rfl rfl
  have returned : LimitedTo (AtDepth 0) (push .returnVoid) fun _ _ => True := limited_push rfl
  rw [constructor]
  exact loaded.followed fun _ _ => called.followed fun _ _ => returned.bind fun _ => limited_finish

end Emit

end JavaSnippet.Compile
