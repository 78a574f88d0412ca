import JavaSnippet.Proofs.Compile.Verified
/-!
The code of typed bodies is accepted. Between two statements the stack is empty, and every variable
that was assigned has a value of its kind in its own slots; the statement that leaves the method is
the last one.
-/
namespace JavaSnippet.Compile

open ClassFile Typing Machine Source
open MethodBody (valueKind?)

/-- No variable is a floating-point number. -/
def SupportedVars (v : Variables) : Prop := ∀ type ∈ v.types, type.mentionsFloating = false

/-- The variables that were assigned are where variables of their types are. -/
structure Filled (types : List FieldType) (v : Variables) (locals : Locals ValueKind) : Prop where
  isPrefix : v.types <+: types
  held : ∀ id state kind, v.locals[id]? = some state → state.assigned = true →
    valueKind? state.type = some kind → locals (offset types id) = some kind

section Variables

variable {types : List FieldType} {v : Variables} {locals : Locals ValueKind} {slots : SlotMap}
  {next : Nat}

theorem type_of_local (isPrefix : v.types <+: types) {id : Nat} {state : LocalVar}
    (found : v.locals[id]? = some state) : types[id]? = some state.type := by
  have here : v.types[id]? = some state.type := by simp [Variables.types, found]
  obtain ⟨rest, rfl⟩ := isPrefix
  have inside := (List.getElem?_eq_some_iff.mp here).1
  rw [List.getElem?_append_left inside]
  exact here

theorem SupportedVars.declare (vars : SupportedVars v) {name : String} {state : LocalVar}
    (supported : state.type.mentionsFloating = false) :
    SupportedVars (v.declare name state) := by
  intro type here
  rw [Variables.types_declare] at here
  rcases List.mem_append.mp here with before | last
  · exact vars type before
  · rw [List.mem_singleton.mp last]
    exact supported

theorem SupportedVars.assign (vars : SupportedVars v) (id : Nat) :
    SupportedVars (v.update id fun s => { s with assigned := true }) := by
  intro type here
  rw [Variables.types_assigned] at here
  exact vars type here

theorem Filled.stores (filled : Filled types v locals)
    (laid : Laid types slots next v.locals.size) : Stores v slots locals := by
  intro id type slot kind holds found isKind
  obtain ⟨state, isLocal, assigned, rfl⟩ := holds
  rw [laid.slot id slot found]
  exact filled.held id state kind isLocal assigned isKind

theorem Filled.above (filled : Filled types v locals) {type : FieldType} {kind : ValueKind}
    (isType : types[v.locals.size]? = some type) (isKind : valueKind? type = some kind) :
    Filled types v (locals.set (offset types v.locals.size) kind) := by
  refine ⟨filled.isPrefix, ?_⟩
  intro id state other found assigned isOther
  have inside := (Array.getElem?_eq_some_iff.mp found).1
  have here := filled.held id state other found assigned isOther
  exact Locals.set_offset (type_of_local filled.isPrefix found) isType (by omega)
    (FieldType.slots_of_kind isOther) (FieldType.slots_of_kind isKind) here

theorem Filled.declare (filled : Filled types v locals) {name : String} {state : LocalVar}
    (room : (v.declare name state).types <+: types)
    (held : state.assigned = true → ∀ kind, valueKind? state.type = some kind →
      locals (offset types v.locals.size) = some kind) :
    Filled types (v.declare name state) locals := by
  refine ⟨room, ?_⟩
  intro id other kind found assigned isKind
  simp only [Variables.declare, Array.getElem?_push] at found
  split at found
  · rename_i same
    obtain rfl := Option.some.inj found
    rw [same]
    exact held assigned kind isKind
  · exact filled.held id other kind found assigned isKind

theorem Filled.assign (filled : Filled types v locals) {id : Nat} {state : LocalVar}
    {kind : ValueKind} (target : v.locals[id]? = some state)
    (isKind : valueKind? state.type = some kind) :
    Filled types (v.update id fun s => { s with assigned := true })
      (locals.set (offset types id) kind) := by
  refine ⟨by rw [Variables.types_assigned]; exact filled.isPrefix, ?_⟩
  intro number other kindOther found assigned isOther
  by_cases same : number = id
  · subst same
    simp only [Variables.update, Array.getElem?_modify, target, if_true, Option.map_some] at found
    obtain rfl := Option.some.inj found
    rw [Locals.set_same, ← isKind]
    exact isOther
  · have before : v.locals[number]? = some other := by
      simpa [Variables.update, Array.getElem?_modify, Ne.symm same] using found
    have here := filled.held number other kindOther before assigned isOther
    exact Locals.set_offset (type_of_local filled.isPrefix before)
      (type_of_local filled.isPrefix target) same (FieldType.slots_of_kind isOther)
      (FieldType.slots_of_kind isKind) here

end Variables

section Statements

variable {t : ConstantTable} {c : MethodContext} {m : TypedMethod} {v after : Variables}
  {locals : Locals ValueKind} {slots slotsAfter : SlotMap} {next nextAfter : Nat} {s : Stmt}
  {a : TypedStmt} {is : List Instruction}

/-- The code of a value, with the stack empty before it. -/
theorem verifyAll_value {result : Option FieldType} {term : Term} {kind : ValueKind}
    {xs js : List Instruction} (stores : Stores v slots locals) (kinded : Kinded v term)
    (isKind : term.type.kind? = some kind) (codes : Codes t slots term xs) :
    verifyAll t result (xs ++ js) ⟨[], locals, false⟩ =
      verifyAll t result js ⟨[kind], locals, false⟩ := by
  have left := leaves_of_codes result stores term kinded codes []
  rw [isKind] at left
  rw [verifyAll_append]
  exact (congrArg (·.bind (verifyAll t result js)) left).trans rfl

theorem verifyAll_store {result : Option FieldType} {kind : ValueKind} {slot : UInt16} :
    verifyAll t result [.store kind slot] ⟨[kind], locals, false⟩ =
      some ⟨[], locals.set slot.toNat kind, false⟩ := by
  simp [verifyAll, verify, effect, Instruction.isTerminal]

theorem SupportedVars.step (vars : SupportedVars v) (typed : TypesStmt c v s a after) :
    SupportedVars after := by
  cases typed with
  | declare _ resolved => exact vars.declare (TypeScope.mentionsFloating_of_resolveType resolved)
  | fill _ resolved => exact vars.declare (TypeScope.mentionsFloating_of_resolveType resolved)
  | assign => exact vars.assign _
  | _ => exact vars

/-- A statement that goes on leaves the stack empty and its variable filled. -/
theorem accepted_statement (result : Option FieldType) (typed : TypesStmt c v s a after)
    (codes : CodesStmt t m slots next a is slotsAfter nextAfter)
    (goesOn : MethodContext.leaves s = false) (path : c.scope.classPath.Supported)
    (vars : SupportedVars v) (laid : Laid m.locals slots next v.locals.size)
    (filled : Filled m.locals v locals) (room : after.types <+: m.locals) :
    ∃ localsAfter, verifyAll t result is ⟨[], locals, false⟩ = some ⟨[], localsAfter, false⟩ ∧
      Filled m.locals after localsAfter ∧
      Laid m.locals slotsAfter nextAfter after.locals.size := by
  have onPath : ∀ w, (c.place w).path.Supported := fun _ => path
  cases typed with
  | returnVoid => cases goesOn
  | returnValue => cases goesOn
  | throws => cases goesOn
  | declare fresh resolved =>
    cases codes with
    | declare space =>
      exact ⟨locals, rfl, filled.declare room (fun assigned => by cases assigned),
        laid.declared space room⟩
  | @fill type name isFinal line fieldType e term fresh resolved typed =>
    cases codes with
    | fill space codes isKind =>
      rename_i xs kind
      have supported := TypeScope.mentionsFloating_of_resolveType resolved
      have isType := type_of_declared room
      rw [List.getD_eq_getElem?_getD, isType] at isKind
      have kept : (v.declare name ⟨fieldType, false, false⟩).types <+: m.locals := by
        rw [Variables.types_declare] at room ⊢
        exact room
      have unfilled := filled.declare kept fun assigned => by cases assigned
      have laidAfter := laid.declared space kept
      obtain ⟨kinded, same⟩ := kinded_assigned (onPath _) (vars.declare supported) typed
      have slot : next.toUInt16.toNat = offset m.locals v.locals.size := by
        rw [Text.Utf16.toNat_toUInt16 space, laid.next]
      refine ⟨locals.set (offset m.locals v.locals.size) kind, ?_, ?_,
        laid.declared space room⟩
      · rw [verifyAll_value (unfilled.stores laidAfter) kinded (same.trans isKind) codes,
          verifyAll_store, slot]
      · refine (filled.above isType isKind).declare room fun _ other isOther => ?_
        rw [Locals.set_same, ← isKind]
        exact isOther
  | @assign name e line id state term found isOpen typed =>
    cases codes with
    | store isSlot codes isKind =>
      rename_i slot xs kind
      have target := (Variables.find?_eq_some.mp found).2
      have isType := type_of_local filled.isPrefix target
      rw [List.getD_eq_getElem?_getD, isType] at isKind
      obtain ⟨kinded, same⟩ := kinded_assigned (onPath v) vars typed
      refine ⟨locals.set (offset m.locals id) kind, ?_, filled.assign target isKind, ?_⟩
      · rw [verifyAll_value (filled.stores laid) kinded (same.trans isKind) codes,
          verifyAll_store, laid.slot id slot isSlot]
      · simpa [Variables.update] using laid
  | expr typed =>
    cases codes with
    | expr codes =>
      have kinded := kinded_expression (onPath v) vars _ typed
      have left := leaves_of_codes result (filled.stores laid) _ kinded codes
      exact ⟨locals, (left.append (leaves_drop kinded)) [], filled, laid⟩

/-- A statement that leaves the method ends it as the method has declared. -/
theorem accepted_leaving (typed : TypesStmt c v s a after)
    (codes : CodesStmt t m slots next a is slotsAfter nextAfter)
    (leaves : MethodContext.leaves s = true) (signature : m.signature = c.signature)
    (path : c.scope.classPath.Supported) (vars : SupportedVars v)
    (laid : Laid m.locals slots next v.locals.size) (filled : Filled m.locals v locals) :
    verifyAll t m.signature.type.result is ⟨[], locals, false⟩ = some ⟨[], locals, true⟩ := by
  have onPath : (c.place v).path.Supported := path
  cases typed with
  | declare => cases leaves
  | fill => cases leaves
  | assign => cases leaves
  | expr => cases leaves
  | returnVoid isVoid =>
    cases codes with
    | returns codes isReturn =>
      obtain rfl := codes
      rw [signature, isVoid] at isReturn ⊢
      obtain rfl := isReturn
      rfl
  | returnValue isType typed =>
    cases codes with
    | returns codes isReturn =>
      rw [signature, isType] at isReturn ⊢
      obtain ⟨kind, isKind, rfl⟩ := isReturn
      obtain ⟨kinded, same⟩ := kinded_assigned onPath vars typed
      rw [verifyAll_value (filled.stores laid) kinded (same.trans isKind) codes]
      simp [verifyAll, verify, effect, isKind, Instruction.isTerminal]
  | throws typed throwable =>
    cases codes with
    | throws codes =>
      have kinded := kinded_value onPath vars typed
      rw [verifyAll_value (filled.stores laid) kinded (kind_of_throwable throwable) codes]
      rfl

/-- The code of a body is accepted statement by statement. It has ended unless its end is reached.
-/
theorem accepted_statements {stmts : List Stmt} {as : List TypedStmt} {final : Variables}
    {reachesEnd : Bool} {blocks : List (List Instruction)}
    (typed : TypesStmts c v stmts as final reachesEnd)
    (codes : CodesStmts t m slots next as blocks) (signature : m.signature = c.signature)
    (path : c.scope.classPath.Supported) (vars : SupportedVars v)
    (laid : Laid m.locals slots next v.locals.size) (filled : Filled m.locals v locals)
    (whole : final.types <+: m.locals) :
    ∃ localsAfter, verifyBlocks t m.signature.type.result blocks ⟨[], locals, false⟩ =
      some ⟨[], localsAfter, !reachesEnd⟩ := by
  induction typed generalizing slots next blocks locals with
  | nil =>
    cases codes
    exact ⟨locals, rfl⟩
  | leave first leaves =>
    cases codes with
    | cons codes others =>
      cases others
      have left := accepted_leaving first codes leaves signature path vars laid filled
      refine ⟨locals, ?_⟩
      simp [verifyBlocks, left]
  | cons first goesOn others ih =>
    cases codes with
    | cons codes rest =>
      obtain ⟨localsAfter, left, filledAfter, laidAfter⟩ :=
        accepted_statement m.signature.type.result first codes goesOn path vars laid filled
          (others.types.trans whole)
      obtain ⟨localsEnd, ended⟩ := ih rest (vars.step first) laidAfter filledAfter whole
      refine ⟨localsEnd, ?_⟩
      simp [verifyBlocks, left, ended]

theorem verifyBlocks_append {result : Option FieldType} {front back : List (List Instruction)}
    {before : Shape} :
    verifyBlocks t result (front ++ back) before =
      (verifyBlocks t result front before).bind (verifyBlocks t result back) := by
  induction front generalizing before with
  | nil => rfl
  | cons block front ih =>
    rw [List.cons_append, verifyBlocks, verifyBlocks, Option.bind_assoc]
    refine congrArg _ (funext fun between => ?_)
    split
    · exact ih
    · rfl

/-- The variables at the start of a method are its parameters, which are passed in the first slots.
-/
theorem filled_start {head : Signature} {kinds : List ValueKind} {types : List FieldType}
    (length : head.type.parameters.length ≤ head.parameterNames.length)
    (areKinds : head.type.parameters.map valueKind? = kinds.map some)
    (isPrefix : head.type.parameters <+: types) :
    Filled types (.ofSignature head) (Locals.ofList 0 kinds) := by
  have parameters := Variables.types_ofSignature length
  have widths := FieldType.widths_of_kinds areKinds
  obtain ⟨rest, rfl⟩ := isPrefix
  refine ⟨by rw [parameters]; exact List.prefix_append _ _, ?_⟩
  intro id state kind found assigned isKind
  have isType : head.type.parameters[id]? = some state.type := by
    rw [← parameters]
    simp [Variables.types, found]
  have inside := (List.getElem?_eq_some_iff.mp isType).1
  have here : kinds[id]? = some kind := by
    have same := congrArg (·[id]?) areKinds
    simp only [List.getElem?_map, isType, Option.map_some, isKind] at same
    cases held : kinds[id]? with
    | none =>
      rw [held] at same
      cases same
    | some other =>
      rw [held] at same
      exact congrArg some (Option.some.inj (Option.some.inj same)).symm
  have stored := Locals.ofList_offset widths 0 here
  rw [Nat.zero_add] at stored
  rw [offset_append (by omega)]
  exact stored

/-- A method whose body has no problem, with only types that code can be written for. -/
structure Checked (c : MethodContext) (stmts : List Stmt) (m : TypedMethod) : Prop where
  problems : (c.body stmts).2 = []
  body : m = (c.body stmts).1
  names : c.signature.type.parameters.length = c.signature.parameterNames.length
  path : c.scope.classPath.Supported
  parameters : ∀ type ∈ c.signature.type.parameters, type.mentionsFloating = false
  result : ∀ type, c.signature.type.result = some type → type.mentionsFloating = false

section Methods

variable {stmts : List Stmt}

/-- The statements of a method are typed from its parameters on, and the end of its body is only
reached when it returns nothing. -/
theorem Checked.typed (checked : Checked c stmts m) :
    m.signature = c.signature ∧ ∃ final, m.locals = final.types ∧
      TypesStmts c (.ofSignature c.signature) stmts m.body final m.fallsThrough ∧
      (m.fallsThrough = true → c.signature.type.result = none) := by
  obtain ⟨ts, final, reachesEnd, typedAs, typed, isVoid⟩ := MethodContext.body_ok checked.problems
  obtain rfl := checked.body.trans typedAs
  exact ⟨rfl, final, rfl, typed, isVoid⟩

theorem Checked.vars (checked : Checked c stmts m) : SupportedVars (.ofSignature c.signature) := by
  intro type here
  rw [Variables.types_ofSignature (Nat.le_of_eq checked.names)] at here
  exact checked.parameters type here

theorem Checked.count (checked : Checked c stmts m) :
    c.signature.type.parameters.length = (Variables.ofSignature c.signature).locals.size := by
  rw [← Variables.length_types, Variables.types_ofSignature (Nat.le_of_eq checked.names)]

theorem Checked.isPrefix (checked : Checked c stmts m) :
    c.signature.type.parameters <+: m.locals := by
  obtain ⟨-, final, locals, typed, -⟩ := checked.typed
  rw [locals, ← Variables.types_ofSignature (Nat.le_of_eq checked.names)]
  exact typed.types

/-- The code of a whole method is accepted from its parameters to its end. -/
theorem accepted_method {parameters : List (Option UInt16)} {blocks : List (List Instruction)}
    {kinds : List ValueKind} (checked : Checked c stmts m)
    (areKinds : m.signature.type.parameters.map valueKind? = kinds.map some)
    (placed : Emit.parameterSlots 0 m.signature.type.parameters = some parameters)
    (codes : CodesStmts t m (startSlots m parameters) (m.signature.type.parameterSlots false)
      m.body blocks) :
    ∃ localsAfter, verifyBlocks t m.signature.type.result (closed m blocks) (Shape.start kinds) =
      some ⟨[], localsAfter, true⟩ := by
  obtain ⟨signature, final, locals, typed, isVoid⟩ := checked.typed
  have isPrefix := checked.isPrefix
  have laid : Laid m.locals (startSlots m parameters) (m.signature.type.parameterSlots false)
      (Variables.ofSignature c.signature).locals.size := by
    rw [← checked.count, ← signature]
    rw [← signature] at isPrefix
    exact laid_start placed isPrefix
  rw [signature] at areKinds
  have filled := filled_start (Nat.le_of_eq checked.names) areKinds isPrefix
  have whole : final.types <+: m.locals := ⟨[], by rw [List.append_nil, locals]⟩
  obtain ⟨localsAfter, ended⟩ :=
    accepted_statements typed codes signature checked.path checked.vars laid filled whole
  refine ⟨localsAfter, ?_⟩
  unfold closed Shape.start
  cases falls : m.fallsThrough with
  | true =>
    rw [falls] at ended
    rw [if_pos rfl, verifyBlocks_append, ended, signature, isVoid falls]
    rfl
  | false =>
    rw [falls] at ended
    exact ended

end Methods

end Statements

end JavaSnippet.Compile
