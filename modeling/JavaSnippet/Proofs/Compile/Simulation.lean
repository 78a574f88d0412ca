import JavaSnippet.Proofs.Compile.Agreement
import JavaSnippet.Proofs.Compile.Evaluation
import JavaSnippet.Proofs.Compile.Room
/-!
Methods over integers keep their meaning. Between two statements the stack is empty, and every
variable that was assigned has its value in its own slots.
-/
namespace JavaSnippet.Compile

open ClassFile Typing Source Machine

section Expressions

variable {t : ConstantTable} {slots : SlotMap} {locals : Locals Value} {types : List FieldType}
  {env : Env} {place : Place} {isVariable : String → Bool}

theorem means_int {value : Int} {line : Nat} {a : Term}
    (typed : onLine line (Place.intLiteral value) = .ok a) :
    Means t slots locals a .int (evaluate env (.int value line)) := by
  have literal := onLine_eq_ok.mp typed
  unfold Place.intLiteral at literal
  split at literal
  · rename_i n isInt
    obtain rfl := Except.ok.inj literal
    have evaluated : evaluate env (.int value line) = .ok (.int n) := by rw [evaluate, isInt]
    rw [evaluated]
    refine ⟨rfl, rfl, ?_, ?_, ?_⟩
    · rintro v ⟨⟩
      rfl
    · rintro is ⟨i, ⟨low, high, rfl⟩ | ⟨index, rfl, found⟩, rfl⟩
      · exact yields_push (by exact ⟨low, high⟩) rfl fun stack => rfl
      · refine yields_push (by trivial) rfl fun stack => ?_
        rw [step, found]
        rfl
    · rintro m ⟨⟩
      rfl
  · cases literal

theorem means_long {value : Int} {line : Nat} {a : Term}
    (typed : onLine line (Place.longLiteral value) = .ok a) :
    Means t slots locals a .long (evaluate env (.long value line)) := by
  have literal := onLine_eq_ok.mp typed
  unfold Place.longLiteral at literal
  split at literal
  · rename_i n isLong
    obtain rfl := Except.ok.inj literal
    have evaluated : evaluate env (.long value line) = .ok (.long n) := by rw [evaluate, isLong]
    rw [evaluated]
    refine ⟨rfl, rfl, ?_, ?_, ?_⟩
    · rintro v ⟨⟩
      rfl
    · rintro is ⟨i, ⟨small, rfl⟩ | ⟨index, rfl, found⟩, rfl⟩
      · exact yields_push (by exact small) rfl fun stack => rfl
      · refine yields_push (by trivial) rfl fun stack => ?_
        rw [step, found]
        rfl
    · intro m isInt
      cases isInt
  · cases literal

/-- A variable that is read has a value, which is in its slot. -/
theorem means_name (agrees : Agrees types env place.vars locals)
    (laid : ∀ (id : Nat) (slot : UInt16), slots[id]? = some (some slot) →
      slot.toNat = offset types id)
    {text : String} {line : Nat} {a : Term}
    (integer : ∃ type value, env.lookup text = some ⟨some type, value⟩)
    (typed : onLine line (place.variableTerm text) = .ok a) :
    ∃ type, Means t slots locals a type (evaluate env (.name text line)) := by
  have variableTyped := onLine_eq_ok.mp typed
  unfold Place.variableTerm at variableTyped
  split at variableTyped
  · cases variableTyped
  · rename_i id state isFound
    split at variableTyped
    · rename_i assigned
      obtain rfl := Except.ok.inj variableTyped
      obtain ⟨value, bound, hasValue⟩ := agrees.found text id state isFound
      obtain ⟨w, rfl, fits, stored⟩ := hasValue assigned
      obtain ⟨type, other, isInteger⟩ := integer
      rw [isInteger] at bound
      obtain ⟨isType, rfl⟩ := Variable.mk.inj (Option.some.inj bound)
      obtain ⟨isBase, integral⟩ := eq_base_of_integerType? isType.symm
      have isOf : w.isOf type = true := by
        rw [isBase] at fits
        exact fits
      have evaluated : evaluate env (.name text line) = .ok w := by rw [evaluate, isInteger]
      rw [evaluated]
      refine ⟨type, ?_, integral, ?_, ?_, ?_⟩
      · rw [Term.type, isBase]
      · rintro v ⟨⟩
        exact isOf
      · rintro is ⟨kind, slot, isKind, isSlot, rfl⟩
        refine yields_push (by trivial) isOf fun stack => ?_
        have here : locals slot.toNat = some w := by rw [laid id slot isSlot, stored]
        simp only [step, here]
        rw [if_pos (kind_of_fits fits isKind)]
        rfl
      · intro n isInt
        cases isInt
    · cases variableTyped

theorem means_of_expression (agrees : Agrees types env place.vars locals)
    (laid : ∀ (id : Nat) (slot : UInt16), slots[id]? = some (some slot) →
      slot.toNat = offset types id)
    (named : ∀ name, isVariable name = true →
      ∃ type value, env.lookup name = some ⟨some type, value⟩) :
    ∀ (e : Expr) {a : Term}, e.isInteger isVariable = true → place.expression e = .ok a →
      ∃ type, Means t slots locals a type (evaluate env e)
  | .int value line, a, integer, typed => ⟨.int, means_int typed⟩
  | .long value line, a, integer, typed => ⟨.long, means_long typed⟩
  | .name text line, a, integer, typed => means_name agrees laid (named text integer) typed
  | .neg operand line, a, integer, typed => by
    obtain ⟨inner, isInner, rest⟩ := except_bind_eq_ok.mp typed
    obtain ⟨used, isUsed, last⟩ := except_bind_eq_ok.mp rest
    obtain ⟨rfl, -⟩ := used_ok isUsed
    obtain ⟨type, means⟩ := means_of_expression agrees laid named operand integer isInner
    exact ⟨_, means.negation (onLine_eq_ok.mp last)⟩
  | .binary op left right line, a, integer, typed => by
    obtain ⟨integerLeft, integerRight⟩ := Bool.and_eq_true_iff.mp integer
    obtain ⟨l, isLeft, rest⟩ := except_bind_eq_ok.mp typed
    obtain ⟨usedLeft, isUsedLeft, rest⟩ := except_bind_eq_ok.mp rest
    obtain ⟨r, isRight, rest⟩ := except_bind_eq_ok.mp rest
    obtain ⟨usedRight, isUsedRight, last⟩ := except_bind_eq_ok.mp rest
    obtain ⟨rfl, -⟩ := used_ok isUsedLeft
    obtain ⟨rfl, -⟩ := used_ok isUsedRight
    obtain ⟨first, meansLeft⟩ := means_of_expression agrees laid named left integerLeft isLeft
    obtain ⟨second, meansRight⟩ := means_of_expression agrees laid named right integerRight isRight
    exact ⟨_, meansLeft.binary meansRight (onLine_eq_ok.mp last)⟩
  | .string _ _, a, integer, typed => by cases integer
  | .bool _ _, a, integer, typed => by cases integer
  | .null _, a, integer, typed => by cases integer
  | .select _ _ _, a, integer, typed => by cases integer
  | .call _ _ _, a, integer, typed => by cases integer
  | .callOn _ _ _ _, a, integer, typed => by cases integer
  | .create _ _ _, a, integer, typed => by cases integer

/-- The code of a value that is assigned computes what the variable takes. -/
theorem yields_of_assigned (agrees : Agrees types env place.vars locals)
    (laid : ∀ (id : Nat) (slot : UInt16), slots[id]? = some (some slot) →
      slot.toNat = offset types id)
    (named : ∀ name, isVariable name = true →
      ∃ type value, env.lookup name = some ⟨some type, value⟩)
    {e : Expr} {a : Term} {wanted : FieldType} {is : List Instruction}
    (integer : e.isInteger isVariable = true) (typed : place.assigned e wanted = .ok a)
    (codes : Codes t slots a is) :
    ∃ type, wanted = .base type ∧ type.isIntegral = true ∧
      Yields t locals [] is type (evaluate env e >>= converted (some type)) := by
  obtain ⟨inner, isValue, last⟩ := except_bind_eq_ok.mp typed
  obtain ⟨term, isTerm, isUsed⟩ := except_bind_eq_ok.mp isValue
  obtain ⟨rfl, -⟩ := used_ok isUsed
  obtain ⟨type, means⟩ := means_of_expression agrees laid named e integer isTerm
  obtain ⟨other, isWanted, integral, yields⟩ := means.assigned (onLine_eq_ok.mp last)
  exact ⟨other, isWanted, integral, yields is codes⟩

end Expressions

section Statements

variable {types : List FieldType} {env : Env} {v : Variables} {locals : Locals Value}
  {t : ConstantTable}

/-- The instructions bring the method to the end that the execution comes to. -/
def Runs (t : ConstantTable) (is : List Instruction) (f : Frame) :
    Except Halt (Option Value) → Prop
  | .ok value => run t (is.flatMap Instruction.encode) f = some (.returns value)
  | .error .arithmeticException =>
    run t (is.flatMap Instruction.encode) f = some .arithmeticException
  | .error .stuck => False

theorem Runs.first {i : Instruction} {is : List Instruction} {f g : Frame}
    {r : Except Halt (Option Value)} (plain : Plain i) (goesOn : step t i f = some (.goesOn g))
    (rest : Runs t is g r) : Runs t (i :: is) f r := by
  cases r with
  | ok value =>
    rw [Runs, List.flatMap_cons, run_goesOn plain goesOn]
    exact rest
  | error halt =>
    cases halt with
    | stuck => exact rest
    | arithmeticException =>
      rw [Runs, List.flatMap_cons, run_goesOn plain goesOn]
      exact rest

theorem runs_return {i : Instruction} {is : List Instruction} {f : Frame} {value : Option Value}
    (plain : Plain i) (ends : step t i f = some (.ends (.returns value))) :
    Runs t (i :: is) f (.ok value) := by
  rw [Runs, List.flatMap_cons]
  exact run_ends plain ends _

/-- Once a value is computed, the instructions after that go on with it. -/
theorem Yields.runs {is js : List Instruction} {type : BaseType} {r : Except Halt Value}
    {k : Value → Except Halt (Option Value)} (h : Yields t locals [] is type r)
    (next : ∀ w, w.isOf type = true → Runs t js ⟨[w], locals⟩ (k w)) :
    Runs t (is ++ js) ⟨[], locals⟩ (r >>= k) := by
  cases r with
  | error halt =>
    cases halt with
    | stuck => exact h
    | arithmeticException =>
      change Runs t (is ++ js) ⟨[], locals⟩ (.error .arithmeticException)
      rw [Runs, List.flatMap_append]
      exact h [] _
  | ok w =>
    obtain ⟨isOf, runs⟩ := h
    have later := next w isOf
    change Runs t (is ++ js) ⟨[], locals⟩ (k w)
    have code : run t ((is ++ js).flatMap Instruction.encode) ⟨[], locals⟩ =
        run t (js.flatMap Instruction.encode) ⟨[w], locals⟩ := by
      rw [List.flatMap_append]
      exact runs [] _
    cases result : k w with
    | ok value =>
      rw [result, Runs] at later
      rw [Runs, code, later]
    | error halt =>
      rw [result] at later
      cases halt with
      | stuck => exact later
      | arithmeticException =>
        rw [Runs] at later
        rw [Runs, code, later]

/-- A computed value is stored, and the instructions after that go on without it. -/
theorem Yields.stored {is js : List Instruction} {type : BaseType} {r : Except Halt Value}
    {k : Value → Except Halt (Option Value)} {kind : ValueKind} {slot : UInt16}
    (h : Yields t locals [] is type r)
    (isKind : MethodBody.valueKind? (.base type) = some kind)
    (next : ∀ w, w.isOf type = true → Runs t js ⟨[], locals.set slot.toNat w⟩ (k w)) :
    Runs t ((is ++ [.store kind slot]) ++ js) ⟨[], locals⟩ (r >>= k) := by
  rw [List.append_assoc]
  refine h.runs fun w isOf => Runs.first (by trivial) ?_ (next w isOf)
  exact if_pos (kind_of_fits (show w.fits (.base type) = true from isOf) isKind)

theorem Yields.returned {is js : List Instruction} {type : BaseType} {r : Except Halt Value}
    {kind : ValueKind} (h : Yields t locals [] is type r)
    (isKind : MethodBody.valueKind? (.base type) = some kind) :
    Runs t ((is ++ [.returnValue kind]) ++ js) ⟨[], locals⟩ (r >>= fun w => .ok (some w)) := by
  rw [List.append_assoc]
  refine h.runs fun w isOf => runs_return (by trivial) ?_
  exact if_pos (kind_of_fits (show w.fits (.base type) = true from isOf) isKind)

variable {m : TypedMethod} {c : MethodContext} {result : Option BaseType}
  {isVariable : String → Bool} {slots slotsAfter : SlotMap} {next nextAfter : Nat}

theorem execute_fill (type : TypeName) (name : String) (isFinal : Bool) (e : Expr) (line : Nat)
    (rest : List Stmt) :
    execute result env (.declare type name isFinal (some e) line :: rest) =
      (evaluate ((name, ⟨type.integer?, none⟩) :: env) e >>= converted type.integer?) >>=
        fun w => execute result ((name, ⟨type.integer?, some w⟩) :: env) rest := by
  rw [execute]
  cases evaluate ((name, ⟨type.integer?, none⟩) :: env) e with
  | error halt => rfl
  | ok w => rfl

theorem execute_assign {name : String} {type : Option BaseType} {value : Option Value}
    (bound : env.lookup name = some ⟨type, value⟩) (e : Expr) (line : Nat) (rest : List Stmt) :
    execute result env (.assign name e line :: rest) =
      (evaluate env e >>= converted type) >>=
        fun w => execute result ((name, ⟨type, some w⟩) :: env) rest := by
  rw [execute, bound]
  cases evaluate env e with
  | error halt => rfl
  | ok w => rfl

theorem execute_returns (e : Expr) (line : Nat) (rest : List Stmt) :
    execute result env (.returns (some e) line :: rest) =
      (evaluate env e >>= converted result) >>= fun w => .ok (some w) := by
  rw [execute]
  cases evaluate env e with
  | error halt => rfl
  | ok w => rfl

/-- A statement that returns ends the method, whatever code follows. -/
theorem runs_of_leaving {s : Stmt} {a : TypedStmt} {after : Variables} {is js : List Instruction}
    {rest : List Stmt} (typed : TypesStmt c v s a after)
    (leaves : MethodContext.leaves s = true) (signature : m.signature = c.signature)
    (isResult : ∀ type, c.signature.type.result = some type → result = integerType? type)
    (codes : CodesStmt t m slots next a is slotsAfter nextAfter)
    (laid : Laid m.locals slots next v.locals.size) (agrees : Agrees m.locals env v locals)
    (named : Named isVariable env) (integer : areInteger isVariable (s :: rest) = true) :
    Runs t (is ++ js) ⟨[], locals⟩ (execute result env (s :: rest)) := by
  cases typed with
  | declare => cases leaves
  | fill => cases leaves
  | assign => cases leaves
  | expr => cases leaves
  | throws => cases integer
  | returnVoid isVoid =>
    cases codes with
    | returns codes isReturn =>
      obtain rfl := codes
      rw [signature, isVoid] at isReturn
      obtain rfl := isReturn
      exact runs_return (by trivial) rfl
  | returnValue isType typed =>
    obtain ⟨isInteger, -⟩ := Bool.and_eq_true_iff.mp integer
    cases codes with
    | returns codes isReturn =>
      obtain ⟨type, isBase, integral, yields⟩ :=
        yields_of_assigned agrees laid.slot named isInteger typed codes
      rw [signature, isType] at isReturn
      obtain ⟨kind, isKind, rfl⟩ := isReturn
      rw [isBase] at isKind
      have same : result = some type := by
        rw [isResult _ isType, isBase]
        exact Option.filter_eq_some_iff.mpr ⟨rfl, integral⟩
      rw [execute_returns, same]
      exact yields.returned isKind

/-- From wherever source and machine agree, the rest runs as it is executed. -/
def Continues (t : ConstantTable) (types : List FieldType) (result : Option BaseType)
    (v : Variables) (isVariable : String → Bool) (rest : List Stmt) (js : List Instruction) :
    Prop :=
  ∀ env locals, Agrees types env v locals → Named isVariable env →
    Runs t js ⟨[], locals⟩ (execute result env rest)

theorem runs_fill {name : String} {type : TypeName} {isFinal : Bool} {e : Expr} {line : Nat}
    {fieldType : FieldType} {a : Term} {rest : List Stmt} {xs js : List Instruction}
    {kind : ValueKind} {base : BaseType}
    (resolved : c.scope.resolveType type c.enclosing = .ok fieldType)
    (typed : (c.place (v.declare name ⟨fieldType, false, false⟩)).assigned e fieldType = .ok a)
    (room : (v.declare name ⟨fieldType, true, isFinal⟩).types <+: types)
    (laid : Laid types slots next v.locals.size) (space : next < 65536)
    (codes : Codes t (slots.setIfInBounds v.locals.size (some next.toUInt16)) a xs)
    (isKind : MethodBody.valueKind? (types.getD v.locals.size .int) = some kind)
    (agrees : Agrees types env v locals) (named : Named isVariable env)
    (isInteger : type.integer? = some base)
    (integer : e.isInteger (fun other => other == name || isVariable other) = true)
    (continues : Continues t types result (v.declare name ⟨fieldType, true, isFinal⟩)
      (fun other => other == name || isVariable other) rest js) :
    Runs t ((xs ++ [.store kind next.toUInt16]) ++ js) ⟨[], locals⟩
      (execute result env (.declare type name isFinal (some e) line :: rest)) := by
  have isType := type_of_declared room
  have known : integerType? fieldType = some base := by
    rw [integerType?_of_resolveType resolved, isInteger]
  have kept : (v.declare name ⟨fieldType, false, false⟩).types <+: types := by
    rw [Variables.types_declare] at room ⊢
    exact room
  have declared := agrees.declareEmpty kept
  simp only [known] at declared
  have laidAfter := laid.declared space kept
  obtain ⟨other, isOther, integral, yields⟩ :=
    yields_of_assigned declared laidAfter.slot named.cons integer typed codes
  obtain rfl : base = other :=
    FieldType.base_inj ((eq_base_of_integerType? known).1.symm.trans isOther)
  rw [List.getD_eq_getElem?_getD, isType] at isKind
  rw [execute_fill, isInteger]
  refine yields.stored (by rw [← isOther]; exact isKind) fun w isOf => ?_
  have slot : next.toUInt16.toNat = offset types v.locals.size := by
    rw [Text.Utf16.toNat_toUInt16 space, laid.next]
  have fits : w.fits fieldType = true := by
    rw [isOther]
    exact isOf
  have filled := (agrees.above isType fits).declare room fun _ =>
    ⟨w, rfl, fits, Locals.set_same _ _⟩
  simp only [known] at filled
  rw [slot]
  exact continues _ _ filled named.cons

theorem runs_assign {name : String} {e : Expr} {line id : Nat} {state : LocalVar} {a : Term}
    {rest : List Stmt} {xs js : List Instruction} {kind : ValueKind} {slot : UInt16}
    (found : v.find? name = some (id, state))
    (typed : (c.place v).assigned e state.type = .ok a)
    (laid : Laid types slots next v.locals.size) (isSlot : slots[id]? = some (some slot))
    (codes : Codes t slots a xs)
    (isKind : MethodBody.valueKind? (types.getD id .int) = some kind)
    (agrees : Agrees types env v locals) (named : Named isVariable env)
    (isTarget : isVariable name = true) (integer : e.isInteger isVariable = true)
    (continues : Continues t types result (v.update id fun s => { s with assigned := true })
      isVariable rest js) :
    Runs t ((xs ++ [.store kind slot]) ++ js) ⟨[], locals⟩
      (execute result env (.assign name e line :: rest)) := by
  have isType := agrees.type found
  obtain ⟨value, bound, -⟩ := agrees.found name id state found
  obtain ⟨type, other, isInteger⟩ := named name isTarget
  have known : integerType? state.type = some type := by
    rw [bound] at isInteger
    exact (Variable.mk.inj (Option.some.inj isInteger)).1
  obtain ⟨base, isBase, integral, yields⟩ :=
    yields_of_assigned agrees laid.slot named integer typed codes
  obtain rfl : type = base :=
    FieldType.base_inj ((eq_base_of_integerType? known).1.symm.trans isBase)
  rw [List.getD_eq_getElem?_getD, isType] at isKind
  rw [execute_assign bound, known]
  refine yields.stored (by rw [← isBase]; exact isKind) fun w isOf => ?_
  have changed := agrees.assign found (show w.fits state.type = true by rw [isBase]; exact isOf)
  simp only [known] at changed
  rw [laid.slot id slot isSlot]
  exact continues _ _ changed named.assign

/-- Any other statement leads to a place where source and machine agree again. -/
theorem runs_of_goingOn {s : Stmt} {a : TypedStmt} {after : Variables} {is : List Instruction}
    {rest : List Stmt} (typed : TypesStmt c v s a after)
    (goesOn : MethodContext.leaves s = false) (room : after.types <+: m.locals)
    (codes : CodesStmt t m slots next a is slotsAfter nextAfter)
    (laid : Laid m.locals slots next v.locals.size) (agrees : Agrees m.locals env v locals)
    (named : Named isVariable env) (integer : areInteger isVariable (s :: rest) = true) :
    Laid m.locals slotsAfter nextAfter after.locals.size ∧
      ∃ isKnown, areInteger isKnown rest = true ∧ ∀ js,
        Continues t m.locals result after isKnown rest js →
        Runs t (is ++ js) ⟨[], locals⟩ (execute result env (s :: rest)) := by
  cases typed with
  | returnVoid => cases goesOn
  | returnValue => cases goesOn
  | throws => cases goesOn
  | expr => cases integer
  | declare fresh resolved =>
    obtain ⟨isInteger, integerRest⟩ := Bool.and_eq_true_iff.mp integer
    obtain ⟨isSome, -⟩ := Bool.and_eq_true_iff.mp isInteger
    obtain ⟨base, isBase⟩ := Option.isSome_iff_exists.mp isSome
    cases codes with
    | declare space =>
      refine ⟨laid.declared space room, _, integerRest, fun js continues => ?_⟩
      have declared := agrees.declareEmpty room
      rw [integerType?_of_resolveType resolved, isBase] at declared
      have later := continues _ _ declared named.cons
      rw [← isBase] at later
      exact later
  | fill fresh resolved typed =>
    obtain ⟨isInteger, integerRest⟩ := Bool.and_eq_true_iff.mp integer
    obtain ⟨isSome, integerValue⟩ := Bool.and_eq_true_iff.mp isInteger
    obtain ⟨base, isBase⟩ := Option.isSome_iff_exists.mp isSome
    cases codes with
    | fill space codes isKind =>
      exact ⟨laid.declared space room, _, integerRest, fun js continues =>
        runs_fill resolved typed room laid space codes isKind agrees named isBase integerValue
          continues⟩
  | @assign name e line id state a found isOpen typed =>
    obtain ⟨isInteger, integerRest⟩ := Bool.and_eq_true_iff.mp integer
    obtain ⟨isTarget, integerValue⟩ := Bool.and_eq_true_iff.mp isInteger
    cases codes with
    | store isSlot codes isKind =>
      refine ⟨?_, _, integerRest, fun js continues =>
        runs_assign found typed laid isSlot codes isKind agrees named isTarget integerValue
          continues⟩
      simpa [Variables.update] using laid

/-- What is left of a body runs as it is executed. A body whose end is reached returns there. -/
theorem runs_of_typesStmts {stmts : List Stmt} {as : List TypedStmt} {final : Variables}
    {reachesEnd : Bool} (typed : TypesStmts c v stmts as final reachesEnd)
    (signature : m.signature = c.signature)
    (isResult : ∀ type, c.signature.type.result = some type → result = integerType? type)
    (whole : final.types <+: m.locals) {blocks : List (List Instruction)}
    (codes : CodesStmts t m slots next as blocks) (laid : Laid m.locals slots next v.locals.size)
    (agrees : Agrees m.locals env v locals) (named : Named isVariable env)
    (integer : areInteger isVariable stmts = true) :
    Runs t (blocks.flatten ++ if reachesEnd then [.returnVoid] else []) ⟨[], locals⟩
      (execute result env stmts) := by
  induction typed generalizing slots next blocks env locals isVariable with
  | nil =>
    cases codes
    exact runs_return (by trivial) rfl
  | leave first leaves =>
    cases codes with
    | cons code others =>
      cases others
      rw [List.flatten_cons, List.flatten_nil, List.append_nil]
      exact runs_of_leaving first leaves signature isResult code laid agrees named integer
  | cons first goesOn typed ih =>
    cases codes with
    | cons code others =>
      obtain ⟨laidAfter, isKnown, integerRest, continues⟩ :=
        runs_of_goingOn first goesOn (typed.types.trans whole) code laid agrees named integer
      rw [List.flatten_cons, List.append_assoc]
      exact continues _ fun env locals agreesAfter namedAfter =>
        ih whole others laidAfter agreesAfter namedAfter integerRest

end Statements

/-- The blocks of a body, run in the frame of a call, end as the body is executed. -/
theorem runs_method {headScope scope : TypeScope} {enclosing : List ClassName} {m : MethodDecl}
    {s : Signature} {t : ConstantTable} {slots : List (Option UInt16)}
    {blocks : List (List Instruction)} {args : List Value}
    (resolved : headScope.signature m enclosing = .ok s)
    (accepted : (MethodContext.body ⟨scope, enclosing, s⟩ m.body).2 = [])
    (integer : m.isInteger = true)
    (placed : Emit.parameterSlots 0 s.type.parameters = some slots)
    (codes : CodesStmts t (MethodContext.body ⟨scope, enclosing, s⟩ m.body).1
      (startSlots (MethodContext.body ⟨scope, enclosing, s⟩ m.body).1 slots)
      (s.type.parameterSlots false) (MethodContext.body ⟨scope, enclosing, s⟩ m.body).1.body blocks)
    (fit : Value.fitAll args s.type.parameters = true) :
    Runs t (closed (MethodContext.body ⟨scope, enclosing, s⟩ m.body).1 blocks).flatten (enter args)
      (execute (m.result.bind TypeName.integer?) (m.start args) m.body) := by
  obtain ⟨-, -, names, parameters, result⟩ := TypeScope.signature_ok resolved
  obtain ⟨as, final, reachesEnd, isBody, typed, -⟩ := MethodContext.body_ok accepted
  rw [isBody] at codes ⊢
  have count : m.parameters.length = s.type.parameters.length := by
    simpa using congrArg List.length parameters
  have start := Variables.types_ofSignature (s := s) (by rw [names, List.length_map]; omega)
  have isPrefix : s.type.parameters <+: final.types := by
    rw [← start]
    exact typed.types
  have laid := laid_start (m := ⟨s, final.types, as, reachesEnd⟩) placed isPrefix
  have size : (Variables.ofSignature s).locals.size = s.type.parameters.length := by
    rw [← Variables.length_types, start]
  have isResult : ∀ type, s.type.result = some type →
      m.result.bind TypeName.integer? = integerType? type := by
    intro type isType
    rw [isType] at result
    cases named : m.result with
    | none =>
      rw [named] at result
      cases result
    | some name =>
      rw [named] at result
      obtain ⟨other, isOther, same⟩ := except_bind_eq_ok.mp result
      obtain rfl := Option.some.inj (Except.ok.inj same)
      exact (integerType?_of_resolveType (onLine_eq_ok.mp isOther)).symm
  have runs := runs_of_typesStmts typed rfl isResult List.prefix_rfl codes
    (by rw [size]; exact laid) (agrees_start resolved fit isPrefix)
    (named_start m (by rw [Value.length_of_fitAll fit, count])) integer
  unfold closed
  cases reachesEnd with
  | true =>
    rw [if_pos rfl, List.flatten_append]
    exact runs
  | false =>
    rw [if_neg Bool.false_ne_true]
    rw [if_neg Bool.false_ne_true, List.append_nil] at runs
    exact runs

/-- A method over integers does what it means. For all arguments of its types, running its code with
the constants of its class file ends as the evaluation of its statements does: with the same value,
or with the exception where evaluation divides by zero. -/
theorem run_eq_outcome {headScope scope : TypeScope} {enclosing : List ClassName}
    {m : MethodDecl} {s : Signature} {c : TypedClass} {version : Version} {f : ClassFile} {i : Nat}
    (resolved : headScope.signature m enclosing = .ok s)
    (accepted : (MethodContext.body ⟨scope, enclosing, s⟩ m.body).2 = [])
    (integer : m.isInteger = true)
    (here : c.methods[i]? = some (MethodContext.body ⟨scope, enclosing, s⟩ m.body).1)
    (emitted : emit c version = .ok f) :
    ∃ member code, f.methods[i + 1]? = some member ∧
      f.constants.utf8? member.name = some m.name ∧
      f.constants.utf8? member.descriptor = some s.type.render ∧
      f.constants.code? member = some code ∧
      ∀ args, Value.fitAll args s.type.parameters = true →
        ∃ outcome, m.outcome? args = some outcome ∧
          run f.constants code.code (enter args) = some outcome := by
  obtain ⟨create, -, -, others, all, -, -, -, -, written⟩ := (emit_ok emitted).methods
  obtain ⟨member, found, isWritten⟩ := written i _ here
  obtain ⟨a, slots, blocks, only, placed, codes, holds⟩ := isWritten.body
  obtain ⟨code, isCode, bytes⟩ := holds.code? only
  obtain ⟨as, final, reachesEnd, isBody, -, -⟩ := MethodContext.body_ok accepted
  have signature : (MethodContext.body ⟨scope, enclosing, s⟩ m.body).1.signature = s := by
    rw [isBody]
  have name := isWritten.name
  have descriptor := isWritten.descriptor
  rw [signature] at name descriptor placed codes
  rw [(TypeScope.signature_ok resolved).1] at name
  refine ⟨member, code, by rw [all]; exact found, name, descriptor, isCode, fun args fit => ?_⟩
  have runs := runs_method resolved accepted integer placed codes fit
  rw [bytes]
  unfold MethodDecl.outcome?
  cases executed : execute (m.result.bind TypeName.integer?) (m.start args) m.body with
  | ok value =>
    rw [executed] at runs
    exact ⟨_, rfl, runs⟩
  | error halt =>
    rw [executed] at runs
    cases halt with
    | stuck => exact runs.elim
    | arithmeticException => exact ⟨_, rfl, runs⟩

/-- `static int half(int a) { return a / 2; }` -/
def halving : MethodDecl :=
  let int : TypeName := ⟨⟨"int", []⟩, 0, 1⟩
  ⟨"half", { Modifiers.none with isStatic := true }, some int, [⟨int, "a", 1⟩],
    [.returns (some (.binary .div (.name "a" 1) (.int 2 1) 1)) 1], 1⟩

def emptyScope : TypeScope := ⟨.empty, "", [], [], []⟩

def halvingHead : Signature :=
  ⟨"half", TypeScope.methodFlags halving.modifiers, ["a"], ⟨[.int], some .int⟩, 1⟩

def halvingClass : TypedClass :=
  ⟨⟨"A"⟩, .none, none, [], [(MethodContext.body ⟨emptyScope, [], halvingHead⟩ halving.body).1],
    "A.java"⟩

def halved : TypedMethod :=
  ⟨halvingHead, [.int], [.returns (some (.arith .div .int (.localVar 0 .int) (.int 2)))], false⟩

theorem typed_halving :
    MethodContext.body ⟨emptyScope, [], halvingHead⟩ halving.body = (halved, []) := by
  have found : (Variables.ofSignature halvingHead).find? "a" = some (0, ⟨.int, true, false⟩) := by
    simp [Variables.find?, Variables.ofSignature, halvingHead, Variables.declare, Variables.empty]
  have types : (Variables.ofSignature halvingHead).types = [.int] :=
    Variables.types_ofSignature (by decide)
  have read : Place.expression ⟨emptyScope, [], .ofSignature halvingHead⟩ (.name "a" 1) =
      .ok (.localVar 0 .int) := by
    rw [Place.expression, Place.variableTerm, found]
    rfl
  have divided : Place.expression ⟨emptyScope, [], .ofSignature halvingHead⟩
      (.binary .div (.name "a" 1) (.int 2 1) 1) =
      .ok (.arith .div .int (.localVar 0 .int) (.int 2)) := by
    rw [Place.expression, read]
    rfl
  have assigned : Place.assigned ⟨emptyScope, [], .ofSignature halvingHead⟩
      (.binary .div (.name "a" 1) (.int 2 1) 1) .int =
      .ok (.arith .div .int (.localVar 0 .int) (.int 2)) := by
    rw [Place.assigned, Place.value, divided]
    rfl
  have returned : (MethodContext.mk emptyScope [] halvingHead).statement (.ofSignature halvingHead)
      (.returns (some (.binary .div (.name "a" 1) (.int 2 1) 1)) 1) =
      (.ok (.returns (some (.arith .div .int (.localVar 0 .int) (.int 2)))),
        .ofSignature halvingHead) := by
    change ((do return TypedStmt.returns (some (← Place.assigned
      ⟨emptyScope, [], .ofSignature halvingHead⟩
      (.binary .div (.name "a" 1) (.int 2 1) 1) .int)) : Except Problem TypedStmt), _) = _
    rw [assigned]
    rfl
  unfold MethodContext.body
  simp only [halving, MethodContext.statements, returned]
  simp only [MethodContext.leaves, if_true]
  rw [Variables.types] at types
  rw [types]
  rfl

theorem emit_halving : ∃ f, emit halvingClass ⟨0, 52⟩ = .ok f := by
  have method : Takes (writeMethod halved) 3 := by
    let loaded (p : Pool) := (MethodBody.start p 1).extend (.load .int 0)
    let divided (p : Pool) := ((loaded p).extend (.intConst 2)).extend (.arith .div .int)
    let returned (p : Pool) : MethodBody :=
      { (divided p).extend (.returnValue .int) with reachable := false, depth := 0 }
    have stack : 2 < 65536 := by decide
    have locals : 1 < 65536 := by decide
    exact takes_plainMethod returned rfl rfl (fun _ => rfl) (fun _ => rfl) (fun _ => stack)
      fun _ => locals
  exact emit_of_method (congrArg (fun x => [x.1]) typed_halving) method (by decide) _

theorem run_eq_outcome_halving :
    ∃ f member code, emit halvingClass ⟨0, 52⟩ = .ok f ∧ f.methods[1]? = some member ∧
      f.constants.code? member = some code ∧
      run f.constants code.code (enter [.int (-9)]) = some (.returns (some (.int (-4)))) := by
  obtain ⟨f, emitted⟩ := emit_halving
  have accepted : (MethodContext.body ⟨emptyScope, [], halvingHead⟩ halving.body).2 = [] := by
    rw [typed_halving]
  have isHead : emptyScope.signature halving [] = .ok halvingHead := rfl
  have isMethod : halvingClass.methods[0]? =
      some (MethodContext.body ⟨emptyScope, [], halvingHead⟩ halving.body).1 := rfl
  obtain ⟨member, code, found, -, -, isCode, runs⟩ :=
    run_eq_outcome isHead accepted rfl isMethod emitted
  obtain ⟨outcome, isOutcome, ran⟩ := runs [.int (-9)] rfl
  have expected : halving.outcome? [.int (-9)] = some (.returns (some (.int (-4)))) := rfl
  rw [expected] at isOutcome
  rw [← isOutcome] at ran
  exact ⟨f, member, code, emitted, found, isCode, ran⟩

end JavaSnippet.Compile
