import JavaSnippet.Proofs.Compile.Requests
import JavaSnippet.Proofs.Typing.Expressions
/-!
Why code asks for what it asks for. Besides literals and the building of texts, the code of a typed
body only names classes and methods that typing chose from the class path. A method was chosen for
values that it can be passed, so what types values have limits the choice.
-/
namespace JavaSnippet.Compile

open ClassFile Typing Source
open Pool (Request)

/-- Every parameter can be passed a value of a type that values have. -/
def Passable (path : ClassPath) (given : ExprType → Prop) (m : MethodType) : Prop :=
  ∀ wanted ∈ m.parameters, ∃ type, given type ∧ Passes path type wanted

/-- What the code of typed expressions may ask for, where `given` holds of the types of values. -/
inductive Chosen (path : ClassPath) (given : ExprType → Prop) : Request → Prop where
  | integer (value : Int32) : Chosen path given (.integer value)
  | long (value : Int64) : Chosen path given (.long value)
  | string (text : String) : Chosen path given (.string text)
  | builder {r : Request} (here : r ∈ builderRequests) : Chosen path given r
  | append (t : ExprType) : Chosen path given (appendRequest t)
  | finish : Chosen path given finishRequest
  | static {owner : ClassName} {name : String} {x : ClassData × MethodData}
    (visible : x ∈ path.visibleMethods owner name) (isStatic : x.2.isStatic = true)
    (passable : Passable path given x.2.type) :
    Chosen path given (.methodRef owner x.2.name x.2.type false)
  | instance {owner : ClassName} {name : String} {x : ClassData × MethodData}
    (visible : x ∈ path.visibleMethods owner name) (isInstance : x.2.isStatic = false)
    (passable : Passable path given x.2.type) :
    Chosen path given (.methodRef owner x.2.name x.2.type (path.isInterface owner))
  | object {owner : ClassName} (isClass : path.isInterface owner = false) :
    Chosen path given (.classRef owner.text)
  | constructor {owner : ClassName} {x : ClassData × MethodData}
    (visible : x ∈ path.visibleMethods owner "<init>")
    (isClass : path.isInterface owner = false) (passable : Passable path given x.2.type) :
    Chosen path given (.methodRef owner "<init>" x.2.type false)

def AllChosen (path : ClassPath) (given : ExprType → Prop) (requests : List Request) : Prop :=
  ∀ r ∈ requests, Chosen path given r

section Requests

variable {path : ClassPath} {given : ExprType → Prop}

theorem allChosen_nil : AllChosen path given [] := fun _ here => absurd here List.not_mem_nil

theorem AllChosen.append {front back : List Request} (h : AllChosen path given front)
    (g : AllChosen path given back) : AllChosen path given (front ++ back) :=
  List.forall_mem_append.mpr ⟨h, g⟩

theorem Chosen.alone {r : Request} (h : Chosen path given r) : AllChosen path given [r] :=
  List.forall_mem_singleton.mpr h

theorem requestsOfParts_append (front back : List Term) :
    requestsOfParts (front ++ back) = requestsOfParts front ++ requestsOfParts back := by
  induction front with
  | nil => rfl
  | cons a front ih =>
    rw [List.cons_append, requestsOfParts, requestsOfParts, ih, List.append_assoc,
      List.cons_append]

/-- Passing a value asks for nothing more. -/
theorem requestsOfTerm_pass {a b : Term} {wanted : FieldType} (h : pass path a wanted = some b) :
    requestsOfTerm b = requestsOfTerm a := by
  obtain ⟨-, ⟨-, -, -, rfl⟩ | ⟨-, rfl⟩⟩ := pass_ok h
  · rw [requestsOfTerm]
  · rfl

theorem requestsOfTerm_convert {a b : Term} {wanted : FieldType}
    (h : convert path a wanted = .ok b) : requestsOfTerm b = requestsOfTerm a := by
  rcases convert_ok h with ⟨n, -, -, rfl⟩ | passed
  · rfl
  · exact requestsOfTerm_pass passed

theorem requestsOfTerm_promote (width : IntWidth) (a : Term) :
    requestsOfTerm (Place.promote width a) = requestsOfTerm a := by
  cases width with
  | int => rfl
  | long =>
    show requestsOfTerm (if a.type.isLong then a else .widen a) = _
    split
    · rfl
    · rw [requestsOfTerm]

theorem allChosen_passAll {args : List Term} {m : MethodType}
    (h : AllChosen path given (requestsOfTerms args)) :
    AllChosen path given (requestsOfTerms (passAll path args m)) := by
  unfold passAll
  generalize m.parameters = types
  induction args generalizing types with
  | nil => exact h
  | cons a args ih =>
    cases types with
    | nil => exact allChosen_nil
    | cons type types =>
      rw [requestsOfTerms] at h
      obtain ⟨first, others⟩ := List.forall_mem_append.mp h
      rw [List.zipWith_cons_cons, requestsOfTerms]
      refine AllChosen.append ?_ (ih others types)
      cases passed : pass path a type with
      | none => exact first
      | some b =>
        rw [Option.getD_some, requestsOfTerm_pass passed]
        exact first

end Requests

section Expressions

variable {place : Place} {given : ExprType → Prop} {a b c : Term} {args : List Term}
  {name : String} {owner : ClassName}

theorem visible_of_choose {m : MethodData} (h : place.choose owner name args = .ok m) :
    ∃ x ∈ place.path.visibleMethods owner name, x.2 = m :=
  List.mem_map.mp (select_ok h).1

theorem passable_of_choose {m : MethodData} (values : ∀ a ∈ args, given a.type)
    (h : place.choose owner name args = .ok m) : Passable place.path given m.type := by
  obtain ⟨-, count, passes⟩ := select_ok h
  intro wanted here
  obtain ⟨i, inside, rfl⟩ := List.mem_iff_getElem.mp here
  have isArgument : i < (args.map Term.type).length := count ▸ inside
  refine ⟨(args.map Term.type)[i], ?_, passes (_, _) (List.mem_iff_getElem.mpr ⟨i, ?_, ?_⟩)⟩
  · obtain ⟨a, isArg, isType⟩ := List.mem_map.mp (List.getElem_mem isArgument)
    exact isType ▸ values a isArg
  · rw [List.length_zip]
    exact Nat.lt_min.mpr ⟨isArgument, inside⟩
  · exact List.getElem_zip

theorem allChosen_staticCall (values : ∀ a ∈ args, given a.type)
    (passed : AllChosen place.path given (requestsOfTerms args))
    (h : place.staticCall owner name args = .ok a) :
    AllChosen place.path given (requestsOfTerm a) := by
  obtain ⟨m, chosen, last⟩ := except_bind_eq_ok.mp h
  split at last
  · rename_i isStatic
    obtain ⟨x, visible, rfl⟩ := visible_of_choose chosen
    obtain rfl := Except.ok.inj last
    rw [requestsOfTerm]
    have call := Chosen.static visible isStatic (passable_of_choose values chosen)
    exact (allChosen_passAll passed).append call.alone
  · cases last

theorem allChosen_plainCall (values : ∀ a ∈ args, given a.type)
    (passed : AllChosen place.path given (requestsOfTerms args))
    (h : place.plainCall name args = .ok a) : AllChosen place.path given (requestsOfTerm a) := by
  unfold Place.plainCall at h
  split at h
  · exact allChosen_staticCall values passed h
  · cases h

theorem allChosen_memberCall {receiver : Term} (values : ∀ a ∈ args, given a.type)
    (onReceiver : AllChosen place.path given (requestsOfTerm receiver))
    (passed : AllChosen place.path given (requestsOfTerms args))
    (h : place.memberCall receiver name args = .ok a) :
    AllChosen place.path given (requestsOfTerm a) := by
  obtain ⟨owner, -, rest⟩ := except_bind_eq_ok.mp h
  obtain ⟨m, chosen, last⟩ := except_bind_eq_ok.mp rest
  obtain ⟨x, visible, rfl⟩ := visible_of_choose chosen
  have passable := passable_of_choose values chosen
  split at last
  · rename_i isStatic
    obtain rfl := Except.ok.inj last
    rw [requestsOfTerm]
    exact onReceiver.append
      ((allChosen_passAll passed).append (Chosen.static visible isStatic passable).alone)
  · rename_i isInstance
    obtain rfl := Except.ok.inj last
    rw [requestsOfTerm]
    have call := Chosen.instance visible (by simpa using isInstance) passable
    exact onReceiver.append ((allChosen_passAll passed).append call.alone)

theorem allChosen_creation (values : ∀ a ∈ args, given a.type)
    (passed : AllChosen place.path given (requestsOfTerms args))
    (h : place.creation owner args = .ok a) : AllChosen place.path given (requestsOfTerm a) := by
  unfold Place.creation at h
  split at h
  · cases h
  · rename_i concrete
    have isClass : place.path.isInterface owner = false := by simpa using concrete
    obtain ⟨m, chosen, last⟩ := except_bind_eq_ok.mp h
    obtain ⟨x, visible, rfl⟩ := visible_of_choose chosen
    obtain rfl := Except.ok.inj last
    rw [requestsOfTerm]
    have create := Chosen.constructor visible isClass (passable_of_choose values chosen)
    exact (Chosen.object isClass).alone.append ((allChosen_passAll passed).append create.alone)

variable {path : ClassPath}

theorem allChosen_parts {parts : List Term} (h : AllChosen path given (requestsOfParts parts)) :
    AllChosen path given (requestsOfTerm (.concat parts)) := by
  rw [requestsOfTerm]
  exact AllChosen.append (fun r here => .builder here) (h.append Chosen.finish.alone)

theorem allChosen_part (h : AllChosen path given (requestsOfTerm a)) :
    AllChosen path given (requestsOfParts [a]) := by
  rw [requestsOfParts]
  exact h.append (Chosen.append a.type).alone

theorem allChosen_concatenate (left : AllChosen path given (requestsOfTerm a))
    (right : AllChosen path given (requestsOfTerm b)) :
    AllChosen path given (requestsOfTerm (Place.concatenate a b)) := by
  have last := allChosen_part right
  have pair : AllChosen path given (requestsOfTerm (.concat [a, b])) :=
    allChosen_parts ((requestsOfParts_append [a] [b]) ▸ (allChosen_part left).append last)
  cases a with
  | concat parts =>
    rw [requestsOfTerm] at left
    have before := (List.forall_mem_append.mp (List.forall_mem_append.mp left).2).1
    exact allChosen_parts ((requestsOfParts_append parts [b]) ▸ AllChosen.append before last)
  | _ => exact pair

theorem allChosen_binary {op : ArithOp} (left : AllChosen path given (requestsOfTerm a))
    (right : AllChosen path given (requestsOfTerm b)) (h : Place.binary op a b = .ok c) :
    AllChosen path given (requestsOfTerm c) := by
  unfold Place.binary at h
  split at h
  · obtain rfl := Except.ok.inj h
    exact allChosen_concatenate left right
  split at h
  · cases h
  · obtain rfl := Except.ok.inj h
    rw [requestsOfTerm, requestsOfTerm_promote, requestsOfTerm_promote]
    exact left.append right

theorem allChosen_negation (operand : AllChosen path given (requestsOfTerm a))
    (h : Place.negation a = .ok b) : AllChosen path given (requestsOfTerm b) := by
  unfold Place.negation at h
  split at h
  · cases h
  · obtain rfl := Except.ok.inj h
    rw [requestsOfTerm]
    exact operand

theorem given_expressions (typed : ∀ e a, place.expression e = .ok a → given a.type)
    (es : List Expr) {as : List Term} (h : place.expressions es = .ok as) :
    ∀ a ∈ as, given a.type := by
  induction es generalizing as with
  | nil =>
    obtain rfl := Except.ok.inj h
    exact List.forall_mem_nil _
  | cons e rest ih =>
    obtain ⟨first, isFirst, h⟩ := except_bind_eq_ok.mp h
    obtain ⟨used, isUsed, h⟩ := except_bind_eq_ok.mp h
    obtain ⟨others, areOthers, last⟩ := except_bind_eq_ok.mp h
    obtain ⟨rfl, -⟩ := used_ok isUsed
    obtain rfl := Except.ok.inj last
    exact List.forall_mem_cons.mpr ⟨typed e _ isFirst, ih areOthers⟩

mutual

/-- The code of a typed expression only asks for what its typing chose. -/
theorem allChosen_expression (typed : ∀ e a, place.expression e = .ok a → given a.type) :
    ∀ (e : Expr) {a : Term}, place.expression e = .ok a →
      AllChosen place.path given (requestsOfTerm a)
  | .int value line, a, h => by
    have literal := onLine_eq_ok.mp h
    unfold Place.intLiteral at literal
    split at literal
    · rename_i n isInt
      obtain rfl := Except.ok.inj literal
      exact (Chosen.integer n).alone
    · cases literal
  | .long value line, a, h => by
    have literal := onLine_eq_ok.mp h
    unfold Place.longLiteral at literal
    split at literal
    · rename_i n isLong
      obtain rfl := Except.ok.inj literal
      exact (Chosen.long n).alone
    · cases literal
  | .string text line, a, h => by
    obtain rfl := Except.ok.inj h
    exact (Chosen.string text).alone
  | .bool value line, a, h => by
    obtain rfl := Except.ok.inj h
    exact (Chosen.integer _).alone
  | .null line, a, h => by
    obtain rfl := Except.ok.inj h
    exact allChosen_nil
  | .name text line, a, h => by
    have known := onLine_eq_ok.mp h
    unfold Place.variableTerm at known
    split at known
    · cases known
    · split at known
      · obtain rfl := Except.ok.inj known
        exact allChosen_nil
      · cases known
  | .select qualifier member line, a, h => by
    rw [Place.expression] at h
    split at h
    · cases h
    · obtain ⟨inner, -, rest⟩ := except_bind_eq_ok.mp h
      obtain ⟨used, -, last⟩ := except_bind_eq_ok.mp rest
      cases last
  | .neg operand line, a, h => by
    obtain ⟨inner, isInner, rest⟩ := except_bind_eq_ok.mp h
    obtain ⟨used, isUsed, last⟩ := except_bind_eq_ok.mp rest
    obtain ⟨rfl, -⟩ := used_ok isUsed
    exact allChosen_negation (allChosen_expression typed operand isInner) (onLine_eq_ok.mp last)
  | .binary op left right line, a, h => by
    obtain ⟨l, isLeft, rest⟩ := except_bind_eq_ok.mp h
    obtain ⟨usedLeft, isUsedLeft, rest⟩ := except_bind_eq_ok.mp rest
    obtain ⟨r, isRight, rest⟩ := except_bind_eq_ok.mp rest
    obtain ⟨usedRight, isUsedRight, last⟩ := except_bind_eq_ok.mp rest
    obtain ⟨rfl, -⟩ := used_ok isUsedLeft
    obtain ⟨rfl, -⟩ := used_ok isUsedRight
    exact allChosen_binary (allChosen_expression typed left isLeft)
      (allChosen_expression typed right isRight) (onLine_eq_ok.mp last)
  | .call method args line, a, h => by
    obtain ⟨passed, arePassed, last⟩ := except_bind_eq_ok.mp h
    exact allChosen_plainCall (given_expressions typed args arePassed)
      (allChosen_expressions typed args arePassed) (onLine_eq_ok.mp last)
  | .callOn receiver method args line, a, h => by
    obtain ⟨owner, -, rest⟩ := except_bind_eq_ok.mp h
    obtain ⟨passed, arePassed, last⟩ := except_bind_eq_ok.mp rest
    have values := given_expressions typed args arePassed
    have chosen := allChosen_expressions typed args arePassed
    cases owner with
    | some owner => exact allChosen_staticCall values chosen (onLine_eq_ok.mp last)
    | none =>
      obtain ⟨target, isTarget, rest⟩ := except_bind_eq_ok.mp last
      obtain ⟨used, isUsed, last⟩ := except_bind_eq_ok.mp rest
      obtain ⟨rfl, -⟩ := used_ok isUsed
      exact allChosen_memberCall values (allChosen_expression typed receiver isTarget) chosen
        (onLine_eq_ok.mp last)
  | .create type args line, a, h => by
    obtain ⟨owner, -, rest⟩ := except_bind_eq_ok.mp h
    obtain ⟨passed, arePassed, last⟩ := except_bind_eq_ok.mp rest
    exact allChosen_creation (given_expressions typed args arePassed)
      (allChosen_expressions typed args arePassed) (onLine_eq_ok.mp last)

theorem allChosen_expressions (typed : ∀ e a, place.expression e = .ok a → given a.type) :
    ∀ (es : List Expr) {as : List Term}, place.expressions es = .ok as →
      AllChosen place.path given (requestsOfTerms as)
  | [], as, h => by
    obtain rfl := Except.ok.inj h
    exact allChosen_nil
  | e :: rest, as, h => by
    obtain ⟨first, isFirst, h⟩ := except_bind_eq_ok.mp h
    obtain ⟨used, isUsed, h⟩ := except_bind_eq_ok.mp h
    obtain ⟨others, areOthers, last⟩ := except_bind_eq_ok.mp h
    obtain ⟨rfl, -⟩ := used_ok isUsed
    obtain rfl := Except.ok.inj last
    rw [requestsOfTerms]
    exact (allChosen_expression typed e isFirst).append
      (allChosen_expressions typed rest areOthers)

end

theorem allChosen_value (typed : ∀ e a, place.expression e = .ok a → given a.type) {e : Expr}
    (h : place.value e = .ok a) :
    AllChosen place.path given (requestsOfTerm a) := by
  obtain ⟨inner, isInner, isUsed⟩ := except_bind_eq_ok.mp h
  obtain ⟨rfl, -⟩ := used_ok isUsed
  exact allChosen_expression typed e isInner

theorem allChosen_assigned (typed : ∀ e a, place.expression e = .ok a → given a.type) {e : Expr}
    {wanted : FieldType} (h : place.assigned e wanted = .ok a) :
    AllChosen place.path given (requestsOfTerm a) := by
  obtain ⟨inner, isValue, last⟩ := except_bind_eq_ok.mp h
  rw [requestsOfTerm_convert (onLine_eq_ok.mp last)]
  exact allChosen_value typed isValue

end Expressions

section Bodies

variable {c : MethodContext} {given : ExprType → Prop} {v after : Variables}

/-- Values have types that source can name, and the types of expressions whose variables have such
types. -/
structure Closed (c : MethodContext) (given : ExprType → Prop) : Prop where
  resolved : ∀ type t, c.scope.resolveType type c.enclosing = .ok t → given (.value t)
  typed : ∀ v : Variables, (∀ t ∈ v.types, given (.value t)) →
    ∀ e a, (c.place v).expression e = .ok a → given a.type

theorem closed_true (c : MethodContext) : Closed c fun _ => True :=
  ⟨fun _ _ _ => trivial, fun _ _ _ _ _ => trivial⟩

theorem given_declare {name : String} {state : LocalVar}
    (vars : ∀ t ∈ v.types, given (.value t)) (isGiven : given (.value state.type)) :
    ∀ t ∈ (v.declare name state).types, given (.value t) := by
  rw [Variables.types_declare]
  exact List.forall_mem_append.mpr ⟨vars, List.forall_mem_singleton.mpr isGiven⟩

theorem given_stmt (closed : Closed c given) (vars : ∀ t ∈ v.types, given (.value t)) {s : Stmt}
    {t : TypedStmt} (h : TypesStmt c v s t after) : ∀ t ∈ after.types, given (.value t) := by
  cases h with
  | declare _ resolved => exact given_declare vars (closed.resolved _ _ resolved)
  | fill _ resolved => exact given_declare vars (closed.resolved _ _ resolved)
  | assign =>
    rw [Variables.types_assigned]
    exact vars
  | _ => exact vars

theorem allChosen_stmt (closed : Closed c given) (vars : ∀ t ∈ v.types, given (.value t))
    {s : Stmt} {t : TypedStmt} (h : TypesStmt c v s t after) :
    AllChosen c.scope.classPath given (requestsOfStmt t) := by
  have values := closed.typed v vars
  cases h with
  | declare => exact allChosen_nil
  | fill _ resolved typed =>
    refine allChosen_assigned (closed.typed _ (given_declare vars ?_)) typed
    exact closed.resolved _ _ resolved
  | assign _ _ typed => exact allChosen_assigned values typed
  | returnVoid => exact allChosen_nil
  | returnValue _ typed => exact allChosen_assigned values typed
  | throws typed => exact allChosen_value values typed
  | expr typed => exact allChosen_expression values _ typed

theorem allChosen_stmts (closed : Closed c given) (vars : ∀ t ∈ v.types, given (.value t))
    {stmts : List Stmt} {ts : List TypedStmt} {reachesEnd : Bool}
    (h : TypesStmts c v stmts ts after reachesEnd) :
    AllChosen c.scope.classPath given (ts.flatMap requestsOfStmt) := by
  induction h with
  | nil => exact allChosen_nil
  | leave first =>
    rw [List.flatMap_singleton]
    exact allChosen_stmt closed vars first
  | cons first _ _ ih =>
    rw [List.flatMap_cons]
    exact (allChosen_stmt closed vars first).append (ih (given_stmt closed vars first))

/-- A body without problems only names what typing chose. -/
theorem allChosen_body (closed : Closed c given)
    (parameters : ∀ t ∈ (Variables.ofSignature c.signature).types, given (.value t))
    {stmts : List Stmt} (h : (c.body stmts).2 = []) :
    AllChosen c.scope.classPath given ((c.body stmts).1.body.flatMap requestsOfStmt) := by
  obtain ⟨ts, final, reachesEnd, typed, areTyped, -⟩ := MethodContext.body_ok h
  rw [typed]
  exact allChosen_stmts closed parameters areTyped

end Bodies

end JavaSnippet.Compile
