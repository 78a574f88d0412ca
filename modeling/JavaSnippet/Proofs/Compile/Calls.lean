import JavaSnippet.Proofs.Compile.References
/-!
The methods that compiled code calls. No code is written for floating-point numbers, so no value is
one unless a method gave it. A choice only looks at the types of arguments, though: it takes a
method that gives such a number, and passes `null` for an array of them.
-/
namespace JavaSnippet

/-- Whether a parameter or the result mentions floating-point numbers. -/
def MethodType.mentionsFloating (m : MethodType) : Bool :=
  m.parameters.any FieldType.mentionsFloating || m.result.any FieldType.mentionsFloating

theorem MethodType.mentionsFloating_eq_false {m : MethodType} :
    m.mentionsFloating = false ↔ (∀ t ∈ m.parameters, t.mentionsFloating = false) ∧
      ∀ t, m.result = some t → t.mentionsFloating = false := by
  obtain ⟨parameters, result⟩ := m
  cases result <;> simp [MethodType.mentionsFloating]

namespace Machine

/-- The slot of the method that is called. -/
def Operation.method? : Operation → Option ClassFile.PoolIndex
  | call _ method => some method
  | callInterface method _ => some method
  | plain _ => none

end Machine

namespace Compile

open ClassFile Typing Source Machine
open Pool (Request)

/-- Some method on the path gives a floating-point number, or an array of them. -/
def GivesFloating (path : ClassPath) : Prop :=
  ∃ c ∈ path.classes, ∃ m ∈ c.methods, ∃ t, m.type.result = some t ∧ t.mentionsFloating = true

/-- The method is on the path, and arguments for it can be had: it takes an array of floating-point
numbers, or a method on the path, perhaps the same one, gives floating-point numbers. -/
structure Slips (path : ClassPath) (name : String) (type : MethodType) : Prop where
  declared : ∃ c ∈ path.classes, ∃ m ∈ c.methods, m.name = name ∧ m.type = type
  cause : (∃ t ∈ type.parameters, t.mentionsFloating = true ∧ t.isArray = true) ∨
    GivesFloating path

/-- A call that has floating-point numbers in its type slips. Other requests are no calls. -/
def Spared (external : ClassPath) : Request → Prop
  | .methodRef _ name type _ => type.mentionsFloating = true → Slips external name type
  | _ => True

section Values

variable {external path : ClassPath} {units : List SourceUnit}

/-- A value of the type is no floating-point number, unless a method can give one. -/
def Given (external : ClassPath) (type : ExprType) : Prop :=
  (∀ t, type = .value t → t.mentionsFloating = false) ∨ GivesFloating external

theorem given_value {t : FieldType} (h : t.mentionsFloating = false) :
    Given external (.value t) := by
  refine .inl fun other same => ?_
  cases same
  exact h

theorem given_widthType (width : IntWidth) : Given external (widthType width) := by
  cases width with
  | int => exact given_value rfl
  | long => exact given_value rfl

/-- A number that is no array is only passed where its own type is wanted. -/
theorem floating_of_passes {type : ExprType} {wanted : FieldType}
    (passes : Passes path type wanted) (floats : wanted.mentionsFloating = true)
    (single : wanted.isArray = false) : ∃ t, type = .value t ∧ t.mentionsFloating = true := by
  obtain ⟨element, dimensions⟩ := wanted
  have none : dimensions = 0 := by simpa [FieldType.isArray] using single
  subst none
  cases element with
  | object name => cases floats
  | base b =>
    rcases passes with rfl | assignable
    · exact ⟨_, rfl, floats⟩
    · cases type with
      | void => cases assignable
      | null => cases assignable
      | value t =>
        have isWanted : FieldType.base? ⟨.base b, 0⟩ = some b := rfl
        cases isBase : t.base? with
        | none =>
          simp only [isAssignable, isBase, isWanted] at assignable
          cases assignable
        | some a =>
          obtain rfl := FieldType.eq_base_of_base? isBase
          refine ⟨_, rfl, ?_⟩
          cases b with
          | float | double =>
            cases a with
            | float | double => rfl
            | _ => cases assignable
          | _ => cases floats

theorem slips_of_passable {name : String} {type : MethodType}
    (declared : ∃ c ∈ external.classes, ∃ m ∈ c.methods, m.name = name ∧ m.type = type)
    (passable : Passable path (Given external) type) (floats : type.mentionsFloating = true) :
    Slips external name type := by
  refine ⟨declared, ?_⟩
  rcases Bool.or_eq_true_iff.mp floats with parameters | result
  · obtain ⟨wanted, here, isFloating⟩ := List.any_eq_true.mp parameters
    by_cases isArray : wanted.isArray = true
    · exact .inl ⟨wanted, here, isFloating, isArray⟩
    · obtain ⟨argument, given, passes⟩ := passable wanted here
      obtain ⟨t, isValue, giving⟩ :=
        floating_of_passes passes isFloating (Bool.eq_false_iff.mpr isArray)
      rcases given with none | gives
      · exact absurd (giving.symm.trans (none t isValue)) Bool.noConfusion
      · exact .inr gives
  · obtain ⟨c, isClass, m, isMethod, -, rfl⟩ := declared
    cases isResult : m.type.result with
    | none =>
      rw [isResult] at result
      cases result
    | some t =>
      rw [isResult] at result
      exact .inr ⟨c, isClass, m, isMethod, t, isResult, result⟩

/-- Source cannot declare methods with floating-point numbers. -/
theorem external_of_floating {c : ClassData} (here : c ∈ (pathOf external units).classes)
    {m : MethodData} (isMethod : m ∈ c.methods) (floats : m.type.mentionsFloating = true) :
    c ∈ external.classes := by
  rcases List.mem_append.mp here with own | outside
  · have none : m.type.mentionsFloating = false := by
      obtain rfl | ⟨unit, -, d, -, head, isHead, rfl⟩ := method_of_dataOf own m isMethod
      · rfl
      · exact MethodType.mentionsFloating_eq_false.mpr
          (TypeScope.mentionsFloating_of_signature isHead.resolved)
    rw [none] at floats
    cases floats
  · exact outside

variable {place : Place} {args : List Term} {name : String} {owner : ClassName}

theorem given_result (path : place.path = pathOf external units) {m : MethodData}
    (h : place.choose owner name args = .ok m) : Given external (resultType m.type) := by
  obtain ⟨⟨c, isClass, isMethod⟩, -⟩ := choose_ok h
  rw [path] at isClass
  cases isResult : m.type.result with
  | none =>
    refine .inl fun t same => ?_
    rw [resultType, isResult] at same
    cases same
  | some t =>
    rw [resultType, isResult]
    cases floats : t.mentionsFloating with
    | false => exact given_value floats
    | true =>
      have mentions : m.type.mentionsFloating = true := by
        simp [MethodType.mentionsFloating, isResult, floats]
      have outside := external_of_floating isClass isMethod mentions
      exact .inr ⟨c, outside, m, isMethod, t, isResult, floats⟩

theorem given_staticCall (path : place.path = pathOf external units) {a : Term}
    (h : place.staticCall owner name args = .ok a) : Given external a.type := by
  obtain ⟨m, chosen, last⟩ := except_bind_eq_ok.mp h
  split at last
  · obtain rfl := Except.ok.inj last
    exact given_result path chosen
  · cases last

theorem given_memberCall (path : place.path = pathOf external units) {receiver a : Term}
    (h : place.memberCall receiver name args = .ok a) : Given external a.type := by
  obtain ⟨owner, -, rest⟩ := except_bind_eq_ok.mp h
  obtain ⟨m, chosen, last⟩ := except_bind_eq_ok.mp rest
  have given := given_result path chosen
  split at last
  · obtain rfl := Except.ok.inj last
    exact given
  · obtain rfl := Except.ok.inj last
    exact given

theorem given_binary {op : ArithOp} {a b c : Term} (h : Place.binary op a b = .ok c) :
    Given external c.type := by
  unfold Place.binary at h
  split at h
  · obtain rfl := Except.ok.inj h
    cases a <;> exact given_value rfl
  split at h
  · cases h
  · obtain rfl := Except.ok.inj h
    exact given_widthType _

/-- The value of an expression, by what the expression is. -/
theorem given_expression (path : place.path = pathOf external units)
    (vars : ∀ t ∈ place.vars.types, Given external (.value t)) (e : Expr) (a : Term)
    (h : place.expression e = .ok a) : Given external a.type := by
  cases e with
  | int value line =>
    have literal := onLine_eq_ok.mp h
    unfold Place.intLiteral at literal
    split at literal
    · obtain rfl := Except.ok.inj literal
      exact given_value rfl
    · cases literal
  | long value line =>
    have literal := onLine_eq_ok.mp h
    unfold Place.longLiteral at literal
    split at literal
    · obtain rfl := Except.ok.inj literal
      exact given_value rfl
    · cases literal
  | string text line =>
    obtain rfl := Except.ok.inj h
    exact given_value rfl
  | bool value line =>
    obtain rfl := Except.ok.inj h
    exact given_value rfl
  | null line =>
    obtain rfl := Except.ok.inj h
    exact .inl fun t same => by cases same
  | name text line =>
    have known := onLine_eq_ok.mp h
    unfold Place.variableTerm at known
    split at known
    · cases known
    · rename_i id state found
      split at known
      · obtain rfl := Except.ok.inj known
        exact vars _ (List.mem_of_getElem? (Variables.types_of_find? found))
      · cases known
  | select qualifier member line =>
    rw [Place.expression] at h
    split at h
    · cases h
    · obtain ⟨inner, -, rest⟩ := except_bind_eq_ok.mp h
      obtain ⟨used, -, last⟩ := except_bind_eq_ok.mp rest
      cases last
  | neg operand line =>
    obtain ⟨inner, -, rest⟩ := except_bind_eq_ok.mp h
    obtain ⟨used, -, last⟩ := except_bind_eq_ok.mp rest
    have negated := onLine_eq_ok.mp last
    unfold Place.negation at negated
    split at negated
    · cases negated
    · obtain rfl := Except.ok.inj negated
      exact given_widthType _
  | binary op left right line =>
    obtain ⟨l, -, rest⟩ := except_bind_eq_ok.mp h
    obtain ⟨usedLeft, -, rest⟩ := except_bind_eq_ok.mp rest
    obtain ⟨r, -, rest⟩ := except_bind_eq_ok.mp rest
    obtain ⟨usedRight, -, last⟩ := except_bind_eq_ok.mp rest
    exact given_binary (onLine_eq_ok.mp last)
  | call method args line =>
    obtain ⟨passed, -, last⟩ := except_bind_eq_ok.mp h
    have called := onLine_eq_ok.mp last
    unfold Place.plainCall at called
    split at called
    · exact given_staticCall path called
    · cases called
  | callOn receiver method args line =>
    obtain ⟨owner, -, rest⟩ := except_bind_eq_ok.mp h
    obtain ⟨passed, -, last⟩ := except_bind_eq_ok.mp rest
    cases owner with
    | some owner => exact given_staticCall path (onLine_eq_ok.mp last)
    | none =>
      obtain ⟨target, -, rest⟩ := except_bind_eq_ok.mp last
      obtain ⟨used, -, last⟩ := except_bind_eq_ok.mp rest
      exact given_memberCall path (onLine_eq_ok.mp last)
  | create type args line =>
    obtain ⟨owner, -, rest⟩ := except_bind_eq_ok.mp h
    obtain ⟨passed, -, last⟩ := except_bind_eq_ok.mp rest
    have created := onLine_eq_ok.mp last
    unfold Place.creation at created
    split at created
    · cases created
    · obtain ⟨m, -, last⟩ := except_bind_eq_ok.mp created
      obtain rfl := Except.ok.inj last
      exact given_value rfl

theorem closed_given {context : MethodContext}
    (path : context.scope.classPath = pathOf external units) : Closed context (Given external) where
  resolved _ _ resolved := given_value (TypeScope.mentionsFloating_of_resolveType resolved)
  typed v vars e a h := by
    have samePath : (context.place v).path = pathOf external units := path
    exact given_expression samePath vars e a h

end Values

section Requests

variable {external : ClassPath} {units : List SourceUnit}

theorem mentionsFloating_appendParameter (type : ExprType) :
    (Emit.appendParameter type).mentionsFloating = false := by
  unfold Emit.appendParameter
  split
  · rfl
  · rfl
  · rfl
  · rfl
  · split
    · rfl
    · rfl

theorem spared_of_supported {owner : ClassName} {name : String} {type : MethodType}
    {ofInterface : Bool} (h : type.mentionsFloating = false) :
    Spared external (.methodRef owner name type ofInterface) := by
  intro floats
  rw [h] at floats
  cases floats

theorem slips_of_visible {owner : ClassName} {name : String} {x : ClassData × MethodData}
    (visible : x ∈ (pathOf external units).visibleMethods owner name)
    (passable : Passable (pathOf external units) (Given external) x.2.type)
    (floats : x.2.type.mentionsFloating = true) : Slips external name x.2.type := by
  obtain ⟨isClass, isMethod, named⟩ := ClassPath.declares_visibleMethods x visible
  have outside := external_of_floating isClass isMethod floats
  exact slips_of_passable ⟨x.1, outside, x.2, isMethod, named, rfl⟩ passable floats

theorem Chosen.spared {r : Request} (h : Chosen (pathOf external units) (Given external) r) :
    Spared external r := by
  cases h with
  | integer | long | string | object => trivial
  | builder here =>
    rcases List.mem_pair.mp here with rfl | rfl
    · trivial
    · exact spared_of_supported rfl
  | append type =>
    refine spared_of_supported (MethodType.mentionsFloating_eq_false.mpr ⟨?_, ?_⟩)
    · exact List.forall_mem_singleton.mpr (mentionsFloating_appendParameter type)
    · intro t isResult
      rw [← Option.some.inj isResult]
      rfl
  | finish => exact spared_of_supported rfl
  | static visible _ passable | «instance» visible _ passable =>
    have named := (ClassPath.declares_visibleMethods _ visible).2.2
    rw [named]
    exact slips_of_visible visible passable
  | constructor visible _ passable => exact slips_of_visible visible passable

theorem spared_of_typedOf (accepts : Accepts external units) :
    ∀ c ∈ typedOf external units, ∀ r ∈ c.requests, Spared external r := by
  intro c here
  refine forall_requests (fun _ => trivial) (fun _ => trivial) (spared_of_supported rfl) ?_
  intro m method
  obtain ⟨context, stmts, clean, rfl, path, unit, -, d, -, head, isHead, same⟩ :=
    body_of_typedOf accepts here m method
  have parameters : ∀ t ∈ (Variables.ofSignature context.signature).types,
      Given external (.value t) := by
    intro t isType
    rw [Variables.ofSignature, Variables.types_foldl_declare, Variables.types_empty,
      List.nil_append, same] at isType
    obtain ⟨⟨parameter, other⟩, isPair, rfl⟩ := List.mem_map.mp isType
    have isParameter := (List.of_mem_zip isPair).2
    exact given_value ((TypeScope.mentionsFloating_of_signature isHead.resolved).1 _ isParameter)
  have chosen := allChosen_body (closed_given path) parameters clean
  rw [path] at chosen
  exact fun r asked => (chosen r asked).spared

end Requests

section Output

variable {external : ClassPath} {units : List SourceUnit}

/-- Every call in the code of the class names a method with its type, and `allowed` holds of them.
-/
def CallsOnly (allowed : String → MethodType → Prop) (f : ClassFile) : Prop :=
  ∀ m ∈ f.methods, ∃ code operations, f.constants.code? m = some code ∧
    disassemble code.code = some operations ∧
    ∀ o ∈ operations, ∀ index, o.method? = some index →
      ∃ owner name type ofInterface, f.constants.NamesMethod index owner name type ofInterface ∧
        allowed name type

theorem named_of_needs {t : ConstantTable} {r : Request} {index ownerIndex member : PoolIndex}
    {ofInterface : Bool}
    (found : t.constant? index = some (.methodRef ownerIndex member ofInterface))
    (needs : r.Needs t (.methodRef ownerIndex member ofInterface)) :
    ∃ owner name type, t.NamesMethod index owner name type ofInterface ∧
      r = .methodRef owner name type ofInterface := by
  cases needs with
  | methodRef owned joined named described =>
    exact ⟨_, _, _, ⟨_, _, found, owned, _, _, joined, named, described⟩, rfl⟩

theorem callsOnly_of_emit {c : TypedClass} {version : Version} {f : ClassFile}
    (h : emit c version = .ok f) {allowed : String → MethodType → Prop}
    (all : ∀ owner name type ofInterface,
      .methodRef owner name type ofInterface ∈ c.requests → allowed name type) :
    CallsOnly allowed f := by
  have bodies : ∀ m ∈ f.methods, BodyRefers f.constants m := by
    obtain ⟨create, members, methods, -, creates, written⟩ := members_of_emitted (emit_ok h)
    rw [methods]
    refine List.forall_mem_cons.mpr ⟨creates.refers.2, fun m here => ?_⟩
    obtain ⟨typed, -, isWritten⟩ := exists_of_forall₂ written here
    exact isWritten.refers.2
  intro m here
  obtain ⟨code, isCode, refers⟩ := bodies m here
  obtain ⟨operations, read, names⟩ := refers.operations
  refine ⟨code, operations, isCode, read, fun o isOperation index isCall => ?_⟩
  have reference : ∃ ownerIndex member ofInterface,
      f.constants.constant? index = some (.methodRef ownerIndex member ofInterface) := by
    have named := names o isOperation
    cases o with
    | plain i => cases isCall
    | call kind method =>
      obtain rfl := Option.some.inj isCall
      obtain ⟨ownerIndex, member, found⟩ := named
      exact ⟨ownerIndex, member, false, found⟩
    | callInterface method slots =>
      obtain rfl := Option.some.inj isCall
      obtain ⟨ownerIndex, member, found⟩ := named
      exact ⟨ownerIndex, member, true, found⟩
  obtain ⟨ownerIndex, member, ofInterface, found⟩ := reference
  have inTable := List.mem_map_of_mem (f := (·.2)) (SlotTable.mem_of_get? found)
  obtain ⟨r, asked, needs⟩ := needed_of_emit h _ inTable
  obtain ⟨owner, name, type, isNamed, rfl⟩ := named_of_needs found needs
  exact ⟨owner, name, type, ofInterface, isNamed, all _ _ _ _ asked⟩

/-- A call with floating-point numbers in its type is of a method that the class path declares so.
The method takes an array of them, or else some method on the class path gives such numbers. On a
class path without these two sorts of methods no such call is compiled. -/
theorem compile_calls {version : Version} {compiled : List CompiledUnit}
    (h : compile external units version = .ok compiled) :
    List.Forall₂ (fun c (u : CompiledUnit) => ∃ f, emit c version = .ok f ∧
        u = ⟨c.name.dotted, f.encode⟩ ∧
        CallsOnly (fun name type => type.mentionsFloating = true → Slips external name type) f)
      (typeUnits external units).1 compiled := by
  obtain ⟨accepts, emits⟩ := compile_iff_emits.mp h
  rw [accepts.typeUnits_eq]
  refine ((List.forall₂_and_left _ _).mpr ⟨spared_of_typedOf accepts, emits⟩).imp ?_
  rintro c u ⟨spared, f, emitted, rfl⟩
  exact ⟨f, emitted, rfl, callsOnly_of_emit emitted fun _ _ _ _ => spared _⟩

/-- A class path with a method that gives a floating-point number. -/
def measuringPath : ClassPath :=
  ⟨[⟨⟨"F"⟩, none, [], false,
    [⟨"<init>", noArguments, false⟩, ⟨"f", ⟨[], some (.base .double)⟩, false⟩]⟩]⟩

/-- A unit that calls the method and drops the number. -/
def measuringUnit : SourceUnit := ⟨"A", "class A { static void g() { new F().f(); } }"⟩

def measuringDecl : MethodDecl :=
  ⟨"g", { Modifiers.none with isStatic := true }, none, [],
    [.expr (.callOn (.create ⟨⟨"F", []⟩, 0, 1⟩ [] 1) "f" [] 1)], 1⟩

def measuringTokens : Lexemes :=
  ⟨[⟨.word "class", 1⟩, ⟨.word "A", 1⟩, ⟨.punct '{', 1⟩, ⟨.word "static", 1⟩, ⟨.word "void", 1⟩,
    ⟨.word "g", 1⟩, ⟨.punct '(', 1⟩, ⟨.punct ')', 1⟩, ⟨.punct '{', 1⟩, ⟨.word "new", 1⟩,
    ⟨.word "F", 1⟩, ⟨.punct '(', 1⟩, ⟨.punct ')', 1⟩, ⟨.punct '.', 1⟩, ⟨.word "f", 1⟩,
    ⟨.punct '(', 1⟩, ⟨.punct ')', 1⟩, ⟨.punct ';', 1⟩, ⟨.punct '}', 1⟩, ⟨.punct '}', 1⟩], 1⟩

theorem scan_measuring : scan measuringUnit.text = .ok measuringTokens :=
  except_eq_ok_of_toOption (by decide +kernel)

theorem parse_measuring :
    parse measuringUnit.text = .ok ⟨none, [], [.mk "A" .none [measuringDecl] [] 1]⟩ := by
  rw [parse, scan_measuring]
  rfl

def measuringMethod : TypedMethod :=
  ⟨⟨"g", TypeScope.methodFlags measuringDecl.modifiers, [], noArguments, 1⟩,
    Variables.empty.types,
    [.expr (.callInstance (.create ⟨"F"⟩ noArguments []) false ⟨"F"⟩ "f"
      ⟨[], some (.base .double)⟩ [])], true⟩

def measuringClass : TypedClass := ⟨⟨"A"⟩, .none, none, [], [measuringMethod], "A.java"⟩

theorem typeUnits_measuring :
    typeUnits measuringPath [measuringUnit] = ([measuringClass], []) := by
  rw [typeUnits, parseUnits_singleton parse_measuring]
  rfl

theorem emit_measuring : ∃ f, emit measuringClass ⟨0, 52⟩ = .ok f := by
  let type : MethodType := ⟨[], some (.base .double)⟩
  have body :
      Takes (inBody 0 (Emit.method measuringMethod (startSlots measuringMethod []))) 15 := by
    refine takes_inBody fun p valid room => ?_
    obtain ⟨owner, q, isOwner, validOwner, fromOwner⟩ :=
      Pool.takes_classRef "F" p valid (by omega)
    obtain ⟨create, r, isCreate, validCreate, fromCreate⟩ :=
      Pool.takes_methodRef ⟨"F"⟩ "<init>" noArguments false q validOwner (by omega)
    obtain ⟨method, s, isMethod, validMethod, fromMethod⟩ :=
      Pool.takes_methodRef ⟨"F"⟩ "f" type false r validCreate (by omega)
    let made := { MethodBody.start p 0 with pool := q }.extend (.newObject owner)
    let copied := made.extend .dup
    let created := { copied with pool := r }.extend (.invoke .special create noArguments)
    let called := { created with pool := s }.extend (.invoke .virtual method type)
    let dropped := called.extend .pop2
    let returned : MethodBody :=
      { dropped.extend .returnVoid with reachable := false, depth := 0 }
    have foundOwner : MethodBody.inPool (Pool.classRef "F") (MethodBody.start p 0) =
        (.ok owner, { MethodBody.start p 0 with pool := q }) := MethodBody.inPool_of_ok isOwner
    have foundCreate : MethodBody.inPool (Pool.methodRef ⟨"F"⟩ "<init>" noArguments false) copied =
        (.ok create, { copied with pool := r }) := MethodBody.inPool_of_ok isCreate
    have foundMethod : MethodBody.inPool (Pool.methodRef ⟨"F"⟩ "f" type false) created =
        (.ok method, { created with pool := s }) := MethodBody.inPool_of_ok isMethod
    obtain ⟨a, d, finished, validLast, last⟩ :=
      MethodBody.finish_total (b := returned) validMethod (show s.table.next + 1 < 65536 by omega)
        (show 2 < 65536 by decide) (show 0 < 65536 by decide)
    have fromCode : d.pool.table.next ≤ s.table.next + 1 := last
    refine ⟨a, d, ?_, validLast, by omega⟩
    refine ExceptState.bind_eq_ok.mpr ⟨(), dropped, ?_,
      ExceptState.bind_eq_ok.mpr ⟨(), returned, rfl, finished⟩⟩
    refine ExceptState.bind_eq_ok.mpr ⟨startSlots measuringMethod [], dropped, ?_, rfl⟩
    refine ExceptState.bind_eq_ok.mpr ⟨(), called, ?_, rfl⟩
    refine ExceptState.bind_eq_ok.mpr ⟨(), created, ?_, ?_⟩
    · refine ExceptState.bind_eq_ok.mpr ⟨(), made,
        ExceptState.bind_eq_ok.mpr ⟨owner, _, foundOwner, rfl⟩, ?_⟩
      refine ExceptState.bind_eq_ok.mpr ⟨(), copied, rfl, ?_⟩
      refine ExceptState.bind_eq_ok.mpr ⟨(), copied, rfl, ?_⟩
      exact ExceptState.bind_eq_ok.mpr ⟨create, _, foundCreate, rfl⟩
    · refine ExceptState.bind_eq_ok.mpr ⟨(), created, rfl, ?_⟩
      exact ExceptState.bind_eq_ok.mpr ⟨method, _, foundMethod, rfl⟩
  exact emit_of_method rfl (takes_writeMethod rfl body) (by decide) _

/-- The call is made, whatever its type mentions. -/
theorem calls_measuring {f : ClassFile} (h : emit measuringClass ⟨0, 52⟩ = .ok f) :
    ∃ m ∈ f.methods, ∃ code operations index, f.constants.code? m = some code ∧
      disassemble code.code = some operations ∧ .call .virtual index ∈ operations ∧
      f.constants.NamesMethod index ⟨"F"⟩ "f" ⟨[], some (.base .double)⟩ false := by
  obtain ⟨create, members, methods, -, -, written⟩ := members_of_emitted (emit_ok h)
  obtain ⟨member, rest, isWritten, -, rfl⟩ := List.forall₂_cons_left_iff.mp written
  obtain ⟨parameters, blocks, codes, code, isCode, read⟩ := isWritten.disassembled
  cases codes with
  | cons first others =>
    cases first with
    | expr codes =>
      rw [Codes] at codes
      obtain ⟨xs, ys, call, -, -, ⟨index, names, rfl⟩, rfl⟩ := codes
      refine ⟨member, ?_, code, _, index, isCode, read, ?_, names⟩
      · rw [methods]
        exact List.mem_cons_of_mem create List.mem_cons_self
      · refine List.mem_map.mpr ⟨.invoke .virtual index ⟨[], some (.base .double)⟩, ?_, rfl⟩
        simp [closed, measuringMethod]

theorem compile_calls_measuring :
    ∃ f : ClassFile, compile measuringPath [measuringUnit] ⟨0, 52⟩ = .ok [⟨"A", f.encode⟩] ∧
      CallsOnly (fun name type => type.mentionsFloating = true → Slips measuringPath name type)
        f ∧
      ∃ m ∈ f.methods, ∃ code operations index, f.constants.code? m = some code ∧
        disassemble code.code = some operations ∧ .call .virtual index ∈ operations ∧
        f.constants.NamesMethod index ⟨"F"⟩ "f" ⟨[], some (.base .double)⟩ false := by
  obtain ⟨f, emitted⟩ := emit_measuring
  have h := compile_singleton typeUnits_measuring emitted
  have calls := compile_calls h
  rw [typeUnits_measuring] at calls
  obtain ⟨⟨g, isEmitted, -, only⟩, -⟩ := List.forall₂_cons.mp calls
  obtain rfl : f = g := Except.ok.inj (emitted.symm.trans isEmitted)
  exact ⟨f, h, only, calls_measuring emitted⟩

end Output

end Compile

end JavaSnippet
