import JavaSnippet.Proofs.Compile.Calls
/-!
Whether method references name classes or interfaces. A reference says which of both its owner is,
and who links the code refuses a reference that says the wrong one. Calls of instance methods look
the owner up. Calls of static methods do not, so they take every owner for a class.
-/
namespace JavaSnippet.Compile

open ClassFile Typing Source
open Pool (Request)

/-- The class has a static method of the name and type, perhaps one that it inherits. -/
def HasStatic (path : ClassPath) (owner : ClassName) (name : String) (type : MethodType) : Prop :=
  ∃ x ∈ path.visibleMethods owner name, x.2.isStatic = true ∧ x.2.type = type

/-- The methods of the platform that compiled code needs by itself: the constructor that every class
calls, and what builds texts. -/
def IsBuiltIn (owner : ClassName) (name : String) : Prop :=
  owner = .object ∧ name = "<init>" ∨ owner = .stringBuilder

/-- A reference says whether its owner is an interface. Of owners that are not looked up it says
that they are none. -/
inductive Linkage (path : ClassPath) (owner : ClassName) (name : String) (type : MethodType) :
    Bool → Prop where
  | right : Linkage path owner name type (path.isInterface owner)
  | static (has : HasStatic path owner name type) : Linkage path owner name type false
  | builtIn (needed : IsBuiltIn owner name) : Linkage path owner name type false

/-- A reference that is asked for has its linkage. Other requests are no references. -/
def Links (path : ClassPath) : Request → Prop
  | .methodRef owner name type ofInterface => Linkage path owner name type ofInterface
  | _ => True

section Requests

variable {external path : ClassPath} {units : List SourceUnit}

theorem linkage_of_class {owner : ClassName} {name : String} {type : MethodType}
    (isClass : path.isInterface owner = false) : Linkage path owner name type false := by
  rw [← isClass]
  exact .right

theorem Chosen.links {given : ExprType → Prop} {r : Request} (h : Chosen path given r) :
    Links path r := by
  cases h with
  | integer | long | string | object => trivial
  | builder here =>
    rcases List.mem_pair.mp here with rfl | rfl
    · trivial
    · exact .builtIn (.inr rfl)
  | append | finish => exact .builtIn (.inr rfl)
  | static visible isStatic _ =>
    have named := (ClassPath.declares_visibleMethods _ visible).2.2
    rw [named]
    exact .static ⟨_, visible, isStatic, rfl⟩
  | «instance» => exact .right
  | constructor _ isClass _ => exact linkage_of_class isClass

theorem links_of_typedOf (accepts : Accepts external units) :
    ∀ c ∈ typedOf external units, ∀ r ∈ c.requests, Links (pathOf external units) r := by
  intro c here
  refine forall_requests (fun _ => trivial) (fun _ => trivial) (.builtIn (.inl ⟨rfl, rfl⟩)) ?_
  intro m method
  obtain ⟨context, stmts, clean, rfl, path, -⟩ := body_of_typedOf accepts here m method
  have chosen := allChosen_body (closed_true context) (fun _ _ => trivial) clean
  rw [path] at chosen
  exact fun r asked => (chosen r asked).links

end Requests

section Output

variable {external : ClassPath} {units : List SourceUnit}

/-- Every reference to a method names its owner, and `linkage` holds of what it says. -/
def ReferencesOnly (linkage : ClassName → String → MethodType → Bool → Prop)
    (t : ConstantTable) : Prop :=
  ∀ index ownerIndex member ofInterface,
    t.constant? index = some (.methodRef ownerIndex member ofInterface) →
    ∃ owner name type, t.NamesMethod index owner name type ofInterface ∧
      linkage owner name type ofInterface

theorem referencesOnly_of_emit {c : TypedClass} {version : Version} {f : ClassFile}
    (h : emit c version = .ok f) {path : ClassPath} (all : ∀ r ∈ c.requests, Links path r) :
    ReferencesOnly (Linkage path) f.constants := by
  intro index ownerIndex member ofInterface found
  have inTable := List.mem_map_of_mem (f := (·.2)) (SlotTable.mem_of_get? found)
  obtain ⟨r, asked, needs⟩ := needed_of_emit h _ inTable
  obtain ⟨owner, name, type, isNamed, rfl⟩ := named_of_needs found needs
  exact ⟨owner, name, type, isNamed, all _ asked⟩

/-- A method reference says whether its owner is an interface, on the class path with the classes of
the units in front. It takes an interface for a class only if it refers to a static method of it, or
if the class path makes `java/lang/Object` or `java/lang/StringBuilder` an interface. -/
theorem compile_linkage {version : Version} {compiled : List CompiledUnit}
    (h : compile external units version = .ok compiled) :
    List.Forall₂ (fun c (u : CompiledUnit) => ∃ f, emit c version = .ok f ∧
        u = ⟨c.name.dotted, f.encode⟩ ∧
        ReferencesOnly (Linkage (pathOf external units)) f.constants)
      (typeUnits external units).1 compiled := by
  obtain ⟨accepts, emits⟩ := compile_iff_emits.mp h
  rw [accepts.typeUnits_eq]
  refine ((List.forall₂_and_left _ _).mpr ⟨links_of_typedOf accepts, emits⟩).imp ?_
  rintro c u ⟨links, f, emitted, rfl⟩
  exact ⟨f, emitted, rfl, referencesOnly_of_emit emitted links⟩

/-- A class path with an interface that has a static method. -/
def contractPath : ClassPath :=
  ⟨[⟨⟨"I"⟩, some .object, [], true, [⟨"f", noArguments, true⟩]⟩]⟩

/-- A unit that calls the method. -/
def contractUnit : SourceUnit := ⟨"A", "class A { static void g() { I.f(); } }"⟩

def contractDecl : MethodDecl :=
  ⟨"g", { Modifiers.none with isStatic := true }, none, [],
    [.expr (.callOn (.name "I" 1) "f" [] 1)], 1⟩

def contractTokens : Lexemes :=
  ⟨[⟨.word "class", 1⟩, ⟨.word "A", 1⟩, ⟨.punct '{', 1⟩, ⟨.word "static", 1⟩, ⟨.word "void", 1⟩,
    ⟨.word "g", 1⟩, ⟨.punct '(', 1⟩, ⟨.punct ')', 1⟩, ⟨.punct '{', 1⟩, ⟨.word "I", 1⟩,
    ⟨.punct '.', 1⟩, ⟨.word "f", 1⟩, ⟨.punct '(', 1⟩, ⟨.punct ')', 1⟩, ⟨.punct ';', 1⟩,
    ⟨.punct '}', 1⟩, ⟨.punct '}', 1⟩], 1⟩

theorem scan_contract : scan contractUnit.text = .ok contractTokens :=
  except_eq_ok_of_toOption (by decide +kernel)

theorem parse_contract :
    parse contractUnit.text = .ok ⟨none, [], [.mk "A" .none [contractDecl] [] 1]⟩ := by
  rw [parse, scan_contract]
  rfl

def contractMethod : TypedMethod :=
  ⟨⟨"g", TypeScope.methodFlags contractDecl.modifiers, [], noArguments, 1⟩,
    Variables.empty.types, [.expr (.callStatic ⟨"I"⟩ "f" noArguments [])], true⟩

def contractClass : TypedClass := ⟨⟨"A"⟩, .none, none, [], [contractMethod], "A.java"⟩

/-- The class path with the class of the unit in front. -/
def contractScope : TypeScope :=
  ⟨.chain ⟨[⟨⟨"A"⟩, some .object, [], false,
    [⟨"<init>", noArguments, false⟩, ⟨"g", noArguments, true⟩]⟩]⟩ contractPath, "", [⟨"A"⟩], [], []⟩

theorem pathOf_contract : pathOf contractPath [contractUnit] = contractScope.classPath := by
  have content : contractUnit.content = ⟨none, [], [.mk "A" .none [contractDecl] [] 1]⟩ := by
    rw [SourceUnit.content, parse_contract]
  unfold pathOf stubsOf dataOf
  simp only [List.flatMap_singleton, SourceUnit.resolved, SourceUnit.heads, SourceUnit.classes,
    SourceUnit.scope, content]
  rfl

/-- No variable hides the name of the interface. -/
theorem expression_contract :
    Place.expression ⟨contractScope, [⟨"A"⟩], .empty⟩ (.callOn (.name "I" 1) "f" [] 1) =
      .ok (.callStatic ⟨"I"⟩ "f" noArguments []) := by
  have free : Variables.empty.declares "I" = false := by
    simp [Variables.declares, Variables.empty]
  have resolved : contractScope.resolve ⟨"I", []⟩ [⟨"A"⟩] = .ok ⟨"I"⟩ := rfl
  have receiver : Place.classReceiver ⟨contractScope, [⟨"A"⟩], .empty⟩ (.name "I" 1) =
      .ok (some ⟨"I"⟩) := by
    simp [Place.classReceiver, Place.typePath?, Expr.path?, free, resolved]
  rw [Place.expression, receiver]
  rfl

theorem body_contract : MethodContext.body ⟨contractScope, [⟨"A"⟩], contractMethod.signature⟩
    contractDecl.body = (contractMethod, []) := by
  have start : Variables.ofSignature contractMethod.signature = .empty := rfl
  have typed : MethodContext.statement ⟨contractScope, [⟨"A"⟩], contractMethod.signature⟩ .empty
      (.expr (.callOn (.name "I" 1) "f" [] 1)) =
        (.ok (.expr (.callStatic ⟨"I"⟩ "f" noArguments [])), .empty) :=
    Prod.ext (congrArg (Except.map TypedStmt.expr) expression_contract) rfl
  rw [MethodContext.body, start, contractDecl]
  simp only [MethodContext.statements, typed, MethodContext.leaves]
  rfl

theorem typeUnits_contract :
    typeUnits contractPath [contractUnit] = ([contractClass], []) := by
  rw [typeUnits, parseUnits_singleton parse_contract]
  let body :=
    MethodContext.body ⟨contractScope, [⟨"A"⟩], contractMethod.signature⟩ contractDecl.body
  have same : body = (contractMethod, []) := body_contract
  show (([⟨⟨"A"⟩, .none, none, [], [body.1], "A.java"⟩] : List TypedClass),
    (body.2.map ((0 : Nat), ·) ++ []) ++ []) = _
  rw [same]
  rfl

theorem emit_contract : ∃ f, emit contractClass ⟨0, 52⟩ = .ok f := by
  have body :
      Takes (inBody 0 (Emit.method contractMethod (startSlots contractMethod []))) 7 := by
    refine takes_inBody fun p valid room => ?_
    obtain ⟨method, q, isMethod, validMethod, fromMethod⟩ :=
      Pool.takes_methodRef ⟨"I"⟩ "f" noArguments false p valid (by omega)
    let called :=
      { MethodBody.start p 0 with pool := q }.extend (.invoke .static method noArguments)
    let returned : MethodBody :=
      { called.extend .returnVoid with reachable := false, depth := 0 }
    have found : MethodBody.inPool (Pool.methodRef ⟨"I"⟩ "f" noArguments false)
        (MethodBody.start p 0) = (.ok method, { MethodBody.start p 0 with pool := q }) :=
      MethodBody.inPool_of_ok isMethod
    obtain ⟨a, d, finished, validLast, last⟩ :=
      MethodBody.finish_total (b := returned) validMethod (show q.table.next + 1 < 65536 by omega)
        (show 0 < 65536 by decide) (show 0 < 65536 by decide)
    have fromCode : d.pool.table.next ≤ q.table.next + 1 := last
    refine ⟨a, d, ?_, validLast, by omega⟩
    refine ExceptState.bind_eq_ok.mpr ⟨(), called, ?_,
      ExceptState.bind_eq_ok.mpr ⟨(), returned, rfl, finished⟩⟩
    refine ExceptState.bind_eq_ok.mpr ⟨startSlots contractMethod [], called, ?_, rfl⟩
    refine ExceptState.bind_eq_ok.mpr ⟨(), called, ?_, rfl⟩
    refine ExceptState.bind_eq_ok.mpr ⟨(), _, rfl, ?_⟩
    exact ExceptState.bind_eq_ok.mpr ⟨method, _, found, rfl⟩
  exact emit_of_method rfl (takes_writeMethod rfl body) (by decide) _

/-- The reference to the method of the interface takes it for a class. -/
theorem names_contract {f : ClassFile} (h : emit contractClass ⟨0, 52⟩ = .ok f) :
    ∃ index, f.constants.NamesMethod index ⟨"I"⟩ "f" noArguments false := by
  obtain ⟨create, members, methods, -, -, written⟩ := members_of_emitted (emit_ok h)
  obtain ⟨member, rest, isWritten, -, rfl⟩ := List.forall₂_cons_left_iff.mp written
  obtain ⟨parameters, blocks, codes, -⟩ := isWritten.disassembled
  cases codes with
  | cons first others =>
    cases first with
    | expr codes =>
      rw [Codes] at codes
      obtain ⟨xs, call, -, ⟨index, names, rfl⟩, rfl⟩ := codes
      exact ⟨index, names⟩

theorem compile_linkage_contract :
    ∃ f : ClassFile, compile contractPath [contractUnit] ⟨0, 52⟩ = .ok [⟨"A", f.encode⟩] ∧
      ReferencesOnly (Linkage (pathOf contractPath [contractUnit])) f.constants ∧
      (pathOf contractPath [contractUnit]).isInterface ⟨"I"⟩ = true ∧
      ∃ index, f.constants.NamesMethod index ⟨"I"⟩ "f" noArguments false := by
  obtain ⟨f, emitted⟩ := emit_contract
  have h := compile_singleton typeUnits_contract emitted
  have linkage := compile_linkage h
  rw [typeUnits_contract] at linkage
  obtain ⟨⟨g, isEmitted, -, only⟩, -⟩ := List.forall₂_cons.mp linkage
  obtain rfl : f = g := Except.ok.inj (emitted.symm.trans isEmitted)
  have isInterface : (pathOf contractPath [contractUnit]).isInterface ⟨"I"⟩ = true := by
    rw [pathOf_contract]
    rfl
  exact ⟨f, h, only, isInterface, names_contract emitted⟩

end Output

end JavaSnippet.Compile
