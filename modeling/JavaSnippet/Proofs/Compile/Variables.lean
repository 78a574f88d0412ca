import JavaSnippet.Proofs.Compile.Declarations
import JavaSnippet.Proofs.Compile.Room
import JavaSnippet.Proofs.Typing.Variables
/-!
The variables of compiled programs. In each method the local variables have names of their own, and
final ones are assigned at most once; a second declaration of a name is reported. Neither holds of
parameters, which two may share a name, and whose modifier is not even kept.
-/
namespace JavaSnippet.Compile

open Typing Source ClassFile

section Bodies

variable {external : ClassPath} {units : List SourceUnit} {version : Version}

theorem mem_classes_of_declarations (accepts : Accepts external units) {x : SourceUnit × Declared}
    (here : x ∈ declarations units) : x.1 ∈ units ∧ x.2 ∈ x.1.classes := by
  obtain ⟨unit, isUnit, inUnit⟩ := List.mem_flatMap.mp here
  obtain ⟨d, isClass, rfl⟩ := List.mem_map.mp inUnit
  rw [← listing_of_declareUnit (accepts.clean unit isUnit).placed] at isClass
  exact ⟨isUnit, isClass⟩

/-- Where the body of a method of the units is typed. -/
def contextFor (external : ClassPath) (units : List SourceUnit) (x : SourceUnit × Declared)
    (s : Signature) : MethodContext :=
  ⟨(x.1.scope (stubsOf external units)).withPath (pathOf external units), x.2.scope, s⟩

/-- Each declared method of a compilation without problems is typed without problems. -/
theorem body_of_declarations (accepts : Accepts external units) {x : SourceUnit × Declared}
    (here : x ∈ declarations units) {m : MethodDecl} (method : m ∈ x.2.decl.methods) :
    ∃ s, (x.1.scope (stubsOf external units)).signature m x.2.scope = .ok s ∧
      ((contextFor external units x s).body m.body).1 ∈ (typedFor external units x).methods ∧
      ((contextFor external units x s).body m.body).2 = [] := by
  obtain ⟨unit, d⟩ := x
  obtain ⟨isUnit, isClass⟩ := mem_classes_of_declarations accepts here
  have clean := accepts.clean unit isUnit
  have isHead : (d, headsOf (unit.scope (stubsOf external units)) d) ∈
      unit.heads (stubsOf external units) := List.mem_map_of_mem isClass
  rw [← methods_of_headsOf (clean.heads _ isHead)] at method
  obtain ⟨head, found, rfl⟩ := List.mem_map.mp method
  have resolved := (isHead_of_headsOf head (List.mem_reverse.mp found)).resolved
  refine ⟨head.1, resolved, List.mem_map.mpr ⟨_, List.mem_map_of_mem found, rfl⟩, ?_⟩
  have none := clean.bodies _ (List.mem_map_of_mem (List.mem_map_of_mem isHead))
  exact List.map_eq_nil_iff.mp (List.flatMap_eq_nil_iff.mp none _ (List.mem_map_of_mem found))

/-- A body in some units that is typed, in the unit of a number. -/
def IsTyped (external : ClassPath) (units : List SourceUnit) (number : Nat) (c : MethodContext)
    (stmts : List Stmt) : Prop :=
  ∃ r ∈ resolvedIn external units, ∃ head ∈ r.methods, ∃ scope,
    (scopesIn external units).lookup number = some scope ∧ r.declared.unit = number ∧
      c = ⟨{ scope.1 with classPath := pathIn external units }, r.declared.scope, head.1⟩ ∧
      stmts = head.2.body

theorem problem_of_body {number : Nat} {c : MethodContext} {stmts : List Stmt}
    (typed : IsTyped external units number c stmts) {p : Problem} (here : p ∈ (c.body stmts).2) :
    (number, p) ∈ (typeUnits external units).2 := by
  obtain ⟨r, resolved, head, isHead, scope, found, rfl, rfl, rfl⟩ := typed
  obtain ⟨others, problems⟩ := typeUnits_problems external units
  rw [problems]
  refine List.mem_append_right _ (List.mem_flatMap.mpr ⟨_, List.mem_filterMap.mpr
    ⟨r, resolved, Option.map_eq_some_iff.mpr ⟨scope, found, rfl⟩⟩, ?_⟩)
  refine List.mem_flatMap.mpr ⟨_, List.mem_map_of_mem isHead, ?_⟩
  exact List.mem_map_of_mem here

theorem IsTyped.named {number : Nat} {c : MethodContext} {stmts : List Stmt}
    (typed : IsTyped external units number c stmts) :
    (Variables.ofSignature c.signature).Named c.signature.parameterNames := by
  obtain ⟨r, resolved, head, isHead, scope, -, -, rfl, -⟩ := typed
  obtain ⟨-, headScope, heads⟩ := isResolved_of_mem resolved
  have length := (parameterNames_of_signature (heads head isHead).resolved).2
  exact Variables.named_ofSignature (Nat.le_of_eq length)

/-- Every problem is reported under the name of its unit. -/
theorem diagnostics_of_problem {x : Located} (here : x ∈ (typeUnits external units).2) :
    ∃ unit ds, units[x.1]? = some unit ∧
      compile external units version = .error (.diagnostics ds) ∧
        ⟨unit.qualifiedName, x.2.line, x.2.cause.message⟩ ∈ ds := by
  have inside := number_lt_of_problem here
  have isUnit := List.getElem?_eq_getElem inside
  have reported : ⟨units[x.1].qualifiedName, x.2.line, x.2.cause.message⟩ ∈
      diagnose units (typeUnits external units).2 := by
    refine List.mem_flatMap.mpr ⟨(units[x.1], x.1), List.mk_mem_zipIdx_iff_getElem?.mpr isUnit, ?_⟩
    exact List.mem_map_of_mem (f := fun p : Located => Diagnostic.mk _ p.2.line p.2.cause.message)
      (List.mem_filter.mpr ⟨here, beq_self_eq_true x.1⟩)
  refine ⟨_, _, isUnit, ?_, reported⟩
  unfold compile
  simp only
  split
  · rename_i none
    rw [none] at reported
    cases reported
  · rfl

end Bodies

section Careless

/-- A unit that is compiled, though it assigns to a final parameter, has two parameters of one name,
and combines modifiers that exclude each other. -/
def carelessUnit : SourceUnit :=
  ⟨"A", "final abstract class A \x7b public private static void f(final int a, int b, int b) " ++
    "\x7b a = 1; return; \x7d \x7d"⟩

def carelessModifiers : Modifiers := { Modifiers.none with isFinal := true, isAbstract := true }

def carelessDecl : MethodDecl :=
  ⟨"f", { Modifiers.none with isPublic := true, isPrivate := true, isStatic := true }, none,
    [⟨⟨⟨"int", []⟩, 0, 1⟩, "a", 1⟩, ⟨⟨⟨"int", []⟩, 0, 1⟩, "b", 1⟩, ⟨⟨⟨"int", []⟩, 0, 1⟩, "b", 1⟩],
    [.assign "a" (.int 1 1) 1, .returns none 1], 1⟩

def carelessContent : CompilationUnit :=
  ⟨none, [], [.mk "A" carelessModifiers [carelessDecl] [] 1]⟩

def carelessTokens : Lexemes :=
  ⟨[⟨.word "final", 1⟩, ⟨.word "abstract", 1⟩, ⟨.word "class", 1⟩, ⟨.word "A", 1⟩,
    ⟨.punct '\x7b', 1⟩, ⟨.word "public", 1⟩, ⟨.word "private", 1⟩, ⟨.word "static", 1⟩,
    ⟨.word "void", 1⟩, ⟨.word "f", 1⟩, ⟨.punct '(', 1⟩, ⟨.word "final", 1⟩, ⟨.word "int", 1⟩,
    ⟨.word "a", 1⟩, ⟨.punct ',', 1⟩, ⟨.word "int", 1⟩, ⟨.word "b", 1⟩, ⟨.punct ',', 1⟩,
    ⟨.word "int", 1⟩, ⟨.word "b", 1⟩, ⟨.punct ')', 1⟩, ⟨.punct '\x7b', 1⟩, ⟨.word "a", 1⟩,
    ⟨.punct '=', 1⟩, ⟨.int 1, 1⟩, ⟨.punct ';', 1⟩, ⟨.word "return", 1⟩, ⟨.punct ';', 1⟩,
    ⟨.punct '\x7d', 1⟩, ⟨.punct '\x7d', 1⟩], 1⟩

theorem scan_careless : scan carelessUnit.text = .ok carelessTokens :=
  except_eq_ok_of_toOption (by decide +kernel)

/-- The tokens after the first ones. -/
def carelessRest (count : Nat) : Lexemes := ⟨carelessTokens.rest.drop count, 1⟩

theorem methodDecl_careless : Parser.methodDecl carelessDecl.modifiers (carelessRest 8) =
    .ok (carelessDecl, carelessRest 29) := by
  have parameters : Parser.parameters (carelessRest 10) =
      .ok (carelessDecl.parameters, carelessRest 21) := rfl
  have body : Parser.block (carelessRest 21) = .ok (carelessDecl.body, carelessRest 29) := rfl
  refine StateExcept.bind_eq_ok.mpr ⟨1, carelessRest 8, rfl, ?_⟩
  refine StateExcept.bind_eq_ok.mpr ⟨none, carelessRest 9, rfl, ?_⟩
  refine StateExcept.bind_eq_ok.mpr ⟨"f", carelessRest 10, rfl, ?_⟩
  refine StateExcept.bind_eq_ok.mpr ⟨_, carelessRest 21, parameters, ?_⟩
  exact StateExcept.bind_eq_ok.mpr ⟨_, carelessRest 29, body, rfl⟩

theorem classDecl_careless : Parser.classDecl carelessModifiers (carelessRest 2) =
    .ok (.mk "A" carelessModifiers [carelessDecl] [] 1, carelessRest 30) := by
  have members : Parser.membersFrom (carelessRest 5).rest [] [] (carelessRest 5) =
      .ok (([carelessDecl], []), carelessRest 30) := by
    refine StateExcept.bind_eq_ok.mpr ⟨false, carelessRest 5, rfl, ?_⟩
    refine StateExcept.bind_eq_ok.mpr ⟨_, carelessRest 5, rfl, ?_⟩
    refine StateExcept.bind_eq_ok.mpr ⟨false, carelessRest 5, rfl, ?_⟩
    refine StateExcept.bind_eq_ok.mpr ⟨carelessDecl.modifiers, carelessRest 8, rfl, ?_⟩
    refine StateExcept.bind_eq_ok.mpr ⟨false, carelessRest 8, rfl, ?_⟩
    exact StateExcept.bind_eq_ok.mpr ⟨carelessDecl, carelessRest 29, methodDecl_careless, rfl⟩
  refine StateExcept.bind_eq_ok.mpr ⟨1, carelessRest 2, rfl, ?_⟩
  refine StateExcept.bind_eq_ok.mpr ⟨"A", carelessRest 5, rfl, ?_⟩
  refine StateExcept.bind_eq_ok.mpr ⟨_, carelessRest 5, rfl, ?_⟩
  exact StateExcept.bind_eq_ok.mpr ⟨_, carelessRest 30, members, rfl⟩

theorem parse_careless : parse carelessUnit.text = .ok carelessContent := by
  have classes : Parser.classesFrom carelessTokens.rest [] carelessTokens =
      .ok (carelessContent.classes, carelessRest 30) := by
    refine StateExcept.bind_eq_ok.mpr ⟨_, carelessTokens, rfl, ?_⟩
    refine StateExcept.bind_eq_ok.mpr ⟨false, carelessTokens, rfl, ?_⟩
    refine StateExcept.bind_eq_ok.mpr ⟨carelessModifiers, carelessRest 2, rfl, ?_⟩
    refine StateExcept.bind_eq_ok.mpr ⟨true, carelessRest 2, rfl, ?_⟩
    exact StateExcept.bind_eq_ok.mpr ⟨_, carelessRest 30, classDecl_careless, rfl⟩
  have unit : Parser.compilationUnit carelessTokens = .ok (carelessContent, carelessRest 30) := by
    refine StateExcept.bind_eq_ok.mpr ⟨none, carelessTokens, rfl, ?_⟩
    refine StateExcept.bind_eq_ok.mpr ⟨_, carelessTokens, rfl, ?_⟩
    refine StateExcept.bind_eq_ok.mpr ⟨[], carelessTokens, rfl, ?_⟩
    refine StateExcept.bind_eq_ok.mpr ⟨_, carelessTokens, rfl, ?_⟩
    exact StateExcept.bind_eq_ok.mpr ⟨_, carelessRest 30, classes, rfl⟩
  rw [parse, scan_careless]
  simp only [StateT.run, unit]
  rfl

def carelessMethod : TypedMethod :=
  ⟨⟨"f", TypeScope.methodFlags carelessDecl.modifiers, ["a", "b", "b"],
      ⟨[.int, .int, .int], none⟩, 1⟩,
    [.int, .int, .int], [.store 0 (.int 1), .returns none], false⟩

def carelessClass : TypedClass :=
  ⟨⟨"A"⟩, carelessModifiers, none, [], [carelessMethod], "A.java"⟩

/-- Where the method of the unit is typed. -/
def carelessContext : MethodContext :=
  ⟨⟨.chain ⟨[⟨⟨"A"⟩, some .object, [], false,
      [⟨"<init>", noArguments, false⟩, ⟨"f", ⟨[.int, .int, .int], none⟩, true⟩]⟩]⟩ .empty, "",
      [⟨"A"⟩], [], []⟩, [⟨"A"⟩], carelessMethod.signature⟩

theorem body_careless : carelessContext.body carelessDecl.body = (carelessMethod, []) := by
  let vars := Variables.ofSignature carelessMethod.signature
  have found : vars.find? "a" = some (0, ⟨.int, true, false⟩) := by
    have first := Variables.valid_empty.declare "a" ⟨.int, true, false⟩
    have second := first.declare "b" ⟨.int, true, false⟩
    show (((Variables.empty.declare "a" _).declare "b" _).declare "b" _).find? "a" = _
    rw [Variables.find?_declare second, if_neg (by decide), Variables.find?_declare first,
      if_neg (by decide), Variables.find?_declare Variables.valid_empty, if_pos rfl]
    rfl
  have assigned : carelessContext.statement vars (.assign "a" (.int 1 1) 1) =
      (.ok (.store 0 (.int 1)), vars.update 0 fun s => { s with assigned := true }) := by
    rw [MethodContext.statement, MethodContext.assignment, found]
    rfl
  have returned (v : Variables) : carelessContext.statement v (.returns none 1) =
      (.ok (.returns none), v) := rfl
  have types : (vars.update 0 fun s => { s with assigned := true }).types = [.int, .int, .int] := by
    rw [Variables.types_assigned]
    exact Variables.types_ofSignature (by decide)
  have start : Variables.ofSignature carelessContext.signature = vars := rfl
  rw [MethodContext.body, carelessDecl, start]
  simp only [MethodContext.statements, assigned, returned, MethodContext.leaves]
  exact Prod.ext (congrArg (fun types => TypedMethod.mk _ types _ _) types) rfl

theorem typeUnits_careless : typeUnits .empty [carelessUnit] = ([carelessClass], []) := by
  rw [typeUnits, parseUnits_singleton parse_careless]
  let body := carelessContext.body carelessDecl.body
  have same : body = (carelessMethod, []) := body_careless
  show (([⟨⟨"A"⟩, carelessModifiers, none, [], [body.1], "A.java"⟩] : List TypedClass),
    (body.2.map ((0 : Nat), ·) ++ []) ++ []) = _
  rw [same]
  rfl

theorem emit_careless : ∃ f, emit carelessClass ⟨0, 52⟩ = .ok f := by
  have method : Takes (writeMethod carelessMethod) 3 := by
    let stored (p : Pool) := ((MethodBody.start p 3).extend (.intConst 1)).extend (.store .int 0)
    let returned (p : Pool) : MethodBody :=
      { (stored p).extend .returnVoid with reachable := false, depth := 0 }
    have stack : 1 < 65536 := by decide
    have locals : 3 < 65536 := by decide
    exact takes_plainMethod returned rfl rfl (fun _ => rfl) (fun _ => rfl) (fun _ => stack)
      fun _ => locals
  exact emit_of_method rfl method (by decide) _

theorem compile_careless :
    ∃ f, compile .empty [carelessUnit] ⟨0, 52⟩ = .ok [⟨"A", ClassFile.encode f⟩] := by
  obtain ⟨f, emitted⟩ := emit_careless
  exact ⟨f, compile_singleton typeUnits_careless emitted⟩

theorem declarations_careless : declarations [carelessUnit] =
    [(carelessUnit, ⟨0, .mk "A" carelessModifiers [carelessDecl] [] 1, [], ⟨"A"⟩⟩)] := by
  rw [declarations, List.flatMap_singleton, SourceUnit.content, parse_careless]
  rfl

end Careless

section Output

variable {external : ClassPath} {units : List SourceUnit} {version : Version}

/-- A final local variable is not assigned once it holds a value. The modifier of a parameter has no
such effect: whichever parameters are taken for final, they are kept only if nothing is assigned to
them, and reading a parameter drops the word. -/
theorem compile_finalsKept {compiled : List CompiledUnit}
    (h : compile external units version = .ok compiled) :
    (∀ x ∈ declarations units, ∀ m ∈ x.2.decl.methods, ∀ finals ⊆ m.parameterNames,
        m.FinalsKept finals ↔ ∀ name ∈ finals, name ∉ m.assignedNames) ∧
      ∀ line endLine (rest : List Lexeme), rest.head?.map (·.token) ≠ some (.word "final") →
        Parser.parameter ⟨⟨.word "final", line⟩ :: rest, endLine⟩ =
          Parser.parameter ⟨rest, endLine⟩ := by
  have accepts := (compile_iff_emits.mp h).1
  refine ⟨fun x here m method finals parameters => ?_, fun _ _ _ => Parser.parameter_final⟩
  obtain ⟨s, head, -, clean⟩ := body_of_declarations accepts here method
  obtain ⟨ts, final, reachesEnd, -, typed, -⟩ := MethodContext.body_ok clean
  exact typed.finalsKept_iff (c := contextFor external units x s) head parameters

/-- The first parameter of the method is final in the text, and it is assigned. -/
theorem compile_finalsKept_careless :
    (∃ compiled, compile .empty [carelessUnit] ⟨0, 52⟩ = .ok compiled) ∧
      carelessDecl.FinalsKept [] ∧ ¬carelessDecl.FinalsKept ["a"] ∧
      Parser.parameter (carelessRest 11) = Parser.parameter (carelessRest 12) := by
  obtain ⟨f, h⟩ := compile_careless
  obtain ⟨kept, dropped⟩ := compile_finalsKept h
  have body := kept _ (declarations_careless ▸ List.mem_cons_self) carelessDecl List.mem_cons_self
  refine ⟨⟨_, h⟩, (body [] (List.nil_subset _)).mpr (by simp), fun all => ?_, ?_⟩
  · exact (body ["a"] (by decide)).mp all "a" List.mem_cons_self (by decide)
  · exact dropped 1 1 (carelessTokens.rest.drop 12) (by decide)

/-- Local variables have names of their own, so that all names of a method differ if those of its
parameters do; in any case a name stands for the last variable that has it. A second declaration of
a name is reported. -/
theorem compile_declares :
    (∀ compiled, compile external units version = .ok compiled →
      ∀ x ∈ declarations units, ∀ m ∈ x.2.decl.methods, m.LocalsDiffer ∧
        ((m.parameterNames ++ m.localNames).Nodup ↔ m.parameterNames.Nodup) ∧
        ∃ s ts final reachesEnd,
          ⟨s, final.types, ts, reachesEnd⟩ ∈ (typedFor external units x).methods ∧
            TypesStmts (contextFor external units x s) (.ofSignature s) m.body ts final
              reachesEnd ∧
            final.Named (m.parameterNames ++ m.localNames)) ∧
      ∀ number c before type name isFinal value line rest,
        IsTyped external units number c (before ++ .declare type name isFinal value line :: rest) →
        (∀ s ∈ before, MethodContext.leaves s = false) → c.Known before name →
        ∃ unit ds, units[number]? = some unit ∧
          compile external units version = .error (.diagnostics ds) ∧
            ⟨unit.qualifiedName, line,
              s!"variable {name} is already defined in method {c.signature.shortForm}"⟩ ∈ ds := by
  constructor
  · intro compiled h x here m method
    obtain ⟨s, head, isTyped, clean⟩ :=
      body_of_declarations (compile_iff_emits.mp h).1 here method
    obtain ⟨ts, final, reachesEnd, body, typed, -⟩ := MethodContext.body_ok clean
    rw [body] at isTyped
    have differ := typed.localsDiffer (c := contextFor external units x s) head
    exact ⟨differ, differ.nodup_append_iff, s, ts, final, reachesEnd, isTyped, typed,
      typed.named (named_of_signature head)⟩
  · intro number c before type name isFinal value line rest typed goesOn known
    exact diagnostics_of_problem
      (problem_of_body typed (MethodContext.redefined_mem_body goesOn known typed.named))

/-- A unit with a local variable that has the name of a parameter. -/
def shadowingUnit : SourceUnit := ⟨"A", "class A { static void f(int a) { int a; } }"⟩

def shadowingDecl : MethodDecl :=
  ⟨"f", { Modifiers.none with isStatic := true }, none, [⟨⟨⟨"int", []⟩, 0, 1⟩, "a", 1⟩],
    [.declare ⟨⟨"int", []⟩, 0, 1⟩ "a" false none 1], 1⟩

def shadowingTokens : Lexemes :=
  ⟨[⟨.word "class", 1⟩, ⟨.word "A", 1⟩, ⟨.punct '\x7b', 1⟩, ⟨.word "static", 1⟩, ⟨.word "void", 1⟩,
    ⟨.word "f", 1⟩, ⟨.punct '(', 1⟩, ⟨.word "int", 1⟩, ⟨.word "a", 1⟩, ⟨.punct ')', 1⟩,
    ⟨.punct '\x7b', 1⟩, ⟨.word "int", 1⟩, ⟨.word "a", 1⟩, ⟨.punct ';', 1⟩, ⟨.punct '\x7d', 1⟩,
    ⟨.punct '\x7d', 1⟩], 1⟩

theorem scan_shadowing : scan shadowingUnit.text = .ok shadowingTokens :=
  except_eq_ok_of_toOption (by decide +kernel)

theorem parse_shadowing :
    parse shadowingUnit.text = .ok ⟨none, [], [.mk "A" .none [shadowingDecl] [] 1]⟩ := by
  rw [parse, scan_shadowing]
  rfl

def shadowingSignature : Signature :=
  ⟨"f", TypeScope.methodFlags shadowingDecl.modifiers, ["a"], ⟨[.int], none⟩, 1⟩

/-- Where the method of the unit is typed. -/
def shadowingContext : MethodContext :=
  ⟨⟨.chain ⟨[⟨⟨"A"⟩, some .object, [], false,
      [⟨"<init>", noArguments, false⟩, ⟨"f", ⟨[.int], none⟩, true⟩]⟩]⟩ .empty, "",
      [⟨"A"⟩], [], []⟩, [⟨"A"⟩], shadowingSignature⟩

theorem isTyped_shadowing :
    IsTyped .empty [shadowingUnit] 0 shadowingContext shadowingDecl.body := by
  have parsed := parseUnits_singleton parse_shadowing
  have declared : declaredIn [shadowingUnit] =
      [⟨0, .mk "A" .none [shadowingDecl] [] 1, [], ⟨"A"⟩⟩] := by
    rw [declaredIn, parsed]
    rfl
  have scopes : scopesIn .empty [shadowingUnit] = [(0, ⟨.chain ⟨[⟨⟨"A"⟩, some .object, [], false,
      [⟨"<init>", noArguments, false⟩]⟩]⟩ .empty, "", [⟨"A"⟩], [], []⟩, [])] := by
    rw [scopesIn, parsed, declared]
    rfl
  have resolved : resolvedIn .empty [shadowingUnit] =
      [⟨⟨0, .mk "A" .none [shadowingDecl] [] 1, [], ⟨"A"⟩⟩,
        [(shadowingSignature, shadowingDecl)]⟩] := by
    rw [resolvedIn, headsIn, declared, scopes]
    rfl
  unfold IsTyped
  rw [pathIn, resolved, scopes]
  exact ⟨_, List.mem_cons_self, _, List.mem_cons_self, _, rfl, rfl, rfl, rfl⟩

theorem compile_declares_sample :
    (∃ compiled, compile .empty [carelessUnit] ⟨0, 52⟩ = .ok compiled) ∧
      carelessDecl.LocalsDiffer ∧ ¬(carelessDecl.parameterNames ++ carelessDecl.localNames).Nodup ∧
      ∃ ds, compile .empty [shadowingUnit] ⟨0, 52⟩ = .error (.diagnostics ds) ∧
        ⟨"A", 1, "variable a is already defined in method f(int)"⟩ ∈ ds := by
  obtain ⟨f, h⟩ := compile_careless
  obtain ⟨differ, nodup, -⟩ := compile_declares.1 _ h _
    (declarations_careless ▸ List.mem_cons_self) carelessDecl List.mem_cons_self
  refine ⟨⟨_, h⟩, differ, ?_, ?_⟩
  · rw [nodup]
    decide
  · obtain ⟨unit, ds, isUnit, failed, reported⟩ := compile_declares.2 0 shadowingContext [] _ "a"
      false none 1 [] isTyped_shadowing (by simp) (.inl (by decide))
    obtain rfl := Option.some.inj isUnit
    refine ⟨ds, failed, ?_⟩
    have text : Cause.message (.redefined "a" shadowingSignature) =
        "variable a is already defined in method f(int)" := by decide
    rw [← text]
    exact reported

end Output

end JavaSnippet.Compile
