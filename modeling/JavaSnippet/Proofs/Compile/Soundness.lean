import JavaSnippet.Proofs.Compile.Limits
import JavaSnippet.Proofs.Compile.Room
import JavaSnippet.Proofs.Compile.Typed
/-!
Classes without problems have sound code. Their methods can be written unless a limit of the format
is hit, and what is written is accepted from the parameters to the last instruction.
-/
namespace JavaSnippet.Compile

open ClassFile Typing Source Machine
open MethodBody (valueKind? LimitedTo AtDepth atDepth_start)

section Writing

variable {α β : Type}

/-- Only limits are faults. -/
def OnlyLimits (x : Write α) : Prop := ∀ p fault, x p = .error fault → fault.IsLimit

theorem onlyLimits_pure (a : α) : OnlyLimits (pure a) := by
  intro p fault h
  cases h

theorem OnlyLimits.bind {x : Write α} {f : α → Write β} (first : OnlyLimits x)
    (next : ∀ a, OnlyLimits (f a)) : OnlyLimits (x >>= f) := by
  intro p fault h
  rw [StateExcept.bind_apply] at h
  cases made : x p with
  | error other =>
    rw [made] at h
    obtain rfl := Except.error.inj h
    exact first p _ made
  | ok result =>
    rw [made] at h
    exact next result.1 result.2 fault h

theorem onlyLimits_inPool {change : Pool.Change α} : OnlyLimits (inPool change) := by
  intro p fault h
  unfold inPool at h
  cases made : change p with
  | mk result q =>
    rw [made] at h
    cases result with
    | ok a => cases h
    | error overflow =>
      obtain rfl := Except.error.inj h
      trivial

theorem onlyLimits_inBody {n : Nat} {build : MethodBody.Build α} {Q : α → MethodBody → Prop}
    (limited : LimitedTo (AtDepth 0) build Q) : OnlyLimits (inBody n build) := by
  intro p fault h
  have built := limited (MethodBody.start p n) atDepth_start
  unfold inBody at h
  cases made : build (MethodBody.start p n) with
  | mk result body =>
    rw [made] at h built
    cases result with
    | ok a => cases h
    | error other =>
      obtain rfl := Except.error.inj h
      exact built

theorem onlyLimits_mapM {f : β → Write α} {bs : List β} (h : ∀ b ∈ bs, OnlyLimits (f b)) :
    OnlyLimits (bs.mapM f) := by
  induction bs with
  | nil => exact onlyLimits_pure []
  | cons b bs ih =>
    obtain ⟨first, others⟩ := List.forall_mem_cons.mp h
    rw [List.mapM_cons]
    exact first.bind fun _ => (ih others).bind fun _ => onlyLimits_pure _

theorem onlyLimits_writeMethod {m : TypedMethod}
    (limited : ∀ parameters, Emit.parameterSlots 0 m.signature.type.parameters = some parameters →
      LimitedTo (AtDepth 0) (Emit.method m (startSlots m parameters)) fun _ _ => True) :
    OnlyLimits (writeMethod m) := by
  refine onlyLimits_inPool.bind fun _ => onlyLimits_inPool.bind fun _ => ?_
  cases placed : Emit.parameterSlots 0 m.signature.type.parameters with
  | none =>
    intro p fault h
    obtain rfl := Except.error.inj h
    trivial
  | some parameters =>
    exact (onlyLimits_inBody (limited parameters placed)).bind fun _ => onlyLimits_pure _

theorem onlyLimits_writeConstructor : OnlyLimits writeConstructor :=
  onlyLimits_inPool.bind fun _ => onlyLimits_inPool.bind fun _ =>
    (onlyLimits_inBody Emit.limited_constructor).bind fun _ => onlyLimits_pure _

theorem onlyLimits_writeMethods {ms : List TypedMethod} {written : List (Member .method)}
    (h : ∀ m ∈ ms, OnlyLimits (writeMethod m)) : OnlyLimits (writeMethods written ms) := by
  induction ms generalizing written with
  | nil => exact onlyLimits_pure _
  | cons m ms ih =>
    obtain ⟨first, others⟩ := List.forall_mem_cons.mp h
    exact first.bind fun _ => ih others

theorem onlyLimits_writeAttributes {c : TypedClass} : OnlyLimits (writeAttributes c) := by
  refine onlyLimits_inPool.bind fun _ => onlyLimits_inPool.bind fun _ => ?_
  have entries : OnlyLimits (c.nesting.mapM fun entry => writeInner entry.1 entry.2.1 entry.2.2) :=
    onlyLimits_mapM fun _ _ => onlyLimits_inPool.bind fun _ => onlyLimits_inPool.bind fun _ =>
      onlyLimits_inPool.bind fun _ => onlyLimits_pure _
  refine entries.bind fun written => ?_
  split
  · exact onlyLimits_pure _
  · exact onlyLimits_inPool.bind fun _ => onlyLimits_pure _

theorem onlyLimits_writeClass {c : TypedClass} {version : Version}
    (h : ∀ m ∈ c.methods, OnlyLimits (writeMethod m)) : OnlyLimits (writeClass c version) := by
  have got : OnlyLimits (get : Write Pool) := by
    intro p fault h
    cases h
  exact onlyLimits_inPool.bind fun _ => onlyLimits_inPool.bind fun _ =>
    onlyLimits_writeConstructor.bind fun _ => (onlyLimits_writeMethods h).bind fun _ =>
      onlyLimits_writeAttributes.bind fun _ => got.bind fun _ => onlyLimits_pure _

/-- A class can be written as its methods can. -/
theorem limit_of_emit {c : TypedClass} {version : Version} {fault : Fault}
    (methods : ∀ m ∈ c.methods, OnlyLimits (writeMethod m))
    (h : emit c version = .error fault) : fault.IsLimit := by
  have written := except_map_eq_error.mp h
  exact onlyLimits_writeClass methods _ _ written

end Writing

/-- The code of a method, statement by statement, is accepted from the kinds of its parameters to
its last instruction, which is the only one that ends the method. -/
structure Verified (t : ConstantTable) (m : TypedMethod) (kinds : List ValueKind)
    (blocks : List (List Instruction)) : Prop where
  parameters : m.signature.type.parameters.map valueKind? = kinds.map some
  statements : ∃ parameters codes,
    Emit.parameterSlots 0 m.signature.type.parameters = some parameters ∧
    CodesStmts t m (startSlots m parameters) (m.signature.type.parameterSlots false) m.body codes ∧
    blocks = closed m codes
  accepted : ∃ locals, verifyBlocks t m.signature.type.result blocks (Shape.start kinds) =
    some ⟨[], locals, true⟩
  ends : ∃ front last, blocks.flatten = front ++ [last] ∧
    (∀ i ∈ front, i.isTerminal = false) ∧ Ends m.signature.type.result last

/-- Every method of the units is checked. -/
theorem checked_of_mem {external : ClassPath} {units : List SourceUnit} {c : TypedClass}
    {m : TypedMethod} (supported : external.Supported) (none : (typeUnits external units).2 = [])
    (here : c ∈ (typeUnits external units).1) (method : m ∈ c.methods) :
    ∃ context stmts, Checked context stmts m := by
  obtain ⟨headScope, context, declared, path, found, rfl, clean⟩ := body_of_mem here method
  obtain ⟨-, -, names, types, -⟩ := TypeScope.signature_ok found
  obtain ⟨parameters, result⟩ := TypeScope.mentionsFloating_of_signature found
  refine ⟨context, declared.body, clean none, rfl, ?_, ?_, parameters, result⟩
  · have count := congrArg List.length types
    rw [List.length_map, List.length_map] at count
    rw [names, List.length_map, count]
  · rw [path]
    exact supported_pathIn supported

theorem Written.verified {t : ConstantTable} {m : TypedMethod} {member : Member .method}
    {c : MethodContext} {stmts : List Stmt} (written : Written t m member)
    (checked : Checked c stmts m) :
    ∃ code kinds blocks, t.code? member = some code ∧
      code.code = blocks.flatten.flatMap Instruction.encode ∧ Verified t m kinds blocks := by
  obtain ⟨a, parameters, codes, only, placed, isBody, holds⟩ := written.body
  obtain ⟨code, isCode, bytes⟩ := holds.code? only
  have signature := checked.typed.1
  have supported := checked.parameters
  rw [← signature] at supported
  obtain ⟨kinds, areKinds⟩ := FieldType.kinds_of_supported supported
  obtain ⟨locals, accepted⟩ := accepted_method checked areKinds placed isBody
  have ends := ends_of_verifyAll rfl (verifyAll_flatten accepted) rfl
  exact ⟨code, kinds, closed m codes, isCode, bytes, areKinds,
    ⟨parameters, codes, placed, isBody, rfl⟩, ⟨locals, accepted⟩, ends⟩

/-- Classes of units without problems can be written but for limits, and all their code is verified.
-/
theorem verified_of_typeUnits {external : ClassPath} {units : List SourceUnit} {c : TypedClass}
    (supported : external.Supported) (none : (typeUnits external units).2 = [])
    (here : c ∈ (typeUnits external units).1) :
    (∀ m ∈ c.methods, ∀ p fault, writeMethod m p = .error fault → fault.IsLimit) ∧
      (∀ version fault, emit c version = .error fault → fault.IsLimit) ∧
      ∀ version f, emit c version = .ok f → ∀ (i : Nat) m, c.methods[i]? = some m →
        ∃ member code kinds blocks, f.methods[i + 1]? = some member ∧
          f.constants.code? member = some code ∧
          code.code = blocks.flatten.flatMap Instruction.encode ∧
          Verified f.constants m kinds blocks := by
  have methods : ∀ m ∈ c.methods, OnlyLimits (writeMethod m) := by
    intro m isMethod
    obtain ⟨context, stmts, checked⟩ := checked_of_mem supported none here isMethod
    exact onlyLimits_writeMethod fun _ => Emit.limited_method checked
  refine ⟨methods, fun _ _ => limit_of_emit methods, ?_⟩
  intro version f emitted i m isMethod
  obtain ⟨create, a, bytes, others, all, -, -, -, -, written⟩ := (emit_ok emitted).methods
  obtain ⟨member, found, isWritten⟩ := written i m isMethod
  obtain ⟨context, stmts, checked⟩ :=
    checked_of_mem supported none here (List.mem_of_getElem? isMethod)
  obtain ⟨code, kinds, blocks, isCode, encoded, verified⟩ := isWritten.verified checked
  refine ⟨member, code, kinds, blocks, ?_, isCode, encoded, verified⟩
  rw [all]
  exact found

/-- A unit with one method and no variable. -/
def sumUnit : SourceUnit := ⟨"A", "class A { static int sum() { return 2 + 1; } }"⟩

def sumDecl : MethodDecl :=
  ⟨"sum", { Modifiers.none with isStatic := true }, some ⟨⟨"int", []⟩, 0, 1⟩, [],
    [.returns (some (.binary .add (.int 2 1) (.int 1 1) 1)) 1], 1⟩

def sumTokens : Lexemes :=
  ⟨[⟨.word "class", 1⟩, ⟨.word "A", 1⟩, ⟨.punct '{', 1⟩, ⟨.word "static", 1⟩, ⟨.word "int", 1⟩,
    ⟨.word "sum", 1⟩, ⟨.punct '(', 1⟩, ⟨.punct ')', 1⟩, ⟨.punct '{', 1⟩, ⟨.word "return", 1⟩,
    ⟨.int 2, 1⟩, ⟨.punct '+', 1⟩, ⟨.int 1, 1⟩, ⟨.punct ';', 1⟩, ⟨.punct '}', 1⟩,
    ⟨.punct '}', 1⟩], 1⟩

theorem scan_sum : scan sumUnit.text = .ok sumTokens :=
  except_eq_ok_of_toOption (by decide +kernel)

theorem parse_sum : parse sumUnit.text = .ok ⟨none, [], [.mk "A" .none [sumDecl] [] 1]⟩ := by
  rw [parse, scan_sum]
  rfl

def sumMethod : TypedMethod :=
  ⟨⟨"sum", TypeScope.methodFlags sumDecl.modifiers, [], ⟨[], some .int⟩, 1⟩,
    Variables.empty.types, [.returns (some (.arith .add .int (.int 2) (.int 1)))], false⟩

def sumClass : TypedClass := ⟨⟨"A"⟩, .none, none, [], [sumMethod], "A.java"⟩

theorem typeUnits_sum : typeUnits .empty [sumUnit] = ([sumClass], []) := by
  rw [typeUnits, parseUnits_singleton parse_sum]
  rfl

theorem emit_sum : ∃ f, emit sumClass ⟨0, 52⟩ = .ok f := by
  have method : Takes (writeMethod sumMethod) 3 := by
    let two (p : Pool) := (MethodBody.start p 0).extend (.intConst 2)
    let added (p : Pool) := ((two p).extend (.intConst 1)).extend (.arith .add .int)
    let returned (p : Pool) : MethodBody :=
      { (added p).extend (.returnValue .int) with reachable := false, depth := 0 }
    have stack : 2 < 65536 := by decide
    have locals : 0 < 65536 := by decide
    exact takes_plainMethod returned rfl rfl (fun _ => rfl) (fun _ => rfl) (fun _ => stack)
      fun _ => locals
  exact emit_of_method rfl method (by decide) _

theorem verified_of_typeUnits_sum :
    ClassPath.empty.Supported ∧ (typeUnits .empty [sumUnit]).2 = [] ∧
      sumClass ∈ (typeUnits .empty [sumUnit]).1 ∧
      ∃ f member code kinds blocks, emit sumClass ⟨0, 52⟩ = .ok f ∧
        f.methods[1]? = some member ∧ f.constants.code? member = some code ∧
        code.code = blocks.flatten.flatMap Instruction.encode ∧
        Verified f.constants sumMethod kinds blocks := by
  have supported : ClassPath.empty.Supported := by
    constructor
    · simp [ClassPath.empty]
    · simp [ClassPath.empty]
    · simp [ClassPath.empty]
  have typed : (typeUnits .empty [sumUnit]).2 = [] := by rw [typeUnits_sum]
  have here : sumClass ∈ (typeUnits .empty [sumUnit]).1 := by simp [typeUnits_sum]
  obtain ⟨f, emitted⟩ := emit_sum
  obtain ⟨-, -, written⟩ := verified_of_typeUnits supported typed here
  obtain ⟨member, code, kinds, blocks, found, isCode, encoded, verified⟩ :=
    written _ f emitted 0 sumMethod rfl
  exact ⟨supported, typed, here, f, member, code, kinds, blocks, emitted, found, isCode, encoded,
    verified⟩

end JavaSnippet.Compile
