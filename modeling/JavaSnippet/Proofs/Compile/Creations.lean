import JavaSnippet.Proofs.Compile.Abstract
import JavaSnippet.Proofs.Compile.References
import JavaSnippet.Proofs.Compile.Separate
import JavaSnippet.Proofs.Compile.Variables
/-!
The classes that compiled code makes objects of. None is an interface on the class path, but any
class of the units may be one of them: nothing looks at whether it is abstract.
-/
namespace JavaSnippet.Source

mutual

/-- The type names that an expression makes objects of. -/
def Expr.creations : Expr → List TypeName
  | .int _ _ | .long _ _ | .string _ _ | .bool _ _ | .null _ | .name _ _ => []
  | .select qualifier _ _ => qualifier.creations
  | .neg operand _ => operand.creations
  | .binary _ left right _ => left.creations ++ right.creations
  | .call _ args _ => Expr.creationsOfAll args
  | .callOn receiver _ args _ => receiver.creations ++ Expr.creationsOfAll args
  | .create type args _ => type :: Expr.creationsOfAll args

def Expr.creationsOfAll : List Expr → List TypeName
  | [] => []
  | e :: rest => e.creations ++ Expr.creationsOfAll rest

end

def Stmt.creations : Stmt → List TypeName
  | .declare _ _ _ value _ => value.elim [] Expr.creations
  | .assign _ value _ => value.creations
  | .returns value _ => value.elim [] Expr.creations
  | .throws value _ => value.creations
  | .expr value => value.creations

/-- A dotted name makes no objects. -/
theorem Expr.creations_of_path? : ∀ (e : Expr) {p : Path}, e.path? = some p → e.creations = []
  | .name text line, p, h => by rw [creations]
  | .select qualifier member line, p, h => by
    obtain ⟨inner, isPath, -⟩ := Option.map_eq_some_iff.mp h
    rw [creations]
    exact creations_of_path? qualifier isPath
  | .int _ _, p, h | .long _ _, p, h | .string _ _, p, h | .bool _ _, p, h | .null _, p, h
  | .neg _ _, p, h | .binary _ _ _ _, p, h | .call _ _ _, p, h | .callOn _ _ _ _, p, h
  | .create _ _ _, p, h => by cases h

end JavaSnippet.Source

namespace JavaSnippet.Compile

open ClassFile Typing Source Machine
open Pool (Request)

/-- The name means a class, not an interface. -/
def MeansClass (scope : TypeScope) (enclosing : List ClassName) (type : TypeName) : Prop :=
  ∃ owner, scope.resolve type.path enclosing = .ok owner ∧
    scope.classPath.isInterface owner = false

section Expressions

variable {place : Place}

theorem creations_of_classReceiver {e : Expr} {owner : ClassName}
    (h : place.classReceiver e = .ok (some owner)) : e.creations = [] := by
  unfold Place.classReceiver at h
  split at h
  · cases h
  · rename_i p named
    unfold Place.typePath? at named
    split at named
    · rename_i isPath
      exact Expr.creations_of_path? e isPath
    · cases named

mutual

theorem meansClass_expression : ∀ (e : Expr) {a : Term}, place.expression e = .ok a →
    ∀ type ∈ e.creations, MeansClass place.scope place.enclosing type
  | .int value line, a, h, type, here | .long value line, a, h, type, here
  | .string text line, a, h, type, here | .bool value line, a, h, type, here
  | .null line, a, h, type, here | .name text line, a, h, type, here => by
    rw [Expr.creations] at here
    cases here
  | .select qualifier member line, a, h, type, here => by
    rw [Place.expression] at h
    split at h
    · cases h
    · obtain ⟨inner, -, rest⟩ := except_bind_eq_ok.mp h
      obtain ⟨used, -, last⟩ := except_bind_eq_ok.mp rest
      cases last
  | .neg operand line, a, h, type, here => by
    rw [Expr.creations] at here
    obtain ⟨inner, isInner, -⟩ := except_bind_eq_ok.mp h
    exact meansClass_expression operand isInner type here
  | .binary op left right line, a, h, type, here => by
    rw [Expr.creations] at here
    obtain ⟨l, isLeft, rest⟩ := except_bind_eq_ok.mp h
    obtain ⟨usedLeft, -, rest⟩ := except_bind_eq_ok.mp rest
    obtain ⟨r, isRight, -⟩ := except_bind_eq_ok.mp rest
    rcases List.mem_append.mp here with inLeft | inRight
    · exact meansClass_expression left isLeft type inLeft
    · exact meansClass_expression right isRight type inRight
  | .call method args line, a, h, type, here => by
    rw [Expr.creations] at here
    obtain ⟨passed, arePassed, -⟩ := except_bind_eq_ok.mp h
    exact meansClass_expressions args arePassed type here
  | .callOn receiver method args line, a, h, type, here => by
    rw [Expr.creations] at here
    obtain ⟨owner, isOwner, rest⟩ := except_bind_eq_ok.mp h
    obtain ⟨passed, arePassed, last⟩ := except_bind_eq_ok.mp rest
    rcases List.mem_append.mp here with onReceiver | inArgs
    · -- A receiver that names a class is not typed, but it makes no objects either.
      cases owner with
      | some owner =>
        rw [creations_of_classReceiver isOwner] at onReceiver
        cases onReceiver
      | none =>
        obtain ⟨target, isTarget, -⟩ := except_bind_eq_ok.mp last
        exact meansClass_expression receiver isTarget type onReceiver
    · exact meansClass_expressions args arePassed type inArgs
  | .create created args line, a, h, type, here => by
    rw [Expr.creations] at here
    obtain ⟨owner, isOwner, rest⟩ := except_bind_eq_ok.mp h
    obtain ⟨passed, arePassed, last⟩ := except_bind_eq_ok.mp rest
    rcases List.mem_cons.mp here with rfl | inArgs
    · refine ⟨owner, onLine_eq_ok.mp isOwner, ?_⟩
      have made := onLine_eq_ok.mp last
      unfold Place.creation at made
      split at made
      · cases made
      · rename_i concrete
        exact Bool.eq_false_iff.mpr concrete
    · exact meansClass_expressions args arePassed type inArgs

theorem meansClass_expressions : ∀ (es : List Expr) {as : List Term},
    place.expressions es = .ok as →
    ∀ type ∈ Expr.creationsOfAll es, MeansClass place.scope place.enclosing type
  | [], as, h, type, here => by
    rw [Expr.creationsOfAll] at here
    cases here
  | e :: rest, as, h, type, here => by
    rw [Expr.creationsOfAll] at here
    obtain ⟨first, isFirst, h⟩ := except_bind_eq_ok.mp h
    obtain ⟨used, -, h⟩ := except_bind_eq_ok.mp h
    obtain ⟨others, areOthers, -⟩ := except_bind_eq_ok.mp h
    rcases List.mem_append.mp here with inFirst | later
    · exact meansClass_expression e isFirst type inFirst
    · exact meansClass_expressions rest areOthers type later

end

theorem meansClass_value {e : Expr} {a : Term} (h : place.value e = .ok a) :
    ∀ type ∈ e.creations, MeansClass place.scope place.enclosing type := by
  obtain ⟨inner, isInner, -⟩ := except_bind_eq_ok.mp h
  exact meansClass_expression e isInner

theorem meansClass_assigned {e : Expr} {wanted : FieldType} {a : Term}
    (h : place.assigned e wanted = .ok a) :
    ∀ type ∈ e.creations, MeansClass place.scope place.enclosing type := by
  obtain ⟨inner, isValue, -⟩ := except_bind_eq_ok.mp h
  exact meansClass_value isValue

variable {c : MethodContext} {v after : Variables}

theorem meansClass_stmt {s : Stmt} {t : TypedStmt} (h : TypesStmt c v s t after) :
    ∀ type ∈ s.creations, MeansClass c.scope c.enclosing type := by
  cases h with
  | declare | returnVoid => exact fun type here => absurd here List.not_mem_nil
  | fill _ _ typed | assign _ _ typed | returnValue _ typed => exact meansClass_assigned typed
  | throws typed => exact meansClass_value typed
  | expr typed => exact meansClass_expression _ typed

theorem meansClass_stmts {stmts : List Stmt} {ts : List TypedStmt} {reachesEnd : Bool}
    (h : TypesStmts c v stmts ts after reachesEnd) :
    ∀ type ∈ stmts.flatMap Stmt.creations, MeansClass c.scope c.enclosing type := by
  induction h with
  | nil => exact fun type here => absurd here List.not_mem_nil
  | leave first =>
    rw [List.flatMap_singleton]
    exact meansClass_stmt first
  | cons first _ _ ih =>
    rw [List.flatMap_cons]
    exact List.forall_mem_append.mpr ⟨meansClass_stmt first, ih⟩

end Expressions

section Instructions

variable {t : ConstantTable} {slots : SlotMap} {requests more : List Request}
  {xs ys : List Instruction}

/-- The instructions only make objects of classes that are asked for. -/
def Makes (t : ConstantTable) (requests : List Request) (is : List Instruction) : Prop :=
  ∀ index, .newObject index ∈ is → ∃ name, t.className? index = some name ∧
    .classRef name ∈ requests

theorem Makes.append (first : Makes t requests xs) (others : Makes t more ys) :
    Makes t (requests ++ more) (xs ++ ys) := by
  intro index here
  rcases List.mem_append.mp here with inFirst | later
  · obtain ⟨name, isName, asked⟩ := first index inFirst
    exact ⟨name, isName, List.mem_append_left _ asked⟩
  · obtain ⟨name, isName, asked⟩ := others index later
    exact ⟨name, isName, List.mem_append_right _ asked⟩

theorem makes_newObject {index : PoolIndex} {name : String}
    (h : t.className? index = some name) :
    Makes t [.classRef name] [.newObject index, .dup] := by
  intro other here
  rcases List.mem_pair.mp here with same | same
  · cases same
    exact ⟨name, h, List.mem_cons_self⟩
  · cases same

/-- Other instructions make no objects. -/
theorem makes_other {i : Instruction} (other : ∀ index, i ≠ .newObject index)
    (requests : List Request) : Makes t requests [i] :=
  fun index here => absurd (List.mem_singleton.mp here).symm (other index)

theorem composes_makes (t : ConstantTable) : Composes t (Makes t) where
  nil := fun _ here => absurd here List.not_mem_nil
  append := Makes.append
  plain requests _ _ other := makes_other other requests
  newObject := makes_newObject
  call requests calls := by
    obtain ⟨index, -, rfl⟩ := calls
    exact makes_other (by simp) requests

theorem eq_newObject_of_operation {i : Instruction} {index : PoolIndex}
    (h : Operation.of i = .plain (.newObject index)) : i = .newObject index := by
  cases i with
  | invoke kind method type => cases kind <;> cases h
  | _ => exact Operation.plain.inj h

end Instructions

section Output

variable {external : ClassPath} {units : List SourceUnit} {version : Version}

/-- Every object that the code of a class file makes is of a class that `allowed` holds of. -/
def CreatesOnly (allowed : ClassName → Prop) (f : ClassFile) : Prop :=
  ∀ m ∈ f.methods, ∃ code operations, f.constants.code? m = some code ∧
    disassemble code.code = some operations ∧
    ∀ index, .plain (.newObject index) ∈ operations →
      ∃ name : ClassName, f.constants.className? index = some name.text ∧ allowed name

theorem operations_of_holdsCode {t : ConstantTable} {member : Member .method} {a : Attribute}
    {is : List Instruction} {requests : List Request} (only : member.attributes = [a])
    (holds : HoldsCode t a (is.flatMap Instruction.encode)) (proper : AllProper t is)
    (makes : Makes t requests is) :
    ∃ code operations, t.code? member = some code ∧ disassemble code.code = some operations ∧
      ∀ index, .plain (.newObject index) ∈ operations →
        ∃ name : ClassName, t.className? index = some name.text ∧
          .classRef name.text ∈ requests := by
  obtain ⟨code, isCode, read⟩ := holds.disassembled only proper
  refine ⟨code, _, isCode, read, fun index here => ?_⟩
  obtain ⟨i, isInstruction, same⟩ := List.mem_map.mp here
  rw [eq_newObject_of_operation same] at isInstruction
  obtain ⟨name, isName, asked⟩ := makes index isInstruction
  exact ⟨⟨name⟩, isName, asked⟩

theorem createsOnly_of_emit {c : TypedClass} {f : ClassFile} (h : emit c version = .ok f)
    {allowed : ClassName → Prop}
    (all : ∀ m ∈ c.methods, ∀ name : ClassName,
      .classRef name.text ∈ m.body.flatMap requestsOfStmt → allowed name) :
    CreatesOnly allowed f := by
  obtain ⟨create, members, methods, -, creates, written⟩ := members_of_emitted (emit_ok h)
  unfold CreatesOnly
  rw [methods]
  refine List.forall_mem_cons.mpr ⟨?_, fun member here => ?_⟩
  · obtain ⟨a, call, only, calls, holds⟩ := creates.body
    obtain ⟨code, operations, isCode, read, made⟩ := operations_of_holdsCode only holds
      ((composes_allProper _).constructor calls) ((composes_makes _).constructor calls)
    refine ⟨code, operations, isCode, read, fun index here => ?_⟩
    obtain ⟨name, -, asked⟩ := made index here
    cases asked
  · obtain ⟨typed, method, isWritten⟩ := exists_of_forall₂ written here
    obtain ⟨a, parameters, blocks, only, -, codes, holds⟩ := isWritten.body
    obtain ⟨code, operations, isCode, read, made⟩ := operations_of_holdsCode only holds
      ((composes_allProper _).body codes) ((composes_makes _).body codes)
    refine ⟨code, operations, isCode, read, fun index here => ?_⟩
    obtain ⟨name, isName, asked⟩ := made index here
    exact ⟨name, isName, all typed method name asked⟩

/-- What objects are made of: text builders, and classes that the path does not know as interfaces.
-/
def Instantiable (path : ClassPath) (name : ClassName) : Prop :=
  name = .stringBuilder ∨ path.isInterface name = false

theorem Chosen.instantiable {path : ClassPath} {given : ExprType → Prop} {name : ClassName}
    (h : Chosen path given (.classRef name.text)) : Instantiable path name := by
  generalize isRequest : Request.classRef name.text = r at h
  cases h with
  | builder here =>
    rcases List.mem_pair.mp here with rfl | rfl
    · exact .inl (congrArg ClassName.mk (Request.classRef.inj isRequest))
    · cases isRequest
  | @object owner isClass =>
    obtain rfl : name = owner := congrArg ClassName.mk (Request.classRef.inj isRequest)
    exact .inr isClass
  | _ => cases isRequest

theorem instantiable_of_typedOf (accepts : Accepts external units) :
    ∀ c ∈ typedOf external units, ∀ m ∈ c.methods, ∀ name : ClassName,
      .classRef name.text ∈ m.body.flatMap requestsOfStmt →
        Instantiable (pathOf external units) name := by
  intro c here m method name asked
  obtain ⟨context, stmts, clean, rfl, path, -⟩ := body_of_typedOf accepts here m method
  have chosen := allChosen_body (closed_true context) (fun _ _ => trivial) clean
  rw [path] at chosen
  exact (chosen _ asked).instantiable

/-- Objects are only made of classes that are no interfaces on the class path with the classes of
the units in front. Whether a class is abstract does not matter: without the modifier, or with it on
other classes, the units are accepted as well and their methods have the same code. -/
theorem compile_creations {compiled : List CompiledUnit}
    (h : compile external units version = .ok compiled) :
    (∀ x ∈ declarations units, ∀ m ∈ x.2.decl.methods, ∀ type ∈ m.body.flatMap Stmt.creations,
        MeansClass ((x.1.scope (stubsOf external units)).withPath (pathOf external units)) x.2.scope
          type) ∧
      List.Forall₂ (fun c (u : CompiledUnit) => ∃ f, emit c version = .ok f ∧
          u = ⟨c.name.dotted, f.encode⟩ ∧
          CreatesOnly (Instantiable (pathOf external units)) f)
        (typeUnits external units).1 compiled ∧
      ∀ others, List.Forall₂ SourceUnit.AlikeButAbstract units others →
        (typeUnits external others).2 = [] ∧
          (typeUnits external others).1.map (fun c => (c.name, c.methods)) =
            (typeUnits external units).1.map fun c => (c.name, c.methods) := by
  obtain ⟨accepts, emits⟩ := compile_iff_emits.mp h
  refine ⟨fun x here m method => ?_, ?_, fun others alike => ?_⟩
  · obtain ⟨s, -, -, clean⟩ := body_of_declarations accepts here method
    obtain ⟨ts, final, reachesEnd, -, typed, -⟩ := MethodContext.body_ok clean
    exact meansClass_stmts typed
  · rw [accepts.typeUnits_eq]
    refine ((List.forall₂_and_left _ _).mpr ⟨instantiable_of_typedOf accepts, emits⟩).imp ?_
    rintro c u ⟨instantiable, f, emitted, rfl⟩
    exact ⟨f, emitted, rfl, createsOnly_of_emit emitted instantiable⟩
  · have acceptsOthers := accepts.alike alike
    refine ⟨problems_eq_nil_iff.mpr acceptsOthers, ?_⟩
    rw [accepts.typeUnits_eq, acceptsOthers.typeUnits_eq]
    exact (typedOf_alike alike).symm

/-- A unit that makes an object of an abstract class. -/
def abstractUnit : SourceUnit :=
  ⟨"A", "abstract class A { static A make() { return new A(); } }"⟩

/-- The unit with the class made concrete. -/
def concreteUnit : SourceUnit := ⟨"A", "class A { static A make() { return new A(); } }"⟩

def abstractModifiers : Modifiers := { Modifiers.none with isAbstract := true }

def concreteTokens : List Lexeme :=
  [⟨.word "class", 1⟩, ⟨.word "A", 1⟩, ⟨.punct '\x7b', 1⟩, ⟨.word "static", 1⟩, ⟨.word "A", 1⟩,
    ⟨.word "make", 1⟩, ⟨.punct '(', 1⟩, ⟨.punct ')', 1⟩, ⟨.punct '\x7b', 1⟩, ⟨.word "return", 1⟩,
    ⟨.word "new", 1⟩, ⟨.word "A", 1⟩, ⟨.punct '(', 1⟩, ⟨.punct ')', 1⟩, ⟨.punct ';', 1⟩,
    ⟨.punct '\x7d', 1⟩, ⟨.punct '\x7d', 1⟩]

theorem scan_abstract :
    scan abstractUnit.text = .ok ⟨⟨.word "abstract", 1⟩ :: concreteTokens, 1⟩ :=
  except_eq_ok_of_toOption (by decide +kernel)

theorem scan_concrete : scan concreteUnit.text = .ok ⟨concreteTokens, 1⟩ :=
  except_eq_ok_of_toOption (by decide +kernel)

theorem parse_abstract : parse abstractUnit.text =
    .ok ⟨none, [], [.mk "A" abstractModifiers [makingDecl] [] 1]⟩ := by
  rw [parse, scan_abstract]
  rfl

theorem parse_concrete :
    parse concreteUnit.text = .ok ⟨none, [], [.mk "A" .none [makingDecl] [] 1]⟩ := by
  rw [parse, scan_concrete]
  rfl

theorem alike_abstract : abstractUnit.AlikeButAbstract concreteUnit where
  parses := ⟨_, parse_abstract⟩
  otherParses := ⟨_, parse_concrete⟩
  content := by
    rw [SourceUnit.content, SourceUnit.content, parse_abstract, parse_concrete]
    rfl

def abstractClass : TypedClass :=
  ⟨⟨"A"⟩, abstractModifiers, none, [], [makingMethod], "A.java"⟩

theorem typeUnits_abstract : typeUnits .empty [abstractUnit] = ([abstractClass], []) := by
  rw [typeUnits, parseUnits_singleton parse_abstract]
  rfl

theorem emit_abstract : ∃ f, emit abstractClass ⟨0, 52⟩ = .ok f :=
  emit_of_method rfl takes_makingMethod (by decide) _

/-- The object is made. -/
theorem creates_abstract {f : ClassFile} (h : emit abstractClass ⟨0, 52⟩ = .ok f) :
    ∃ m ∈ f.methods, ∃ code operations index, f.constants.code? m = some code ∧
      disassemble code.code = some operations ∧ .plain (.newObject index) ∈ operations ∧
      f.constants.className? index = some "A" := by
  obtain ⟨create, members, methods, -, -, written⟩ := members_of_emitted (emit_ok h)
  obtain ⟨member, rest, isWritten, -, rfl⟩ := List.forall₂_cons_left_iff.mp written
  obtain ⟨parameters, blocks, codes, code, isCode, read⟩ := isWritten.disassembled
  cases codes with
  | cons first others =>
    cases first with
    | @returns _ _ last codes =>
      rw [CodesOptional, Codes] at codes
      obtain ⟨index, xs, call, isObject, -, -, rfl⟩ := codes
      refine ⟨member, ?_, code, _, index, isCode, read, ?_, isObject⟩
      · rw [methods]
        exact List.mem_cons_of_mem create List.mem_cons_self
      · refine List.mem_map.mpr ⟨.newObject index, ?_, rfl⟩
        simp [closed, makingMethod]

theorem compile_creations_abstract :
    ∃ f : ClassFile, compile .empty [abstractUnit] ⟨0, 52⟩ = .ok [⟨"A", f.encode⟩] ∧
      CreatesOnly (Instantiable (pathOf .empty [abstractUnit])) f ∧
      (∃ m ∈ f.methods, ∃ code operations index, f.constants.code? m = some code ∧
        disassemble code.code = some operations ∧ .plain (.newObject index) ∈ operations ∧
        f.constants.className? index = some "A") ∧
      abstractModifiers.isAbstract = true ∧
      (typeUnits .empty [concreteUnit]).1.map (·.methods) = [[makingMethod]] := by
  obtain ⟨f, emitted⟩ := emit_abstract
  have h := compile_singleton typeUnits_abstract emitted
  obtain ⟨-, creates, alike⟩ := compile_creations h
  have methods := congrArg (List.map (·.2))
    (alike [concreteUnit] (.cons alike_abstract .nil)).2
  rw [typeUnits_abstract] at creates methods
  obtain ⟨⟨g, isEmitted, -, only⟩, -⟩ := List.forall₂_cons.mp creates
  obtain rfl : f = g := Except.ok.inj (emitted.symm.trans isEmitted)
  rw [List.map_map] at methods
  exact ⟨f, h, only, creates_abstract emitted, rfl, methods⟩

end Output

end JavaSnippet.Compile
