import JavaSnippet.Proofs.ClassPath.Methods
import JavaSnippet.Proofs.Compile.Choices
import JavaSnippet.Proofs.Compile.Operands
import JavaSnippet.Proofs.Compile.Separate
/-!
The references in compiled classes. A slot that a class file, one of its constants or its code
names holds what is needed there.
-/
namespace JavaSnippet.Compile

open ClassFile Typing Source
open Pool (Request)

section Types

theorem isValid_stringBuilder : ClassName.stringBuilder.IsValid := rfl

theorem isValid_string : FieldType.string.IsValid := (rfl : ClassName.string.IsValid)

theorem isValid_object : ClassName.object.IsValid := rfl

theorem isValid_appendParameter (type : ExprType) : (Emit.appendParameter type).IsValid := by
  unfold Emit.appendParameter
  split
  · trivial
  · trivial
  · trivial
  · trivial
  · split
    · exact isValid_string
    · exact isValid_object

theorem isValid_builderRequests : ∀ r ∈ builderRequests, r.IsValid := by
  intro r here
  rcases List.mem_pair.mp here with rfl | rfl
  · trivial
  · exact isValid_noArguments

theorem isValid_appendRequest (type : ExprType) : (appendRequest type).IsValid := by
  constructor
  · exact List.forall_mem_singleton.mpr (isValid_appendParameter type)
  · intro t isResult
    rw [← Option.some.inj isResult]
    exact isValid_stringBuilder

theorem isValid_finishRequest : finishRequest.IsValid := by
  constructor
  · exact List.forall_mem_nil _
  · intro t isResult
    rw [← Option.some.inj isResult]
    exact isValid_string

variable {path : ClassPath}

theorem isValid_of_visible (valid : path.IsValid) {owner : ClassName} {name : String}
    {x : ClassData × MethodData} (visible : x ∈ path.visibleMethods owner name) :
    x.2.type.IsValid := by
  obtain ⟨onPath, declared, -⟩ := ClassPath.declares_visibleMethods x visible
  exact valid x.1 onPath x.2 declared

theorem Chosen.isValid (valid : path.IsValid) {given : ExprType → Prop} {r : Request}
    (h : Chosen path given r) : r.IsValid := by
  cases h with
  | integer | long | string | object => trivial
  | builder here => exact isValid_builderRequests r here
  | append type => exact isValid_appendRequest type
  | finish => exact isValid_finishRequest
  | static visible | «instance» visible | constructor visible =>
    exact isValid_of_visible valid visible

/-- Classes ask for texts and classes, for the constructor of `Object`, and for what their bodies
ask for. -/
theorem forall_requests {P : Request → Prop} (texts : ∀ text, P (.utf8 text))
    (classes : ∀ name, P (.classRef name))
    (creation : P (.methodRef .object "<init>" noArguments false)) {c : TypedClass}
    (bodies : ∀ m ∈ c.methods, ∀ r ∈ m.body.flatMap requestsOfStmt, P r) :
    ∀ r ∈ c.requests, P r := by
  simp only [TypedClass.requests, constructorRequests, requestsOfMethod, requestsOfNested,
    List.forall_mem_cons, List.forall_mem_append, List.forall_mem_flatMap, texts, classes,
    creation, true_and, and_true, List.not_mem_nil, false_imp_iff, implies_true]
  exact fun m here => List.forall_mem_flatMap.mp (bodies m here)

end Types

section Output

variable {external : ClassPath} {units : List SourceUnit}

/-- The methods of classes in the units are constructors, and those whose heads are resolved. -/
theorem method_of_dataOf {stubs : ClassPath} {c : ClassData} (here : c ∈ dataOf stubs units) :
    ∀ m ∈ c.methods, m = ⟨"<init>", noArguments, false⟩ ∨
      ∃ unit ∈ units, ∃ d ∈ unit.classes, ∃ head, IsHead (unit.scope stubs) d head ∧
        m = ⟨head.1.name, head.1.type, true⟩ := by
  intro m isMethod
  obtain ⟨r, inUnits, rfl⟩ := List.mem_map.mp here
  obtain ⟨unit, isUnit, resolved⟩ := List.mem_flatMap.mp inUnits
  obtain ⟨isClass, heads⟩ := heads_of_resolved resolved
  rcases List.mem_cons.mp isMethod with rfl | other
  · exact .inl rfl
  · obtain ⟨s, isHead, rfl⟩ := List.mem_map.mp other
    obtain ⟨head, mem, rfl⟩ := List.mem_map.mp isHead
    exact .inr ⟨unit, isUnit, r.declared, isClass, head, heads head mem, rfl⟩

theorem isValid_pathOf (valid : external.IsValid) : (pathOf external units).IsValid := by
  refine ClassPath.IsValid.chain ?_ valid
  intro c here m isMethod
  obtain rfl | ⟨unit, -, d, isClass, head, isHead, rfl⟩ := method_of_dataOf here m isMethod
  · exact isValid_noArguments
  · exact TypeScope.isValid_of_signature (TypeScope.isValid_build _ unit.content)
      (isValid_of_mem isClass) isHead.resolved

/-- A method of an accepted class is a body that was typed without problems, in place of its head.
-/
theorem body_of_typedOf (accepts : Accepts external units) {c : TypedClass}
    (here : c ∈ typedOf external units) :
    ∀ m ∈ c.methods, ∃ context stmts, (MethodContext.body context stmts).2 = [] ∧
      m = (context.body stmts).1 ∧ context.scope.classPath = pathOf external units ∧
      ∃ unit ∈ units, ∃ d ∈ unit.classes, ∃ head,
        IsHead (unit.scope (stubsOf external units)) d head ∧ context.signature = head.1 := by
  intro m method
  obtain ⟨result, inUnits, rfl⟩ := List.mem_map.mp here
  obtain ⟨unit, isUnit, typed⟩ := List.mem_flatMap.mp inUnits
  have none := (accepts.clean unit isUnit).bodies result typed
  obtain ⟨r, resolved, rfl⟩ := List.mem_map.mp typed
  obtain ⟨body, isBody, rfl⟩ := List.mem_map.mp method
  have clean : body.2 = [] := List.map_eq_nil_iff.mp (List.flatMap_eq_nil_iff.mp none body isBody)
  obtain ⟨head, mem, rfl⟩ := List.mem_map.mp isBody
  obtain ⟨isClass, heads⟩ := heads_of_resolved resolved
  exact ⟨_, _, clean, rfl, rfl, unit, isUnit, r.declared, isClass, head, heads head mem, rfl⟩

/-- The types that an accepted class names are on the class path or in its units. -/
theorem isValid_of_typedOf (accepts : Accepts external units) (valid : external.IsValid) :
    ∀ c ∈ typedOf external units, ∀ r ∈ c.requests, r.IsValid := by
  intro c here
  refine forall_requests (fun _ => trivial) (fun _ => trivial) isValid_noArguments ?_
  intro m method
  obtain ⟨context, stmts, clean, rfl, path, -⟩ := body_of_typedOf accepts here m method
  have chosen := allChosen_body (closed_true context) (fun _ _ => trivial) clean
  rw [path] at chosen
  exact fun r asked => (chosen r asked).isValid (isValid_pathOf valid)

theorem refers_of_emit {c : TypedClass} {version : Version} {f : ClassFile}
    (h : emit c version = .ok f) (valid : ∀ r ∈ c.requests, r.IsValid) : f.Refers := by
  have emitted := emit_ok h
  have methods : ∀ m ∈ f.methods, m.Refers f.constants ∧ BodyRefers f.constants m := by
    obtain ⟨create, members, all, -, creates, written⟩ := members_of_emitted emitted
    rw [all]
    refine List.forall_mem_cons.mpr ⟨creates.refers, fun m here => ?_⟩
    obtain ⟨typed, -, isWritten⟩ := exists_of_forall₂ written here
    exact isWritten.refers
  constructor
  · intro k here
    obtain ⟨r, asked, needs⟩ := needed_of_emit h k here
    exact needs.refers (valid r asked)
  · exact ⟨_, emitted.thisClass⟩
  · exact ⟨_, emitted.superClass⟩
  · rw [emitted.interfaces]
    exact List.forall_mem_nil _
  · rw [emitted.fields]
    exact List.forall_mem_nil _
  · exact fun m here => (methods m here).1
  · exact fun m here => (methods m here).2
  · exact emitted.attributes.refers

/-- Each class is written from a class file in which every reference is to a constant of the right
kind. The class path only has to name valid classes, as what is read from class files always does.
-/
theorem compile_refers {version : Version} {compiled : List CompiledUnit}
    (valid : external.IsValid) (h : compile external units version = .ok compiled) :
    List.Forall₂ (fun c (u : CompiledUnit) => ∃ f, emit c version = .ok f ∧
        u = ⟨c.name.dotted, f.encode⟩ ∧ f.Refers)
      (typeUnits external units).1 compiled := by
  obtain ⟨accepts, emits⟩ := compile_iff_emits.mp h
  rw [accepts.typeUnits_eq]
  refine ((List.forall₂_and_left _ _).mpr ⟨isValid_of_typedOf accepts valid, emits⟩).imp ?_
  rintro c u ⟨requests, f, emitted, rfl⟩
  exact ⟨f, emitted, rfl, refers_of_emit emitted requests⟩

theorem compile_refers_making :
    ∃ f g : ClassFile, compile .empty [sumUnit, makingUnit] ⟨0, 52⟩ =
        .ok [⟨"A", f.encode⟩, ⟨"B", g.encode⟩] ∧
      emit makingClass ⟨0, 52⟩ = .ok g ∧ f.Refers ∧ g.Refers := by
  obtain ⟨compiled, h⟩ := compile_making
  have refers := compile_refers ClassPath.isValid_empty h
  rw [List.singleton_append, typeUnits_making] at refers
  obtain ⟨first, others, ⟨f, -, rfl, isFirst⟩, rest, rfl⟩ := List.forall₂_cons_left_iff.mp refers
  obtain ⟨second, none, ⟨g, emitted, rfl, isSecond⟩, last, rfl⟩ :=
    List.forall₂_cons_left_iff.mp rest
  obtain rfl := List.forall₂_nil_left_iff.mp last
  exact ⟨f, g, h, emitted, isFirst, isSecond⟩

end Output

end JavaSnippet.Compile
