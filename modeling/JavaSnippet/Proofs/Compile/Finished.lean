import JavaSnippet.ClassPath.Compiled
import JavaSnippet.Proofs.Compile.ReadBack
import JavaSnippet.Proofs.Compile.Stages
import JavaSnippet.Proofs.Typing.Names
/-!
What a finished class tells a later compilation. Its class file gives the data that its source gave,
method by method, when no method is private.
-/
namespace JavaSnippet.Compile

open Typing Source ClassFile

section ClassFiles

/-- A method that code outside its class may call, under a name and a descriptor that are read
back. -/
structure Callable (m : TypedMethod) : Prop where
  isStatic : m.signature.flags.isStatic = true
  isOpen : m.signature.flags.isPrivate = false
  name : m.signature.name ≠ "<clinit>"
  type : m.signature.type.IsValid

theorem methodData?_of_written {t : ConstantTable} {m : TypedMethod} {member : Member .method}
    (h : Written t m member) (callable : Callable m) :
    methodData? t member = .ok (some ⟨m.signature.name, m.signature.type, true⟩) := by
  unfold methodData?
  rw [h.flags, callable.isOpen, h.name, h.descriptor, if_neg Bool.false_ne_true]
  simp only
  rw [if_neg callable.name, MethodType.parse_render callable.type, callable.isStatic]
  rfl

theorem isValid_noArguments : noArguments.IsValid := ⟨by simp [noArguments], by simp [noArguments]⟩

theorem methodData?_constructor {t : ConstantTable} {member : Member .method}
    (flags : member.flags = ⟨Flag.isPublic⟩) (creates : Creates t member) :
    methodData? t member = .ok (some ⟨"<init>", noArguments, false⟩) := by
  have isOpen : (⟨Flag.isPublic⟩ : Flags .method).isPrivate = false := by decide
  have isInstance : (⟨Flag.isPublic⟩ : Flags .method).isStatic = false := by decide
  unfold methodData?
  rw [flags, isOpen, creates.name, creates.descriptor, if_neg Bool.false_ne_true]
  simp only
  rw [if_neg (by decide), MethodType.parse_render isValid_noArguments, isInstance]
  rfl

theorem members_of_emitted {c : TypedClass} {version : Version} {f : ClassFile}
    (emitted : Emitted c version f) :
    ∃ create members, f.methods = create :: members ∧ create.flags = ⟨Flag.isPublic⟩ ∧
      Creates f.constants create ∧ List.Forall₂ (Written f.constants) c.methods members := by
  obtain ⟨create, a, bytes, others, all, flags, -, -, count, written⟩ := emitted.methods
  obtain ⟨first, isFirst, creates⟩ := emitted.constructor
  rw [all] at isFirst
  obtain rfl := Option.some.inj isFirst
  refine ⟨_, others, all, flags, creates, List.forall₂_iff_get.mpr ⟨count.symm, ?_⟩⟩
  intro i isMethod isMember
  obtain ⟨member, found, isWritten⟩ := written i _ (List.getElem?_eq_getElem isMethod)
  rw [List.getElem?_eq_getElem isMember] at found
  rwa [← Option.some.inj found] at isWritten

theorem methods_of_emitted {c : TypedClass} {version : Version} {f : ClassFile}
    (emitted : Emitted c version f) (callable : ∀ m ∈ c.methods, Callable m) :
    f.methods.mapM (methodData? f.constants) =
      .ok (some ⟨"<init>", noArguments, false⟩ ::
        c.methods.map fun m => some ⟨m.signature.name, m.signature.type, true⟩) := by
  obtain ⟨create, members, all, flags, creates, written⟩ := members_of_emitted emitted
  have each := ((List.forall₂_and_left _ _).mpr ⟨callable, written⟩).imp fun _ _ h =>
    methodData?_of_written h.2 h.1
  have rest : members.map (methodData? f.constants) =
      (c.methods.map fun m => some ⟨m.signature.name, m.signature.type, true⟩).map .ok := by
    rw [List.map_map, ← List.forall₂_eq_eq_eq, List.forall₂_map_left_iff,
      List.forall₂_map_right_iff]
    exact each.flip
  rw [all]
  refine except_mapM_of_map ?_
  rw [List.map_cons, List.map_cons, methodData?_constructor flags creates, rest]

theorem isInterface_classFlags (m : Modifiers) : (classFlags m).isInterface = false := by
  unfold classFlags Flags.isInterface
  rw [Flags.contains_withBit_apart _ _ (by decide), Flags.contains_withBit_apart _ _ (by decide),
    Flags.contains_withBit_apart _ _ (by decide)]
  decide

theorem superClass_ne_zero {input : List UInt8} {f : ClassFile} (read : decode input = .ok f)
    {name : String} (found : f.constants.className? f.superClass = some name) :
    f.superClass ≠ 0 := by
  obtain ⟨layout, read⟩ := decode_eq_ok.mp read
  obtain ⟨sections, spell, -⟩ := Sections.of_decodeWithLayout read
  exact index_ne_zero spell found

/-- What a class file tells that is read back as it was written. -/
theorem classData_of_emitted {c : TypedClass} {version : Version} {f : ClassFile}
    (emitted : Emitted c version f) (read : decode f.encode = .ok f) (valid : c.name.IsValid)
    (callable : ∀ m ∈ c.methods, Callable m) :
    f.classData = .ok ⟨c.name, some .object, [], false, ⟨"<init>", noArguments, false⟩ ::
      c.methods.map fun m => ⟨m.signature.name, m.signature.type, true⟩⟩ := by
  have name : f.thisName? = some c.name := by
    rw [thisName?, namedClass?, emitted.thisClass]
    simp [valid.ofString, Except.toOption]
  have object : f.superName? = some .object :=
    superName?_of_className? rfl (superClass_ne_zero read emitted.superClass) emitted.superClass
  have plain : f.isInterface = false := by
    rw [ClassFile.isInterface, emitted.flags]
    exact isInterface_classFlags c.modifiers
  unfold classData
  rw [name]
  simp only
  rw [emitted.interfaces, methods_of_emitted emitted callable, object, plain]
  have kept : (c.methods.map fun m => some
        (⟨m.signature.name, m.signature.type, true⟩ : MethodData)).filterMap id =
      c.methods.map fun m => ⟨m.signature.name, m.signature.type, true⟩ := by
    rw [List.filterMap_map]
    exact congrFun List.filterMap_eq_map _
  show Except.ok (⟨c.name, some .object, [], false, ⟨"<init>", noArguments, false⟩ ::
    (c.methods.map fun m => some
      (⟨m.signature.name, m.signature.type, true⟩ : MethodData)).filterMap id⟩ : ClassData) = _
  rw [kept]

end ClassFiles

section Units

theorem inherited_isValid : Inherited fun d => ∀ n ∈ d.scope, n.IsValid := by
  intro d valid c _ inner named
  have own : d.name.IsValid := valid d.name (List.mem_append_right _ List.mem_cons_self)
  have isValid := own.nested (SimpleName.isValid_of_ofString named)
  exact List.forall_mem_append.mpr ⟨valid, List.forall_mem_singleton.mpr isValid⟩

/-- A declared class and the classes around it have valid names. -/
theorem isValid_of_mem {unit : SourceUnit} {d : Declared} (here : d ∈ unit.classes) :
    ∀ n ∈ d.scope, n.IsValid := by
  refine inherited_isValid.of_declareUnit (fun c _ name named => ?_) d here
  exact List.forall_mem_singleton.mpr (ClassName.isValid_of_ofString named)

theorem named_of_classes {unit : SourceUnit} {d : Declared} (here : d ∈ unit.classes) :
    Parser.Named d.decl := by
  refine named_of_declareUnit ?_ here
  unfold SourceUnit.content
  cases parsed : parse unit.text with
  | error fault => simp
  | ok content => exact named_of_parse parsed

variable {unit : SourceUnit} {stubs : ClassPath} {r : Resolved}

theorem heads_of_resolved (here : r ∈ unit.resolved stubs) :
    r.declared ∈ unit.classes ∧
      ∀ head ∈ r.methods, IsHead (unit.scope stubs) r.declared head := by
  obtain ⟨x, isHead, rfl⟩ := List.mem_map.mp here
  obtain ⟨d, isClass, rfl⟩ := List.mem_map.mp isHead
  exact ⟨isClass, fun head mem => isHead_of_headsOf head (List.mem_reverse.mp mem)⟩

theorem callable_of_resolved (here : r ∈ unit.resolved stubs)
    (isOpen : ∀ m ∈ r.declared.decl.methods, m.modifiers.isPrivate = false)
    {scope : TypeScope} {all : List Declared} {file : String} :
    ∀ m ∈ (typeClass scope all file r).1.methods, Callable m := by
  obtain ⟨isClass, heads⟩ := heads_of_resolved here
  intro m method
  obtain ⟨body, typed, rfl⟩ := List.mem_map.mp method
  obtain ⟨head, isHead, rfl⟩ := List.mem_map.mp typed
  obtain ⟨mem, isStatic, resolved⟩ := heads head isHead
  obtain ⟨name, flags, -⟩ := TypeScope.signature_ok resolved
  show Callable ⟨head.1, _, _, _⟩
  refine ⟨?_, ?_, ?_, ?_⟩
  · show head.1.flags.isStatic = true
    rw [flags, TypeScope.isStatic_methodFlags, isStatic]
  · show head.1.flags.isPrivate = false
    rw [flags, TypeScope.isPrivate_methodFlags, isOpen head.2 mem]
  · show head.1.name ≠ "<clinit>"
    rw [name]
    exact ((named_of_classes isClass).methods head.2 mem).ne_clinit
  · exact TypeScope.isValid_of_signature (TypeScope.isValid_build stubs unit.content)
      (isValid_of_mem isClass) resolved

/-- The class file of a class without private methods tells what its source did. -/
theorem classData_of_resolved (here : r ∈ unit.resolved stubs)
    (isOpen : ∀ m ∈ r.declared.decl.methods, m.modifiers.isPrivate = false)
    {scope : TypeScope} {all : List Declared} {file : String} {version : Version} {f : ClassFile}
    (emitted : emit (typeClass scope all file r).1 version = .ok f)
    (read : decode f.encode = .ok f) : f.classData = .ok r.data := by
  obtain ⟨isClass, -⟩ := heads_of_resolved here
  have valid : r.declared.name.IsValid :=
    isValid_of_mem isClass _ (List.mem_append_right _ List.mem_cons_self)
  have data := classData_of_emitted (emit_ok emitted) read valid (callable_of_resolved here isOpen)
  rw [data, Resolved.data, sourceData]
  simp only [typeClass, List.map_map]
  rfl

end Units

/-- Compilation succeeds when nothing is wrong and every class can be written. -/
theorem compile_iff_emits {external : ClassPath} {units : List SourceUnit} {version : Version}
    {compiled : List CompiledUnit} :
    compile external units version = .ok compiled ↔
      Accepts external units ∧
        List.Forall₂ (Emits version) (typedOf external units) compiled := by
  rw [compile_eq_ok, emitAll_eq_ok]
  simp only [List.reverse_nil, List.nil_append, exists_eq_left']

end JavaSnippet.Compile
