import JavaSnippet.Proofs.Compile.Variables
/-!
The headers of emitted classes and methods. They say what was declared, and nothing is refused: a
header breaks a rule of class files exactly when the declaration does, by modifiers that exclude
each other or by too many parameters.
-/
namespace JavaSnippet.Source

/-- Whether values of the type take two slots. -/
def TypeName.isWide (type : TypeName) : Bool :=
  BaseType.ofKeyword? (type.path.joined ".") == some .long && type.dimensions == 0

namespace MethodDecl

variable (m : MethodDecl)

/-- The slots that the parameters take, one each and one more for each wide one. -/
def parameterSlots : Nat := m.parameters.length + m.parameters.countP (·.type.isWide)

/-- The declared head is one that a class file may have. -/
structure HasLegalHead : Prop where
  access : [m.modifiers.isPublic, m.modifiers.isPrivate, m.modifiers.isProtected].count true ≤ 1
  slots : m.parameterSlots ≤ 255

end MethodDecl

end JavaSnippet.Source

namespace JavaSnippet.Compile

open Typing Source ClassFile

/-- The method has at most one of the access flags, and its parameters and its receiver take no more
than 255 slots. -/
structure LegalMethod (t : ConstantTable) (member : Member .method) : Prop where
  access : [Flag.isPublic, Flag.isPrivate, Flag.isProtected].countP member.flags.contains ≤ 1
  slots : ∃ text type, t.utf8? member.descriptor = some text ∧ MethodType.parse text = .ok type ∧
    type.parameterSlots (!member.flags.isStatic) ≤ 255

/-- No class is both final and abstract. -/
def LegalClass (f : ClassFile) : Prop :=
  ¬(f.flags.contains Flag.isFinal = true ∧ f.flags.contains Flag.isAbstract = true)

/-- The headers in a class file are legal as far as those in the declaration are. The constructor,
which is not declared, is. -/
structure HeadersFollow (decl : ClassDecl) (f : ClassFile) : Prop where
  flags : LegalClass f ↔ ¬(decl.modifiers.isFinal = true ∧ decl.modifiers.isAbstract = true)
  methods : ∃ create members, f.methods = create :: members ∧ LegalMethod f.constants create ∧
    List.Forall₂ (fun m member => LegalMethod f.constants member ↔ m.HasLegalHead) decl.methods
      members

section Heads

variable {scope : TypeScope} {enclosing : List ClassName}

theorem width_of_resolveType {type : TypeName} {t : FieldType}
    (h : scope.resolveType type enclosing = .ok t) : width t = if type.isWide then 2 else 1 := by
  obtain ⟨path, dimensions, line⟩ := type
  unfold TypeName.isWide
  obtain ⟨b, keyword, integral, rfl⟩ | ⟨keyword, name, -, rfl⟩ := TypeScope.resolveType_ok h
  · simp only at keyword
    simp only [keyword]
    cases dimensions with
    | succ n => simp [width, FieldType.base?]
    | zero =>
      cases b with
      | float | double => cases integral
      | _ => rfl
  · simp only at keyword
    simp only [keyword]
    rfl

theorem totalWidth_of_resolves {m : MethodDecl} {type : MethodType}
    (h : Resolves scope enclosing m type) : type.parameterSlots false = m.parameterSlots := by
  have slots := h.parameters
  unfold MethodType.parameterSlots MethodDecl.parameterSlots
  rw [if_neg Bool.false_ne_true, Nat.zero_add]
  generalize m.parameters = ps, type.parameters = ts at slots
  induction slots with
  | nil => rfl
  | cons first _ ih =>
    rw [totalWidth, ih, width_of_resolveType first, List.length_cons, List.countP_cons]
    split
    · omega
    · omega

theorem access_methodFlags (m : Modifiers) :
    [Flag.isPublic, Flag.isPrivate, Flag.isProtected].countP (TypeScope.methodFlags m).contains =
      [m.isPublic, m.isPrivate, m.isProtected].count true := by
  obtain ⟨isPublic, isProtected, isPrivate, isStatic, isFinal, isAbstract⟩ := m
  revert isPublic isProtected isPrivate isStatic isFinal isAbstract
  decide

theorem final_classFlags (m : Modifiers) : (classFlags m).contains Flag.isFinal = m.isFinal := by
  obtain ⟨isPublic, isProtected, isPrivate, isStatic, isFinal, isAbstract⟩ := m
  revert isPublic isProtected isPrivate isStatic isFinal isAbstract
  decide

theorem abstract_classFlags (m : Modifiers) :
    (classFlags m).contains Flag.isAbstract = m.isAbstract := by
  obtain ⟨isPublic, isProtected, isPrivate, isStatic, isFinal, isAbstract⟩ := m
  revert isPublic isProtected isPrivate isStatic isFinal isAbstract
  decide

end Heads

section Output

variable {external : ClassPath} {units : List SourceUnit} {version : Version}

theorem legal_of_creates {t : ConstantTable} {member : Member .method}
    (flags : member.flags = ⟨Flag.isPublic⟩) (creates : Creates t member) :
    LegalMethod t member := by
  refine ⟨?_, _, noArguments, creates.descriptor, MethodType.parse_render isValid_noArguments, ?_⟩
  · rw [flags]
    decide
  · rw [flags]
    decide

theorem legal_iff_of_written {t : ConstantTable} {scope : TypeScope} {d : Declared}
    {head : Signature × MethodDecl} {m : TypedMethod} {member : Member .method}
    (isHead : IsHead scope d head) (valid : head.1.type.IsValid) (same : m.signature = head.1)
    (h : Written t m member) : LegalMethod t member ↔ head.2.HasLegalHead := by
  obtain ⟨name, flags, -⟩ := TypeScope.signature_ok isHead.resolved
  have isFlags : member.flags = TypeScope.methodFlags head.2.modifiers := by
    rw [h.flags, same, flags]
  have descriptor : t.utf8? member.descriptor = some head.1.type.render := by
    rw [h.descriptor, same]
  have slots : head.1.type.parameterSlots (!member.flags.isStatic) = head.2.parameterSlots := by
    rw [isFlags, TypeScope.isStatic_methodFlags, isHead.isStatic]
    exact totalWidth_of_resolves (resolves_of_signature isHead.resolved)
  constructor
  · rintro ⟨access, text, type, isText, read, few⟩
    obtain rfl := Option.some.inj (descriptor.symm.trans isText)
    obtain rfl := Except.ok.inj ((MethodType.parse_render valid).symm.trans read)
    rw [isFlags, access_methodFlags] at access
    rw [slots] at few
    exact ⟨access, few⟩
  · rintro ⟨access, few⟩
    refine ⟨?_, _, _, descriptor, MethodType.parse_render valid, ?_⟩
    · rw [isFlags, access_methodFlags]
      exact access
    · rw [slots]
      exact few

/-- Whatever is declared is emitted: a header is legal if and only if its declaration is. -/
theorem compile_headers {compiled : List CompiledUnit}
    (h : compile external units version = .ok compiled) :
    List.Forall₂ (fun x (u : CompiledUnit) => ∃ f,
        emit (typedFor external units x) version = .ok f ∧
          u = ⟨x.2.name.dotted, f.encode⟩ ∧ HeadersFollow x.2.decl f)
      (declarations units) compiled := by
  obtain ⟨accepts, emits⟩ := compile_iff_emits.mp h
  rw [typedOf_eq_map accepts] at emits
  refine ((List.forall₂_and_left _ _).mpr ⟨fun _ here => here,
    List.forall₂_map_left_iff.mp emits⟩).imp ?_
  rintro x u ⟨here, f, emitted, rfl⟩
  obtain ⟨-, isClass⟩ := mem_classes_of_declarations accepts here
  obtain ⟨-, none⟩ := mem_declarations accepts here
  have isEmitted := emit_ok emitted
  obtain ⟨create, members, methods, flags, creates, written⟩ := members_of_emitted isEmitted
  refine ⟨f, emitted, rfl, ?_, create, members, methods, legal_of_creates flags creates, ?_⟩
  · rw [LegalClass, isEmitted.flags, final_classFlags, abstract_classFlags]
    rfl
  · have each : ∀ head ∈ (headsOf (x.1.scope (stubsOf external units)) x.2).found.reverse,
        IsHead (x.1.scope (stubsOf external units)) x.2 head :=
      fun head mem => isHead_of_headsOf head (List.mem_reverse.mp mem)
    rw [← methods_of_headsOf none, List.forall₂_map_left_iff]
    have typed := List.forall₂_map_left_iff.mp (List.forall₂_map_left_iff.mp written)
    refine ((List.forall₂_and_left _ _).mpr ⟨each, typed⟩).imp ?_
    rintro head member ⟨isHead, isWritten⟩
    have valid := TypeScope.isValid_of_signature
      (TypeScope.isValid_build (stubsOf external units) x.1.content) (isValid_of_mem isClass)
      isHead.resolved
    exact legal_iff_of_written isHead valid rfl isWritten

/-- The class of the unit is final and abstract, and its method public and private. -/
theorem compile_headers_careless :
    ∃ f : ClassFile, compile .empty [carelessUnit] ⟨0, 52⟩ = .ok [⟨"A", f.encode⟩] ∧
      ¬LegalClass f ∧ ∃ create member, f.methods = [create, member] ∧
        LegalMethod f.constants create ∧ ¬LegalMethod f.constants member := by
  obtain ⟨g, h⟩ := compile_careless
  have headers := compile_headers h
  rw [declarations_careless] at headers
  obtain ⟨first, rest, ⟨f, -, rfl, flags, create, members, methods, legal, each⟩, last, isFirst⟩ :=
    List.forall₂_cons_left_iff.mp headers
  obtain ⟨member, others, follows, empty, rfl⟩ := List.forall₂_cons_left_iff.mp each
  obtain rfl := List.forall₂_nil_left_iff.mp last
  obtain rfl := List.forall₂_nil_left_iff.mp empty
  have name : (⟨"A"⟩ : ClassName).dotted = "A" := by decide
  refine ⟨f, by rw [h, isFirst, name], ?_, create, member, methods, legal, ?_⟩
  · rw [flags]
    decide
  · rw [follows]
    exact fun legalHead => absurd legalHead.access (by decide)

end Output

end JavaSnippet.Compile
