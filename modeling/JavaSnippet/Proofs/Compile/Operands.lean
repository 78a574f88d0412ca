import JavaSnippet.Proofs.Compile.Blocks
/-!
The operands of emitted code. Every instruction is read back from the bytes of its method, and every
constant that one names is there and of the kind that it needs.
-/
namespace JavaSnippet.Compile

open ClassFile Typing Machine

/-- The instruction is read back, and what it names is there. -/
structure Proper (t : ConstantTable) (i : Instruction) : Prop where
  readable : Readable i
  names : (Operation.of i).Names t

def AllProper (t : ConstantTable) (is : List Instruction) : Prop := ∀ i ∈ is, Proper t i

section Methods

variable {t : ConstantTable} {m : TypedMethod} {member : Member .method}

theorem AllProper.append {xs ys : List Instruction} (first : AllProper t xs)
    (others : AllProper t ys) : AllProper t (xs ++ ys) :=
  List.forall_mem_append.mpr ⟨first, others⟩

theorem Proper.alone {i : Instruction} (h : Proper t i) : AllProper t [i] :=
  List.forall_mem_singleton.mpr h

theorem allProper_plain {i : Instruction} (plain : Plain i) (names : (Operation.of i).Names t) :
    AllProper t [i] := Proper.alone ⟨.inl plain, names⟩

theorem allProper_of_codesCall {kind : InvokeKind} {owner : ClassName} {method : String}
    {type : MethodType} {i : Instruction} (h : CodesCall t kind owner method type i) :
    AllProper t [i] := by
  obtain ⟨index, ⟨ownerIndex, member, found, -⟩, rfl⟩ := h
  refine Proper.alone ⟨.inr ⟨kind, index, type, rfl⟩, ?_⟩
  cases kind with
  | static => exact ⟨ownerIndex, member, found⟩
  | special => exact ⟨ownerIndex, member, found⟩
  | virtual => exact ⟨ownerIndex, member, found⟩
  | interface => exact ⟨ownerIndex, member, found⟩

theorem allProper_newObject {index : PoolIndex} {name : String}
    (h : t.className? index = some name) : AllProper t [.newObject index, .dup] := by
  obtain ⟨text, found, -⟩ := ConstantTable.className?_eq_some.mp h
  have object : AllProper t [.newObject index] := allProper_plain trivial ⟨text, found⟩
  exact object.append (allProper_plain trivial trivial)

theorem composes_allProper (t : ConstantTable) : Composes t fun _ is => AllProper t is where
  nil := fun _ here => absurd here List.not_mem_nil
  append := AllProper.append
  plain _ plain names _ := allProper_plain plain names
  newObject := allProper_newObject
  call _ := allProper_of_codesCall

theorem HoldsCode.refers {a : Attribute} {bytes : List UInt8} (h : HoldsCode t a bytes) :
    a.Refers t := by
  have name := h.name
  refine ⟨⟨_, name⟩, fun same => ?_, fun same => ?_⟩
  · exact absurd (Option.some.inj (name.symm.trans same)) (by decide)
  · exact absurd (Option.some.inj (name.symm.trans same)) (by decide)

/-- The bytes of instructions that can be read are taken apart into their operations. -/
theorem HoldsCode.disassembled {a : Attribute} {is : List Instruction}
    (h : HoldsCode t a (is.flatMap Instruction.encode)) (only : member.attributes = [a])
    (proper : AllProper t is) :
    ∃ code, t.code? member = some code ∧ disassemble code.code = some (is.map Operation.of) := by
  obtain ⟨code, isCode, bytes⟩ := h.code? only
  have read := disassemble_encode fun i here => (proper i here).readable
  rw [← bytes] at read
  exact ⟨code, isCode, read⟩

/-- The method has a body that can be read to its end, and what it names is there. -/
def BodyRefers (t : ConstantTable) (member : Member .method) : Prop :=
  ∃ code, t.code? member = some code ∧ code.Refers t

theorem bodyRefers_of_holdsCode {a : Attribute} {is : List Instruction}
    (only : member.attributes = [a]) (h : HoldsCode t a (is.flatMap Instruction.encode))
    (proper : AllProper t is) : BodyRefers t member := by
  obtain ⟨maxStack, maxLocals, isCode⟩ := h.whole only
  have names : ∀ o ∈ is.map Operation.of, o.Names t :=
    List.forall_mem_map.mpr fun i here => (proper i here).names
  have read := disassemble_encode fun i here => (proper i here).readable
  exact ⟨_, isCode, ⟨_, read, names⟩, by simp, by simp⟩

theorem Written.disassembled (h : Written t m member) :
    ∃ parameters blocks, CodesStmts t m (startSlots m parameters)
        (m.signature.type.parameterSlots false) m.body blocks ∧
      ∃ code, t.code? member = some code ∧
        disassemble code.code = some ((closed m blocks).flatten.map Operation.of) := by
  obtain ⟨a, parameters, blocks, only, -, codes, holds⟩ := h.body
  exact ⟨parameters, blocks, codes,
    holds.disassembled only ((composes_allProper t).body codes)⟩

theorem Written.refers (h : Written t m member) : member.Refers t ∧ BodyRefers t member := by
  obtain ⟨a, parameters, blocks, only, -, codes, holds⟩ := h.body
  refine ⟨⟨⟨_, h.name⟩, ⟨_, h.descriptor⟩, ?_⟩, bodyRefers_of_holdsCode only holds
    ((composes_allProper t).body codes)⟩
  rw [only]
  exact List.forall_mem_singleton.mpr holds.refers

theorem Creates.refers (h : Creates t member) : member.Refers t ∧ BodyRefers t member := by
  obtain ⟨a, call, only, calls, holds⟩ := h.body
  refine ⟨⟨⟨_, h.name⟩, ⟨_, h.descriptor⟩, ?_⟩, bodyRefers_of_holdsCode only holds
    ((composes_allProper t).constructor calls)⟩
  rw [only]
  exact List.forall_mem_singleton.mpr holds.refers

theorem NamesInner.refers {nested : ClassName × ClassName × Source.Modifiers} {entry : InnerClass}
    (h : NamesInner t nested entry) : entry.Refers t :=
  ⟨⟨_, h.inner⟩, ⟨_, h.outer⟩, ⟨_, h.name⟩⟩

theorem NamesNested.refers {c : TypedClass} {attributes : List Attribute}
    (h : NamesNested t c attributes) : ∀ a ∈ attributes, a.Refers t := by
  obtain ⟨source, file, entries, rest, rfl, isSource, isFile, named, others⟩ := h.written
  refine List.forall_mem_cons.mpr
    ⟨⟨⟨_, isSource⟩, fun _ => ⟨file, _, rfl, isFile⟩, fun same => ?_⟩, ?_⟩
  · exact absurd (Option.some.inj (isSource.symm.trans same)) (by decide)
  · obtain ⟨-, rfl⟩ | ⟨name, isName, rfl⟩ := others
    · exact List.forall_mem_nil _
    · have each : ∀ entry ∈ entries, entry.Refers t := fun entry here => by
        obtain ⟨nested, -, isNamed⟩ := exists_of_forall₂ named here
        exact isNamed.refers
      refine List.forall_mem_singleton.mpr ⟨⟨_, isName⟩, fun same => ?_, fun _ => ⟨_, rfl, each⟩⟩
      exact absurd (Option.some.inj (isName.symm.trans same)) (by decide)

end Methods

end JavaSnippet.Compile
