import JavaSnippet.Proofs.ClassFile.Superclass
import JavaSnippet.Proofs.Compile.Emission
import JavaSnippet.Proofs.Compile.Typed
import JavaSnippet.Proofs.Typing.TypeScope
import Mathlib.Data.List.Forall2
/-!
Which results are read back as the class files they were made of. Every length is bounded by an
earlier check but two: that of a text and the number of methods.
-/
namespace JavaSnippet.Compile

open ClassFile Typing

theorem nesting_names (c : TypedClass) :
    c.nesting.map (·.1) = (c.outer.map fun _ => c.name).toList ++ c.members.map (·.1) := by
  unfold TypedClass.nesting
  cases c.outer <;> simp

/-- A class is not listed twice, and not among the classes inside it. -/
theorem nesting_nodup {external : ClassPath} {units : List SourceUnit} {c : TypedClass}
    (here : c ∈ (typeUnits external units).1) : (c.nesting.map (·.1)).Nodup := by
  obtain ⟨r, scope, file, resolved, -, rfl, -⟩ := typeClass_of_mem here
  rw [nesting_names]
  have unique : ((declaredIn units).map (·.name)).Nodup := distinct_nodup List.nodup_nil
  have members : (typeClass scope (declaredIn units) file r).1.members.map (·.1) =
      ((declaredIn units).filter fun d => d.outer == some r.declared.name).map (·.name) := by
    simp [typeClass]
  rw [members, List.nodup_append]
  refine ⟨?_, unique.sublist (List.filter_sublist.map _), ?_⟩
  · cases (typeClass scope (declaredIn units) file r).1.outer <;> simp
  · intro name isClass other inside same
    obtain rfl : r.declared.name = name := by
      obtain ⟨-, -, named⟩ := Option.map_eq_some_iff.mp (Option.mem_toList.mp isClass)
      exact named
    obtain ⟨d, within, rfl⟩ := List.mem_map.mp inside
    obtain ⟨declared, outer⟩ := List.mem_filter.mp within
    obtain ⟨inner, nested⟩ := placed_of_mem declared _ (by simpa using outer)
    exact nested_ne _ inner (nested.symm.trans same.symm)

theorem length_le_of_nodup {indices : List PoolIndex} (unique : indices.Nodup) :
    indices.length ≤ 65536 := by
  have inRange : indices.map UInt16.toNat ⊆ List.range 65536 := by
    intro n here
    obtain ⟨index, -, rfl⟩ := List.mem_map.mp here
    exact List.mem_range.mpr index.toNat_lt
  have distinct : (indices.map UInt16.toNat).Nodup :=
    List.Pairwise.map _ (fun a b differ same => differ (UInt16.toNat_inj.mp same)) unique
  have bounded := distinct.length_le_of_subset inRange
  rwa [List.length_map, List.length_range] at bounded

/-- The entries of a class are of different slots. -/
theorem nodup_inner {external : ClassPath} {units : List SourceUnit} {c : TypedClass}
    (here : c ∈ (typeUnits external units).1) {t : ConstantTable} {entries : List InnerClass}
    (named : List.Forall₂ (NamesInner t) c.nesting entries) : (entries.map (·.inner)).Nodup := by
  have names : entries.map (fun entry => t.className? entry.inner) =
      c.nesting.map fun entry => some entry.1.text := by
    rw [← List.forall₂_eq_eq_eq, List.forall₂_map_left_iff, List.forall₂_map_right_iff]
    exact (named.imp fun _ _ h => h.inner).flip
  have texts : (c.nesting.map fun entry => some entry.1.text).Nodup := by
    refine List.pairwise_map.mpr ((List.pairwise_map.mp (nesting_nodup here)).imp ?_)
    intro first second differ same
    exact differ (congrArg ClassName.mk (Option.some.inj same))
  rw [← names] at texts
  refine List.pairwise_map.mpr ((List.pairwise_map.mp texts).imp ?_)
  intro first second differ same
  exact differ (congrArg t.className? same)

theorem length_nesting {external : ClassPath} {units : List SourceUnit} {c : TypedClass}
    (here : c ∈ (typeUnits external units).1) {t : ConstantTable} {entries : List InnerClass}
    (named : List.Forall₂ (NamesInner t) c.nesting entries) : entries.length ≤ 65536 := by
  have bounded := length_le_of_nodup (nodup_inner here named)
  rwa [List.length_map] at bounded

theorem fits_of_holdsCode {t : ConstantTable} {a : Attribute} {bytes : List UInt8}
    (h : HoldsCode t a bytes) : a.Fits := by
  obtain ⟨maxStack, maxLocals, info⟩ := h.info
  have short := h.short
  simp only [Attribute.Fits, info, Code.encode, encodeList, List.length_append,
    Bytes.ofUInt16_length, Bytes.ofLength32_length, Bytes.ofLength16_length, List.flatMap_nil,
    List.length_nil]
  omega

theorem fits_of_written {t : ConstantTable} {m : TypedMethod} {member : Member .method}
    (h : Written t m member) (known : m.signature.flags.Known) : member.Fits := by
  obtain ⟨a, parameters, blocks, only, -, -, code⟩ := h.body
  refine ⟨?_, ?_, ?_⟩
  · rw [h.flags]
    exact known
  · intro b here
    rw [only] at here
    obtain rfl := List.mem_singleton.mp here
    exact fits_of_holdsCode code
  · rw [only, List.length_singleton]
    decide

theorem known_classFlags (m : Source.Modifiers) : (classFlags m).Known := by
  unfold classFlags
  refine Flags.Known.withBit (Flags.Known.withBit (Flags.Known.withBit ?_ ?_ _) ?_ _) ?_ _
  all_goals decide

theorem known_of_mem {external : ClassPath} {units : List SourceUnit} {c : TypedClass}
    (here : c ∈ (typeUnits external units).1) {m : TypedMethod} (method : m ∈ c.methods) :
    m.signature.flags.Known := by
  obtain ⟨headScope, context, declared, -, found, rfl, -⟩ := body_of_mem here method
  obtain ⟨-, flags, -⟩ := TypeScope.signature_ok found
  show context.signature.flags.Known
  rw [flags]
  exact TypeScope.known_methodFlags _

theorem regular_of_emit {external : ClassPath} {units : List SourceUnit} {c : TypedClass}
    (here : c ∈ (typeUnits external units).1) {version : Version} {f : ClassFile}
    (h : emit c version = .ok f) : Regular f := by
  have emitted := emit_ok h
  obtain ⟨create, a, bytes, others, all, flags, only, code, count, written⟩ := emitted.methods
  obtain ⟨few, entries, named, short⟩ := emitted.attributes.short
  have bounded := length_nesting here named
  refine ⟨emitted.built, emitted.bounded, ?_, ?_, ?_, ?_, ?_, by omega, ?_, ?_⟩
  · rw [emitted.flags]
    exact known_classFlags c.modifiers
  · rw [emitted.interfaces]
    decide
  · rw [emitted.fields]
    decide
  · rw [emitted.fields]
    simp
  · intro member isMember
    rw [all] at isMember
    rcases List.mem_cons.mp isMember with rfl | other
    · refine ⟨?_, ?_, ?_⟩
      · rw [flags]
        decide
      · intro b isCode
        rw [only] at isCode
        obtain rfl := List.mem_singleton.mp isCode
        exact fits_of_holdsCode code
      · rw [only, List.length_singleton]
        decide
    · obtain ⟨i, inside, rfl⟩ := List.mem_iff_getElem.mp other
      have method : i < c.methods.length := by omega
      obtain ⟨same, found, isWritten⟩ := written i _ (List.getElem?_eq_getElem method)
      rw [List.getElem?_eq_getElem inside] at found
      obtain rfl := Option.some.inj found
      exact fits_of_written isWritten (known_of_mem here (List.getElem_mem method))
  · intro b isAttribute
    have := short b isAttribute
    simp only [Attribute.Fits]
    omega
  · rw [emitted.thisClass]
    rfl

/-- A class file is read back when sixteen bits can count its texts and methods. -/
theorem decode_emitted_iff {external : ClassPath} {units : List SourceUnit} {c : TypedClass}
    (here : c ∈ (typeUnits external units).1) {version : Version} {f : ClassFile}
    (h : emit c version = .ok f) :
    decode f.encode = .ok f ↔
      (∀ text, Constant.utf8 text ∈ f.constants.elements →
        (Text.ModifiedUtf8.encode text).length ≤ 65535) ∧ c.methods.length < 65535 := by
  obtain ⟨create, a, bytes, others, all, -, -, -, count, -⟩ := (emit_ok h).methods
  have methods : f.methods.length = c.methods.length + 1 := by
    rw [all, List.length_cons, count]
  rw [decode_encode_iff (regular_of_emit here h), methods]
  constructor
  · rintro ⟨texts, few⟩
    exact ⟨fun text mem => Nat.le_of_lt_succ (texts _ mem), by omega⟩
  · rintro ⟨texts, few⟩
    refine ⟨?_, by omega⟩
    intro k mem
    cases k with
    | utf8 text => exact Nat.lt_succ_of_le (texts text mem)
    | _ => trivial

/-- The compiled unit is the class as it is written. -/
def Emits (version : Version) (c : TypedClass) (compiled : CompiledUnit) : Prop :=
  ∃ file, emit c version = .ok file ∧ compiled = ⟨c.name.dotted, file.encode⟩

theorem emitAll_eq_ok {version : Version} {cs : List TypedClass}
    {before written : List CompiledUnit} :
    emitAll version before cs = .ok written ↔
      ∃ new, written = before.reverse ++ new ∧ List.Forall₂ (Emits version) cs new := by
  induction cs generalizing before with
  | nil =>
    rw [emitAll]
    constructor
    · intro h
      exact ⟨[], by rw [List.append_nil, Except.ok.inj h], .nil⟩
    · rintro ⟨new, rfl, emits⟩
      cases emits
      rw [List.append_nil]
  | cons c cs ih =>
    rw [emitAll]
    cases emitted : emit c version with
    | error fault =>
      constructor
      · intro h
        cases h
      · rintro ⟨new, -, emits⟩
        obtain ⟨u, others, ⟨file, made, -⟩, -⟩ := List.forall₂_cons_left_iff.mp emits
        rw [emitted] at made
        cases made
    | ok file =>
      simp only
      rw [ih]
      constructor
      · rintro ⟨new, rfl, emits⟩
        exact ⟨⟨c.name.dotted, file.encode⟩ :: new, by simp, .cons ⟨file, emitted, rfl⟩ emits⟩
      · rintro ⟨new, rfl, emits⟩
        obtain ⟨u, others, ⟨other, made, rfl⟩, rest, rfl⟩ := List.forall₂_cons_left_iff.mp emits
        rw [emitted] at made
        obtain rfl := Except.ok.inj made
        exact ⟨others, by simp, rest⟩

theorem mem_compile {external : ClassPath} {units : List SourceUnit} {version : Version}
    {compiled : List CompiledUnit} (h : compile external units version = .ok compiled) :
    ∀ unit ∈ compiled, ∃ c ∈ (typeUnits external units).1, ∃ file,
      emit c version = .ok file ∧ unit = ⟨c.name.dotted, file.encode⟩ := by
  unfold compile at h
  simp only at h
  split at h
  · obtain ⟨new, rfl, emits⟩ := emitAll_eq_ok.mp h
    exact fun unit here => exists_of_forall₂ emits here
  · cases h

/-- The exact condition under which results are read back. A compiled class is when all of its texts
and its methods can be counted with sixteen bits, and a changed class when the text of its new super
class can; an unchanged class always is. -/
theorem read_back_iff (external : ClassPath) (units : List SourceUnit) (version : Version)
    (bytes : List UInt8) (source replacement : ClassName) :
    (∀ compiled, compile external units version = .ok compiled →
      ∀ unit ∈ compiled, ∃ c ∈ (typeUnits external units).1, ∃ file,
        emit c version = .ok file ∧ unit = ⟨c.name.dotted, file.encode⟩ ∧
          (decode unit.bytes = .ok file ↔
            (∀ text, Constant.utf8 text ∈ file.constants.elements →
              (Text.ModifiedUtf8.encode text).length ≤ 65535) ∧ c.methods.length < 65535)) ∧
    ∀ patch, replaceSuper bytes source replacement = .ok patch →
      ∃ before, decode bytes = .ok before ∧
        (patch = .unchanged ∨ ∃ output added index, patch = .changed output ∧
          Naming before.constants replacement.text added ∧
          ConstantTable.className? (before.constants.append added) index =
            some replacement.text ∧
          (decode output =
              .ok { before with
                constants := before.constants.append added
                superClass := index } ↔
            (Text.ModifiedUtf8.encode replacement.text).length ≤ 65535)) := by
  constructor
  · intro compiled h unit here
    obtain ⟨c, typed, file, emitted, rfl⟩ := mem_compile h unit here
    exact ⟨c, typed, file, emitted, rfl, decode_emitted_iff typed emitted⟩
  · intro patch h
    cases patch with
    | unchanged =>
      obtain ⟨before, read, -⟩ := replaceSuper_eq_unchanged.mp h
      exact ⟨before, read, .inl rfl⟩
    | changed output =>
      obtain ⟨before, added, index, read, naming, named, back⟩ := replaceSuper_reads_back h
      exact ⟨before, read, .inr ⟨output, added, index, rfl, naming, named, back⟩⟩

theorem read_back_bareClass :
    ∃ output after, replaceSuper bareClass.encode .object .magicAccessor = .ok (.changed output) ∧
      decode output = .ok after := by
  obtain ⟨output, changed⟩ := changes_bareClass
  obtain ⟨before, -, stays | ⟨same, added, index, isChanged, -, -, back⟩⟩ :=
    (read_back_iff .empty [] ⟨0, 52⟩ _ _ _).2 _ changed
  · cases stays
  · obtain rfl := Patch.changed.inj isChanged
    exact ⟨output, _, changed, back.mpr (by decide)⟩

end JavaSnippet.Compile
