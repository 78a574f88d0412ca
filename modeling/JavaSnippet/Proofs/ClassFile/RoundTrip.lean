import JavaSnippet.Proofs.ClassFile.Pool
import JavaSnippet.Proofs.ClassFile.Reading
/-!
Class files that are written and read back. Bytes are read as a class file exactly when they are its
sections put together, so that one section can be replaced without reading the others again. What a
length field of sixteen bits can count is read back as it was, and nothing else is.
-/
namespace JavaSnippet.ClassFile

section Parts

theorem Reads.step {α β : Type} {x : Read α} {front : List UInt8} {a : α} (h : Reads x front a)
    (f : α → Read β) (rest : List UInt8) (offset : Nat) :
    (x >>= f) ⟨front ++ rest, offset⟩ = f a ⟨rest, offset + front.length⟩ := by
  rw [StateExcept.bind_apply, h]

theorem Read.offset_step {α : Type} (f : Nat → Read α) (input : Input) :
    (Read.offset >>= f) input = f input.offset input := rfl

theorem Read.atEnd_step {α : Type} (f : Bool → Read α) (input : Input) :
    (Read.atEnd >>= f) input = f input.rest.isEmpty input := rfl

theorem Read.run_eq_ok {α : Type} {read : Read α} {input : List UInt8} {a : α} :
    read.run input = .ok a ↔ ∃ output, read ⟨input, 0⟩ = .ok (a, output) := by
  rw [Read.run, StateT.run, except_map_eq_ok]
  simp

theorem reads_constants {t : ConstantTable} {bytes : List UInt8} (bounded : t.next < 65536)
    (filled : Fills (t.next - 1) .empty bytes t) :
    Reads Read.constants (Bytes.ofLength16 t.next ++ bytes) t := by
  have grown : t.next = 1 + (t.next - 1) := filled.next
  have some : t.next.toUInt16 ≠ 0 := by
    intro zero
    have := congrArg UInt16.toNat zero
    rw [Text.Utf16.toNat_toUInt16 bounded] at this
    simp only [UInt16.toNat_zero] at this
    omega
  refine (reads_length16 bounded).bind ?_
  rw [if_neg some, Text.Utf16.toNat_toUInt16 bounded]
  exact filled.reads

theorem constants_ok {t : ConstantTable} {input output : Input}
    (h : Read.constants input = .ok (t, output)) :
    t.next < 65536 ∧ ∃ bytes, Between input (Bytes.ofLength16 t.next ++ bytes) output ∧
      Fills (t.next - 1) .empty bytes t := by
  obtain ⟨count, middle, isCount, rest⟩ := StateExcept.bind_eq_ok.mp h
  have before := u16_ok isCount
  split at rest
  · cases rest
  · rename_i some
    obtain ⟨bytes, after, filled⟩ := constantsInto_ok rest
    have positive : count.toNat ≠ 0 := fun zero => some (UInt16.toNat_inj.mp zero)
    have next : t.next = count.toNat := by
      have grown : t.next = 1 + (count.toNat - 1) := filled.next
      omega
    rw [next]
    exact ⟨count.toNat_lt, bytes, before.append after, filled⟩

/-- The sections of a class file that its content does not spell out. -/
structure Sections where
  pool : List UInt8
  /-- The flag bits, also those without a meaning. -/
  flags : UInt16
  interfaces : List UInt8
  fields : List UInt8
  methods : List UInt8
  attributes : List UInt8

namespace Sections

variable (s : Sections)

/-- The bytes after the index of the super class. -/
def tail : List UInt8 := s.interfaces ++ (s.fields ++ (s.methods ++ s.attributes))

/-- The bytes of a class file with these sections. -/
def bytes (c : ClassFile) : List UInt8 :=
  magic ++ (Bytes.ofUInt16 c.version.minor ++ (Bytes.ofUInt16 c.version.major ++
    (Bytes.ofLength16 c.constants.next ++ s.pool ++ (Bytes.ofUInt16 s.flags ++
      (Bytes.ofUInt16 c.thisClass ++ (Bytes.ofUInt16 c.superClass ++ s.tail))))))

/-- The layout of the bytes. -/
def layout : Layout := ⟨8, 10 + s.pool.length⟩

/-- Every section is the one of a class file. -/
structure Spell (c : ClassFile) : Prop where
  bounded : c.constants.next < 65536
  pool : Fills (c.constants.next - 1) .empty s.pool c.constants
  flags : c.flags = .ofBits s.flags
  interfaces : Reads (Read.list Read.u16) s.interfaces c.interfaces
  fields : Reads (Read.list Read.member) s.fields c.fields
  methods : Reads (Read.list Read.member) s.methods c.methods
  attributes : Reads (Read.list Read.attributeInfo) s.attributes c.attributes
  named : (c.constants.className? c.thisClass).isSome

end Sections

theorem reads_flags {owner : FlagOwner} (raw : UInt16) :
    Reads (Read.flags : Read (Flags owner)) (Bytes.ofUInt16 raw) (.ofBits raw) :=
  (reads_u16 raw).map Flags.ofBits rfl

/-- Flags without other bits are read as they are. -/
theorem reads_known {owner : FlagOwner} {flags : Flags owner}
    (known : Flags.ofBits flags.bits = flags) :
    Reads (Read.flags : Read (Flags owner)) (Bytes.ofUInt16 flags.bits) flags := by
  have read : Reads Read.flags (Bytes.ofUInt16 flags.bits) (.ofBits flags.bits : Flags owner) :=
    reads_flags flags.bits
  rwa [known] at read

theorem flags_ok {owner : FlagOwner} {input output : Input} {flags : Flags owner}
    (h : Read.flags input = .ok (flags, output)) :
    ∃ raw, Between input (Bytes.ofUInt16 raw) output ∧ .ofBits raw = flags := by
  obtain ⟨raw, middle, isRaw, done⟩ := StateExcept.bind_eq_ok.mp h
  obtain ⟨rfl, rfl⟩ := Prod.mk.inj (Except.ok.inj done)
  exact ⟨raw, u16_ok isRaw, rfl⟩

theorem delimited_flags {owner : FlagOwner} : Delimited (Read.flags : Read (Flags owner)) :=
  delimited_u16.map Flags.ofBits

theorem delimited_attributeInfo : Delimited Read.attributeInfo :=
  delimited_u16.bind fun name => delimited_u32.bind fun length =>
    (delimited_bytes length).map (Attribute.mk name)

theorem delimited_member {owner : FlagOwner} :
    Delimited (Read.member : Read (Member owner)) :=
  delimited_flags.bind fun flags => delimited_u16.bind fun name =>
    delimited_u16.bind fun descriptor =>
      delimited_attributeInfo.list.map (Member.mk flags name descriptor)

namespace Sections

/-- The sections of a class file are read as the class file. -/
theorem decodeWithLayout_bytes {s : Sections} {c : ClassFile} (h : s.Spell c) :
    decodeWithLayout (s.bytes c) = .ok (c, s.layout) := by
  have start : Reads (Read.bytes 4) magic magic := reads_bytes magic
  have flags : Reads (Read.flags : Read (Flags .classFile)) (Bytes.ofUInt16 s.flags) c.flags := by
    rw [h.flags]
    exact reads_flags s.flags
  unfold decodeWithLayout Read.run StateT.run readClassFile bytes tail
  rw [← List.append_nil s.attributes, start.step]
  simp only [ne_eq, not_true_eq_false, if_false]
  rw [(reads_u16 c.version.minor).step, (reads_u16 c.version.major).step]
  rw [Read.offset_step, (reads_constants h.bounded h.pool).step, Read.offset_step, flags.step,
    (reads_u16 c.thisClass).step, (reads_u16 c.superClass).step, h.interfaces.step, h.fields.step,
    h.methods.step, h.attributes.step, Read.atEnd_step]
  have found : (c.constants.className? c.thisClass).isNone = false := by
    rw [← Option.not_isSome, h.named]
    rfl
  simp only [List.isEmpty_nil, Bool.not_true, Bool.false_eq_true, if_false, found]
  rw [Read.pure_apply]
  simp only [Except.map, layout, List.length_append, Bytes.ofLength16_length,
    Bytes.ofUInt16_length, magic, List.length_cons, List.length_nil]
  congr 3
  omega

/-- What is read as a class file is the sections of it. -/
theorem of_decodeWithLayout {input : List UInt8} {c : ClassFile} {layout : Layout}
    (h : decodeWithLayout input = .ok (c, layout)) :
    ∃ s : Sections, s.Spell c ∧ input = s.bytes c ∧ layout = s.layout := by
  obtain ⟨output, read⟩ := Read.run_eq_ok.mp h
  unfold readClassFile at read
  obtain ⟨start, afterMagic, isMagic, read⟩ := StateExcept.bind_eq_ok.mp read
  obtain ⟨-, magicBetween⟩ := bytes_ok isMagic
  split at read
  · cases read
  rename_i right
  obtain rfl : start = magic := by simpa using right
  obtain ⟨minor, afterMinor, isMinor, read⟩ := StateExcept.bind_eq_ok.mp read
  obtain ⟨major, afterMajor, isMajor, read⟩ := StateExcept.bind_eq_ok.mp read
  rw [Read.offset_step] at read
  obtain ⟨constants, afterPool, isPool, read⟩ := StateExcept.bind_eq_ok.mp read
  rw [Read.offset_step] at read
  obtain ⟨flags, afterFlags, isFlags, read⟩ := StateExcept.bind_eq_ok.mp read
  obtain ⟨thisClass, afterThis, isThis, read⟩ := StateExcept.bind_eq_ok.mp read
  obtain ⟨superClass, afterSuper, isSuper, read⟩ := StateExcept.bind_eq_ok.mp read
  obtain ⟨interfaces, afterInterfaces, areInterfaces, read⟩ := StateExcept.bind_eq_ok.mp read
  obtain ⟨fields, afterFields, areFields, read⟩ := StateExcept.bind_eq_ok.mp read
  obtain ⟨methods, afterMethods, areMethods, read⟩ := StateExcept.bind_eq_ok.mp read
  obtain ⟨attributes, afterAttributes, areAttributes, read⟩ := StateExcept.bind_eq_ok.mp read
  rw [Read.atEnd_step] at read
  split at read
  · cases read
  rename_i atEnd
  split at read
  · cases read
  rename_i named
  obtain ⟨content, rfl⟩ := Prod.mk.inj (Except.ok.inj read)
  obtain ⟨rfl, rfl⟩ := Prod.mk.inj content
  obtain ⟨bounded, pool, poolBetween, filled⟩ := constants_ok isPool
  obtain ⟨raw, flagsBetween, rfl⟩ := flags_ok isFlags
  obtain ⟨interfaceBytes, interfacesBetween, readsInterfaces⟩ :=
    delimited_u16.list _ _ _ areInterfaces
  obtain ⟨fieldBytes, fieldsBetween, readsFields⟩ := delimited_member.list _ _ _ areFields
  obtain ⟨methodBytes, methodsBetween, readsMethods⟩ := delimited_member.list _ _ _ areMethods
  obtain ⟨attributeBytes, attributesBetween, readsAttributes⟩ :=
    delimited_attributeInfo.list _ _ _ areAttributes
  refine ⟨⟨pool, raw, interfaceBytes, fieldBytes, methodBytes, attributeBytes⟩,
    ⟨bounded, filled, rfl, readsInterfaces, readsFields, readsMethods, readsAttributes, ?_⟩, ?_, ?_⟩
  · rwa [Bool.not_eq_true, Option.isNone_eq_false_iff] at named
  · have ended : afterAttributes.rest = [] := by simpa using atEnd
    have whole := magicBetween.append <| (u16_ok isMinor).append <| (u16_ok isMajor).append <|
      poolBetween.append <| flagsBetween.append <| (u16_ok isThis).append <|
      (u16_ok isSuper).append <| interfacesBetween.append <| fieldsBetween.append <|
      methodsBetween.append attributesBetween
    have := whole.1
    rw [ended, List.append_nil] at this
    exact this
  · have beforePool := magicBetween.append <| (u16_ok isMinor).append (u16_ok isMajor)
    rw [poolBetween.2, beforePool.2]
    simp only [Sections.layout, List.length_append, Bytes.ofLength16_length,
      Bytes.ofUInt16_length, magic, List.length_cons, List.length_nil]
    congr 1
    omega

end Sections

theorem decode_eq_ok {bytes : List UInt8} {c : ClassFile} :
    decode bytes = .ok c ↔ ∃ layout, decodeWithLayout bytes = .ok (c, layout) := by
  rw [decode, except_map_eq_ok]
  simp

end Parts

def Attribute.Fits (a : Attribute) : Prop := a.info.length < 4294967296

structure Member.Fits {owner : FlagOwner} (m : Member owner) : Prop where
  flags : Flags.ofBits m.flags.bits = m.flags
  attributes : ∀ a ∈ m.attributes, a.Fits
  count : m.attributes.length < 65536

theorem reads_attributeInfo {a : Attribute} (fits : a.Fits) :
    Reads Read.attributeInfo a.encode a := by
  unfold Attribute.encode
  rw [List.append_assoc]
  exact (reads_u16 a.name).bind <| (reads_u32 fits).bind <|
    (reads_bytes a.info).map (Attribute.mk a.name) rfl

theorem reads_member {owner : FlagOwner} {m : Member owner} (fits : m.Fits) :
    Reads Read.member m.encode m := by
  have attributes : Reads (Read.list Read.attributeInfo)
      (encodeList Attribute.encode m.attributes) m.attributes :=
    Reads.list (fun a mem => reads_attributeInfo (fits.attributes a mem)) fits.count
  unfold Member.encode
  rw [List.append_assoc, List.append_assoc]
  exact (reads_known fits.flags).bind <| (reads_u16 m.name).bind <|
    (reads_u16 m.descriptor).bind <| attributes.map (Member.mk m.flags m.name m.descriptor) rfl

structure Code.Fits (c : Code) : Prop where
  size : c.code.length < 4294967296
  handlerCount : c.handlers.length < 65536
  attributes : ∀ a ∈ c.attributes, a.Fits
  count : c.attributes.length < 65536

theorem reads_handler (h : Handler) : Reads Read.handler h.encode h := by
  unfold Handler.encode
  rw [List.append_assoc, List.append_assoc]
  exact (reads_u16 h.start).bind <| (reads_u16 h.stop).bind <| (reads_u16 h.target).bind <|
    (reads_u16 h.catchType).map (Handler.mk h.start h.stop h.target) rfl

/-- The body of a method, as a reader of the class file finds it. -/
def ConstantTable.code? (t : ConstantTable) (m : Member .method) : Option Code :=
  match m.attributes.find? fun a => t.utf8? a.name == some "Code" with
  | some a => (Code.decode a.info).toOption
  | none => none

theorem decode_encode_code {c : Code} (fits : c.Fits) : Code.decode c.encode = .ok c := by
  have handlers : Reads (Read.list Read.handler) (encodeList Handler.encode c.handlers)
      c.handlers := Reads.list (fun h _ => reads_handler h) fits.handlerCount
  have attributes : Reads (Read.list Read.attributeInfo)
      (encodeList Attribute.encode c.attributes) c.attributes :=
    Reads.list (fun a mem => reads_attributeInfo (fits.attributes a mem)) fits.count
  apply Read.run_eq_ok.mpr
  unfold Read.code Code.encode
  rw [List.append_assoc, ← List.append_nil (encodeList Attribute.encode c.attributes),
    (reads_u16 c.maxStack).step, (reads_u16 c.maxLocals).step, (reads_u32 fits.size).step,
    (reads_bytes c.code).step, handlers.step, attributes.step, Read.atEnd_step]
  exact ⟨_, rfl⟩

/-- The content is what class files can hold, but for the length of texts and the number of
methods. -/
structure Regular (c : ClassFile) : Prop where
  built : ∃ cs, c.constants = ConstantTable.empty.append cs
  bounded : c.constants.next < 65536
  flags : Flags.ofBits c.flags.bits = c.flags
  interfaces : c.interfaces.length < 65536
  fieldCount : c.fields.length < 65536
  fields : ∀ m ∈ c.fields, m.Fits
  methods : ∀ m ∈ c.methods, m.Fits
  attributeCount : c.attributes.length < 65536
  attributes : ∀ a ∈ c.attributes, a.Fits
  named : (c.constants.className? c.thisClass).isSome

/-- The sections that are written. -/
def written (c : ClassFile) : Sections :=
  ⟨c.constants.elements.flatMap Constant.encode, c.flags.bits,
    encodeList Bytes.ofUInt16 c.interfaces, encodeList Member.encode c.fields,
    encodeList Member.encode c.methods, encodeList Attribute.encode c.attributes⟩

theorem encode_eq_bytes (c : ClassFile) : c.encode = (written c).bytes c := by
  simp only [ClassFile.encode, Sections.bytes, Sections.tail, written, Version.encode,
    ConstantTable.encode, List.append_assoc]

theorem fills_elements {t : ConstantTable} (built : ∃ cs, t = ConstantTable.empty.append cs)
    (fits : ∀ k ∈ t.elements, k.Fits) :
    Fills (t.next - 1) .empty (t.elements.flatMap Constant.encode) t := by
  obtain ⟨cs, rfl⟩ := built
  have all : (ConstantTable.empty.append cs).elements = cs :=
    SlotTable.elements_append ConstantTable.empty cs
  rw [all] at fits ⊢
  exact Fills.elements cs fits .empty

theorem spell_written {c : ClassFile} (h : Regular c) (fits : ∀ k ∈ c.constants.elements, k.Fits)
    (count : c.methods.length < 65536) : (written c).Spell c where
  bounded := h.bounded
  pool := fills_elements h.built fits
  flags := h.flags.symm
  interfaces := Reads.list (fun v _ => reads_u16 v) h.interfaces
  fields := Reads.list (fun m mem => reads_member (h.fields m mem)) h.fieldCount
  methods := Reads.list (fun m mem => reads_member (h.methods m mem)) count
  attributes := Reads.list (fun a mem => reads_attributeInfo (h.attributes a mem)) h.attributeCount
  named := h.named

theorem fits_of_spell {s : Sections} {c : ClassFile} (h : s.Spell c) :
    ∀ k ∈ c.constants.elements, k.Fits :=
  h.pool.fits (by simp [ConstantTable.empty, SlotTable.elements])

theorem length_of_reads_list {α : Type} {item : Read α} {bytes : List UInt8} {items : List α}
    (h : Reads (Read.list item) bytes items) : items.length < 65536 :=
  list_ok_length (h [] 0)

/-- A class file is read back exactly when its texts and its methods can be counted. -/
theorem decode_encode_iff {c : ClassFile} (h : Regular c) :
    decode c.encode = .ok c ↔
      (∀ k ∈ c.constants.elements, k.Fits) ∧ c.methods.length < 65536 := by
  constructor
  · intro back
    obtain ⟨layout, read⟩ := decode_eq_ok.mp back
    obtain ⟨s, spell, -, -⟩ := Sections.of_decodeWithLayout read
    exact ⟨fits_of_spell spell, length_of_reads_list spell.methods⟩
  · rintro ⟨fits, count⟩
    rw [encode_eq_bytes]
    exact decode_eq_ok.mpr ⟨_, Sections.decodeWithLayout_bytes (spell_written h fits count)⟩

/-- The content is what class files can hold. -/
structure Encodable (c : ClassFile) : Prop extends Regular c where
  texts : ∀ text, Constant.utf8 text ∈ c.constants.elements →
    (Text.ModifiedUtf8.encode text).length ≤ 65535
  methodCount : c.methods.length ≤ 65535

theorem Encodable.fits {c : ClassFile} (h : Encodable c) : ∀ k ∈ c.constants.elements, k.Fits := by
  intro k mem
  cases k with
  | utf8 text => exact Nat.lt_succ_of_le (h.texts text mem)
  | _ => trivial

/-- Whatever class files and `Code` attributes can hold is read back from them. -/
theorem read_back_written :
    (∀ c : ClassFile, Encodable c → decode c.encode = .ok c) ∧
      ∀ code : Code, code.Fits → Code.decode code.encode = .ok code := by
  refine ⟨fun c encodable => ?_, fun code fits => decode_encode_code fits⟩
  exact (decode_encode_iff encodable.toRegular).mpr
    ⟨encodable.fits, Nat.lt_succ_of_le encodable.methodCount⟩

def sampleCode : Code where
  maxStack := 1
  maxLocals := 2
  code := [0x03, 0x57, 0xB1]
  handlers := [⟨0, 2, 2, 2⟩]
  attributes := [⟨1, [0xFF]⟩]

/-- Constants of both widths and a text with units of each length, a field, and a method with a
body. -/
def sampleClass : ClassFile where
  version := .java8
  constants := ConstantTable.empty.append
    [.utf8 "A", .classRef 1, .long (-2), .utf8 "\x00é𝄞", .double 0x7FF8000000000001, .utf8 "Code",
      .utf8 "I", .utf8 "()V"]
  flags := ⟨Flag.isSuper⟩
  thisClass := 2
  superClass := 0
  interfaces := [2]
  fields := [⟨⟨Flag.isStatic⟩, 5, 9, []⟩]
  methods := [⟨⟨Flag.isStatic⟩, 5, 10, [⟨8, sampleCode.encode⟩]⟩]
  attributes := []

theorem className?_sampleClass : sampleClass.constants.className? 2 = some "A" := by
  have ascending : sampleClass.constants.Ascending := ConstantTable.ascending_filled _
  exact ConstantTable.className?_of_mem ascending 1 (by decide) (by decide)

theorem encodable_sampleClass : Encodable sampleClass where
  built := ⟨_, rfl⟩
  bounded := by decide
  flags := by decide
  interfaces := by decide
  fieldCount := by decide
  fields := List.forall_mem_singleton.mpr ⟨by decide, by simp, by decide⟩
  methods := List.forall_mem_singleton.mpr
    ⟨by decide, List.forall_mem_singleton.mpr (by unfold Attribute.Fits; decide), by decide⟩
  attributeCount := by decide
  attributes := by simp [sampleClass]
  named := Option.isSome_of_eq_some className?_sampleClass
  texts := by
    intro text mem
    have listed : Constant.utf8 text ∈ [Constant.utf8 "A", .classRef 1, .long (-2),
        .utf8 "\x00é𝄞", .double 0x7FF8000000000001, .utf8 "Code", .utf8 "I", .utf8 "()V"] := mem
    simp only [List.mem_cons, List.not_mem_nil, or_false, Constant.utf8.injEq, reduceCtorEq,
      false_or] at listed
    rcases listed with rfl | rfl | rfl | rfl | rfl <;> decide
  methodCount := by decide

theorem fits_sampleCode : sampleCode.Fits where
  size := by decide
  handlerCount := by decide
  attributes := List.forall_mem_singleton.mpr (by unfold Attribute.Fits; decide)
  count := by decide

theorem read_back_written_sample :
    decode sampleClass.encode = .ok sampleClass ∧ Code.decode sampleCode.encode = .ok sampleCode :=
  ⟨read_back_written.1 sampleClass encodable_sampleClass,
    read_back_written.2 sampleCode fits_sampleCode⟩

end JavaSnippet.ClassFile
