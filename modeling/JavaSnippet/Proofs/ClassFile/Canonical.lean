import JavaSnippet.Proofs.ClassFile.Spelling
import Mathlib
/-!
When a class file that was read is written back byte for byte. Bytes that are read spell exactly one
class file, and it is written back as it was when its flag words have no bits without a meaning and
its texts are spelled by their encodings.
-/
namespace JavaSnippet.ClassFile

/-- The attributes of a member can be counted. -/
structure Member.Counted {owner : FlagOwner} (m : Member owner) : Prop where
  attributes : ∀ a ∈ m.attributes, a.Fits
  count : m.attributes.length < 65536

/-- The member that is read, without the flag bits that mean nothing. -/
def Member.masked {owner : FlagOwner} (m : Member owner) : Member owner :=
  { m with flags := .ofBits m.flags.bits }

theorem Member.masked_of_known {owner : FlagOwner} {m : Member owner} (known : m.flags.Known) :
    m.masked = m := by
  rw [Member.masked, known]

theorem Member.masked_of_all_known {owner : FlagOwner} {ms : List (Member owner)}
    (known : ∀ m ∈ ms, m.flags.Known) : ms.map Member.masked = ms :=
  (List.map_congr_left fun m mem => Member.masked_of_known (known m mem)).trans (List.map_id ms)

theorem Member.counted_masked {owner : FlagOwner} {ms : List (Member owner)}
    (h : (∀ m ∈ ms, m.Counted) ∧ ms.length < 65536) :
    (∀ m ∈ ms.map Member.masked, m.Counted) ∧ (ms.map Member.masked).length < 65536 := by
  refine ⟨List.forall_mem_map.mpr fun m mem => ?_, by rw [List.length_map]; exact h.2⟩
  exact ⟨(h.1 m mem).attributes, (h.1 m mem).count⟩

theorem recovers_attributeInfo :
    Recovers Read.attributeInfo Attribute.Fits Attribute.encode id := by
  intro input output a read
  obtain ⟨name, one, isName, rest⟩ := StateExcept.bind_eq_ok.mp read
  obtain ⟨length, two, isLength, rest⟩ := StateExcept.bind_eq_ok.mp rest
  obtain ⟨info, three, isInfo, done⟩ := StateExcept.bind_eq_ok.mp rest
  obtain ⟨rfl, rfl⟩ := Prod.mk.inj (Except.ok.inj done)
  obtain ⟨rfl, after⟩ := bytes_ok isInfo
  obtain ⟨small, before⟩ := number_spelled isLength
  refine ⟨⟨name, info⟩, ?_, rfl, ?_⟩
  · show info.length < 4294967296
    simpa using small
  rw [Attribute.encode]
  exact ((u16_ok isName).append before).append after

theorem recovers_member {owner : FlagOwner} :
    Recovers (Read.member : Read (Member owner)) Member.Counted Member.encode Member.masked := by
  intro input output m read
  obtain ⟨flags, one, areFlags, rest⟩ := StateExcept.bind_eq_ok.mp read
  obtain ⟨name, two, isName, rest⟩ := StateExcept.bind_eq_ok.mp rest
  obtain ⟨descriptor, three, isDescriptor, rest⟩ := StateExcept.bind_eq_ok.mp rest
  obtain ⟨attributes, four, areAttributes, done⟩ := StateExcept.bind_eq_ok.mp rest
  obtain ⟨rfl, rfl⟩ := Prod.mk.inj (Except.ok.inj done)
  obtain ⟨raw, flagsBetween, rfl⟩ := flags_ok areFlags
  obtain ⟨attributes, ⟨fits, count⟩, rfl, attributesBetween⟩ :=
    recovers_attributeInfo.list areAttributes
  refine ⟨⟨⟨raw⟩, name, descriptor, attributes⟩, ⟨fits, count⟩, ?_, ?_⟩
  · simp only [Member.masked, List.map_id]
  · exact ((flagsBetween.append (u16_ok isName)).append (u16_ok isDescriptor)).append
      attributesBetween

/-- Reads a member with the flag bits that mean nothing. -/
def Read.unmasked {owner : FlagOwner} : Read (Member owner) := do
  return ⟨⟨← u16⟩, ← u16, ← u16, ← list attributeInfo⟩

theorem reads_unmasked {owner : FlagOwner} {m : Member owner} (counted : m.Counted) :
    Reads Read.unmasked m.encode m := by
  have attributes : Reads (Read.list Read.attributeInfo)
      (encodeList Attribute.encode m.attributes) m.attributes :=
    Reads.list (fun a mem => reads_attributeInfo (counted.attributes a mem)) counted.count
  unfold Member.encode
  rw [List.append_assoc, List.append_assoc]
  exact (reads_u16 m.flags.bits).bind <| (reads_u16 m.name).bind <| (reads_u16 m.descriptor).bind <|
    attributes.map (Member.mk m.flags m.name m.descriptor) rfl

/-- The parts of a class file as its bytes spell them. Flags may have bits that mean nothing. -/
structure Spelled where
  version : Version
  constants : List SpelledConstant
  flags : Flags .classFile
  thisClass : PoolIndex
  superClass : PoolIndex
  interfaces : List PoolIndex
  fields : List (Member .field)
  methods : List (Member .method)
  attributes : List Attribute

namespace Spelled

variable (s : Spelled)

/-- The number of slots, with slot zero. -/
def slots : Nat := 1 + SpelledConstant.totalSlots s.constants

def bytes : List UInt8 :=
  magic ++ (s.version.encode ++ (Bytes.ofLength16 s.slots ++
    (s.constants.flatMap SpelledConstant.bytes ++ (Bytes.ofUInt16 s.flags.bits ++
      (Bytes.ofUInt16 s.thisClass ++ (Bytes.ofUInt16 s.superClass ++
        (encodeList Bytes.ofUInt16 s.interfaces ++ (encodeList Member.encode s.fields ++
          (encodeList Member.encode s.methods ++ encodeList Attribute.encode s.attributes)))))))))

/-- Every length field can count what it is in front of. -/
structure Fits : Prop where
  slots : s.slots < 65536
  constants : ∀ k ∈ s.constants, k.Fits
  interfaces : s.interfaces.length < 65536
  fields : (∀ m ∈ s.fields, m.Counted) ∧ s.fields.length < 65536
  methods : (∀ m ∈ s.methods, m.Counted) ∧ s.methods.length < 65536
  attributes : (∀ a ∈ s.attributes, a.Fits) ∧ s.attributes.length < 65536

/-- The bytes are those of the parts. -/
structure Spells (input : List UInt8) : Prop where
  fits : s.Fits
  bytes : s.bytes = input

/-- Each flag word has only bits that mean something where it stands, and each text is spelled by
the encoding of what it is decoded to. -/
structure Canonical : Prop where
  flags : s.flags.Known
  fields : ∀ m ∈ s.fields, m.flags.Known
  methods : ∀ m ∈ s.methods, m.flags.Known
  texts : ∀ k ∈ s.constants, k.Canonical

end Spelled

theorem separable_version : Separable (fun _ => True) Version.encode := by
  intro v w x y _ _ same
  rw [Version.encode, Version.encode, List.append_assoc, List.append_assoc] at same
  obtain ⟨minor, same⟩ := separable_u16 trivial trivial same
  obtain ⟨major, rest⟩ := separable_u16 trivial trivial same
  obtain ⟨major, minor⟩ := v
  obtain ⟨_, _⟩ := w
  subst_vars
  exact ⟨rfl, rfl⟩

namespace Spelled

/-- Bytes spell one class file at most. -/
theorem eq_of_spells {s t : Spelled} {input : List UInt8} (hs : s.Spells input)
    (ht : t.Spells input) : s = t := by
  obtain ⟨version, constants, flags, thisClass, superClass, interfaces, fields, methods,
    attributes⟩ := s
  obtain ⟨version', constants', flags', thisClass', superClass', interfaces', fields', methods',
    attributes'⟩ := t
  have fits := hs.fits
  have fits' := ht.fits
  have same := hs.bytes.trans ht.bytes.symm
  unfold bytes at same
  have same := List.append_cancel_left same
  obtain ⟨rfl, same⟩ := separable_version trivial trivial same
  obtain ⟨slots, same⟩ := separable_length16 fits.slots fits'.slots same
  obtain ⟨rfl, same⟩ := SpelledConstant.eq_of_flatMap_bytes fits.constants fits'.constants
    (Nat.add_left_cancel slots) same
  obtain ⟨sameFlags, same⟩ := separable_u16 trivial trivial same
  obtain ⟨rfl, same⟩ := separable_u16 trivial trivial same
  obtain ⟨rfl, same⟩ := separable_u16 trivial trivial same
  obtain ⟨rfl, same⟩ := separable_list (fun v (_ : True) => reads_u16 v)
    ⟨fun _ _ => trivial, fits.interfaces⟩ ⟨fun _ _ => trivial, fits'.interfaces⟩ same
  obtain ⟨rfl, same⟩ := separable_list (fun _ => reads_unmasked) fits.fields fits'.fields same
  obtain ⟨rfl, same⟩ := separable_list (fun _ => reads_unmasked) fits.methods fits'.methods same
  rw [← List.append_nil (encodeList Attribute.encode attributes),
    ← List.append_nil (encodeList Attribute.encode attributes')] at same
  obtain ⟨rfl, -⟩ := separable_list (fun _ => reads_attributeInfo) fits.attributes
    fits'.attributes same
  obtain ⟨flags⟩ := flags
  obtain ⟨flags'⟩ := flags'
  obtain rfl : flags = flags' := sameFlags
  rfl

/-- The class file is what is read from the parts. -/
structure Means (s : Spelled) (c : ClassFile) : Prop where
  version : c.version = s.version
  constants : List.Forall₂ SpelledConstant.Means s.constants c.constants.elements
  next : c.constants.next = s.slots
  flags : c.flags = .ofBits s.flags.bits
  thisClass : c.thisClass = s.thisClass
  superClass : c.superClass = s.superClass
  interfaces : c.interfaces = s.interfaces
  fields : c.fields = s.fields.map Member.masked
  methods : c.methods = s.methods.map Member.masked
  attributes : c.attributes = s.attributes

/-- What was read is what some parts mean whose bytes it was read from. -/
theorem of_decode {input : List UInt8} {c : ClassFile} (h : decode input = .ok c) :
    ∃ s : Spelled, s.Spells input ∧ s.Means c := by
  obtain ⟨layout, read⟩ := decode_eq_ok.mp h
  obtain ⟨sections, spell, rfl, -⟩ := Sections.of_decodeWithLayout read
  obtain ⟨constants, fits, slots, pool, cs, table, means⟩ := spell.pool.spelled
  obtain ⟨interfaces, ⟨-, fewInterfaces⟩, sameInterfaces, isInterfaces⟩ :=
    recovers_u16.list.of_reads spell.interfaces
  obtain ⟨fields, fitFields, sameFields, isFields⟩ := recovers_member.list.of_reads spell.fields
  obtain ⟨methods, fitMethods, sameMethods, isMethods⟩ :=
    recovers_member.list.of_reads spell.methods
  obtain ⟨attributes, fitAttributes, sameAttributes, isAttributes⟩ :=
    recovers_attributeInfo.list.of_reads spell.attributes
  have next : c.constants.next = 1 + SpelledConstant.totalSlots constants := by
    have grown : c.constants.next = 1 + (c.constants.next - 1) := spell.pool.next
    rw [slots]
    exact grown
  have elements : c.constants.elements = cs := by
    rw [table]
    exact SlotTable.elements_append ConstantTable.empty cs
  refine ⟨⟨c.version, constants, ⟨sections.flags⟩, c.thisClass, c.superClass, interfaces, fields,
    methods, attributes⟩, ⟨⟨?_, fits, fewInterfaces, fitFields, fitMethods, fitAttributes⟩, ?_⟩, ?_⟩
  · have bounded := spell.bounded
    rwa [next] at bounded
  · simp only [bytes, Sections.bytes, Sections.tail, Spelled.slots, Version.encode, pool,
      isInterfaces, isFields, isMethods, isAttributes, next, List.append_assoc]
  · refine ⟨rfl, ?_, next, spell.flags, rfl, rfl, ?_, sameFields.symm, sameMethods.symm, ?_⟩
    · rw [elements]
      exact means
    · rw [← sameInterfaces, List.map_id]
    · rw [← sameAttributes, List.map_id]

/-- The parts that a class file is written as. -/
def ofClassFile (c : ClassFile) : Spelled :=
  ⟨c.version, c.constants.elements.map .ofConstant, c.flags, c.thisClass, c.superClass,
    c.interfaces, c.fields, c.methods, c.attributes⟩

theorem slots_ofClassFile {s : Spelled} {c : ClassFile} (means : s.Means c) :
    (ofClassFile c).slots = c.constants.next := by
  have same := SpelledConstant.slots_ofConstants means.constants
  rw [means.next, slots, slots, same]
  rfl

theorem bytes_ofClassFile {s : Spelled} {c : ClassFile} (means : s.Means c) :
    (ofClassFile c).bytes = c.encode := by
  have constants : (c.constants.elements.map SpelledConstant.ofConstant).flatMap
      SpelledConstant.bytes = c.constants.elements.flatMap Constant.encode := by
    rw [List.flatMap_map]
    exact congrArg (fun f => c.constants.elements.flatMap f)
      (funext SpelledConstant.bytes_ofConstant)
  rw [bytes, slots_ofClassFile means]
  simp only [ofClassFile, constants, ClassFile.encode, ConstantTable.encode, List.append_assoc]

theorem fits_ofClassFile {s : Spelled} {c : ClassFile} (fits : s.Fits) (means : s.Means c) :
    (ofClassFile c).Fits where
  slots := by
    rw [slots_ofClassFile means, means.next]
    exact fits.slots
  constants := SpelledConstant.fits_ofConstants means.constants fits.constants
  interfaces := by
    simp only [ofClassFile, means.interfaces]
    exact fits.interfaces
  fields := by
    simp only [ofClassFile, means.fields]
    exact Member.counted_masked fits.fields
  methods := by
    simp only [ofClassFile, means.methods]
    exact Member.counted_masked fits.methods
  attributes := by
    simp only [ofClassFile, means.attributes]
    exact fits.attributes

theorem canonical_ofClassFile {s : Spelled} {c : ClassFile} (means : s.Means c) :
    (ofClassFile c).Canonical where
  flags := by
    simp only [ofClassFile, means.flags]
    exact known_ofBits _
  fields := by
    simp only [ofClassFile, means.fields]
    exact List.forall_mem_map.mpr fun m _ => known_ofBits _
  methods := by
    simp only [ofClassFile, means.methods]
    exact List.forall_mem_map.mpr fun m _ => known_ofBits _
  texts := List.forall_mem_map.mpr fun k _ => SpelledConstant.canonical_ofConstant k

theorem eq_ofClassFile {s : Spelled} {c : ClassFile} (fits : s.Fits) (means : s.Means c)
    (canonical : s.Canonical) : s = ofClassFile c := by
  obtain ⟨version, constants, flags, thisClass, superClass, interfaces, fields, methods,
    attributes⟩ := s
  have sameFields := Member.masked_of_all_known canonical.fields
  have sameMethods := Member.masked_of_all_known canonical.methods
  have sameFlags : Flags.ofBits flags.bits = flags := canonical.flags
  have sameConstants := SpelledConstant.eq_ofConstants means.constants fits.constants
    canonical.texts
  simp only [ofClassFile, means.version, means.flags, means.thisClass, means.superClass,
    means.interfaces, means.fields, means.methods, means.attributes, sameFlags, sameFields,
    sameMethods, ← sameConstants]

end Spelled

/-- Bytes that are read as a class file spell it in exactly one way, and the class file is written
back to them exactly when that way is canonical. -/
theorem encode_decode_iff {input : List UInt8} {c : ClassFile} (h : decode input = .ok c) :
    (∃ s : Spelled, s.Spells input) ∧
      ∀ s : Spelled, s.Spells input → (c.encode = input ↔ s.Canonical) := by
  obtain ⟨s, spells, means⟩ := Spelled.of_decode h
  refine ⟨⟨s, spells⟩, fun t other => ?_⟩
  obtain rfl := Spelled.eq_of_spells spells other
  have bytes := Spelled.bytes_ofClassFile means
  constructor
  · intro back
    have writes : (Spelled.ofClassFile c).Spells input :=
      ⟨Spelled.fits_ofClassFile spells.fits means, bytes.trans back⟩
    rw [Spelled.eq_of_spells spells writes]
    exact Spelled.canonical_ofClassFile means
  · intro canonical
    rw [← bytes, ← Spelled.eq_ofClassFile spells.fits means canonical, spells.bytes]

/-- A class `A` whose name is spelled longer than it has to be, with a flag bit that no class
has. -/
def strayClass : Spelled where
  version := .java8
  constants := [.text [0xC1, 0x81], .other (.classRef 1)]
  flags := ⟨Flag.isSuper ||| Flag.isStatic⟩
  thisClass := 2
  superClass := 0
  interfaces := []
  fields := []
  methods := []
  attributes := []

theorem fits_strayClass : strayClass.Fits where
  slots := by decide
  constants := by
    refine List.forall_mem_cons.mpr ⟨?_, List.forall_mem_singleton.mpr ?_⟩
    · show 2 < 65536
      decide
    · show (7 : UInt8) ≠ 1
      decide
  interfaces := by decide
  fields := ⟨by simp [strayClass], by decide⟩
  methods := ⟨by simp [strayClass], by decide⟩
  attributes := ⟨by simp [strayClass], by decide⟩

def strayClassRead : ClassFile where
  version := .java8
  constants := ConstantTable.empty.append [.utf8 "A", .classRef 1]
  flags := ⟨Flag.isSuper⟩
  thisClass := 2
  superClass := 0
  interfaces := []
  fields := []
  methods := []
  attributes := []

theorem encode_decode_iff_strayClass :
    decode strayClass.bytes = .ok strayClassRead ∧ strayClassRead.encode ≠ strayClass.bytes := by
  have read : decode strayClass.bytes = .ok strayClassRead := by cbv
  refine ⟨read, fun same => ?_⟩
  have canonical := ((encode_decode_iff read).2 strayClass ⟨fits_strayClass, rfl⟩).mp same
  exact absurd canonical.flags (by decide)

end JavaSnippet.ClassFile
