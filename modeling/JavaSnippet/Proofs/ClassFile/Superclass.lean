import JavaSnippet.ClassFile.Superclass
import JavaSnippet.Proofs.ClassFile.Pool
import JavaSnippet.Proofs.ClassFile.RoundTrip
/-!
The frame of a change of super class: which bytes and which data of a class file it replaces, and
that all others stay as they were.
-/
namespace JavaSnippet.ClassFile

/-- The constants that name a class in a table, as far as they are not there yet. -/
inductive Naming (t : ConstantTable) (name : String) : List Constant → Prop where
  | known (index : PoolIndex) (named : t.className? index = some name) : Naming t name []
  | ofText (unnamed : ∀ index, t.className? index ≠ some name) (text : PoolIndex)
      (found : t.utf8? text = some name) : Naming t name [.classRef text]
  | new (unnamed : ∀ index, t.className? index ≠ some name)
      (absent : ∀ index, t.utf8? index ≠ some name) (text : PoolIndex) :
      Naming t name [.utf8 name, .classRef text]

theorem naming_of_classRef {t : ConstantTable} (ascending : t.Ascending) (bounded : t.next < 65536)
    {name : String} {slot : PoolIndex} {q : Pool}
    (h : Pool.classRef name (Pool.ofTable t) = (.ok slot, q)) :
    ∃ added, Naming t name added ∧ q.Valid ∧ q.table = t.append added ∧
      q.table.className? slot = some name := by
  have valid := Pool.valid_ofTable ascending bounded
  have same := Pool.ofTable_table t
  obtain ⟨found, ⟨known, grown⟩ | ⟨unknown, text, -, ⟨known, grown⟩ | ⟨new, grown⟩⟩⟩ :=
    Pool.classRef_ok valid h
  · have named := valid.classes name slot known
    rw [same] at named
    exact ⟨[], .known slot named, grown.valid, by rw [grown.table, same], found⟩
  · have isText := ConstantTable.utf8?_eq_some.mpr (valid.recorded _ text known)
    rw [same] at isText
    exact ⟨_, .ofText (Pool.className?_of_ofTable_none unknown) text isText, grown.valid,
      by rw [grown.table, same], found⟩
  · exact ⟨_, .new (Pool.className?_of_ofTable_none unknown) (Pool.utf8?_of_ofTable_none new) text,
      grown.valid, by rw [grown.table, same], found⟩

theorem Naming.fits {t : ConstantTable} {name : String} {added : List Constant}
    (h : Naming t name added) (short : (Text.ModifiedUtf8.encode name).length < 65536) :
    ∀ c ∈ added, c.Fits := by
  cases h with
  | known index named => simp
  | ofText unnamed text found =>
    intro c mem
    obtain rfl := List.mem_singleton.mp mem
    trivial
  | new unnamed absent text =>
    intro c mem
    rcases List.mem_cons.mp mem with rfl | last
    · exact short
    · obtain rfl := List.mem_singleton.mp last
      trivial

namespace Sections

variable (s : Sections) (c : ClassFile)

/-- The bytes in front of the slot count. -/
def head : List UInt8 := magic ++ c.version.encode

/-- The bytes between the constants and the index of the super class. -/
def middle : List UInt8 := Bytes.ofUInt16 s.flags ++ Bytes.ofUInt16 c.thisClass

theorem bytes_eq :
    s.bytes c = head c ++ (Bytes.ofLength16 c.constants.next ++ (s.pool ++ (s.middle c ++
      (Bytes.ofUInt16 c.superClass ++ s.tail)))) := by
  simp only [bytes, head, middle, Version.encode, List.append_assoc]

end Sections

theorem slice_append {front middle back : List UInt8} {start stop : Nat}
    (before : front.length = start) (upTo : start + middle.length = stop) :
    slice (front ++ (middle ++ back)) start stop = middle := by
  subst before upTo
  simp [slice]

theorem replaceSuper_of_decode {bytes : List UInt8} {c : ClassFile} {layout : Layout}
    (h : decodeWithLayout bytes = .ok (c, layout)) (source replacement : ClassName) :
    replaceSuper bytes source replacement =
      if c.isInterface || c.superName? != some source then .ok .unchanged
      else
        match Pool.classRef replacement.text (Pool.ofTable c.constants) with
        | (.error overflow, _) => .error (.poolOverflow overflow)
        | (.ok index, after) =>
          .ok <| .changed <|
            bytes.take layout.poolStart ++ (Bytes.ofUInt16 after.slotCount ++
              (slice bytes (layout.poolStart + 2) layout.poolEnd ++
                ((after.constantsFrom (Pool.ofTable c.constants).slotCount).flatMap
                    Constant.encode ++
                  (slice bytes layout.poolEnd layout.superClass ++ (Bytes.ofUInt16 index ++
                    bytes.drop (layout.superClass + 2)))))) := by
  unfold replaceSuper
  rw [h]
  rfl

namespace Sections

/-- The sections after constants were added and nothing else was changed. -/
def withConstants (s : Sections) (added : List Constant) : Sections :=
  { s with pool := s.pool ++ added.flatMap Constant.encode }

variable (s : Sections) (c : ClassFile)

theorem length_head : (head c).length = 8 := by
  simp [head, Version.encode, magic]

theorem length_middle : (s.middle c).length = 4 := by
  simp [middle]

theorem take_head : (s.bytes c).take s.layout.poolStart = head c := by
  rw [bytes_eq, layout, List.take_left' (length_head c)]

theorem slice_pool : slice (s.bytes c) (s.layout.poolStart + 2) s.layout.poolEnd = s.pool := by
  rw [bytes_eq, ← List.append_assoc (head c)]
  apply slice_append
  · simp [length_head, layout]
  · simp only [layout]

theorem slice_middle : slice (s.bytes c) s.layout.poolEnd s.layout.superClass = s.middle c := by
  rw [bytes_eq, ← List.append_assoc, ← List.append_assoc]
  apply slice_append
  · simp only [List.length_append, length_head, Bytes.ofLength16_length, layout]
  · rw [length_middle, Layout.superClass]

theorem drop_superClass : (s.bytes c).drop (s.layout.superClass + 2) = s.tail := by
  rw [bytes_eq, ← List.append_assoc, ← List.append_assoc, ← List.append_assoc, ← List.append_assoc]
  apply List.drop_left'
  simp only [List.length_append, length_head, Bytes.ofLength16_length, length_middle,
    Bytes.ofUInt16_length, layout, Layout.superClass]

/-- The pieces of a class file, with constants and a super class put in their place, are the
sections of the changed class file. -/
theorem splice_eq {added : List Constant} {after : Pool} (valid : after.Valid)
    (table : after.table = c.constants.append added) (index : PoolIndex) :
    (s.bytes c).take s.layout.poolStart ++ (Bytes.ofUInt16 after.slotCount ++
      (slice (s.bytes c) (s.layout.poolStart + 2) s.layout.poolEnd ++
        (added.flatMap Constant.encode ++
          (slice (s.bytes c) s.layout.poolEnd s.layout.superClass ++ (Bytes.ofUInt16 index ++
            (s.bytes c).drop (s.layout.superClass + 2)))))) =
      (s.withConstants added).bytes
        { c with constants := c.constants.append added, superClass := index } := by
  rw [take_head, slice_pool, slice_middle, drop_superClass, bytes_eq, ← table,
    Bytes.ofUInt16, valid.next_toNat]
  simp only [withConstants, head, middle, tail, Bytes.ofLength16, List.append_assoc]

theorem Spell.withConstants {s : Sections} {c : ClassFile} (h : s.Spell c)
    {added : List Constant} (fits : ∀ k ∈ added, k.Fits)
    (bounded : (c.constants.append added).next < 65536)
    (ascending : (c.constants.append added).Ascending) (index : PoolIndex) :
    (s.withConstants added).Spell
      { c with constants := c.constants.append added, superClass := index } where
  bounded := bounded
  pool := by
    have old := h.pool
    have more := Fills.elements added fits c.constants
    have joined := old.append more
    have start : c.constants.next = 1 + (c.constants.next - 1) := old.next
    have grown := more.next
    have count : c.constants.next - 1 + ((c.constants.append added).next - c.constants.next) =
        (c.constants.append added).next - 1 := by omega
    rwa [count] at joined
  flags := h.flags
  interfaces := h.interfaces
  fields := h.fields
  methods := h.methods
  attributes := h.attributes
  named := by
    obtain ⟨name, named⟩ := Option.isSome_iff_exists.mp h.named
    rw [ConstantTable.className?_of_isPrefix (SlotTable.isPrefix_append _ added) ascending named]
    rfl

end Sections

theorem ascending_constants {s : Sections} {c : ClassFile} (h : s.Spell c) :
    c.constants.Ascending :=
  h.pool.ascending (SlotTable.ascending_startingAt 1)

theorem constantsFrom_ofTable {t : ConstantTable} (ascending : t.Ascending)
    (bounded : t.next < 65536) {after : Pool} {added : List Constant}
    (table : after.table = t.append added) :
    after.constantsFrom (Pool.ofTable t).slotCount = added := by
  have start : (Pool.ofTable t).slotCount.toNat = t.next := by
    rw [(Pool.valid_ofTable ascending bounded).next_toNat, Pool.ofTable_table]
  rw [Pool.constantsFrom, start, table]
  exact SlotTable.elements_from_next ascending added

/-- A change of super class splices the sections of the input. -/
theorem replaceSuper_eq_changed {bytes output : List UInt8} {source replacement : ClassName}
    (h : replaceSuper bytes source replacement = .ok (.changed output)) :
    ∃ (s : Sections) (c : ClassFile) (index : PoolIndex) (added : List Constant),
      s.Spell c ∧ bytes = s.bytes c ∧ c.isInterface = false ∧ c.superName? = some source ∧
        Naming c.constants replacement.text added ∧
        (c.constants.append added).Ascending ∧ (c.constants.append added).next < 65536 ∧
        ConstantTable.className? (c.constants.append added) index = some replacement.text ∧
        output = (s.withConstants added).bytes
          { c with constants := c.constants.append added, superClass := index } := by
  cases decoded : decodeWithLayout bytes with
  | error fault =>
    unfold replaceSuper at h
    rw [decoded] at h
    cases h
  | ok result =>
    obtain ⟨c, layout⟩ := result
    obtain ⟨s, spell, rfl, rfl⟩ := Sections.of_decodeWithLayout decoded
    rw [replaceSuper_of_decode decoded] at h
    split at h
    · cases h
    · rename_i applies
      simp only [Bool.or_eq_true, bne_iff_ne, ne_eq, not_or, Bool.not_eq_true,
        Decidable.not_not] at applies
      split at h
      · cases h
      · rename_i index after isClass
        obtain rfl := Patch.changed.inj (Except.ok.inj h)
        have ascending := ascending_constants spell
        obtain ⟨added, naming, valid, table, named⟩ :=
          naming_of_classRef ascending spell.bounded isClass
        rw [table] at named
        refine ⟨s, c, index, added, spell, rfl, applies.1, applies.2, naming, ?_, ?_, named, ?_⟩
        · rw [← table]
          exact valid.ascending
        · rw [← table]
          exact valid.bounded
        · rw [constantsFrom_ofTable ascending spell.bounded table]
          exact s.splice_eq c valid table index

/-- Slot zero holds no constant. -/
theorem index_ne_zero {s : Sections} {c : ClassFile} (h : s.Spell c) {index : PoolIndex}
    {name : String} (found : c.constants.className? index = some name) : index ≠ 0 := by
  rintro rfl
  obtain ⟨text, isClass, -⟩ := ConstantTable.className?_eq_some.mp found
  have here := SlotTable.mem_of_get? isClass
  have := h.pool.above (n := 1) (by simp [ConstantTable.empty]) (Nat.le_refl 1) _ here
  simp at this

theorem superName?_of_className? {c : ClassFile} {name : ClassName}
    (valid : ClassName.ofString name.text = .ok name) (some : c.superClass ≠ 0)
    (found : c.constants.className? c.superClass = .some name.text) :
    c.superName? = .some name := by
  rw [superName?, if_neg some, namedClass?, found]
  simp [valid, Except.toOption]

theorem replaceSuper_eq_unchanged {bytes : List UInt8} {source replacement : ClassName} :
    replaceSuper bytes source replacement = .ok .unchanged ↔
      ∃ c, decode bytes = .ok c ∧ (c.isInterface ∨ c.superName? ≠ some source) := by
  cases decoded : decodeWithLayout bytes with
  | error fault =>
    unfold replaceSuper decode
    rw [decoded]
    constructor
    · intro h
      cases h
    · rintro ⟨c, h, -⟩
      cases h
  | ok result =>
    obtain ⟨c, layout⟩ := result
    have unique : ∀ d, decode bytes = .ok d ↔ c = d := by
      intro d
      rw [decode, decoded, Except.map, Except.ok.injEq]
    rw [replaceSuper_of_decode decoded]
    simp only [unique, exists_eq_left', Bool.or_eq_true, bne_iff_ne]
    split
    · rename_i stays
      simp only [stays]
    · rename_i applies
      simp only [applies, iff_false]
      split
      · intro h
        cases h
      · intro h
        cases h

/-- A class that can be changed and has room for two more constants is changed. -/
theorem replaceSuper_changes {bytes : List UInt8} {source : ClassName} {c : ClassFile}
    (h : decode bytes = .ok c) (isClass : c.isInterface = false)
    (isSource : c.superName? = some source) (room : c.constants.next + 2 < 65536)
    (replacement : ClassName) :
    ∃ output, replaceSuper bytes source replacement = .ok (.changed output) := by
  obtain ⟨layout, read⟩ := decode_eq_ok.mp h
  obtain ⟨s, spell, -, -⟩ := Sections.of_decodeWithLayout read
  have valid := Pool.valid_ofTable (ascending_constants spell) spell.bounded
  obtain ⟨slot, q, found, -⟩ :=
    Pool.takes_classRef replacement.text _ valid (by rwa [Pool.ofTable_table])
  rw [replaceSuper_of_decode read, isClass, isSource, found]
  simp

/-- How the data and the bytes of a class file differ once its super class was replaced. -/
structure Replaced (replacement : ClassName) (input output : List UInt8)
    (before after : ClassFile) : Prop where
  named : after.superName? = some replacement
  constants : ∀ index c, before.constants.constant? index = some c →
    after.constants.constant? index = some c
  kept : after =
    { before with constants := after.constants, superClass := after.superClass }
  spliced : ∃ layout added front pool middle tail,
    decodeWithLayout input = .ok (before, layout) ∧
    Naming before.constants replacement.text added ∧
    after.constants = before.constants.append added ∧
    front.length = layout.poolStart ∧
    layout.poolStart + 2 + pool.length = layout.poolEnd ∧
    layout.poolEnd + middle.length = layout.superClass ∧
    input = front ++ (Bytes.ofLength16 before.constants.next ++ (pool ++
      (middle ++ (Bytes.ofUInt16 before.superClass ++ tail)))) ∧
    output = front ++ (Bytes.ofLength16 after.constants.next ++ (pool ++
      (added.flatMap Constant.encode ++ (middle ++ (Bytes.ofUInt16 after.superClass ++ tail)))))

theorem replaceSuper_frame {bytes : List UInt8} {source replacement : ClassName}
    (valid : ClassName.ofString replacement.text = .ok replacement)
    (short : (Text.ModifiedUtf8.encode replacement.text).length ≤ 65535) :
    (∀ output, replaceSuper bytes source replacement = .ok (.changed output) →
      ∃ before after, decode bytes = .ok before ∧ decode output = .ok after ∧
        Replaced replacement bytes output before after) ∧
    (replaceSuper bytes source replacement = .ok .unchanged ↔
      ∃ c, decode bytes = .ok c ∧ (c.isInterface ∨ c.superName? ≠ some source)) := by
  refine ⟨?_, replaceSuper_eq_unchanged⟩
  intro output h
  obtain ⟨s, c, index, added, spell, rfl, -, -, naming, ascending, bounded, isClass, rfl⟩ :=
    replaceSuper_eq_changed h
  have spellAfter := spell.withConstants (naming.fits (by omega)) bounded ascending index
  have before := Sections.decodeWithLayout_bytes spell
  have after := Sections.decodeWithLayout_bytes spellAfter
  refine ⟨c, _, decode_eq_ok.mpr ⟨_, before⟩, decode_eq_ok.mpr ⟨_, after⟩, ?_⟩
  constructor
  · exact superName?_of_className? valid (index_ne_zero spellAfter isClass) isClass
  · intro slot k found
    exact ConstantTable.constant?_of_isPrefix (SlotTable.isPrefix_append _ added) ascending found
  · rfl
  · refine ⟨s.layout, added, Sections.head c, s.pool, s.middle c, s.tail, before, naming, rfl,
      Sections.length_head c, ?_, ?_, s.bytes_eq c, ?_⟩
    · simp only [Sections.layout]
    · rw [s.length_middle, Layout.superClass]
    · rw [Sections.bytes_eq]
      simp only [Sections.withConstants, Sections.head, Sections.middle, Sections.tail,
        List.append_assoc]

/-- A class without members, under `java/lang/Object`. -/
def bareClass : ClassFile where
  version := .java8
  constants := ConstantTable.empty.append
    [.utf8 "A", .classRef 1, .utf8 "java/lang/Object", .classRef 3]
  flags := ⟨Flag.isSuper⟩
  thisClass := 2
  superClass := 4
  interfaces := []
  fields := []
  methods := []
  attributes := []

theorem className?_bareClass :
    ConstantTable.className? bareClass.constants 2 = some "A" ∧
      ConstantTable.className? bareClass.constants 4 = some "java/lang/Object" := by
  have ascending : bareClass.constants.Ascending := ConstantTable.ascending_filled _
  constructor
  · exact ConstantTable.className?_of_mem ascending 1 (by decide) (by decide)
  · exact ConstantTable.className?_of_mem ascending 3 (by decide) (by decide)

theorem decode_bareClass : decode bareClass.encode = .ok bareClass := by
  have regular : Regular bareClass := by
    refine ⟨⟨_, rfl⟩, by decide, by decide, by decide, by decide, ?_, ?_, by decide, ?_, ?_⟩
    · simp [bareClass]
    · simp [bareClass]
    · simp [bareClass]
    · rw [show bareClass.thisClass = 2 from rfl, className?_bareClass.1]
      rfl
  refine (decode_encode_iff regular).mpr ⟨?_, by decide⟩
  intro c here
  have listed : c ∈ [.utf8 "A", .classRef 1, .utf8 "java/lang/Object", .classRef 3] := here
  simp only [List.mem_cons, List.not_mem_nil, or_false] at listed
  rcases listed with rfl | rfl | rfl | rfl
  · show (Text.ModifiedUtf8.encode "A").length < 65536
    decide
  · trivial
  · show (Text.ModifiedUtf8.encode "java/lang/Object").length < 65536
    decide
  · trivial

theorem changes_bareClass : ∃ output,
    replaceSuper bareClass.encode .object .magicAccessor = .ok (.changed output) := by
  have isSource : bareClass.superName? = some .object :=
    superName?_of_className? rfl (by decide) className?_bareClass.2
  exact replaceSuper_changes decode_bareClass (by decide) isSource (by decide) .magicAccessor

theorem replaceSuper_frame_bareClass :
    ∃ output before after,
      replaceSuper bareClass.encode .object .magicAccessor = .ok (.changed output) ∧
        decode bareClass.encode = .ok before ∧ decode output = .ok after ∧
          Replaced .magicAccessor bareClass.encode output before after := by
  have valid : ClassName.ofString ClassName.magicAccessor.text = .ok .magicAccessor := by rfl
  have short : (Text.ModifiedUtf8.encode ClassName.magicAccessor.text).length ≤ 65535 := by decide
  obtain ⟨output, changed⟩ := changes_bareClass
  obtain ⟨before, after, framed⟩ := (replaceSuper_frame valid short).1 output changed
  exact ⟨output, before, after, changed, framed⟩

/-- The changed class is read back exactly when its new name is not too long. -/
theorem replaceSuper_reads_back {bytes output : List UInt8} {source replacement : ClassName}
    (h : replaceSuper bytes source replacement = .ok (.changed output)) :
    ∃ before added index, decode bytes = .ok before ∧
      Naming before.constants replacement.text added ∧
      ConstantTable.className? (before.constants.append added) index = some replacement.text ∧
      (decode output =
          .ok { before with
            constants := before.constants.append added
            superClass := index } ↔
        (Text.ModifiedUtf8.encode replacement.text).length ≤ 65535) := by
  obtain ⟨s, c, index, added, spell, rfl, -, -, naming, ascending, bounded, isClass, rfl⟩ :=
    replaceSuper_eq_changed h
  refine ⟨c, added, index, decode_eq_ok.mpr ⟨_, Sections.decodeWithLayout_bytes spell⟩, naming,
    isClass, ?_⟩
  constructor
  · intro back
    obtain ⟨layout, read⟩ := decode_eq_ok.mp back
    obtain ⟨t, spellAfter, -, -⟩ := Sections.of_decodeWithLayout read
    obtain ⟨text, -, isText⟩ := ConstantTable.className?_eq_some.mp isClass
    have here := SlotTable.mem_of_get? (ConstantTable.utf8?_eq_some.mp isText)
    have fits := fits_of_spell spellAfter (.utf8 replacement.text) (List.mem_map_of_mem here)
    exact Nat.le_of_lt_succ fits
  · intro short
    have spellAfter := spell.withConstants (naming.fits (by omega)) bounded ascending index
    exact decode_eq_ok.mpr ⟨_, Sections.decodeWithLayout_bytes spellAfter⟩

end JavaSnippet.ClassFile
