import JavaSnippet.Proofs.Text.Utf8
import JavaSnippet.Proofs.Wire.Fields
import JavaSnippet.Proofs.Wire.Reports
/-!
Items of data. Whoever reads the kinds of items that were written one after another, with
identifiers of the same sizes, gets these items and stops behind the last of them. A text may stand
in modified or in standard UTF-8 behind its length, and it is read as that text from either.
-/
namespace JavaSnippet.Wire

namespace Read

open Text

theorem decodeText_modified (text : String) : decodeText (ModifiedUtf8.encode text) = .ok text := by
  unfold decodeText
  rw [ModifiedUtf8.decode_encode]

/-- The standard form is tried second, but as the first it is not read as another text. -/
theorem decodeText_standard (text : String) : decodeText (Utf8.encode text) = .ok text := by
  unfold decodeText
  cases read : ModifiedUtf8.decode (Utf8.encode text) with
  | ok other => rw [ModifiedUtf8.eq_of_decode_standard read]
  | error fault =>
    rw [Utf8.decode_encode]
    rfl

variable {sizes : IdSizes} {bytes rest : List UInt8} {text : String}

theorem string_prefixed (isText : decodeText bytes = .ok text) (fits : bytes.length < intLimit) :
    string sizes (Bytes.ofNat 4 bytes.length ++ bytes ++ rest) = (.ok text, rest) :=
  string_ok.mpr ⟨bytes, fits, isText, List.append_assoc ..⟩

/-- A text is read behind its length in either form, and nothing behind it is touched. -/
theorem string_eitherForm (form : bytes = ModifiedUtf8.encode text ∨ bytes = Utf8.encode text)
    (fits : bytes.length < intLimit) (sizes : IdSizes) (rest : List UInt8) :
    string sizes (Bytes.ofNat 4 bytes.length ++ bytes ++ rest) = (.ok text, rest) := by
  refine string_prefixed ?_ fits
  rcases form with rfl | rfl
  · exact decodeText_modified text
  · exact decodeText_standard text

/-- The character zero and one beyond the first plane, in both forms. -/
theorem string_eitherForm_zero :
    let text := "\x00😀"
    let modified : List UInt8 := [0xC0, 0x80, 0xED, 0xA0, 0xBD, 0xED, 0xB8, 0x80]
    let standard : List UInt8 := [0x00, 0xF0, 0x9F, 0x98, 0x80]
    ModifiedUtf8.encode text = modified ∧ Utf8.encode text = standard ∧
      string {} ([0, 0, 0, 8] ++ modified ++ [7]) = (.ok text, [7]) ∧
      string {} ([0, 0, 0, 5] ++ standard ++ [7]) = (.ok text, [7]) := by
  intro text modified standard
  have isModified : ModifiedUtf8.encode text = modified := by decide
  have isStandard : Utf8.encode text = standard := by decide
  have modifiedLength : Bytes.ofNat 4 modified.length = [0, 0, 0, 8] := by decide
  have standardLength : Bytes.ofNat 4 standard.length = [0, 0, 0, 5] := by decide
  rw [← modifiedLength, ← standardLength]
  exact ⟨isModified, isStandard,
    string_eitherForm (.inl isModified.symm) (by decide) {} [7],
    string_eitherForm (.inr isStandard.symm) (by decide) {} [7]⟩

end Read

open Target

/-- An identifier fits the bytes it is written in. -/
def Width.Holds (sizes : IdSizes) (width : Width) (value : UInt64) : Prop :=
  value.toNat < 256 ^ width.bytes sizes

instance (sizes : IdSizes) (width : Width) (value : UInt64) :
    Decidable (width.Holds sizes value) :=
  inferInstanceAs (Decidable (value.toNat < 256 ^ width.bytes sizes))

/-- What a writer puts into data and a reader takes out of them. -/
inductive Item where
  | byte (value : UInt8)
  | int (value : Int32)
  | long (value : Int64)
  | length (n : Nat)
  | string (text : String)
  | objectId (value : UInt64)
  | typeId (value : UInt64)
  | methodId (value : UInt64)
  | location (place : Location)
  | value (value : Value)

inductive ItemKind where
  | byte | int | long | length | string | objectId | typeId | methodId | location | value
  deriving DecidableEq

namespace Item

def kind : Item → ItemKind
  | byte _ => .byte
  | int _ => .int
  | long _ => .long
  | length _ => .length
  | string _ => .string
  | objectId _ => .objectId
  | typeId _ => .typeId
  | methodId _ => .methodId
  | location _ => .location
  | value _ => .value

def encode [IdWriter] (sizes : IdSizes) : Item → Encoded
  | byte n => .ok [n]
  | int n => .ok (Encoded.int n)
  | long n => .ok (Encoded.long n)
  | length n => Encoded.length n
  | string text => Encoded.string text
  | objectId n => Encoded.identifier sizes.object n
  | typeId n => Encoded.identifier sizes.referenceType n
  | methodId n => Encoded.identifier sizes.method n
  | location place => Encoded.place sizes place
  | value v => .tagged sizes v

/-- The item can be written, and is no other item when it is read. -/
def Fits (sizes : IdSizes) : Item → Prop
  | byte _ | int _ | long _ => True
  | length n => n < intLimit
  | string text => (Text.ModifiedUtf8.encode text).length < intLimit
  | objectId n => Width.object.Holds sizes n
  | typeId n => Width.referenceType.Holds sizes n
  | methodId n => Width.method.Holds sizes n
  | location place =>
    Width.referenceType.Holds sizes place.owner ∧ Width.method.Holds sizes place.method
  | value .void => False
  | value .null | value (.primitive _) => True
  | value (.object ref) => ref.id ≠ 0 ∧ Width.object.Holds sizes ref.id

instance (sizes : IdSizes) : (item : Item) → Decidable (item.Fits sizes)
  | byte _ | int _ | long _ | value .null | value (.primitive _) => .isTrue trivial
  | value .void => .isFalse id
  | length n => inferInstanceAs (Decidable (n < intLimit))
  | string text => inferInstanceAs (Decidable ((Text.ModifiedUtf8.encode text).length < intLimit))
  | objectId n => inferInstanceAs (Decidable (Width.object.Holds sizes n))
  | typeId n => inferInstanceAs (Decidable (Width.referenceType.Holds sizes n))
  | methodId n => inferInstanceAs (Decidable (Width.method.Holds sizes n))
  | location place =>
    inferInstanceAs (Decidable (_ ∧ Width.method.Holds sizes place.method))
  | value (.object ref) =>
    inferInstanceAs (Decidable (ref.id ≠ 0 ∧ Width.object.Holds sizes ref.id))

end Item

def ItemKind.read : ItemKind → Read Item
  | byte => do return .byte (← .u8)
  | int => do return .int (← .int)
  | long => do return .long (← .long)
  | length => do return .length (← .length)
  | string => do return .string (← .string)
  | objectId => do return .objectId (← .objectId)
  | typeId => do return .typeId (← .typeId)
  | methodId => do return .methodId (← .methodId)
  | location => do return .location (← .location)
  | value => do return .value (← .tagged)

section Reading

variable {α β : Type} {sizes : IdSizes} {rest : List UInt8}

namespace Read

theorem u16_ok {n : UInt16} {data : List UInt8} : u16 sizes data = (.ok n, rest) ↔
    (Field.number (.fixed 2) n.toNat).Starts sizes data rest :=
  map_number_ok (.fixed 2) (fun value small => by simpa [Width.bytes] using small) (by simp)

theorem map_ok {x : Read α} {f : α → β} {a : α} {data : List UInt8}
    (h : x sizes data = (.ok a, rest)) :
    (do return f (← x) : Read β) sizes data = (.ok (f a), rest) :=
  bind_ok.mpr ⟨a, rest, h, rfl⟩

theorem u8_append (b : UInt8) : u8 sizes ([b] ++ rest) = (.ok b, rest) :=
  u8_ok.mpr ⟨b.toNat_lt, by simp [Width.bytes, Bytes.ofNat]⟩

theorem u16_append (n : UInt16) : u16 sizes (Bytes.ofUInt16 n ++ rest) = (.ok n, rest) :=
  u16_ok.mpr ⟨n.toNat_lt, rfl⟩

theorem u32_append (n : UInt32) : u32 sizes (Bytes.ofUInt32 n ++ rest) = (.ok n, rest) :=
  u32_ok.mpr ⟨n.toNat_lt, rfl⟩

theorem u64_append (n : UInt64) : u64 sizes (Bytes.ofUInt64 n ++ rest) = (.ok n, rest) :=
  u64_ok.mpr ⟨n.toNat_lt, rfl⟩

theorem int_append (n : Int32) : int sizes (Encoded.int n ++ rest) = (.ok n, rest) :=
  map_ok (u32_append n.toUInt32)

theorem long_append (n : Int64) : long sizes (Encoded.long n ++ rest) = (.ok n, rest) :=
  map_ok (u64_append n.toUInt64)

theorem primitive_append (p : Primitive) :
    primitive p.baseType sizes (Encoded.primitive p ++ rest) = (.ok p, rest) := by
  cases p with
  | boolean value => cases value <;> exact map_ok (map_ok (u8_append _))
  | byte value => exact map_ok (u8_append value.toUInt8)
  | char unit => exact map_ok (u16_append unit)
  | short value => exact map_ok (u16_append value.toUInt16)
  | int value => exact map_ok (int_append value)
  | long value => exact map_ok (long_append value)
  | float bits => exact map_ok (u32_append bits)
  | double bits => exact map_ok (u64_append bits)

theorem length_append {n : Nat} (fits : n < intLimit) :
    length sizes (Bytes.ofNat 4 n ++ rest) = (.ok n, rest) :=
  length_ok.mpr ⟨fits, rfl⟩

theorem string_append {text : String}
    (fits : (Text.ModifiedUtf8.encode text).length < intLimit) :
    string sizes (Bytes.ofNat 4 (Text.ModifiedUtf8.encode text).length ++
      Text.ModifiedUtf8.encode text ++ rest) = (.ok text, rest) :=
  string_prefixed (decodeText_modified text) fits

section Identifiers

variable (valid : sizes.Valid)

include valid

theorem objectId_append {n : UInt64} (fits : Width.object.Holds sizes n) :
    objectId sizes (Encoded.id sizes.object n ++ rest) = (.ok n, rest) :=
  (objectId_ok valid).mpr ⟨fits, rfl⟩

theorem typeId_append {n : UInt64} (fits : Width.referenceType.Holds sizes n) :
    typeId sizes (Encoded.id sizes.referenceType n ++ rest) = (.ok n, rest) :=
  (typeId_ok valid).mpr ⟨fits, rfl⟩

theorem methodId_append {n : UInt64} (fits : Width.method.Holds sizes n) :
    methodId sizes (Encoded.id sizes.method n ++ rest) = (.ok n, rest) :=
  (methodId_ok valid).mpr ⟨fits, rfl⟩

theorem location_append {l : Location} (owner : Width.referenceType.Holds sizes l.owner)
    (method : Width.method.Holds sizes l.method) :
    location sizes (Encoded.location sizes l ++ rest) = (.ok l, rest) := by
  simp only [location, bind_ok, Encoded.location, List.cons_append, List.append_assoc]
  exact ⟨_, _, u8_append l.typeTag, _, _, typeId_append valid owner, _, _,
    methodId_append valid method, _, _, u64_append l.index, rfl⟩

theorem objectOf_append (kind : ObjectKind) {n : UInt64} (fits : Width.object.Holds sizes n) :
    objectOf kind sizes (Encoded.id sizes.object n ++ rest) =
      (.ok (if n = 0 then none else some ⟨n, kind⟩), rest) :=
  map_ok (objectId_append valid fits)

theorem tagged_object (kind : ObjectKind) {n : UInt64} (fits : Width.object.Holds sizes n) :
    tagged sizes (tagByte (objectTag kind) :: (Encoded.id sizes.object n ++ rest)) =
      (.ok (.ofRef? (if n = 0 then none else some ⟨n, kind⟩)), rest) := by
  have notVoid : tagByte (objectTag kind) ≠ tagByte 'V' := by cases kind <;> decide
  have notBase : baseType? (tagByte (objectTag kind)) = none := by cases kind <;> decide
  refine bind_ok.mpr ⟨_, _, u8_append (tagByte (objectTag kind)), ?_⟩
  rw [if_neg notVoid]
  simp only [notBase, objectKind?_objectTag]
  exact map_ok (objectOf_append valid kind fits)

theorem taggedObject_append (kind : ObjectKind) {n : UInt64} (fits : Width.object.Holds sizes n) :
    taggedObject sizes (tagByte (objectTag kind) :: (Encoded.id sizes.object n ++ rest)) =
      (.ok (if n = 0 then none else some ⟨n, kind⟩), rest) := by
  refine bind_ok.mpr ⟨_, _, u8_append (tagByte (objectTag kind)), ?_⟩
  simp only [objectKind?_objectTag]
  exact objectOf_append valid kind fits

end Identifiers

theorem tagged_primitive (p : Primitive) :
    tagged sizes (tagByte p.baseType.letter :: (Encoded.primitive p ++ rest)) =
      (.ok (.primitive p), rest) := by
  have notVoid : tagByte p.baseType.letter ≠ tagByte 'V' := by cases p.baseType <;> decide
  refine bind_ok.mpr ⟨_, _, u8_append (tagByte p.baseType.letter), ?_⟩
  rw [if_neg notVoid]
  simp only [baseType?_letter]
  exact map_ok (primitive_append p)

end Read

theorem Encoded.length_of_lt {n : Nat} (fits : n < intLimit) :
    Encoded.length n = .ok (Bytes.ofNat 4 n) :=
  if_pos fits

theorem Width.holds_zero (width : Width) : width.Holds sizes 0 :=
  Nat.pow_pos (by decide)

/-- One item is written, and read back from the front of the data. -/
theorem Item.read_encode (valid : sizes.Valid) {item : Item} (fits : item.Fits sizes) :
    ∃ data, item.encode sizes = .ok data ∧
      ∀ rest, item.kind.read sizes (data ++ rest) = (.ok item, rest) := by
  cases item with
  | byte value => exact ⟨_, rfl, fun rest => Read.map_ok (Read.u8_append value)⟩
  | int value => exact ⟨_, rfl, fun rest => Read.map_ok (Read.int_append value)⟩
  | long value => exact ⟨_, rfl, fun rest => Read.map_ok (Read.long_append value)⟩
  | length n =>
    exact ⟨_, Encoded.length_of_lt fits, fun rest => Read.map_ok (Read.length_append fits)⟩
  | string text =>
    refine ⟨_, ?_, fun rest => Read.map_ok (Read.string_append fits)⟩
    rw [encode, Encoded.string, Encoded.length_of_lt fits]
    rfl
  | objectId value => exact ⟨_, rfl, fun rest => Read.map_ok (Read.objectId_append valid fits)⟩
  | typeId value => exact ⟨_, rfl, fun rest => Read.map_ok (Read.typeId_append valid fits)⟩
  | methodId value => exact ⟨_, rfl, fun rest => Read.map_ok (Read.methodId_append valid fits)⟩
  | location place =>
    exact ⟨_, rfl, fun rest => Read.map_ok (Read.location_append valid fits.1 fits.2)⟩
  | value v =>
    cases v with
    | void => exact fits.elim
    | null =>
      have zero : Width.object.Holds sizes 0 := Width.object.holds_zero
      exact ⟨_, rfl, fun rest => Read.map_ok (Read.tagged_object valid .object zero)⟩
    | primitive p => exact ⟨_, rfl, fun rest => Read.map_ok (Read.tagged_primitive p)⟩
    | object ref =>
      refine ⟨_, rfl, fun rest => Read.map_ok ?_⟩
      have read := @Read.tagged_object sizes rest valid ref.kind ref.id fits.2
      rwa [if_neg fits.1] at read

theorem Item.readAll_parts (valid : sizes.Valid) {items : List Item}
    (fit : ∀ item ∈ items, item.Fits sizes) :
    ∃ parts, items.mapM (Item.encode sizes) = .ok parts ∧ ∀ rest,
      (items.map Item.kind).mapM ItemKind.read sizes (parts.flatten ++ rest) =
        (.ok items, rest) := by
  induction items with
  | nil => exact ⟨[], rfl, fun rest => rfl⟩
  | cons item items ih =>
    obtain ⟨one, others⟩ := List.forall_mem_cons.mp fit
    obtain ⟨front, written, read⟩ := Item.read_encode valid one
    obtain ⟨parts, allWritten, allRead⟩ := ih others
    refine ⟨front :: parts, ?_, fun rest => ?_⟩
    · rw [List.mapM_cons, written, allWritten]
      rfl
    · rw [List.map_cons, List.mapM_cons, List.flatten_cons, List.append_assoc]
      exact Read.bind_ok.mpr ⟨item, _, read _, Read.map_ok (allRead rest)⟩

/-- Items that are written one after another are read back by whoever reads their kinds in this
order, and nothing of them is left. The number zero is read as `null` after the tag of every kind
of objects. -/
theorem Item.readAll_written (valid : sizes.Valid) {items : List Item}
    (fit : ∀ item ∈ items, item.Fits sizes) :
    (∃ data, Encoded.concat (Item.encode sizes) items = .ok data ∧ ∀ rest,
      (items.map Item.kind).mapM ItemKind.read sizes (data ++ rest) = (.ok items, rest)) ∧
      ∀ kind rest, let data := tagByte (objectTag kind) :: (Encoded.id sizes.object 0 ++ rest)
        Read.tagged sizes data = (.ok .null, rest) ∧
          Read.taggedObject sizes data = (.ok none, rest) := by
  constructor
  · obtain ⟨parts, written, read⟩ := Item.readAll_parts valid fit
    refine ⟨parts.flatten, ?_, read⟩
    rw [Encoded.concat, written]
    rfl
  · intro kind rest
    have fits : Width.object.Holds sizes 0 := Width.object.holds_zero
    exact ⟨Read.tagged_object valid kind fits, Read.taggedObject_append valid kind fits⟩

/-- A string's handle of three bytes, `null`, a negative number and a text, where a method's handle
has two bytes. -/
theorem Item.readAll_written_sample :
    let sizes : IdSizes := { object := 3, method := 2 }
    let items : List Item := [.value (.object ⟨0x0102, .string⟩), .value .null, .int (-2),
      .methodId 0xffff, .string "a\x00"]
    let data : List UInt8 := [0x73, 0, 1, 2, 0x4c, 0, 0, 0, 0xff, 0xff, 0xff, 0xfe, 0xff, 0xff,
      0, 0, 0, 3, 0x61, 0xc0, 0x80]
    sizes.Valid ∧ (∀ item ∈ items, item.Fits sizes) ∧
      Encoded.concat (Item.encode sizes) items = .ok data ∧
      (items.map Item.kind).mapM ItemKind.read sizes data = (.ok items, []) := by
  intro sizes items data
  have valid : sizes.Valid := by simp [IdSizes.Valid, IdSizes.all, sizes]
  have fit : ∀ item ∈ items, item.Fits sizes := by decide
  obtain ⟨⟨found, written, read⟩, -⟩ := Item.readAll_written valid fit
  have bytes : Encoded.concat (Item.encode sizes) items = .ok data := by rfl
  obtain rfl : found = data := Except.ok.inj (written.symm.trans bytes)
  have all := read []
  rw [List.append_nil] at all
  exact ⟨valid, fit, bytes, all⟩

end Reading

end JavaSnippet.Wire
