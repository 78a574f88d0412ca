import JavaSnippet.Proofs.Bytes
import JavaSnippet.Proofs.Fallible
import JavaSnippet.Proofs.Text.Lengths
import JavaSnippet.Wire.Data
/-!
Data as rows of fields. A reader takes a value from the data exactly if they start with the fields
of the value. Who reads the same fields with wider identifiers than they were written with ends too
far behind by as many bytes as the identifiers are too wide, and all these bytes are zero.
-/
namespace JavaSnippet.Wire

/-- How many bytes a number takes, which for identifiers depends on the target. -/
inductive Width where
  | fixed (bytes : Nat)
  | object
  | referenceType
  | method
  deriving DecidableEq

def Width.bytes (sizes : IdSizes) : Width → Nat
  | fixed bytes => bytes
  | object => sizes.object
  | referenceType => sizes.referenceType
  | method => sizes.method

/-- A piece of data. -/
inductive Field where
  | number (width : Width) (value : Nat)
  | count (n : Nat)
  | text (value : String)
  deriving DecidableEq

namespace Field

def byte (value : UInt8) : Field := number (.fixed 1) value.toNat

def int (value : Int32) : Field := number (.fixed 4) value.toUInt32.toNat

def long (value : UInt64) : Field := number (.fixed 8) value.toNat

def id (width : Width) (value : UInt64) : Field := number width value.toNat

/-- The data start with the field, and `rest` stands behind it. -/
def Starts (sizes : IdSizes) : Field → List UInt8 → List UInt8 → Prop
  | number width value, data, rest =>
    value < 256 ^ width.bytes sizes ∧ data = Bytes.ofNat (width.bytes sizes) value ++ rest
  | count n, data, rest => n < intLimit ∧ data = Bytes.ofLength32 n ++ rest
  | text value, data, rest => ∃ bytes, bytes.length < intLimit ∧ Read.decodeText bytes = .ok value ∧
      data = Bytes.ofLength32 bytes.length ++ (bytes ++ rest)

/-- The data start with the fields one after another, and `rest` stands behind them. -/
def AllStart (sizes : IdSizes) : List Field → List UInt8 → List UInt8 → Prop
  | [], data, rest => data = rest
  | field :: fields, data, rest =>
    ∃ mid, field.Starts sizes data mid ∧ AllStart sizes fields mid rest

theorem allStart_append {sizes : IdSizes} {front back : List Field} {data rest : List UInt8} :
    AllStart sizes (front ++ back) data rest ↔
      ∃ mid, AllStart sizes front data mid ∧ AllStart sizes back mid rest := by
  induction front generalizing data with
  | nil => simp [AllStart]
  | cons field front ih =>
    simp only [List.cons_append, AllStart, ih]
    constructor
    · rintro ⟨after, first, mid, more, last⟩
      exact ⟨mid, ⟨after, first, more⟩, last⟩
    · rintro ⟨mid, ⟨after, first, more⟩, last⟩
      exact ⟨after, first, mid, more, last⟩

theorem allStart_one {sizes : IdSizes} {field : Field} {data rest : List UInt8} :
    AllStart sizes [field] data rest ↔ field.Starts sizes data rest := by
  simp [AllStart]

end Field

section Reading

variable {α β : Type} {sizes : IdSizes} {data rest : List UInt8}

namespace Read

theorem pure_ok {a b : α} : (pure a : Read α) sizes data = (.ok b, rest) ↔ a = b ∧ data = rest := by
  constructor
  · intro h
    obtain ⟨same, rfl⟩ := Prod.mk.inj h
    exact ⟨Except.ok.inj same, rfl⟩
  · rintro ⟨rfl, rfl⟩
    rfl

theorem throw_ok {cause : Malformation} {a : α} :
    ¬ (throw cause : Read α) sizes data = (.ok a, rest) :=
  fun h => by cases h

theorem bind_ok {x : Read α} {f : α → Read β} {b : β} :
    (x >>= f) sizes data = (.ok b, rest) ↔
      ∃ a mid, x sizes data = (.ok a, mid) ∧ f a sizes mid = (.ok b, rest) :=
  ExceptState.bind_eq_ok

theorem number_ok {n value : Nat} :
    number n sizes data = (.ok value, rest) ↔
      value < 256 ^ n ∧ data = Bytes.ofNat n value ++ rest := by
  unfold number
  constructor
  · intro h
    split at h
    · rename_i front back taken
      obtain ⟨rfl, length⟩ := Bytes.eq_append_of_split? taken
      obtain ⟨same, rfl⟩ := Prod.mk.inj h
      obtain rfl := Except.ok.inj same
      rw [← length]
      exact ⟨Bytes.toNat_lt front, by rw [Bytes.ofNat_toNat]⟩
    · cases h
  · rintro ⟨small, rfl⟩
    rw [Bytes.split?_eq_some (Bytes.ofNat_length n value)]
    simp only
    rw [Bytes.toNat_ofNat small]

/-- Numbers that are read as elements of a type by which they are told apart. -/
theorem map_number_ok (width : Width) {f : Nat → α} {g : α → Nat}
    (exact : ∀ value < 256 ^ width.bytes sizes, g (f value) = value) (same : ∀ a, f (g a) = a)
    {a : α} : (do return f (← number (width.bytes sizes)) : Read α) sizes data = (.ok a, rest) ↔
      (Field.number width (g a)).Starts sizes data rest := by
  rw [bind_ok]
  simp only [number_ok, pure_ok]
  constructor
  · rintro ⟨value, mid, ⟨small, rfl⟩, rfl, rfl⟩
    rw [exact value small]
    exact ⟨small, rfl⟩
  · rintro ⟨small, rfl⟩
    exact ⟨g a, rest, ⟨small, rfl⟩, same a, rfl⟩

theorem u8_ok {b : UInt8} :
    u8 sizes data = (.ok b, rest) ↔ (Field.byte b).Starts sizes data rest :=
  map_number_ok (.fixed 1) (fun value small => by simpa [Width.bytes] using small) (by simp)

theorem u32_ok {n : UInt32} : u32 sizes data = (.ok n, rest) ↔
    (Field.number (.fixed 4) n.toNat).Starts sizes data rest :=
  map_number_ok (.fixed 4) (fun value small => by simpa [Width.bytes] using small) (by simp)

theorem u64_ok {n : UInt64} :
    u64 sizes data = (.ok n, rest) ↔ (Field.long n).Starts sizes data rest :=
  map_number_ok (.fixed 8) (fun value small => by simpa [Width.bytes] using small) (by simp)

theorem int_ok {n : Int32} :
    int sizes data = (.ok n, rest) ↔ (Field.int n).Starts sizes data rest := by
  unfold int
  simp only [bind_ok, u32_ok, pure_ok]
  constructor
  · rintro ⟨value, mid, starts, rfl, rfl⟩
    exact starts
  · intro starts
    exact ⟨n.toUInt32, rest, starts, rfl, rfl⟩

/-- An integer is the number that its bytes spell, unless that is too large. -/
theorem toInt_int32 (n : Int32) :
    n.toInt = if 2 * n.toUInt32.toNat < 4294967296 then (n.toUInt32.toNat : Int)
      else n.toUInt32.toNat - 4294967296 :=
  BitVec.toInt_eq_toNat_cond n.toBitVec

theorem not_neg_iff {n : Int32} : ¬ n < 0 ↔ n.toUInt32.toNat < intLimit := by
  have bound := n.toUInt32.toNat_lt
  rw [Int32.lt_iff_toInt_lt, toInt_int32, intLimit, Int32.toInt_zero]
  split <;> omega

theorem toInt_natural {n : Int32} (natural : n.toUInt32.toNat < intLimit) :
    n.toInt = n.toUInt32.toNat := by
  rw [intLimit] at natural
  rw [toInt_int32, if_pos (by omega)]

/-- The integer that a count is written as. -/
theorem exists_int32 {n : Nat} (fits : n < intLimit) : ∃ i : Int32, i.toUInt32.toNat = n := by
  refine ⟨n.toUInt32.toInt32, ?_⟩
  rw [intLimit] at fits
  simp
  omega

theorem length_ok {n : Nat} :
    length sizes data = (.ok n, rest) ↔ (Field.count n).Starts sizes data rest := by
  unfold length
  simp only [bind_ok, int_ok]
  constructor
  · rintro ⟨value, mid, ⟨small, rfl⟩, checked⟩
    split at checked
    · exact absurd checked throw_ok
    · rename_i natural
      obtain ⟨rfl, rfl⟩ := pure_ok.mp checked
      have fits := not_neg_iff.mp natural
      rw [toInt_natural fits, Int.toNat_natCast]
      exact ⟨fits, rfl⟩
  · rintro ⟨fits, rfl⟩
    obtain ⟨value, rfl⟩ := exists_int32 fits
    refine ⟨value, rest, ⟨Nat.lt_trans fits (show intLimit < 256 ^ 4 by decide), rfl⟩, ?_⟩
    rw [if_neg (not_neg_iff.mpr fits), toInt_natural fits, Int.toNat_natCast]
    rfl

theorem size_ok {n : Nat} :
    size sizes data = (.ok n, rest) ↔ (1 ≤ n ∧ n ≤ 8) ∧ data = Bytes.ofLength32 n ++ rest := by
  have range (value : Int32) :
      (1 ≤ value ∧ value ≤ 8) ↔ 1 ≤ value.toUInt32.toNat ∧ value.toUInt32.toNat ≤ 8 := by
    have bound := value.toUInt32.toNat_lt
    have least : (1 : Int32).toInt = 1 := by rfl
    have greatest : (8 : Int32).toInt = 8 := by rfl
    rw [Int32.le_iff_toInt_le, Int32.le_iff_toInt_le, least, greatest, toInt_int32 value]
    split <;> omega
  unfold size
  simp only [bind_ok, int_ok]
  constructor
  · rintro ⟨value, mid, ⟨small, rfl⟩, checked⟩
    split at checked
    · rename_i within
      obtain ⟨rfl, rfl⟩ := pure_ok.mp checked
      rw [range] at within
      rw [toInt_natural (by rw [intLimit]; omega), Int.toNat_natCast]
      exact ⟨within, rfl⟩
    · exact absurd checked throw_ok
  · rintro ⟨within, rfl⟩
    have fits : n < intLimit := Nat.lt_of_le_of_lt within.2 (by decide)
    obtain ⟨value, rfl⟩ := exists_int32 fits
    refine ⟨value, rest, ⟨Nat.lt_trans fits (show intLimit < 256 ^ 4 by decide), rfl⟩, ?_⟩
    rw [if_pos ((range value).mpr within), toInt_natural fits, Int.toNat_natCast]
    rfl

/-- An identifier of at most eight bytes is read as it is. -/
theorem id_ok (width : Width) {size : IdSizes → Nat} (known : width.bytes sizes = size sizes)
    (short : size sizes ≤ 8) {n : UInt64} :
    id size sizes data = (.ok n, rest) ↔ (Field.id width n).Starts sizes data rest := by
  have exact (value : Nat) (small : value < 256 ^ width.bytes sizes) :
      value.toUInt64.toNat = value := by
    have wide : 256 ^ width.bytes sizes ≤ 256 ^ 8 := Nat.pow_le_pow_right (by omega) (known ▸ short)
    simp
    omega
  show (do return (← number (size sizes)).toUInt64 : Read UInt64) sizes data = _ ↔ _
  rw [← known]
  exact map_number_ok width exact (by simp)

theorem chunk_ok {n : Nat} {bytes : List UInt8} :
    chunk n sizes data = (.ok bytes, rest) ↔ bytes.length = n ∧ data = bytes ++ rest := by
  unfold chunk
  constructor
  · intro h
    split at h
    · rename_i front back taken
      obtain ⟨whole, length⟩ := Bytes.eq_append_of_split? taken
      obtain ⟨same, rfl⟩ := Prod.mk.inj h
      obtain rfl := Except.ok.inj same
      exact ⟨length, whole⟩
    · cases h
  · rintro ⟨length, rfl⟩
    rw [Bytes.split?_eq_some length]

theorem string_ok {text : String} :
    string sizes data = (.ok text, rest) ↔ (Field.text text).Starts sizes data rest := by
  unfold string
  simp only [bind_ok, length_ok, chunk_ok]
  constructor
  · rintro ⟨n, mid, ⟨fits, rfl⟩, bytes, after, ⟨rfl, rfl⟩, decoded⟩
    cases isText : decodeText bytes with
    | error cause =>
      rw [isText] at decoded
      exact absurd decoded throw_ok
    | ok value =>
      rw [isText] at decoded
      obtain ⟨rfl, rfl⟩ := pure_ok.mp decoded
      exact ⟨bytes, fits, isText, rfl⟩
  · rintro ⟨bytes, fits, isText, rfl⟩
    exact ⟨bytes.length, bytes ++ rest, ⟨fits, rfl⟩, bytes, rest, ⟨rfl, rfl⟩, by rw [isText]; rfl⟩

theorem decodeText_proportionate {bytes : List UInt8} {text : String}
    (h : decodeText bytes = .ok text) :
    Text.Proportionate (Text.Utf16.count text.toList) bytes.length := by
  unfold decodeText at h
  split at h
  · rename_i modified
    obtain rfl := Except.ok.inj h
    exact Text.ModifiedUtf8.proportionate_of_decode modified
  · exact Text.Utf8.proportionate_of_decode (except_mapError_eq_ok.mp h)

/-- Items that are read one by one are those whose fields follow each other. -/
theorem times_ok {item : Read α} {fields : α → List Field}
    (one : ∀ a data rest,
      item sizes data = (.ok a, rest) ↔ Field.AllStart sizes (fields a) data rest)
    {n : Nat} {found all : List α} :
    times item n found sizes data = (.ok all, rest) ↔
      ∃ more, all = found.reverse ++ more ∧ more.length = n ∧
        Field.AllStart sizes (more.flatMap fields) data rest := by
  induction n generalizing found data with
  | zero =>
    rw [times, pure_ok]
    constructor
    · rintro ⟨rfl, rfl⟩
      exact ⟨[], (List.append_nil _).symm, rfl, rfl⟩
    · rintro ⟨more, rfl, none, starts⟩
      obtain rfl := List.eq_nil_of_length_eq_zero none
      exact ⟨(List.append_nil _).symm, starts⟩
  | succ n ih =>
    simp only [times, bind_ok, one, ih]
    constructor
    · rintro ⟨a, mid, first, more, rfl, rfl, starts⟩
      refine ⟨a :: more, by simp, rfl, ?_⟩
      rw [List.flatMap_cons]
      exact Field.allStart_append.mpr ⟨mid, first, starts⟩
    · rintro ⟨_ | ⟨a, more⟩, rfl, length, starts⟩
      · cases length
      · rw [List.flatMap_cons] at starts
        obtain ⟨mid, first, starts⟩ := Field.allStart_append.mp starts
        exact ⟨a, mid, first, more, by simp, Nat.succ.inj length, starts⟩

theorem list_ok {item : Read α} {fields : α → List Field}
    (one : ∀ a data rest,
      item sizes data = (.ok a, rest) ↔ Field.AllStart sizes (fields a) data rest)
    {all : List α} :
    list item sizes data = (.ok all, rest) ↔
      Field.AllStart sizes (.count all.length :: all.flatMap fields) data rest := by
  simp only [list, bind_ok, length_ok, times_ok one]
  constructor
  · rintro ⟨n, mid, counted, more, rfl, rfl, starts⟩
    exact ⟨mid, counted, starts⟩
  · rintro ⟨mid, counted, starts⟩
    exact ⟨all.length, mid, counted, all, rfl, rfl, starts⟩

end Read

end Reading

section Slipping

variable {sizes wide : IdSizes} {data rest input left : List UInt8} {k : Nat}

/-- By how many bytes a field is longer in the wider sizes. -/
def Field.excess (sizes wide : IdSizes) : Field → Nat
  | number width _ => width.bytes wide - width.bytes sizes
  | count _ | text _ => 0

/-- By how many bytes a row of fields is longer in the wider sizes. -/
def Field.totalExcess (sizes wide : IdSizes) : List Field → Nat
  | [] => 0
  | field :: fields => field.excess sizes wide + totalExcess sizes wide fields

theorem Field.totalExcess_eq_zero {fields : List Field} :
    totalExcess sizes wide fields = 0 ↔ ∀ field ∈ fields, field.excess sizes wide = 0 := by
  induction fields with
  | nil => simp [totalExcess]
  | cons field fields ih => simp [totalExcess, ih]

/-- Counts that stand at a place and behind some zeros there are equal if there are no zeros, and
else the first is far smaller. -/
theorem count_of_zeros {m n : Nat} {x y : List UInt8} (fitsM : m < intLimit) (fitsN : n < intLimit)
    (h : Bytes.ofLength32 m ++ x = List.replicate k 0 ++ (Bytes.ofLength32 n ++ y)) :
    k = 0 ∧ m = n ∨ 256 * m ≤ n := by
  have smallM : m < 256 ^ 4 := Nat.lt_trans fitsM (by decide)
  have smallN : n < 256 ^ 4 := Nat.lt_trans fitsN (by decide)
  have least := Bytes.mul_le_of_zeros smallM smallN h
  cases k with
  | zero =>
    have front : Bytes.ofNat 4 m = Bytes.ofNat 4 n := List.append_inj_left h (by simp)
    have same := congrArg Bytes.toNat front
    rw [Bytes.toNat_ofNat smallM, Bytes.toNat_ofNat smallN] at same
    exact .inl ⟨rfl, same⟩
  | succ k =>
    have power : m * 256 ≤ m * 256 ^ (k + 1) :=
      Nat.mul_le_mul_left m (Nat.le_self_pow (by omega) 256)
    omega

/-- A field is read in wider sizes than it was written in, and some zeros too late. As many zeros
more remain to be skipped as the field is longer. -/
theorem Field.Starts.slip {field : Field}
    (wider : ∀ width : Width, width.bytes sizes ≤ width.bytes wide)
    (written : field.Starts sizes (List.replicate k 0 ++ input) rest)
    (read : field.Starts wide input left) :
    rest = List.replicate (k + field.excess sizes wide) 0 ++ left := by
  cases field with
  | number width value =>
    obtain ⟨small, same⟩ := written
    obtain ⟨-, rfl⟩ := read
    rw [Bytes.ofNat_of_lt small (wider width), List.append_assoc, ← List.append_assoc,
      List.replicate_append_replicate] at same
    exact Bytes.eq_zeros_append same.symm
  | count n =>
    obtain ⟨-, same⟩ := written
    obtain ⟨-, rfl⟩ := read
    exact Bytes.eq_zeros_append same.symm
  | text text =>
    obtain ⟨bytes, fits, isText, same⟩ := written
    obtain ⟨others, fitsOthers, isSame, rfl⟩ := read
    have long := Read.decodeText_proportionate isText
    have short := Read.decodeText_proportionate isSame
    unfold Text.Proportionate at long short
    rcases count_of_zeros fits fitsOthers same.symm with ⟨rfl, length⟩ | far
    · rw [List.replicate_zero, List.nil_append, length] at same
      have behind := List.append_cancel_left same
      exact (List.append_inj_right behind length.symm).symm
    · -- Only the empty text is read from so many bytes.
      obtain rfl := List.eq_nil_of_length_eq_zero (by omega : bytes.length = 0)
      obtain rfl := List.eq_nil_of_length_eq_zero (by omega : others.length = 0)
      exact Bytes.eq_zeros_append same.symm

theorem Field.AllStart.slip {fields : List Field}
    (wider : ∀ width : Width, width.bytes sizes ≤ width.bytes wide)
    (written : AllStart sizes fields (List.replicate k 0 ++ input) rest)
    (read : AllStart wide fields input left) :
    rest = List.replicate (k + totalExcess sizes wide fields) 0 ++ left := by
  induction fields generalizing k input with
  | nil =>
    obtain rfl : _ = rest := written
    obtain rfl : input = left := read
    rfl
  | cons field fields ih =>
    obtain ⟨mid, first, written⟩ := written
    obtain ⟨after, same, read⟩ := read
    rw [Field.Starts.slip wider first same] at written
    rw [ih written read, totalExcess, Nat.add_assoc]

theorem Field.Starts.resize {field : Field}
    (wider : ∀ width : Width, width.bytes sizes ≤ width.bytes wide)
    (alike : field.excess sizes wide = 0) (h : field.Starts sizes data rest) :
    field.Starts wide data rest := by
  cases field with
  | number width value =>
    have same : width.bytes wide = width.bytes sizes :=
      Nat.le_antisymm (Nat.le_of_sub_eq_zero alike) (wider width)
    obtain ⟨small, rfl⟩ := h
    rw [← same] at small ⊢
    exact ⟨small, rfl⟩
  | count | text => exact h

/-- Fields that are no longer in the wider sizes are written in these too. -/
theorem Field.AllStart.resize {fields : List Field}
    (wider : ∀ width : Width, width.bytes sizes ≤ width.bytes wide)
    (alike : ∀ field ∈ fields, field.excess sizes wide = 0)
    (h : AllStart sizes fields data rest) : AllStart wide fields data rest := by
  induction fields generalizing data with
  | nil => exact h
  | cons field fields ih =>
    obtain ⟨one, others⟩ := List.forall_mem_cons.mp alike
    obtain ⟨mid, first, next⟩ := h
    exact ⟨mid, Field.Starts.resize wider one first, ih others next⟩

end Slipping

end JavaSnippet.Wire
