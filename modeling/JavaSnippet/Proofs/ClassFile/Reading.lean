import JavaSnippet.ClassFile.Decode
import JavaSnippet.Proofs.Bytes
import JavaSnippet.Proofs.Fallible
import JavaSnippet.Proofs.SlotTable
import JavaSnippet.Proofs.Text.ModifiedUtf8
/-!
What readers of class files take. A reader that succeeds has taken some bytes off the front and
would answer the same for these bytes in front of anything else, at any offset. Both directions are
closed under sequencing, so they follow the shape of the readers. A table of constants is read by
filling a number of free slots one constant after another, so two readings that follow each other
are one reading of both numbers of slots.
-/
namespace JavaSnippet.ClassFile

section Readers

variable {α β : Type}

/-- The bytes are read as the value, whatever follows them. -/
def Reads (read : Read α) (bytes : List UInt8) (a : α) : Prop :=
  ∀ rest offset, read ⟨bytes ++ rest, offset⟩ = .ok (a, ⟨rest, offset + bytes.length⟩)

/-- The bytes between two states of the input. -/
def Between (input : Input) (bytes : List UInt8) (output : Input) : Prop :=
  input.rest = bytes ++ output.rest ∧ output.offset = input.offset + bytes.length

/-- Success depends on the bytes taken alone. -/
def Delimited (read : Read α) : Prop :=
  ∀ input output a, read input = .ok (a, output) →
    ∃ bytes, Between input bytes output ∧ Reads read bytes a

theorem Between.nil (input : Input) : Between input [] input := ⟨rfl, rfl⟩

theorem Between.append {a b c : Input} {front back : List UInt8} (h : Between a front b)
    (g : Between b back c) : Between a (front ++ back) c := by
  refine ⟨by rw [h.1, g.1, List.append_assoc], ?_⟩
  rw [g.2, h.2, List.length_append, Nat.add_assoc]

theorem Read.pure_apply (a : α) (input : Input) : (pure a : Read α) input = .ok (a, input) := rfl

theorem Reads.pure (a : α) : Reads (pure a) [] a := fun _ _ => rfl

theorem Reads.bind {x : Read α} {f : α → Read β} {front back : List UInt8} {a : α} {b : β}
    (h : Reads x front a) (g : Reads (f a) back b) : Reads (x >>= f) (front ++ back) b := by
  intro rest offset
  rw [StateExcept.bind_apply, List.append_assoc, h]
  simp only
  rw [g, List.length_append, Nat.add_assoc]

theorem Reads.bind_last {x : Read α} {f : α → Read β} {bytes : List UInt8} {a : α} {b : β}
    (h : Reads x bytes a) (g : Reads (f a) [] b) : Reads (x >>= f) bytes b := by
  have joined := h.bind g
  rwa [List.append_nil] at joined

theorem Reads.map {x : Read α} {bytes : List UInt8} {a : α} (f : α → β) {b : β}
    (h : Reads x bytes a) (value : f a = b) : Reads (do return f (← x)) bytes b :=
  h.bind_last (value ▸ Reads.pure (f a))

theorem Delimited.pure (a : α) : Delimited (pure a : Read α) := by
  intro input output b h
  obtain ⟨rfl, rfl⟩ := Prod.mk.inj (Except.ok.inj h)
  exact ⟨[], Between.nil _, Reads.pure _⟩

theorem Delimited.bind {x : Read α} {f : α → Read β} (h : Delimited x)
    (g : ∀ a, Delimited (f a)) : Delimited (x >>= f) := by
  intro input output b done
  obtain ⟨a, middle, first, second⟩ := StateExcept.bind_eq_ok.mp done
  obtain ⟨front, before, readsFront⟩ := h _ _ _ first
  obtain ⟨back, after, readsBack⟩ := g a _ _ _ second
  exact ⟨front ++ back, before.append after, readsFront.bind readsBack⟩

theorem Delimited.map {x : Read α} (f : α → β) (h : Delimited x) :
    Delimited (do return f (← x)) :=
  h.bind fun a => Delimited.pure (f a)

theorem Delimited.refuseAt {offset : Nat} {cause : Malformation} :
    Delimited (Read.refuseAt offset cause : Read α) := by
  intro _ _ _ h
  cases h

theorem reads_number (form : String) {n : Nat} {bytes : List UInt8} (h : bytes.length = n) :
    Reads (Read.number n form) bytes (Bytes.toNat bytes) := by
  intro rest offset
  simp only [Read.number, Bytes.split?_eq_some h, h]

theorem number_ok {n : Nat} {form : String} {input output : Input} {value : Nat}
    (h : Read.number n form input = .ok (value, output)) :
    ∃ bytes, bytes.length = n ∧ Between input bytes output ∧ value = Bytes.toNat bytes := by
  unfold Read.number at h
  split at h
  · rename_i front rest taken
    obtain ⟨rfl, rfl⟩ := Prod.mk.inj (Except.ok.inj h)
    obtain ⟨whole, length⟩ := Bytes.eq_append_of_split? taken
    exact ⟨front, length, ⟨whole, by rw [length]⟩, rfl⟩
  · cases h

theorem delimited_number (n : Nat) (form : String) : Delimited (Read.number n form) := by
  intro input output value h
  obtain ⟨bytes, length, between, rfl⟩ := number_ok h
  exact ⟨bytes, between, reads_number form length⟩

theorem reads_u8 (b : UInt8) : Reads Read.u8 [b] b :=
  (reads_number "u1" (by rfl : [b].length = 1)).map Nat.toUInt8 (by simp [Bytes.toNat])

theorem reads_u16 (v : UInt16) : Reads Read.u16 (Bytes.ofUInt16 v) v := by
  refine (reads_number "u2" (Bytes.ofUInt16_length v)).map Nat.toUInt16 ?_
  rw [Bytes.ofUInt16, Bytes.toNat_ofNat (by simpa using v.toNat_lt)]
  simp

theorem reads_length16 {n : Nat} (h : n < 65536) :
    Reads Read.u16 (Bytes.ofLength16 n) n.toUInt16 := by
  refine (reads_number "u2" (Bytes.ofLength16_length n)).map Nat.toUInt16 ?_
  rw [Bytes.ofLength16, Bytes.toNat_ofNat (by simpa using h)]

theorem reads_u32 {n : Nat} (h : n < 4294967296) : Reads Read.u32 (Bytes.ofLength32 n) n := by
  have read := reads_number "u4" (Bytes.ofLength32_length n)
  rwa [Bytes.ofLength32, Bytes.toNat_ofNat (by simpa using h)] at read

theorem reads_i32 (v : Int32) : Reads Read.i32 (Bytes.ofUInt32 v.toUInt32) v := by
  refine (reads_number "i4" (Bytes.ofUInt32_length v.toUInt32)).map (fun n => n.toUInt32.toInt32) ?_
  rw [Bytes.ofUInt32, Bytes.toNat_ofNat (by simpa using v.toUInt32.toNat_lt)]
  simp

theorem reads_i64 (v : Int64) : Reads Read.i64 (Bytes.ofUInt64 v.toUInt64) v := by
  refine (reads_number "i8" (Bytes.ofUInt64_length v.toUInt64)).map (fun n => n.toUInt64.toInt64) ?_
  rw [Bytes.ofUInt64, Bytes.toNat_ofNat (by simpa using v.toUInt64.toNat_lt)]
  simp

theorem reads_f32 (v : UInt32) : Reads Read.f32 (Bytes.ofUInt32 v) v := by
  refine (reads_number "f4" (Bytes.ofUInt32_length v)).map Nat.toUInt32 ?_
  rw [Bytes.ofUInt32, Bytes.toNat_ofNat (by simpa using v.toNat_lt)]
  simp

theorem reads_f64 (v : UInt64) : Reads Read.f64 (Bytes.ofUInt64 v) v := by
  refine (reads_number "f8" (Bytes.ofUInt64_length v)).map Nat.toUInt64 ?_
  rw [Bytes.ofUInt64, Bytes.toNat_ofNat (by simpa using v.toNat_lt)]
  simp

theorem delimited_u8 : Delimited Read.u8 := (delimited_number 1 "u1").map _

theorem delimited_u16 : Delimited Read.u16 := (delimited_number 2 "u2").map _

theorem delimited_u32 : Delimited Read.u32 := delimited_number 4 "u4"

theorem delimited_i32 : Delimited Read.i32 := (delimited_number 4 "i4").map _

theorem delimited_i64 : Delimited Read.i64 := (delimited_number 8 "i8").map _

theorem delimited_f32 : Delimited Read.f32 := (delimited_number 4 "f4").map _

theorem delimited_f64 : Delimited Read.f64 := (delimited_number 8 "f8").map _

/-- Two bytes make a 16-bit number, and only its own two bytes do. -/
theorem u16_ok {input output : Input} {v : UInt16} (h : Read.u16 input = .ok (v, output)) :
    Between input (Bytes.ofUInt16 v) output := by
  obtain ⟨n, middle, number, done⟩ := StateExcept.bind_eq_ok.mp h
  obtain ⟨rfl, rfl⟩ := Prod.mk.inj (Except.ok.inj done)
  obtain ⟨bytes, length, between, rfl⟩ := number_ok number
  have small := Bytes.toNat_lt bytes
  rw [length] at small
  have back : (Bytes.toNat bytes).toUInt16.toNat = Bytes.toNat bytes :=
    Text.Utf16.toNat_toUInt16 (by simpa using small)
  have same : Bytes.ofUInt16 (Bytes.toNat bytes).toUInt16 = bytes := by
    rw [Bytes.ofUInt16, back, ← length, Bytes.ofNat_toNat]
  rwa [same]

theorem reads_bytes (bytes : List UInt8) : Reads (Read.bytes bytes.length) bytes bytes := by
  intro rest offset
  simp only [Read.bytes, Bytes.split?_append]

theorem bytes_ok {n : Nat} {input output : Input} {bytes : List UInt8}
    (h : Read.bytes n input = .ok (bytes, output)) :
    bytes.length = n ∧ Between input bytes output := by
  unfold Read.bytes at h
  split at h
  · rename_i front rest taken
    obtain ⟨rfl, rfl⟩ := Prod.mk.inj (Except.ok.inj h)
    obtain ⟨whole, length⟩ := Bytes.eq_append_of_split? taken
    exact ⟨length, whole, by rw [length]⟩
  · cases h

theorem delimited_bytes (n : Nat) : Delimited (Read.bytes n) := by
  intro input output bytes h
  obtain ⟨rfl, between⟩ := bytes_ok h
  exact ⟨bytes, between, reads_bytes bytes⟩

theorem Reads.times {item : Read α} {encode : α → List UInt8} {items : List α}
    (h : ∀ a ∈ items, Reads item (encode a) a) (found : List α) :
    Reads (Read.times item items.length found) (items.flatMap encode)
      (found.reverse ++ items) := by
  induction items generalizing found with
  | nil =>
    rw [List.append_nil]
    exact Reads.pure found.reverse
  | cons a items ih =>
    have first := h a List.mem_cons_self
    have others := ih (fun b mem => h b (List.mem_cons_of_mem a mem)) (a :: found)
    rw [List.reverse_cons, List.append_assoc, List.singleton_append] at others
    exact first.bind others

theorem Reads.list {item : Read α} {encode : α → List UInt8} {items : List α}
    (h : ∀ a ∈ items, Reads item (encode a) a) (short : items.length < 65536) :
    Reads (Read.list item) (encodeList encode items) items := by
  refine (reads_length16 short).bind ?_
  rw [Text.Utf16.toNat_toUInt16 short]
  exact Reads.times h []

theorem Delimited.times {item : Read α} (h : Delimited item) (n : Nat) (found : List α) :
    Delimited (Read.times item n found) := by
  induction n generalizing found with
  | zero => exact Delimited.pure _
  | succ n ih => exact h.bind fun a => ih (a :: found)

theorem Delimited.list {item : Read α} (h : Delimited item) : Delimited (Read.list item) :=
  delimited_u16.bind fun n => h.times n.toNat []

theorem times_ok {item : Read α} {n : Nat} {found items : List α} {input output : Input}
    (h : Read.times item n found input = .ok (items, output)) :
    items.length = found.length + n := by
  induction n generalizing found input with
  | zero =>
    obtain ⟨rfl, -⟩ := Prod.mk.inj (Except.ok.inj h)
    simp
  | succ n ih =>
    obtain ⟨a, middle, -, others⟩ := StateExcept.bind_eq_ok.mp h
    rw [ih others, List.length_cons]
    omega

/-- A sequence that was read has no more items than its length can count. -/
theorem list_ok_length {item : Read α} {items : List α} {input output : Input}
    (h : Read.list item input = .ok (items, output)) : items.length < 65536 := by
  obtain ⟨n, middle, -, others⟩ := StateExcept.bind_eq_ok.mp h
  rw [times_ok others, List.length_nil, Nat.zero_add]
  exact n.toNat_lt

end Readers

namespace Constant

/-- The text of the constant is not too long for its length field. -/
def Fits : Constant → Prop
  | utf8 text => (Text.ModifiedUtf8.encode text).length < 65536
  | _ => True

theorem width_eq (c : Constant) : width c = 1 ∨ width c = 2 := by
  cases c <;> simp [width]

theorem width_pos (c : Constant) : 0 < width c := by
  have := c.width_eq
  omega

end Constant

theorem bytes_ofUInt16_two (first second : UInt16) {f : UInt16 → UInt16 → α} :
    Reads (do return f (← Read.u16) (← Read.u16)) (Bytes.ofUInt16 first ++ Bytes.ofUInt16 second)
      (f first second) :=
  (reads_u16 first).bind ((reads_u16 second).map (f first) rfl)

theorem reads_payload {c : Constant} (fits : c.Fits) (start : Nat) :
    Reads (Read.payload start c.tag) c.payload c := by
  cases c with
  | utf8 text =>
    refine (reads_length16 fits).bind ?_
    rw [Text.Utf16.toNat_toUInt16 fits]
    refine (reads_bytes (Text.ModifiedUtf8.encode text)).bind_last ?_
    rw [Text.ModifiedUtf8.decode_encode]
    exact Reads.pure _
  | integer value => exact (reads_i32 value).map _ rfl
  | float bits => exact (reads_f32 bits).map _ rfl
  | long value => exact (reads_i64 value).map _ rfl
  | double bits => exact (reads_f64 bits).map _ rfl
  | classRef name => exact (reads_u16 name).map _ rfl
  | string text => exact (reads_u16 text).map _ rfl
  | fieldRef owner member => exact bytes_ofUInt16_two owner member
  | methodRef owner member ofInterface =>
    cases ofInterface
    · exact bytes_ofUInt16_two owner member
    · exact bytes_ofUInt16_two owner member
  | nameAndType name descriptor => exact bytes_ofUInt16_two name descriptor
  | methodHandle kind member =>
    exact (reads_u8 kind).bind ((reads_u16 member).map (Constant.methodHandle kind) rfl)
  | methodType descriptor => exact (reads_u16 descriptor).map _ rfl
  | dynamic bootstrap member => exact bytes_ofUInt16_two bootstrap member
  | invokeDynamic bootstrap member => exact bytes_ofUInt16_two bootstrap member
  | module name => exact (reads_u16 name).map _ rfl
  | package name => exact (reads_u16 name).map _ rfl

theorem delimited_two {f : UInt16 → UInt16 → α} :
    Delimited (do return f (← Read.u16) (← Read.u16)) :=
  delimited_u16.bind fun first => delimited_u16.map (f first)

theorem delimited_payload (start : Nat) (tag : UInt8) : Delimited (Read.payload start tag) := by
  unfold Read.payload
  split
  · refine delimited_u16.bind fun length => (delimited_bytes _).bind fun encoded => ?_
    split
    · exact Delimited.pure _
    · exact Delimited.refuseAt
  · exact delimited_i32.map _
  · exact delimited_f32.map _
  · exact delimited_i64.map _
  · exact delimited_f64.map _
  · exact delimited_u16.map _
  · exact delimited_u16.map _
  · exact delimited_two
  · exact delimited_two
  · exact delimited_two
  · exact delimited_two
  · exact delimited_u8.bind fun kind => delimited_u16.map _
  · exact delimited_u16.map _
  · exact delimited_two
  · exact delimited_two
  · exact delimited_u16.map _
  · exact delimited_u16.map _
  · exact Delimited.refuseAt

/-- The offset of a tag matters to faults only. -/
theorem payload_anywhere {start : Nat} {tag : UInt8} {input output : Input} {c : Constant}
    (h : Read.payload start tag input = .ok (c, output)) (start' : Nat) :
    Read.payload start' tag input = .ok (c, output) := by
  unfold Read.payload at h ⊢
  split at h
  · obtain ⟨length, one, isLength, h⟩ := StateExcept.bind_eq_ok.mp h
    obtain ⟨encoded, two, isEncoded, h⟩ := StateExcept.bind_eq_ok.mp h
    refine StateExcept.bind_eq_ok.mpr ⟨length, one, isLength, StateExcept.bind_eq_ok.mpr
      ⟨encoded, two, isEncoded, ?_⟩⟩
    cases decoded : Text.ModifiedUtf8.decode encoded with
    | ok text =>
      rw [decoded] at h
      exact h
    | error fault =>
      rw [decoded] at h
      cases h
  all_goals first | exact h | cases h

theorem fits_of_one {read : Read α} {f : α → Constant} (fits : ∀ a, (f a).Fits)
    {input output : Input} {c : Constant} (h : (do return f (← read)) input = .ok (c, output)) :
    c.Fits := by
  obtain ⟨a, middle, -, done⟩ := StateExcept.bind_eq_ok.mp h
  obtain ⟨rfl, -⟩ := Prod.mk.inj (Except.ok.inj done)
  exact fits a

theorem fits_of_two {first : Read α} {second : Read β} {f : α → β → Constant}
    (fits : ∀ a b, (f a b).Fits) {input output : Input} {c : Constant}
    (h : (do return f (← first) (← second)) input = .ok (c, output)) : c.Fits := by
  obtain ⟨a, middle, -, rest⟩ := StateExcept.bind_eq_ok.mp h
  exact fits_of_one (fits a) rest

/-- A text that was read is no longer than its length field could tell. -/
theorem fits_of_payload {start : Nat} {tag : UInt8} {input output : Input} {c : Constant}
    (h : Read.payload start tag input = .ok (c, output)) : c.Fits := by
  unfold Read.payload at h
  split at h
  · obtain ⟨length, one, isLength, h⟩ := StateExcept.bind_eq_ok.mp h
    obtain ⟨encoded, two, isEncoded, h⟩ := StateExcept.bind_eq_ok.mp h
    obtain ⟨size, -⟩ := bytes_ok isEncoded
    cases decoded : Text.ModifiedUtf8.decode encoded with
    | ok text =>
      rw [decoded] at h
      obtain ⟨rfl, -⟩ := Prod.mk.inj (Except.ok.inj h)
      have short := Text.ModifiedUtf8.encode_length_le_of_decode decoded
      have := length.toNat_lt
      simp only [Constant.Fits]
      omega
    | error fault =>
      rw [decoded] at h
      cases h
  all_goals first
    | cases h
    | refine fits_of_two ?_ h; exact fun _ _ => trivial
    | refine fits_of_one ?_ h; exact fun _ => trivial

theorem reads_constant {tag : UInt8} {bytes : List UInt8} {c : Constant}
    (h : ∀ start, Reads (Read.payload start tag) bytes c) :
    Reads Read.constant (tag :: bytes) c := by
  intro rest offset
  have taken := (reads_u8 tag).bind (h offset) rest offset
  exact taken

theorem reads_encode {c : Constant} (fits : c.Fits) : Reads Read.constant c.encode c :=
  reads_constant (reads_payload fits)

theorem delimited_constant : Delimited Read.constant := by
  intro input output c h
  obtain ⟨tag, middle, isTag, rest⟩ :=
    StateExcept.bind_eq_ok.mp
      (show (Read.u8 >>= Read.payload input.offset) input = .ok (c, output) from h)
  obtain ⟨front, before, readsFront⟩ := delimited_u8 _ _ _ isTag
  obtain ⟨back, after, readsBack⟩ := delimited_payload _ _ _ _ _ rest
  refine ⟨front ++ back, before.append after, fun more offset => ?_⟩
  have anywhere : Reads (Read.payload offset tag) back c := fun more place =>
    payload_anywhere (readsBack more place) offset
  exact readsFront.bind anywhere more offset

/-- Constants that take exactly the given number of free slots of a table. -/
inductive Fills : Nat → ConstantTable → List UInt8 → ConstantTable → Prop where
  | done (t : ConstantTable) : Fills 0 t [] t
  | more {slots : Nat} {t u : ConstantTable} {front back : List UInt8} {c : Constant}
      (read : Reads Read.constant front c) (room : width c ≤ slots)
      (others : Fills (slots - width c) (t.push c) back u) : Fills slots t (front ++ back) u

theorem Fills.next {slots : Nat} {t u : ConstantTable} {bytes : List UInt8}
    (h : Fills slots t bytes u) : u.next = t.next + slots := by
  induction h with
  | done => rfl
  | more read room others ih =>
    rw [ih, SlotTable.next_push]
    omega

theorem Fills.ascending {slots : Nat} {t u : ConstantTable} {bytes : List UInt8}
    (h : Fills slots t bytes u) (start : t.Ascending) : u.Ascending := by
  induction h with
  | done => exact start
  | @more _ _ _ _ _ c read room others ih => exact ih (start.push c.width_pos)

theorem Fills.above {slots n : Nat} {t u : ConstantTable} {bytes : List UInt8}
    (h : Fills slots t bytes u) (old : ∀ entry ∈ t.toList, n ≤ entry.1) (later : n ≤ t.next) :
    ∀ entry ∈ u.toList, n ≤ entry.1 := by
  induction h with
  | done => exact old
  | more read room others ih =>
    refine ih ?_ (by rw [SlotTable.next_push]; omega)
    intro entry here
    rw [SlotTable.toList_push, List.mem_append, List.mem_singleton] at here
    rcases here with before | rfl
    · exact old entry before
    · exact later

theorem fits_of_reads {bytes : List UInt8} {c : Constant} (h : Reads Read.constant bytes c) :
    c.Fits := by
  obtain ⟨tag, middle, -, rest⟩ := StateExcept.bind_eq_ok.mp
    (show (Read.u8 >>= Read.payload 0) ⟨bytes ++ [], 0⟩ = _ from h [] 0)
  exact fits_of_payload rest

theorem Fills.fits {slots : Nat} {t u : ConstantTable} {bytes : List UInt8}
    (h : Fills slots t bytes u) (old : ∀ c ∈ t.elements, c.Fits) : ∀ c ∈ u.elements, c.Fits := by
  induction h with
  | done => exact old
  | @more slots t u front back c read room others ih =>
    refine ih ?_
    intro d here
    have grown : (t.push c).elements = t.elements ++ [c] := SlotTable.elements_append t [c]
    rw [grown, List.mem_append, List.mem_singleton] at here
    rcases here with before | rfl
    · exact old d before
    · exact fits_of_reads read

theorem Fills.append {slots more : Nat} {t u v : ConstantTable} {front back : List UInt8}
    (h : Fills slots t front u) (g : Fills more u back v) :
    Fills (slots + more) t (front ++ back) v := by
  induction h with
  | done => simpa using g
  | @more slots t u front back c read room others ih =>
    rw [List.append_assoc]
    refine .more read (by omega) ?_
    have rest := ih g
    rwa [← Nat.sub_add_comm room] at rest

theorem Fills.single {t : ConstantTable} {c : Constant} (fits : c.Fits) :
    Fills (width c) t c.encode (t.push c) := by
  have filled := Fills.more (reads_encode fits) (Nat.le_refl _)
    (by rw [Nat.sub_self]; exact .done (t.push c))
  rwa [List.append_nil] at filled

/-- The table after constants were added in order. -/
theorem Fills.elements (cs : List Constant) (fits : ∀ c ∈ cs, c.Fits) (t : ConstantTable) :
    Fills ((t.append cs).next - t.next) t (cs.flatMap Constant.encode) (t.append cs) := by
  induction cs generalizing t with
  | nil =>
    simp only [SlotTable.append, List.foldl_nil, Nat.sub_self]
    exact .done t
  | cons c cs ih =>
    have first : Fills (width c) t c.encode (t.push c) := .single (fits c List.mem_cons_self)
    have others := ih (fun d mem => fits d (List.mem_cons_of_mem c mem)) (t.push c)
    have joined := first.append others
    have grown := others.next
    rw [SlotTable.next_push] at joined grown
    have count : width c + (((t.push c).append cs).next - (t.next + width c)) =
        ((t.push c).append cs).next - t.next := by omega
    rw [count] at joined
    exact joined

theorem constantsInto_one {t : ConstantTable} : Read.constantsInto 1 t = (do
    let c ← Read.constant
    if width c = 1 then return t.push c else Read.refuse .poolOverrun) := by
  rw [Read.constantsInto]

theorem constantsInto_two {slots : Nat} {t : ConstantTable} :
    Read.constantsInto (slots + 2) t = (do
      let c ← Read.constant
      if width c = 1 then Read.constantsInto (slots + 1) (t.push c)
      else Read.constantsInto slots (t.push c)) := by
  rw [Read.constantsInto]

theorem Fills.reads {slots : Nat} {t u : ConstantTable} {bytes : List UInt8}
    (h : Fills slots t bytes u) : Reads (Read.constantsInto slots t) bytes u := by
  induction h with
  | done t => exact Reads.pure t
  | @more slots t u front back c read room others ih =>
    have wide := c.width_eq
    match slots with
    | 0 => omega
    | 1 =>
      have one : width c = 1 := by omega
      rw [constantsInto_one]
      refine read.bind ?_
      rw [if_pos one]
      rw [one] at ih
      exact ih
    | slots + 2 =>
      rw [constantsInto_two]
      refine read.bind ?_
      rcases wide with one | two
      · rw [if_pos one]
        rw [one] at ih
        exact ih
      · rw [if_neg (by omega)]
        rw [two] at ih
        exact ih

theorem constantsInto_ok {slots : Nat} {t u : ConstantTable} {input output : Input}
    (h : Read.constantsInto slots t input = .ok (u, output)) :
    ∃ bytes, Between input bytes output ∧ Fills slots t bytes u := by
  induction slots using Nat.strongRecOn generalizing t input with
  | ind slots ih =>
    match slots with
    | 0 =>
      obtain ⟨rfl, rfl⟩ := Prod.mk.inj (Except.ok.inj h)
      exact ⟨[], Between.nil _, .done t⟩
    | 1 =>
      rw [constantsInto_one] at h
      obtain ⟨c, middle, first, rest⟩ := StateExcept.bind_eq_ok.mp h
      obtain ⟨front, before, read⟩ := delimited_constant _ _ _ first
      split at rest
      · rename_i one
        obtain ⟨rfl, rfl⟩ := Prod.mk.inj (Except.ok.inj rest)
        refine ⟨front ++ [], by simpa using before, .more read (by omega) ?_⟩
        rw [one]
        exact .done _
      · cases rest
    | slots + 2 =>
      rw [constantsInto_two] at h
      obtain ⟨c, middle, first, rest⟩ := StateExcept.bind_eq_ok.mp h
      obtain ⟨front, before, read⟩ := delimited_constant _ _ _ first
      have wide := c.width_eq
      split at rest
      · rename_i one
        obtain ⟨back, after, filled⟩ := ih (slots + 1) (by omega) rest
        refine ⟨front ++ back, before.append after, .more read (by omega) ?_⟩
        rw [one]
        exact filled
      · rename_i notOne
        have two : width c = 2 := by omega
        obtain ⟨back, after, filled⟩ := ih slots (by omega) rest
        refine ⟨front ++ back, before.append after, .more read (by omega) ?_⟩
        rw [two]
        exact filled

end JavaSnippet.ClassFile
