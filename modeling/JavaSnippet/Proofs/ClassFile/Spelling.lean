import JavaSnippet.Proofs.ClassFile.Flags
import JavaSnippet.Proofs.ClassFile.RoundTrip
import Mathlib.Data.List.Forall2
/-!
Class files as their bytes spell them: flag words whole, texts by their payloads. Reading a class
file only drops bits of flag words and the choice among several payloads of one text, and bytes
spell one class file at most.
-/
namespace JavaSnippet.ClassFile

variable {α β : Type}

/-- What is written for an item tells the item and where it ends. -/
def Separable (fits : α → Prop) (write : α → List UInt8) : Prop :=
  ∀ ⦃a b⦄ ⦃x y : List UInt8⦄, fits a → fits b → write a ++ x = write b ++ y → a = b ∧ x = y

theorem separable_of_reads {read : Read α} {fits : α → Prop} {write : α → List UInt8}
    (h : ∀ a, fits a → Reads read (write a) a) : Separable fits write := by
  intro a b x y fitsA fitsB same
  have readA := h a fitsA x 0
  rw [same, h b fitsB y 0] at readA
  obtain ⟨value, input⟩ := Prod.mk.inj (Except.ok.inj readA)
  exact ⟨value.symm, (Input.mk.inj input).1.symm⟩

theorem separable_u16 : Separable (fun _ => True) Bytes.ofUInt16 :=
  separable_of_reads fun v _ => reads_u16 v

theorem separable_length16 : Separable (· < 65536) Bytes.ofLength16 := by
  intro m n x y small small' same
  obtain ⟨bytes, rest⟩ := List.append_inj same (by simp)
  refine ⟨?_, rest⟩
  calc
    m = Bytes.toNat (Bytes.ofLength16 m) := (Bytes.toNat_ofNat (by simpa using small)).symm
    _ = Bytes.toNat (Bytes.ofLength16 n) := by rw [bytes]
    _ = n := Bytes.toNat_ofNat (by simpa using small')

theorem separable_list {item : Read α} {fits : α → Prop} {write : α → List UInt8}
    (h : ∀ a, fits a → Reads item (write a) a) :
    Separable (fun items => (∀ a ∈ items, fits a) ∧ items.length < 65536) (encodeList write) :=
  separable_of_reads fun _ all => Reads.list (fun a mem => h a (all.1 a mem)) all.2

/-- What a reader takes was written for an item that fits, of which it gives a view. -/
def Recovers (read : Read α) (fits : β → Prop) (write : β → List UInt8) (view : β → α) : Prop :=
  ∀ ⦃input output a⦄, read input = .ok (a, output) →
    ∃ b, fits b ∧ view b = a ∧ Between input (write b) output

theorem Recovers.of_reads {read : Read α} {fits : β → Prop} {write : β → List UInt8} {view : β → α}
    (h : Recovers read fits write view) {bytes : List UInt8} {a : α} (reads : Reads read bytes a) :
    ∃ b, fits b ∧ view b = a ∧ write b = bytes := by
  obtain ⟨b, isFit, isView, between⟩ := h (reads [] 0)
  refine ⟨b, isFit, isView, ?_⟩
  simpa using between.1.symm

theorem recovers_u16 : Recovers Read.u16 (fun _ => True) Bytes.ofUInt16 id :=
  fun _ _ v read => ⟨v, trivial, rfl, u16_ok read⟩

theorem Recovers.times {item : Read α} {fits : β → Prop} {write : β → List UInt8} {view : β → α}
    (h : Recovers item fits write view) {n : Nat} {found items : List α} {input output : Input}
    (read : Read.times item n found input = .ok (items, output)) :
    ∃ bs : List β, (∀ b ∈ bs, fits b) ∧ bs.length = n ∧ items = found.reverse ++ bs.map view ∧
      Between input (bs.flatMap write) output := by
  induction n generalizing found input with
  | zero =>
    obtain ⟨rfl, rfl⟩ := Prod.mk.inj (Except.ok.inj read)
    exact ⟨[], by simp, rfl, by simp, Between.nil _⟩
  | succ n ih =>
    obtain ⟨a, middle, first, rest⟩ := StateExcept.bind_eq_ok.mp read
    obtain ⟨b, isFit, rfl, before⟩ := h first
    obtain ⟨bs, fit, length, rfl, after⟩ := ih rest
    refine ⟨b :: bs, List.forall_mem_cons.mpr ⟨isFit, fit⟩, by rw [List.length_cons, length], ?_,
      before.append after⟩
    simp

theorem Recovers.list {item : Read α} {fits : β → Prop} {write : β → List UInt8} {view : β → α}
    (h : Recovers item fits write view) :
    Recovers (Read.list item) (fun bs => (∀ b ∈ bs, fits b) ∧ bs.length < 65536)
      (encodeList write) (List.map view) := by
  intro input output items read
  obtain ⟨count, middle, isCount, rest⟩ := StateExcept.bind_eq_ok.mp read
  obtain ⟨bs, fit, length, rfl, after⟩ := h.times rest
  refine ⟨bs, ⟨fit, ?_⟩, rfl, ?_⟩
  · rw [length]
    exact count.toNat_lt
  · have before : Between input (Bytes.ofLength16 bs.length) middle := by
      rw [length]
      exact u16_ok isCount
    exact before.append after

/-- A constant as it is spelled. A text may be spelled longer than it has to be. -/
inductive SpelledConstant where
  | text (payload : List UInt8)
  | other (constant : Constant)

namespace SpelledConstant

def bytes : SpelledConstant → List UInt8
  | text payload => 1 :: (Bytes.ofLength16 payload.length ++ payload)
  | other constant => constant.encode

def slots : SpelledConstant → Nat
  | text _ => 1
  | other constant => width constant

def totalSlots : List SpelledConstant → Nat
  | [] => 0
  | s :: ss => s.slots + totalSlots ss

/-- Texts are spelled by their payloads, which a length field can count. -/
def Fits : SpelledConstant → Prop
  | text payload => payload.length < 65536
  | other constant => constant.tag ≠ 1

/-- The constant that is read. -/
def Means : SpelledConstant → Constant → Prop
  | text payload, c => ∃ text, Text.ModifiedUtf8.decode payload = .ok text ∧ c = .utf8 text
  | other constant, c => c = constant

/-- A text is spelled by the encoding of what it is decoded to. -/
def Canonical : SpelledConstant → Prop
  | text payload => ∃ text, Text.ModifiedUtf8.decode payload = .ok text ∧
      payload = Text.ModifiedUtf8.encode text
  | other _ => True

end SpelledConstant

theorem number_spelled {n : Nat} {form : String} {input output : Input} {value : Nat}
    (h : Read.number n form input = .ok (value, output)) :
    value < 256 ^ n ∧ Between input (Bytes.ofNat n value) output := by
  obtain ⟨bytes, rfl, between, rfl⟩ := number_ok h
  rw [Bytes.ofNat_toNat]
  exact ⟨Bytes.toNat_lt bytes, between⟩

theorem recovers_number {n : Nat} {form : String} {f : Nat → α} {write : α → List UInt8}
    (h : ∀ value, value < 256 ^ n → write (f value) = Bytes.ofNat n value) :
    Recovers (do return f (← Read.number n form)) (fun _ => True) write id := by
  intro input output a read
  obtain ⟨value, middle, number, done⟩ := StateExcept.bind_eq_ok.mp read
  obtain ⟨rfl, rfl⟩ := Prod.mk.inj (Except.ok.inj done)
  obtain ⟨small, between⟩ := number_spelled number
  exact ⟨f value, trivial, rfl, by rwa [h value small]⟩

theorem recovers_u8 : Recovers Read.u8 (fun _ => True) (fun b => [b]) id :=
  recovers_number fun value small => by
    simp [Bytes.ofNat]

theorem ofUInt32_toUInt32 {value : Nat} (small : value < 256 ^ 4) :
    Bytes.ofUInt32 value.toUInt32 = Bytes.ofNat 4 value := by
  have same : value.toUInt32.toNat = value := Nat.mod_eq_of_lt small
  rw [Bytes.ofUInt32, same]

theorem ofUInt64_toUInt64 {value : Nat} (small : value < 256 ^ 8) :
    Bytes.ofUInt64 value.toUInt64 = Bytes.ofNat 8 value := by
  have same : value.toUInt64.toNat = value := Nat.mod_eq_of_lt small
  rw [Bytes.ofUInt64, same]

theorem recovers_i32 :
    Recovers Read.i32 (fun _ => True) (fun v => Bytes.ofUInt32 v.toUInt32) id :=
  recovers_number (f := fun value => value.toUInt32.toInt32) fun _ small =>
    ofUInt32_toUInt32 small

theorem recovers_f32 : Recovers Read.f32 (fun _ => True) Bytes.ofUInt32 id :=
  recovers_number fun _ small => ofUInt32_toUInt32 small

theorem recovers_i64 :
    Recovers Read.i64 (fun _ => True) (fun v => Bytes.ofUInt64 v.toUInt64) id :=
  recovers_number (f := fun value => value.toUInt64.toInt64) fun _ small =>
    ofUInt64_toUInt64 small

theorem recovers_f64 : Recovers Read.f64 (fun _ => True) Bytes.ofUInt64 id :=
  recovers_number fun _ small => ofUInt64_toUInt64 small

theorem Recovers.one {read : Read α} {write : α → List UInt8}
    (h : Recovers read (fun _ => True) write id) {f : α → β} {input output : Input} {b : β}
    (made : (do return f (← read)) input = .ok (b, output)) :
    ∃ a, b = f a ∧ Between input (write a) output := by
  obtain ⟨a, middle, first, done⟩ := StateExcept.bind_eq_ok.mp made
  obtain ⟨rfl, rfl⟩ := Prod.mk.inj (Except.ok.inj done)
  obtain ⟨a, -, rfl, between⟩ := h first
  exact ⟨a, rfl, between⟩

theorem Recovers.two {first : Read α} {write : α → List UInt8}
    (h : Recovers first (fun _ => True) write id) {f : α → UInt16 → β}
    {input output : Input} {b : β}
    (made : (do return f (← first) (← Read.u16)) input = .ok (b, output)) :
    ∃ a v, b = f a v ∧ Between input (write a ++ Bytes.ofUInt16 v) output := by
  obtain ⟨a, middle, isFirst, rest⟩ := StateExcept.bind_eq_ok.mp made
  obtain ⟨a, -, rfl, before⟩ := h isFirst
  obtain ⟨v, rfl, after⟩ := recovers_u16.one rest
  exact ⟨a, v, rfl, before.append after⟩

/-- All constants but texts are spelled in one way. -/
theorem payload_spelled {start : Nat} {tag : UInt8} {input output : Input} {c : Constant}
    (noText : tag ≠ 1) (h : Read.payload start tag input = .ok (c, output)) :
    c.tag = tag ∧ Between input c.payload output := by
  unfold Read.payload at h
  split at h
  · exact absurd rfl noText
  · obtain ⟨value, rfl, between⟩ := recovers_i32.one h
    exact ⟨rfl, between⟩
  · obtain ⟨bits, rfl, between⟩ := recovers_f32.one h
    exact ⟨rfl, between⟩
  · obtain ⟨value, rfl, between⟩ := recovers_i64.one h
    exact ⟨rfl, between⟩
  · obtain ⟨bits, rfl, between⟩ := recovers_f64.one h
    exact ⟨rfl, between⟩
  all_goals first
    | (obtain ⟨index, rfl, between⟩ := recovers_u16.one h; exact ⟨rfl, between⟩)
    | (obtain ⟨first, second, rfl, between⟩ := recovers_u16.two h; exact ⟨rfl, between⟩)
    | (obtain ⟨kind, member, rfl, between⟩ := recovers_u8.two h; exact ⟨rfl, between⟩)
    | cases h

/-- Reads a constant without looking into texts. -/
def Read.spelledConstant : Read SpelledConstant := do
  let tag ← Read.u8
  if tag = 1 then
    let length ← Read.u16
    return .text (← Read.bytes length.toNat)
  else return .other (← Read.payload 0 tag)

namespace SpelledConstant

theorem reads_bytes {s : SpelledConstant} (fits : s.Fits) :
    Reads Read.spelledConstant s.bytes s := by
  cases s with
  | text payload =>
    refine (reads_u8 1).bind ?_
    rw [if_pos rfl]
    refine (reads_length16 fits).bind ?_
    rw [Text.Utf16.toNat_toUInt16 fits]
    exact (ClassFile.reads_bytes payload).map SpelledConstant.text rfl
  | other c =>
    have noText : c.Fits := by
      cases c with
      | utf8 text => exact absurd rfl fits
      | _ => trivial
    refine (reads_u8 c.tag).bind ?_
    rw [if_neg fits]
    exact (reads_payload noText 0).map SpelledConstant.other rfl

theorem separable : Separable Fits bytes := separable_of_reads fun _ fits => reads_bytes fits

theorem slots_eq {s : SpelledConstant} {c : Constant} (h : s.Means c) : s.slots = width c := by
  cases s with
  | text payload =>
    obtain ⟨text, -, rfl⟩ := h
    rfl
  | other constant =>
    obtain rfl : c = constant := h
    rfl

theorem slots_pos (s : SpelledConstant) : 0 < s.slots := by
  cases s with
  | text payload => exact Nat.one_pos
  | other constant => exact constant.width_pos

/-- Whatever is read as a constant spells it. -/
theorem of_reads {bytes : List UInt8} {c : Constant} (h : Reads Read.constant bytes c) :
    ∃ s : SpelledConstant, s.Fits ∧ s.Means c ∧ s.bytes = bytes := by
  obtain ⟨tag, middle, isTag, rest⟩ := StateExcept.bind_eq_ok.mp
    (show (Read.u8 >>= Read.payload 0) ⟨bytes ++ [], 0⟩ = _ from h [] 0)
  obtain ⟨tag, -, rfl, before⟩ := recovers_u8 isTag
  by_cases isText : tag = 1
  · subst isText
    obtain ⟨length, one, isLength, rest⟩ := StateExcept.bind_eq_ok.mp rest
    obtain ⟨payload, two, isPayload, rest⟩ := StateExcept.bind_eq_ok.mp rest
    obtain ⟨size, after⟩ := bytes_ok isPayload
    cases decoded : Text.ModifiedUtf8.decode payload with
    | error fault =>
      rw [decoded] at rest
      cases rest
    | ok text =>
      rw [decoded] at rest
      obtain ⟨rfl, rfl⟩ := Prod.mk.inj (Except.ok.inj rest)
      refine ⟨.text payload, ?_, ⟨text, decoded, rfl⟩, ?_⟩
      · show payload.length < 65536
        rw [size]
        exact length.toNat_lt
      · have whole := before.append ((u16_ok isLength).append after)
        have spelled : bytes = [1] ++ (Bytes.ofUInt16 length ++ payload) := by
          simpa using whole.1
        rw [spelled, SpelledConstant.bytes, Bytes.ofLength16, size]
        rfl
  · obtain ⟨rfl, after⟩ := payload_spelled isText rest
    refine ⟨.other c, isText, rfl, ?_⟩
    simpa [SpelledConstant.bytes, Constant.encode] using (before.append after).1.symm

/-- How a constant is written. -/
def ofConstant : Constant → SpelledConstant
  | .utf8 content => .text (Text.ModifiedUtf8.encode content)
  | c => .other c

theorem bytes_ofConstant (c : Constant) : (ofConstant c).bytes = c.encode := by
  cases c <;> rfl

theorem canonical_ofConstant (c : Constant) : (ofConstant c).Canonical := by
  cases c with
  | utf8 text => exact ⟨text, Text.ModifiedUtf8.decode_encode text, rfl⟩
  | _ => trivial

theorem means_ofConstant (c : Constant) : (ofConstant c).Means c := by
  cases c with
  | utf8 text => exact ⟨text, Text.ModifiedUtf8.decode_encode text, rfl⟩
  | _ => rfl

theorem fits_ofConstant {s : SpelledConstant} {c : Constant} (means : s.Means c) (fits : s.Fits) :
    (ofConstant c).Fits := by
  cases s with
  | text payload =>
    obtain ⟨text, decoded, rfl⟩ := means
    have short := Text.ModifiedUtf8.encode_length_le_of_decode decoded
    have room : payload.length < 65536 := fits
    exact Nat.lt_of_le_of_lt short room
  | other constant =>
    obtain rfl : c = constant := means
    cases c with
    | utf8 text => exact absurd rfl fits
    | _ => exact fits

theorem eq_ofConstant {s : SpelledConstant} {c : Constant} (means : s.Means c) (fits : s.Fits)
    (canonical : s.Canonical) : s = ofConstant c := by
  cases s with
  | text payload =>
    obtain ⟨text, decoded, rfl⟩ := means
    obtain ⟨same, again, spelled⟩ := canonical
    rw [decoded] at again
    rw [spelled, ← Except.ok.inj again]
    rfl
  | other constant =>
    obtain rfl : c = constant := means
    cases c with
    | utf8 text => exact absurd rfl fits
    | _ => rfl

theorem slots_ofConstants {ss : List SpelledConstant} {cs : List Constant}
    (means : List.Forall₂ Means ss cs) : totalSlots ss = totalSlots (cs.map ofConstant) := by
  induction means with
  | nil => rfl
  | @cons s c ss cs isMeant others ih =>
    rw [List.map_cons, totalSlots, totalSlots, ih, slots_eq isMeant,
      slots_eq (means_ofConstant c)]

theorem fits_ofConstants {ss : List SpelledConstant} {cs : List Constant}
    (means : List.Forall₂ Means ss cs) (fits : ∀ s ∈ ss, s.Fits) :
    ∀ k ∈ cs.map ofConstant, k.Fits := by
  induction means with
  | nil => simp
  | cons isMeant others ih =>
    obtain ⟨first, rest⟩ := List.forall_mem_cons.mp fits
    exact List.forall_mem_cons.mpr ⟨fits_ofConstant isMeant first, ih rest⟩

theorem eq_ofConstants {ss : List SpelledConstant} {cs : List Constant}
    (means : List.Forall₂ Means ss cs) (fits : ∀ s ∈ ss, s.Fits)
    (canonical : ∀ s ∈ ss, s.Canonical) : ss = cs.map ofConstant := by
  induction means with
  | nil => rfl
  | cons isMeant others ih =>
    obtain ⟨first, rest⟩ := List.forall_mem_cons.mp fits
    obtain ⟨isCanonical, areCanonical⟩ := List.forall_mem_cons.mp canonical
    rw [List.map_cons, ← eq_ofConstant isMeant first isCanonical, ← ih rest areCanonical]

/-- Constants that together take the same number of slots are separable as a whole. -/
theorem eq_of_flatMap_bytes {ss ts : List SpelledConstant} (fits : ∀ s ∈ ss, s.Fits)
    (fits' : ∀ t ∈ ts, t.Fits) (slots : totalSlots ss = totalSlots ts)
    {x y : List UInt8} (same : ss.flatMap bytes ++ x = ts.flatMap bytes ++ y) :
    ss = ts ∧ x = y := by
  induction ss generalizing ts with
  | nil =>
    cases ts with
    | nil => exact ⟨rfl, same⟩
    | cons t ts =>
      have := t.slots_pos
      simp only [totalSlots] at slots
      omega
  | cons s ss ih =>
    cases ts with
    | nil =>
      have := s.slots_pos
      simp only [totalSlots] at slots
      omega
    | cons t ts =>
      rw [List.flatMap_cons, List.flatMap_cons, List.append_assoc, List.append_assoc] at same
      obtain ⟨rfl, others⟩ :=
        separable (fits s List.mem_cons_self) (fits' t List.mem_cons_self) same
      simp only [totalSlots, Nat.add_left_cancel_iff] at slots
      obtain ⟨rfl, rest⟩ := ih (fun u mem => fits u (List.mem_cons_of_mem s mem))
        (fun u mem => fits' u (List.mem_cons_of_mem s mem)) slots others
      exact ⟨rfl, rest⟩

end SpelledConstant

/-- A table is read from constants that spell it one by one. -/
theorem Fills.spelled {slots : Nat} {t u : ConstantTable} {bytes : List UInt8}
    (h : Fills slots t bytes u) :
    ∃ ss : List SpelledConstant, (∀ s ∈ ss, s.Fits) ∧ SpelledConstant.totalSlots ss = slots ∧
      ss.flatMap SpelledConstant.bytes = bytes ∧
      ∃ cs, u = t.append cs ∧ List.Forall₂ SpelledConstant.Means ss cs := by
  induction h with
  | done t => exact ⟨[], by simp, rfl, rfl, [], rfl, .nil⟩
  | @more slots t u front back c read room others ih =>
    obtain ⟨ss, fits, count, rfl, cs, rfl, means⟩ := ih
    obtain ⟨s, isFit, isMeant, rfl⟩ := SpelledConstant.of_reads read
    refine ⟨s :: ss, List.forall_mem_cons.mpr ⟨isFit, fits⟩, ?_, rfl, c :: cs, rfl,
      .cons isMeant means⟩
    rw [SpelledConstant.totalSlots, count, SpelledConstant.slots_eq isMeant]
    omega

end JavaSnippet.ClassFile
