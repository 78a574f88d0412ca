import JavaSnippet.Proofs.Wire.Fields
import JavaSnippet.Wire.Event
/-!
Events as rows of fields. Which events a target reports is told apart by their codes, and these are
not zero, so who reads events with wider identifiers than they were written with either fails or
gets other events, unless the events hold no identifier that would be longer.
-/
namespace JavaSnippet.Wire

/-- The sizes, in the order in which the target tells them. -/
def IdSizes.all (s : IdSizes) : List Nat :=
  [s.field, s.method, s.object, s.referenceType, s.frame]

/-- The sizes are supported. -/
def IdSizes.Valid (s : IdSizes) : Prop :=
  ∀ n ∈ s.all, 1 ≤ n ∧ n ≤ 8

/-- The data in which the target tells the sizes. -/
def IdSizes.encode (s : IdSizes) : List UInt8 :=
  s.all.flatMap Bytes.ofLength32

def Happening.fields : Happening → List Field
  | vmDeath => []
  | vmStart thread | threadStart thread | threadDeath thread => [.id .object thread]
  | classPrepare thread typeTag owner signature status =>
    [.id .object thread, .byte typeTag, .id .referenceType owner, .text signature, .int status]
  | stop _ thread location =>
    [.id .object thread, .byte location.typeTag, .id .referenceType location.owner,
      .id .method location.method, .long location.index]

def Event.fields (e : Event) : List Field :=
  .byte e.happening.code :: .int e.request :: e.happening.fields

def EventSet.fields (set : EventSet) : List Field :=
  .byte set.suspendPolicy :: .count set.events.length :: set.events.flatMap Event.fields

section Reading

variable {sizes : IdSizes} {data rest : List UInt8}

theorem IdSizes.valid_default : IdSizes.Valid {} := by
  simp [Valid, all]

theorem IdSizes.encode_length (s : IdSizes) : s.encode.length = 20 := by
  simp [encode, all]

theorem IdSizes.Valid.bytes_le (valid : sizes.Valid) (width : Width) :
    width.bytes sizes ≤ width.bytes {} := by
  cases width with
  | fixed bytes => exact Nat.le_refl bytes
  | object => exact (valid sizes.object (by simp [IdSizes.all])).2
  | referenceType => exact (valid sizes.referenceType (by simp [IdSizes.all])).2
  | method => exact (valid sizes.method (by simp [IdSizes.all])).2

namespace Read

theorem objectId_ok (valid : sizes.Valid) {n : UInt64} :
    objectId sizes data = (.ok n, rest) ↔ (Field.id .object n).Starts sizes data rest :=
  id_ok .object rfl (valid.bytes_le .object)

theorem typeId_ok (valid : sizes.Valid) {n : UInt64} :
    typeId sizes data = (.ok n, rest) ↔ (Field.id .referenceType n).Starts sizes data rest :=
  id_ok .referenceType rfl (valid.bytes_le .referenceType)

theorem methodId_ok (valid : sizes.Valid) {n : UInt64} :
    methodId sizes data = (.ok n, rest) ↔ (Field.id .method n).Starts sizes data rest :=
  id_ok .method rfl (valid.bytes_le .method)

theorem thread_ok (valid : sizes.Valid) {make : UInt64 → Happening} {h : Happening} :
    (do return make (← objectId) : Read Happening) sizes data = (.ok h, rest) ↔
      ∃ thread, make thread = h ∧ Field.AllStart sizes [.id .object thread] data rest := by
  simp only [bind_ok, pure_ok, objectId_ok valid, Field.allStart_one]
  constructor
  · rintro ⟨thread, mid, starts, same, rfl⟩
    exact ⟨thread, same, starts⟩
  · rintro ⟨thread, same, starts⟩
    exact ⟨thread, rest, starts, same, rfl⟩

theorem location_ok (valid : sizes.Valid) {l : Location} :
    location sizes data = (.ok l, rest) ↔ Field.AllStart sizes
      [.byte l.typeTag, .id .referenceType l.owner, .id .method l.method, .long l.index]
      data rest := by
  simp only [location, bind_ok, pure_ok, u8_ok, typeId_ok valid, methodId_ok valid, u64_ok]
  constructor
  · rintro ⟨tag, a, tagged, owner, b, owned, method, c, named, index, d, placed, rfl, rfl⟩
    exact ⟨a, tagged, b, owned, c, named, d, placed, rfl⟩
  · rintro ⟨a, tagged, b, owned, c, named, d, placed, rfl⟩
    exact ⟨_, a, tagged, _, b, owned, _, c, named, _, d, placed, rfl, rfl⟩

theorem stop_ok (valid : sizes.Valid) (kind : StopKind) {h : Happening} :
    stop kind sizes data = (.ok h, rest) ↔ ∃ thread location, .stop kind thread location = h ∧
      Field.AllStart sizes (Happening.stop kind thread location).fields data rest := by
  simp only [stop, bind_ok, pure_ok, objectId_ok valid, location_ok valid]
  constructor
  · rintro ⟨thread, mid, first, location, last, placed, same, rfl⟩
    exact ⟨thread, location, same, mid, first, placed⟩
  · rintro ⟨thread, location, same, mid, first, placed⟩
    exact ⟨thread, mid, first, location, rest, placed, same, rfl⟩

theorem happening_ok (valid : sizes.Valid) (code : UInt8) {h : Happening} :
    happening code sizes data = (.ok h, rest) ↔
      h.code = code ∧ Field.AllStart sizes h.fields data rest := by
  constructor
  · intro read
    unfold happening at read
    split at read
    case h_1 =>
      obtain ⟨rfl, rfl⟩ := pure_ok.mp read
      exact ⟨rfl, rfl⟩
    case h_2 | h_3 | h_4 =>
      obtain ⟨thread, rfl, starts⟩ := (thread_ok valid).mp read
      exact ⟨rfl, starts⟩
    case h_5 =>
      simp only [bind_ok, pure_ok, objectId_ok valid, u8_ok, typeId_ok valid, string_ok,
        int_ok] at read
      obtain ⟨thread, a, first, tag, b, tagged, owner, c, owned, signature, d, named, status, e,
        told, rfl, rfl⟩ := read
      exact ⟨rfl, a, first, b, tagged, c, owned, d, named, e, told, rfl⟩
    case h_6 | h_7 | h_8 | h_9 =>
      obtain ⟨thread, location, rfl, starts⟩ := (stop_ok valid _).mp read
      exact ⟨rfl, starts⟩
    case h_10 => exact absurd read throw_ok
  · rintro ⟨rfl, starts⟩
    cases h with
    | vmDeath => exact pure_ok.mpr ⟨rfl, starts⟩
    | vmStart thread | threadStart thread | threadDeath thread =>
      exact (thread_ok valid).mpr ⟨thread, rfl, starts⟩
    | classPrepare thread tag owner signature status =>
      obtain ⟨a, first, b, tagged, c, owned, d, named, e, told, rfl⟩ := starts
      simp only [Happening.code, happening, bind_ok, pure_ok, objectId_ok valid, u8_ok,
        typeId_ok valid, string_ok, int_ok]
      exact ⟨thread, a, first, tag, b, tagged, owner, c, owned, signature, d, named, status, e,
        told, rfl, rfl⟩
    | stop kind thread location =>
      cases kind with
      | singleStep | breakpoint | methodEntry | methodExit =>
        exact (stop_ok valid _).mpr ⟨thread, location, rfl, starts⟩

theorem event_ok (valid : sizes.Valid) (e : Event) (data rest : List UInt8) :
    event sizes data = (.ok e, rest) ↔ Field.AllStart sizes e.fields data rest := by
  simp only [event, bind_ok, pure_ok, u8_ok, int_ok, happening_ok valid]
  constructor
  · rintro ⟨code, a, coded, request, b, asked, h, c, ⟨rfl, starts⟩, rfl, rfl⟩
    exact ⟨a, coded, b, asked, starts⟩
  · rintro ⟨a, coded, b, asked, starts⟩
    exact ⟨_, a, coded, e.request, b, asked, e.happening, rest, ⟨rfl, starts⟩, rfl, rfl⟩

/-- Sizes are read exactly if they are supported. -/
theorem idSizes_ok {told : IdSizes} :
    idSizes sizes data = (.ok told, rest) ↔ told.Valid ∧ data = told.encode ++ rest := by
  simp only [idSizes, bind_ok, pure_ok, size_ok, IdSizes.Valid, IdSizes.encode, IdSizes.all,
    List.forall_mem_cons, List.flatMap_cons, List.flatMap_nil, List.append_assoc, List.nil_append]
  constructor
  · rintro ⟨a, _, ⟨validA, rfl⟩, b, _, ⟨validB, rfl⟩, c, _, ⟨validC, rfl⟩, d, _, ⟨validD, rfl⟩,
      e, _, ⟨validE, rfl⟩, rfl, rfl⟩
    exact ⟨⟨validA, validB, validC, validD, validE, by simp⟩, rfl⟩
  · rintro ⟨⟨validA, validB, validC, validD, validE, -⟩, rfl⟩
    exact ⟨_, _, ⟨validA, rfl⟩, _, _, ⟨validB, rfl⟩, _, _, ⟨validC, rfl⟩, _, _, ⟨validD, rfl⟩,
      _, _, ⟨validE, rfl⟩, rfl, rfl⟩

/-- Event sets are read from data that start with their fields, and from no other data. -/
theorem eventSet_ok (valid : sizes.Valid) {set : EventSet} :
    eventSet sizes data = (.ok set, rest) ↔ Field.AllStart sizes set.fields data rest := by
  simp only [eventSet, bind_ok, pure_ok, u8_ok, list_ok (event_ok valid)]
  constructor
  · rintro ⟨policy, a, first, events, b, listed, rfl, rfl⟩
    exact ⟨a, first, listed⟩
  · rintro ⟨a, first, listed⟩
    exact ⟨set.suspendPolicy, a, first, set.events, rest, listed, rfl, rfl⟩

end Read

end Reading

section Slipping

variable {sizes : IdSizes} {data input left : List UInt8}

theorem Happening.code_ne_zero (h : Happening) : h.code ≠ 0 := by
  cases h with
  | stop kind _ _ => cases kind <;> simp [code, StopKind.code]
  | _ => simp [code]

/-- Nothing stands in front of events, because their codes are not zero. -/
theorem Event.no_zeros {e : Event} {k : Nat} {rest : List UInt8}
    (written : Field.AllStart sizes e.fields (List.replicate k 0 ++ input) rest) : k = 0 := by
  obtain ⟨mid, ⟨small, same⟩, -⟩ := written
  cases k with
  | zero => rfl
  | succ k =>
    have code : (0 : UInt8) = (e.happening.code.toNat >>> 0).toUInt8 := (List.cons.inj same).1
    exact absurd (by simpa using code.symm) e.happening.code_ne_zero

/-- Events fill the data up to the end, and are read in wider sizes from behind some zeros. Then
there are no zeros, and no field is longer in these sizes. -/
theorem excess_of_events {wide : IdSizes} {events : List Event} {k : Nat}
    (wider : ∀ width : Width, width.bytes sizes ≤ width.bytes wide)
    (written : Field.AllStart sizes (events.flatMap Event.fields) (List.replicate k 0 ++ input) [])
    (read : Field.AllStart wide (events.flatMap Event.fields) input left) :
    k = 0 ∧ ∀ field ∈ events.flatMap Event.fields, field.excess sizes wide = 0 := by
  induction events generalizing k input with
  | nil =>
    have none : List.replicate k 0 ++ input = [] := written
    exact ⟨by simpa using (List.append_eq_nil_iff.mp none).1, by simp⟩
  | cons e events ih =>
    rw [List.flatMap_cons] at written read
    obtain ⟨mid, here, written⟩ := Field.allStart_append.mp written
    obtain ⟨after, same, read⟩ := Field.allStart_append.mp read
    obtain rfl := Event.no_zeros here
    -- What the event is longer stands as zeros in front of the next one.
    obtain rfl := Field.AllStart.slip wider here same
    obtain ⟨none, others⟩ := ih written read
    rw [Nat.zero_add, Field.totalExcess_eq_zero] at none
    rw [List.flatMap_cons]
    exact ⟨rfl, List.forall_mem_append.mpr ⟨none, others⟩⟩

/-- An event set is read back in wider sizes than it was written in exactly if no field of it is
longer in these. -/
theorem EventSet.run_eq_ok_iff {set : EventSet} {wide : IdSizes} (valid : wide.Valid)
    (wider : ∀ width : Width, width.bytes sizes ≤ width.bytes wide)
    (written : Field.AllStart sizes set.fields data []) :
    Read.eventSet.run wide data = .ok set ↔ ∀ field ∈ set.fields, field.excess sizes wide = 0 := by
  constructor
  · intro read
    obtain ⟨left, whole⟩ : ∃ left, Read.eventSet wide data = (.ok set, left) :=
      ⟨_, Prod.ext read rfl⟩
    have split : set.fields = [.byte set.suspendPolicy, .count set.events.length] ++
        set.events.flatMap Event.fields := rfl
    rw [split] at written ⊢
    obtain ⟨mid, here, written⟩ := Field.allStart_append.mp written
    have starts := (Read.eventSet_ok valid).mp whole
    rw [split] at starts
    obtain ⟨after, same, read⟩ := Field.allStart_append.mp starts
    have aligned := Field.AllStart.slip (k := 0) wider here same
    rw [aligned] at written
    obtain ⟨-, alike⟩ := excess_of_events wider written read
    refine List.forall_mem_append.mpr ⟨?_, alike⟩
    simp [Field.byte, Field.excess, Width.bytes]
  · intro alike
    have starts := Field.AllStart.resize wider alike written
    exact congrArg Prod.fst ((Read.eventSet_ok valid).mpr starts)

end Slipping

end JavaSnippet.Wire
