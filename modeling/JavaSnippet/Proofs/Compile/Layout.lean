import JavaSnippet.Proofs.Compile.Emission
import JavaSnippet.Proofs.Machine.Value
import JavaSnippet.Proofs.Typing.Body
/-!
Where variables are kept. Parameters and then local variables take their slots in the order in which
they are declared, so the slot of a variable is the width of all variables before it.
-/
namespace JavaSnippet.Compile

open ClassFile Typing Machine

/-- The variables declared so far have the first slots, in order. -/
structure Laid (types : List FieldType) (slots : SlotMap) (next count : Nat) : Prop where
  slot : ∀ (id : Nat) (slot : UInt16), slots[id]? = some (some slot) →
    slot.toNat = offset types id
  next : next = offset types count

variable {types : List FieldType} {v : Variables} {slots : SlotMap} {next : Nat}

/-- The next variable takes the next slot. -/
theorem Laid.declare {slots : SlotMap} {next count : Nat} {type : FieldType}
    (h : Laid types slots next count) (room : next < 65536)
    (isType : types[count]? = some type) :
    Laid types (slots.setIfInBounds count (some next.toUInt16)) (next + width type)
      (count + 1) := by
  refine ⟨?_, by rw [offset_succ isType, h.next]⟩
  intro id slot found
  by_cases same : count = id
  · subst same
    obtain ⟨inside, here⟩ := Array.getElem?_eq_some_iff.mp found
    simp only [Array.getElem_setIfInBounds_self, Option.some.injEq] at here
    rw [← here, Text.Utf16.toNat_toUInt16 room, h.next]
  · rw [Array.getElem?_setIfInBounds_ne same] at found
    exact h.slot id slot found

theorem type_of_declared {name : String} {state : LocalVar}
    (room : (v.declare name state).types <+: types) : types[v.locals.size]? = some state.type := by
  obtain ⟨rest, rfl⟩ := room
  simp [← Variables.length_types]

/-- A declaration gives the variable the next slot. -/
theorem Laid.declared {name : String} {state : LocalVar}
    (laid : Laid types slots next v.locals.size) (space : next < 65536)
    (room : (v.declare name state).types <+: types) :
    Laid types (slots.setIfInBounds v.locals.size (some next.toUInt16))
      (next + width (types.getD v.locals.size .int)) (v.declare name state).locals.size := by
  have isType := type_of_declared room
  have later := laid.declare space isType
  have same : types.getD v.locals.size .int = state.type := by
    rw [List.getD_eq_getElem?_getD, isType]
    rfl
  rw [same]
  simpa [Variables.declare] using later

/-- Every parameter has a slot. -/
theorem covered_of_parameterSlots {parameters : List FieldType} {next : Nat}
    {slots : List (Option UInt16)} (h : Emit.parameterSlots next parameters = some slots) :
    ∀ id < parameters.length, ∃ slot, slots[id]? = some (some slot) := by
  induction parameters generalizing next slots with
  | nil => simp
  | cons type parameters ih =>
    rw [Emit.parameterSlots] at h
    split at h
    · obtain ⟨others, rest, rfl⟩ := Option.map_eq_some_iff.mp h
      intro id inside
      cases id with
      | zero => exact ⟨_, rfl⟩
      | succ id => exact ih rest id (by simpa using inside)
    · cases h

theorem slot_of_parameterSlots {parameters : List FieldType} {next : Nat}
    {slots : List (Option UInt16)} (h : Emit.parameterSlots next parameters = some slots) :
    slots.length = parameters.length ∧ ∀ (i : Nat) slot, slots[i]? = some (some slot) →
      slot.toNat = next + offset parameters i := by
  induction parameters generalizing next slots with
  | nil =>
    obtain rfl := Option.some.inj h
    exact ⟨rfl, by simp⟩
  | cons type parameters ih =>
    rw [Emit.parameterSlots] at h
    split at h
    · rename_i room
      obtain ⟨others, rest, rfl⟩ := Option.map_eq_some_iff.mp h
      obtain ⟨length, slot⟩ := ih rest
      refine ⟨by simp [length], ?_⟩
      intro i here found
      cases i with
      | zero =>
        obtain rfl := Option.some.inj (Option.some.inj found)
        exact Text.Utf16.toNat_toUInt16 room
      | succ i =>
        rw [slot i here found, offset, offset, List.take_succ_cons, totalWidth, Nat.add_assoc]
    · cases h

/-- The parameters take the first slots. -/
theorem laid_start {m : TypedMethod} {slots : List (Option UInt16)}
    (h : Emit.parameterSlots 0 m.signature.type.parameters = some slots)
    (isPrefix : m.signature.type.parameters <+: m.locals) :
    Laid m.locals (startSlots m slots) (m.signature.type.parameterSlots false)
      m.signature.type.parameters.length := by
  obtain ⟨length, slot⟩ := slot_of_parameterSlots h
  obtain ⟨rest, whole⟩ := isPrefix
  constructor
  · intro id here found
    rw [startSlots, List.getElem?_toArray] at found
    by_cases inside : id < slots.length
    · rw [List.getElem?_append_left inside] at found
      rw [slot id here found, ← whole, offset_append (by omega), Nat.zero_add]
    · rw [List.getElem?_append_right (by omega), List.getElem?_replicate] at found
      split at found
      · cases Option.some.inj found
      · cases found
  · rw [← whole, offset_append (Nat.le_refl _), offset, List.take_length,
      MethodType.parameterSlots]
    simp

end JavaSnippet.Compile
