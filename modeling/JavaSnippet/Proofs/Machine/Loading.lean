import JavaSnippet.Proofs.ClassFile.Building
import JavaSnippet.Proofs.Machine.Execution
import JavaSnippet.Proofs.Machine.Operations
import Mathlib.Data.List.Forall2
/-!
Reading back what was written. Code that is made of instructions with operands in range is read as
those instructions, one by one, and what is added to load a number loads that number.
-/
namespace JavaSnippet

open ClassFile

namespace ClassFile.Pool

/-- A pool that started empty or from a table that was read, and of which things were asked
since. -/
inductive Made : Pool → Prop where
  | empty : Made .empty
  | ofTable (constants : List Constant)
      (bounded : (ConstantTable.empty.append constants).next < 65536) :
      Made (ofTable (ConstantTable.empty.append constants))
  | asked {p : Pool} (query : Query) (before : Made p) : Made (query.change p).2

theorem Made.valid {p : Pool} (h : p.Made) : p.Valid := by
  induction h with
  | empty => exact valid_empty
  | ofTable constants bounded =>
    exact valid_ofTable (ConstantTable.ascending_filled _) bounded
  | @asked p query _ valid => exact ((steady_query query p).leads valid).valid

end ClassFile.Pool

namespace Machine

/-- The operands fit in the bytes that are written for them. -/
def InRange : Instruction → Prop
  | .intConst value => -32768 ≤ value ∧ value < 32768
  | .longConst value => value = 0 ∨ value = 1
  | .invoke .interface _ type => type.parameterSlots true ≤ 255
  | _ => True

theorem InRange.readable {i : Instruction} (h : InRange i) : Readable i := by
  cases i with
  | invoke kind method type => exact .inr ⟨kind, method, type, rfl⟩
  | intConst value => exact .inl h
  | longConst value => exact .inl h
  | _ => exact .inl trivial

/-- The operation is the instruction but for the type of a call, which is known by its slots at
most. -/
inductive Operation.Tells : Operation → Instruction → Prop where
  | plain {i : Instruction} (noCall : ∀ kind method type, i ≠ .invoke kind method type) :
      Tells (.plain i) i
  | call {kind : InvokeKind} (method : PoolIndex) (type : MethodType) (other : kind ≠ .interface) :
      Tells (.call kind method) (.invoke kind method type)
  | callInterface {slots : UInt8} (method : PoolIndex) {type : MethodType}
      (counted : slots.toNat = type.parameterSlots true) :
      Tells (.callInterface method slots) (.invoke .interface method type)

theorem InRange.tells {i : Instruction} (h : InRange i) : (Operation.of i).Tells i := by
  cases i with
  | invoke kind method type =>
    cases kind with
    | interface =>
      have few : type.parameterSlots true ≤ 255 := h
      exact .callInterface method (by
        simp only [Nat.toUInt8_eq, UInt8.toNat_ofNat']
        omega)
    | static => exact .call method type (by decide)
    | special => exact .call method type (by decide)
    | virtual => exact .call method type (by decide)
  | _ => exact .plain fun _ _ _ same => by cases same

theorem disassemble_tells {is : List Instruction} (inRange : ∀ i ∈ is, InRange i) :
    ∃ ops, disassemble (is.flatMap Instruction.encode) = some ops ∧
      List.Forall₂ Operation.Tells ops is := by
  refine ⟨_, disassemble_encode fun i here => (inRange i here).readable, ?_⟩
  rw [List.forall₂_map_left_iff, List.forall₂_same]
  exact fun i here => (inRange i here).tells

/-- One instruction was added. It is read back whatever comes after it, and it pushes the value,
whatever is asked of the pool later. -/
def Loads (b d : MethodBody) (v : Value) : Prop :=
  ∃ i added, d.code.toList = b.code.toList ++ added ∧
    (∀ rest, takeOperation (added ++ rest) = some (.plain i, rest)) ∧
    ∀ later f, step (d.pool.after later).table i f = some (.goesOn (f.push v))

theorem loads_of_extends {i : Instruction} {b d : MethodBody} {v : Value} (grown : b.Extends [i] d)
    (plain : Plain i)
    (pushes : ∀ t, d.pool.Within t → ∀ f : Frame, step t i f = some (.goesOn (f.push v))) :
    Loads b d v := by
  refine ⟨i, i.encode, ?_, fun rest => takeOperation_of_fetch (fetch_encode plain rest), ?_⟩
  · rw [grown.code, List.flatMap_singleton]
  · intro later
    have leads := (Pool.follows_after d.pool later).leads grown.pool.valid
    exact pushes _ (leads.within leads.valid.within)

theorem loads_pushInt {value : Int32} {b d : MethodBody} (sound : b.Sound)
    (h : MethodBody.pushInt value b = (.ok (), d)) : Loads b d (.int value) := by
  obtain ⟨i, grown, ⟨low, high, rfl⟩ | ⟨index, rfl, found⟩⟩ := MethodBody.pushInt_ok sound h
  · exact loads_of_extends grown ⟨low, high⟩ fun t _ f => rfl
  · refine loads_of_extends grown trivial fun t within f => ?_
    simp only [step, found t within]

theorem loads_pushLong {value : Int64} {b d : MethodBody} (sound : b.Sound)
    (h : MethodBody.pushLong value b = (.ok (), d)) : Loads b d (.long value) := by
  obtain ⟨i, grown, ⟨small, rfl⟩ | ⟨index, rfl, found⟩⟩ := MethodBody.pushLong_ok sound h
  · exact loads_of_extends grown small fun t _ f => rfl
  · refine loads_of_extends grown trivial fun t within f => ?_
    simp only [step, found t within]

/-- A body that takes one more instruction is sound, whatever has failed before. -/
theorem sound_of_build {pool : Pool} (made : pool.Made) {slots : Nat}
    {actions : List MethodBody.Action} {e : MethodBody.Emission} {d : MethodBody}
    (h : e.build (MethodBody.attempt (.start pool slots) actions) = (.ok (), d)) :
    (MethodBody.attempt (.start pool slots) actions).Sound where
  pool := ((MethodBody.onward_attempt (.start pool slots) actions).leads made.valid).valid
  size := e.size_of_build h

/-- Code of instructions in range is read as those instructions, up to the types of calls. In every
state that building can reach, even after steps that failed, what is added to load a number loads
that number and nothing else. -/
theorem written_is_read :
    (∀ is : List Instruction, (∀ i ∈ is, InRange i) →
      ∃ ops, disassemble (is.flatMap Instruction.encode) = some ops ∧
        List.Forall₂ Operation.Tells ops is) ∧
    ∀ (pool : Pool) (slots : Nat) (actions : List MethodBody.Action), pool.Made →
      let b := MethodBody.attempt (.start pool slots) actions
      (∀ value d, MethodBody.pushInt value b = (.ok (), d) → Loads b d (.int value)) ∧
        ∀ value d, MethodBody.pushLong value b = (.ok (), d) → Loads b d (.long value) := by
  refine ⟨fun is inRange => disassemble_tells inRange, fun pool slots actions made => ⟨?_, ?_⟩⟩
  · intro value d pushed
    exact loads_pushInt (sound_of_build made (e := .int value) pushed) pushed
  · intro value d pushed
    exact loads_pushLong (sound_of_build made (e := .long value) pushed) pushed

theorem written_is_read_large :
    (∃ ops, disassemble [0x11, 0x01, 0x2c, 0xc4, 0x16, 0x01, 0x00, 0xb9, 0x00, 0x07, 0x03, 0x00] =
        some ops ∧
      List.Forall₂ Operation.Tells ops
        [.intConst 300, .load .long 256, .invoke .interface 7 ⟨[.long], none⟩]) ∧
    ∃ d, MethodBody.pushInt 40000 (.start .empty 0) = (.ok (), d) ∧
      Loads (.start .empty 0) d (.int 40000) := by
  have inRange : ∀ i ∈ [.intConst 300, .load .long 256, .invoke .interface 7 ⟨[.long], none⟩],
      InRange i := by
    simp only [List.forall_mem_cons]
    exact ⟨show -32768 ≤ (300 : Int32) ∧ (300 : Int32) < 32768 by decide, trivial,
      show 3 ≤ 255 by decide, by simp⟩
  refine ⟨written_is_read.1 _ inRange, ?_⟩
  obtain ⟨index, q, found, -, -⟩ :=
    Pool.takes_intern (.integer 40000) .empty Pool.valid_empty (by decide)
  have inPool := MethodBody.inPool_of_ok (b := .start .empty 0) found
  have short : (Instruction.ldc index).encode.length ≤ 65535 := by
    rw [Instruction.encode]
    split <;> simp
  have added : MethodBody.push (.ldc index) (.start q 0) =
      (.ok (), MethodBody.extend (.start q 0) (.ldc index)) :=
    MethodBody.push_of_room rfl (Nat.zero_le _)
      (Nat.le_trans (Nat.le_of_eq (Nat.zero_add _)) short) rfl
  have pushed : MethodBody.pushInt 40000 (.start .empty 0) =
      (.ok (), MethodBody.extend (.start q 0) (.ldc index)) := by
    rw [MethodBody.pushInt, if_neg (by decide)]
    exact ExceptState.bind_eq_ok.mpr ⟨index, _, inPool, added⟩
  exact ⟨_, pushed, (written_is_read.2 .empty 0 [] .empty).1 40000 _ pushed⟩

end Machine

end JavaSnippet
