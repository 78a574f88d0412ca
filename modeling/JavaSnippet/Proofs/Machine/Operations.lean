import JavaSnippet.Proofs.Machine.Fetch
/-!
Reading all the instructions of some code. A call is read as far as the code tells it; what it takes
and gives is only in the constants.
-/
namespace JavaSnippet.Machine

open ClassFile

/-- An instruction as the code tells it. -/
inductive Operation where
  | plain (i : Instruction)
  | call (kind : InvokeKind) (method : PoolIndex)
  /-- A call of a method of an interface, with the slots of the receiver and the arguments. -/
  | callInterface (method : PoolIndex) (slots : UInt8)
  deriving DecidableEq, Repr

/-- What is left of an instruction when the type of a call is forgotten. -/
def Operation.of : Instruction → Operation
  | .invoke .interface method type => .callInterface method (type.parameterSlots true).toUInt8
  | .invoke kind method _ => .call kind method
  | i => .plain i

/-- The calls with nothing but a method behind them. -/
def callKind? (opcode : UInt8) : Option InvokeKind :=
  match opcode with
  | 0xb6 => some .virtual
  | 0xb7 => some .special
  | 0xb8 => some .static
  | _ => none

/-- What stands behind the opcode of a call of an interface method. A zero ends it. -/
def takeInterface (code : List UInt8) : Option (Operation × List UInt8) :=
  match takeShort code with
  | some (method, slots :: 0 :: rest) => some (.callInterface method slots, rest)
  | _ => none

/-- The first operation of some code, and the code after it. -/
def takeOperation : List UInt8 → Option (Operation × List UInt8)
  | [] => none
  | opcode :: rest =>
    match callKind? opcode with
    | some kind => (takeShort rest).map fun (method, rest) => (.call kind method, rest)
    | none =>
      if opcode = 0xb9 then takeInterface rest
      else (fetch (opcode :: rest)).map fun (i, rest) => (.plain i, rest)

theorem takeInterface_shorter {code rest : List UInt8} {o : Operation}
    (h : takeInterface code = some (o, rest)) : rest.length < code.length := by
  unfold takeInterface at h
  split at h
  · rename_i method slots behind taken
    obtain ⟨-, rfl⟩ := Prod.mk.inj (Option.some.inj h)
    have := takeShort_shorter taken
    simp only [List.length_cons] at this
    omega
  · cases h

theorem takeOperation_shorter {code rest : List UInt8} {o : Operation}
    (h : takeOperation code = some (o, rest)) : rest.length < code.length := by
  cases code with
  | nil => cases h
  | cons opcode code =>
    rw [takeOperation] at h
    split at h
    · obtain ⟨⟨method, others⟩, taken, same⟩ := Option.map_eq_some_iff.mp h
      obtain ⟨-, rfl⟩ := Prod.mk.inj same
      exact Nat.lt_succ_of_lt (takeShort_shorter taken)
    · split at h
      · exact Nat.lt_succ_of_lt (takeInterface_shorter h)
      · obtain ⟨⟨i, others⟩, read, same⟩ := Option.map_eq_some_iff.mp h
        obtain ⟨-, rfl⟩ := Prod.mk.inj same
        exact fetch_shorter read

/-- The operations of some code, if it is made of whole ones. -/
def disassemble (code : List UInt8) : Option (List Operation) :=
  if code.isEmpty then some []
  else
    match _ : takeOperation code with
    | none => none
    | some (o, rest) => (disassemble rest).map (o :: ·)
termination_by code.length
decreasing_by exact takeOperation_shorter ‹_›

theorem disassemble_of_take {code rest : List UInt8} {o : Operation}
    (h : takeOperation code = some (o, rest)) :
    disassemble code = (disassemble rest).map (o :: ·) := by
  cases code with
  | nil => cases h
  | cons opcode code =>
    rw [disassemble, if_neg (by simp)]
    split
    · rename_i none
      rw [h] at none
      cases none
    · rename_i other after read
      rw [h] at read
      obtain ⟨rfl, rfl⟩ := Prod.mk.inj (Option.some.inj read)
      rfl

/-- The instructions whose code says all of them but the type of a call. -/
def Readable (i : Instruction) : Prop :=
  Plain i ∨ ∃ kind method type, i = .invoke kind method type

theorem fetch_unread {opcode : UInt8} (rest : List UInt8) (single : single? opcode = none)
    (byte : onByte? opcode = none) (short : onShort? opcode = none) (narrow : opcode ≠ 0xc4) :
    fetch (opcode :: rest) = none := by
  simp only [fetch, single, byte, short]
  cases rest with
  | nil => rfl
  | cons second rest => exact if_neg narrow

/-- The opcodes of calls are no others. -/
theorem fetch_call {opcode : UInt8} (rest : List UInt8)
    (h : (callKind? opcode).isSome = true ∨ opcode = 0xb9) : fetch (opcode :: rest) = none := by
  rcases h with call | rfl
  · unfold callKind? at call
    split at call
    · exact fetch_unread rest (by decide) (by decide) (by decide) (by decide)
    · exact fetch_unread rest (by decide) (by decide) (by decide) (by decide)
    · exact fetch_unread rest (by decide) (by decide) (by decide) (by decide)
    · cases call
  · exact fetch_unread rest (by decide) (by decide) (by decide) (by decide)

theorem takeOperation_of_fetch {code rest : List UInt8} {i : Instruction}
    (h : fetch code = some (i, rest)) : takeOperation code = some (.plain i, rest) := by
  cases code with
  | nil => cases h
  | cons opcode code =>
    rw [takeOperation]
    split
    · rename_i kind isCall
      rw [fetch_call code (.inl (by rw [isCall]; rfl))] at h
      cases h
    · split
      · rename_i isInterface
        rw [fetch_call code (.inr isInterface)] at h
        cases h
      · rw [h]
        rfl

theorem takeOperation_call {opcode : UInt8} {kind : InvokeKind} (h : callKind? opcode = some kind)
    (method : PoolIndex) (rest : List UInt8) :
    takeOperation (opcode :: (Bytes.ofUInt16 method ++ rest)) = some (.call kind method, rest) := by
  simp only [takeOperation, h, takeShort_ofUInt16, Option.map_some]

theorem takeOperation_callInterface (method : PoolIndex) (slots : UInt8) (rest : List UInt8) :
    takeOperation (0xb9 :: (Bytes.ofUInt16 method ++ [slots, 0] ++ rest)) =
      some (.callInterface method slots, rest) := by
  have other : callKind? 0xb9 = none := by decide
  simp only [takeOperation, other, if_pos, takeInterface, List.append_assoc, takeShort_ofUInt16]
  rfl

theorem Operation.of_plain {i : Instruction} (plain : Plain i) : Operation.of i = .plain i := by
  cases i with
  | invoke kind method type => cases plain
  | _ => rfl

theorem takeOperation_encode {i : Instruction} (readable : Readable i) (rest : List UInt8) :
    takeOperation (i.encode ++ rest) = some (.of i, rest) := by
  rcases readable with plain | ⟨kind, method, type, rfl⟩
  · rw [Operation.of_plain plain]
    exact takeOperation_of_fetch (fetch_encode plain rest)
  · cases kind with
    | static => exact takeOperation_call rfl method rest
    | special => exact takeOperation_call rfl method rest
    | virtual => exact takeOperation_call rfl method rest
    | interface => exact takeOperation_callInterface method _ rest

/-- Code is read as the instructions it was made of. -/
theorem disassemble_encode {is : List Instruction} (readable : ∀ i ∈ is, Readable i) :
    disassemble (is.flatMap Instruction.encode) = some (is.map .of) := by
  induction is with
  | nil =>
    rw [List.flatMap_nil, disassemble, if_pos List.isEmpty_nil]
    rfl
  | cons i is ih =>
    obtain ⟨first, others⟩ := List.forall_mem_cons.mp readable
    rw [List.flatMap_cons, disassemble_of_take (takeOperation_encode first _), ih others]
    rfl

/-- The constant that an operation names is there, and of the kind it needs. -/
def Operation.Names (t : ConstantTable) : Operation → Prop
  | .plain (.ldc index) =>
    (∃ value, t.constant? index = some (.integer value)) ∨
      ∃ content, t.constant? index = some (.string content)
  | .plain (.ldc2 index) => ∃ value, t.constant? index = some (.long value)
  | .plain (.newObject index) | .plain (.checkCast index) =>
    ∃ name, t.constant? index = some (.classRef name)
  | .plain (.invoke _ _ _) => False
  | .plain _ => True
  | .call _ method => ∃ owner member, t.constant? method = some (.methodRef owner member false)
  | .callInterface method _ =>
    ∃ owner member, t.constant? method = some (.methodRef owner member true)

end JavaSnippet.Machine
