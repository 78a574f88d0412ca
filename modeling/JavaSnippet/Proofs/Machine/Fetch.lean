import JavaSnippet.ClassFile.Instruction
import JavaSnippet.Proofs.Bytes
/-!
Reading instructions out of code, by the opcodes of the machine. Whatever is written for an
instruction is read as that instruction. Calls are not read, since their types are in the constants.
-/
namespace JavaSnippet.Machine

open ClassFile

/-- The instructions of one byte. -/
def single? (opcode : UInt8) : Option Instruction :=
  match opcode with
  | 0x01 => some .nullConst
  | 0x02 => some (.intConst (-1))
  | 0x03 => some (.intConst 0)
  | 0x04 => some (.intConst 1)
  | 0x05 => some (.intConst 2)
  | 0x06 => some (.intConst 3)
  | 0x07 => some (.intConst 4)
  | 0x08 => some (.intConst 5)
  | 0x09 => some (.longConst 0)
  | 0x0a => some (.longConst 1)
  | 0x1a => some (.load .int 0)
  | 0x1b => some (.load .int 1)
  | 0x1c => some (.load .int 2)
  | 0x1d => some (.load .int 3)
  | 0x1e => some (.load .long 0)
  | 0x1f => some (.load .long 1)
  | 0x20 => some (.load .long 2)
  | 0x21 => some (.load .long 3)
  | 0x2a => some (.load .reference 0)
  | 0x2b => some (.load .reference 1)
  | 0x2c => some (.load .reference 2)
  | 0x2d => some (.load .reference 3)
  | 0x3b => some (.store .int 0)
  | 0x3c => some (.store .int 1)
  | 0x3d => some (.store .int 2)
  | 0x3e => some (.store .int 3)
  | 0x3f => some (.store .long 0)
  | 0x40 => some (.store .long 1)
  | 0x41 => some (.store .long 2)
  | 0x42 => some (.store .long 3)
  | 0x4b => some (.store .reference 0)
  | 0x4c => some (.store .reference 1)
  | 0x4d => some (.store .reference 2)
  | 0x4e => some (.store .reference 3)
  | 0x57 => some .pop
  | 0x58 => some .pop2
  | 0x59 => some .dup
  | 0x60 => some (.arith .add .int)
  | 0x61 => some (.arith .add .long)
  | 0x64 => some (.arith .sub .int)
  | 0x65 => some (.arith .sub .long)
  | 0x68 => some (.arith .mul .int)
  | 0x69 => some (.arith .mul .long)
  | 0x6c => some (.arith .div .int)
  | 0x6d => some (.arith .div .long)
  | 0x70 => some (.arith .rem .int)
  | 0x71 => some (.arith .rem .long)
  | 0x74 => some (.neg .int)
  | 0x75 => some (.neg .long)
  | 0x85 => some .widen
  | 0xac => some (.returnValue .int)
  | 0xad => some (.returnValue .long)
  | 0xb0 => some (.returnValue .reference)
  | 0xb1 => some .returnVoid
  | 0xbf => some .throwObject
  | _ => none

/-- The instructions with a local slot behind them. -/
def onLocal? (opcode : UInt8) : Option (UInt16 → Instruction) :=
  match opcode with
  | 0x15 => some (.load .int)
  | 0x16 => some (.load .long)
  | 0x19 => some (.load .reference)
  | 0x36 => some (.store .int)
  | 0x37 => some (.store .long)
  | 0x3a => some (.store .reference)
  | _ => none

/-- The instructions with one byte behind them. -/
def onByte? (opcode : UInt8) : Option (UInt8 → Instruction) :=
  match opcode with
  | 0x10 => some fun byte => .intConst byte.toInt8.toInt32
  | 0x12 => some fun byte => .ldc byte.toUInt16
  | _ => (onLocal? opcode).map fun make byte => make byte.toUInt16

/-- The instructions with two bytes behind them. -/
def onShort? (opcode : UInt8) : Option (UInt16 → Instruction) :=
  match opcode with
  | 0x11 => some fun short => .intConst short.toInt16.toInt32
  | 0x13 => some .ldc
  | 0x14 => some .ldc2
  | 0xbb => some .newObject
  | 0xc0 => some .checkCast
  | _ => none

def takeShort : List UInt8 → Option (UInt16 × List UInt8)
  | high :: low :: rest => some ((Bytes.toNat [high, low]).toUInt16, rest)
  | _ => none

/-- The first instruction of some code, and the code after it. -/
def fetch : List UInt8 → Option (Instruction × List UInt8)
  | [] => none
  | opcode :: rest =>
    match single? opcode, onByte? opcode, onShort? opcode, rest with
    | some i, _, _, _ => some (i, rest)
    | none, some make, _, byte :: rest => some (make byte, rest)
    | none, none, some make, _ => (takeShort rest).map fun (short, rest) => (make short, rest)
    | none, none, none, second :: rest =>
      if opcode = 0xc4 then
        match onLocal? second, takeShort rest with
        | some make, some (slot, rest) => some (make slot, rest)
        | _, _ => none
      else none
    | _, _, _, _ => none

theorem takeShort_shorter {code rest : List UInt8} {short : UInt16}
    (h : takeShort code = some (short, rest)) : rest.length < code.length := by
  unfold takeShort at h
  split at h
  · obtain ⟨-, rfl⟩ := Prod.mk.inj (Option.some.inj h)
    simp only [List.length_cons]
    omega
  · cases h

theorem fetch_shorter {code rest : List UInt8} {i : Instruction}
    (h : fetch code = some (i, rest)) : rest.length < code.length := by
  cases code with
  | nil => cases h
  | cons opcode code =>
    unfold fetch at h
    simp only at h
    split at h
    · obtain ⟨-, rfl⟩ := Prod.mk.inj (Option.some.inj h)
      simp
    · obtain ⟨-, rfl⟩ := Prod.mk.inj (Option.some.inj h)
      simp only [List.length_cons]
      omega
    · obtain ⟨⟨short, others⟩, taken, same⟩ := Option.map_eq_some_iff.mp h
      obtain ⟨-, rfl⟩ := Prod.mk.inj same
      have := takeShort_shorter taken
      simp only [List.length_cons]
      omega
    · split at h
      · split at h
        · rename_i make slot others isLocal taken
          obtain ⟨-, rfl⟩ := Prod.mk.inj (Option.some.inj h)
          have := takeShort_shorter taken
          simp only [List.length_cons]
          omega
        · cases h
      · cases h
    · cases h

theorem takeShort_ofUInt16 (short : UInt16) (rest : List UInt8) :
    takeShort (Bytes.ofUInt16 short ++ rest) = some (short, rest) := by
  have pair : ∃ high low, Bytes.ofUInt16 short = [high, low] := by
    simp [Bytes.ofUInt16, Bytes.ofNat]
  obtain ⟨high, low, isPair⟩ := pair
  have number := Bytes.toNat_ofNat (n := 2) short.toNat_lt
  rw [← Bytes.ofUInt16, isPair] at number
  rw [isPair, List.cons_append, List.cons_append, List.nil_append, takeShort, number]
  simp

section Forms

variable {opcode : UInt8} (rest : List UInt8)

theorem fetch_single {i : Instruction} (h : single? opcode = some i) :
    fetch (opcode :: rest) = some (i, rest) := by
  unfold fetch
  simp only [h]

theorem fetch_byte {make : UInt8 → Instruction} (h : single? opcode = none)
    (g : onByte? opcode = some make) (byte : UInt8) :
    fetch (opcode :: byte :: rest) = some (make byte, rest) := by
  unfold fetch
  simp only [h, g]

theorem fetch_short {make : UInt16 → Instruction} (h : single? opcode = none)
    (g : onByte? opcode = none) (k : onShort? opcode = some make) (short : UInt16) :
    fetch (opcode :: (Bytes.ofUInt16 short ++ rest)) = some (make short, rest) := by
  unfold fetch
  simp only [h, g, k, takeShort_ofUInt16, Option.map_some]

theorem fetch_wide {make : UInt16 → Instruction} (h : onLocal? opcode = some make)
    (slot : UInt16) :
    fetch (0xc4 :: opcode :: (Bytes.ofUInt16 slot ++ rest)) = some (make slot, rest) := by
  have first : single? 0xc4 = none := by decide
  have second : onByte? 0xc4 = none := by decide
  have third : onShort? 0xc4 = none := by decide
  unfold fetch
  simp only [first, second, third, h, takeShort_ofUInt16, if_pos]

end Forms

/-- The instructions whose code says all of them: no call, and only constants that the code of a
constant can hold. -/
def Plain : Instruction → Prop
  | .intConst value => -32768 ≤ value ∧ value < 32768
  | .longConst value => value = 0 ∨ value = 1
  | .invoke _ _ _ => False
  | _ => True

theorem small_int {value : Int32} (h : -1 ≤ value ∧ value ≤ 5) :
    value = -1 ∨ value = 0 ∨ value = 1 ∨ value = 2 ∨ value = 3 ∨ value = 4 ∨ value = 5 := by
  have low : -1 ≤ value.toInt := Int32.le_iff_toInt_le.mp h.1
  have high : value.toInt ≤ 5 := Int32.le_iff_toInt_le.mp h.2
  have cases : value.toInt = -1 ∨ value.toInt = 0 ∨ value.toInt = 1 ∨ value.toInt = 2 ∨
      value.toInt = 3 ∨ value.toInt = 4 ∨ value.toInt = 5 := by omega
  simp only [← Int32.toInt_inj]
  exact cases

theorem fetch_encodeIntConst {value : Int32} (h : -32768 ≤ value ∧ value < 32768)
    (rest : List UInt8) :
    fetch (Instruction.encodeIntConst value ++ rest) = some (.intConst value, rest) := by
  unfold Instruction.encodeIntConst
  split
  · rename_i small
    rcases small_int small with rfl | rfl | rfl | rfl | rfl | rfl | rfl
    all_goals exact fetch_single rest (by decide)
  · split
    · rename_i byte
      have same : value.toInt8.toUInt8.toInt8.toInt32 = value := by
        have low : -128 ≤ value.toInt := Int32.le_iff_toInt_le.mp byte.1
        have high : value.toInt < 128 := Int32.lt_iff_toInt_lt.mp byte.2
        apply Int32.toInt_inj.mp
        simp only [Int8.toInt8_toUInt8, Int8.toInt_toInt32, Int32.toInt_toInt8]
        exact Int.bmod_eq_of_le (by omega) (by omega)
      rw [List.cons_append, List.cons_append, List.nil_append,
        fetch_byte rest (by decide) rfl, same]
    · have same : value.toInt16.toUInt16.toInt16.toInt32 = value := by
        have low : -32768 ≤ value.toInt := Int32.le_iff_toInt_le.mp h.1
        have high : value.toInt < 32768 := Int32.lt_iff_toInt_lt.mp h.2
        apply Int32.toInt_inj.mp
        simp only [Int16.toInt16_toUInt16, Int16.toInt_toInt32, Int32.toInt_toInt16]
        exact Int.bmod_eq_of_le (by omega) (by omega)
      rw [List.cons_append, fetch_short rest (by decide) (by decide) rfl, same]

theorem small_slot {slot : UInt16} (h : slot < 4) :
    slot = 0 ∨ slot = 1 ∨ slot = 2 ∨ slot = 3 := by
  have high : slot.toNat < 4 := UInt16.lt_iff_toNat_lt.mp h
  have cases : slot.toNat = 0 ∨ slot.toNat = 1 ∨ slot.toNat = 2 ∨ slot.toNat = 3 := by omega
  simp only [← UInt16.toNat_inj]
  exact cases

theorem toUInt16_toUInt8 {short : UInt16} (h : short < 256) : short.toUInt8.toUInt16 = short := by
  have high : short.toNat < 256 := UInt16.lt_iff_toNat_lt.mp h
  apply UInt16.toNat_inj.mp
  simp only [UInt8.toNat_toUInt16, UInt16.toNat_toUInt8]
  exact Nat.mod_eq_of_lt high

theorem fetch_encodeLocal {opcodes : UInt8 × UInt8} {make : UInt16 → Instruction}
    (builtIn : ∀ slot : UInt16, slot < 4 → single? (opcodes.2 + slot.toUInt8) = some (make slot))
    (other : single? opcodes.1 = none) (isLocal : onLocal? opcodes.1 = some make)
    (plain : onByte? opcodes.1 = (onLocal? opcodes.1).map fun make byte => make byte.toUInt16)
    (slot : UInt16) (rest : List UInt8) :
    fetch (Instruction.encodeLocal opcodes slot ++ rest) = some (make slot, rest) := by
  unfold Instruction.encodeLocal
  split
  · rename_i small
    exact fetch_single rest (builtIn slot small)
  · split
    · rename_i byte
      rw [isLocal, Option.map_some] at plain
      rw [List.cons_append, List.cons_append, List.nil_append, fetch_byte rest other plain,
        toUInt16_toUInt8 byte]
    · rw [List.cons_append, List.cons_append, fetch_wide rest isLocal]

theorem fetch_encode {i : Instruction} (plain : Plain i) (rest : List UInt8) :
    fetch (i.encode ++ rest) = some (i, rest) := by
  cases i with
  | intConst value => exact fetch_encodeIntConst plain rest
  | longConst value =>
    rcases plain with rfl | rfl
    all_goals exact fetch_single rest (by decide)
  | ldc index =>
    rw [Instruction.encode]
    split
    · rename_i byte
      rw [List.cons_append, List.cons_append, List.nil_append,
        fetch_byte rest (by decide) rfl, toUInt16_toUInt8 byte]
    · exact fetch_short rest (by decide) (by decide) rfl index
  | ldc2 index => exact fetch_short rest (by decide) (by decide) rfl index
  | newObject index => exact fetch_short rest (by decide) (by decide) rfl index
  | checkCast index => exact fetch_short rest (by decide) (by decide) rfl index
  | load kind slot =>
    refine fetch_encodeLocal ?_ ?_ ?_ ?_ slot rest
    · intro slot small
      rcases small_slot small with rfl | rfl | rfl | rfl
      all_goals
        cases kind
        all_goals decide
    all_goals
      cases kind
      all_goals rfl
  | store kind slot =>
    refine fetch_encodeLocal ?_ ?_ ?_ ?_ slot rest
    · intro slot small
      rcases small_slot small with rfl | rfl | rfl | rfl
      all_goals
        cases kind
        all_goals decide
    all_goals
      cases kind
      all_goals rfl
  | arith op width =>
    refine fetch_single rest ?_
    cases op
    all_goals
      cases width
      all_goals decide
  | neg width =>
    refine fetch_single rest ?_
    cases width
    all_goals decide
  | returnValue kind =>
    refine fetch_single rest ?_
    cases kind
    all_goals decide
  | invoke kind method type => cases plain
  | _ => exact fetch_single rest (by decide)

end JavaSnippet.Machine
