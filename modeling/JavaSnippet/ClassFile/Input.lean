import JavaSnippet.ClassFile.Fault
/-!
Bytes being read. A number that the input cannot supply uses the input up, and its fault is placed
at the end; a run of bytes that is too long leaves the input where it is.
-/
namespace JavaSnippet.ClassFile

structure Input where
  rest : List UInt8
  offset : Nat
  deriving Repr

abbrev Read (α : Type) := StateT Input (Except Fault) α

namespace Read

variable {α : Type}

/-- Refuses the input at the place reached. -/
def refuse (cause : Malformation) : Read α :=
  fun input => .error (.malformed input.offset cause)

def refuseAt (offset : Nat) (cause : Malformation) : Read α :=
  fun _ => .error (.malformed offset cause)

def offset : Read Nat := fun input => .ok (input.offset, input)

/-- A number of `n` bytes. Messages call it by its form. -/
def number (n : Nat) (form : String) : Read Nat :=
  fun input =>
    match Bytes.split? n input.rest with
    | some (front, rest) => .ok (Bytes.toNat front, ⟨rest, input.offset + n⟩)
    | none => .error (.malformed (input.offset + input.rest.length) (.truncatedNumber form))

def u8 : Read UInt8 := do return (← number 1 "u1").toUInt8

def u16 : Read UInt16 := do return (← number 2 "u2").toUInt16

def u32 : Read Nat := number 4 "u4"

def i32 : Read Int32 := do return (← number 4 "i4").toUInt32.toInt32

def i64 : Read Int64 := do return (← number 8 "i8").toUInt64.toInt64

def f32 : Read UInt32 := do return (← number 4 "f4").toUInt32

def f64 : Read UInt64 := do return (← number 8 "f8").toUInt64

/-- The next `n` bytes. -/
def bytes (n : Nat) : Read (List UInt8) :=
  fun input =>
    match Bytes.split? n input.rest with
    | some (front, rest) => .ok (front, ⟨rest, input.offset + n⟩)
    | none => .error (.malformed input.offset (.truncatedBytes n))

/-- Reads `n` items after those already found, which come last first. -/
def times (item : Read α) : Nat → List α → Read (List α)
  | 0, found => pure found.reverse
  | n + 1, found => do
    let a ← item
    times item n (a :: found)

/-- A sequence that is preceded by its length in two bytes. -/
def list (item : Read α) : Read (List α) := do
  let n ← u16
  times item n.toNat []

/-- Whether all of the input has been read. -/
def atEnd : Read Bool := fun input => .ok (input.rest.isEmpty, input)

/-- Reads from the front of a byte sequence. -/
def run (read : Read α) (source : List UInt8) : Except Fault α :=
  (StateT.run read ⟨source, 0⟩).map (·.1)

end Read

end JavaSnippet.ClassFile
