import JavaSnippet.Arithmetic
import JavaSnippet.Text.ModifiedUtf8
import JavaSnippet.Wire.Fault
/-!
The data of packets. Identifiers have the sizes that the target asks for. A number that the data
cannot supply uses the data up, and a string that is too long leaves them where they are.
-/
namespace JavaSnippet.Wire

open Target

/-- The sizes of identifiers in bytes. -/
structure IdSizes where
  field : Nat := 8
  method : Nat := 8
  object : Nat := 8
  referenceType : Nat := 8
  frame : Nat := 8
  deriving DecidableEq, Repr, Inhabited

/-- A place in the code of the target. -/
structure Location where
  typeTag : UInt8
  owner : UInt64
  method : UInt64
  index : UInt64
  deriving DecidableEq, Repr, Inhabited

/-- The tag of an object's value. -/
def objectTag : ObjectKind → Char
  | .object => 'L'
  | .string => 's'
  | .thread => 't'
  | .threadGroup => 'g'
  | .classLoader => 'l'
  | .classObject => 'c'
  | .array => '['

def tagByte (c : Char) : UInt8 := c.toNat.toUInt8

def objectKind? (tag : UInt8) : Option ObjectKind :=
  ObjectKind.all.find? fun kind => tagByte (objectTag kind) == tag

/-- The base type whose letter is the tag. -/
def baseType? (tag : UInt8) : Option BaseType :=
  BaseType.all.find? fun t => tagByte t.letter == tag

theorem objectKind?_objectTag (kind : ObjectKind) :
    objectKind? (tagByte (objectTag kind)) = some kind := by
  cases kind <;> decide

theorem baseType?_letter (t : BaseType) : baseType? (tagByte t.letter) = some t := by
  cases t <;> decide

/-- Bytes to send, or why they cannot be made. -/
abbrev Encoded := Except IoFault (List UInt8)

namespace Encoded

def length (n : Nat) : Encoded :=
  if n < intLimit then .ok (Bytes.ofNat 4 n) else .error .lengthTooLarge

def string (text : String) : Encoded := do
  let bytes := Text.ModifiedUtf8.encode text
  return (← length bytes.length) ++ bytes

def int (value : Int32) : List UInt8 := Bytes.ofUInt32 value.toUInt32

def long (value : Int64) : List UInt8 := Bytes.ofUInt64 value.toUInt64

/-- An identifier in the given number of bytes, which it has to fit. -/
def id (size : Nat) (value : UInt64) : List UInt8 := Bytes.ofNat size value.toNat

def location (sizes : IdSizes) (l : Location) : List UInt8 :=
  l.typeTag :: (id sizes.referenceType l.owner ++ (id sizes.method l.method ++
    Bytes.ofUInt64 l.index))

def primitive : Primitive → List UInt8
  | .boolean value => [if value then 1 else 0]
  | .byte value => [value.toUInt8]
  | .char unit => Bytes.ofUInt16 unit
  | .short value => Bytes.ofUInt16 value.toUInt16
  | .int value => int value
  | .long value => long value
  | .float bits => Bytes.ofUInt32 bits
  | .double bits => Bytes.ofUInt64 bits

end Encoded

/-- How an identifier is written in a number of bytes. For one that does not fit nothing is
promised. -/
class IdWriter where
  write : Nat → UInt64 → Encoded

instance : IdWriter := ⟨fun size value => .ok (Encoded.id size value)⟩

namespace Encoded

def identifier [IdWriter] (size : Nat) (value : UInt64) : Encoded := IdWriter.write size value

/-- A value after its tag. -/
def tagged [IdWriter] (sizes : IdSizes) : Value → Encoded
  | .void => .error .voidValue
  | .null => do return tagByte (objectTag .object) :: (← identifier sizes.object 0)
  | .primitive p => .ok (tagByte p.baseType.letter :: primitive p)
  | .object ref => do return tagByte (objectTag ref.kind) :: (← identifier sizes.object ref.id)

/-- A value whose type is known. -/
def untagged [IdWriter] (sizes : IdSizes) : Value → Encoded
  | .void => .error .voidValue
  | .null => identifier sizes.object 0
  | .primitive p => .ok (primitive p)
  | .object ref => identifier sizes.object ref.id

/-- Items one after another. -/
def concat {α : Type} (item : α → Encoded) (items : List α) : Encoded := do
  return (← items.mapM item).flatten

/-- A location, whose identifiers are written one by one. -/
def place [IdWriter] (sizes : IdSizes) (l : Location) : Encoded := do
  return l.typeTag :: ((← identifier sizes.referenceType l.owner) ++
    ((← identifier sizes.method l.method) ++ Bytes.ofUInt64 l.index))

end Encoded

/-- Reading of data. What was read before a fault stays read. -/
abbrev Read (α : Type) := ReaderT IdSizes (ExceptT Malformation (StateM (List UInt8))) α

namespace Read

variable {α : Type}

/-- A number of `n` bytes. -/
def number (n : Nat) : Read Nat :=
  fun _ data =>
    match Bytes.split? n data with
    | some (front, rest) => (.ok (Bytes.toNat front), rest)
    | none => (.error .truncated, [])

def u8 : Read UInt8 := do return (← number 1).toUInt8

def bool : Read Bool := do return (← u8) != 0

def u16 : Read UInt16 := do return (← number 2).toUInt16

def u32 : Read UInt32 := do return (← number 4).toUInt32

def u64 : Read UInt64 := do return (← number 8).toUInt64

def int : Read Int32 := do return (← u32).toInt32

def long : Read Int64 := do return (← u64).toInt64

/-- A count. -/
def length : Read Nat := do
  let n ← int
  if n < 0 then throw (.negativeLength n) else return n.toInt.toNat

/-- The next `n` bytes. -/
def chunk (n : Nat) : Read (List UInt8) :=
  fun _ data =>
    match Bytes.split? n data with
    | some (front, rest) => (.ok front, rest)
    | none => (.error .stringOverrun, data)

/-- A text in modified UTF-8, or in the standard form if it is none. -/
def decodeText (bytes : List UInt8) : Except Malformation String :=
  match Text.ModifiedUtf8.decode bytes with
  | .ok text => .ok text
  | .error _ => (Text.Utf8.decode bytes).mapError .badText

def string : Read String := do
  let bytes ← chunk (← length)
  match decodeText bytes with
  | .ok text => return text
  | .error cause => throw cause

/-- An identifier whose size is looked up. -/
def id (size : IdSizes → Nat) : Read UInt64 := do
  return (← number (size (← read))).toUInt64

def objectId : Read UInt64 := id IdSizes.object

def typeId : Read UInt64 := id IdSizes.referenceType

def methodId : Read UInt64 := id IdSizes.method

/-- A handle, where the number zero stands for `null`. -/
def objectOf (kind : ObjectKind) : Read (Option ObjectRef) := do
  let n ← objectId
  return if n = 0 then none else some ⟨n, kind⟩

/-- An object after its tag. -/
def taggedObject : Read (Option ObjectRef) := do
  let tag ← u8
  match objectKind? tag with
  | some kind => objectOf kind
  | none => throw (.notObjectTag tag)

def primitive : BaseType → Read Primitive
  | .boolean => return .boolean (← bool)
  | .byte => return .byte (← u8).toInt8
  | .char => return .char (← u16)
  | .short => return .short (← u16).toInt16
  | .int => return .int (← int)
  | .long => return .long (← long)
  | .float => return .float (← u32)
  | .double => return .double (← u64)

/-- A value after its tag. -/
def tagged : Read Value := do
  let tag ← u8
  if tag = tagByte 'V' then return .void
  match baseType? tag, objectKind? tag with
  | some t, _ => return .primitive (← primitive t)
  | none, some kind => return .ofRef? (← objectOf kind)
  | none, none => throw (.unknownTag tag)

def location : Read Location := do
  return ⟨← u8, ← typeId, ← methodId, ← u64⟩

/-- A size that is supported. -/
def size : Read Nat := do
  let n ← int
  if 1 ≤ n ∧ n ≤ 8 then return n.toInt.toNat else throw (.identifierSize n)

def idSizes : Read IdSizes := do
  return ⟨← size, ← size, ← size, ← size, ← size⟩

/-- Reads `n` items after those already found, which come last first. -/
def times (item : Read α) : Nat → List α → Read (List α)
  | 0, found => pure found.reverse
  | n + 1, found => do
    let a ← item
    times item n (a :: found)

/-- A sequence after its length. -/
def list (item : Read α) : Read (List α) := do
  times item (← length) []

/-- Reads from the front of data. What follows is ignored. -/
def run (reading : Read α) (sizes : IdSizes) (data : List UInt8) : Except Malformation α :=
  (reading sizes data).1

end Read

end JavaSnippet.Wire
