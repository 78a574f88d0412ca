import JavaSnippet.ClassFile.Encode
import JavaSnippet.ClassFile.Input
/-!
Class files read from bytes. The whole input has to be one class file; flag bits without a meaning
are dropped.
-/
namespace JavaSnippet.ClassFile

namespace Read

/-- The constant after a tag that was found at an offset. -/
def payload (start : Nat) (tag : UInt8) : Read Constant :=
  match tag with
  | 1 => do
    let length ← u16
    let encoded ← bytes length.toNat
    match Text.ModifiedUtf8.decode encoded with
    | .ok text => return .utf8 text
    | .error fault => refuseAt start (.badText fault)
  | 3 => return .integer (← i32)
  | 4 => return .float (← f32)
  | 5 => return .long (← i64)
  | 6 => return .double (← f64)
  | 7 => return .classRef (← u16)
  | 8 => return .string (← u16)
  | 9 => return .fieldRef (← u16) (← u16)
  | 10 => return .methodRef (← u16) (← u16) false
  | 11 => return .methodRef (← u16) (← u16) true
  | 12 => return .nameAndType (← u16) (← u16)
  | 15 => return .methodHandle (← u8) (← u16)
  | 16 => return .methodType (← u16)
  | 17 => return .dynamic (← u16) (← u16)
  | 18 => return .invokeDynamic (← u16) (← u16)
  | 19 => return .module (← u16)
  | 20 => return .package (← u16)
  | other => refuseAt start (.unknownTag other)

def constant : Read Constant := do
  let start ← offset
  let tag ← u8
  payload start tag

/-- Fills the given number of free slots. -/
def constantsInto : Nat → ConstantTable → Read ConstantTable
  | 0, table => pure table
  | 1, table => do
    let c ← constant
    if width c = 1 then return table.push c else refuse .poolOverrun
  | slots + 2, table => do
    let c ← constant
    if width c = 1 then constantsInto (slots + 1) (table.push c)
    else constantsInto slots (table.push c)

/-- The number of slots, with slot zero, and the constants. -/
def constants : Read ConstantTable := do
  let count ← u16
  if count = 0 then refuse .emptyPool
  else constantsInto (count.toNat - 1) .empty

def flags {owner : FlagOwner} : Read (Flags owner) := do return .ofBits (← u16)

def attributeInfo : Read Attribute := do
  let name ← u16
  let length ← u32
  return ⟨name, ← bytes length⟩

def member {owner : FlagOwner} : Read (Member owner) := do
  return ⟨← flags, ← u16, ← u16, ← list attributeInfo⟩

def handler : Read Handler := do
  return ⟨← u16, ← u16, ← u16, ← u16⟩

def innerClass : Read InnerClass := do
  return ⟨← u16, ← u16, ← u16, ← flags⟩

def code : Read Code := do
  let maxStack ← u16
  let maxLocals ← u16
  let length ← u32
  let body ← bytes length
  let handlers ← list handler
  let attributes ← list attributeInfo
  if ← atEnd then return ⟨maxStack, maxLocals, body, handlers, attributes⟩
  else refuse .trailingCode

end Read

/-- Where the constants of a class file start and end. -/
structure Layout where
  /-- The offset of the slot count in front of the constants. -/
  poolStart : Nat
  /-- The offset after the last constant. -/
  poolEnd : Nat
  deriving DecidableEq, Repr, Inhabited

/-- The offset of the index of the super class. -/
def Layout.superClass (l : Layout) : Nat := l.poolEnd + 4

open Read in
def readClassFile : Read (ClassFile × Layout) := do
  if (← bytes 4) ≠ magic then refuseAt 0 .missingMagic
  let minor ← u16
  let major ← u16
  let poolStart ← offset
  let constants ← Read.constants
  let poolEnd ← offset
  let flags ← Read.flags
  let thisClass ← u16
  let superClass ← u16
  let interfaces ← list u16
  let fields ← list member
  let methods ← list member
  let attributes ← list attributeInfo
  if !(← atEnd) then refuse .trailingBytes
  if (constants.className? thisClass).isNone then refuseAt (poolEnd + 2) .noThisClass
  return (⟨⟨major, minor⟩, constants, flags, thisClass, superClass, interfaces, fields, methods,
    attributes⟩, ⟨poolStart, poolEnd⟩)

/-- Reads a class file and notes where its constants lie. -/
def decodeWithLayout (bytes : List UInt8) : Except Fault (ClassFile × Layout) :=
  readClassFile.run bytes

def decode (bytes : List UInt8) : Except Fault ClassFile :=
  (decodeWithLayout bytes).map (·.1)

def Code.decode (info : List UInt8) : Except Fault Code :=
  Read.code.run info

/-- Reads the entries of an `InnerClasses` attribute. What follows them is not looked at. -/
def decodeInnerClasses (info : List UInt8) : Except Fault (List InnerClass) :=
  (Read.list Read.innerClass).run info

end JavaSnippet.ClassFile
