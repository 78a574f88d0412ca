import JavaSnippet.Arithmetic
import JavaSnippet.ClassFile.Constant
import JavaSnippet.Descriptor.Shown
/-!
The instructions of straight-line method bodies, their effect on the operand stack and their
bytes. There are no branches, so bodies need no stack maps.
-/
namespace JavaSnippet.ClassFile

inductive InvokeKind where
  | static | special | virtual | interface
  deriving DecidableEq, Repr, Inhabited

/-- What a local variable holds, as far as instructions tell values apart. -/
inductive ValueKind where
  | int | long | reference
  deriving DecidableEq, Repr, Inhabited

/-- Stack slots of a value. -/
def ValueKind.slots : ValueKind → Nat
  | long => 2
  | _ => 1

inductive Instruction where
  | nullConst
  | intConst (value : Int32)
  | longConst (value : Int64)
  /-- Loads a constant of one slot. -/
  | ldc (index : PoolIndex)
  /-- Loads a constant of two slots. -/
  | ldc2 (index : PoolIndex)
  | load (kind : ValueKind) (slot : UInt16)
  | store (kind : ValueKind) (slot : UInt16)
  | arith (op : ArithOp) (width : IntWidth)
  | neg (width : IntWidth)
  /-- Turns an `int` into a `long`. -/
  | widen
  | pop
  | pop2
  | dup
  | newObject (index : PoolIndex)
  | checkCast (index : PoolIndex)
  | invoke (kind : InvokeKind) (method : PoolIndex) (type : MethodType)
  | throwObject
  | returnValue (kind : ValueKind)
  | returnVoid
  deriving DecidableEq, Repr, Inhabited

namespace Instruction

/-- Stack slots popped and pushed. -/
def stackEffect : Instruction → Nat × Nat
  | nullConst | intConst _ | ldc _ | newObject _ => (0, 1)
  | longConst _ | ldc2 _ => (0, 2)
  | load kind _ => (0, kind.slots)
  | store kind _ | returnValue kind => (kind.slots, 0)
  | arith _ width => (2 * width.slots, width.slots)
  | neg width => (width.slots, width.slots)
  | widen => (1, 2)
  | pop | throwObject => (1, 0)
  | pop2 => (2, 0)
  | dup => (1, 2)
  | checkCast _ => (1, 1)
  | invoke kind _ type => (type.parameterSlots (kind != .static), type.resultSlots)
  | returnVoid => (0, 0)

/-- Whether nothing after the instruction in the body is run. -/
def isTerminal : Instruction → Bool
  | throwObject | returnValue _ | returnVoid => true
  | _ => false

/-- The opcodes of a load, with a slot operand and with the slot 0 built in. -/
def loadOpcodes : ValueKind → UInt8 × UInt8
  | .int => (0x15, 0x1a)
  | .long => (0x16, 0x1e)
  | .reference => (0x19, 0x2a)

def storeOpcodes : ValueKind → UInt8 × UInt8
  | .int => (0x36, 0x3b)
  | .long => (0x37, 0x3f)
  | .reference => (0x3a, 0x4b)

/-- Slots up to 3 are built into the opcode, and slots past 255 need the wide form. -/
def encodeLocal (opcodes : UInt8 × UInt8) (slot : UInt16) : List UInt8 :=
  if slot < 4 then [opcodes.2 + slot.toUInt8]
  else if slot < 256 then [opcodes.1, slot.toUInt8]
  else 0xc4 :: opcodes.1 :: Bytes.ofUInt16 slot

/-- The opcode at width `int`; the one at width `long` is the next. -/
def arithOpcode : ArithOp → UInt8
  | .add => 0x60
  | .sub => 0x64
  | .mul => 0x68
  | .div => 0x6c
  | .rem => 0x70

def widthOffset : IntWidth → UInt8
  | .int => 0
  | .long => 1

def returnOpcode : ValueKind → UInt8
  | .int => 0xac
  | .long => 0xad
  | .reference => 0xb0

/-- The shortest form that holds the value. -/
def encodeIntConst (value : Int32) : List UInt8 :=
  if -1 ≤ value ∧ value ≤ 5 then [(value.toInt + 3).toNat.toUInt8]
  else if -128 ≤ value ∧ value < 128 then [0x10, value.toInt8.toUInt8]
  else 0x11 :: Bytes.ofUInt16 value.toInt16.toUInt16

def encodeInvoke (kind : InvokeKind) (method : PoolIndex) (type : MethodType) : List UInt8 :=
  match kind with
  | .virtual => 0xb6 :: Bytes.ofUInt16 method
  | .special => 0xb7 :: Bytes.ofUInt16 method
  | .static => 0xb8 :: Bytes.ofUInt16 method
  | .interface => 0xb9 :: (Bytes.ofUInt16 method ++ [(type.parameterSlots true).toUInt8, 0])

def encode : Instruction → List UInt8
  | nullConst => [0x01]
  | intConst value => encodeIntConst value
  | longConst value => [0x09 + value.toUInt64.toUInt8]
  | ldc index => if index < 256 then [0x12, index.toUInt8] else 0x13 :: Bytes.ofUInt16 index
  | ldc2 index => 0x14 :: Bytes.ofUInt16 index
  | load kind slot => encodeLocal (loadOpcodes kind) slot
  | store kind slot => encodeLocal (storeOpcodes kind) slot
  | pop => [0x57]
  | pop2 => [0x58]
  | dup => [0x59]
  | arith op width => [arithOpcode op + widthOffset width]
  | neg width => [0x74 + widthOffset width]
  | widen => [0x85]
  | returnValue kind => [returnOpcode kind]
  | returnVoid => [0xb1]
  | invoke kind method type => encodeInvoke kind method type
  | newObject index => 0xbb :: Bytes.ofUInt16 index
  | throwObject => [0xbf]
  | checkCast index => 0xc0 :: Bytes.ofUInt16 index

def kindLetter : ValueKind → String
  | .int => "I"
  | .long => "L"
  | .reference => "A"

def widthLetter : IntWidth → String
  | .int => "I"
  | .long => "L"

def opName : ArithOp → String
  | .add => "Add"
  | .sub => "Sub"
  | .mul => "Mul"
  | .div => "Div"
  | .rem => "Rem"

def invokeName : InvokeKind → String
  | .static => "Static"
  | .special => "Special"
  | .virtual => "Virtual"
  | .interface => "Interface"

/-- An instruction as messages show it. -/
def text : Instruction → String
  | nullConst => "AConstNull"
  | intConst value => s!"IConst({value})"
  | longConst value => s!"LConst({value})"
  | ldc index => s!"Ldc({Constant.showIndex index})"
  | ldc2 index => s!"Ldc2W({Constant.showIndex index})"
  | load kind slot => s!"{kindLetter kind}Load({slot})"
  | store kind slot => s!"{kindLetter kind}Store({slot})"
  | arith op width => widthLetter width ++ opName op
  | neg width => widthLetter width ++ "Neg"
  | widen => "I2L"
  | pop => "Pop"
  | pop2 => "Pop2"
  | dup => "Dup"
  | newObject index => s!"New({Constant.showClass index})"
  | checkCast index => s!"CheckCast({Constant.showClass index})"
  | invoke kind method type =>
    Constant.showFields "Invoke"
      [("kind", invokeName kind), ("method", Constant.showMethod method),
        ("descriptor", type.shown)]
  | throwObject => "AThrow"
  | returnValue kind => kindLetter kind ++ "Return"
  | returnVoid => "Return"

end Instruction

end JavaSnippet.ClassFile
