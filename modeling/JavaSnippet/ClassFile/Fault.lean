import JavaSnippet.ClassFile.Instruction
import JavaSnippet.ClassFile.Pool
/-!
Why a class file cannot be read or written.
-/
namespace JavaSnippet.ClassFile

/-- What is wrong with the bytes of a class file. -/
inductive Malformation where
  | missingMagic
  /-- The input ends inside a number, which is given by its letter and width. -/
  | truncatedNumber (form : String)
  | truncatedBytes (wanted : Nat)
  | unknownTag (tag : UInt8)
  | badText (fault : Text.ModifiedUtf8.Fault)
  | emptyPool
  | poolOverrun
  | trailingBytes
  | trailingCode
  | noThisClass
  | badThisName
  | badInterface (fault : NameFault)
  | badMember
  deriving DecidableEq, Repr, Inhabited

def Malformation.message : Malformation → String
  | .missingMagic => "missing 0xCAFEBABE magic header"
  | .truncatedNumber form => s!"unexpected end of input reading {form}"
  | .truncatedBytes wanted => s!"unexpected end of input reading {wanted} bytes"
  | .unknownTag tag => s!"unknown constant pool tag {tag}"
  | .badText fault => fault.message
  | .emptyPool => "constant_pool_count must be at least 1"
  | .poolOverrun => "8-byte constant overruns constant_pool_count"
  | .trailingBytes => "trailing bytes after class file"
  | .trailingCode => "trailing bytes in Code attribute"
  | .noThisClass => "this_class is not a class constant"
  | .badThisName => "invalid this_class name"
  | .badInterface fault => fault.message
  | .badMember => "method name or descriptor is not a Utf8 constant"

/-- Why a descriptor cannot be used. -/
inductive BadDescriptor where
  | floatingLocal
  | floatingReturn
  | undeclaredLocal (id : Nat)
  | unreadable (fault : DescriptorFault)
  deriving DecidableEq, Repr, Inhabited

def BadDescriptor.message : BadDescriptor → String
  | .floatingLocal => "floating point local"
  | .floatingReturn => "floating point return"
  | .undeclaredLocal id => s!"local {id} used before its declaration"
  | .unreadable fault => fault.message

inductive Fault where
  | poolOverflow (overflow : PoolOverflow)
  /-- The body grew past 65535 bytes with an instruction at an offset. -/
  | codeOverflow (instruction : Instruction) (offset : Nat)
  | malformed (offset : Nat) (cause : Malformation)
  /-- An instruction needs more operands than there are. -/
  | stackUnderflow (instruction : Instruction) (offset : Nat)
  /-- An instruction follows one that never goes on. -/
  | unreachable (instruction : Instruction) (offset : Nat)
  /-- More stack or local slots than sixteen bits can count. -/
  | frameOverflow
  | badDescriptor (cause : BadDescriptor)
  deriving DecidableEq, Repr, Inhabited

/-- The name of the kind of fault. -/
def Fault.kind : Fault → String
  | .poolOverflow _ => "ConstantPoolOverflow"
  | .codeOverflow _ _ => "MethodCodeOverflow"
  | .malformed _ _ => "Malformed"
  | .stackUnderflow _ _ => "StackUnderflow"
  | .unreachable _ _ => "UnreachableCode"
  | .frameOverflow => "FrameOverflow"
  | .badDescriptor _ => "BadDescriptor"

def Fault.message : Fault → String
  | .poolOverflow overflow =>
    s!"constant pool overflow at #{overflow.slot} adding {overflow.constant.text}"
  | .codeOverflow instruction offset => s!"method code overflow at {offset} ({instruction.text})"
  | .malformed offset cause => s!"malformed class file at byte {offset}: {cause.message}"
  | .stackUnderflow instruction offset => s!"stack underflow at {offset} ({instruction.text})"
  | .unreachable instruction offset => s!"unreachable code at {offset} ({instruction.text})"
  | .frameOverflow => "too many stack or local slots"
  | .badDescriptor cause => s!"bad descriptor: {cause.message}"

end JavaSnippet.ClassFile
