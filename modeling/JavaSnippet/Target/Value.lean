import JavaSnippet.Decimal.Shortest
import JavaSnippet.Descriptor
import JavaSnippet.Text.Quoted
/-!
Values in the target. Objects are known by handles, which do not keep them alive.
-/
namespace JavaSnippet.Target

/-- A primitive value. Floating-point numbers are given by their bits. -/
inductive Primitive where
  | boolean (value : Bool)
  | byte (value : Int8)
  | char (unit : UInt16)
  | short (value : Int16)
  | int (value : Int32)
  | long (value : Int64)
  | float (bits : UInt32)
  | double (bits : UInt64)
  deriving DecidableEq, Repr, Inhabited

namespace Primitive

def baseType : Primitive → BaseType
  | boolean _ => .boolean
  | byte _ => .byte
  | char _ => .char
  | short _ => .short
  | int _ => .int
  | long _ => .long
  | float _ => .float
  | double _ => .double

/-- Half of a surrogate pair is no character, and is shown as an escape. -/
def charText (unit : UInt16) : String :=
  if 0xD800 ≤ unit && unit ≤ 0xDFFF then
    String.ofList ('\\' :: 'u' :: Text.hexNumber unit.toNat)
  else (Char.ofNat unit.toNat).toString

/-- The value as it is shown. -/
def text : Primitive → String
  | boolean value => if value then "true" else "false"
  | byte value => toString value.toInt
  | char unit => charText unit
  | short value => toString value.toInt
  | int value => toString value.toInt
  | long value => toString value.toInt
  | float bits => Decimal.text32 bits
  | double bits => Decimal.text64 bits

end Primitive

/-- What sort of object a handle points at. -/
inductive ObjectKind where
  | object | string | thread | threadGroup | classLoader | classObject | array
  deriving DecidableEq, Hashable, Repr, Inhabited

namespace ObjectKind

def all : List ObjectKind :=
  [object, string, thread, threadGroup, classLoader, classObject, array]

def name : ObjectKind → String
  | object => "Object"
  | string => "String"
  | thread => "Thread"
  | threadGroup => "ThreadGroup"
  | classLoader => "ClassLoader"
  | classObject => "ClassObject"
  | array => "Array"

/-- The kind in running text. -/
def description : ObjectKind → String
  | object => "object"
  | string => "string"
  | thread => "thread"
  | threadGroup => "threadgroup"
  | classLoader => "classloader"
  | classObject => "classobject"
  | array => "array"

def ofName? (text : String) : Option ObjectKind :=
  all.find? (·.name == text)

end ObjectKind

/-- A handle to an object of the target. -/
structure ObjectRef where
  id : UInt64
  kind : ObjectKind
  deriving DecidableEq, Hashable, Repr, Inhabited

/-- A handle to a class or array type of the target. -/
structure ClassRef where
  id : UInt64
  /-- The name as source would spell it. -/
  name : String
  deriving DecidableEq, Hashable, Repr, Inhabited

/-- The result of a computation in the target. -/
inductive Value where
  /-- The result of a method that returns nothing. -/
  | void
  | null
  | primitive (value : Primitive)
  | object (ref : ObjectRef)
  deriving DecidableEq, Repr, Inhabited

namespace Value

/-- A handle, or `null`. -/
def ofRef? : Option ObjectRef → Value
  | none => null
  | some ref => object ref

def object? : Value → Option ObjectRef
  | object ref => some ref
  | _ => none

/-- Whether the value can be passed where a type is expected. Only the target knows the class of
an object, so an object goes with every class, and an array with every array type. -/
def fits (value : Value) (t : FieldType) : Bool :=
  match value with
  | void => false
  | null => t.isReference
  | primitive p => t.base? == some p.baseType
  | object ref => t.isReference && (!t.isArray || ref.kind == .array)

/-- What sort of value it is, in running text. -/
def description : Value → String
  | void => "void"
  | null => "null"
  | primitive p => p.baseType.keyword
  | object ref => ref.kind.description

end Value

end JavaSnippet.Target
