import JavaSnippet.Bytes
import JavaSnippet.Decimal.Shortest
import JavaSnippet.SlotTable
import JavaSnippet.Text.ModifiedUtf8
import JavaSnippet.Text.Quoted
/-!
Constants of a class file. They refer to one another by slot; 8-byte numbers take two slots.
Floating-point numbers are kept as bits, so equal constants have equal encodings.
-/
namespace JavaSnippet.ClassFile

/-- The slot of a constant. Zero is the slot of none. -/
abbrev PoolIndex := UInt16

inductive Constant where
  | utf8 (text : String)
  | integer (value : Int32)
  | float (bits : UInt32)
  | long (value : Int64)
  | double (bits : UInt64)
  | classRef (name : PoolIndex)
  | string (text : PoolIndex)
  | fieldRef (owner nameAndType : PoolIndex)
  | methodRef (owner nameAndType : PoolIndex) (ofInterface : Bool)
  | nameAndType (name descriptor : PoolIndex)
  | methodHandle (kind : UInt8) (member : PoolIndex)
  | methodType (descriptor : PoolIndex)
  | dynamic (bootstrap : UInt16) (nameAndType : PoolIndex)
  | invokeDynamic (bootstrap : UInt16) (nameAndType : PoolIndex)
  | module (name : PoolIndex)
  | package (name : PoolIndex)
  deriving DecidableEq, Hashable, Repr, Inhabited

namespace Constant

instance : Width Constant where
  width
    | .long _ | .double _ => 2
    | _ => 1

/-- The byte in front of a constant that tells its kind. -/
def tag : Constant → UInt8
  | utf8 _ => 1
  | integer _ => 3
  | float _ => 4
  | long _ => 5
  | double _ => 6
  | classRef _ => 7
  | string _ => 8
  | fieldRef _ _ => 9
  | methodRef _ _ false => 10
  | methodRef _ _ true => 11
  | nameAndType _ _ => 12
  | methodHandle _ _ => 15
  | methodType _ => 16
  | dynamic _ _ => 17
  | invokeDynamic _ _ => 18
  | module _ => 19
  | package _ => 20

/-- The bytes after the tag. -/
def payload : Constant → List UInt8
  | utf8 text =>
    let encoded := Text.ModifiedUtf8.encode text
    Bytes.ofLength16 encoded.length ++ encoded
  | integer value => Bytes.ofUInt32 value.toUInt32
  | float bits => Bytes.ofUInt32 bits
  | long value => Bytes.ofUInt64 value.toUInt64
  | double bits => Bytes.ofUInt64 bits
  | classRef index | string index | methodType index | module index | package index =>
    Bytes.ofUInt16 index
  | fieldRef first second | methodRef first second _ | nameAndType first second
  | dynamic first second | invokeDynamic first second =>
    Bytes.ofUInt16 first ++ Bytes.ofUInt16 second
  | methodHandle kind member => kind :: Bytes.ofUInt16 member

def encode (c : Constant) : List UInt8 :=
  c.tag :: c.payload

/-- A slot as messages show it. -/
def showIndex (index : PoolIndex) : String := s!"ConstantIndex({index})"

/-- A slot that has to hold a constant of the given kind, as messages show it. -/
def showTyped (kind : String) (index : PoolIndex) : String :=
  s!"{kind}ConstantIndex({showIndex index})"

def showUtf8 : PoolIndex → String := showTyped "Utf8"
def showClass : PoolIndex → String := showTyped "Class"
def showNameAndType : PoolIndex → String := showTyped "NameAndType"
def showMethod : PoolIndex → String := showTyped "MethodRef"

/-- Named fields as messages show them. -/
def showFields (kind : String) (fields : List (String × String)) : String :=
  let inner := fields.map fun field => field.1 ++ ": " ++ field.2
  kind ++ " \x7b " ++ String.intercalate ", " inner ++ " \x7d"

/-- A constant as messages show it. -/
def text : Constant → String
  | utf8 text => s!"Utf8({Text.quoted text})"
  | integer value => s!"Integer({value})"
  | float bits => s!"Float({Decimal.text32 bits})"
  | long value => s!"Long({value})"
  | double bits => s!"Double({Decimal.text64 bits})"
  | classRef name => s!"Class({showUtf8 name})"
  | string text => s!"String({showUtf8 text})"
  | fieldRef owner member => s!"FieldRef({showClass owner}, {showNameAndType member})"
  | methodRef owner member ofInterface =>
    showFields "MethodRef"
      [("class", showClass owner), ("name_and_type", showNameAndType member),
        ("is_interface", toString ofInterface)]
  | nameAndType name descriptor =>
    showFields "NameAndType" [("name", showUtf8 name), ("descriptor", showUtf8 descriptor)]
  | methodHandle kind member =>
    showFields "MethodHandle" [("handle_kind", toString kind), ("member", showIndex member)]
  | methodType descriptor => showFields "MethodType" [("descriptor", showUtf8 descriptor)]
  | dynamic bootstrap member =>
    showFields "Dynamic"
      [("bootstrap_method", toString bootstrap), ("name_and_type", showNameAndType member)]
  | invokeDynamic bootstrap member =>
    showFields "InvokeDynamic"
      [("bootstrap_method", toString bootstrap), ("method_descriptor", showNameAndType member)]
  | module name => s!"Module({showUtf8 name})"
  | package name => s!"Package({showUtf8 name})"

end Constant

/-- The constants of a class file by slot. The first slot is 1. -/
abbrev ConstantTable := SlotTable Constant

namespace ConstantTable

def empty : ConstantTable := SlotTable.startingAt 1

def constant? (t : ConstantTable) (index : PoolIndex) : Option Constant :=
  t.get? index.toNat

/-- The text in a slot. -/
def utf8? (t : ConstantTable) (index : PoolIndex) : Option String :=
  match t.constant? index with
  | some (.utf8 text) => some text
  | _ => none

/-- The text that the class in a slot is named by. -/
def className? (t : ConstantTable) (index : PoolIndex) : Option String :=
  match t.constant? index with
  | some (.classRef name) => t.utf8? name
  | _ => none

/-- The first free slot as two bytes, then the constants. -/
def encode (t : ConstantTable) : List UInt8 :=
  Bytes.ofLength16 t.next ++ t.elements.flatMap Constant.encode

/-- The table as messages show it. -/
def text (t : ConstantTable) : String :=
  let entries := t.toList.map fun entry => s!"#{entry.1} = {Constant.text entry.2}"
  "[" ++ String.intercalate ", " entries ++ "]"

end ConstantTable

end JavaSnippet.ClassFile
