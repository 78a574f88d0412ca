import JavaSnippet.ClassFile.Basic
/-!
The bytes of class files. Sequences are preceded by their length.
-/
namespace JavaSnippet.ClassFile

def Attribute.encode (a : Attribute) : List UInt8 :=
  Bytes.ofUInt16 a.name ++ Bytes.ofLength32 a.info.length ++ a.info

/-- A sequence with its length in two bytes. -/
def encodeList {α : Type} (encode : α → List UInt8) (items : List α) : List UInt8 :=
  Bytes.ofLength16 items.length ++ items.flatMap encode

def Member.encode {owner : FlagOwner} (m : Member owner) : List UInt8 :=
  Bytes.ofUInt16 m.flags.bits ++ Bytes.ofUInt16 m.name ++ Bytes.ofUInt16 m.descriptor ++
    encodeList Attribute.encode m.attributes

def Handler.encode (h : Handler) : List UInt8 :=
  Bytes.ofUInt16 h.start ++ Bytes.ofUInt16 h.stop ++ Bytes.ofUInt16 h.target ++
    Bytes.ofUInt16 h.catchType

def Code.encode (c : Code) : List UInt8 :=
  Bytes.ofUInt16 c.maxStack ++ Bytes.ofUInt16 c.maxLocals ++
    (Bytes.ofLength32 c.code.length ++ (c.code ++
      (encodeList Handler.encode c.handlers ++ encodeList Attribute.encode c.attributes)))

def InnerClass.encode (entry : InnerClass) : List UInt8 :=
  Bytes.ofUInt16 entry.inner ++ Bytes.ofUInt16 entry.outer ++ Bytes.ofUInt16 entry.name ++
    Bytes.ofUInt16 entry.flags.bits

def encodeInnerClasses (entries : List InnerClass) : List UInt8 :=
  encodeList InnerClass.encode entries

/-- The four bytes that every class file starts with. -/
def magic : List UInt8 := [0xCA, 0xFE, 0xBA, 0xBE]

end JavaSnippet.ClassFile

namespace JavaSnippet

open ClassFile in
def ClassFile.encode (c : ClassFile) : List UInt8 :=
  magic ++ (c.version.encode ++ (c.constants.encode ++ (Bytes.ofUInt16 c.flags.bits ++
    (Bytes.ofUInt16 c.thisClass ++ (Bytes.ofUInt16 c.superClass ++
      (encodeList Bytes.ofUInt16 c.interfaces ++ (encodeList Member.encode c.fields ++
        (encodeList Member.encode c.methods ++ encodeList Attribute.encode c.attributes))))))))

end JavaSnippet
