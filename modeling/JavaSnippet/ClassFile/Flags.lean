/-!
Access flags. Which bits have a meaning depends on what carries the flags.
-/
namespace JavaSnippet.ClassFile

/-- What access flags belong to. -/
inductive FlagOwner where
  | classFile | method | field | innerClass
  deriving DecidableEq, Repr

/-- The flags an owner can carry, with their bits, in the order they are listed. -/
def FlagOwner.flags : FlagOwner → List (String × UInt16)
  | .classFile =>
    [("PUBLIC", 0x0001), ("FINAL", 0x0010), ("SUPER", 0x0020), ("INTERFACE", 0x0200),
      ("ABSTRACT", 0x0400), ("SYNTHETIC", 0x1000), ("ANNOTATION", 0x2000), ("ENUM", 0x4000),
      ("MODULE", 0x8000)]
  | .method =>
    [("PUBLIC", 0x0001), ("PRIVATE", 0x0002), ("PROTECTED", 0x0004), ("STATIC", 0x0008),
      ("FINAL", 0x0010), ("SYNCHRONIZED", 0x0020), ("BRIDGE", 0x0040), ("VARARGS", 0x0080),
      ("NATIVE", 0x0100), ("ABSTRACT", 0x0400), ("STRICT", 0x0800), ("SYNTHETIC", 0x1000)]
  | .field =>
    [("PUBLIC", 0x0001), ("PRIVATE", 0x0002), ("PROTECTED", 0x0004), ("STATIC", 0x0008),
      ("FINAL", 0x0010), ("VOLATILE", 0x0040), ("TRANSIENT", 0x0080), ("SYNTHETIC", 0x1000),
      ("ENUM", 0x4000)]
  | .innerClass =>
    [("PUBLIC", 0x0001), ("PRIVATE", 0x0002), ("PROTECTED", 0x0004), ("STATIC", 0x0008),
      ("FINAL", 0x0010), ("INTERFACE", 0x0200), ("ABSTRACT", 0x0400), ("SYNTHETIC", 0x1000)]

/-- All bits that mean something to an owner. -/
def FlagOwner.mask (owner : FlagOwner) : UInt16 :=
  owner.flags.foldl (fun bits flag => bits ||| flag.2) 0

/-- A set of access flags. -/
structure Flags (owner : FlagOwner) where
  bits : UInt16
  deriving DecidableEq, Repr, Inhabited

namespace Flags

variable {owner : FlagOwner}

/-- Drops the bits that mean nothing. -/
def ofBits (raw : UInt16) : Flags owner :=
  ⟨raw &&& owner.mask⟩

def none : Flags owner := ⟨0⟩

def contains (flags : Flags owner) (bit : UInt16) : Bool :=
  flags.bits &&& bit == bit

/-- Adds a bit if the condition holds. -/
def withBit (flags : Flags owner) (bit : UInt16) (condition : Bool) : Flags owner :=
  if condition then ⟨flags.bits ||| bit⟩ else flags

/-- The names of the flags, joined by bars. -/
def text (flags : Flags owner) : String :=
  let names := (owner.flags.filter fun flag => flags.contains flag.2).map (·.1)
  if names.isEmpty then "(empty)" else String.intercalate " | " names

end Flags

namespace Flag

def isPublic : UInt16 := 0x0001
def isPrivate : UInt16 := 0x0002
def isProtected : UInt16 := 0x0004
def isStatic : UInt16 := 0x0008
def isFinal : UInt16 := 0x0010
def isSuper : UInt16 := 0x0020
def isInterface : UInt16 := 0x0200
def isAbstract : UInt16 := 0x0400

end Flag

/-- A method that is called without a receiver. -/
def Flags.isStatic (flags : Flags .method) : Bool := flags.contains Flag.isStatic

/-- A method that only its class may call. -/
def Flags.isPrivate (flags : Flags .method) : Bool := flags.contains Flag.isPrivate

def Flags.isInterface (flags : Flags .classFile) : Bool := flags.contains Flag.isInterface

end JavaSnippet.ClassFile
