import JavaSnippet.ClassFile.Constant
import JavaSnippet.ClassFile.Flags
import JavaSnippet.ClassFile.Release
/-!
Class files and their attributes, as the data they hold.
-/
namespace JavaSnippet

namespace ClassFile

/-- A named piece of data on a class, a member or a body. -/
structure Attribute where
  name : PoolIndex
  info : List UInt8
  deriving DecidableEq, Repr, Inhabited

/-- A field or method. -/
structure Member (owner : FlagOwner) where
  flags : Flags owner
  name : PoolIndex
  descriptor : PoolIndex
  attributes : List Attribute
  deriving DecidableEq, Repr, Inhabited

/-- A range of code whose exceptions go to a handler. -/
structure Handler where
  start : UInt16
  stop : UInt16
  target : UInt16
  catchType : PoolIndex
  deriving DecidableEq, Repr, Inhabited

/-- The content of a `Code` attribute. -/
structure Code where
  maxStack : UInt16
  maxLocals : UInt16
  code : List UInt8
  handlers : List Handler
  attributes : List Attribute
  deriving DecidableEq, Repr, Inhabited

/-- An entry of an `InnerClasses` attribute. -/
structure InnerClass where
  inner : PoolIndex
  outer : PoolIndex
  name : PoolIndex
  flags : Flags .innerClass
  deriving DecidableEq, Repr, Inhabited

end ClassFile

open ClassFile in
structure ClassFile where
  version : Version
  constants : ConstantTable
  flags : Flags .classFile
  thisClass : PoolIndex
  superClass : PoolIndex
  interfaces : List PoolIndex
  fields : List (Member .field)
  methods : List (Member .method)
  attributes : List Attribute
  deriving Repr

namespace ClassFile

variable (c : ClassFile)

/-- The text that a slot names, as a class name. -/
def namedClass? (index : PoolIndex) : Option ClassName :=
  (c.constants.className? index).bind fun text => (ClassName.ofString text).toOption

def thisName? : Option ClassName := c.namedClass? c.thisClass

/-- The super class. Only `java/lang/Object` has none, at slot zero. -/
def superName? : Option ClassName :=
  if c.superClass = 0 then none else c.namedClass? c.superClass

def isInterface : Bool := c.flags.isInterface

/-- The first method of a name and descriptor. -/
def findMethod? (name descriptor : String) : Option (Member .method) :=
  c.methods.find? fun m =>
    c.constants.utf8? m.name == some name && c.constants.utf8? m.descriptor == some descriptor

/-- The first attribute of a name. -/
def findAttribute? (attributes : List Attribute) (name : String) : Option Attribute :=
  attributes.find? fun a => c.constants.utf8? a.name == some name

end ClassFile

end JavaSnippet
