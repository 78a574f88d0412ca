import JavaSnippet.ClassFile.MethodBody
import JavaSnippet.Source.Syntax
import JavaSnippet.Typing.Term
/-!
Class files for typed classes. Every class extends `java/lang/Object`, has a public constructor
without parameters, and names its source file and its nested classes.
-/
namespace JavaSnippet.Compile

open ClassFile Typing

/-- A class ready to be written. -/
structure TypedClass where
  name : ClassName
  modifiers : Source.Modifiers
  /-- The class this one is nested in. -/
  outer : Option ClassName
  /-- The classes declared directly inside. -/
  members : List (ClassName × Source.Modifiers)
  methods : List TypedMethod
  sourceFile : String
  deriving Repr, Inhabited

/-- A nested class that is not private has to be visible to subclasses everywhere, so `protected`
counts as `public`. -/
def classFlags (m : Source.Modifiers) : Flags .classFile :=
  (⟨Flag.isSuper⟩ : Flags .classFile)
    |>.withBit Flag.isPublic (m.isPublic || m.isProtected)
    |>.withBit Flag.isFinal m.isFinal
    |>.withBit Flag.isAbstract m.isAbstract

def innerFlags (m : Source.Modifiers) : Flags .innerClass :=
  Flags.none
    |>.withBit Flag.isPublic m.isPublic
    |>.withBit Flag.isProtected m.isProtected
    |>.withBit Flag.isPrivate m.isPrivate
    |>.withBit Flag.isStatic m.isStatic
    |>.withBit Flag.isFinal m.isFinal
    |>.withBit Flag.isAbstract m.isAbstract

def noArguments : MethodType := ⟨[], none⟩

/-- The slots that hold local variables, by number. -/
abbrev SlotMap := Array (Option UInt16)

namespace Emit

open MethodBody

/-- The parameter of the method that appends a value of a type to a text. -/
def appendParameter (t : ExprType) : FieldType :=
  match t.base? with
  | some .long => .long
  | some .boolean => .boolean
  | some .char => .base .char
  | some _ => .int
  | none => if t.isString then .string else .object .object

/-- Drops the value of an evaluated term. -/
def dropResult : ExprType → Build Unit
  | .void => pure ()
  | .null => push .pop
  | .value t => MethodBody.drop t

/-- Starts a text builder, to which parts are then appended. -/
def startBuilder : Build Unit := do
  newObject .stringBuilder
  push .dup
  invoke .special .stringBuilder "<init>" noArguments

def appendPart (t : ExprType) : Build Unit :=
  invoke .virtual .stringBuilder "append" ⟨[appendParameter t], some (.object .stringBuilder)⟩

def finishBuilder : Build Unit :=
  invoke .virtual .stringBuilder "toString" ⟨[], some .string⟩

variable (slots : SlotMap)

/-- The slot of a declared variable. -/
def slotOf (id : Nat) : Build UInt16 :=
  match slots[id]? with
  | some (some slot) => pure slot
  | _ => throw (.badDescriptor (.undeclaredLocal id))

mutual

/-- Leaves the value of a term on the stack. -/
def term : Term → Build Unit
  | .int value => pushInt value
  | .long value => pushLong value
  | .string text => pushString text
  | .bool value => pushInt (if value then 1 else 0)
  | .null => push .nullConst
  | .localVar id type => do load type (← slotOf slots id)
  | .neg width operand => do
    term operand
    push (.neg width)
  | .arith op width left right => do
    term left
    term right
    push (.arith op width)
  | .widen operand => do
    term operand
    push .widen
  | .concat parts => do
    startBuilder
    appendParts parts
    finishBuilder
  | .callStatic owner method type args => do
    terms args
    invoke .static owner method type
  | .callStaticOn receiver owner method type args => do
    term receiver
    dropResult receiver.type
    terms args
    invoke .static owner method type
  | .callInstance receiver ofInterface owner method type args => do
    term receiver
    terms args
    invoke (if ofInterface then .interface else .virtual) owner method type
  | .create owner type args => do
    newObject owner
    push .dup
    terms args
    invoke .special owner "<init>" type

/-- Leaves the values of terms on the stack, in order. -/
def terms : List Term → Build Unit
  | [] => pure ()
  | t :: rest => do
    term t
    terms rest

/-- Appends the values of terms to the text builder on the stack. -/
def appendParts : List Term → Build Unit
  | [] => pure ()
  | t :: rest => do
    term t
    appendPart t.type
    appendParts rest

end

/-- Writes a statement, and tells where the variables are after it. -/
def statement (m : TypedMethod) (s : TypedStmt) : Build SlotMap :=
  match s with
  | .declare id value => do
    let type := m.locals.getD id .int
    let slot ← freshLocal type
    let slots := slots.setIfInBounds id (some slot)
    match value with
    | some t =>
      term slots t
      store type slot
    | none => pure ()
    return slots
  | .store id value => do
    let slot ← slotOf slots id
    term slots value
    store (m.locals.getD id .int) slot
    return slots
  | .returns value => do
    match value with
    | some t => term slots t
    | none => pure ()
    returnValue m.signature.type.result
    return slots
  | .throws value => do
    term slots value
    push .throwObject
    return slots
  | .expr value => do
    term slots value
    dropResult value.type
    return slots

def statements (m : TypedMethod) (slots : SlotMap) : List TypedStmt → Build Unit
  | [] => pure ()
  | s :: rest => do statements m (← statement slots m s) rest

/-- The slots of the parameters from a slot on, if sixteen bits can count them. -/
def parameterSlots (next : Nat) : List FieldType → Option (List (Option UInt16))
  | [] => some []
  | t :: rest =>
    if next < 65536 then (parameterSlots (next + width t) rest).map (some next.toUInt16 :: ·)
    else none

/-- The whole body of a method. -/
def method (m : TypedMethod) (slots : SlotMap) : Build Attribute := do
  statements m slots m.body
  if m.fallsThrough then returnValue none
  finish

/-- The constructor, which only calls the one of `java/lang/Object`. -/
def constructor : Build Attribute := do
  push (.load .reference 0)
  invoke .special .object "<init>" noArguments
  push .returnVoid
  finish

end Emit

/-- A change of the constants that may find a method impossible to write. -/
abbrev Write (α : Type) := StateT Pool (Except Fault) α

def inPool {α : Type} (change : Pool.Change α) : Write α :=
  fun pool =>
    match change pool with
    | (.ok a, pool) => .ok (a, pool)
    | (.error overflow, _) => .error (.poolOverflow overflow)

/-- Writes a body whose parameters take the first slots. -/
def inBody {α : Type} (parameterSlots : Nat) (build : MethodBody.Build α) : Write α :=
  fun pool =>
    match build (MethodBody.start pool parameterSlots) with
    | (.ok a, body) => .ok (a, body.pool)
    | (.error fault, _) => .error fault

def writeConstructor : Write (Member .method) := do
  let name ← inPool (Pool.utf8 "<init>")
  let descriptor ← inPool (Pool.utf8 noArguments.render)
  let code ← inBody 1 Emit.constructor
  return ⟨⟨Flag.isPublic⟩, name, descriptor, [code]⟩

def writeMethod (m : TypedMethod) : Write (Member .method) := do
  let name ← inPool (Pool.utf8 m.signature.name)
  let descriptor ← inPool (Pool.utf8 m.signature.type.render)
  match Emit.parameterSlots 0 m.signature.type.parameters with
  | none => throw .frameOverflow
  | some slots =>
    let others := List.replicate (m.locals.length - slots.length) none
    let code ← inBody (m.signature.type.parameterSlots false)
      (Emit.method m (slots ++ others).toArray)
    return ⟨m.signature.flags, name, descriptor, [code]⟩

/-- Writes methods after those already written, which come last first. -/
def writeMethods (written : List (Member .method)) :
    List TypedMethod → Write (List (Member .method))
  | [] => return written.reverse
  | m :: rest => do writeMethods ((← writeMethod m) :: written) rest

/-- The entry of a class nested in another. -/
def writeInner (inner outer : ClassName) (m : Source.Modifiers) : Write InnerClass := do
  let innerIndex ← inPool (Pool.classRef inner.text)
  let outerIndex ← inPool (Pool.classRef outer.text)
  let name ← inPool (Pool.utf8 inner.simpleName)
  return ⟨innerIndex, outerIndex, name, innerFlags m⟩

/-- The class itself if it is nested, and the classes directly inside it. -/
def TypedClass.nesting (c : TypedClass) : List (ClassName × ClassName × Source.Modifiers) :=
  (c.outer.map fun outer => (c.name, outer, c.modifiers)).toList ++
    c.members.map fun member => (member.1, c.name, member.2)

def writeAttributes (c : TypedClass) : Write (List Attribute) := do
  let file ← inPool (Pool.utf8 c.sourceFile)
  let source ← inPool (Pool.utf8 "SourceFile")
  let sourceFile : Attribute := ⟨source, Bytes.ofUInt16 file⟩
  let entries ← c.nesting.mapM fun entry => writeInner entry.1 entry.2.1 entry.2.2
  if entries.isEmpty then return [sourceFile]
  else
    let name ← inPool (Pool.utf8 "InnerClasses")
    return [sourceFile, ⟨name, encodeInnerClasses entries⟩]

/-- The class file of a class, from an empty pool. -/
def writeClass (c : TypedClass) (version : Version) : Write ClassFile := do
  let thisClass ← inPool (Pool.classRef c.name.text)
  let superClass ← inPool (Pool.classRef ClassName.object.text)
  let constructor ← writeConstructor
  let methods ← writeMethods [] c.methods
  let attributes ← writeAttributes c
  let pool ← get
  return ⟨version, pool.table, classFlags c.modifiers, thisClass, superClass, [], [],
    constructor :: methods, attributes⟩

/-- The class file of a typed class. -/
def emit (c : TypedClass) (version : Version) : Except Fault ClassFile :=
  (StateT.run (writeClass c version) .empty).map (·.1)

end JavaSnippet.Compile
