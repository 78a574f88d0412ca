import JavaSnippet.Wire.Event
/-!
Requests to the target: for each the command it is sent with, the data it is sent with, and how
its answer is read.
-/
namespace JavaSnippet.Wire

open Target

structure VmVersion where
  description : String
  major : Int32
  minor : Int32
  /-- The version text of the platform. -/
  platform : String
  name : String
  deriving DecidableEq, Repr, Inhabited

structure LoadedClass where
  typeTag : UInt8
  id : UInt64
  status : Int32
  deriving DecidableEq, Repr, Inhabited

structure MethodInfo where
  id : UInt64
  name : String
  signature : String
  modifiers : Int32
  deriving DecidableEq, Repr, Inhabited

/-- A reference type with the tag of its kind. -/
structure TypeId where
  typeTag : UInt8
  id : UInt64
  deriving DecidableEq, Repr, Inhabited

/-- The outcome of a call in the target. Only one of both means anything. -/
structure CallOutcome (α : Type) where
  value : α
  exception : Option ObjectRef
  deriving Repr, Inhabited

/-- A call on a thread of the target. -/
structure Invocation where
  thread : UInt64
  method : UInt64
  arguments : List Value
  options : Int32
  deriving DecidableEq, Repr, Inhabited

/-- Lets only the thread of the call run. -/
def singleThreaded : Int32 := 1

/-- A request, indexed by what it answers. -/
inductive Request : Type → Type where
  | version : Request VmVersion
  /-- Loaded classes of a signature, one for each loader that defined it. -/
  | classesBySignature (signature : String) : Request (List LoadedClass)
  | allThreads : Request (List UInt64)
  | idSizes : Request IdSizes
  | resumeAll : Request Unit
  | createString (text : String) : Request UInt64
  | signature (type : UInt64) : Request String
  /-- The loader that defined a class. The loader of the platform is number zero. -/
  | classLoader (type : UInt64) : Request UInt64
  /-- The methods that a class declares itself. -/
  | methods (type : UInt64) : Request (List MethodInfo)
  | superclass (type : UInt64) : Request (Option UInt64)
  | invokeStatic (owner : UInt64) (call : Invocation) : Request (CallOutcome Value)
  | newInstance (owner : UInt64) (call : Invocation) : Request (CallOutcome (Option ObjectRef))
  | newArray (type : UInt64) (length : Nat) : Request ObjectRef
  /-- The class of an object. -/
  | referenceType (object : UInt64) : Request TypeId
  | invokeInstance (object : UInt64) (owner : UInt64) (call : Invocation) :
      Request (CallOutcome Value)
  | disableCollection (object : UInt64) : Request Unit
  | enableCollection (object : UInt64) : Request Unit
  | stringValue (string : UInt64) : Request String
  | threadName (thread : UInt64) : Request String
  | resumeThread (thread : UInt64) : Request Unit
  | setElements (array : UInt64) (first : Nat) (values : List Value) : Request Unit
  /-- The classes that a loader sees. -/
  | visibleClasses (loader : UInt64) : Request (List TypeId)
  | setEvents (request : EventRequest) : Request Int32
  | clearEvents (kind : UInt8) (request : Int32) : Request Unit
  /-- The type that a class object stands for. -/
  | reflectedType (classObject : UInt64) : Request TypeId

namespace Encoded

def arguments [IdWriter] (sizes : IdSizes) (values : List Value) : Encoded := do
  return (← length values.length) ++ (← concat (tagged sizes) values)

/-- Arguments and options of a call. -/
def callTail [IdWriter] (sizes : IdSizes) (call : Invocation) : Encoded := do
  return (← arguments sizes call.arguments) ++ int call.options

/-- A call on a class. -/
def staticCall [IdWriter] (sizes : IdSizes) (owner : UInt64) (call : Invocation) : Encoded := do
  return (← identifier sizes.referenceType owner) ++ ((← identifier sizes.object call.thread) ++
    ((← identifier sizes.method call.method) ++ (← callTail sizes call)))

/-- A call on an object, whose method is one of the class `owner`. -/
def instanceCall [IdWriter] (sizes : IdSizes) (object owner : UInt64) (call : Invocation) :
    Encoded := do
  return (← identifier sizes.object object) ++ ((← identifier sizes.object call.thread) ++
    ((← identifier sizes.referenceType owner) ++ ((← identifier sizes.method call.method) ++
      (← callTail sizes call))))

def elements [IdWriter] (sizes : IdSizes) (array : UInt64) (first : Nat) (values : List Value) :
    Encoded := do
  return (← identifier sizes.object array) ++ ((← length first) ++ ((← length values.length) ++
    (← concat (untagged sizes) values)))

end Encoded

namespace Read

def version : Read VmVersion := do
  return ⟨← string, ← int, ← int, ← string, ← string⟩

def loadedClass : Read LoadedClass := do return ⟨← u8, ← typeId, ← int⟩

def methodInfo : Read MethodInfo := do return ⟨← methodId, ← string, ← string, ← int⟩

def typeRef : Read TypeId := do return ⟨← u8, ← typeId⟩

/-- A class number, where zero stands for none. -/
def typeId? : Read (Option UInt64) := do
  let n ← typeId
  return if n = 0 then none else some n

def callOutcome {α : Type} (value : Read α) : Read (CallOutcome α) := do
  return ⟨← value, ← taggedObject⟩

def array : Read ObjectRef := do
  match ← taggedObject with
  | some ref => return ref
  | none => throw .nullArray

end Read

namespace Request

def command {α : Type} : Request α → Command
  | version => ⟨1, 1⟩
  | classesBySignature _ => ⟨1, 2⟩
  | allThreads => ⟨1, 4⟩
  | idSizes => ⟨1, 7⟩
  | resumeAll => ⟨1, 9⟩
  | createString _ => ⟨1, 11⟩
  | signature _ => ⟨2, 1⟩
  | classLoader _ => ⟨2, 2⟩
  | methods _ => ⟨2, 5⟩
  | superclass _ => ⟨3, 1⟩
  | invokeStatic .. => ⟨3, 3⟩
  | newInstance .. => ⟨3, 4⟩
  | newArray .. => ⟨4, 1⟩
  | referenceType _ => ⟨9, 1⟩
  | invokeInstance .. => ⟨9, 6⟩
  | disableCollection _ => ⟨9, 7⟩
  | enableCollection _ => ⟨9, 8⟩
  | stringValue _ => ⟨10, 1⟩
  | threadName _ => ⟨11, 1⟩
  | resumeThread _ => ⟨11, 3⟩
  | setElements .. => ⟨13, 3⟩
  | visibleClasses _ => ⟨14, 1⟩
  | setEvents _ => ⟨15, 1⟩
  | clearEvents .. => ⟨15, 2⟩
  | reflectedType _ => ⟨17, 1⟩

def encode [IdWriter] {α : Type} (sizes : IdSizes) : Request α → Encoded
  | version | allThreads | idSizes | resumeAll => .ok []
  | classesBySignature text | createString text => .string text
  | signature type | classLoader type | methods type | superclass type =>
    Encoded.identifier sizes.referenceType type
  | invokeStatic owner call | newInstance owner call => .staticCall sizes owner call
  | newArray type length => do
    return (← Encoded.identifier sizes.referenceType type) ++ (← Encoded.length length)
  | invokeInstance object owner call => .instanceCall sizes object owner call
  | referenceType object | disableCollection object | enableCollection object |
    stringValue object | threadName object | resumeThread object | visibleClasses object |
    reflectedType object => Encoded.identifier sizes.object object
  | setElements array first values => .elements sizes array first values
  | setEvents request => .eventRequest sizes request
  | clearEvents kind request => .ok (kind :: Encoded.int request)

/-- Reads the answer. -/
def answer {α : Type} : Request α → Read α
  | version => .version
  | classesBySignature _ => .list .loadedClass
  | allThreads => .list .objectId
  | idSizes => .idSizes
  | resumeAll | disableCollection _ | enableCollection _ | resumeThread _ | setElements .. |
    clearEvents .. => pure ()
  | createString _ | classLoader _ => .objectId
  | signature _ | stringValue _ | threadName _ => .string
  | methods _ => .list .methodInfo
  | superclass _ => .typeId?
  | invokeStatic .. | invokeInstance .. => .callOutcome .tagged
  | newInstance .. => .callOutcome .taggedObject
  | newArray .. => .array
  | referenceType _ | reflectedType _ => .typeRef
  | visibleClasses _ => .list .typeRef
  | setEvents _ => .int

end Request

end JavaSnippet.Wire
