import JavaSnippet.Descriptor.Source
import JavaSnippet.Target.Operation
import JavaSnippet.Wire.Connection
/-!
A target behind a connection, with one thread suspended. Methods are found by asking for those that
a class declares and going up to its super classes; what a class declares is asked for once.
-/
namespace JavaSnippet.Wire

open Target

structure Session where
  connection : Connection
  /-- The suspended thread. -/
  thread : UInt64
  /-- Which threads the event that stopped the thread suspended. -/
  suspendPolicy : UInt8
  /-- Where the thread is, if that is known. -/
  location : Option Location
  /-- The methods of classes asked about. -/
  methods : List (UInt64 × List MethodInfo)
  deriving Repr, Inhabited

namespace Session

/-- Work in a session. What was done before a fault stays done. -/
abbrev Act (α : Type) := ExceptT Target.Fault (StateM Session) α

variable {α : Type}

/-- Uses the connection. -/
def onConnection (use : Exchange α) : Act α :=
  fun s =>
    let (result, connection) := use s.connection
    (result.mapError Fault.toTarget, { s with connection })

def ask [IdWriter] (request : Request α) : Act α := onConnection (Connection.perform request)

/-- Does the work and gives its result away, so that a fault stops nothing. -/
def attempt (act : Act α) : Act (Except Target.Fault α) :=
  fun s =>
    let (result, s) := act s
    (.ok result, s)

def remember (type : UInt64) (methods : List MethodInfo) : Act Unit :=
  fun s => (.ok (), { s with methods := (type, methods) :: s.methods })

/-- The methods a class declares. -/
def declaredMethods [IdWriter] (type : UInt64) : Act (List MethodInfo) := do
  match (← get).methods.lookup type with
  | some methods => return methods
  | none =>
    let methods ← ask (.methods type)
    remember type methods
    return methods

/-- Whether a method has a name and descriptor. -/
def isNamed (name signature : String) (m : MethodInfo) : Bool :=
  m.name == name && m.signature == signature

/-- Searches a class and then its super classes. Each super class is told in a reply of its own, so
the input bounds the number of rounds. -/
def searchUp [IdWriter] (name signature : String) (inherited : Bool) :
    Nat → UInt64 → Act (Option MethodInfo)
  | 0, _ => pure none
  | rounds + 1, type => do
    let methods ← declaredMethods type
    match methods.find? (isNamed name signature) with
    | some m => return some m
    | none =>
      if !inherited then return none
      match ← ask (.superclass type) with
      | none => return none
      | some above => searchUp name signature inherited rounds above

/-- Finds a method in a class, or in one it inherits from. -/
def findMethod [IdWriter] (type : UInt64) (name signature : String) (inherited : Bool) :
    Act MethodInfo := do
  let rounds := (← get).connection.incoming.length + 1
  match ← searchUp name signature inherited rounds type with
  | some m => return m
  | none => throw (.mismatch (.noMethod name signature type))

/-- The name of a class as source would spell it. -/
def className [IdWriter] (type : UInt64) : Act String := do
  let signature ← ask (.signature type)
  match FieldType.parse signature with
  | .ok t => return t.source
  | .error _ => throw (.protocol s!"bad class signature {Text.quoted signature}")

/-- Calls a method of an object on the suspended thread. -/
def invokeOn [IdWriter] (object type method : UInt64) (arguments : List Value) :
    Act (CallOutcome Value) := do
  let thread := (← get).thread
  ask (.invokeInstance object type ⟨thread, method, arguments, singleThreaded⟩)

/-- The type of methods without parameters that give a string. -/
def toText : MethodType := ⟨[], some .string⟩

/-- What `getMessage` gives for an exception. -/
def exceptionMessage [IdWriter] (exception : ObjectRef) : Act (Option String) := do
  let type := (← ask (.referenceType exception.id)).id
  let method ← findMethod type "getMessage" toText.render true
  let outcome ← invokeOn exception.id type method.id []
  match outcome.exception, outcome.value with
  | none, .object message => return some (← ask (.stringValue message.id))
  | _, _ => return none

def exceptionClass [IdWriter] (exception : ObjectRef) : Act String := do
  className (← ask (.referenceType exception.id)).id

/-- Class and message of an exception, as far as they can be found out. It is kept from being
collected meanwhile. -/
def describe [IdWriter] (exception : ObjectRef) : Act Thrown := do
  let _ ← attempt (ask (.disableCollection exception.id))
  let name ← attempt (exceptionClass exception)
  let message ← attempt (exceptionMessage exception)
  let _ ← attempt (ask (.enableCollection exception.id))
  return ⟨exception, name.toOption.getD "java.lang.Throwable", message.toOption.join⟩

/-- The value of a call, unless it threw an exception. -/
def returned [IdWriter] (outcome : CallOutcome α) : Act α := do
  match outcome.exception with
  | none => return outcome.value
  | some exception => throw (.thrown (← describe exception))

/-- The first class that the loader of the platform defined. -/
def firstOfPlatform [IdWriter] : List UInt64 → Act (Option UInt64)
  | [] => pure none
  | type :: types => do
    if (← ask (.classLoader type)) = 0 then return some type
    firstOfPlatform types

/-- The first class that a loader sees. -/
def firstVisible [IdWriter] (types : List UInt64) : Option ObjectRef → Act (Option UInt64)
  | none => firstOfPlatform types
  | some loader => do
    let visible ← ask (.visibleClasses loader.id)
    return types.find? fun type => visible.any (·.id == type)

/-- Calls a loader while the text given to it is kept from being collected. -/
def callLoader [IdWriter] (loader : ObjectRef) (type method : UInt64) (text : String) :
    Act (CallOutcome Value) := do
  let name ← ask (.createString text)
  ask (.disableCollection name)
  let outcome ← attempt (invokeOn loader.id type method [.object ⟨name, .string⟩])
  ask (.enableCollection name)
  match outcome with
  | .ok outcome => return outcome
  | .error fault => throw fault

/-- The type of the method that loads a class. -/
def loadType : MethodType := ⟨[.string], some (.object .classObject)⟩

def endsInBrackets (name : String) : Bool :=
  ['[', ']'].isSuffixOf name.toList

/-- Has a loader load a class. Arrays cannot be loaded. -/
def loadClass [IdWriter] (name : String) (loader : ObjectRef) : Act ClassRef := do
  if endsInBrackets name then throw (.classNotFound name)
  let type := (← ask (.referenceType loader.id)).id
  let method ← findMethod type "loadClass" loadType.render true
  let outcome ← callLoader loader type method.id name
  match outcome.exception, outcome.value with
  | some exception, _ =>
    let _ ← describe exception
    throw (.classNotFound name)
  | none, .object found => return ⟨(← ask (.reflectedType found.id)).id, name⟩
  | none, _ => throw (.classNotFound name)

/-- Finds a class among those loaded, or has it loaded. -/
def resolveClass [IdWriter] (name : String) (loader : Option ObjectRef) : Act ClassRef := do
  match FieldType.ofSource name with
  | .error _ => throw (.classNotFound name)
  | .ok t =>
    let loaded ← ask (.classesBySignature t.render)
    match ← firstVisible (loaded.map (·.id)) loader, loader with
    | some type, _ => return ⟨type, name⟩
    | none, some loader => loadClass name loader
    | none, none => throw (.classNotFound name)

/-- Checks arguments before anything is sent. -/
def check (type : MethodType) (arguments : List Value) : Act Unit := do
  match checkArguments type arguments with
  | .ok () => return ()
  | .error fault => throw fault

def newInstance [IdWriter] (owner : ClassRef) (type : MethodType) (arguments : List Value) :
    Act ObjectRef := do
  check type arguments
  let method ← findMethod owner.id "<init>" type.render false
  let thread := (← get).thread
  let outcome ← ask (.newInstance owner.id ⟨thread, method.id, arguments, singleThreaded⟩)
  match ← returned outcome with
  | some ref => return ref
  | none => throw (.protocol s!"new {owner.name} returned null")

def invokeMethod [IdWriter] (receiver : Receiver) (name : String) (type : MethodType)
    (arguments : List Value) : Act Value := do
  check type arguments
  let outcome ←
    match receiver with
    | .static owner => do
      let method ← findMethod owner.id name type.render true
      let thread := (← get).thread
      ask (.invokeStatic owner.id ⟨thread, method.id, arguments, singleThreaded⟩)
    | .instance ref => do
      let owner := (← ask (.referenceType ref.id)).id
      let method ← findMethod owner name type.render true
      invokeOn ref.id owner method.id arguments
  returned outcome

/-- The loader of the class whose code the thread is in. -/
def contextLoader [IdWriter] : Act (Option ObjectRef) := do
  match (← get).location with
  | none => return none
  | some location =>
    let loader ← ask (.classLoader location.owner)
    return if loader = 0 then none else some ⟨loader, .classLoader⟩

/-- Resumes what the event suspended. -/
def resume [IdWriter] : Act Unit := do
  let s ← get
  if s.suspendPolicy = suspendNone then return ()
  else if s.suspendPolicy = suspendAll then ask .resumeAll
  else ask (.resumeThread s.thread)

/-- Performs an operation over the connection. -/
def perform [IdWriter] : {α : Type} → Operation α → Act α
  | _, .resolveClass name loader => resolveClass name loader
  | _, .newInstance owner type arguments => newInstance owner type arguments
  | _, .invokeMethod receiver name type arguments => invokeMethod receiver name type arguments
  | _, .newString text => do return ⟨← ask (.createString text), .string⟩
  | _, .newArray arrayType length => ask (.newArray arrayType.id length)
  | _, .setElement array index value => ask (.setElements array.id index [value])
  | _, .setElements array first values => ask (.setElements array.id first values)
  | _, .pin ref => ask (.disableCollection ref.id)
  | _, .unpin ref => ask (.enableCollection ref.id)
  | _, .platformVersion => do return (← ask .version).platform
  | _, .contextLoader => contextLoader
  | _, .resume => resume

/-- The session as a target. It never cancels anything by itself. -/
def target [IdWriter] : Target Session where
  perform operation s :=
    let (result, s) := perform operation s
    ⟨result, s, false⟩

/-- The text shown for a value: strings in quotes, other objects by `toString` with their
class. -/
def render [IdWriter] : Value → Act String
  | .void => pure "void"
  | .null => pure "null"
  | .primitive p => pure p.text
  | .object ⟨id, .string⟩ => do return Text.quoted (← ask (.stringValue id))
  | .object ref => do
    let type := (← ask (.referenceType ref.id)).id
    let owner ← className type
    let method ← findMethod type "toString" toText.render true
    match ← returned (← invokeOn ref.id type method.id []) with
    | .object text => return s!"{← ask (.stringValue text.id)} ({owner})"
    | _ => return s!"null ({owner})"

end Session

end JavaSnippet.Wire
