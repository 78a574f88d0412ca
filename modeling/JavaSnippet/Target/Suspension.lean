import JavaSnippet.Target.Operation
/-!
A suspended thread of the target, for as long as evaluations use it. Objects made through the
suspension are pinned right away and stay so until it ends. Once the work is cancelled, nothing
but the end of the suspension reaches the target.
-/
namespace JavaSnippet.Target

structure Suspension (σ : Type) where
  /-- The state of the target. -/
  state : σ
  /-- The objects pinned, in the order in which they were. -/
  pins : List ObjectRef
  cancelled : Bool

namespace Suspension

/-- A new suspension, with nothing pinned. -/
def start {σ : Type} (state : σ) : Suspension σ := ⟨state, [], false⟩

def cancel {σ : Type} (s : Suspension σ) : Suspension σ := { s with cancelled := true }

/-- Work on a suspension. What was done before a fault stays done. -/
abbrev Act (σ α : Type) := ExceptT Fault (StateM (Suspension σ)) α

variable {σ α : Type} (target : Target σ)

/-- Sends an operation whatever the state of the suspension. -/
def send (operation : Operation α) : Act σ α :=
  fun s =>
    let reply := target.perform operation s.state
    (reply.result, ⟨reply.state, s.pins, s.cancelled || reply.cancels⟩)

def ensureActive : Act σ Unit :=
  fun s => (if s.cancelled then .error .cancelled else .ok (), s)

/-- Sends an operation unless the work is cancelled. -/
def sendActive (operation : Operation α) : Act σ α := do
  ensureActive
  send target operation

/-- Notes that the object is pinned. -/
def addPin (ref : ObjectRef) : Act σ Unit :=
  fun s => (.ok (), { s with pins := s.pins ++ [ref] })

/-- Pins an object until the suspension ends. An object that is pinned already is left alone. -/
def pin (ref : ObjectRef) : Act σ ObjectRef := do
  if (← get).pins.contains ref then return ref
  sendActive target (.pin ref)
  addPin ref
  return ref

/-- Pins the value if it is an object. -/
def pinValue (value : Value) : Act σ Value := do
  match value with
  | .object ref =>
    let _ ← pin target ref
    return value
  | _ => return value

def resolveClass (name : String) (loader : Option ObjectRef) : Act σ ClassRef :=
  sendActive target (.resolveClass name loader)

/-- Makes an object and pins it. -/
def newInstance (owner : ClassRef) (type : MethodType) (arguments : List Value) :
    Act σ ObjectRef := do
  pin target (← sendActive target (.newInstance owner type arguments))

/-- Calls a method and pins its result. -/
def invokeMethod (receiver : Receiver) (name : String) (type : MethodType)
    (arguments : List Value) : Act σ Value := do
  pinValue target (← sendActive target (.invokeMethod receiver name type arguments))

/-- Makes a string and pins it. -/
def newString (text : String) : Act σ ObjectRef := do
  pin target (← sendActive target (.newString text))

/-- Makes an array and pins it. -/
def newArray (arrayType : ClassRef) (length : Nat) : Act σ ObjectRef := do
  pin target (← sendActive target (.newArray arrayType length))

def setElements (array : ObjectRef) (first : Nat) (values : List Value) : Act σ Unit :=
  sendActive target (.setElements array first values)

/-- Forgets the pins. -/
def takePins : Act σ (List ObjectRef) :=
  fun s => (.ok s.pins, { s with pins := [] })

/-- Unpins the objects, each of them even if others fail. The first fault is the result. -/
def unpinAll : List ObjectRef → Act σ Unit
  | [] => pure ()
  | ref :: refs => fun s =>
    let (first, s) := send target (.unpin ref) s
    let (others, s) := unpinAll refs s
    match first with
    | .error fault => (.error fault, s)
    | .ok () => (others, s)

/-- Unpins everything. -/
def releasePins : Act σ Unit := do
  unpinAll target (← takePins)

/-- Ends the suspension by letting the thread run. Pins are released first, but that the thread
cannot run is the graver fault. -/
def resume : Act σ Unit := fun s =>
  let (released, s) := releasePins target s
  let (resumed, s) := send target .resume s
  match resumed with
  | .error fault => (.error fault, s)
  | .ok () => (released, s)

end Suspension

end JavaSnippet.Target
