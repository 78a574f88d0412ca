import JavaSnippet.Wire.Data
/-!
Events that the target reports, and the requests that ask for them.
-/
namespace JavaSnippet.Wire

/-- What stops a thread at a place in its code. -/
inductive StopKind where
  | singleStep | breakpoint | methodEntry | methodExit
  deriving DecidableEq, Repr, Inhabited

def StopKind.code : StopKind → UInt8
  | singleStep => 1
  | breakpoint => 2
  | methodEntry => 40
  | methodExit => 41

/-- What happened, apart from the request that asked for it. -/
inductive Happening where
  | vmStart (thread : UInt64)
  | vmDeath
  | threadStart (thread : UInt64)
  | threadDeath (thread : UInt64)
  | classPrepare (thread : UInt64) (typeTag : UInt8) (owner : UInt64) (signature : String)
      (status : Int32)
  | stop (kind : StopKind) (thread : UInt64) (location : Location)
  deriving DecidableEq, Repr, Inhabited

namespace Happening

def code : Happening → UInt8
  | vmStart _ => 90
  | vmDeath => 99
  | threadStart _ => 6
  | threadDeath _ => 7
  | classPrepare .. => 8
  | stop kind _ _ => kind.code

def name : Happening → String
  | vmStart _ => "VmStart"
  | vmDeath => "VmDeath"
  | threadStart _ => "ThreadStart"
  | threadDeath _ => "ThreadDeath"
  | classPrepare .. => "ClassPrepare"
  | stop .. => "Located"

/-- The thread it happened on, if any. -/
def thread? : Happening → Option UInt64
  | vmDeath => none
  | vmStart thread | threadStart thread | threadDeath thread | classPrepare thread .. |
    stop _ thread _ => some thread

def location? : Happening → Option Location
  | stop _ _ location => some location
  | _ => none

end Happening

structure Event where
  request : Int32
  happening : Happening
  deriving DecidableEq, Repr, Inhabited

/-- Events that were sent together, and which threads the target suspended for them. -/
structure EventSet where
  suspendPolicy : UInt8
  events : List Event
  deriving DecidableEq, Repr, Inhabited

/-- No thread is suspended. -/
def suspendNone : UInt8 := 0

/-- All threads are suspended. -/
def suspendAll : UInt8 := 2

namespace Read

/-- A thread that was stopped. -/
def stop (kind : StopKind) : Read Happening := do
  return .stop kind (← objectId) (← location)

def happening (code : UInt8) : Read Happening := do
  match code with
  | 99 => return .vmDeath
  | 90 => return .vmStart (← objectId)
  | 6 => return .threadStart (← objectId)
  | 7 => return .threadDeath (← objectId)
  | 8 => return .classPrepare (← objectId) (← u8) (← typeId) (← string) (← int)
  | 1 => stop .singleStep
  | 2 => stop .breakpoint
  | 40 => stop .methodEntry
  | 41 => stop .methodExit
  | _ => throw (.unsupportedEvent code)

def event : Read Event := do
  let code ← u8
  return ⟨← int, ← happening code⟩

def eventSet : Read EventSet := do
  return ⟨← u8, ← list event⟩

end Read

/-- What narrows the events that are reported. -/
inductive EventModifier where
  /-- Only the event of this number in the count, and then none any more. -/
  | count (n : Int32)
  /-- Only classes whose names match the pattern, which a star may start or end. -/
  | classMatch (pattern : String)
  | locationOnly (location : Location)
  deriving DecidableEq, Repr, Inhabited

structure EventRequest where
  kind : UInt8
  suspendPolicy : UInt8
  modifiers : List EventModifier
  deriving DecidableEq, Repr, Inhabited

namespace Encoded

def eventModifier [IdWriter] (sizes : IdSizes) : EventModifier → Encoded
  | .count n => .ok (1 :: int n)
  | .classMatch pattern => do return 5 :: (← string pattern)
  | .locationOnly l => do return 7 :: (← place sizes l)

def eventRequest [IdWriter] (sizes : IdSizes) (r : EventRequest) : Encoded := do
  return r.kind :: r.suspendPolicy ::
    ((← length r.modifiers.length) ++ (← concat (eventModifier sizes) r.modifiers))

end Encoded

end JavaSnippet.Wire
