import JavaSnippet.Wire.Packet
import JavaSnippet.Wire.Request
/-!
A connection to the target. A request is answered by the first reply with its number. Events that
come before it are kept until somebody asks for them.
-/
namespace JavaSnippet.Wire

structure Connection where
  /-- What the target sent and was not read yet. -/
  incoming : List UInt8
  /-- What was sent to the target and not taken yet. -/
  outgoing : List UInt8
  /-- The number of the next request. -/
  nextId : UInt32
  sizes : IdSizes
  /-- Events not asked for yet, in the order in which they came. -/
  events : List EventSet
  deriving Repr, Inhabited

/-- Use of a connection. What was done before a fault stays done. -/
abbrev Exchange (α : Type) := ExceptT Fault (StateM Connection) α

namespace Connection

/-- What both sides say first. -/
def greeting : List UInt8 := "JDWP-Handshake".toUTF8.toList

/-- Bytes that are sent. -/
def send (bytes : List UInt8) (c : Connection) : Connection :=
  { c with outgoing := c.outgoing ++ bytes }

/-- The events that a command of the target brings. Other commands than the one for events are
ignored. -/
def eventsOf (sizes : IdSizes) (command : Command) (data : List UInt8) :
    Except Fault (List EventSet) :=
  if command = .composite then
    match Read.eventSet.run sizes data with
    | .ok set => .ok [set]
    | .error cause => .error (.malformed cause)
  else .ok []

/-- Reads up to the reply with the number of a request. -/
def awaitReply (command : Command) (id : UInt32) (c : Connection) :
    Except Fault (List UInt8) × Connection :=
  match _h : Packet.read c.incoming with
  | (.error fault, rest) => (.error fault, { c with incoming := rest })
  | (.ok (.reply replyId code data), rest) =>
    if replyId = id then
      (if code = 0 then .ok data else .error (.reply command code), { c with incoming := rest })
    else awaitReply command id { c with incoming := rest }
  | (.ok (.command _ received data), rest) =>
    match eventsOf c.sizes received data with
    | .error fault => (.error fault, { c with incoming := rest })
    | .ok sets =>
      awaitReply command id { c with incoming := rest, events := c.events ++ sets }
termination_by c.incoming.length
decreasing_by
  all_goals
    have := Packet.length_of_read _h
    simp only [headerLength] at this
    omega

/-- Reads up to the next event. -/
def awaitEvent (c : Connection) : Except Fault EventSet × Connection :=
  match c.events with
  | set :: sets => (.ok set, { c with events := sets })
  | [] =>
    match _h : Packet.read c.incoming with
    | (.error fault, rest) => (.error fault, { c with incoming := rest })
    | (.ok (.reply ..), rest) => awaitEvent { c with incoming := rest }
    | (.ok (.command _ received data), rest) =>
      match eventsOf c.sizes received data with
      | .error fault => (.error fault, { c with incoming := rest })
      | .ok sets => awaitEvent { c with incoming := rest, events := sets }
termination_by c.incoming.length
decreasing_by
  all_goals
    have := Packet.length_of_read _h
    simp only [headerLength] at this
    omega

/-- Sends a command and waits for the data of its reply. Data that cannot be encoded are not sent
and use up no number. -/
def exchange (command : Command) (data : Encoded) : Exchange (List UInt8) :=
  fun c =>
    match data with
    | .error cause => (.error (.io cause), c)
    | .ok data =>
      let numbered := { c with nextId := c.nextId + 1 }
      match (Packet.command c.nextId command data).encode with
      | .error fault => (.error fault, numbered)
      | .ok bytes => awaitReply command c.nextId (numbered.send bytes)

/-- Sends a request and reads its answer. -/
def perform [IdWriter] {α : Type} (request : Request α) : Exchange α :=
  fun c =>
    match exchange request.command (request.encode c.sizes) c with
    | (.error fault, c) => (.error fault, c)
    | (.ok data, c) => ((request.answer.run c.sizes data).mapError .malformed, c)

def nextEvent : Exchange EventSet := awaitEvent

/-- Waits for the greeting of the target. -/
def awaitGreeting : Exchange Unit :=
  fun c =>
    match Bytes.split? greeting.length c.incoming with
    | none => (.error (.io .endOfInput), { c with incoming := [] })
    | some (front, rest) =>
      (if front = greeting then .ok () else .error (.handshake front), { c with incoming := rest })

/-- Greets the target and asks it for the sizes of identifiers. -/
def greet [IdWriter] : Exchange Unit := do
  modify (send greeting)
  awaitGreeting
  let sizes ← perform .idSizes
  modify fun c => { c with sizes }

/-- A connection over which nothing was said. -/
def silent (incoming : List UInt8) : Connection := ⟨incoming, [], 1, {}, []⟩

/-- Opens a connection to a target that sends the given bytes. -/
def opened [IdWriter] (incoming : List UInt8) : Except Fault Connection :=
  match greet (silent incoming) with
  | (.ok (), c) => .ok c
  | (.error fault, _) => .error fault

end Connection

end JavaSnippet.Wire
