import JavaSnippet.Proofs.Wire.Identifiers
import JavaSnippet.Proofs.Wire.Startup
/-!
Dialogues with a target over an open connection. Whoever leads one gets handles from the target and
uses no others, and then no identifier is ever written in too few bytes for it.
-/
namespace JavaSnippet.Wire

open Target
open Handle (ofObject)

/-- What is done with an open connection. -/
inductive Step where
  /-- A thread was suspended, and a session with it starts. -/
  | attach (thread : UInt64) (suspendPolicy : UInt8) (location : Option Location)
  | request {α : Type} (request : Request α)
  /-- A command with items of data, and a reply that is read as others. -/
  | converse (command : Command) (items : List Item) (kinds : List ItemKind)
  | nextEvent
  | perform {α : Type} (operation : Operation α)
  | render (value : Value)

def Step.handles : Step → List Handle
  | attach thread _ location => ofObject thread :: (location.map Location.handles).getD []
  | request r => r.handles
  | converse _ items _ => items.flatMap Item.handles
  | perform operation => operation.handles
  | render value => value.handles
  | nextEvent => []

structure Dialogue where
  session : Session
  /-- The handles that were told. -/
  known : List Handle
  /-- The faults that were met. -/
  faults : List Target.Fault
  /-- How many event sets are kept that came before the sizes of identifiers. -/
  early : Nat

namespace Dialogue

/-- As long as no thread was suspended, its number is zero. -/
def start (c : Connection) : Dialogue :=
  ⟨⟨c, 0, suspendNone, none, []⟩, [], [], c.events.length⟩

/-- Does some work in the session. What it tells is known from then on. -/
def follow {α : Type} (d : Dialogue) (x : Session.Act α) (told : α → List Handle) : Dialogue :=
  match x d.session with
  | (.ok a, session) => { d with session, known := d.known ++ told a }
  | (.error fault, session) =>
    { d with session, known := d.known ++ fault.handles, faults := d.faults ++ [fault] }

/-- The handles in events. Events that came before the sizes of identifiers were read with other
sizes, so only those of their handles count that fit. -/
def toldBy (d : Dialogue) (set : EventSet) : List Handle :=
  if d.early = 0 then set.handles
  else set.handles.filter fun h => h.Fits d.session.connection.sizes

def step [IdWriter] (d : Dialogue) : Step → Dialogue
  | .attach thread suspendPolicy location =>
    { d with session := ⟨d.session.connection, thread, suspendPolicy, location, []⟩ }
  | .request r => d.follow (Session.ask r) r.told
  | .converse command items kinds =>
    d.follow (Session.onConnection (Connection.converse command items kinds))
      fun found => found.flatMap Item.handles
  | .nextEvent =>
    { d.follow (Session.onConnection Connection.nextEvent) d.toldBy with early := d.early - 1 }
  | .perform operation => d.follow (Session.perform operation) operation.told
  | .render value => d.follow (Session.render value) fun _ => []

def run [IdWriter] (d : Dialogue) (steps : List Step) : Dialogue := steps.foldl step d

/-- Every step uses only handles that were told before it. -/
def Admits [IdWriter] (d : Dialogue) : List Step → Prop
  | [] => True
  | step :: steps => (∀ h ∈ step.handles, h ∈ d.known) ∧ (d.step step).Admits steps

/-- All handles that are known or kept fit. -/
structure Sized (sizes : IdSizes) (d : Dialogue) : Prop where
  session : d.session.Sized sizes d.early
  known : Handle.AllFit sizes d.known

variable {sizes : IdSizes} {d : Dialogue}

theorem Sized.follow {α : Type} {x y : Session.Act α} {told : α → List Handle}
    (sized : d.Sized sizes) (steady : Session.Steady sizes d.early x y told) :
    d.follow x told = d.follow y told ∧ (d.follow y told).Sized sizes := by
  have same := steady.same d.session sized.session
  have ends := steady.ends d.session sized.session
  unfold Dialogue.follow
  rw [same]
  refine ⟨rfl, ?_⟩
  cases done : y d.session with
  | mk result session =>
    rw [done] at ends
    cases result with
    | ok a => exact ⟨ends.1, List.forall_mem_append.mpr ⟨sized.known, ends.2⟩⟩
    | error fault => exact ⟨ends.1, List.forall_mem_append.mpr ⟨sized.known, ends.2⟩⟩

theorem Sized.nextEvent [IdWriter] (valid : sizes.Valid) (sized : d.Sized sizes) :
    (d.step .nextEvent).Sized sizes := by
  obtain ⟨wire, fit⟩ := Connection.awaitEvent_sized valid sized.session.wire
  unfold step Dialogue.follow Session.onConnection Connection.nextEvent
  cases taken : Connection.awaitEvent d.session.connection with
  | mk result c =>
    rw [taken] at wire fit
    have session : Session.Sized sizes (d.early - 1) { d.session with connection := c } :=
      ⟨wire, sized.session.thread, sized.session.location, sized.session.methods⟩
    cases result with
    | error fault =>
      refine ⟨session, List.forall_mem_append.mpr ⟨sized.known, ?_⟩⟩
      rw [fault.toTarget_handles]
      exact List.forall_mem_nil _
    | ok set =>
      refine ⟨session, List.forall_mem_append.mpr ⟨sized.known, ?_⟩⟩
      unfold toldBy
      rw [sized.session.wire.known]
      split
      · rename_i late
        exact fit set rfl late
      · exact fun h member => of_decide_eq_true (List.mem_filter.mp member).2

section Writing

variable {write : Nat → UInt64 → Encoded} (promised : IdWriter.Promised write)
  (valid : sizes.Valid)

include promised valid

theorem Sized.step (sized : d.Sized sizes) {step : Step}
    (fit : Handle.AllFit sizes step.handles) :
    @Dialogue.step ⟨write⟩ d step = d.step step ∧ (d.step step).Sized sizes := by
  cases step with
  | attach thread suspendPolicy location =>
    obtain ⟨fits, others⟩ := List.forall_mem_cons.mp fit
    refine ⟨rfl, ⟨⟨sized.session.wire, fits, ?_, List.forall_mem_nil _⟩, sized.known⟩⟩
    rintro l rfl
    exact others
  | request r => exact sized.follow (Session.steady_ask promised valid r fit)
  | converse command items kinds =>
    exact sized.follow (Session.steady_converse promised valid fit command kinds)
  | nextEvent => exact ⟨rfl, Sized.nextEvent valid sized⟩
  | perform operation => exact sized.follow (Session.steady_perform promised valid fit)
  | render value => exact sized.follow (Session.steady_render promised valid fit)

theorem Sized.run (sized : d.Sized sizes) {steps : List Step} (admits : d.Admits steps) :
    @Dialogue.run ⟨write⟩ d steps = d.run steps ∧ (d.run steps).Sized sizes := by
  induction steps generalizing d with
  | nil => exact ⟨rfl, sized⟩
  | cons step steps ih =>
    -- The step uses handles that are known, and all of these fit.
    obtain ⟨used, others⟩ := admits
    obtain ⟨same, next⟩ := sized.step promised valid fun h member => sized.known h (used h member)
    obtain ⟨alike, last⟩ := ih next others
    refine ⟨?_, last⟩
    show @Dialogue.run ⟨write⟩ (@Dialogue.step ⟨write⟩ d step) steps = _
    rw [same, alike]
    rfl

end Writing

end Dialogue

namespace Connection

/-- An open connection has sizes that are supported. -/
theorem opened_valid {input : List UInt8} {c : Connection} (isOpen : opened input = .ok c) :
    c.sizes.Valid := by
  unfold opened at isOpen
  split at isOpen
  · rename_i last greeted
    obtain rfl := Except.ok.inj isOpen
    obtain ⟨⟨⟩, spoken, -, next⟩ := ExceptState.bind_eq_ok.mp greeted
    obtain ⟨⟨⟩, ready, -, next⟩ := ExceptState.bind_eq_ok.mp next
    obtain ⟨sizes, asked, performed, done⟩ := ExceptState.bind_eq_ok.mp next
    obtain ⟨-, rfl⟩ := Prod.mk.inj done
    rw [perform_eq_readReply] at performed
    obtain ⟨data, rest, read⟩ := readReply_ok (congrArg Prod.fst performed)
    exact (Read.idSizes_ok.mp read).1
  · cases isOpen

end Connection

namespace Dialogue

theorem start_sized (c : Connection) : (start c).Sized c.sizes :=
  ⟨⟨⟨rfl, by simp [start]⟩, Width.object.holds_zero, (fun _ none => nomatch none),
    List.forall_mem_nil _⟩, List.forall_mem_nil _⟩

/-- A dialogue over an open connection, in which all handles were told before they are used, is the
same for all writers of identifiers that keep their promise, whatever these do with identifiers that
do not fit. So none of them is ever given such an identifier. All handles that were told fit. -/
theorem run_eq_of_promised {write : Nat → UInt64 → Encoded} (promised : IdWriter.Promised write)
    {input : List UInt8} {c : Connection} (isOpen : Connection.opened input = .ok c)
    {steps : List Step} (admits : (start c).Admits steps) :
    @Connection.opened ⟨write⟩ input = .ok c ∧
      @run ⟨write⟩ (start c) steps = (start c).run steps ∧
      Handle.AllFit c.sizes ((start c).run steps).known := by
  obtain ⟨same, sized⟩ := (start_sized c).run promised (Connection.opened_valid isOpen) admits
  exact ⟨isOpen, same, sized.known⟩

end Dialogue

namespace Connection

theorem awaitEvent_of_command {c : Connection} {rest data : List UInt8} {number : UInt32}
    {received : Command} {set : EventSet} (none : c.events = [])
    (read : Packet.read c.incoming = (.ok (.command number received data), rest))
    (decoded : eventsOf c.sizes received data = .ok [set]) :
    awaitEvent c = (.ok set, { c with incoming := rest, events := [] }) := by
  rw [awaitEvent]
  split
  · rename_i queued
    cases none.symm.trans queued
  · split
    all_goals
      rename_i again
      cases read.symm.trans again
    rw [decoded]
    simp only
    rw [awaitEvent]

/-- The connection to a target whose identifiers have four bytes, before it reports a thread. -/
def narrowConnection : Connection :=
  ⟨bytesOf [narrowReport], greeting ++ [0, 0, 0, 11, 0, 0, 0, 1, 0, 1, 7], 2, narrowSizes, []⟩

theorem opened_narrow :
    opened (greeting ++ bytesOf [.reply 1 0 narrowSizes.encode, narrowReport]) =
      .ok narrowConnection := by
  generalize input : bytesOf [.reply 1 0 narrowSizes.encode, narrowReport] = packets
  have read :
      Packet.read packets = (.ok (.reply 1 0 narrowSizes.encode), bytesOf [narrowReport]) :=
    input ▸ read_bytesOf (by decide) _
  have replied : awaitReply Request.idSizes.command 1 (greeted packets) =
      (.ok narrowSizes.encode, { narrowConnection with sizes := {} }) :=
    awaitReply_of_reply (c := greeted packets) read
  rw [opened_greeting, replied]
  rfl

end Connection

/-- The thread that was reported is resumed, by a writer that refuses what does not fit. -/
theorem Dialogue.run_eq_of_promised_narrow :
    let write := fun size value =>
      if value.toNat < 256 ^ size then .ok (Encoded.id size value) else .error .endOfInput
    let steps := [.nextEvent, .attach 9 1 none, .perform .resume]
    IdWriter.Promised write ∧ (start .narrowConnection).Admits steps ∧
      @run ⟨write⟩ (start .narrowConnection) steps = (start .narrowConnection).run steps := by
  intro write steps
  have promised : IdWriter.Promised write := fun size value _ _ fits => if_pos fits
  have taken : Connection.nextEvent .narrowConnection =
      (.ok ⟨2, [⟨0, .vmStart 9⟩]⟩, { Connection.narrowConnection with incoming := [] }) :=
    Connection.awaitEvent_of_command rfl (Connection.read_bytesOf (by decide) []) rfl
  have told : ((start .narrowConnection).step .nextEvent).known = [ofObject 9] := by
    unfold step Dialogue.follow Session.onConnection
    rw [show (start .narrowConnection).session.connection = .narrowConnection from rfl, taken]
    rfl
  have admits : (start .narrowConnection).Admits steps := by
    refine ⟨List.forall_mem_nil _, ?_, List.forall_mem_nil _, trivial⟩
    rw [told]
    exact fun h member => member
  exact ⟨promised, admits, (run_eq_of_promised promised Connection.opened_narrow admits).2.1⟩

end JavaSnippet.Wire
