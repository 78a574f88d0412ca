import JavaSnippet.Proofs.Target.Recording
import JavaSnippet.Proofs.Wire.Operations
/-!
Pins of a suspension over a connection. Objects that are pinned are kept from being collected by the
last request about them, unless the target lent one of them to the session, which then let it go.
-/
namespace JavaSnippet.Wire

open Target Target.Suspension

/-- The last request about the object keeps it from being collected. -/
def Guarded (id : UInt64) (log : List Asked) : Prop :=
  ∃ before kept after, log = before ++ ⟨.disableCollection id, kept⟩ :: after ∧
    ∀ a ∈ after, a.freed? ≠ some id

/-- The object is lent by the target and then let go. -/
def LetGo (id : UInt64) (log : List Asked) : Prop :=
  ∃ before freed after, log = before ++ ⟨.enableCollection id, freed⟩ :: after ∧
    id ∈ lents before

def FreesNothing (log : List Asked) : Prop := ∀ a ∈ log, a.freed? = none

theorem Guarded.prepend {id : UInt64} {log : List Asked} (h : Guarded id log)
    (front : List Asked) : Guarded id (front ++ log) := by
  obtain ⟨before, kept, after, rfl, quiet⟩ := h
  exact ⟨front ++ before, kept, after, (List.append_assoc ..).symm, quiet⟩

theorem Guarded.append {id : UInt64} {log back : List Asked} (h : Guarded id log)
    (quiet : ∀ a ∈ back, a.freed? ≠ some id) : Guarded id (log ++ back) := by
  obtain ⟨before, kept, after, rfl, still⟩ := h
  exact ⟨before, kept, after ++ back, by simp, List.forall_mem_append.mpr ⟨still, quiet⟩⟩

theorem LetGo.append {id : UInt64} {log : List Asked} (h : LetGo id log) (back : List Asked) :
    LetGo id (log ++ back) := by
  obtain ⟨before, freed, after, rfl, lent⟩ := h
  exact ⟨before, freed, after ++ back, by simp, lent⟩

theorem Borrows.letGo {log : List Asked} {id : UInt64} (h : Borrows [] log)
    (freed : ∃ a ∈ log, a.freed? = some id) : LetGo id log := by
  obtain ⟨before, freed, after, split, lent⟩ := h.lent_of_freed freed
  exact ⟨before, freed, after, split, by simpa using lent⟩

/-- Requests of a session whose suspension keeps its pins. -/
def wired : Trail (Suspension Session) Asked where
  leads s log t := t.pins = s.pins ∧ s.state.connection.Exchanges log t.state.connection
  rest _ := ⟨rfl, rfl⟩
  follow := fun ⟨kept, first⟩ ⟨still, next⟩ => ⟨still.trans kept, first.append next⟩

/-- Requests that free nothing, where all that is pinned is kept. -/
def pinning : Trail (Suspension Session) Asked where
  leads s log t := s.state.connection.Exchanges log t.state.connection ∧ FreesNothing log ∧
    ∀ ref ∈ t.pins, ref ∈ s.pins ∨ Guarded ref.id log
  rest _ := ⟨rfl, (fun _ member => nomatch member), fun _ member => .inl member⟩
  follow := by
    rintro s t u front back ⟨first, frontQuiet, pinned⟩ ⟨next, backQuiet, kept⟩
    refine ⟨first.append next, List.forall_mem_append.mpr ⟨frontQuiet, backQuiet⟩,
      fun ref member => ?_⟩
    rcases kept ref member with before | guarded
    · refine (pinned ref before).imp_right fun guarded => guarded.append fun a member => ?_
      rw [backQuiet a member]
      exact Option.some_ne_none _ |>.symm
    · exact .inr (guarded.prepend front)

section Sending

variable {α β : Type} {post : α → List Asked → Prop} {fail : Target.Fault → List Asked → Prop}

theorem wired_send {operation : Operation α}
    (h : Session.Asks (Session.perform operation) post fail) :
    Adds wired (send Session.target operation) post fail := by
  refine ⟨?_⟩
  rintro _ s rfl
  have step := Adds.run h s.state s.state rfl
  unfold send Session.target
  simp only
  cases done : Session.perform operation s.state with
  | mk result t =>
    rw [done] at step
    cases result with
    | ok a =>
      obtain ⟨log, exchanged, made⟩ := step
      exact ⟨log, ⟨rfl, exchanged⟩, made⟩
    | error fault =>
      obtain ⟨log, exchanged, made⟩ := step
      exact ⟨log, ⟨rfl, exchanged⟩, made⟩

theorem wired_ensureActive :
    Adds wired (ensureActive (σ := Session)) (fun _ log => log = []) fun _ log => log = [] := by
  refine ⟨?_⟩
  rintro _ s rfl
  unfold ensureActive
  cases s.cancelled with
  | true => exact ⟨[], ⟨rfl, rfl⟩, rfl⟩
  | false => exact ⟨[], ⟨rfl, rfl⟩, rfl⟩

theorem wired_sendActive {operation : Operation α}
    (h : Session.Asks (Session.perform operation) post fail) :
    Adds wired (sendActive Session.target operation) post
      fun fault log => log = [] ∨ fail fault log := by
  refine wired_ensureActive.bind (fun _ => wired_send h) ?_ (fun _ _ same => .inl same) ?_
  · rintro _ a _ log rfl made
    exact made
  · rintro _ fault _ log rfl failed
    exact .inr failed

end Sending

theorem pin_asks (ref : ObjectRef) :
    Session.Asks (Session.perform (.pin ref))
      (fun a log => log = [⟨.disableCollection ref.id, .ok a⟩])
      fun _ log => ∃ fault, log = [⟨.disableCollection ref.id, .error fault⟩] :=
  Session.asks_ask _

theorem unpin_asks (ref : ObjectRef) :
    Session.Asks (Session.perform (.unpin ref))
      (fun a log => log = [⟨.enableCollection ref.id, .ok a⟩])
      fun _ log => ∃ fault, log = [⟨.enableCollection ref.id, .error fault⟩] :=
  Session.asks_ask _

/-- Whatever comes of it, a pin frees nothing, and what is pinned is kept. -/
theorem pinning_pin (ref : ObjectRef) :
    Adds pinning (pin Session.target ref) (fun _ _ => True) fun _ _ => True := by
  have sent : Adds pinning (do sendActive Session.target (.pin ref); addPin ref; return ref)
      (fun _ _ => True) fun _ _ => True := by
    refine ⟨?_⟩
    rintro _ s rfl
    have asked := (wired_sendActive (pin_asks ref)).run s s rfl
    rw [ExceptState.bind_apply]
    cases done : sendActive Session.target (.pin ref) s with
    | mk result t =>
      rw [done] at asked
      cases result with
      | ok u =>
        obtain ⟨_, ⟨same, exchanged⟩, rfl⟩ := asked
        refine ⟨_, ⟨exchanged, List.forall_mem_singleton.mpr rfl, fun other member => ?_⟩, trivial⟩
        rcases List.mem_append.mp member with before | last
        · exact .inl (same ▸ before)
        · obtain rfl := List.mem_singleton.mp last
          exact .inr ⟨[], .ok u, [], rfl, fun _ member => nomatch member⟩
      | error fault =>
        obtain ⟨log, ⟨same, exchanged⟩, failed⟩ := asked
        refine ⟨log, ⟨exchanged, ?_, fun other member => .inl (same ▸ member)⟩, trivial⟩
        obtain rfl | ⟨fault, rfl⟩ := failed
        · exact fun _ member => nomatch member
        · exact List.forall_mem_singleton.mpr rfl
  refine ⟨?_⟩
  rintro _ s rfl
  rw [pin_eq]
  by_cases held : ref ∈ s.pins
  · rw [if_pos held]
    exact ⟨[], pinning.rest s, trivial⟩
  · rw [if_neg held]
    exact sent.run s s rfl

theorem pinning_pinValue (value : Value) :
    Adds pinning (pinValue Session.target value) (fun _ _ => True) fun _ _ => True := by
  cases value with
  | object ref =>
    exact ((pinning_pin ref).give fun _ => Value.object ref).mono (fun _ _ _ => trivial)
      fun _ _ h => h
  | void | null | primitive _ => exact Adds.pure trivial

/-- What a use does with the pins it finds: it lets go only what the target lent, and what it pins
is kept. -/
structure Handles (pins : List ObjectRef) (log : List Asked) (left : List ObjectRef) : Prop where
  freed : ∀ id, (∃ a ∈ log, a.freed? = some id) → LetGo id log
  pinned : ∀ ref ∈ left, ref ∈ pins ∨ Guarded ref.id log

/-- Work that asks requests, and handles the pins like that. -/
def Handling {α : Type} (x : Suspension.Act Session α) : Prop :=
  ∀ s, ∃ log, s.state.connection.Exchanges log (x s).2.state.connection ∧
    Handles s.pins log (x s).2.pins

section Handling

variable {α β : Type} {x : Suspension.Act Session α}

theorem Borrows.handles {pins : List ObjectRef} {log : List Asked} (h : Borrows [] log) :
    Handles pins log pins :=
  ⟨fun _ => h.letGo, fun _ => .inl⟩

theorem handling_wired (h : Adds wired x (fun _ => Borrows []) fun _ => Borrows []) :
    Handling x := by
  intro s
  obtain ⟨log, ⟨same, exchanged⟩, borrows⟩ := h.leads s
  exact ⟨log, exchanged, same ▸ borrows.handles⟩

theorem handling_pinning (h : Adds pinning x (fun _ _ => True) fun _ _ => True) : Handling x := by
  intro s
  obtain ⟨log, ⟨exchanged, quiet, pinned⟩, -⟩ := h.leads s
  refine ⟨log, exchanged, ⟨?_, pinned⟩⟩
  rintro id ⟨a, member, freed⟩
  rw [quiet a member] at freed
  cases freed

/-- What was made is pinned last. -/
theorem handling_pinned {keep : α → Suspension.Act Session β}
    (h : Adds wired x (fun _ => Borrows []) fun _ => Borrows [])
    (pins : ∀ a, Adds pinning (keep a) (fun _ _ => True) fun _ _ => True) :
    Handling (x >>= keep) := by
  intro s
  obtain ⟨front, ⟨same, first⟩, borrows⟩ := h.leads s
  rw [ExceptState.bind_apply]
  cases done : x s with
  | mk result t =>
    rw [done] at same first
    cases result with
    | error fault => exact ⟨front, first, (show t.pins = s.pins from same) ▸ borrows.handles⟩
    | ok a =>
      obtain ⟨back, ⟨next, quiet, pinned⟩, -⟩ := (pins a).leads t
      refine ⟨front ++ back, first.append next, ⟨?_, fun ref member => ?_⟩⟩
      · rintro id ⟨b, member, freed⟩
        rcases List.mem_append.mp member with early | late
        · exact (borrows.letGo ⟨b, early, freed⟩).append back
        · rw [quiet b late] at freed
          cases freed
      · exact (pinned ref member).imp (fun before => same ▸ before) (·.prepend front)

theorem wired_borrowing {operation : Operation α} (other : operation.isOfPins = false) :
    Adds wired (sendActive Session.target operation) (fun _ => Borrows [])
      fun _ => Borrows [] := by
  refine (wired_sendActive (Session.borrowing_perform operation other)).mono
    (fun _ _ made => made.1) ?_
  rintro fault log (rfl | borrows)
  · exact .done
  · exact borrows

/-- Releasing pins asks one request for each of them. -/
theorem unpinAll_exchanges (refs : List ObjectRef) (s : Suspension Session) :
    ∃ log, s.state.connection.Exchanges log
        (unpinAll Session.target refs s).2.state.connection ∧
      (unpinAll Session.target refs s).2.pins = s.pins := by
  induction refs generalizing s with
  | nil => exact ⟨[], rfl, rfl⟩
  | cons ref refs ih =>
    have sent : Adds wired (send Session.target (.unpin ref)) (fun _ _ => True) fun _ _ => True :=
      (wired_send (unpin_asks ref)).mono (fun _ _ _ => trivial) fun _ _ _ => trivial
    obtain ⟨front, ⟨same, first⟩, -⟩ := sent.leads s
    obtain ⟨back, next, kept⟩ := ih (send Session.target (.unpin ref) s).2
    rw [unpinAll_cons]
    exact ⟨front ++ back, first.append next, kept.trans same⟩

end Handling

/-- Every use handles the pins like that, or leaves none. -/
theorem use_handles (use : Use) (s : Suspension Session) :
    ∃ log, s.state.connection.Exchanges log (use.run Session.target s).state.connection ∧
      ((use.run Session.target s).pins = [] ∨
        Handles s.pins log (use.run Session.target s).pins) := by
  have handled : ∀ {α : Type} {x : Suspension.Act Session α}, Handling x →
      ∃ log, s.state.connection.Exchanges log (x s).2.state.connection ∧
        ((x s).2.pins = [] ∨ Handles s.pins log (x s).2.pins) := by
    intro α x h
    obtain ⟨log, exchanged, handles⟩ := h s
    exact ⟨log, exchanged, .inr handles⟩
  cases use with
  | pin ref => exact handled (handling_pinning (pinning_pin ref))
  | pinValue value => exact handled (handling_pinning (pinning_pinValue value))
  | resolveClass _ _ | setElements _ _ _ =>
    exact handled (handling_wired (wired_borrowing rfl))
  | newInstance _ _ _ | newString _ | newArray _ _ =>
    exact handled (handling_pinned (wired_borrowing rfl) pinning_pin)
  | invokeMethod _ _ _ _ =>
    exact handled (handling_pinned (wired_borrowing rfl) pinning_pinValue)
  | releasePins =>
    obtain ⟨log, exchanged, none⟩ := unpinAll_exchanges s.pins { s with pins := [] }
    exact ⟨log, exchanged, .inl none⟩
  | cancel => exact ⟨[], rfl, .inr (Borrows.handles .done)⟩

/-- A use of a suspension over a connection: the pins it found, and what was asked in it. -/
structure Used where
  pins : List ObjectRef
  log : List Asked

/-- All that was asked. -/
def asked (trace : List Used) : List Asked := trace.flatMap (·.log)

/-- The trace of uses in order: each finds the pins that those before it left, and asks its
requests over the connection that they left. -/
def Traced : List Use → Suspension Session → List Used → Prop
  | [], _, trace => trace = []
  | use :: uses, s, trace => ∃ log rest, trace = ⟨s.pins, log⟩ :: rest ∧
      s.state.connection.Exchanges log (use.run Session.target s).state.connection ∧
      Traced uses (use.run Session.target s) rest

theorem Traced.exchanges {uses : List Use} {s : Suspension Session} {trace : List Used}
    (h : Traced uses s trace) :
    s.state.connection.Exchanges (asked trace)
      (runAll Session.target uses s).state.connection := by
  induction uses generalizing s trace with
  | nil =>
    obtain rfl : trace = [] := h
    exact rfl
  | cons use uses ih =>
    obtain ⟨log, rest, rfl, first, next⟩ := h
    exact first.append (ih next)

/-- An object that is pinned after some uses is kept, or was lent and let go in a use that found it
pinned, or was pinned before them and nothing let it go. -/
theorem traced_pins (uses : List Use) (s : Suspension Session) :
    ∃ trace, Traced uses s trace ∧ ∀ ref ∈ (runAll Session.target uses s).pins,
      Guarded ref.id (asked trace) ∨ (∃ used ∈ trace, ref ∈ used.pins ∧ LetGo ref.id used.log) ∨
        (ref ∈ s.pins ∧ ∀ a ∈ asked trace, a.freed? ≠ some ref.id) := by
  induction uses generalizing s with
  | nil => exact ⟨[], rfl, fun ref member => .inr (.inr ⟨member, fun _ none => nomatch none⟩)⟩
  | cons use uses ih =>
    obtain ⟨log, exchanged, handled⟩ := use_handles use s
    obtain ⟨rest, traced, kept⟩ := ih (use.run Session.target s)
    refine ⟨⟨s.pins, log⟩ :: rest, ⟨log, rest, rfl, exchanged, traced⟩, fun ref member => ?_⟩
    have split : asked (⟨s.pins, log⟩ :: rest) = log ++ asked rest := List.flatMap_cons
    rw [split]
    rcases kept ref member with guarded | ⟨used, later, found⟩ | ⟨left, quiet⟩
    · exact .inl (guarded.prepend log)
    · exact .inr (.inl ⟨used, List.mem_cons_of_mem _ later, found⟩)
    rcases handled with none | handles
    · rw [none] at left
      cases left
    rcases handles.pinned ref left with before | guarded
    · by_cases freed : ∃ a ∈ log, a.freed? = some ref.id
      · exact .inr (.inl ⟨_, List.mem_cons_self, before, handles.freed _ freed⟩)
      · refine .inr (.inr ⟨before, List.forall_mem_append.mpr ⟨fun a member same => ?_, quiet⟩⟩)
        exact freed ⟨a, member, same⟩
    · exact .inl (guarded.append quiet)

/-- What a suspension sends over its connection, from its start on, keeps from being collected
whatever it has pinned: the last request about a pinned object is to keep it. The exception is an
object that the target lent to the session while it was pinned, as an exception or as the name of
a class, and that the session let go afterwards. -/
theorem pinned_guarded_or_letGo (state : Session) (cancelled : Bool) (uses : List Use) :
    ∃ trace, Traced uses ⟨state, [], cancelled⟩ trace ∧
      (runAll Session.target uses ⟨state, [], cancelled⟩).state.connection.outgoing =
        state.connection.outgoing ++
          sentBytes state.connection.sizes state.connection.nextId (asked trace) ∧
      ∀ ref ∈ (runAll Session.target uses ⟨state, [], cancelled⟩).pins,
        Guarded ref.id (asked trace) ∨
          ∃ used ∈ trace, ref ∈ used.pins ∧ LetGo ref.id used.log := by
  obtain ⟨trace, traced, kept⟩ := traced_pins uses ⟨state, [], cancelled⟩
  refine ⟨trace, traced, traced.exchanges.outgoing, fun ref member => ?_⟩
  rcases kept ref member with guarded | letGo | ⟨before, -⟩
  · exact .inl guarded
  · exact .inr letGo
  · cases before

/-- Replies to the requests numbered from two: the object is kept, the class declares a method, and
the call of that method ends with the object as its exception. Later requests get none. -/
def throwingReplies : List Packet :=
  [.reply 2 0 [], .reply 3 0 (Bytes.ofNat 4 1 ++ Bytes.ofNat 8 6 ++
      Bytes.ofNat 4 4 ++ Text.ModifiedUtf8.encode "fail" ++
      Bytes.ofNat 4 3 ++ Text.ModifiedUtf8.encode "()V" ++ Bytes.ofNat 4 9),
    .reply 4 0 (0x56 :: 0x4C :: Bytes.ofNat 8 77)]

def throwingSession : Session :=
  ⟨⟨throwingReplies.flatMap fun p => p.encode.toOption.getD [], [], 2, {}, []⟩, 1,
    suspendAll, none, []⟩

def throwingUses : List Use :=
  [.pin ⟨77, .object⟩, .invokeMethod (.static ⟨3, "A"⟩) "fail" ⟨[], none⟩ []]

/-- A call throws the pinned object. The session lets it go once it is described, and that is the
last request that it sends. -/
theorem pinned_guarded_or_letGo_thrown :
    let left := runAll Session.target throwingUses ⟨throwingSession, [], false⟩
    left.pins = [⟨77, .object⟩] ∧
      (∃ front, left.state.connection.outgoing = front ++
        ([0, 0, 0, 19, 0, 0, 0, 8, 0, 9, 8] ++ Bytes.ofNat 8 77)) ∧
      ∃ trace, Traced throwingUses ⟨throwingSession, [], false⟩ trace ∧
        (Guarded 77 (asked trace) ∨
          ∃ used ∈ trace, ⟨77, .object⟩ ∈ used.pins ∧ LetGo 77 used.log) := by
  intro left
  have pins : left.pins = [⟨77, .object⟩] := by decide +kernel
  have last : [0, 0, 0, 19, 0, 0, 0, 8, 0, 9, 8] ++ Bytes.ofNat 8 77 <:+
    left.state.connection.outgoing := by decide +kernel
  obtain ⟨front, outgoing⟩ := last
  obtain ⟨trace, traced, -, kept⟩ := pinned_guarded_or_letGo throwingSession false throwingUses
  exact ⟨pins, ⟨front, outgoing.symm⟩, trace, traced,
    kept ⟨77, .object⟩ (pins ▸ List.mem_cons_self)⟩

end JavaSnippet.Wire
