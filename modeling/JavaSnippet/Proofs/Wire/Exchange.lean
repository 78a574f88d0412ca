import JavaSnippet.Proofs.Contract
import JavaSnippet.Wire.Session
/-!
What is asked over a connection. A session uses its connection by requests only, so what it sends
are the packets of its requests, numbered one after another.
-/
namespace JavaSnippet.Wire

/-- A request together with its result. -/
structure Asked where
  {α : Type}
  request : Request α
  result : Except Fault α

/-- The bytes of a request with a number. A request that cannot be encoded is not sent and has no
number. -/
def Asked.sent? (sizes : IdSizes) (number : UInt32) (a : Asked) : Option (List UInt8) :=
  match a.request.encode sizes with
  | .error _ => none
  | .ok data => some ((Packet.command number a.request.command data).encode.toOption.getD [])

/-- The bytes of requests that are numbered one after another. -/
def sentBytes (sizes : IdSizes) : UInt32 → List Asked → List UInt8
  | _, [] => []
  | number, a :: rest =>
    match a.sent? sizes number with
    | none => sentBytes sizes number rest
    | some bytes => bytes ++ sentBytes sizes (number + 1) rest

namespace Connection

/-- One connection becomes the other by requests, each performed after those before it. -/
def Exchanges : Connection → List Asked → Connection → Prop
  | c, [], d => d = c
  | c, a :: rest, d => ∃ mid, perform a.request c = (a.result, mid) ∧ Exchanges mid rest d

theorem Exchanges.append {c d e : Connection} {front back : List Asked}
    (first : Exchanges c front d) (next : Exchanges d back e) : Exchanges c (front ++ back) e := by
  induction front generalizing c with
  | nil =>
    obtain rfl : d = c := first
    exact next
  | cons a front ih =>
    obtain ⟨mid, performed, rest⟩ := first
    exact ⟨mid, performed, ih rest⟩

/-- Waiting for a reply reads input and may find events, and nothing else. -/
theorem awaitReply_reads (command : Command) (id : UInt32) (c : Connection) :
    ∃ incoming events,
      (awaitReply command id c).2 = { c with incoming := incoming, events := events } := by
  fun_induction awaitReply command id c with
  | case1 | case2 | case4 => exact ⟨_, _, rfl⟩
  | case3 _ _ _ _ _ _ _ ih | case5 _ _ _ _ _ _ _ _ ih => exact ih

/-- Reading an answer changes nothing. -/
theorem perform_snd {α : Type} (request : Request α) (c : Connection) :
    (perform request c).2 = (exchange request.command (request.encode c.sizes) c).2 := by
  unfold perform
  split <;> simp_all

/-- What a request leaves behind: its bytes are sent under the next number, if it can be
encoded. -/
theorem perform_sends {α : Type} (request : Request α) (result : Except Fault α)
    (c : Connection) :
    match Asked.sent? c.sizes c.nextId ⟨request, result⟩ with
    | none => (perform request c).2 = c
    | some bytes => ∃ incoming events, (perform request c).2 =
        ⟨incoming, c.outgoing ++ bytes, c.nextId + 1, c.sizes, events⟩ := by
  rw [perform_snd]
  unfold exchange Asked.sent?
  cases request.encode c.sizes with
  | error cause => rfl
  | ok data =>
    simp only
    cases (Packet.command c.nextId request.command data).encode with
    | error fault => exact ⟨c.incoming, c.events, by simp [Except.toOption]⟩
    | ok bytes => exact awaitReply_reads _ _ _

/-- What was sent are the packets of the requests, in order. -/
theorem Exchanges.outgoing {c d : Connection} {log : List Asked} (h : Exchanges c log d) :
    d.outgoing = c.outgoing ++ sentBytes c.sizes c.nextId log := by
  induction log generalizing c with
  | nil =>
    obtain rfl : d = c := h
    exact (List.append_nil _).symm
  | cons a log ih =>
    obtain ⟨mid, performed, rest⟩ := h
    have left := perform_sends a.request a.result c
    rw [performed] at left
    unfold sentBytes
    cases sent : a.sent? c.sizes c.nextId with
    | none =>
      rw [sent] at left
      obtain rfl : mid = c := left
      exact ih rest
    | some bytes =>
      rw [sent] at left
      obtain ⟨incoming, events, rfl⟩ := left
      rw [ih rest, List.append_assoc]

/-- The trail of requests over a connection that is part of the state. -/
def trail {σ : Type} (wire : σ → Connection) : Trail σ Asked where
  leads s log t := Exchanges (wire s) log (wire t)
  rest _ := rfl
  follow := .append

end Connection

namespace Session

variable {α β : Type}

/-- The work asks requests that are related to its result by `post`, or to its fault by `fail`. -/
abbrev Asks (x : Act α) (post : α → List Asked → Prop)
    (fail : Target.Fault → List Asked → Prop) : Prop :=
  Adds (Connection.trail Session.connection) x post fail

theorem asks_ask (request : Request α) :
    Asks (ask request) (fun a log => log = [⟨request, .ok a⟩])
      (fun _ log => ∃ fault, log = [⟨request, .error fault⟩]) := by
  refine ⟨?_⟩
  rintro _ s rfl
  unfold ask onConnection
  cases performed : Connection.perform request s.connection with
  | mk result c =>
    cases result with
    | ok a => exact ⟨[⟨request, .ok a⟩], ⟨c, performed, rfl⟩, rfl⟩
    | error fault => exact ⟨[⟨request, .error fault⟩], ⟨c, performed, rfl⟩, fault, rfl⟩

/-- A fault of an attempt stops nothing. -/
theorem asks_attempt {x : Act α} {post : α → List Asked → Prop}
    {fail : Target.Fault → List Asked → Prop} {never : Target.Fault → List Asked → Prop}
    (h : Asks x post fail) :
    Asks (attempt x)
      (fun result log => match result with
        | .ok a => post a log
        | .error fault => fail fault log) never := by
  refine ⟨?_⟩
  rintro _ s rfl
  have step := Adds.run h s s rfl
  unfold attempt
  cases done : x s with
  | mk result t =>
    rw [done] at step
    cases result with
    | ok a => exact step
    | error fault => exact step

/-- What is known of the session is there without asking. -/
theorem asks_get {f : Session → Act β} {post : β → List Asked → Prop}
    {fail : Target.Fault → List Asked → Prop} (h : ∀ s, Asks (f s) post fail) :
    Asks (get >>= f) post fail := by
  refine ⟨?_⟩
  rintro _ s rfl
  exact Adds.run (h s) s s rfl

theorem asks_remember (type : UInt64) (methods : List MethodInfo)
    {fail : Target.Fault → List Asked → Prop} :
    Asks (remember type methods) (fun _ log => log = []) fail := by
  refine ⟨?_⟩
  rintro _ s rfl
  exact ⟨[], rfl, rfl⟩

end Session

end JavaSnippet.Wire
