import JavaSnippet.Proofs.Contract
import JavaSnippet.Proofs.Wire.Handles
import JavaSnippet.Wire.Session
/-!
Identifiers that are read over a connection and written over it again. A session writes identifiers
that it was given and those that the target told it, each in the role in which it was read. So
they fit the bytes they are written in, and how others would be written makes no difference.
-/
namespace JavaSnippet.Wire

open Target
open Handle (ofObject ofType ofMethod ofRef?)

variable {sizes : IdSizes} {early : Nat}

namespace Connection

/-- The sizes are the known ones, and all handles in events fit them, except in the first few event
sets. -/
structure Sized (sizes : IdSizes) (early : Nat) (c : Connection) : Prop where
  known : c.sizes = sizes
  events : ∀ set ∈ c.events.drop early, Handle.AllFit sizes set.handles

variable {c : Connection}

theorem eventsOf_fit (valid : sizes.Valid) {command : Command} {data : List UInt8}
    {sets : List EventSet} (h : eventsOf sizes command data = .ok sets) :
    ∀ set ∈ sets, Handle.AllFit sizes set.handles := by
  unfold eventsOf at h
  split at h
  · split at h
    · rename_i set read
      obtain rfl := Except.ok.inj h
      exact List.forall_mem_singleton.mpr (Read.yields_eventSet valid (Prod.ext read rfl))
    · cases h
  · obtain rfl := Except.ok.inj h
    exact List.forall_mem_nil _

theorem Sized.receive (sized : c.Sized sizes early) {sets : List EventSet}
    (fit : ∀ set ∈ sets, Handle.AllFit sizes set.handles) (incoming : List UInt8) :
    Sized sizes early { c with incoming, events := c.events ++ sets } := by
  refine ⟨sized.known, ?_⟩
  rw [List.drop_append]
  exact List.forall_mem_append.mpr
    ⟨sized.events, fun set member => fit set (List.mem_of_mem_drop member)⟩

theorem awaitReply_sized (valid : sizes.Valid) (command : Command) (id : UInt32)
    (sized : c.Sized sizes early) : (awaitReply command id c).2.Sized sizes early := by
  fun_induction awaitReply command id c with
  | case1 | case2 | case4 => exact ⟨sized.known, sized.events⟩
  | case3 _ _ _ _ _ _ _ ih => exact ih ⟨sized.known, sized.events⟩
  | case5 c _ _ _ _ _ sets found ih =>
    rw [sized.known] at found
    exact ih (sized.receive (eventsOf_fit valid found) _)

/-- Whoever takes an event gets handles that fit, unless it is one of the first few. -/
theorem awaitEvent_sized (valid : sizes.Valid) (sized : c.Sized sizes early) :
    (awaitEvent c).2.Sized sizes (early - 1) ∧ ∀ set, (awaitEvent c).1 = .ok set → early = 0 →
      Handle.AllFit sizes set.handles := by
  fun_induction awaitEvent c with
  | case1 c set sets queued =>
    have events := sized.events
    rw [queued] at events
    cases early with
    | zero =>
      obtain ⟨first, others⟩ := List.forall_mem_cons.mp events
      refine ⟨⟨sized.known, others⟩, fun taken same _ => ?_⟩
      obtain rfl := Except.ok.inj same
      exact first
    | succ early =>
      -- One of the first few is taken, so there is one less of them.
      exact ⟨⟨sized.known, events⟩, fun _ _ none => nomatch none⟩
  | case2 c queued => exact ⟨⟨sized.known, by simp [queued]⟩, fun _ same => nomatch same⟩
  | case3 c queued _ _ _ _ _ ih => exact ih ⟨sized.known, sized.events⟩
  | case4 c queued => exact ⟨⟨sized.known, by simp [queued]⟩, fun _ same => nomatch same⟩
  | case5 c queued _ _ _ _ _ sets found ih =>
    rw [sized.known] at found
    refine ih ⟨sized.known, fun set member => ?_⟩
    exact eventsOf_fit valid found set (List.mem_of_mem_drop member)

theorem exchange_sized (valid : sizes.Valid) (command : Command) (data : Encoded)
    (sized : c.Sized sizes early) : (exchange command data c).2.Sized sizes early := by
  unfold exchange
  cases data with
  | error cause => exact sized
  | ok data =>
    simp only
    cases (Packet.command c.nextId command data).encode with
    | error fault => exact ⟨sized.known, sized.events⟩
    | ok bytes => exact awaitReply_sized valid _ _ ⟨sized.known, sized.events⟩

/-- Reads the data of a reply, if there is one. -/
def readReply {α : Type} (reading : Read α) :
    Except Fault (List UInt8) × Connection → Except Fault α × Connection
  | (.error fault, c) => (.error fault, c)
  | (.ok data, c) => ((reading.run c.sizes data).mapError .malformed, c)

theorem perform_eq_readReply {α : Type} (request : Request α) (c : Connection) :
    perform request c =
      readReply request.answer (exchange request.command (request.encode c.sizes) c) := by
  unfold perform
  split <;> rename_i h <;> rw [h] <;> rfl

/-- Sends items under a command, and reads items of other kinds from the reply. -/
def converse [IdWriter] (command : Command) (items : List Item) (kinds : List ItemKind) :
    Exchange (List Item) :=
  fun c => readReply (kinds.mapM ItemKind.read)
    (exchange command (Encoded.concat (Item.encode c.sizes) items) c)

theorem readReply_ok {α : Type} {reading : Read α} {a : α}
    {reply : Except Fault (List UInt8) × Connection} (h : (readReply reading reply).1 = .ok a) :
    ∃ data rest, reading reply.2.sizes data = (.ok a, rest) := by
  obtain ⟨result, c⟩ := reply
  cases result with
  | error fault => cases h
  | ok data => exact ⟨data, _, Prod.ext (except_mapError_eq_ok.mp h) rfl⟩

theorem readReply_snd {α : Type} (reading : Read α)
    (reply : Except Fault (List UInt8) × Connection) : (readReply reading reply).2 = reply.2 := by
  obtain ⟨result, c⟩ := reply
  cases result <;> rfl

theorem readReply_sized {α : Type} {reading : Read α} {told : α → List Handle}
    (yields : Read.Yields sizes reading told) {reply : Except Fault (List UInt8) × Connection}
    (sized : reply.2.Sized sizes early) :
    (readReply reading reply).2.Sized sizes early ∧
      ∀ a, (readReply reading reply).1 = .ok a → Handle.AllFit sizes (told a) := by
  refine ⟨readReply_snd reading reply ▸ sized, fun a same => ?_⟩
  obtain ⟨data, rest, read⟩ := readReply_ok same
  rw [sized.known] at read
  exact yields read

end Connection

theorem Fault.toTarget_handles (fault : Fault) : fault.toTarget.handles = [] := by
  cases fault with
  | reply command code =>
    unfold toTarget
    simp only
    split
    · rfl
    · split <;> rfl
  | io | handshake | malformed => rfl

theorem checkArguments_handles {type : MethodType} {arguments : List Value} {fault : Target.Fault}
    (h : checkArguments type arguments = .error fault) : fault.handles = [] := by
  unfold checkArguments at h
  split at h
  · obtain rfl := Except.error.inj h
    rfl
  · split at h
    · obtain rfl := Except.error.inj h
      rfl
    · cases h

namespace Session

/-- All identifiers that the session keeps fit, except in the first few event sets. -/
structure Sized (sizes : IdSizes) (early : Nat) (s : Session) : Prop where
  wire : s.connection.Sized sizes early
  thread : (ofObject s.thread).Fits sizes
  location : ∀ l, s.location = some l → Handle.AllFit sizes l.handles
  methods : ∀ entry ∈ s.methods, Handle.AllFit sizes (entry.2.map fun m => ofMethod m.id)

variable {α β : Type}

/-- The handles in a result. -/
def handlesOf (told : α → List Handle) : Except Target.Fault α → List Handle
  | .ok a => told a
  | .error fault => fault.handles

/-- Both do the same in sessions whose identifiers fit, and leave such a session. All handles that
they tell fit. -/
structure Steady (sizes : IdSizes) (early : Nat) (x y : Act α) (told : α → List Handle) :
    Prop where
  same : ∀ s, s.Sized sizes early → x s = y s
  ends : Meets (Sized sizes early) y (fun a s => s.Sized sizes early ∧ Handle.AllFit sizes (told a))
    fun fault s => s.Sized sizes early ∧ Handle.AllFit sizes fault.handles

namespace Steady

variable {x y : Act α} {told : α → List Handle}

theorem pure {a : α} (fit : Handle.AllFit sizes (told a)) :
    Steady sizes early (Pure.pure a) (Pure.pure a) told :=
  ⟨fun _ _ => rfl, Meets.pure fun _ sized => ⟨sized, fit⟩⟩

theorem raise {fault : Target.Fault} (fit : Handle.AllFit sizes fault.handles) :
    Steady sizes early (throw fault) (throw fault) told :=
  ⟨fun _ _ => rfl, Meets.raise fun _ sized => ⟨sized, fit⟩⟩

theorem bind {f g : α → Act β} {more : β → List Handle} (first : Steady sizes early x y told)
    (next : ∀ a, Handle.AllFit sizes (told a) → Steady sizes early (f a) (g a) more) :
    Steady sizes early (x >>= f) (y >>= g) more := by
  refine ⟨fun s sized => ?_, first.ends.bind fun a => ?_⟩
  · -- What comes next has to be the same only for results that the first part can have.
    have step := first.ends s sized
    rw [ExceptState.bind_apply, ExceptState.bind_apply, first.same s sized]
    cases done : y s with
    | mk result t =>
      rw [done] at step
      cases result with
      | ok a => exact (next a step.2).same t step.1
      | error fault => rfl
  · rintro s ⟨sized, fit⟩
    exact (next a fit).ends s sized

theorem get {f g : Session → Act β} {more : β → List Handle}
    (next : ∀ s, s.Sized sizes early → Steady sizes early (f s) (g s) more) :
    Steady sizes early (MonadState.get >>= f) (MonadState.get >>= g) more :=
  ⟨fun s sized => (next s sized).same s sized, fun s sized => (next s sized).ends s sized⟩

theorem attempt (h : Steady sizes early x y told) :
    Steady sizes early (Session.attempt x) (Session.attempt y) (handlesOf told) := by
  refine ⟨fun s sized => ?_, fun s sized => ?_⟩
  · unfold Session.attempt
    rw [h.same s sized]
  · have step := h.ends s sized
    unfold Session.attempt
    cases done : y s with
    | mk result t =>
      rw [done] at step
      cases result with
      | ok a => exact step
      | error fault => exact step

theorem onConnection {use other : Exchange α}
    (same : ∀ c : Connection, c.Sized sizes early → use c = other c)
    (ends : ∀ c : Connection, c.Sized sizes early → (other c).2.Sized sizes early ∧
      ∀ a, (other c).1 = .ok a → Handle.AllFit sizes (told a)) :
    Steady sizes early (Session.onConnection use) (Session.onConnection other) told := by
  refine ⟨fun s sized => ?_, fun s sized => ?_⟩
  · unfold Session.onConnection
    rw [same s.connection sized.wire]
  · obtain ⟨wire, fit⟩ := ends s.connection sized.wire
    unfold Session.onConnection
    cases used : other s.connection with
    | mk result c =>
      rw [used] at wire fit
      have kept : Session.Sized sizes early { s with connection := c } :=
        ⟨wire, sized.thread, sized.location, sized.methods⟩
      cases result with
      | ok a => exact ⟨kept, fit a rfl⟩
      | error fault => exact ⟨kept, fault.toTarget_handles ▸ List.forall_mem_nil _⟩

end Steady

theorem steady_remember {type : UInt64} {methods : List MethodInfo}
    (fit : Handle.AllFit sizes (methods.map fun m => ofMethod m.id)) :
    Steady sizes early (remember type methods) (remember type methods) fun _ => [] :=
  ⟨fun _ _ => rfl, fun _ sized =>
    ⟨⟨sized.wire, sized.thread, sized.location, List.forall_mem_cons.mpr ⟨fit, sized.methods⟩⟩,
      List.forall_mem_nil _⟩⟩

theorem steady_check (type : MethodType) (arguments : List Value) :
    Steady sizes early (check type arguments) (check type arguments) fun _ => [] := by
  unfold check
  cases checked : checkArguments type arguments with
  | ok => exact .pure (List.forall_mem_nil _)
  | error fault => exact .raise (checkArguments_handles checked ▸ List.forall_mem_nil _)

section Writing

variable {write : Nat → UInt64 → Encoded} (promised : IdWriter.Promised write)
  (valid : sizes.Valid)

include promised valid

theorem steady_ask (request : Request α) (fit : Handle.AllFit sizes request.handles) :
    Steady sizes early (@ask α ⟨write⟩ request) (ask request) request.told := by
  refine .onConnection (fun c sized => ?_) fun c sized => ?_
  · unfold Connection.perform
    rw [sized.known, Encoded.request_eq promised valid fit]
  · rw [Connection.perform_eq_readReply]
    exact Connection.readReply_sized (Read.yields_answer valid request)
      (Connection.exchange_sized valid _ _ sized)

theorem steady_converse {items : List Item} (fit : Handle.AllFit sizes (items.flatMap Item.handles))
    (command : Command) (kinds : List ItemKind) :
    Steady sizes early (onConnection (@Connection.converse ⟨write⟩ command items kinds))
      (onConnection (Connection.converse command items kinds))
      fun items => items.flatMap Item.handles := by
  refine .onConnection (fun c sized => ?_) fun c sized => ?_
  · have same : Encoded.concat (@Item.encode ⟨write⟩ c.sizes) items =
        Encoded.concat (Item.encode c.sizes) items :=
      Encoded.concat_congr fun item member =>
        Encoded.item_eq promised (sized.known.symm ▸ valid)
          (sized.known.symm ▸ List.forall_mem_flatMap.mp fit item member)
    unfold Connection.converse
    rw [same]
  · exact Connection.readReply_sized (Read.yields_items valid kinds)
      (Connection.exchange_sized valid _ _ sized)

theorem steady_declaredMethods {type : UInt64} (fits : (ofType type).Fits sizes) :
    Steady sizes early (@declaredMethods ⟨write⟩ type) (declaredMethods type)
      fun methods => methods.map fun m => ofMethod m.id := by
  refine .get fun s sized => ?_
  cases known : s.methods.lookup type with
  | some methods =>
    obtain ⟨before, after, split, -⟩ := List.lookup_eq_some_iff.mp known
    have member : (type, methods) ∈ s.methods := by simp [split]
    exact .pure (sized.methods _ member)
  | none =>
    refine (steady_ask promised valid (.methods type) fits.all).bind fun methods fit => ?_
    exact (steady_remember fit).bind fun _ _ => .pure fit

theorem steady_searchUp (name signature : String) (inherited : Bool) (rounds : Nat)
    {type : UInt64} (fits : (ofType type).Fits sizes) :
    Steady sizes early (@searchUp ⟨write⟩ name signature inherited rounds type)
      (searchUp name signature inherited rounds type)
      fun found => (found.map fun m => ofMethod m.id).toList := by
  induction rounds generalizing type with
  | zero => exact .pure (List.forall_mem_nil _)
  | succ rounds ih =>
    refine (steady_declaredMethods promised valid fits).bind fun methods fit => ?_
    cases found : methods.find? (isNamed name signature) with
    | some m =>
      exact .pure (fit _ (List.mem_map_of_mem (List.mem_of_find?_eq_some found))).all
    | none =>
      cases inherited with
      | false => exact .pure (List.forall_mem_nil _)
      | true =>
        refine (steady_ask promised valid (.superclass type) fits.all).bind fun above fit => ?_
        cases above with
        | none => exact .pure (List.forall_mem_nil _)
        | some above => exact ih (List.forall_mem_singleton.mp fit)

theorem steady_findMethod {type : UInt64} (fits : (ofType type).Fits sizes)
    (name signature : String) (inherited : Bool) :
    Steady sizes early (@findMethod ⟨write⟩ type name signature inherited)
      (findMethod type name signature inherited) fun m => [ofMethod m.id] := by
  refine .get fun s _ => ?_
  refine (steady_searchUp promised valid name signature inherited _ fits).bind fun found fit => ?_
  cases found with
  | some m => exact .pure fit
  | none => exact .raise (List.forall_mem_nil _)

theorem steady_className {type : UInt64} (fits : (ofType type).Fits sizes) :
    Steady sizes early (@className ⟨write⟩ type) (className type) fun _ => [] := by
  refine (steady_ask promised valid (.signature type) fits.all).bind fun signature _ => ?_
  cases FieldType.parse signature with
  | ok t => exact .pure (List.forall_mem_nil _)
  | error _ => exact .raise (List.forall_mem_nil _)

theorem steady_invokeOn {object type method : UInt64} {arguments : List Value}
    (receiver : (ofObject object).Fits sizes) (owner : (ofType type).Fits sizes)
    (named : (ofMethod method).Fits sizes)
    (fit : Handle.AllFit sizes (arguments.flatMap Value.handles)) :
    Steady sizes early (@invokeOn ⟨write⟩ object type method arguments)
      (invokeOn object type method arguments) (CallOutcome.handles Value.handles) := by
  refine .get fun s sized => ?_
  refine steady_ask promised valid
    (.invokeInstance object type ⟨s.thread, method, arguments, singleThreaded⟩) ?_
  exact List.forall_mem_cons.mpr
    ⟨receiver, List.forall_mem_cons.mpr ⟨owner, Invocation.allFit sized.thread named fit⟩⟩

theorem steady_exceptionMessage {exception : ObjectRef}
    (fits : (ofObject exception.id).Fits sizes) :
    Steady sizes early (@exceptionMessage ⟨write⟩ exception) (exceptionMessage exception)
      fun _ => [] := by
  refine (steady_ask promised valid (.referenceType exception.id) fits.all).bind
    fun type typed => ?_
  have owner := List.forall_mem_singleton.mp typed
  refine (steady_findMethod promised valid owner _ _ _).bind fun method named => ?_
  refine (steady_invokeOn promised valid fits owner (List.forall_mem_singleton.mp named)
    (List.forall_mem_nil _)).bind fun outcome fit => ?_
  obtain ⟨value, thrown⟩ := outcome
  obtain ⟨inValue, -⟩ := List.forall_mem_append.mp fit
  cases thrown with
  | some _ => exact .pure (List.forall_mem_nil _)
  | none =>
    cases value with
    | object message =>
      exact (steady_ask promised valid (.stringValue message.id) inValue).bind fun _ _ =>
        .pure (List.forall_mem_nil _)
    | void | null | primitive _ => exact .pure (List.forall_mem_nil _)

theorem steady_exceptionClass {exception : ObjectRef}
    (fits : (ofObject exception.id).Fits sizes) :
    Steady sizes early (@exceptionClass ⟨write⟩ exception) (exceptionClass exception)
      fun _ => [] :=
  (steady_ask promised valid (.referenceType exception.id) fits.all).bind fun _ typed =>
    steady_className promised valid (List.forall_mem_singleton.mp typed)

theorem steady_describe {exception : ObjectRef} (fits : (ofObject exception.id).Fits sizes) :
    Steady sizes early (@describe ⟨write⟩ exception) (describe exception)
      fun t => [ofObject t.exception.id] := by
  refine (steady_ask promised valid (.disableCollection exception.id) fits.all).attempt.bind
    fun _ _ => ?_
  refine (steady_exceptionClass promised valid fits).attempt.bind fun name _ => ?_
  refine (steady_exceptionMessage promised valid fits).attempt.bind fun message _ => ?_
  exact (steady_ask promised valid (.enableCollection exception.id) fits.all).attempt.bind
    fun _ _ => .pure fits.all

theorem steady_returned {told : α → List Handle} {outcome : CallOutcome α}
    (fit : Handle.AllFit sizes (outcome.handles told)) :
    Steady sizes early (@returned α ⟨write⟩ outcome) (returned outcome) told := by
  obtain ⟨value, thrown⟩ := outcome
  obtain ⟨inValue, inThrown⟩ := List.forall_mem_append.mp fit
  cases thrown with
  | none => exact .pure inValue
  | some exception =>
    exact (steady_describe promised valid (List.forall_mem_singleton.mp inThrown)).bind
      fun _ fit => .raise fit

theorem steady_firstOfPlatform {types : List UInt64}
    (fit : Handle.AllFit sizes (types.map ofType)) :
    Steady sizes early (@firstOfPlatform ⟨write⟩ types) (firstOfPlatform types)
      fun found => (found.map ofType).toList := by
  induction types with
  | nil => exact .pure (List.forall_mem_nil _)
  | cons type types ih =>
    obtain ⟨fits, others⟩ := List.forall_mem_cons.mp fit
    refine (steady_ask promised valid (.classLoader type) fits.all).bind fun loader _ => ?_
    split
    · exact .pure fits.all
    · exact ih others

theorem steady_firstVisible {types : List UInt64} {loader : Option ObjectRef}
    (fit : Handle.AllFit sizes (types.map ofType)) (given : Handle.AllFit sizes (ofRef? loader)) :
    Steady sizes early (@firstVisible ⟨write⟩ types loader) (firstVisible types loader)
      fun found => (found.map ofType).toList := by
  cases loader with
  | none => exact steady_firstOfPlatform promised valid fit
  | some loader =>
    refine (steady_ask promised valid (.visibleClasses loader.id) given).bind fun visible _ =>
      .pure ?_
    cases found : types.find? fun type => visible.any (·.id == type) with
    | none => exact List.forall_mem_nil _
    | some type =>
      exact (fit _ (List.mem_map_of_mem (List.mem_of_find?_eq_some found))).all

theorem steady_callLoader {loader : ObjectRef} {type method : UInt64}
    (fits : (ofObject loader.id).Fits sizes) (owner : (ofType type).Fits sizes)
    (named : (ofMethod method).Fits sizes) (text : String) :
    Steady sizes early (@callLoader ⟨write⟩ loader type method text)
      (callLoader loader type method text) (CallOutcome.handles Value.handles) := by
  refine (steady_ask promised valid (.createString text) (List.forall_mem_nil _)).bind
    fun name made => ?_
  refine (steady_ask promised valid (.disableCollection name) made).bind fun _ _ => ?_
  have given : Handle.AllFit sizes ([Value.object ⟨name, .string⟩].flatMap Value.handles) := made
  refine (steady_invokeOn promised valid fits owner named given).attempt.bind fun outcome fit => ?_
  refine (steady_ask promised valid (.enableCollection name) made).bind fun _ _ => ?_
  cases outcome with
  | ok outcome => exact .pure fit
  | error fault => exact .raise fit

theorem steady_loadClass (name : String) {loader : ObjectRef}
    (fits : (ofObject loader.id).Fits sizes) :
    Steady sizes early (@loadClass ⟨write⟩ name loader) (loadClass name loader)
      fun c => [ofType c.id] := by
  delta loadClass
  split
  · exact .raise (List.forall_mem_nil _)
  · refine (steady_ask promised valid (.referenceType loader.id) fits.all).bind
      fun type typed => ?_
    have owner := List.forall_mem_singleton.mp typed
    refine (steady_findMethod promised valid owner _ _ _).bind fun method named => ?_
    refine (steady_callLoader promised valid fits owner (List.forall_mem_singleton.mp named)
      name).bind fun outcome fit => ?_
    obtain ⟨value, thrown⟩ := outcome
    obtain ⟨inValue, inThrown⟩ := List.forall_mem_append.mp fit
    cases thrown with
    | some exception =>
      exact (steady_describe promised valid (List.forall_mem_singleton.mp inThrown)).bind
        fun _ _ => .raise (List.forall_mem_nil _)
    | none =>
      cases value with
      | object found =>
        exact (steady_ask promised valid (.reflectedType found.id) inValue).bind
          fun _ fit => .pure fit
      | void | null | primitive _ => exact .raise (List.forall_mem_nil _)

theorem steady_resolveClass (name : String) {loader : Option ObjectRef}
    (given : Handle.AllFit sizes (ofRef? loader)) :
    Steady sizes early (@resolveClass ⟨write⟩ name loader) (resolveClass name loader)
      fun c => [ofType c.id] := by
  unfold resolveClass
  cases FieldType.ofSource name with
  | error _ => exact .raise (List.forall_mem_nil _)
  | ok t =>
    refine (steady_ask promised valid (.classesBySignature t.render) (List.forall_mem_nil _)).bind
      fun loaded fit => ?_
    have listed : Handle.AllFit sizes ((loaded.map (·.id)).map ofType) := by
      rw [List.map_map]
      exact fit
    refine (steady_firstVisible promised valid listed given).bind fun found fits => ?_
    cases found with
    | some type => exact .pure fits
    | none =>
      cases loader with
      | some loader =>
        exact steady_loadClass promised valid name (List.forall_mem_singleton.mp given)
      | none => exact .raise (List.forall_mem_nil _)

theorem steady_newInstance {owner : ClassRef} {arguments : List Value}
    (fit : Handle.AllFit sizes (ofType owner.id :: arguments.flatMap Value.handles))
    (type : MethodType) :
    Steady sizes early (@newInstance ⟨write⟩ owner type arguments)
      (newInstance owner type arguments) fun ref => [ofObject ref.id] := by
  obtain ⟨fits, given⟩ := List.forall_mem_cons.mp fit
  refine (steady_check type arguments).bind fun _ _ => ?_
  refine (steady_findMethod promised valid fits _ _ _).bind fun method named => ?_
  refine .get fun s sized => ?_
  have all : Handle.AllFit sizes
      (Request.newInstance owner.id ⟨s.thread, method.id, arguments, singleThreaded⟩).handles :=
    List.forall_mem_cons.mpr
      ⟨fits, Invocation.allFit sized.thread (List.forall_mem_singleton.mp named) given⟩
  refine (steady_ask promised valid _ all).bind fun outcome fit => ?_
  refine (steady_returned promised valid fit).bind fun made fit => ?_
  cases made with
  | some ref => exact .pure fit
  | none => exact .raise (List.forall_mem_nil _)

theorem steady_invokeMethod {receiver : Receiver} {arguments : List Value}
    (fit : Handle.AllFit sizes (receiver.handles ++ arguments.flatMap Value.handles))
    (name : String) (type : MethodType) :
    Steady sizes early (@invokeMethod ⟨write⟩ receiver name type arguments)
      (invokeMethod receiver name type arguments) Value.handles := by
  obtain ⟨fits, given⟩ := List.forall_mem_append.mp fit
  refine (steady_check type arguments).bind fun _ _ => ?_
  cases receiver with
  | static owner =>
    have fits := List.forall_mem_singleton.mp fits
    refine (steady_findMethod promised valid fits _ _ _).bind fun method named => ?_
    refine .get fun s sized => ?_
    have all : Handle.AllFit sizes (Request.invokeStatic owner.id
        ⟨s.thread, method.id, arguments, singleThreaded⟩).handles :=
      List.forall_mem_cons.mpr
        ⟨fits, Invocation.allFit sized.thread (List.forall_mem_singleton.mp named) given⟩
    exact (steady_ask promised valid _ all).bind fun _ fit => steady_returned promised valid fit
  | «instance» ref =>
    refine (steady_ask promised valid (.referenceType ref.id) fits).bind fun type typed => ?_
    have owner := List.forall_mem_singleton.mp typed
    refine (steady_findMethod promised valid owner _ _ _).bind fun method named => ?_
    exact (steady_invokeOn promised valid (List.forall_mem_singleton.mp fits) owner
      (List.forall_mem_singleton.mp named) given).bind
        fun _ fit => steady_returned promised valid fit

theorem steady_contextLoader :
    Steady sizes early (@contextLoader ⟨write⟩) contextLoader ofRef? := by
  refine .get fun s sized => ?_
  cases known : s.location with
  | none => exact .pure (List.forall_mem_nil _)
  | some location =>
    have fits := (sized.location location known) _ List.mem_cons_self
    refine (steady_ask promised valid (.classLoader location.owner) fits.all).bind
      fun loader fit => .pure ?_
    split
    · exact List.forall_mem_nil _
    · exact fit

theorem steady_resume : Steady sizes early (@resume ⟨write⟩) resume fun _ => [] := by
  refine .get fun s sized => ?_
  split
  · exact .pure (List.forall_mem_nil _)
  · split
    · exact steady_ask promised valid .resumeAll (List.forall_mem_nil _)
    · exact steady_ask promised valid (.resumeThread s.thread) sized.thread.all

theorem steady_perform {operation : Operation α}
    (fit : Handle.AllFit sizes operation.handles) :
    Steady sizes early (@Session.perform ⟨write⟩ α operation) (Session.perform operation)
      operation.told := by
  cases operation with
  | resolveClass name => exact steady_resolveClass promised valid name fit
  | newInstance _ type => exact steady_newInstance promised valid fit type
  | invokeMethod _ name type => exact steady_invokeMethod promised valid fit name type
  | newString text =>
    exact (steady_ask promised valid (.createString text) (List.forall_mem_nil _)).bind
      fun _ fit => .pure fit
  | newArray arrayType length => exact steady_ask promised valid (.newArray arrayType.id length) fit
  | setElement array index value =>
    obtain ⟨fits, given⟩ := List.forall_mem_cons.mp fit
    refine steady_ask promised valid (.setElements array.id index [value]) ?_
    exact List.forall_mem_cons.mpr ⟨fits, (List.flatMap_singleton Value.handles value).symm ▸ given⟩
  | setElements array first values =>
    exact steady_ask promised valid (.setElements array.id first values) fit
  | pin ref => exact steady_ask promised valid (.disableCollection ref.id) fit
  | unpin ref => exact steady_ask promised valid (.enableCollection ref.id) fit
  | platformVersion =>
    exact (steady_ask promised valid .version (List.forall_mem_nil _)).bind
      fun _ _ => .pure (List.forall_mem_nil _)
  | contextLoader => exact steady_contextLoader promised valid
  | resume => exact steady_resume promised valid

theorem steady_render {value : Value} (fit : Handle.AllFit sizes value.handles) :
    Steady sizes early (@render ⟨write⟩ value) (render value) fun _ => [] := by
  cases value with
  | void | null | primitive _ => exact .pure (List.forall_mem_nil _)
  | object ref =>
    have fits : (ofObject ref.id).Fits sizes := List.forall_mem_singleton.mp fit
    obtain ⟨id, kind⟩ := ref
    cases kind with
    | string =>
      exact (steady_ask promised valid (.stringValue id) fits.all).bind fun _ _ =>
        .pure (List.forall_mem_nil _)
    | object | thread | threadGroup | classLoader | classObject | array =>
      refine (steady_ask promised valid (.referenceType id) fits.all).bind fun type typed => ?_
      have owner := List.forall_mem_singleton.mp typed
      refine (steady_className promised valid owner).bind fun name _ => ?_
      refine (steady_findMethod promised valid owner _ _ _).bind fun method named => ?_
      refine (steady_invokeOn promised valid fits owner (List.forall_mem_singleton.mp named)
        (List.forall_mem_nil _)).bind fun outcome fit => ?_
      refine (steady_returned promised valid fit).bind fun value fit => ?_
      cases value with
      | object text =>
        exact (steady_ask promised valid (.stringValue text.id) fit).bind fun _ _ =>
          .pure (List.forall_mem_nil _)
      | void | null | primitive _ => exact .pure (List.forall_mem_nil _)

end Writing

end Session

end JavaSnippet.Wire
