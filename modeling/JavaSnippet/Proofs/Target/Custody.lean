import JavaSnippet.Proofs.Target.Recording
/-!
Custody of objects made in the target. A watch reads the calls one after another and knows which
objects are pinned, which one has to be pinned next, and whether anything may be called at all.
Work on a suspension keeps to what its watch allows.
-/
namespace JavaSnippet.Target

/-- The object, unless it is among those pinned. -/
def unpinned (pins : List ObjectRef) (made : Option ObjectRef) : Option ObjectRef :=
  made.filter fun ref => !pins.contains ref

@[simp] theorem unpinned_none (pins : List ObjectRef) : unpinned pins none = none := rfl

theorem unpinned_of_mem {pins : List ObjectRef} {ref : ObjectRef} (h : ref ∈ pins) :
    unpinned pins (some ref) = none := by
  simp [unpinned, h]

theorem unpinned_of_not_mem {pins : List ObjectRef} {ref : ObjectRef} (h : ref ∉ pins) :
    unpinned pins (some ref) = some ref := by
  simp [unpinned, h]

/-- The objects pinned after calls, in the order in which they were. -/
def pinnedBy (pins : List ObjectRef) (log : List Noted) : List ObjectRef :=
  pins ++ log.filterMap (·.call.pinned?)

/-- Whether the work is cancelled after calls. -/
def cancelledBy (cancelled : Bool) (log : List Noted) : Bool :=
  cancelled || log.any (·.cancels)

/-- Each object that a call made or answered with is pinned already, or is pinned in the next
call. Nothing follows if that fails. Nothing follows either, not even that call, once the work is
cancelled. -/
def PinsAtOnce (pins : List ObjectRef) (cancelled : Bool) (log : List Noted) : Prop :=
  ∀ before n after ref, log = before ++ n :: after → n.call.created? = some ref →
    (cancelledBy cancelled (before ++ [n]) = true → after = []) ∧
    (cancelledBy cancelled (before ++ [n]) = false → ref ∉ pinnedBy pins before →
      ∃ result cancels rest, after = ⟨.pin ref result, cancels⟩ :: rest ∧
        (result.isOk = false → rest = []))

/-- No call follows once the work is cancelled. -/
def StopsAtOnce (cancelled : Bool) (log : List Noted) : Prop :=
  ∀ before after, log = before ++ after → cancelledBy cancelled before = true → after = []

/-- What is known of a suspension from the calls made so far. -/
structure Watch where
  pins : List ObjectRef
  cancelled : Bool
  /-- The object that the next call has to pin. -/
  due : Option ObjectRef
  /-- Whether an object could not be pinned. -/
  broken : Bool

namespace Watch

/-- Whether a call may be made. -/
structure Permits (w : Watch) (call : Call) : Prop where
  active : w.cancelled = false
  goingOn : w.broken = false
  pinsDue : ∀ ref, w.due = some ref → ∃ result, call = .pin ref result

/-- What is known after a call. -/
def next (w : Watch) (n : Noted) : Watch where
  pins := w.pins ++ n.call.pinned?.toList
  cancelled := w.cancelled || n.cancels
  due := unpinned w.pins n.call.created?
  broken := w.due.isSome && !n.call.succeeded

/-- Whether calls may be made, each after those before it. -/
def Allows : Watch → List Noted → Prop
  | _, [] => True
  | w, n :: rest => w.Permits n.call ∧ (w.next n).Allows rest

def after (w : Watch) (log : List Noted) : Watch := log.foldl next w

@[simp] theorem after_nil (w : Watch) : w.after [] = w := rfl

@[simp] theorem after_cons (w : Watch) (n : Noted) (log : List Noted) :
    w.after (n :: log) = (w.next n).after log := rfl

theorem after_append (w : Watch) (first rest : List Noted) :
    w.after (first ++ rest) = (w.after first).after rest :=
  List.foldl_append

theorem allows_append {w : Watch} {first rest : List Noted} :
    w.Allows (first ++ rest) ↔ w.Allows first ∧ (w.after first).Allows rest := by
  induction first generalizing w with
  | nil => exact ⟨fun h => ⟨trivial, h⟩, fun h => h.2⟩
  | cons n first ih => rw [List.cons_append, Allows, Allows, ih, and_assoc, after_cons]

theorem after_pins (w : Watch) (log : List Noted) :
    (w.after log).pins = pinnedBy w.pins log := by
  unfold pinnedBy
  induction log generalizing w with
  | nil => simp
  | cons n log ih =>
    rw [after_cons, ih, next, List.append_assoc]
    cases pinned : n.call.pinned? <;> simp [pinned]

theorem after_cancelled (w : Watch) (log : List Noted) :
    (w.after log).cancelled = cancelledBy w.cancelled log := by
  unfold cancelledBy
  induction log generalizing w with
  | nil => simp
  | cons n log ih => rw [after_cons, ih, next, List.any_cons, Bool.or_assoc]

theorem Allows.stopsAtOnce {w : Watch} {log : List Noted} (h : w.Allows log) :
    StopsAtOnce w.cancelled log := by
  rintro before after rfl cancelled
  have rest := (allows_append.mp h).2
  cases after with
  | nil => rfl
  | cons n after =>
    obtain ⟨permitted, -⟩ := rest
    have active := permitted.active
    rw [after_cancelled, cancelled] at active
    cases active

end Watch

/-- Whether the last call succeeded, if there was one. -/
def LastSucceeded (log : List Noted) : Prop :=
  ∀ n, log.getLast? = some n → n.call.succeeded = true

namespace Suspension

variable {σ α : Type} {start : Watch} {s : Suspension (σ × List Noted)}

/-- The calls noted are allowed from the start, and what is known from them is so. An object that
is not pinned yet is the next to be. -/
structure Owes (start : Watch) (made : Option ObjectRef) (s : Suspension (σ × List Noted)) :
    Prop where
  allowed : start.Allows s.noted
  known : start.after s.noted =
    ⟨s.pins, s.cancelled, unpinned s.pins made, false⟩

/-- The calls noted are allowed from the start, and nothing has to be pinned. -/
abbrev Settled (start : Watch) (s : Suspension (σ × List Noted)) : Prop := Owes start none s

/-- The calls noted are allowed from the start. An object is left unpinned only if the work was
cancelled. -/
structure Ended (start : Watch) (s : Suspension (σ × List Noted)) : Prop where
  allowed : start.Allows s.noted
  pins : (start.after s.noted).pins = s.pins
  cancelled : (start.after s.noted).cancelled = s.cancelled
  due : s.cancelled = false → (start.after s.noted).due = none

/-- Cancelled work whose last call succeeded fails for no other reason. -/
def Heeds {ε : Type} (stop fault : ε) (s : Suspension (σ × List Noted)) : Prop :=
  s.cancelled = true → LastSucceeded s.noted → fault = stop

theorem Owes.ended {made : Option ObjectRef} (h : Owes start made s)
    (unpinned : s.cancelled = false → unpinned s.pins made = none) :
    Ended start s where
  allowed := h.allowed
  pins := by rw [h.known]
  cancelled := by rw [h.known]
  due active := by rw [h.known]; exact unpinned active

theorem Settled.ended (h : Settled start s) : Ended start s :=
  Owes.ended h fun _ => rfl

/-- An object made that was not pinned yet is pinned in the next call, unless the work is cancelled
by then. -/
theorem Ended.pinsAtOnce {pins : List ObjectRef} {cancelled : Bool}
    (h : Ended ⟨pins, cancelled, none, false⟩ s) : PinsAtOnce pins cancelled s.noted := by
  intro before n after ref split made
  have allowed := h.allowed
  have due := h.due
  have same := h.cancelled
  rw [split, ← List.singleton_append, ← List.append_assoc] at allowed due same
  refine ⟨allowed.stopsAtOnce _ _ rfl, fun active fresh => ?_⟩
  have rest := (Watch.allows_append.mp allowed).2
  rw [Watch.after_append] at due same
  have known : (Watch.after ⟨pins, cancelled, none, false⟩ (before ++ [n])).due = some ref := by
    rw [Watch.after_append, Watch.after_cons, Watch.after_nil, Watch.next, made,
      Watch.after_pins]
    exact unpinned_of_not_mem fresh
  cases after with
  | nil =>
    rw [Watch.after_nil, Watch.after_cancelled, active] at same
    rw [Watch.after_nil, known] at due
    cases due same.symm
  | cons next rest' =>
    obtain ⟨permitted, further⟩ := rest
    obtain ⟨result, pinned⟩ := permitted.pinsDue ref known
    obtain ⟨call, cancels⟩ := next
    obtain rfl : call = .pin ref result := pinned
    refine ⟨result, cancels, rest', rfl, fun failed => ?_⟩
    cases rest' with
    | nil => rfl
    | cons last others =>
      obtain ⟨permitted, -⟩ := further
      have goingOn := permitted.goingOn
      rw [Watch.next, known] at goingOn
      have broken : (Call.pin ref result).succeeded = false := failed
      rw [broken] at goingOn
      cases goingOn

theorem settled_recorded (s : Suspension σ) :
    Settled ⟨s.pins, s.cancelled, none, false⟩ s.recorded :=
  ⟨trivial, rfl⟩

section Calls

variable (target : Target σ) (operation : Operation α)

/-- A call that pins nothing leaves to be pinned what it made. -/
theorem Owes.call (h : Owes start none s) (active : s.cancelled = false)
    (pinless : ∀ result, (Call.of operation result).pinned? = none) :
    Owes start (Call.of operation (target.perform operation s.state.1).result).created?
      (afterCall target operation s) where
  allowed := by
    refine Watch.allows_append.mpr ⟨h.allowed, ?_, trivial⟩
    rw [h.known]
    exact ⟨active, rfl, fun _ made => nomatch made⟩
  known := by
    rw [noted_afterCall, Watch.after_append, h.known]
    simp [Watch.next, pinless, afterCall]

theorem heeds_error {fault : Fault}
    (failed : (target.perform operation s.state.1).result = .error fault) :
    Heeds .cancelled fault (afterCall target operation s) := by
  intro _ succeeded
  have last := succeeded _ (by rw [noted_afterCall, List.getLast?_concat])
  rw [Call.succeeded_of, failed] at last
  cases last

end Calls

/-- From a suspension where `due` is to be pinned, if anything, the work makes calls that are
allowed and leaves `made` of its result to be pinned. Cancelled work fails for that reason. -/
def InCustody (due : Option ObjectRef) (x : Act (σ × List Noted) α)
    (made : α → Option ObjectRef) : Prop :=
  ∀ start, Meets (Owes start due) x (fun a => Owes start (made a)) fun fault s =>
    Ended start s ∧ Heeds .cancelled fault s

/-- Work that leaves nothing to be pinned. -/
abbrev Orderly (x : Act (σ × List Noted) α) : Prop := InCustody none x fun _ => none

theorem InCustody.bind {β : Type} {due : Option ObjectRef} {x : Act (σ × List Noted) α}
    {f : α → Act (σ × List Noted) β} {made : α → Option ObjectRef} {last : β → Option ObjectRef}
    (first : InCustody due x made) (rest : ∀ a, InCustody (made a) (f a) last) :
    InCustody due (x >>= f) last :=
  fun start => (first start).bind fun a => rest a start

theorem inCustody_pure {due : Option ObjectRef} {made : α → Option ObjectRef} {a : α}
    (h : made a = due) : InCustody due (pure a : Act (σ × List Noted) α) made :=
  fun _ => Meets.pure fun _ owes => h ▸ owes

section Operations

variable (target : Target σ)

/-- While the work is not cancelled, an operation that pins nothing may be sent. -/
theorem meets_send {operation : Operation α} {made : α → Option ObjectRef}
    (pinless : ∀ result, (Call.of operation result).pinned? = none)
    (succeeds : ∀ a, (Call.of operation (.ok a)).created? = made a)
    (fails : ∀ fault, (Call.of operation (.error fault)).created? = none) :
    Meets (fun s => Settled start s ∧ s.cancelled = false) (send target.recording operation)
      (fun a => Owes start (made a)) fun fault s => Ended start s ∧ Heeds .cancelled fault s := by
  rintro s ⟨settled, active⟩
  rw [send_recording]
  have owes := Owes.call target operation settled active pinless
  cases result : (target.perform operation s.state.1).result with
  | ok a =>
    rw [result, succeeds] at owes
    exact owes
  | error fault =>
    rw [result, fails] at owes
    exact ⟨Settled.ended owes, heeds_error target operation result⟩

theorem inCustody_sendActive {operation : Operation α} {made : α → Option ObjectRef}
    (pinless : ∀ result, (Call.of operation result).pinned? = none)
    (succeeds : ∀ a, (Call.of operation (.ok a)).created? = made a)
    (fails : ∀ fault, (Call.of operation (.error fault)).created? = none) :
    InCustody none (sendActive target.recording operation) made := by
  intro start s settled
  rw [sendActive_recording]
  cases active : s.cancelled with
  | true => exact ⟨Settled.ended settled, fun _ _ => rfl⟩
  | false => exact meets_send target pinless succeeds fails s ⟨settled, active⟩

/-- The object that is to be pinned may be. -/
theorem Owes.pin {ref : ObjectRef} (owes : Owes start (some ref) s) (fresh : ref ∉ s.pins)
    (active : s.cancelled = false) :
    start.Allows (afterCall target (.pin ref) s).noted ∧
      start.after (afterCall target (.pin ref) s).noted =
        Watch.next ⟨s.pins, s.cancelled, some ref, false⟩
          ⟨.pin ref (target.perform (.pin ref) s.state.1).result,
            (target.perform (.pin ref) s.state.1).cancels⟩ := by
  have known := owes.known
  rw [unpinned_of_not_mem fresh] at known
  rw [noted_afterCall]
  constructor
  · refine Watch.allows_append.mpr ⟨owes.allowed, ?_, trivial⟩
    rw [known]
    refine ⟨active, rfl, fun due same => ?_⟩
    obtain rfl := Option.some.inj same
    exact ⟨_, rfl⟩
  · rw [Watch.after_append, known]
    rfl

/-- An object that is not pinned yet is pinned in the next call. -/
theorem inCustody_pin (ref : ObjectRef) :
    InCustody (some ref) (pin target.recording ref) fun _ => none := by
  intro start s owes
  rw [pin_eq]
  by_cases held : ref ∈ s.pins
  · rw [if_pos held]
    exact ⟨owes.allowed, by rw [owes.known, unpinned_of_mem held]; rfl⟩
  · rw [if_neg held, ExceptState.bind_apply, sendActive_recording]
    cases active : s.cancelled with
    | true =>
      refine ⟨owes.ended fun h => ?_, fun _ _ => rfl⟩
      rw [active] at h
      cases h
    | false =>
      obtain ⟨allowed, known⟩ := owes.pin target held active
      cases result : (target.perform (.pin ref) s.state.1).result with
      | ok done =>
        rw [result] at known
        exact ⟨allowed, known⟩
      | error fault =>
        rw [result] at known
        refine ⟨⟨allowed, ?_, ?_, fun _ => ?_⟩, heeds_error target _ result⟩
        · exact (congrArg Watch.pins known).trans (List.append_nil _)
        · exact congrArg Watch.cancelled known
        · exact congrArg Watch.due known

theorem inCustody_pinValue (value : Value) :
    InCustody value.object? (pinValue target.recording value) fun _ => none := by
  cases value with
  | object ref => exact InCustody.bind (inCustody_pin target ref) fun _ => inCustody_pure rfl
  | void | null | primitive _ => exact inCustody_pure rfl

theorem orderly_resolveClass (name : String) (loader : Option ObjectRef) :
    Orderly (resolveClass target.recording name loader) :=
  inCustody_sendActive target (fun _ => rfl) (fun _ => rfl) fun _ => rfl

theorem orderly_setElements (array : ObjectRef) (first : Nat) (values : List Value) :
    Orderly (setElements target.recording array first values) :=
  inCustody_sendActive target (fun _ => rfl) (fun _ => rfl) fun _ => rfl

theorem orderly_newInstance (owner : ClassRef) (type : MethodType) (arguments : List Value) :
    Orderly (newInstance target.recording owner type arguments) :=
  InCustody.bind (inCustody_sendActive target (fun _ => rfl) (fun _ => rfl) fun _ => rfl)
    (inCustody_pin target)

theorem orderly_newString (text : String) : Orderly (newString target.recording text) :=
  InCustody.bind (inCustody_sendActive target (fun _ => rfl) (fun _ => rfl) fun _ => rfl)
    (inCustody_pin target)

theorem orderly_newArray (arrayType : ClassRef) (length : Nat) :
    Orderly (newArray target.recording arrayType length) :=
  InCustody.bind (inCustody_sendActive target (fun _ => rfl) (fun _ => rfl) fun _ => rfl)
    (inCustody_pin target)

theorem orderly_invokeMethod (receiver : Receiver) (name : String) (type : MethodType)
    (arguments : List Value) :
    Orderly (invokeMethod target.recording receiver name type arguments) :=
  InCustody.bind (inCustody_sendActive target (fun _ => rfl) (fun _ => rfl) fun _ => rfl)
    (inCustody_pinValue target)

end Operations

end Suspension

end JavaSnippet.Target
