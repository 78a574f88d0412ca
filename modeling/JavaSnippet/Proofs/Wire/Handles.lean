import JavaSnippet.Proofs.Wire.Items
import JavaSnippet.Target.Operation
import JavaSnippet.Wire.Request
/-!
Identifiers and the roles in which they are read and written. What is read in a role fits the bytes
of that role, and how identifiers are written that do not fit makes no difference to whoever writes
only those that do.
-/
namespace JavaSnippet

open Wire

/-- An identifier in its role. -/
structure Wire.Handle where
  width : Width
  id : UInt64
  deriving DecidableEq

namespace Wire.Handle

def Fits (sizes : IdSizes) (h : Handle) : Prop := h.width.Holds sizes h.id

instance (sizes : IdSizes) (h : Handle) : Decidable (h.Fits sizes) :=
  inferInstanceAs (Decidable (h.width.Holds sizes h.id))

abbrev AllFit (sizes : IdSizes) (handles : List Handle) : Prop := ∀ h ∈ handles, h.Fits sizes

theorem Fits.all {sizes : IdSizes} {h : Handle} (fits : h.Fits sizes) : AllFit sizes [h] :=
  List.forall_mem_singleton.mpr fits

def ofObject (n : UInt64) : Handle := ⟨.object, n⟩

def ofType (n : UInt64) : Handle := ⟨.referenceType, n⟩

def ofMethod (n : UInt64) : Handle := ⟨.method, n⟩

def ofRef? (ref : Option Target.ObjectRef) : List Handle :=
  (ref.map fun ref => ofObject ref.id).toList

end Wire.Handle

open Wire.Handle (ofObject ofType ofMethod ofRef?)

namespace Target

def Value.handles : Value → List Handle
  | .object ref => [ofObject ref.id]
  | .void | .null | .primitive _ => []

def Receiver.handles : Receiver → List Handle
  | .static owner => [ofType owner.id]
  | .instance ref => [ofObject ref.id]

/-- The handle that a fault gives to whoever gets it. -/
def Fault.handles : Fault → List Handle
  | .thrown t => [ofObject t.exception.id]
  | _ => []

namespace Operation

variable {α : Type}

/-- The handles that an operation is given. -/
def handles : Operation α → List Handle
  | resolveClass _ loader => ofRef? loader
  | newInstance owner _ arguments => ofType owner.id :: arguments.flatMap Value.handles
  | invokeMethod receiver _ _ arguments => receiver.handles ++ arguments.flatMap Value.handles
  | newArray arrayType _ => [ofType arrayType.id]
  | setElement array _ value => ofObject array.id :: value.handles
  | setElements array _ values => ofObject array.id :: values.flatMap Value.handles
  | pin ref | unpin ref => [ofObject ref.id]
  | newString _ | platformVersion | contextLoader | resume => []

/-- The handles that an operation answers. -/
def told : Operation α → α → List Handle
  | resolveClass .., c => [ofType c.id]
  | newInstance .., ref | newString _, ref | newArray .., ref => [ofObject ref.id]
  | invokeMethod .., value => value.handles
  | contextLoader, loader => ofRef? loader
  | setElement .., _ | setElements .., _ | pin _, _ | unpin _, _ | platformVersion, _ |
    resume, _ => []

end Operation

end Target

namespace Wire

open Target

def Location.handles (l : Location) : List Handle := [ofType l.owner, ofMethod l.method]

def Happening.handles : Happening → List Handle
  | vmDeath => []
  | vmStart thread | threadStart thread | threadDeath thread => [ofObject thread]
  | classPrepare thread _ owner _ _ => [ofObject thread, ofType owner]
  | stop _ thread location => ofObject thread :: location.handles

def EventSet.handles (set : EventSet) : List Handle :=
  set.events.flatMap fun e => e.happening.handles

def EventModifier.handles : EventModifier → List Handle
  | locationOnly l => l.handles
  | count _ | classMatch _ => []

def Item.handles : Item → List Handle
  | objectId n => [ofObject n]
  | typeId n => [ofType n]
  | methodId n => [ofMethod n]
  | location place => place.handles
  | value v => v.handles
  | byte _ | int _ | long _ | length _ | string _ => []

def Invocation.handles (call : Invocation) : List Handle :=
  ofObject call.thread :: ofMethod call.method :: call.arguments.flatMap Value.handles

theorem Invocation.allFit {sizes : IdSizes} {call : Invocation}
    (thread : (ofObject call.thread).Fits sizes) (named : (ofMethod call.method).Fits sizes)
    (given : Handle.AllFit sizes (call.arguments.flatMap Value.handles)) :
    Handle.AllFit sizes call.handles :=
  List.forall_mem_cons.mpr ⟨thread, List.forall_mem_cons.mpr ⟨named, given⟩⟩

def CallOutcome.handles {α : Type} (told : α → List Handle) (outcome : CallOutcome α) :
    List Handle :=
  told outcome.value ++ ofRef? outcome.exception

namespace Request

variable {α : Type}

/-- The handles that a request is given. -/
def handles : Request α → List Handle
  | signature n | classLoader n | methods n | superclass n | newArray n _ => [ofType n]
  | invokeStatic owner call | newInstance owner call => ofType owner :: call.handles
  | invokeInstance n owner call => ofObject n :: ofType owner :: call.handles
  | referenceType n | disableCollection n | enableCollection n | stringValue n | threadName n |
    resumeThread n | visibleClasses n | reflectedType n => [ofObject n]
  | setElements array _ values => ofObject array :: values.flatMap Value.handles
  | setEvents request => request.modifiers.flatMap EventModifier.handles
  | version | classesBySignature _ | allThreads | idSizes | resumeAll | createString _ |
    clearEvents .. => []

/-- The handles that a request answers. -/
def told : Request α → α → List Handle
  | classesBySignature _, classes => classes.map fun c => ofType c.id
  | allThreads, threads => threads.map ofObject
  | createString _, n | classLoader _, n => [ofObject n]
  | methods _, found => found.map fun m => ofMethod m.id
  | superclass _, above => (above.map ofType).toList
  | invokeStatic .., outcome | invokeInstance .., outcome => outcome.handles Value.handles
  | newInstance .., outcome => outcome.handles ofRef?
  | newArray .., ref => [ofObject ref.id]
  | referenceType _, t | reflectedType _, t => [ofType t.id]
  | visibleClasses _, visible => visible.map fun t => ofType t.id
  | version, _ | idSizes, _ | resumeAll, _ | signature _, _ | disableCollection _, _ |
    enableCollection _, _ | stringValue _, _ | threadName _, _ | resumeThread _, _ |
    setElements .., _ | setEvents _, _ | clearEvents .., _ => []

end Request

section Reading

variable {α β : Type} {sizes : IdSizes}

namespace Read

/-- All handles in what is read fit. -/
def Yields (sizes : IdSizes) (x : Read α) (told : α → List Handle) : Prop :=
  ∀ ⦃a data rest⦄, x sizes data = (.ok a, rest) → Handle.AllFit sizes (told a)

section Rules

variable {x : Read α} {told : α → List Handle}

theorem Yields.pure {a : α} (fit : Handle.AllFit sizes (told a)) :
    Yields sizes (Pure.pure a) told := by
  intro b data rest read
  obtain ⟨rfl, -⟩ := pure_ok.mp read
  exact fit

theorem Yields.raise {cause : Malformation} : Yields sizes (throw cause) told :=
  fun _ _ _ read => absurd read throw_ok

theorem Yields.bind {f : α → Read β} {more : β → List Handle} (first : Yields sizes x told)
    (next : ∀ a, Handle.AllFit sizes (told a) → Yields sizes (f a) more) :
    Yields sizes (x >>= f) more := by
  intro b data rest read
  obtain ⟨a, mid, one, other⟩ := bind_ok.mp read
  exact next a (first one) other

theorem Yields.nothing (none : ∀ a, told a = []) : Yields sizes x told := by
  intro a data rest _
  rw [none a]
  exact List.forall_mem_nil _

/-- What is read first has no handles. -/
theorem Yields.after {f : α → Read β} {more : β → List Handle}
    (next : ∀ a, Yields sizes (f a) more) : Yields sizes (x >>= f) more :=
  (Yields.nothing fun _ => rfl : Yields sizes x fun _ => []).bind fun a _ => next a

theorem Yields.times (one : Yields sizes x told) {found : List α}
    (fit : Handle.AllFit sizes (found.flatMap told)) (n : Nat) :
    Yields sizes (Read.times x n found) fun as => as.flatMap told := by
  induction n generalizing found with
  | zero =>
    refine .pure (List.forall_mem_flatMap.mpr fun a member => ?_)
    exact List.forall_mem_flatMap.mp fit a (List.mem_reverse.mp member)
  | succ n ih =>
    refine one.bind fun a fits => ih ?_
    rw [List.flatMap_cons]
    exact List.forall_mem_append.mpr ⟨fits, fit⟩

theorem Yields.list {f : α → Handle} (one : Yields sizes x fun a => [f a]) :
    Yields sizes (Read.list x) (List.map f) := by
  refine .after fun n => ?_
  intro as data rest read
  rw [List.map_eq_flatMap]
  exact one.times (List.forall_mem_nil _) n read

end Rules

section Answers

variable (valid : sizes.Valid)

include valid

theorem yields_objectId : Yields sizes objectId fun n => [ofObject n] :=
  fun _ _ _ read => List.forall_mem_singleton.mpr ((objectId_ok valid).mp read).1

theorem yields_typeId : Yields sizes typeId fun n => [ofType n] :=
  fun _ _ _ read => List.forall_mem_singleton.mpr ((typeId_ok valid).mp read).1

theorem yields_methodId : Yields sizes methodId fun n => [ofMethod n] :=
  fun _ _ _ read => List.forall_mem_singleton.mpr ((methodId_ok valid).mp read).1

theorem yields_location : Yields sizes location Location.handles :=
  .after fun _ => (yields_typeId valid).bind fun _ owner =>
    (yields_methodId valid).bind fun _ method => .after fun _ =>
      .pure (List.forall_mem_cons.mpr ⟨owner _ (List.mem_singleton_self _), method⟩)

theorem yields_objectOf (kind : ObjectKind) : Yields sizes (objectOf kind) ofRef? := by
  refine (yields_objectId valid).bind fun n fits => .pure ?_
  split
  · exact List.forall_mem_nil _
  · exact fits

theorem yields_taggedObject : Yields sizes taggedObject ofRef? := by
  refine .after fun tag => ?_
  cases objectKind? tag with
  | some kind => exact yields_objectOf valid kind
  | none => exact .raise

theorem yields_tagged : Yields sizes tagged Value.handles := by
  refine .after fun tag => ?_
  split
  · exact .pure (List.forall_mem_nil _)
  · split
    · exact .after fun p => .pure (List.forall_mem_nil _)
    · refine (yields_objectOf valid _).bind fun ref fits => .pure ?_
      cases ref <;> exact fits
    · exact .raise

theorem yields_callOutcome {value : Read α} {told : α → List Handle}
    (one : Yields sizes value told) :
    Yields sizes (callOutcome value) (CallOutcome.handles told) :=
  one.bind fun _ fit => (yields_taggedObject valid).bind fun _ thrown =>
    .pure (List.forall_mem_append.mpr ⟨fit, thrown⟩)

theorem yields_typeRef : Yields sizes typeRef fun t => [ofType t.id] :=
  .after fun _ => (yields_typeId valid).bind fun _ fits => .pure fits

theorem yields_answer (request : Request α) : Yields sizes request.answer request.told := by
  cases request with
  | classesBySignature =>
    exact .list (.after fun _ => (yields_typeId valid).bind fun _ fits => .after fun _ =>
      .pure fits)
  | allThreads => exact .list (yields_objectId valid)
  | createString | classLoader => exact yields_objectId valid
  | methods =>
    exact .list ((yields_methodId valid).bind fun _ fits => .after fun _ => .after fun _ =>
      .after fun _ => .pure fits)
  | superclass =>
    refine (yields_typeId valid).bind fun n fits => .pure ?_
    split
    · exact List.forall_mem_nil _
    · exact fits
  | invokeStatic | invokeInstance => exact yields_callOutcome valid (yields_tagged valid)
  | newInstance => exact yields_callOutcome valid (yields_taggedObject valid)
  | newArray =>
    refine (yields_taggedObject valid).bind fun ref fits => ?_
    cases ref with
    | none => exact .raise
    | some ref => exact .pure fits
  | referenceType | reflectedType => exact yields_typeRef valid
  | visibleClasses => exact .list (yields_typeRef valid)
  | _ => exact .nothing fun _ => rfl

theorem yields_item (kind : ItemKind) : Yields sizes kind.read Item.handles := by
  cases kind with
  | objectId => exact (yields_objectId valid).bind fun _ fits => .pure fits
  | typeId => exact (yields_typeId valid).bind fun _ fits => .pure fits
  | methodId => exact (yields_methodId valid).bind fun _ fits => .pure fits
  | location => exact (yields_location valid).bind fun _ fits => .pure fits
  | value => exact (yields_tagged valid).bind fun _ fits => .pure fits
  | _ => exact .after fun _ => .pure (List.forall_mem_nil _)

theorem yields_items (kinds : List ItemKind) :
    Yields sizes (kinds.mapM ItemKind.read) fun items => items.flatMap Item.handles := by
  induction kinds with
  | nil => exact .pure (List.forall_mem_nil _)
  | cons kind kinds ih =>
    rw [List.mapM_cons]
    refine (yields_item valid kind).bind fun item one => ih.bind fun items fit => .pure ?_
    rw [List.flatMap_cons]
    exact List.forall_mem_append.mpr ⟨one, fit⟩

end Answers

end Read

theorem Field.AllStart.holds {fields : List Field} {data rest : List UInt8} {width : Width}
    {n : UInt64} (starts : AllStart sizes fields data rest) (member : .id width n ∈ fields) :
    width.Holds sizes n := by
  induction fields generalizing data with
  | nil => cases member
  | cons field fields ih =>
    obtain ⟨mid, first, more⟩ := starts
    rcases List.mem_cons.mp member with rfl | later
    · exact first.1
    · exact ih more later

theorem Happening.fields_of_handles {h : Happening} {handle : Handle}
    (member : handle ∈ h.handles) : .id handle.width handle.id ∈ h.fields := by
  cases h with
  | vmDeath => cases member
  | vmStart n | threadStart n | threadDeath n =>
    obtain rfl := List.mem_singleton.mp member
    exact List.mem_singleton_self _
  | classPrepare =>
    simp only [handles, List.mem_cons, List.not_mem_nil, or_false] at member
    rcases member with rfl | rfl <;> simp [fields, ofObject, ofType]
  | stop =>
    simp only [handles, Location.handles, List.mem_cons, List.not_mem_nil, or_false] at member
    rcases member with rfl | rfl | rfl <;> simp [fields, ofObject, ofType, ofMethod]

/-- All handles in events that are read fit. -/
theorem Read.yields_eventSet (valid : sizes.Valid) :
    Yields sizes Read.eventSet EventSet.handles := by
  intro set data rest read handle member
  obtain ⟨e, among, named⟩ := List.mem_flatMap.mp member
  refine ((eventSet_ok valid).mp read).holds ?_
  have inEvent : .id handle.width handle.id ∈ e.fields :=
    List.mem_cons_of_mem _ (List.mem_cons_of_mem _ (Happening.fields_of_handles named))
  exact List.mem_cons_of_mem _ (List.mem_cons_of_mem _ (List.mem_flatMap_of_mem among inEvent))

end Reading

/-- What is promised of a writer of identifiers: those that fit are written. -/
def IdWriter.Promised (write : Nat → UInt64 → Encoded) : Prop :=
  ∀ size value, 1 ≤ size → size ≤ 8 → value.toNat < 256 ^ size →
    write size value = .ok (Encoded.id size value)

namespace Encoded

theorem concat_congr {α : Type} {f g : α → Encoded} {items : List α}
    (same : ∀ a ∈ items, f a = g a) : concat f items = concat g items := by
  have parts : items.mapM f = items.mapM g := by
    induction items with
    | nil => rfl
    | cons a items ih =>
      obtain ⟨one, others⟩ := List.forall_mem_cons.mp same
      rw [List.mapM_cons, List.mapM_cons, one, ih others]
  rw [concat, concat, parts]

section Writing

variable {write : Nat → UInt64 → Encoded} {sizes : IdSizes}
  (promised : IdWriter.Promised write) (valid : sizes.Valid)

include promised valid

theorem object_eq {n : UInt64} (fits : (ofObject n).Fits sizes) :
    @identifier ⟨write⟩ sizes.object n = identifier sizes.object n :=
  have size := valid sizes.object (by simp [IdSizes.all])
  promised sizes.object n size.1 size.2 fits

theorem type_eq {n : UInt64} (fits : (ofType n).Fits sizes) :
    @identifier ⟨write⟩ sizes.referenceType n = identifier sizes.referenceType n :=
  have size := valid sizes.referenceType (by simp [IdSizes.all])
  promised sizes.referenceType n size.1 size.2 fits

theorem method_eq {n : UInt64} (fits : (ofMethod n).Fits sizes) :
    @identifier ⟨write⟩ sizes.method n = identifier sizes.method n :=
  have size := valid sizes.method (by simp [IdSizes.all])
  promised sizes.method n size.1 size.2 fits

theorem place_eq {l : Location} (fit : Handle.AllFit sizes l.handles) :
    @place ⟨write⟩ sizes l = place sizes l := by
  obtain ⟨owner, method⟩ := List.forall_mem_cons.mp fit
  unfold place
  rw [type_eq promised valid owner,
    method_eq promised valid (List.forall_mem_singleton.mp method)]

theorem tagged_eq {v : Value} (fit : Handle.AllFit sizes v.handles) :
    @tagged ⟨write⟩ sizes v = tagged sizes v := by
  cases v with
  | void | primitive => rfl
  | null =>
    simp only [tagged]
    rw [object_eq promised valid Width.object.holds_zero]
  | object ref =>
    simp only [tagged]
    rw [object_eq promised valid (List.forall_mem_singleton.mp fit)]

theorem untagged_eq {v : Value} (fit : Handle.AllFit sizes v.handles) :
    @untagged ⟨write⟩ sizes v = untagged sizes v := by
  cases v with
  | void | primitive => rfl
  | null => exact object_eq promised valid Width.object.holds_zero
  | object ref => exact object_eq promised valid (List.forall_mem_singleton.mp fit)

theorem callTail_eq {call : Invocation}
    (fit : Handle.AllFit sizes (call.arguments.flatMap Value.handles)) :
    @callTail ⟨write⟩ sizes call = callTail sizes call := by
  have all := concat_congr fun v member =>
    tagged_eq promised valid (List.forall_mem_flatMap.mp fit v member)
  unfold callTail arguments
  rw [all]

theorem staticCall_eq {owner : UInt64} {call : Invocation}
    (fit : Handle.AllFit sizes (ofType owner :: call.handles)) :
    @staticCall ⟨write⟩ sizes owner call = staticCall sizes owner call := by
  simp only [Invocation.handles, Handle.AllFit, List.forall_mem_cons] at fit
  obtain ⟨type, thread, method, arguments⟩ := fit
  unfold staticCall
  rw [type_eq promised valid type, object_eq promised valid thread,
    method_eq promised valid method, callTail_eq promised valid arguments]

theorem instanceCall_eq {object owner : UInt64} {call : Invocation}
    (fit : Handle.AllFit sizes (ofObject object :: ofType owner :: call.handles)) :
    @instanceCall ⟨write⟩ sizes object owner call = instanceCall sizes object owner call := by
  simp only [Invocation.handles, Handle.AllFit, List.forall_mem_cons] at fit
  obtain ⟨receiver, type, thread, method, arguments⟩ := fit
  unfold instanceCall
  rw [object_eq promised valid receiver, object_eq promised valid thread,
    type_eq promised valid type, method_eq promised valid method,
    callTail_eq promised valid arguments]

theorem elements_eq {array : UInt64} {first : Nat} {values : List Value}
    (fit : Handle.AllFit sizes (ofObject array :: values.flatMap Value.handles)) :
    @elements ⟨write⟩ sizes array first values = elements sizes array first values := by
  obtain ⟨owner, others⟩ := List.forall_mem_cons.mp fit
  have all := concat_congr fun v member =>
    untagged_eq promised valid (List.forall_mem_flatMap.mp others v member)
  unfold elements
  rw [object_eq promised valid owner, all]

theorem eventModifier_eq {modifier : EventModifier}
    (fit : Handle.AllFit sizes modifier.handles) :
    @eventModifier ⟨write⟩ sizes modifier = eventModifier sizes modifier := by
  cases modifier with
  | count | classMatch => rfl
  | locationOnly l =>
    simp only [eventModifier]
    rw [place_eq promised valid fit]

/-- A request is encoded alike by all writers that keep the promise, if its handles fit. -/
theorem request_eq {α : Type} {request : Request α}
    (fit : Handle.AllFit sizes request.handles) :
    @Request.encode ⟨write⟩ α sizes request = request.encode sizes := by
  cases request with
  | signature | classLoader | methods | superclass =>
    exact type_eq promised valid (List.forall_mem_singleton.mp fit)
  | referenceType | disableCollection | enableCollection | stringValue | threadName |
      resumeThread | visibleClasses | reflectedType =>
    exact object_eq promised valid (List.forall_mem_singleton.mp fit)
  | newArray =>
    simp only [Request.encode]
    rw [type_eq promised valid (List.forall_mem_singleton.mp fit)]
  | invokeStatic | newInstance => exact staticCall_eq promised valid fit
  | invokeInstance => exact instanceCall_eq promised valid fit
  | setElements => exact elements_eq promised valid fit
  | setEvents request =>
    have all : concat (@eventModifier ⟨write⟩ sizes) request.modifiers =
        concat (eventModifier sizes) request.modifiers :=
      concat_congr fun m member =>
        eventModifier_eq promised valid (List.forall_mem_flatMap.mp fit m member)
    simp only [Request.encode, eventRequest]
    rw [all]
  | _ => rfl

theorem item_eq {item : Item} (fit : Handle.AllFit sizes item.handles) :
    @Item.encode ⟨write⟩ sizes item = item.encode sizes := by
  cases item with
  | objectId => exact object_eq promised valid (List.forall_mem_singleton.mp fit)
  | typeId => exact type_eq promised valid (List.forall_mem_singleton.mp fit)
  | methodId => exact method_eq promised valid (List.forall_mem_singleton.mp fit)
  | location => exact place_eq promised valid fit
  | value => exact tagged_eq promised valid fit
  | _ => rfl

end Writing

end Encoded

end Wire

end JavaSnippet
