import JavaSnippet.Proofs.Target.Recording
/-!
The calls that work on a suspension makes: an operation that makes an object is followed by nothing
but a pin.
-/
namespace JavaSnippet.Target

namespace Call

/-- Whether a method of an object is called. -/
def isOnInstance : Call → Bool
  | invokeMethod (.instance _) _ _ _ _ => true
  | _ => false

/-- Whether an object is constructed. -/
def isConstruction : Call → Bool
  | newInstance .. => true
  | _ => false

end Call

/-- A call of a method, whatever came of it. -/
structure Invocation where
  receiver : Receiver
  method : String
  type : MethodType
  arguments : List Value

def Call.invocation? : Call → Option Invocation
  | invokeMethod receiver name type arguments _ => some ⟨receiver, name, type, arguments⟩
  | _ => none

/-- The methods called, in order. -/
def invocations (calls : List Call) : List Invocation := calls.filterMap Call.invocation?

theorem invocations_append (front back : List Call) :
    invocations (front ++ back) = invocations front ++ invocations back :=
  List.filterMap_append

theorem invocations_singleton (c : Call) : invocations [c] = c.invocation?.toList := by
  cases c <;> rfl

/-- Calls that only pin. -/
def OnlyPins (calls : List Call) : Prop := ∀ c ∈ calls, ∃ ref result, c = .pin ref result

/-- Calls that construct nothing and call no method of an object. -/
def Plain (calls : List Call) : Prop :=
  ∀ c ∈ calls, c.isOnInstance = false ∧ c.isConstruction = false

theorem onlyPins_nil : OnlyPins [] := fun _ h => nomatch h

theorem plain_nil : Plain [] := fun _ h => nomatch h

theorem OnlyPins.plain {calls : List Call} (h : OnlyPins calls) : Plain calls := by
  intro c member
  obtain ⟨ref, result, rfl⟩ := h c member
  exact ⟨rfl, rfl⟩

theorem OnlyPins.invocations {calls : List Call} (h : OnlyPins calls) :
    invocations calls = [] := by
  refine List.filterMap_eq_nil_iff.mpr fun c member => ?_
  obtain ⟨ref, result, rfl⟩ := h c member
  rfl

theorem plain_cons {c : Call} {calls : List Call} :
    Plain (c :: calls) ↔ (c.isOnInstance = false ∧ c.isConstruction = false) ∧ Plain calls :=
  List.forall_mem_cons

theorem plain_append {front back : List Call} :
    Plain (front ++ back) ↔ Plain front ∧ Plain back :=
  List.forall_mem_append

theorem Plain.countP {calls : List Call} (h : Plain calls) :
    calls.countP Call.isConstruction = 0 :=
  List.countP_eq_zero.mpr fun c member => by simp [(h c member).2]

namespace Suspension

variable {σ α : Type}

/-- The calls noted. -/
def calls (s : Suspension (σ × List Noted)) : List Call := s.noted.map (·.call)

/-- The work makes calls related to its result by `post`, or to its fault by `fail`. -/
abbrev Makes (x : Act (σ × List Noted) α) (post : α → List Call → Prop)
    (fail : Fault → List Call → Prop) : Prop :=
  Adds (.appending (fun _ => ()) calls) x post fail

/-- An operation with a result, and pins after it. -/
def Performed (operation : Operation α) (result : Except Fault α) (calls : List Call) : Prop :=
  ∃ pins, OnlyPins pins ∧ calls = .of operation result :: pins

/-- What is left of an operation that failed: it was not performed, or it failed itself, or its
object could not be pinned. -/
def Broken (operation : Operation α) (calls : List Call) : Prop :=
  calls = [] ∨ ∃ result, Performed operation result calls

theorem Performed.plain {operation : Operation α} {result : Except Fault α} {made : List Call}
    (h : Performed operation result made)
    (only : (Call.of operation result).isOnInstance = false ∧
      (Call.of operation result).isConstruction = false) : Plain made := by
  obtain ⟨pins, only', rfl⟩ := h
  exact plain_cons.mpr ⟨only, only'.plain⟩

theorem Performed.invocations {operation : Operation α} {result : Except Fault α}
    {made : List Call} (h : Performed operation result made) :
    invocations made = (Call.of operation result).invocation?.toList := by
  obtain ⟨pins, only, rfl⟩ := h
  change Target.invocations ([Call.of operation result] ++ pins) = _
  rw [invocations_append, only.invocations, List.append_nil, invocations_singleton]

theorem Broken.plain {operation : Operation α} {made : List Call} (h : Broken operation made)
    (only : ∀ result, (Call.of operation result).isOnInstance = false ∧
      (Call.of operation result).isConstruction = false) : Plain made := by
  obtain rfl | ⟨result, h⟩ := h
  · exact plain_nil
  · exact h.plain (only result)

variable (target : Target σ)

theorem calls_afterCall (operation : Operation α) (s : Suspension (σ × List Noted)) :
    (afterCall target operation s).calls =
      s.calls ++ [.of operation (target.perform operation s.state.1).result] :=
  List.map_append

theorem makes_send (operation : Operation α) :
    Makes (send target.recording operation)
      (fun a made => made = [.of operation (.ok a)])
      (fun fault made => made = [.of operation (.error fault)]) := by
  refine ⟨?_⟩
  rintro _ s rfl
  have noted := calls_afterCall target operation s
  rw [send_recording]
  cases result : (target.perform operation s.state.1).result with
  | ok a => exact ⟨_, ⟨rfl, noted⟩, by rw [result]⟩
  | error fault => exact ⟨_, ⟨rfl, noted⟩, by rw [result]⟩

theorem makes_ensureActive :
    Makes (ensureActive (σ := σ × List Noted)) (fun _ made => made = [])
      (fun _ made => made = []) := by
  refine ⟨?_⟩
  rintro _ s rfl
  unfold ensureActive
  cases s.cancelled with
  | true => exact ⟨[], Trail.rest _ s, rfl⟩
  | false => exact ⟨[], Trail.rest _ s, rfl⟩

theorem makes_sendActive (operation : Operation α) :
    Makes (sendActive target.recording operation)
      (fun a made => made = [.of operation (.ok a)])
      (fun fault made => made = [] ∨ made = [.of operation (.error fault)]) := by
  refine Adds.bind makes_ensureActive (fun _ => makes_send target operation) ?_ ?_ ?_
  · rintro _ a _ _ rfl rfl
    rfl
  · rintro _ _ rfl
    exact .inl rfl
  · rintro _ fault _ _ rfl rfl
    exact .inr rfl

theorem makes_pin (ref : ObjectRef) :
    Makes (pin target.recording ref) (fun a made => a = ref ∧ OnlyPins made)
      (fun _ made => OnlyPins made) := by
  have sent : Makes (do sendActive target.recording (.pin ref); addPin ref; return ref)
      (fun a made => a = ref ∧ OnlyPins made) (fun _ made => OnlyPins made) := by
    have noted : Makes (do addPin ref; return ref : Act (σ × List Noted) ObjectRef)
        (fun a made => a = ref ∧ made = []) (fun _ _ => False) := by
      refine ⟨?_⟩
      rintro _ s rfl
      exact ⟨[], ⟨rfl, (List.append_nil _).symm⟩, rfl, rfl⟩
    refine Adds.bind (makes_sendActive target _) (fun _ => noted) ?_ ?_ (fun _ _ _ _ _ h => h.elim)
    · rintro _ a _ _ rfl ⟨rfl, rfl⟩
      exact ⟨rfl, fun c member => ⟨_, _, List.mem_singleton.mp member⟩⟩
    · rintro fault _ (rfl | rfl)
      · exact onlyPins_nil
      · exact fun c member => ⟨_, _, List.mem_singleton.mp member⟩
  refine ⟨?_⟩
  rintro _ s rfl
  rw [pin_eq]
  by_cases held : ref ∈ s.pins
  · rw [if_pos held]
    exact ⟨[], Trail.rest _ s, rfl, onlyPins_nil⟩
  · rw [if_neg held]
    exact Adds.run sent s s rfl

theorem makes_pinValue (value : Value) :
    Makes (pinValue target.recording value) (fun a made => a = value ∧ OnlyPins made)
      (fun _ made => OnlyPins made) := by
  cases value with
  | object ref =>
    exact Adds.mono (Adds.give (makes_pin target ref) fun _ => Value.object ref)
      (fun _ _ ⟨_, same, _, pins⟩ => ⟨same, pins⟩) fun _ _ pins => pins
  | void | null | primitive _ => exact Adds.pure ⟨rfl, onlyPins_nil⟩

theorem makes_pinned {operation : Operation α} {keep : α → Act (σ × List Noted) α}
    (pins : ∀ a, Makes (keep a) (fun b made => b = a ∧ OnlyPins made)
      (fun _ made => OnlyPins made)) :
    Makes (sendActive target.recording operation >>= keep)
      (fun a => Performed operation (.ok a)) (fun _ => Broken operation) := by
  refine Adds.bind (makes_sendActive target operation) pins ?_ ?_ ?_
  · rintro a _ _ made rfl ⟨rfl, only⟩
    exact ⟨made, only, rfl⟩
  · rintro fault _ (rfl | rfl)
    · exact .inl rfl
    · exact .inr ⟨_, [], onlyPins_nil, rfl⟩
  · rintro a fault _ made rfl only
    exact .inr ⟨_, made, only, rfl⟩

theorem makes_newInstance (owner : ClassRef) (type : MethodType) (arguments : List Value) :
    Makes (newInstance target.recording owner type arguments)
      (fun a => Performed (.newInstance owner type arguments) (.ok a))
      (fun _ => Broken (.newInstance owner type arguments)) :=
  makes_pinned target (makes_pin target)

theorem makes_newString (text : String) :
    Makes (newString target.recording text) (fun a => Performed (.newString text) (.ok a))
      (fun _ => Broken (.newString text)) :=
  makes_pinned target (makes_pin target)

theorem makes_newArray (arrayType : ClassRef) (length : Nat) :
    Makes (newArray target.recording arrayType length)
      (fun a => Performed (.newArray arrayType length) (.ok a))
      (fun _ => Broken (.newArray arrayType length)) :=
  makes_pinned target (makes_pin target)

theorem makes_invokeMethod (receiver : Receiver) (name : String) (type : MethodType)
    (arguments : List Value) :
    Makes (invokeMethod target.recording receiver name type arguments)
      (fun a => Performed (.invokeMethod receiver name type arguments) (.ok a))
      (fun _ => Broken (.invokeMethod receiver name type arguments)) :=
  makes_pinned target (makes_pinValue target)

theorem Makes.plain {β : Type} {x : Act (σ × List Noted) α} {f : α → Act (σ × List Noted) β}
    (first : Makes x (fun _ => Plain) fun _ => Plain)
    (next : ∀ a, Makes (f a) (fun _ => Plain) fun _ => Plain) :
    Makes (x >>= f) (fun _ => Plain) fun _ => Plain :=
  Adds.bind first next (fun _ _ _ _ front back => plain_append.mpr ⟨front, back⟩)
    (fun _ _ h => h) fun _ _ _ _ front back => plain_append.mpr ⟨front, back⟩

theorem plain_resolveClass (name : String) (loader : Option ObjectRef) :
    Makes (resolveClass target.recording name loader) (fun _ => Plain) fun _ => Plain := by
  refine Adds.mono (makes_sendActive target _) ?_ ?_
  · rintro a _ rfl
    exact plain_cons.mpr ⟨⟨rfl, rfl⟩, plain_nil⟩
  · rintro fault _ (rfl | rfl)
    · exact plain_nil
    · exact plain_cons.mpr ⟨⟨rfl, rfl⟩, plain_nil⟩

theorem plain_newString (text : String) :
    Makes (newString target.recording text) (fun _ => Plain) fun _ => Plain :=
  Adds.mono (makes_newString target text) (fun _ _ h => h.plain ⟨rfl, rfl⟩)
    fun _ _ h => h.plain fun _ => ⟨rfl, rfl⟩

theorem plain_newArray (arrayType : ClassRef) (length : Nat) :
    Makes (newArray target.recording arrayType length) (fun _ => Plain) fun _ => Plain :=
  Adds.mono (makes_newArray target arrayType length) (fun _ _ h => h.plain ⟨rfl, rfl⟩)
    fun _ _ h => h.plain fun _ => ⟨rfl, rfl⟩

theorem plain_invokeStatic (owner : ClassRef) (name : String) (type : MethodType)
    (arguments : List Value) :
    Makes (invokeMethod target.recording (.static owner) name type arguments) (fun _ => Plain)
      fun _ => Plain :=
  Adds.mono (makes_invokeMethod target _ name type arguments) (fun _ _ h => h.plain ⟨rfl, rfl⟩)
    fun _ _ h => h.plain fun _ => ⟨rfl, rfl⟩

end Suspension

end JavaSnippet.Target
