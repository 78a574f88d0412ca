import JavaSnippet.Proofs.Target.Calls
import JavaSnippet.Proofs.Target.Recording
/-!
The release of pins. Whatever is done with a suspension, and whatever the target fails to do, each
pin is followed by one unpin of the same object, in the order in which the objects were pinned.
-/
namespace JavaSnippet.Target

/-- The object that the call was to unpin, whether it did or not. -/
def Call.unpinned? : Call → Option ObjectRef
  | unpin ref _ => some ref
  | _ => none

/-- How calls change what is held. An object is pinned only while it is not held, and the one that
is unpinned is the one held longest. -/
inductive Turnover : List ObjectRef → List Call → List ObjectRef → Prop where
  | none (held : List ObjectRef) : Turnover held [] held
  | pin {held left : List ObjectRef} {calls : List Call} {ref : ObjectRef} (fresh : ref ∉ held)
    (rest : Turnover (held ++ [ref]) calls left) :
    Turnover held (.pin ref (.ok ()) :: calls) left
  | unpin {held left : List ObjectRef} {calls : List Call} {ref : ObjectRef}
    {result : Except Fault Unit} (rest : Turnover held calls left) :
    Turnover (ref :: held) (.unpin ref result :: calls) left
  | other {held left : List ObjectRef} {calls : List Call} {c : Call} (pinless : c.pinned? = .none)
    (kept : c.unpinned? = .none) (rest : Turnover held calls left) :
    Turnover held (c :: calls) left

namespace Turnover

variable {held mid left : List ObjectRef} {front back calls : List Call}

theorem append (first : Turnover held front mid) (next : Turnover mid back left) :
    Turnover held (front ++ back) left := by
  induction first with
  | none => exact next
  | pin fresh _ ih => exact .pin fresh (ih next)
  | unpin _ ih => exact .unpin (ih next)
  | other pinless kept _ ih => exact .other pinless kept (ih next)

theorem single {c : Call} (pinless : c.pinned? = .none) (kept : c.unpinned? = .none) :
    Turnover held [c] held :=
  .other pinless kept (.none held)

/-- What is held first, and then pinned, is unpinned in that order, or held last. -/
theorem balance (h : Turnover held calls left) :
    held ++ calls.filterMap Call.pinned? = calls.filterMap Call.unpinned? ++ left := by
  induction h with
  | none held => rw [List.filterMap_nil, List.filterMap_nil, List.append_nil, List.nil_append]
  | pin _ _ ih =>
    simp only [List.filterMap_cons, Call.pinned?, Call.unpinned?]
    rw [← ih, List.append_assoc, List.singleton_append]
  | unpin _ ih =>
    simp only [List.filterMap_cons, Call.pinned?, Call.unpinned?]
    rw [List.cons_append, List.cons_append, ih]
  | other pinless kept _ ih =>
    rw [List.filterMap_cons_none pinless, List.filterMap_cons_none kept, ih]

theorem nodup (h : Turnover held calls left) (distinct : held.Nodup) : left.Nodup := by
  induction h with
  | none => exact distinct
  | pin fresh _ ih =>
    refine ih (List.nodup_append.mpr ⟨distinct, List.pairwise_singleton _ _, ?_⟩)
    rintro held member ref same rfl
    exact fresh (List.mem_singleton.mp same ▸ member)
  | unpin _ ih => exact ih (List.nodup_cons.mp distinct).2
  | other _ _ _ ih => exact ih distinct

theorem split (h : Turnover held (front ++ back) left) : ∃ mid, Turnover held front mid := by
  induction front generalizing held with
  | nil => exact ⟨held, .none held⟩
  | cons c front ih =>
    rw [List.cons_append] at h
    cases h with
    | pin fresh rest =>
      obtain ⟨mid, first⟩ := ih rest
      exact ⟨mid, .pin fresh first⟩
    | unpin rest =>
      obtain ⟨mid, first⟩ := ih rest
      exact ⟨mid, .unpin first⟩
    | other pinless kept rest =>
      obtain ⟨mid, first⟩ := ih rest
      exact ⟨mid, .other pinless kept first⟩

end Turnover

/-- The objects that were pinned are unpinned, each of them once and later than it was pinned, and
all in the same order. -/
structure ReleasesOnce (calls : List Call) : Prop where
  all : calls.filterMap Call.unpinned? = calls.filterMap Call.pinned?
  later : ∀ front, front <+: calls →
    front.filterMap Call.unpinned? <+: front.filterMap Call.pinned?

theorem Turnover.releasesOnce {calls : List Call} (h : Turnover [] calls []) :
    ReleasesOnce calls where
  all := by rw [← List.append_nil (calls.filterMap _), ← h.balance, List.nil_append]
  later := by
    rintro front ⟨back, rfl⟩
    obtain ⟨mid, first⟩ := h.split
    exact ⟨mid, first.balance.symm⟩

namespace Suspension

variable {σ : Type}

/-- What happens to a suspension: it is used, or the target changes past it. -/
inductive Moment (σ : Type) where
  | use (work : Use)
  | past (change : σ → σ)

/-- The suspension after the moment. -/
def Moment.run (target : Target σ) : Moment σ → Suspension σ → Suspension σ
  | use work, s => work.run target s
  | past change, s => { s with state := change s.state }

/-- The suspension after moments in order. -/
def live (target : Target σ) (moments : List (Moment σ)) (s : Suspension σ) : Suspension σ :=
  moments.foldl (fun s m => m.run target s) s

/-- How a suspension ends. -/
inductive Ending where
  | resumed
  | dropped

/-- The suspension at its end. One that was resumed is dropped as well. -/
def Ending.run (target : Target σ) : Ending → Suspension σ → Suspension σ
  | resumed, s => (releasePins target (resume target s).2).2
  | dropped, s => (releasePins target s).2

section Plain

variable (target : Target σ)

theorem releasePins_eq (s : Suspension σ) :
    releasePins target s = unpinAll target s.pins { s with pins := [] } :=
  rfl

/-- The thread is let run whether or not the pins were released. -/
theorem resume_eq (s : Suspension σ) :
    (resume target s).2 = (send target .resume (releasePins target s).2).2 := by
  unfold resume
  cases releasePins target s with
  | mk released t =>
    cases sent : send target .resume t with
    | mk resumed u => cases resumed <;> simp only [sent]

theorem plain_unpinAll (refs : List ObjectRef) (s : Suspension (σ × List Noted)) :
    (unpinAll target.recording refs s).2.plain = (unpinAll target refs s.plain).2 := by
  induction refs generalizing s with
  | nil => rfl
  | cons ref refs ih =>
    rw [unpinAll_cons, unpinAll_cons, ih]
    rfl

theorem plain_releasePins (s : Suspension (σ × List Noted)) :
    (releasePins target.recording s).2.plain = (releasePins target s.plain).2 :=
  plain_unpinAll target s.pins { s with pins := [] }

/-- Noting the calls of a use changes nothing else. -/
theorem plain_run (work : Use) (s : Suspension (σ × List Noted)) :
    (work.run target.recording s).plain = work.run target s.plain := by
  cases work with
  | pin ref => exact (congrArg Prod.snd (mirrors_pin target ref s)).symm
  | pinValue value => exact (congrArg Prod.snd (mirrors_pinValue target value s)).symm
  | resolveClass name loader =>
    exact (congrArg Prod.snd (mirrors_sendActive target (.resolveClass name loader) s)).symm
  | newInstance owner type arguments =>
    exact (congrArg Prod.snd (mirrors_newInstance target owner type arguments s)).symm
  | invokeMethod receiver name type arguments =>
    exact (congrArg Prod.snd (mirrors_invokeMethod target receiver name type arguments s)).symm
  | newString text => exact (congrArg Prod.snd (mirrors_newString target text s)).symm
  | newArray arrayType length =>
    exact (congrArg Prod.snd (mirrors_newArray target arrayType length s)).symm
  | setElements array first values =>
    exact (congrArg Prod.snd (mirrors_sendActive target (.setElements array first values) s)).symm
  | releasePins => exact plain_releasePins target s
  | cancel => rfl

/-- The moment for a target that notes its calls. What goes past the suspension is not noted. -/
def Moment.recorded : Moment σ → Moment (σ × List Noted)
  | use work => use work
  | past change => past fun s => (change s.1, s.2)

theorem plain_live (moments : List (Moment σ)) (s : Suspension (σ × List Noted)) :
    (live target.recording (moments.map .recorded) s).plain = live target moments s.plain := by
  unfold live
  induction moments generalizing s with
  | nil => rfl
  | cons m moments ih =>
    rw [List.map_cons, List.foldl_cons, List.foldl_cons, ih]
    cases m with
    | use work =>
      have same : (Moment.run target.recording (.recorded (.use work)) s).plain =
          Moment.run target (.use work) s.plain := plain_run target work s
      rw [same]
    | past change => rfl

theorem plain_ending (ending : Ending) (s : Suspension (σ × List Noted)) :
    (ending.run target.recording s).plain = ending.run target s.plain := by
  cases ending with
  | resumed =>
    have resumed : (resume target.recording s).2.plain = (resume target s.plain).2 := by
      rw [resume_eq, resume_eq, ← plain_releasePins]
      rfl
    unfold Ending.run
    rw [plain_releasePins, resumed]
  | dropped => exact plain_releasePins target s

end Plain

/-- What is held is turned over by the calls. -/
def holding : Trail (Suspension (σ × List Noted)) Call where
  leads s new t := t.calls = s.calls ++ new ∧ Turnover s.pins new t.pins
  rest s := ⟨(List.append_nil _).symm, .none s.pins⟩
  follow := fun ⟨noted, first⟩ ⟨more, next⟩ =>
    ⟨by rw [more, noted, List.append_assoc], first.append next⟩

/-- Whatever the work comes to, it turns over what is held. -/
abbrev Holds {α : Type} (x : Act (σ × List Noted) α) : Prop :=
  Adds holding x (fun _ _ => True) fun _ _ => True

variable {α : Type} (target : Target σ)

theorem Holds.of_leads {x : Act (σ × List Noted) α}
    (h : ∀ s, ∃ new, holding.leads s new (x s).2) : Holds x := by
  refine ⟨?_⟩
  rintro _ s rfl
  obtain ⟨new, leads⟩ := h s
  cases done : x s with
  | mk result t =>
    rw [done] at leads
    cases result <;> exact ⟨new, leads, trivial⟩

theorem Holds.bind {β : Type} {x : Act (σ × List Noted) α} {f : α → Act (σ × List Noted) β}
    (first : Holds x) (next : ∀ a, Holds (f a)) : Holds (x >>= f) :=
  Adds.bind first next (fun _ _ _ _ _ _ => trivial) (fun _ _ _ => trivial)
    fun _ _ _ _ _ _ => trivial

/-- The operation is no pin and no unpin. -/
def Pinless (operation : Operation α) : Prop :=
  ∀ result, (Call.of operation result).pinned? = none ∧
    (Call.of operation result).unpinned? = none

theorem leads_afterCall (operation : Operation α) (pinless : Pinless operation)
    (s : Suspension (σ × List Noted)) :
    ∃ new, holding.leads s new (afterCall target operation s) :=
  ⟨_, calls_afterCall target operation s, .single (pinless _).1 (pinless _).2⟩

theorem holds_sendActive {operation : Operation α} (pinless : Pinless operation) :
    Holds (sendActive target.recording operation) := by
  refine Holds.of_leads fun s => ?_
  rw [sendActive_recording]
  split
  · exact ⟨[], Trail.rest _ s⟩
  · exact leads_afterCall target operation pinless s

/-- An object is held from the moment its pin succeeds. -/
theorem holds_pin (ref : ObjectRef) : Holds (pin target.recording ref) := by
  refine Holds.of_leads fun s => ?_
  rw [pin_eq]
  by_cases held : ref ∈ s.pins
  · rw [if_pos held]
    exact ⟨[], Trail.rest _ s⟩
  · rw [if_neg held, ExceptState.bind_apply, sendActive_recording]
    cases active : s.cancelled with
    | true => exact ⟨[], Trail.rest _ s⟩
    | false =>
      have noted := calls_afterCall target (.pin ref) s
      cases result : (target.perform (.pin ref) s.state.1).result with
      | error fault =>
        rw [result] at noted
        exact ⟨_, noted, .single rfl rfl⟩
      | ok done =>
        rw [result] at noted
        exact ⟨_, noted, .pin held (.none _)⟩

theorem holds_pinValue (value : Value) : Holds (pinValue target.recording value) := by
  cases value with
  | object ref => exact (holds_pin target ref).bind fun _ => Adds.pure trivial
  | void | null | primitive _ => exact Adds.pure trivial

theorem leads_unpinAll (refs : List ObjectRef) (s : Suspension (σ × List Noted)) :
    ∃ new, (unpinAll target.recording refs s).2.calls = s.calls ++ new ∧
      Turnover refs new [] ∧ (unpinAll target.recording refs s).2.pins = s.pins := by
  induction refs generalizing s with
  | nil => exact ⟨[], (List.append_nil _).symm, .none [], rfl⟩
  | cons ref refs ih =>
    obtain ⟨new, noted, turned, same⟩ := ih (afterCall target (.unpin ref) s)
    rw [unpinAll_cons, send_recording]
    refine ⟨.unpin ref (target.perform (.unpin ref) s.state.1).result :: new, ?_, .unpin turned,
      same⟩
    rw [noted, calls_afterCall, List.append_assoc]
    rfl

theorem leads_releasePins (s : Suspension (σ × List Noted)) :
    (∃ new, holding.leads s new (releasePins target.recording s).2) ∧
      (releasePins target.recording s).2.pins = [] := by
  obtain ⟨new, noted, turned, same⟩ := leads_unpinAll target s.pins { s with pins := [] }
  refine ⟨⟨new, noted, ?_⟩, same⟩
  rw [releasePins_eq, same]
  exact turned

theorem leads_use (work : Use) (s : Suspension (σ × List Noted)) :
    ∃ new, holding.leads s new (work.run target.recording s) := by
  have done {β : Type} {x : Act (σ × List Noted) β} (h : Holds x) :
      ∃ new, holding.leads s new (x s).2 := by
    obtain ⟨new, leads, -⟩ : ∃ new, holding.leads s new (x s).2 ∧ True := Adds.leads h s
    exact ⟨new, leads⟩
  have made {β : Type} {operation : Operation β} {keep : β → Act (σ × List Noted) β}
      (pinless : Pinless operation) (pins : ∀ b, Holds (keep b)) :
      Holds (sendActive target.recording operation >>= keep) :=
    (holds_sendActive target pinless).bind pins
  cases work with
  | pin ref => exact done (holds_pin target ref)
  | pinValue value => exact done (holds_pinValue target value)
  | resolveClass name loader => exact done (holds_sendActive target fun _ => ⟨rfl, rfl⟩)
  | newInstance owner type arguments => exact done (made (fun _ => ⟨rfl, rfl⟩) (holds_pin target))
  | invokeMethod receiver name type arguments =>
    exact done (made (fun _ => ⟨rfl, rfl⟩) (holds_pinValue target))
  | newString text => exact done (made (fun _ => ⟨rfl, rfl⟩) (holds_pin target))
  | newArray arrayType length => exact done (made (fun _ => ⟨rfl, rfl⟩) (holds_pin target))
  | setElements array first values => exact done (holds_sendActive target fun _ => ⟨rfl, rfl⟩)
  | releasePins => exact (leads_releasePins target s).1
  | cancel => exact ⟨[], (List.append_nil _).symm, .none _⟩

/-- One moment turns over what is held, and moments in order do. -/
theorem leads_moment (m : Moment σ) (s : Suspension (σ × List Noted)) :
    ∃ new, holding.leads s new (m.recorded.run target.recording s) := by
  cases m with
  | use work => exact leads_use target work s
  | past change => exact ⟨[], (List.append_nil _).symm, .none _⟩

theorem leads_live (moments : List (Moment σ)) (s : Suspension (σ × List Noted)) :
    ∃ new, holding.leads s new (live target.recording (moments.map .recorded) s) := by
  induction moments generalizing s with
  | nil => exact ⟨[], Trail.rest _ s⟩
  | cons m moments ih =>
    obtain ⟨front, first⟩ := leads_moment target m s
    obtain ⟨back, next⟩ := ih (m.recorded.run target.recording s)
    exact ⟨front ++ back, Trail.follow _ first next⟩

theorem leads_ending (ending : Ending) (s : Suspension (σ × List Noted)) :
    (∃ new, holding.leads s new (ending.run target.recording s)) ∧
      (ending.run target.recording s).pins = [] := by
  cases ending with
  | dropped => exact leads_releasePins target s
  | resumed =>
    obtain ⟨⟨front, first⟩, -⟩ := leads_releasePins target s
    obtain ⟨new, next⟩ := leads_afterCall target .resume (fun _ => ⟨rfl, rfl⟩)
      (releasePins target.recording s).2
    have resumed : holding.leads s (front ++ new) (resume target.recording s).2 := by
      rw [resume_eq, send_recording]
      exact Trail.follow _ first next
    obtain ⟨⟨back, last⟩, empty⟩ :=
      leads_releasePins target (resume target.recording s).2
    exact ⟨⟨front ++ new ++ back, Trail.follow _ resumed last⟩, empty⟩

/-- The calls that a suspension makes from now to its end. -/
def callsToEnd (moments : List (Moment σ)) (ending : Ending) (s : Suspension σ) : List Call :=
  (ending.run target.recording (live target.recording (moments.map .recorded) s.recorded)).calls

/-- A suspension that begins with nothing pinned never holds an object twice, whatever happens to
it and whatever its target does. At its end nothing is pinned, and each object that was pinned has
been unpinned once. -/
theorem pins_released_once (moments : List (Moment σ)) (ending : Ending) (state : σ)
    (cancelled : Bool) :
    (∀ before, before <+: moments → (live target before ⟨state, [], cancelled⟩).pins.Nodup) ∧
      (ending.run target (live target moments ⟨state, [], cancelled⟩)).pins = [] ∧
      ReleasesOnce (callsToEnd target moments ending ⟨state, [], cancelled⟩) := by
  have started (moments : List (Moment σ)) :
      ∃ new, holding.leads (recorded ⟨state, [], cancelled⟩) new
        (live target.recording (moments.map .recorded) (recorded ⟨state, [], cancelled⟩)) :=
    leads_live target moments _
  have shown (moments : List (Moment σ)) := plain_live target moments
    (recorded ⟨state, [], cancelled⟩)
  obtain ⟨front, first⟩ := started moments
  obtain ⟨⟨back, last⟩, empty⟩ := leads_ending target ending
    (live target.recording (moments.map .recorded) (recorded ⟨state, [], cancelled⟩))
  refine ⟨fun before _ => ?_, ?_, ?_⟩
  · obtain ⟨new, -, turned⟩ := started before
    have same : (live target before ⟨state, [], cancelled⟩).pins = _ :=
      congrArg Suspension.pins (shown before).symm
    rw [same]
    exact turned.nodup List.nodup_nil
  · have same := plain_ending target ending
      (live target.recording (moments.map .recorded) (recorded ⟨state, [], cancelled⟩))
    rw [shown] at same
    have same' : (ending.run target (live target moments ⟨state, [], cancelled⟩)).pins = _ :=
      congrArg Suspension.pins same.symm
    rw [same']
    exact empty
  · obtain ⟨noted, turned⟩ := Trail.follow _ first last
    have made : callsToEnd target moments ending ⟨state, [], cancelled⟩ = front ++ back := noted
    rw [made]
    refine Turnover.releasesOnce ?_
    rw [empty] at turned
    exact turned

end Suspension

end JavaSnippet.Target
