import JavaSnippet.Proofs.Evaluation.Slice
import JavaSnippet.Proofs.Target.Custody
/-!
Custody of what an evaluation makes in the target, and what becomes of an evaluation that is
cancelled. Both follow from the watch of a suspension, which every step of an evaluation keeps to.
-/
namespace JavaSnippet.Evaluation

open Target Compile Suspension

variable {σ : Type}

section Acts

variable (target : Target σ)

theorem orderly_argument (l : Literal) (parameter : FieldType) :
    Orderly (StaticCall.argument target.recording l parameter) := by
  cases l with
  | string text => exact InCustody.bind (orderly_newString target text) fun _ => inCustody_pure rfl
  | int _ | long _ | boolean _ | null => exact inCustody_pure rfl

theorem orderly_makeArguments (literals : List Literal) (parameters : List FieldType) :
    Orderly (StaticCall.makeArguments target.recording literals parameters) := by
  induction literals generalizing parameters with
  | nil => exact inCustody_pure rfl
  | cons l literals ih =>
    cases parameters with
    | nil => exact inCustody_pure rfl
    | cons p parameters =>
      exact InCustody.bind (orderly_argument target l p) fun _ =>
        InCustody.bind (ih parameters) fun _ => inCustody_pure rfl

theorem orderly_run (call : StaticCall) : Orderly (call.run target.recording) :=
  InCustody.bind (orderly_makeArguments target _ _) fun _ => orderly_invokeMethod target _ _ _ _

theorem orderly_defineUnit (bytesClass : ClassRef) (loader : ObjectRef) (unit : CompiledUnit) :
    Orderly (defineUnit target.recording bytesClass loader unit) :=
  InCustody.bind (orderly_newString target _) fun _ =>
    InCustody.bind (orderly_newArray target _ _) fun _ =>
      InCustody.bind (orderly_setElements target _ _ _) fun _ =>
        InCustody.bind (orderly_invokeMethod target _ _ _ _) fun _ => inCustody_pure rfl

end Acts

/-- An evaluation under way, with nothing left to be pinned. -/
structure UnderWay (start : Watch) (p : Progress (σ × List Noted)) : Prop where
  settled : Settled start p.suspension
  incomplete : .completed ∉ p.stages

/-- An evaluation under way that is not cancelled. -/
structure Active (start : Watch) (p : Progress (σ × List Noted)) : Prop where
  underWay : UnderWay start p
  active : p.suspension.cancelled = false

/-- An evaluation that failed. If it was cancelled, it failed for that reason or has an excuse. -/
structure Halted (start : Watch) (excuse : Progress (σ × List Noted) → Prop) (fault : Fault)
    (p : Progress (σ × List Noted)) : Prop where
  ended : Ended start p.suspension
  incomplete : .completed ∉ p.stages
  reason : Heeds .cancelled fault p.suspension ∨ excuse p

section Steps

variable {start : Watch} {excuse : Progress (σ × List Noted) → Prop}

theorem UnderWay.halted {p : Progress (σ × List Noted)} (h : UnderWay start p) {fault : Fault}
    (reason : fault = .cancelled ∨ excuse p) : Halted start excuse fault p where
  ended := h.settled.ended
  incomplete := h.incomplete
  reason := reason.imp_left fun same _ _ => same

/-- An evaluation that is not cancelled may fail for any reason. -/
theorem Active.halted {p : Progress (σ × List Noted)} (h : Active start p) (fault : Fault) :
    Halted start excuse fault p where
  ended := h.underWay.settled.ended
  incomplete := h.underWay.incomplete
  reason := .inl fun cancelled _ => by
    rw [h.active] at cancelled
    cases cancelled

theorem active_enter (stage : Stage) (early : stage ≠ .completed) :
    Meets (UnderWay start) (Work.enter (σ := σ × List Noted) stage) (fun _ => Active start)
      (Halted start excuse) := by
  refine (meets_enter stage).mono (fun _ h => h) ?_ fun _ _ ⟨underWay, same⟩ =>
    underWay.halted (.inl same)
  rintro _ _ ⟨q, underWay, active, rfl⟩
  refine ⟨⟨underWay.settled, fun member => ?_⟩, active⟩
  rcases List.mem_append.mp member with before | last
  · exact underWay.incomplete before
  · exact early (List.mem_singleton.mp last).symm

theorem active_ofExcept {α : Type} (result : Except Fault α) :
    Meets (Active start) (Work.ofExcept (σ := σ × List Noted) result) (fun _ => Active start)
      (Halted start excuse) :=
  (meets_ofExcept result).mono (fun _ h => h) (fun _ _ h => h.1) fun fault _ h =>
    h.1.halted fault

/-- Work on the target keeps an evaluation under way, whatever it needs besides. -/
theorem underWay_onTarget {α : Type} {classify : Target.Fault → Fault}
    (keeps : classify .cancelled = .cancelled) {x : Act (σ × List Noted) α}
    {needs : Suspension (σ × List Noted) → Prop}
    (h : Meets (fun s => Settled start s ∧ needs s) x (fun _ => Settled start) fun fault s =>
      Ended start s ∧ Heeds .cancelled fault s) :
    Meets (fun p => UnderWay start p ∧ needs p.suspension) (Work.onTarget classify x)
      (fun _ => UnderWay start) (Halted start excuse) := by
  rintro p ⟨underWay, needed⟩
  have step := h p.suspension ⟨underWay.settled, needed⟩
  unfold Work.onTarget
  cases done : x p.suspension with
  | mk result t =>
    rw [done] at step
    cases result with
    | ok a => exact ⟨step, underWay.incomplete⟩
    | error fault =>
      refine ⟨step.1, underWay.incomplete, .inl fun cancelled last => ?_⟩
      rw [step.2 cancelled last, keeps]

theorem underWay_orderly {α : Type} {classify : Target.Fault → Fault}
    (keeps : classify .cancelled = .cancelled) {x : Act (σ × List Noted) α} (h : Orderly x) :
    Meets (UnderWay start) (Work.onTarget classify x) (fun _ => UnderWay start)
      (Halted start excuse) := by
  have needless : Meets (fun s => Settled start s ∧ True) x (fun _ => Settled start)
      fun fault s => Ended start s ∧ Heeds .cancelled fault s :=
    (h start).mono (fun _ h => h.1) (fun _ _ h => h) fun _ _ h => h
  exact (underWay_onTarget keeps needless).mono (fun _ h => ⟨h, trivial⟩) (fun _ _ h => h)
    fun _ _ h => h

variable (target : Target σ)

/-- The parent of the loader is asked for without a check, so the work must not be cancelled. -/
theorem underWay_makeLoader (settings : Settings) :
    Meets (Active start) (Work.onTarget .ofEnvironment (makeLoader target.recording settings))
      (fun _ => UnderWay start) (Halted start excuse) := by
  have made : Meets (fun s => Settled start s ∧ s.cancelled = false)
      (makeLoader target.recording settings) (fun _ => Settled start)
      fun fault s => Ended start s ∧ Heeds .cancelled fault s :=
    (meets_send target (fun _ => rfl) (fun _ => rfl) fun _ => rfl).bind fun _ =>
      (InCustody.bind (orderly_resolveClass target _ _) fun _ =>
        InCustody.bind (orderly_resolveClass target _ _) fun _ =>
          InCustody.bind (orderly_newArray target _ _) fun _ =>
            orderly_newInstance target _ _ _) start
  exact (underWay_onTarget rfl made).mono (fun _ h => ⟨h.underWay, h.active⟩) (fun _ _ h => h)
    fun _ _ h => h

/-- A class too large for an `int` is an excuse. -/
theorem underWay_defineUnits (bytesClass : ClassRef) (loader : ObjectRef)
    (units : List CompiledUnit) :
    Meets (UnderWay start) (defineUnits target.recording bytesClass loader units)
      (fun _ => UnderWay start)
      (Halted start fun _ => ∃ unit ∈ units, intLimit ≤ unit.bytes.length) := by
  induction units with
  | nil => exact Meets.pure fun _ underWay => underWay
  | cons unit units ih =>
    unfold defineUnits
    by_cases large : intLimit ≤ unit.bytes.length
    · rw [if_pos large]
      exact Meets.raise fun _ underWay => underWay.halted (.inr ⟨unit, List.mem_cons_self, large⟩)
    · rw [if_neg large]
      refine (underWay_orderly rfl (orderly_defineUnit target bytesClass loader unit)).bind
        fun _ => ih.mono (fun _ h => h) (fun _ _ h => h) ?_
      refine fun _ _ h => ⟨h.ended, h.incomplete, h.reason.imp_right ?_⟩
      rintro ⟨one, member, large⟩
      exact ⟨one, List.mem_cons_of_mem unit member, large⟩

theorem underWay_defineClasses (loader : ObjectRef) (units : List CompiledUnit) (name : String) :
    Meets (UnderWay start) (defineClasses target.recording loader units name)
      (fun _ => UnderWay start)
      (Halted start fun _ => ∃ unit ∈ units, intLimit ≤ unit.bytes.length) :=
  (underWay_orderly rfl (orderly_resolveClass target _ _)).bind fun bytesClass =>
    (underWay_defineUnits target bytesClass loader units).bind fun _ =>
      underWay_orderly rfl (orderly_resolveClass target _ _)

end Steps

section Run

variable (compiler : Compiler) (settings : Settings) (target : Target σ) (request : Request)
  {start : Watch}

/-- The units compile for a version, and the generated classes can be rewritten. A class too large
to be handed to the target is a failure of the compiler. -/
def Prepares (version : ClassFile.Version) : Prop :=
  ∃ units generated, compiler request.units version = .ok units ∧
    generatedUnits settings units = .ok generated ∧
    ∀ unit ∈ generated, unit.bytes.length < intLimit

/-- The version was told, and the units are not fit for it. -/
def Unprepared (p : Progress (σ × List Noted)) : Prop :=
  ∃ told, .platformVersion told ∈ p.calls ∧
    ¬ Prepares compiler settings request (versionFor settings told)

/-- The version to compile for was told. -/
def Told (version : ClassFile.Version) (p : Progress (σ × List Noted)) : Prop :=
  ∃ told, .platformVersion told ∈ p.calls ∧ version = versionFor settings told

theorem underWay_targetVersion :
    Meets (Active start) (targetVersion target.recording settings)
      (fun version p => UnderWay start p ∧ Told settings version p)
      (Halted start (Unprepared compiler settings request)) := by
  refine (meets_targetVersion target settings).mono (fun _ h => h) ?_ fun _ _ h => h
  rintro version _ ⟨q, ⟨underWay, active⟩, rfl, same⟩
  exact ⟨⟨Owes.call target .platformVersion underWay.settled active fun _ => rfl,
    underWay.incomplete⟩, _, by simp [Progress.afterCall, Progress.calls, calls,
      noted_afterCall, Call.of], same⟩

/-- The generated units are those of the version told. -/
def Rewritten (generated : List CompiledUnit) (p : Progress (σ × List Noted)) : Prop :=
  ∃ version units, Told settings version p ∧ compiler request.units version = .ok units ∧
    generatedUnits settings units = .ok generated

variable {compiler settings request} in
theorem Told.unprepared {version : ClassFile.Version} {p : Progress (σ × List Noted)}
    (h : Told settings version p) (unfit : ¬ Prepares compiler settings request version) :
    Unprepared compiler settings request p := by
  obtain ⟨told, asked, rfl⟩ := h
  exact ⟨told, asked, unfit⟩

theorem underWay_compiled (version : ClassFile.Version) :
    Meets (fun p => UnderWay start p ∧ Told settings version p)
      (Work.ofExcept (σ := σ × List Noted) ((compiler request.units version).mapError .ofCompile))
      (fun units p => (UnderWay start p ∧ Told settings version p) ∧
        compiler request.units version = .ok units)
      (Halted start (Unprepared compiler settings request)) := by
  refine (meets_ofExcept _).mono (fun _ h => h)
    (fun _ _ ⟨told, compiled⟩ => ⟨told, except_mapError_eq_ok.mp compiled⟩) ?_
  rintro fault p ⟨⟨underWay, told⟩, failed⟩
  refine underWay.halted (.inr (told.unprepared ?_))
  rintro ⟨units, -, compiled, -⟩
  rw [except_mapError_eq_ok.mpr compiled] at failed
  cases failed

theorem underWay_rewritten (version : ClassFile.Version) (units : List CompiledUnit) :
    Meets
      (fun p => (UnderWay start p ∧ Told settings version p) ∧
        compiler request.units version = .ok units)
      (Work.ofExcept (σ := σ × List Noted) (generatedUnits settings units))
      (fun generated p => UnderWay start p ∧ Rewritten compiler settings request generated p)
      (Halted start (Unprepared compiler settings request)) := by
  refine (meets_ofExcept _).mono (fun _ h => h)
    (fun _ _ ⟨⟨⟨underWay, told⟩, compiled⟩, rewritten⟩ =>
      ⟨underWay, version, units, told, compiled, rewritten⟩) ?_
  rintro fault p ⟨⟨⟨underWay, told⟩, compiled⟩, failed⟩
  refine underWay.halted (.inr (told.unprepared ?_))
  rintro ⟨units', generated, compiled', rewritten, -⟩
  obtain rfl := Except.ok.inj (compiled.symm.trans compiled')
  rw [rewritten] at failed
  cases failed

/-- The version stays told while classes are defined. -/
theorem rewritten_defineClasses (loader : ObjectRef) (generated : List CompiledUnit)
    (name : String) :
    Meets (Rewritten compiler settings request generated)
      (defineClasses target.recording loader generated name) (fun _ _ => True)
      fun _ => Rewritten compiler settings request generated := by
  refine Adds.meets (makes_defineClasses target loader generated name)
    (fun _ _ _ _ _ _ _ => trivial) ?_
  rintro p q _ _ ⟨version, units, ⟨told, asked, same⟩, compiled, rewritten⟩ ⟨-, added⟩ -
  exact ⟨version, units, ⟨told, added ▸ List.mem_append_left _ asked, same⟩, compiled, rewritten⟩

theorem underWay_defined (loader : ObjectRef) (generated : List CompiledUnit) (name : String) :
    Meets (fun p => UnderWay start p ∧ Rewritten compiler settings request generated p)
      (defineClasses target.recording loader generated name) (fun _ => UnderWay start)
      (Halted start (Unprepared compiler settings request)) := by
  refine ((underWay_defineClasses target loader generated name).and
    (rewritten_defineClasses compiler settings target request loader generated name)).mono
    (fun _ h => h) (fun _ _ h => h.1) ?_
  rintro fault p ⟨halted, version, units, told, compiled, rewritten⟩
  refine ⟨halted.ended, halted.incomplete, halted.reason.imp_right fun ⟨unit, member, large⟩ => ?_⟩
  refine told.unprepared ?_
  rintro ⟨units', generated', compiled', rewritten', small⟩
  obtain rfl := Except.ok.inj (compiled.symm.trans compiled')
  obtain rfl := Except.ok.inj (rewritten.symm.trans rewritten')
  exact Nat.not_le_of_lt (small unit member) large

/-- Every step of an evaluation keeps to the watch, and the last one is passed only by an
evaluation that is not cancelled. -/
theorem underWay_steps (start : Watch) :
    Meets (UnderWay start) (steps compiler staticCalls settings target.recording request)
      (fun _ p => Ended start p.suspension ∧ p.suspension.cancelled = false)
      (Halted start (Unprepared compiler settings request)) := by
  have active : Meets (UnderWay start) (Work.checkActive (σ := σ × List Noted))
      (fun _ => Active start) (Halted start (Unprepared compiler settings request)) :=
    meets_checkActive.mono (fun _ h => h) (fun _ _ ⟨underWay, active⟩ => ⟨underWay, active⟩)
      fun _ _ ⟨underWay, same⟩ => underWay.halted (.inl same)
  refine active.bind fun _ => (underWay_makeLoader target settings).bind fun loader => ?_
  refine (active_enter _ (by decide)).bind fun _ => ?_
  refine (underWay_targetVersion compiler settings target request).bind fun version => ?_
  refine (underWay_compiled compiler settings request version).bind fun units => ?_
  refine (underWay_rewritten compiler settings request version units).bind fun generated => ?_
  refine (meets_checkActive.mono (fun _ h => h) (fun _ _ h => h.1) ?_).bind fun _ => ?_
  · exact fun _ _ h => h.1.1.halted (.inl h.2)
  refine (underWay_defined compiler settings target request loader generated _).bind fun owner => ?_
  refine (active_enter _ (by decide)).bind fun _ => (active_ofExcept _).bind fun file => ?_
  refine (active_ofExcept _).bind fun call => ?_
  refine ((active_enter .callResolved (by decide)).mono (fun _ h => h.underWay)
    (fun _ _ h => h.underWay) fun _ _ h => h).bind fun _ => ?_
  refine (underWay_orderly rfl (orderly_run target call)).bind fun value => ?_
  refine ((meets_enter .completed).mono (fun _ h => h) (fun _ _ h => h) ?_).bind fun _ =>
    Meets.pure ?_
  · exact fun _ _ ⟨underWay, same⟩ => underWay.halted (.inl same)
  · rintro _ ⟨q, underWay, active, rfl⟩
    exact ⟨underWay.settled.ended, active⟩

/-- The evaluation of a static call, with its calls noted, keeps to the watch to its end. -/
theorem evaluate_ended (s : Suspension σ) :
    Ended ⟨s.pins, s.cancelled, none, false⟩
        (evaluateStatic compiler settings target.recording request s.recorded).2 ∧
      ((evaluateStatic compiler settings target request s).2.cancelled = true →
        ∃ fault, (evaluateStatic compiler settings target request s).1.result = .error fault ∧
          .completed ∉ (evaluateStatic compiler settings target request s).1.stages ∧
          ((LastSucceeded (performed compiler settings target request s) → fault = .cancelled) ∨
            ∃ told, .platformVersion told ∈
                (performed compiler settings target request s).map (·.call) ∧
              ¬ Prepares compiler settings request (versionFor settings told))) := by
  rw [evaluate_recording compiler settings target request s]
  have run := underWay_steps compiler settings target request
    ⟨s.pins, s.cancelled, none, false⟩ ⟨[.idle], s.recorded⟩
    ⟨settled_recorded s, (by decide : Stage.completed ∉ [Stage.idle])⟩
  simp only [performed, evaluateStatic, evaluate, Work.run]
  cases done : steps compiler staticCalls settings target.recording request
      ⟨[.idle], s.recorded⟩ with
  | mk result p =>
    rw [done] at run
    cases result with
    | ok value =>
      refine ⟨run.1, fun cancelled => ?_⟩
      have active : p.suspension.cancelled = false := run.2
      change p.suspension.cancelled = true at cancelled
      rw [active] at cancelled
      cases cancelled
    | error fault =>
      refine ⟨run.ended, fun cancelled => ⟨fault, rfl, ?_, ?_⟩⟩
      · exact fun member => run.incomplete (by simpa using member)
      · exact run.reason.imp_left fun heeds => heeds cancelled

/-- What an evaluation makes is pinned before anything else is called. The pins of the suspension
that is left are those of the calls. -/
theorem evaluate_pinsAtOnce (s : Suspension σ) :
    (evaluateStatic compiler settings target request s).2.pins =
        pinnedBy s.pins (performed compiler settings target request s) ∧
      PinsAtOnce s.pins s.cancelled (performed compiler settings target request s) := by
  have ended := (evaluate_ended compiler settings target request s).1
  refine ⟨?_, ended.pinsAtOnce⟩
  rw [evaluate_recording]
  exact ended.pins.symm.trans (Watch.after_pins _ _)

end Run

end JavaSnippet.Evaluation
