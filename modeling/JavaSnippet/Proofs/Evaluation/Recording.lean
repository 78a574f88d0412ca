import JavaSnippet.Evaluation.Evaluate
import JavaSnippet.Proofs.Target.Recording
/-!
The calls that an evaluation makes on the target. Noting them changes neither the outcome nor the
suspension that is left. Besides its work on the target, an evaluation enters stages and passes
checks, only while the work is not cancelled.
-/
namespace JavaSnippet.Evaluation

open Target Compile

variable {σ : Type}

/-- The progress without the notes. -/
def Progress.plain (p : Progress (σ × List Noted)) : Progress σ :=
  ⟨p.stages, p.suspension.plain⟩

section

variable (target : Target σ)

theorem mirrors_onTarget {α : Type} {x : Suspension.Act (σ × List Noted) α}
    {y : Suspension.Act σ α} (classify : Target.Fault → Fault)
    (h : Mirrors Suspension.plain x y) :
    Mirrors Progress.plain (Work.onTarget classify x) (Work.onTarget classify y) := by
  intro p
  change ((y p.suspension.plain).1.mapError classify, _) = _
  unfold Progress.plain
  rw [h p.suspension]
  rfl

theorem mirrors_ofExcept {α : Type} (result : Except Fault α) :
    Mirrors Progress.plain (Work.ofExcept (σ := σ × List Noted) result) (Work.ofExcept result) :=
  fun _ => rfl

theorem mirrors_checkActive :
    Mirrors Progress.plain (Work.checkActive (σ := σ × List Noted)) Work.checkActive :=
  fun _ => rfl

theorem mirrors_enter (stage : Stage) :
    Mirrors Progress.plain (Work.enter (σ := σ × List Noted) stage) (Work.enter stage) :=
  mirrors_checkActive.bind fun _ _ => rfl

theorem mirrors_makeLoader (settings : Settings) :
    Mirrors Suspension.plain (makeLoader target.recording settings) (makeLoader target settings) :=
  (Suspension.mirrors_send target _).bind fun _ =>
    (Suspension.mirrors_sendActive target _).bind fun _ =>
      (Suspension.mirrors_sendActive target _).bind fun _ =>
        (Suspension.mirrors_newArray target _ _).bind fun _ =>
          Suspension.mirrors_newInstance target _ _ _

theorem mirrors_targetVersion (settings : Settings) :
    Mirrors Progress.plain (targetVersion target.recording settings)
      (targetVersion target settings) :=
  fun _ => rfl

theorem mirrors_defineUnit (bytesClass : ClassRef) (loader : ObjectRef) (unit : CompiledUnit) :
    Mirrors Suspension.plain (defineUnit target.recording bytesClass loader unit)
      (defineUnit target bytesClass loader unit) :=
  (Suspension.mirrors_newString target _).bind fun _ =>
    (Suspension.mirrors_newArray target _ _).bind fun _ =>
      (Suspension.mirrors_sendActive target _).bind fun _ =>
        (Suspension.mirrors_invokeMethod target _ _ _ _).bind fun _ => Mirrors.pure ()

theorem mirrors_defineUnits (bytesClass : ClassRef) (loader : ObjectRef)
    (units : List CompiledUnit) :
    Mirrors Progress.plain (defineUnits target.recording bytesClass loader units)
      (defineUnits target bytesClass loader units) := by
  induction units with
  | nil => exact Mirrors.pure ()
  | cons unit units ih =>
    have defined : Mirrors Progress.plain
        (do Work.onTarget .ofEnvironment (defineUnit target.recording bytesClass loader unit)
            defineUnits target.recording bytesClass loader units)
        (do Work.onTarget .ofEnvironment (defineUnit target bytesClass loader unit)
            defineUnits target bytesClass loader units) :=
      (mirrors_onTarget _ (mirrors_defineUnit target bytesClass loader unit)).bind fun _ => ih
    unfold defineUnits
    split
    · exact (Mirrors.raise _).bind fun _ => defined
    · exact defined

theorem mirrors_defineClasses (loader : ObjectRef) (units : List CompiledUnit) (name : String) :
    Mirrors Progress.plain (defineClasses target.recording loader units name)
      (defineClasses target loader units name) :=
  (mirrors_onTarget _ (Suspension.mirrors_sendActive target _)).bind fun bytesClass =>
    (mirrors_defineUnits target bytesClass loader units).bind fun _ =>
      mirrors_onTarget _ (Suspension.mirrors_sendActive target _)

theorem mirrors_argument (l : Literal) (parameter : FieldType) :
    Mirrors Suspension.plain (StaticCall.argument target.recording l parameter)
      (StaticCall.argument target l parameter) := by
  cases l with
  | string text => exact (Suspension.mirrors_newString target text).bind fun _ => Mirrors.pure _
  | int _ | long _ | boolean _ | null => exact Mirrors.pure _

theorem mirrors_makeArguments (literals : List Literal) (parameters : List FieldType) :
    Mirrors Suspension.plain (StaticCall.makeArguments target.recording literals parameters)
      (StaticCall.makeArguments target literals parameters) := by
  induction literals generalizing parameters with
  | nil => exact Mirrors.pure _
  | cons l literals ih =>
    cases parameters with
    | nil => exact Mirrors.pure _
    | cons p parameters =>
      exact (mirrors_argument target l p).bind fun _ =>
        (ih parameters).bind fun _ => Mirrors.pure _

theorem mirrors_run (call : StaticCall) :
    Mirrors Suspension.plain (call.run target.recording) (call.run target) :=
  (mirrors_makeArguments target _ _).bind fun _ => Suspension.mirrors_invokeMethod target _ _ _ _

end

variable (compiler : Compiler) (settings : Settings) (target : Target σ) (request : Request)

theorem mirrors_steps :
    Mirrors Progress.plain (steps compiler staticCalls settings target.recording request)
      (steps compiler staticCalls settings target request) :=
  mirrors_checkActive.bind fun _ =>
    (mirrors_onTarget _ (mirrors_makeLoader target settings)).bind fun loader =>
      (mirrors_enter _).bind fun _ =>
        (mirrors_targetVersion target settings).bind fun _ =>
          (mirrors_ofExcept _).bind fun _ =>
            (mirrors_ofExcept _).bind fun generated =>
              mirrors_checkActive.bind fun _ =>
                (mirrors_defineClasses target loader generated _).bind fun _ =>
                  (mirrors_enter _).bind fun _ =>
                    (mirrors_ofExcept _).bind fun _ =>
                      (mirrors_ofExcept _).bind fun call =>
                        (mirrors_enter _).bind fun _ =>
                          (mirrors_onTarget _ (mirrors_run target call)).bind fun _ =>
                            (mirrors_enter _).bind fun _ => Mirrors.pure _

/-- Evaluates a request of a static call. -/
abbrev evaluateStatic (s : Suspension σ) : Outcome × Suspension σ :=
  evaluate compiler staticCalls settings target request s

/-- The calls that the evaluation of a static call makes on the target, in order. -/
def performed (s : Suspension σ) : List Noted :=
  (evaluateStatic compiler settings target.recording request s.recorded).2.noted

/-- Noting the calls of an evaluation changes nothing else. -/
theorem evaluate_recording (s : Suspension σ) :
    evaluateStatic compiler settings target request s =
      ((evaluateStatic compiler settings target.recording request s.recorded).1,
        (evaluateStatic compiler settings target.recording request s.recorded).2.plain) := by
  have same := mirrors_steps compiler settings target request ⟨[.idle], s.recorded⟩
  simp only [evaluateStatic, evaluate, Work.run]
  change steps compiler staticCalls settings target request ⟨[.idle], s⟩ = _ at same
  rw [same]
  cases steps compiler staticCalls settings target.recording request ⟨[.idle], s.recorded⟩ with
  | mk result p => cases result <;> rfl

section Steps

open Target Compile

variable {σ : Type} {pre : Progress σ → Prop}

theorem meets_checkActive :
    Meets pre (Work.checkActive (σ := σ)) (fun _ p => pre p ∧ p.suspension.cancelled = false)
      (fun fault p => pre p ∧ fault = .cancelled) := by
  intro p holds
  unfold Work.checkActive
  cases active : p.suspension.cancelled with
  | true => exact ⟨holds, rfl⟩
  | false => exact ⟨holds, active⟩

theorem meets_ofExcept {α : Type} (result : Except Fault α) :
    Meets pre (Work.ofExcept result) (fun a p => pre p ∧ result = .ok a)
      (fun fault p => pre p ∧ result = .error fault) := by
  intro p holds
  cases result with
  | ok a => exact ⟨holds, rfl⟩
  | error fault => exact ⟨holds, rfl⟩

/-- The progress with a further stage. -/
def Progress.entering (p : Progress σ) (stage : Stage) : Progress σ :=
  { p with stages := p.stages ++ [stage] }

theorem meets_enter (stage : Stage) :
    Meets pre (Work.enter stage)
      (fun _ p => ∃ q, pre q ∧ q.suspension.cancelled = false ∧ p = q.entering stage)
      (fun fault p => pre p ∧ fault = .cancelled) :=
  meets_checkActive.bind fun _ p ⟨holds, active⟩ => ⟨p, holds, active, rfl⟩

/-- The version to compile for when the target was asked for its own. -/
def versionFor (settings : Settings) (told : Except Target.Fault String) : ClassFile.Version :=
  (told.toOption.bind ClassFile.Version.ofPlatform?).getD settings.defaultVersion

/-- The progress after an operation was performed and noted. -/
def Progress.afterCall {α : Type} (target : Target σ) (operation : Operation α)
    (p : Progress (σ × List Noted)) : Progress (σ × List Noted) :=
  { p with suspension := Suspension.afterCall target operation p.suspension }

theorem meets_targetVersion (target : Target σ) (settings : Settings)
    {pre : Progress (σ × List Noted) → Prop} {fail : Fault → Progress (σ × List Noted) → Prop} :
    Meets pre (targetVersion target.recording settings)
      (fun version p => ∃ q, pre q ∧ p = q.afterCall target .platformVersion ∧
        version = versionFor settings
          (target.perform .platformVersion q.suspension.state.1).result) fail :=
  fun p holds => ⟨p, holds, rfl, rfl⟩

end Steps

end JavaSnippet.Evaluation
