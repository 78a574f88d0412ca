import JavaSnippet.Proofs.Evaluation.Recording
/-!
The stages of an evaluation. They are always a path of the machine, and a fault is reported in the
stage that its cause belongs to.
-/
namespace JavaSnippet.Evaluation

open Target Compile

/-- The stages of an evaluation before its end. -/
def route : List Stage := [.idle, .classLoaderReady, .classesDefined, .callResolved]

/-- What ends an evaluation without a result. -/
inductive Breakdown where
  /-- The work was found cancelled in a stage. -/
  | cancelled (stage : Stage)
  | noLoader (cause : Target.Fault)
  | uncompiled (failure : Failure)
  /-- The super class of a generated unit cannot be replaced. -/
  | fixedParent (unit : String) (fault : ClassFile.Fault)
  | noByteArrays (cause : Target.Fault)
  | tooLarge (unit : String)
  | undefined (unit : String) (cause : Target.Fault)
  /-- The loader does not find the class of the call. -/
  | invisible (cause : Target.Fault)
  /-- No generated unit is the class of the call. -/
  | missing
  | unreadable (fault : ClassFile.Fault)
  | noCall (reason : String)
  | failedCall (cause : Target.Fault)

namespace Breakdown

/-- The stage in which it happens. -/
def stage : Breakdown → Stage
  | cancelled stage => stage
  | noLoader _ => .idle
  | uncompiled _ | fixedParent .. | noByteArrays _ | tooLarge _ | undefined .. | invisible _ =>
    .classLoaderReady
  | missing | unreadable _ | noCall _ => .classesDefined
  | failedCall _ => .callResolved

/-- How it is reported when the call is for the class of the name. -/
def fault (name : String) : Breakdown → Fault
  | cancelled _ => .cancelled
  | noLoader cause | noByteArrays cause | undefined _ cause => .ofEnvironment cause
  | uncompiled failure => .ofCompile failure
  | fixedParent unit fault => .codeGeneration (.superclass unit fault)
  | tooLarge unit => .tooling s!"class {unit} is too large"
  | invisible cause => notVisible name cause
  | missing => .classResolution name
  | unreadable fault => .codeGeneration (.unreadable fault)
  | noCall reason => .codeGeneration (.call reason)
  | failedCall cause => .ofCall cause

end Breakdown

/-- The only stage in which a fault of the kind is reported, if there is only one. -/
def Fault.stage? : Fault → Option Stage
  | compilation _ | tooling _ | codeGeneration (.superclass ..) => some .classLoaderReady
  | codeGeneration (.unreadable _) | codeGeneration (.call _) => some .classesDefined
  | evaluation _ | remoteInvocation _ | illegalState _ => some .callResolved
  | environment _ | classResolution _ | cancelled => none

theorem Breakdown.stage_of_fault {b : Breakdown} {name : String} {stage : Stage}
    (only : (b.fault name).stage? = some stage) : b.stage = stage := by
  cases b with
  | cancelled => cases only
  | missing => cases only
  | noLoader cause | noByteArrays cause | undefined _ cause | invisible cause =>
    cases cause <;> cases only
  | uncompiled failure => cases failure <;> exact Option.some.inj only
  | fixedParent | tooLarge | unreadable | noCall => exact Option.some.inj only
  | failedCall cause =>
    cases cause with
    | classNotFound | cancelled => cases only
    | _ => exact Option.some.inj only

variable {σ : Type} (compiler : Compiler) (factory : CallFactory) (settings : Settings)
  (target : Target σ) (request : Request)

/-- The units compile for the version that the target told. -/
def Compiles (units : List CompiledUnit) : Prop :=
  ∃ state, compiler request.units
    (versionFor settings (target.perform .platformVersion state).result) = .ok units

/-- The generated units are compiled, and rewritten. -/
def Generates (generated : List CompiledUnit) : Prop :=
  ∃ units, Compiles compiler settings target request units ∧
    generatedUnits settings units = .ok generated

/-- The call is built on the class file of the generated class. -/
def Builds (owner : ClassRef) (built : Except String factory.Call) : Prop :=
  ∃ generated file, Generates compiler settings target request generated ∧
    generatedFile generated request.generated = .ok file ∧
    factory.build request.callText owner file = built

/-- An evaluation that leaves the suspension breaks down. -/
inductive BreaksDown (left : Suspension σ) : Breakdown → Prop where
  | cancelled {stage : Stage} (early : stage ∈ route) (cancelled : left.cancelled = true) :
    BreaksDown left (.cancelled stage)
  | noLoader {s : Suspension σ} {cause : Target.Fault}
    (failed : makeLoader target settings s = (.error cause, left)) :
    BreaksDown left (.noLoader cause)
  | uncompiled {state : σ} {failure : Failure}
    (failed : compiler request.units
      (versionFor settings (target.perform .platformVersion state).result) = .error failure) :
    BreaksDown left (.uncompiled failure)
  | fixedParent {units : List CompiledUnit} {unit : CompiledUnit} {fault : ClassFile.Fault}
    (compiled : Compiles compiler settings target request units) (member : unit ∈ units)
    (isGenerated : unit.isGenerated settings.marker.text = true)
    (failed : ClassFile.replaceSuper unit.bytes settings.baseSuperclass
      settings.privilegedSuperclass = .error fault) :
    BreaksDown left (.fixedParent unit.qualifiedName fault)
  | noByteArrays {s : Suspension σ} {cause : Target.Fault}
    (failed : Suspension.resolveClass target FieldType.byte.array.source none s =
      (.error cause, left)) :
    BreaksDown left (.noByteArrays cause)
  | tooLarge {generated : List CompiledUnit} {unit : CompiledUnit}
    (prepared : Generates compiler settings target request generated) (member : unit ∈ generated)
    (large : intLimit ≤ unit.bytes.length) :
    BreaksDown left (.tooLarge unit.qualifiedName)
  | undefined {generated : List CompiledUnit} {unit : CompiledUnit} {bytesClass : ClassRef}
    {loader : ObjectRef} {s : Suspension σ} {cause : Target.Fault}
    (prepared : Generates compiler settings target request generated) (member : unit ∈ generated)
    (failed : defineUnit target bytesClass loader unit s = (.error cause, left)) :
    BreaksDown left (.undefined unit.qualifiedName cause)
  | invisible {loader : ObjectRef} {s : Suspension σ} {cause : Target.Fault}
    (failed : Suspension.resolveClass target request.generated (some loader) s =
      (.error cause, left)) :
    BreaksDown left (.invisible cause)
  | missing {generated : List CompiledUnit}
    (prepared : Generates compiler settings target request generated)
    (others : ∀ unit ∈ generated, unit.qualifiedName ≠ request.generated) :
    BreaksDown left .missing
  | unreadable {generated : List CompiledUnit} {unit : CompiledUnit} {fault : ClassFile.Fault}
    (prepared : Generates compiler settings target request generated) (member : unit ∈ generated)
    (named : unit.qualifiedName = request.generated)
    (failed : ClassFile.decode unit.bytes = .error fault) :
    BreaksDown left (.unreadable fault)
  | noCall {owner : ClassRef} {reason : String}
    (failed : Builds compiler factory settings target request owner (.error reason)) :
    BreaksDown left (.noCall reason)
  | failedCall {owner : ClassRef} {call : factory.Call} {s : Suspension σ} {cause : Target.Fault}
    (built : Builds compiler factory settings target request owner (.ok call))
    (failed : factory.run target call s = (.error cause, left)) :
    BreaksDown left (.failedCall cause)

/-- The stages up to one of the route. -/
def upTo : Stage → List Stage
  | .idle => [.idle]
  | .classLoaderReady => [.idle, .classLoaderReady]
  | .classesDefined => [.idle, .classLoaderReady, .classesDefined]
  | .callResolved => route
  | .completed => route ++ [.completed]
  | .failed => []

theorem upTo_of_mem {stage : Stage} (early : stage ∈ route) :
    upTo stage <+: route ∧ (upTo stage).getLast? = some stage := by
  cases stage with
  | idle | classLoaderReady | classesDefined | callResolved => decide
  | completed | failed => exact absurd early (by decide)

/-- The evaluation failed in the stage that it had come to. -/
def Failed (fault : Fault) (p : Progress σ) : Prop :=
  ∃ b, BreaksDown compiler factory settings target request p.suspension b ∧ b.stage ∈ route ∧
    fault = b.fault request.generated ∧ p.stages = upTo b.stage

/-- A step of an evaluation in a stage has a result that `post` holds of, or the evaluation
fails. -/
abbrev Passes {α : Type} (stage : Stage) (x : Work σ α) (post : α → Prop) (after : Stage) : Prop :=
  Meets (fun p => p.stages = upTo stage) x (fun a p => post a ∧ p.stages = upTo after)
    (Failed compiler factory settings target request)

section Steps

variable {compiler factory settings target request}

theorem passes_pure {α : Type} {stage : Stage} {a : α} {post : α → Prop} (holds : post a) :
    Passes compiler factory settings target request stage (pure a) post stage :=
  Meets.pure fun _ same => ⟨holds, same⟩

theorem Passes.bind {α β : Type} {first next last : Stage} {x : Work σ α} {f : α → Work σ β}
    {post : α → Prop} {whole : β → Prop}
    (front : Passes compiler factory settings target request first x post next)
    (rest : ∀ a, post a → Passes compiler factory settings target request next (f a) whole last) :
    Passes compiler factory settings target request first (x >>= f) whole last :=
  Meets.bind front fun a _ ⟨holds, same⟩ => rest a holds _ same

theorem passes_checkActive {stage : Stage} (early : stage ∈ route) :
    Passes compiler factory settings target request stage Work.checkActive (fun _ => True)
      stage := by
  intro p same
  unfold Work.checkActive
  cases active : p.suspension.cancelled with
  | true => exact ⟨.cancelled stage, .cancelled early active, early, rfl, same⟩
  | false => exact ⟨trivial, same⟩

theorem passes_enter {stage : Stage} (next : Stage) (early : stage ∈ route)
    (follows : upTo next = upTo stage ++ [next]) :
    Passes compiler factory settings target request stage (Work.enter next) (fun _ => True)
      next := by
  refine Passes.bind (passes_checkActive early) fun _ _ p same => ⟨trivial, ?_⟩
  show p.stages ++ [next] = upTo next
  rw [same, follows]

theorem passes_ofExcept {α : Type} {stage : Stage} {result : Except Fault α}
    (fails : ∀ left fault, result = .error fault →
      ∃ b, BreaksDown compiler factory settings target request left b ∧ b.stage = stage ∧
        fault = b.fault request.generated) (early : stage ∈ route) :
    Passes compiler factory settings target request stage (Work.ofExcept result)
      (fun a => result = .ok a) stage := by
  intro p same
  cases result with
  | ok a => exact ⟨rfl, same⟩
  | error fault =>
    obtain ⟨b, breaks, rfl, reported⟩ := fails p.suspension fault rfl
    exact ⟨b, breaks, early, reported, same⟩

theorem passes_onTarget {α : Type} {classify : Target.Fault → Fault} {act : Suspension.Act σ α}
    (breakdown : Target.Fault → Breakdown) {stage : Stage}
    (fails : ∀ s cause left, act s = (.error cause, left) →
      BreaksDown compiler factory settings target request left (breakdown cause))
    (happens : ∀ cause, (breakdown cause).stage = stage)
    (reported : ∀ cause, classify cause = (breakdown cause).fault request.generated)
    (early : stage ∈ route) :
    Passes compiler factory settings target request stage (Work.onTarget classify act)
      (fun _ => True) stage := by
  intro p same
  unfold Work.onTarget
  cases done : act p.suspension with
  | mk result left =>
    cases result with
    | ok a => exact ⟨trivial, same⟩
    | error cause =>
      exact ⟨breakdown cause, fails _ _ _ done, happens cause ▸ early, reported cause,
        same.trans (happens cause ▸ rfl)⟩

theorem passes_targetVersion :
    Passes compiler factory settings target request .classLoaderReady
      (targetVersion target settings)
      (fun version => ∃ state,
        version = versionFor settings (target.perform .platformVersion state).result)
      .classLoaderReady :=
  fun p same => ⟨⟨p.suspension.state, rfl⟩, same⟩

theorem passes_compiled {version : ClassFile.Version}
    (told : ∃ state, version = versionFor settings (target.perform .platformVersion state).result) :
    Passes compiler factory settings target request .classLoaderReady
      (Work.ofExcept ((compiler request.units version).mapError Fault.ofCompile))
      (fun units => (compiler request.units version).mapError Fault.ofCompile = .ok units)
      .classLoaderReady := by
  obtain ⟨state, rfl⟩ := told
  refine passes_ofExcept (fun left fault failed => ?_) (by decide)
  obtain ⟨failure, uncompiled, rfl⟩ := except_mapError_eq_error.mp failed
  exact ⟨.uncompiled failure, .uncompiled uncompiled, rfl, rfl⟩

theorem passes_generated {units : List CompiledUnit}
    (compiled : Compiles compiler settings target request units) :
    Passes compiler factory settings target request .classLoaderReady
      (Work.ofExcept (generatedUnits settings units))
      (fun generated => generatedUnits settings units = .ok generated) .classLoaderReady := by
  refine passes_ofExcept (fun left fault failed => ?_) (by decide)
  obtain ⟨unit, member, broken⟩ := except_mapM_error failed
  obtain ⟨inUnits, isGenerated⟩ := List.mem_filter.mp member
  split at broken
  · cases broken
  · rename_i fixed unchanged
    obtain rfl := Except.error.inj broken
    exact ⟨_, .fixedParent compiled inUnits isGenerated unchanged, rfl, rfl⟩

/-- Defining classes enters no stage, as far as it comes. -/
theorem passes_defineUnits {generated : List CompiledUnit}
    (prepared : Generates compiler settings target request generated) (bytesClass : ClassRef)
    (loader : ObjectRef) (units : List CompiledUnit) (among : units ⊆ generated) :
    Passes compiler factory settings target request .classLoaderReady
      (defineUnits target bytesClass loader units) (fun _ => True) .classLoaderReady := by
  induction units with
  | nil => exact passes_pure trivial
  | cons unit units ih =>
    obtain ⟨member, others⟩ := List.cons_subset.mp among
    unfold defineUnits
    by_cases large : intLimit ≤ unit.bytes.length
    · rw [if_pos large]
      exact fun p same => ⟨_, .tooLarge prepared member large,
        (by decide : Stage.classLoaderReady ∈ route), rfl, same⟩
    · rw [if_neg large]
      refine Passes.bind (passes_onTarget _ (fun s cause left failed =>
        .undefined prepared member failed) (fun _ => rfl) (fun _ => rfl) (by decide)) fun _ _ => ?_
      exact ih others

theorem passes_defineClasses {generated : List CompiledUnit}
    (prepared : Generates compiler settings target request generated) (loader : ObjectRef) :
    Passes compiler factory settings target request .classLoaderReady
      (defineClasses target loader generated request.generated) (fun _ => True)
      .classLoaderReady := by
  refine Passes.bind (passes_onTarget .noByteArrays (fun _ _ _ failed => .noByteArrays failed)
    (fun _ => rfl) (fun _ => rfl) (by decide)) fun bytesClass _ => ?_
  refine Passes.bind (passes_defineUnits prepared bytesClass loader generated
    (List.Subset.refl generated)) fun _ _ => ?_
  exact passes_onTarget .invisible (fun _ _ _ failed => .invisible failed) (fun _ => rfl)
    (fun _ => rfl) (by decide)

theorem passes_file {generated : List CompiledUnit}
    (prepared : Generates compiler settings target request generated) :
    Passes compiler factory settings target request .classesDefined
      (Work.ofExcept (generatedFile generated request.generated))
      (fun file => generatedFile generated request.generated = .ok file) .classesDefined := by
  refine passes_ofExcept (fun left fault failed => ?_) (by decide)
  unfold generatedFile at failed
  split at failed
  · rename_i none
    obtain rfl := Except.error.inj failed
    refine ⟨.missing, .missing prepared fun unit member same => ?_, rfl, rfl⟩
    have differs := List.find?_eq_none.mp none unit member
    simp [same] at differs
  · rename_i unit found
    obtain ⟨cause, undecodable, rfl⟩ := except_mapError_eq_error.mp failed
    have named : unit.qualifiedName = request.generated := by
      simpa using List.find?_some found
    exact ⟨.unreadable cause,
      .unreadable prepared (List.mem_of_find?_eq_some found) named undecodable, rfl, rfl⟩

end Steps

/-- The steps of an evaluation go from one stage of the route to the next. -/
theorem passes_steps :
    Passes compiler factory settings target request .idle
      (steps compiler factory settings target request) (fun _ => True) .completed := by
  refine (passes_checkActive (by decide)).bind fun _ _ => ?_
  refine (passes_onTarget .noLoader (fun _ _ _ failed => .noLoader failed)
    (fun _ => rfl) (fun _ => rfl) (by decide)).bind fun loader _ => ?_
  refine (passes_enter .classLoaderReady (by decide) rfl).bind fun _ _ => ?_
  refine passes_targetVersion.bind fun version told => ?_
  refine (passes_compiled told).bind fun units compiled => ?_
  have compiles : Compiles compiler settings target request units := by
    obtain ⟨state, rfl⟩ := told
    exact ⟨state, except_mapError_eq_ok.mp compiled⟩
  refine (passes_generated compiles).bind fun generated rewritten => ?_
  have prepared : Generates compiler settings target request generated :=
    ⟨units, compiles, rewritten⟩
  refine (passes_checkActive (by decide)).bind fun _ _ => ?_
  refine (passes_defineClasses prepared loader).bind fun owner _ => ?_
  refine (passes_enter .classesDefined (by decide) rfl).bind fun _ _ => ?_
  refine (passes_file prepared).bind fun file read => ?_
  refine Passes.bind (passes_ofExcept (fun left fault failed => ?_) (by decide))
    fun call built => ?_
  · obtain ⟨reason, unbuilt, rfl⟩ := except_mapError_eq_error.mp failed
    exact ⟨.noCall reason, .noCall ⟨generated, file, prepared, read, unbuilt⟩, rfl, rfl⟩
  refine (passes_enter .callResolved (by decide) rfl).bind fun _ _ => ?_
  refine (passes_onTarget .failedCall (fun _ _ _ failed => .failedCall
    ⟨generated, file, prepared, read, except_mapError_eq_ok.mp built⟩ failed)
    (fun _ => rfl) (fun _ => rfl) (by decide)).bind fun value _ => ?_
  exact (passes_enter .completed (by decide) rfl).bind fun _ _ => passes_pure trivial

/-- An evaluation with a result was in every stage. One without was in those up to the stage that
the cause of its fault belongs to, and then failed. -/
theorem evaluate_stages (s : Suspension σ) :
    (∃ value, (evaluate compiler factory settings target request s).1 =
        ⟨.ok value, route ++ [.completed]⟩) ∨
      ∃ b front, BreaksDown compiler factory settings target request
          (evaluate compiler factory settings target request s).2 b ∧
        front <+: route ∧ front.getLast? = some b.stage ∧
        (evaluate compiler factory settings target request s).1 =
          ⟨.error (b.fault request.generated), front ++ [.failed]⟩ ∧
        ∀ stage, (b.fault request.generated).stage? = some stage → b.stage = stage := by
  have run := passes_steps compiler factory settings target request ⟨[.idle], s⟩ rfl
  unfold evaluate Work.run
  cases done : steps compiler factory settings target request ⟨[.idle], s⟩ with
  | mk result p =>
    rw [done] at run
    cases result with
    | ok value =>
      obtain ⟨-, same⟩ := run
      exact .inl ⟨value, congrArg (Outcome.mk _) same⟩
    | error fault =>
      obtain ⟨b, breaks, early, rfl, same⟩ := run
      obtain ⟨isPrefix, last⟩ := upTo_of_mem early
      exact .inr ⟨b, upTo b.stage, breaks, isPrefix, last,
        congrArg (fun stages => Outcome.mk _ (stages ++ [.failed])) same,
        fun _ => b.stage_of_fault⟩

end JavaSnippet.Evaluation
