import JavaSnippet.Proofs.Evaluation.Definition
/-!
An evaluation defines the generated classes and no others. It has defined none while it can still
fail to compile, and all of them when it enters the stage of defined classes.
-/
namespace JavaSnippet.Evaluation

open Target Compile Suspension

variable {σ : Type}

/-- One loader at most is made. Either no method of an object is called, or the calls define the
generated units or the first of them, and all of them once the stage of defined classes is
entered. -/
def DefinesOnlySlice (compiler : Compiler) (settings : Settings) (request : Request)
    (calls : List Call) (stages : List Stage) : Prop :=
  calls.countP Call.isConstruction ≤ 1 ∧
    ((∀ c ∈ calls, c.isOnInstance = false) ∧ .classesDefined ∉ stages ∨
      ∃ slice : SliceDefined compiler settings request calls,
        .classesDefined ∈ stages → slice.segments.length = slice.generated.length)

/-- Calls that construct one object at most and call no method of an object. -/
structure Quiet (calls : List Call) : Prop where
  once : calls.countP Call.isConstruction ≤ 1
  onNone : ∀ c ∈ calls, c.isOnInstance = false

theorem quiet_append {front back : List Call} (h : Quiet front) (plain : Plain back) :
    Quiet (front ++ back) where
  once := by rw [List.countP_append, plain.countP]; exact h.once
  onNone := List.forall_mem_append.mpr ⟨h.onNone, fun c member => (plain c member).1⟩

theorem quiet_of_plain {calls : List Call} (h : Plain calls) : Quiet calls where
  once := by rw [h.countP]; exact Nat.zero_le 1
  onNone c member := (h c member).1

theorem Constructs.quiet {result : Except Target.Fault ObjectRef} {calls : List Call}
    (h : Constructs result calls) : Quiet calls := by
  obtain ⟨owner, type, arguments, before, after, first, last, rfl⟩ := h
  refine ⟨Nat.le_of_eq ?_, List.forall_mem_append.mpr ⟨fun c member => (first c member).1,
    List.forall_mem_cons.mpr ⟨rfl, fun c member => (last.plain c member).1⟩⟩⟩
  rw [List.countP_append, first.countP, List.countP_cons_of_pos rfl, last.plain.countP]

theorem Submits.countP {loader name array : ObjectRef} {unit : CompiledUnit} {calls : List Call}
    (h : Submits loader name array unit calls) : calls.countP Call.isConstruction = 0 := by
  obtain ⟨result, _, ⟨pins, only, rfl⟩, rfl⟩ := h
  rw [List.countP_cons_of_neg (by simp [Call.isConstruction]),
    List.countP_cons_of_neg (by simp [definition, Call.of, Call.isConstruction]), only.plain.countP]

theorem Defines.countP {loader : ObjectRef} {bytesClass : ClassRef} {unit : CompiledUnit}
    {calls : List Call} (h : Defines loader bytesClass unit calls) :
    calls.countP Call.isConstruction = 0 := by
  obtain ⟨-, name, named, _, named', ⟨array, sized, last, sized', submits, rfl⟩, rfl⟩ := h
  rw [List.countP_append, List.countP_append, (named'.plain ⟨rfl, rfl⟩).countP,
    (sized'.plain ⟨rfl, rfl⟩).countP, submits.countP]

theorem countP_definitions {loader : ObjectRef} {bytesClass : ClassRef}
    {units : List CompiledUnit} {segments : List (List Call)}
    (h : List.Forall₂ (Defines loader bytesClass) units segments) :
    segments.flatten.countP Call.isConstruction = 0 := by
  induction h with
  | nil => rfl
  | cons head _ ih => rw [List.flatten_cons, List.countP_append, head.countP, ih]

/-- Calls that make the loader and ask for the version, and define nothing yet. -/
structure Ready (loader : ObjectRef) (told : Except Target.Fault String) (calls : List Call) :
    Prop where
  quiet : Quiet calls
  loaderMade : ∃ owner type arguments, .newInstance owner type arguments (.ok loader) ∈ calls
  versionTold : .platformVersion told ∈ calls

theorem Constructs.ready {loader : ObjectRef} {calls : List Call}
    (h : Constructs (.ok loader) calls) (told : Except Target.Fault String) :
    Ready loader told (calls ++ [.platformVersion told]) where
  quiet := quiet_append h.quiet (plain_cons.mpr ⟨⟨rfl, rfl⟩, plain_nil⟩)
  loaderMade := by
    obtain ⟨owner, type, arguments, before, after, -, -, rfl⟩ := h
    exact ⟨owner, type, arguments, by simp⟩
  versionTold := by simp

section Slice

variable {compiler : Compiler} {settings : Settings} {request : Request}
  {loader : ObjectRef} {bytesClass : ClassRef} {told : Except Target.Fault String}
  {units generated : List CompiledUnit} {front : List Call}

/-- The slice of the generated units that the calls after `front` define. -/
def Ready.slice (ready : Ready loader told front)
    (compiled : compiler request.units (versionFor settings told) = .ok units)
    (rewritten : generatedUnits settings units = .ok generated)
    (segments : List (List Call)) (rest : List Call)
    (each : List.Forall₂ (Defines loader bytesClass) (generated.take segments.length) segments)
    (plain : Plain rest) :
    SliceDefined compiler settings request
      (front ++ bytesFound bytesClass :: (segments.flatten ++ rest)) where
  told := told
  units := units
  generated := generated
  loader := loader
  bytesClass := bytesClass
  before := front ++ [bytesFound bytesClass]
  segments := segments
  after := rest
  compiled := compiled
  rewritten := forall₂_reparented rewritten
  defined := each
  split := by rw [List.append_assoc, List.singleton_append]
  versionTold := List.mem_append_left _ ready.versionTold
  loaderMade := by
    obtain ⟨owner, type, arguments, made⟩ := ready.loaderMade
    exact ⟨owner, type, arguments, List.mem_append_left _ made⟩
  bytesClassFound := List.mem_append_right _ (List.mem_singleton_self _)
  nothingElse := List.forall_mem_append.mpr ⟨List.forall_mem_append.mpr
    ⟨ready.quiet.onNone, List.forall_mem_singleton.mpr rfl⟩, fun c member => (plain c member).1⟩

/-- The classes are defined without another construction. -/
theorem Ready.once (ready : Ready loader told front) {segments : List (List Call)}
    {rest : List Call} (each : List.Forall₂ (Defines loader bytesClass) units segments)
    (plain : Plain rest) :
    (front ++ bytesFound bytesClass :: (segments.flatten ++ rest)).countP Call.isConstruction ≤
      1 := by
  rw [List.countP_append, List.countP_cons_of_neg (by simp [bytesFound, Call.isConstruction]),
    List.countP_append, countP_definitions each, plain.countP]
  exact ready.quiet.once

theorem Ready.definesSome (ready : Ready loader told front)
    (compiled : compiler request.units (versionFor settings told) = .ok units)
    (rewritten : generatedUnits settings units = .ok generated) {rest : List Call}
    (some : DefinesSome loader bytesClass generated rest) {stages : List Stage}
    (unreached : .classesDefined ∉ stages) :
    DefinesOnlySlice compiler settings request (front ++ bytesFound bytesClass :: rest) stages := by
  obtain ⟨segments, rest, each, plain, rfl⟩ := some
  exact ⟨ready.once each plain, .inr ⟨ready.slice compiled rewritten segments rest each plain,
    fun reached => absurd reached unreached⟩⟩

/-- One loader at most is made, and all generated units are defined. -/
structure Whole (compiler : Compiler) (settings : Settings) (request : Request)
    (calls : List Call) : Prop where
  once : calls.countP Call.isConstruction ≤ 1
  slice : ∃ slice : SliceDefined compiler settings request calls,
    slice.segments.length = slice.generated.length

theorem Ready.definesAll (ready : Ready loader told front)
    (compiled : compiler request.units (versionFor settings told) = .ok units)
    (rewritten : generatedUnits settings units = .ok generated) {rest : List Call}
    (all : DefinesAll loader bytesClass generated rest) :
    Whole compiler settings request (front ++ bytesFound bytesClass :: rest) := by
  obtain ⟨segments, rest, each, plain, rfl⟩ := all
  have first : List.Forall₂ (Defines loader bytesClass) (generated.take segments.length)
      segments := by
    rwa [← each.length_eq, List.take_length]
  exact ⟨ready.once each plain, ready.slice compiled rewritten segments rest first plain,
    each.length_eq.symm⟩

theorem Whole.append {calls rest : List Call} (h : Whole compiler settings request calls)
    (plain : Plain rest) : Whole compiler settings request (calls ++ rest) := by
  obtain ⟨once, slice, whole⟩ := h
  refine ⟨by rwa [List.countP_append, plain.countP],
    { slice with
      after := slice.after ++ rest
      split := ?_
      nothingElse := ?_ }, whole⟩
  · calc
      calls ++ rest = slice.before ++ (slice.segments.flatten ++ slice.after) ++ rest :=
        congrArg (· ++ rest) slice.split
      _ = slice.before ++ (slice.segments.flatten ++ (slice.after ++ rest)) := by
        rw [List.append_assoc, List.append_assoc]
  · rw [← List.append_assoc]
    exact List.forall_mem_append.mpr ⟨slice.nothingElse, fun c member => (plain c member).1⟩

theorem Whole.onlySlice {calls : List Call} (h : Whole compiler settings request calls)
    (stages : List Stage) : DefinesOnlySlice compiler settings request calls stages := by
  obtain ⟨once, slice, whole⟩ := h
  exact ⟨once, .inr ⟨slice, fun _ => whole⟩⟩

theorem Quiet.onlySlice {calls : List Call} (h : Quiet calls) {stages : List Stage}
    (unreached : .classesDefined ∉ stages) :
    DefinesOnlySlice compiler settings request calls stages :=
  ⟨h.once, .inl ⟨h.onNone, unreached⟩⟩

/-- An evaluation that fails enters the last stage besides. -/
theorem DefinesOnlySlice.failed {calls : List Call} {stages : List Stage}
    (h : DefinesOnlySlice compiler settings request calls stages) :
    DefinesOnlySlice compiler settings request calls (stages ++ [.failed]) := by
  have same : .classesDefined ∈ stages ++ [.failed] ↔ .classesDefined ∈ stages := by simp
  unfold DefinesOnlySlice
  rw [same]
  exact h

end Slice

section Run

variable (compiler : Compiler) (settings : Settings) (target : Target σ) (request : Request)

/-- Whatever an evaluation has done, it has defined generated units only. -/
def OnlySlice (p : Progress (σ × List Noted)) : Prop :=
  DefinesOnlySlice compiler settings request p.calls p.stages

theorem meets_loader :
    Meets (fun p => p.calls = [] ∧ p.stages = [.idle])
      (Work.onTarget .ofEnvironment (makeLoader target.recording settings))
      (fun loader p => Constructs (.ok loader) p.calls ∧ p.stages = [.idle])
      fun _ => OnlySlice compiler settings request := by
  refine Adds.meets (makes_onTarget .ofEnvironment (makes_makeLoader target settings)) ?_ ?_
  · rintro p q loader made ⟨none, idle⟩ ⟨same, added⟩ constructs
    rw [none, List.nil_append] at added
    exact ⟨added ▸ constructs, same.trans idle⟩
  · rintro p q _ made ⟨none, idle⟩ ⟨same, added⟩ some
    rw [none, List.nil_append] at added
    have quiet : Quiet q.calls := by
      rw [added]
      rcases some with plain | ⟨result, constructs⟩
      · exact quiet_of_plain plain
      · exact constructs.quiet
    exact quiet.onlySlice (by rw [same, idle]; decide)

theorem meets_ready (loader : ObjectRef) :
    Meets (fun p => Constructs (.ok loader) p.calls ∧ p.stages = [.idle])
      (Work.enter (σ := σ × List Noted) .classLoaderReady)
      (fun _ p => Constructs (.ok loader) p.calls ∧ .classesDefined ∉ p.stages)
      fun _ => OnlySlice compiler settings request := by
  refine (meets_enter _).mono (fun _ h => h) ?_ ?_
  · rintro _ _ ⟨q, ⟨made, idle⟩, -, rfl⟩
    refine ⟨made, ?_⟩
    change .classesDefined ∉ q.stages ++ [.classLoaderReady]
    rw [idle]
    decide
  · rintro _ p ⟨⟨made, idle⟩, -⟩
    exact made.quiet.onlySlice (idle ▸ by decide)

/-- The loader is made and the version told. Nothing is defined yet. -/
def Asked (loader : ObjectRef) (version : ClassFile.Version)
    (p : Progress (σ × List Noted)) : Prop :=
  ∃ told, Ready loader told p.calls ∧ .classesDefined ∉ p.stages ∧
    version = versionFor settings told

/-- The units are compiled for the version told. Nothing is defined yet. -/
def Compiled (loader : ObjectRef) (units : List CompiledUnit)
    (p : Progress (σ × List Noted)) : Prop :=
  ∃ version, Asked settings loader version p ∧ compiler request.units version = .ok units

/-- The units are compiled, and the generated ones rewritten. Nothing is defined yet. -/
def Prepared (loader : ObjectRef) (generated : List CompiledUnit)
    (p : Progress (σ × List Noted)) : Prop :=
  ∃ units, Compiled compiler settings request loader units p ∧
    generatedUnits settings units = .ok generated

theorem Asked.onlySlice {loader : ObjectRef} {version : ClassFile.Version}
    {p : Progress (σ × List Noted)} (h : Asked settings loader version p) :
    OnlySlice compiler settings request p := by
  obtain ⟨told, ready, unreached, -⟩ := h
  exact ready.quiet.onlySlice unreached

theorem meets_asked (loader : ObjectRef) :
    Meets (fun p => Constructs (.ok loader) p.calls ∧ .classesDefined ∉ p.stages)
      (targetVersion target.recording settings) (Asked settings loader)
      fun _ => OnlySlice compiler settings request := by
  refine (meets_targetVersion target settings).mono (fun _ h => h) ?_ fun _ _ h => h
  rintro version _ ⟨q, ⟨made, unreached⟩, rfl, same⟩
  have noted : (q.afterCall target .platformVersion).calls = q.calls ++ [.platformVersion _] :=
    List.map_append
  exact ⟨_, noted ▸ made.ready _, unreached, same⟩

theorem meets_compiled (loader : ObjectRef) (version : ClassFile.Version) :
    Meets (Asked settings loader version)
      (Work.ofExcept (σ := σ × List Noted) ((compiler request.units version).mapError .ofCompile))
      (Compiled compiler settings request loader)
      fun _ => OnlySlice compiler settings request := by
  refine (meets_ofExcept _).mono (fun _ h => h) ?_ ?_
  · rintro units p ⟨asked, compiled⟩
    exact ⟨version, asked, except_mapError_eq_ok.mp compiled⟩
  · exact fun _ _ ⟨asked, _⟩ => asked.onlySlice compiler settings request

theorem meets_prepared (loader : ObjectRef) (units : List CompiledUnit) :
    Meets (Compiled compiler settings request loader units)
      (Work.ofExcept (σ := σ × List Noted) (generatedUnits settings units))
      (Prepared compiler settings request loader)
      fun _ => OnlySlice compiler settings request :=
  (meets_ofExcept _).mono (fun _ h => h)
    (fun _ _ ⟨compiled, rewritten⟩ => ⟨units, compiled, rewritten⟩)
    fun _ _ ⟨⟨_, asked, _⟩, _⟩ => asked.onlySlice compiler settings request

theorem meets_defineClasses (loader : ObjectRef) (generated : List CompiledUnit) :
    Meets (Prepared compiler settings request loader generated)
      (defineClasses target.recording loader generated request.generated)
      (fun _ p => Whole compiler settings request p.calls)
      fun _ => OnlySlice compiler settings request := by
  refine Adds.meets (makes_defineClasses target loader generated _) ?_ ?_
  · rintro p q _ made ⟨units, ⟨_, ⟨told, ready, -, rfl⟩, compiled⟩, rewritten⟩ ⟨-, added⟩
      ⟨bytesClass, rest, all, rfl⟩
    rw [added]
    exact ready.definesAll compiled rewritten all
  · rintro p q _ made ⟨units, ⟨_, ⟨told, ready, unreached, rfl⟩, compiled⟩, rewritten⟩ ⟨same, added⟩
    rintro (plain | ⟨bytesClass, rest, some, rfl⟩)
    · have quiet := quiet_append ready.quiet plain
      rw [← added] at quiet
      exact quiet.onlySlice (same ▸ unreached)
    · unfold OnlySlice
      rw [added]
      exact ready.definesSome compiled rewritten some (same ▸ unreached)

theorem whole_enter (stage : Stage) :
    Meets (fun p => Whole compiler settings request p.calls)
      (Work.enter (σ := σ × List Noted) stage)
      (fun _ p => Whole compiler settings request p.calls)
      fun _ => OnlySlice compiler settings request :=
  (meets_enter stage).mono (fun _ h => h) (fun _ _ ⟨_, whole, _, same⟩ => same ▸ whole)
    fun _ p h => h.1.onlySlice p.stages

theorem whole_ofExcept {α : Type} (result : Except Fault α) :
    Meets (fun p => Whole compiler settings request p.calls)
      (Work.ofExcept (σ := σ × List Noted) result)
      (fun _ p => Whole compiler settings request p.calls)
      fun _ => OnlySlice compiler settings request :=
  (meets_ofExcept result).mono (fun _ h => h) (fun _ _ h => h.1)
    fun _ p h => h.1.onlySlice p.stages

theorem whole_run (call : StaticCall) :
    Meets (fun p => Whole compiler settings request p.calls)
      (Work.onTarget .ofCall (call.run target.recording))
      (fun _ p => Whole compiler settings request p.calls)
      fun _ => OnlySlice compiler settings request := by
  have kept : ∀ (p q : Progress (σ × List Noted)) (made : List Call),
      Whole compiler settings request p.calls →
      (Trail.appending Progress.stages Progress.calls).leads p made q → Plain made →
      Whole compiler settings request q.calls := fun _ _ _ whole ⟨_, added⟩ plain =>
    added ▸ whole.append plain
  exact Adds.meets (makes_onTarget .ofCall (plain_run target call))
    (fun p q _ made => kept p q made)
    fun p q _ made whole added plain => (kept p q made whole added plain).onlySlice q.stages

/-- Evaluation defines generated units only, each step after those before it. -/
theorem meets_steps :
    Meets (fun p => p.calls = [] ∧ p.stages = [.idle])
      (steps compiler staticCalls settings target.recording request)
      (fun _ => OnlySlice compiler settings request)
      fun _ => OnlySlice compiler settings request := by
  refine (meets_checkActive.mono (fun _ h => h) (fun _ _ h => h.1) ?_).bind fun _ => ?_
  · rintro _ p ⟨⟨fresh, idle⟩, -⟩
    exact (quiet_of_plain (fresh ▸ plain_nil)).onlySlice (idle ▸ by decide)
  refine (meets_loader compiler settings target request).bind fun loader => ?_
  refine (meets_ready compiler settings request loader).bind fun _ => ?_
  refine (meets_asked compiler settings target request loader).bind fun version => ?_
  refine (meets_compiled compiler settings request loader version).bind fun units => ?_
  refine (meets_prepared compiler settings request loader units).bind fun generated => ?_
  refine (meets_checkActive.mono (fun _ h => h) (fun _ _ h => h.1) ?_).bind fun _ => ?_
  · rintro _ p ⟨⟨_, ⟨_, asked, _⟩, _⟩, -⟩
    exact asked.onlySlice compiler settings request
  refine (meets_defineClasses compiler settings target request loader generated).bind fun _ => ?_
  -- from here on the slice is whole, and every step keeps it so
  refine (whole_enter compiler settings request _).bind fun _ => ?_
  refine (whole_ofExcept compiler settings request _).bind fun _ => ?_
  refine (whole_ofExcept compiler settings request _).bind fun call => ?_
  refine (whole_enter compiler settings request _).bind fun _ => ?_
  refine (whole_run compiler settings target request call).bind fun value => ?_
  exact (whole_enter compiler settings request _).bind fun _ =>
    Meets.pure fun p h => h.onlySlice p.stages

/-- The calls of an evaluation define generated units, one after another, and nothing else. -/
theorem evaluate_definesOnlySlice (s : Suspension σ) :
    DefinesOnlySlice compiler settings request
      ((performed compiler settings target request s).map (·.call))
      (evaluateStatic compiler settings target request s).1.stages := by
  rw [evaluate_recording]
  have run := meets_steps compiler settings target request ⟨[.idle], s.recorded⟩ ⟨rfl, rfl⟩
  simp only [performed, evaluateStatic, evaluate, Work.run]
  cases done : steps compiler staticCalls settings target.recording request
      ⟨[.idle], s.recorded⟩ with
  | mk result p =>
    rw [done] at run
    cases result with
    | ok value => exact run
    | error fault => exact DefinesOnlySlice.failed run

end Run

end JavaSnippet.Evaluation
