import JavaSnippet.Proofs.Evaluation.Recording
import JavaSnippet.Proofs.Target.Calls
import Mathlib.Data.List.Forall2
/-!
Which classes an evaluation defines. They are the generated ones among those compiled, in order
and with the privileged super class, all through one loader made for the evaluation. An evaluation
that stops early has defined the first of them.
-/
namespace JavaSnippet.Evaluation

open Target Compile Suspension

variable {σ : Type}

/-- The second unit is the first with the privileged super class. -/
def Reparented (settings : Settings) (unit rewritten : CompiledUnit) : Prop :=
  rewritten.qualifiedName = unit.qualifiedName ∧
    ∃ patch, ClassFile.replaceSuper unit.bytes settings.baseSuperclass
        settings.privilegedSuperclass = .ok patch ∧
      rewritten.bytes = patch.bytes unit.bytes

/-- The call of the loader that defines a class of all bytes of an array. -/
def definition (loader name array : ObjectRef) (unit : CompiledUnit) : Operation Value :=
  .invokeMethod (.instance loader) "defineClass" defineType
    [.object name, .object array, intValue 0, intValue unit.bytes.length]

/-- An array is filled with the bytes of a unit, and then the loader is asked to define the class
of that name from all of them. -/
def Submits (loader name array : ObjectRef) (unit : CompiledUnit) (calls : List Call) : Prop :=
  ∃ result asked, Performed (definition loader name array unit) result asked ∧
    calls = .setElements array 0 (unit.bytes.map byteValue) (.ok ()) :: asked

/-- The calls that define a class: a string of its name and an array as long as its bytes are made
for it, and both are submitted. The length fits in an `int`. -/
def Defines (loader : ObjectRef) (bytesClass : ClassRef) (unit : CompiledUnit)
    (calls : List Call) : Prop :=
  unit.bytes.length < intLimit ∧
    ∃ name named rest, Performed (.newString unit.qualifiedName) (.ok name) named ∧
      (∃ array sized last, Performed (.newArray bytesClass unit.bytes.length) (.ok array) sized ∧
        Submits loader name array unit last ∧ rest = sized ++ last) ∧
      calls = named ++ rest

/-- Calls that define the generated units or the first of them, and what stands around. -/
structure SliceDefined (compiler : Compiler) (settings : Settings) (request : Request)
    (calls : List Call) where
  told : Except Target.Fault String
  units : List CompiledUnit
  generated : List CompiledUnit
  loader : ObjectRef
  bytesClass : ClassRef
  before : List Call
  /-- The calls for each class defined. -/
  segments : List (List Call)
  after : List Call
  compiled : compiler request.units (versionFor settings told) = .ok units
  rewritten : List.Forall₂ (Reparented settings)
    (units.filter (·.isGenerated settings.marker.text)) generated
  defined : List.Forall₂ (Defines loader bytesClass) (generated.take segments.length) segments
  split : calls = before ++ (segments.flatten ++ after)
  versionTold : .platformVersion told ∈ before
  loaderMade : ∃ owner type arguments, .newInstance owner type arguments (.ok loader) ∈ before
  bytesClassFound : .resolveClass FieldType.byte.array.source none (.ok bytesClass) ∈ before
  /-- No other method of an object is called. -/
  nothingElse : ∀ c ∈ before ++ after, c.isOnInstance = false

/-- Calls with one construction among them. -/
def Constructs (result : Except Target.Fault ObjectRef) (calls : List Call) : Prop :=
  ∃ owner type arguments before after, Plain before ∧ OnlyPins after ∧
    calls = before ++ .newInstance owner type arguments result :: after

theorem Constructs.after_plain {result : Except Target.Fault ObjectRef} {front back : List Call}
    (plain : Plain front) (h : Constructs result back) : Constructs result (front ++ back) := by
  obtain ⟨owner, type, arguments, before, after, first, last, rfl⟩ := h
  exact ⟨owner, type, arguments, front ++ before, after, plain_append.mpr ⟨plain, first⟩, last,
    (List.append_assoc ..).symm⟩

theorem forall₂_reparented {settings : Settings} {units generated : List CompiledUnit}
    (h : generatedUnits settings units = .ok generated) :
    List.Forall₂ (Reparented settings)
      (units.filter (·.isGenerated settings.marker.text)) generated := by
  have each : List.Forall₂ (fun unit rewritten => _ = Except.ok rewritten) _ generated :=
    List.forall₂_map_left_iff.mp (List.forall₂_map_right_iff.mp
      (List.forall₂_eq_eq_eq ▸ except_mapM_ok h))
  refine each.imp fun unit rewritten made => ?_
  cases replaced : ClassFile.replaceSuper unit.bytes settings.baseSuperclass
      settings.privilegedSuperclass with
  | error fault =>
    rw [replaced] at made
    cases made
  | ok patch =>
    rw [replaced] at made
    obtain rfl := Except.ok.inj made
    exact ⟨rfl, patch, replaced, rfl⟩

section Definitions

variable (target : Target σ)

theorem makes_submit (loader name array : ObjectRef) (unit : CompiledUnit) :
    Makes
      (do setElements target.recording array 0 (unit.bytes.map byteValue)
          let _ ← invokeMethod target.recording (.instance loader) "defineClass" defineType
            [.object name, .object array, intValue 0, intValue unit.bytes.length])
      (fun _ => Submits loader name array unit)
      (fun _ made => Plain made ∨ Submits loader name array unit made) := by
  refine Adds.bind (makes_sendActive target _) (fun _ =>
    Adds.give (makes_invokeMethod target _ _ _ _) fun _ => ()) ?_ ?_ ?_
  · rintro _ _ _ asked rfl ⟨value, -, performed⟩
    exact ⟨_, asked, performed, rfl⟩
  · rintro fault _ (rfl | rfl)
    · exact .inl plain_nil
    · exact .inl (plain_cons.mpr ⟨⟨rfl, rfl⟩, plain_nil⟩)
  · rintro _ fault _ asked rfl (rfl | ⟨result, performed⟩)
    · exact .inl (plain_cons.mpr ⟨⟨rfl, rfl⟩, plain_nil⟩)
    · exact .inr ⟨result, asked, performed, rfl⟩

/-- An object is made for work that goes on plainly or to the end. -/
theorem makes_object {α β : Type} {operation : Operation α} {x : Act (σ × List Noted) α}
    {f : α → Act (σ × List Noted) β} {whole : α → List Call → Prop}
    (only : ∀ result, (Call.of operation result).isOnInstance = false ∧
      (Call.of operation result).isConstruction = false)
    (first : Makes x (fun a => Performed operation (.ok a)) fun _ => Broken operation)
    (next : ∀ a, Makes (f a) (fun _ => whole a) fun _ made => Plain made ∨ whole a made) :
    Makes (x >>= f)
      (fun _ made => ∃ a front rest, Performed operation (.ok a) front ∧ whole a rest ∧
        made = front ++ rest)
      (fun _ made => Plain made ∨ ∃ a front rest, Performed operation (.ok a) front ∧
        whole a rest ∧ made = front ++ rest) := by
  refine Adds.bind first next ?_ ?_ ?_
  · exact fun a _ front rest performed h => ⟨a, front, rest, performed, h, rfl⟩
  · exact fun _ front broken => .inl (broken.plain only)
  · rintro a _ front rest performed (plain | h)
    · exact .inl (plain_append.mpr ⟨performed.plain (only _), plain⟩)
    · exact .inr ⟨a, front, rest, performed, h, rfl⟩

theorem makes_defineUnit (bytesClass : ClassRef) (loader : ObjectRef) {unit : CompiledUnit}
    (fits : unit.bytes.length < intLimit) :
    Makes (defineUnit target.recording bytesClass loader unit)
      (fun _ => Defines loader bytesClass unit)
      (fun _ made => Plain made ∨ Defines loader bytesClass unit made) :=
  Adds.mono (makes_object (fun _ => ⟨rfl, rfl⟩) (makes_newString target _) fun name =>
    makes_object (fun _ => ⟨rfl, rfl⟩) (makes_newArray target _ _) fun array =>
      makes_submit target loader name array unit)
    (fun _ _ made => ⟨fits, made⟩) fun _ _ => Or.imp_right fun made => ⟨fits, made⟩

theorem makes_construction (owner : ClassRef) (type : MethodType) (arguments : List Value) :
    Makes (newInstance target.recording owner type arguments) (fun a => Constructs (.ok a))
      (fun _ made => Plain made ∨ ∃ result, Constructs result made) := by
  refine Adds.mono (makes_newInstance target owner type arguments) ?_ ?_
  · rintro a made ⟨pins, only, rfl⟩
    exact ⟨owner, type, arguments, [], pins, plain_nil, only, rfl⟩
  · rintro fault made (rfl | ⟨result, pins, only, rfl⟩)
    · exact .inl plain_nil
    · exact .inr ⟨result, owner, type, arguments, [], pins, plain_nil, only, rfl⟩

theorem makes_before_construction {α : Type} {x : Act (σ × List Noted) α}
    {f : α → Act (σ × List Noted) ObjectRef} (first : Makes x (fun _ => Plain) fun _ => Plain)
    (next : ∀ a, Makes (f a) (fun ref => Constructs (.ok ref))
      (fun _ made => Plain made ∨ ∃ result, Constructs result made)) :
    Makes (x >>= f) (fun ref => Constructs (.ok ref))
      (fun _ made => Plain made ∨ ∃ result, Constructs result made) := by
  refine Adds.bind first next (fun _ _ _ _ plain => .after_plain plain) (fun _ _ => .inl) ?_
  rintro _ fault front back plain (h | ⟨result, h⟩)
  · exact .inl (plain_append.mpr ⟨plain, h⟩)
  · exact .inr ⟨result, h.after_plain plain⟩

/-- The loader is made in the only construction among the calls. -/
theorem makes_makeLoader (settings : Settings) :
    Makes (makeLoader target.recording settings) (fun loader => Constructs (.ok loader))
      (fun _ made => Plain made ∨ ∃ result, Constructs result made) := by
  have started : Makes (send target.recording .contextLoader) (fun _ => Plain) fun _ => Plain :=
    Adds.mono (makes_send target _)
      (fun _ _ same => same ▸ plain_cons.mpr ⟨⟨rfl, rfl⟩, plain_nil⟩)
      fun _ _ same => same ▸ plain_cons.mpr ⟨⟨rfl, rfl⟩, plain_nil⟩
  exact makes_before_construction started fun _ =>
    makes_before_construction (plain_resolveClass target _ _) fun _ =>
      makes_before_construction (plain_resolveClass target _ _) fun _ =>
        makes_before_construction (plain_newArray target _ _) fun _ =>
          makes_construction target _ _ _

theorem plain_argument (l : Literal) (parameter : FieldType) :
    Makes (StaticCall.argument target.recording l parameter) (fun _ => Plain) fun _ => Plain := by
  cases l with
  | string text =>
    exact (plain_newString target text).plain fun _ => Adds.pure plain_nil
  | int _ | long _ | boolean _ | null => exact Adds.pure plain_nil

theorem plain_makeArguments (literals : List Literal) (parameters : List FieldType) :
    Makes (StaticCall.makeArguments target.recording literals parameters) (fun _ => Plain)
      fun _ => Plain := by
  induction literals generalizing parameters with
  | nil => exact Adds.pure plain_nil
  | cons l literals ih =>
    cases parameters with
    | nil => exact Adds.pure plain_nil
    | cons p parameters =>
      exact (plain_argument target l p).plain fun _ =>
        (ih parameters).plain fun _ => Adds.pure plain_nil

/-- A static call calls no method of an object. -/
theorem plain_run (call : StaticCall) :
    Makes (call.run target.recording) (fun _ => Plain) fun _ => Plain :=
  (plain_makeArguments target _ _).plain fun _ => plain_invokeStatic target _ _ _ _

end Definitions

/-- The calls made so far. -/
def Progress.calls (p : Progress (σ × List Noted)) : List Call := p.suspension.calls

/-- The step makes calls related to its result by `post`, or to its fault by `fail`, and enters
no stage. -/
abbrev Work.Makes {α : Type} (x : Work (σ × List Noted) α) (post : α → List Call → Prop)
    (fail : Fault → List Call → Prop) : Prop :=
  Adds (.appending Progress.stages Progress.calls) x post fail

section Steps

variable (target : Target σ)

theorem makes_onTarget {α : Type} (classify : Target.Fault → Fault)
    {x : Act (σ × List Noted) α} {post : α → List Call → Prop} {fail : List Call → Prop}
    (h : Makes x post fun _ => fail) : Work.Makes (.onTarget classify x) post fun _ => fail := by
  refine ⟨?_⟩
  rintro _ p rfl
  have step := Adds.run h p.suspension p.suspension rfl
  unfold Work.onTarget
  cases done : x p.suspension with
  | mk result t =>
    rw [done] at step
    cases result with
    | ok a =>
      obtain ⟨new, ⟨-, added⟩, made⟩ := step
      exact ⟨new, ⟨rfl, added⟩, made⟩
    | error fault =>
      obtain ⟨new, ⟨-, added⟩, made⟩ := step
      exact ⟨new, ⟨rfl, added⟩, made⟩

/-- The first of the units are defined, and the rest of the calls is plain. -/
def DefinesSome (loader : ObjectRef) (bytesClass : ClassRef) (units : List CompiledUnit)
    (calls : List Call) : Prop :=
  ∃ segments rest, List.Forall₂ (Defines loader bytesClass) (units.take segments.length) segments ∧
    Plain rest ∧ calls = segments.flatten ++ rest

theorem makes_defineUnits (bytesClass : ClassRef) (loader : ObjectRef)
    (units : List CompiledUnit) :
    Work.Makes (defineUnits target.recording bytesClass loader units)
      (fun _ made => ∃ segments, List.Forall₂ (Defines loader bytesClass) units segments ∧
        made = segments.flatten)
      (fun _ => DefinesSome loader bytesClass units) := by
  induction units with
  | nil => exact Adds.pure ⟨[], .nil, rfl⟩
  | cons unit units ih =>
    unfold defineUnits
    by_cases large : intLimit ≤ unit.bytes.length
    · rw [if_pos large]
      exact Adds.raise ⟨[], [], .nil, plain_nil, rfl⟩
    · rw [if_neg large]
      have one := makes_defineUnit target bytesClass loader (Nat.lt_of_not_le large)
      refine Adds.bind (makes_onTarget .ofEnvironment one) (fun _ => ih) ?_ ?_ ?_
      · rintro _ _ segment _ defined ⟨segments, each, rfl⟩
        exact ⟨segment :: segments, .cons defined each, rfl⟩
      · rintro _ made (plain | defined)
        · exact ⟨[], made, .nil, plain, rfl⟩
        · exact ⟨[made], [], .cons defined .nil, plain_nil, by simp⟩
      · rintro _ _ segment _ defined ⟨segments, rest, each, plain, rfl⟩
        exact ⟨segment :: segments, rest, .cons defined each, plain, by simp⟩

/-- The class of byte arrays is found. -/
def bytesFound (bytesClass : ClassRef) : Call :=
  .resolveClass FieldType.byte.array.source none (.ok bytesClass)

theorem makes_bytesClass :
    Makes (resolveClass target.recording FieldType.byte.array.source none)
      (fun bytesClass made => made = [bytesFound bytesClass]) (fun _ => Plain) := by
  refine Adds.mono (makes_sendActive target _) (fun _ _ same => same) ?_
  rintro fault _ (rfl | rfl)
  · exact plain_nil
  · exact plain_cons.mpr ⟨⟨rfl, rfl⟩, plain_nil⟩

/-- All units are defined, and the rest of the calls is plain. -/
def DefinesAll (loader : ObjectRef) (bytesClass : ClassRef) (units : List CompiledUnit)
    (calls : List Call) : Prop :=
  ∃ segments rest, List.Forall₂ (Defines loader bytesClass) units segments ∧ Plain rest ∧
    calls = segments.flatten ++ rest

theorem DefinesAll.some {loader : ObjectRef} {bytesClass : ClassRef} {units : List CompiledUnit}
    {calls : List Call} (h : DefinesAll loader bytesClass units calls) :
    DefinesSome loader bytesClass units calls := by
  obtain ⟨segments, rest, each, plain, rfl⟩ := h
  refine ⟨segments, rest, ?_, plain, rfl⟩
  rwa [← each.length_eq, List.take_length]

theorem makes_defineClasses (loader : ObjectRef) (units : List CompiledUnit) (name : String) :
    Work.Makes (defineClasses target.recording loader units name)
      (fun _ made => ∃ bytesClass rest, DefinesAll loader bytesClass units rest ∧
        made = bytesFound bytesClass :: rest)
      (fun _ made => Plain made ∨ ∃ bytesClass rest, DefinesSome loader bytesClass units rest ∧
        made = bytesFound bytesClass :: rest) := by
  have defined : ∀ bytesClass, Work.Makes
      (do defineUnits target.recording bytesClass loader units
          Work.onTarget (notVisible name) (resolveClass target.recording name (some loader)))
      (fun _ => DefinesAll loader bytesClass units)
      (fun _ => DefinesSome loader bytesClass units) := fun bytesClass =>
    Adds.bind (makes_defineUnits target bytesClass loader units)
      (fun _ => makes_onTarget (notVisible name) (plain_resolveClass target name (some loader)))
      (fun _ _ _ rest ⟨segments, each, same⟩ plain => ⟨segments, rest, each, plain, same ▸ rfl⟩)
      (fun _ _ some => some)
      (fun _ _ _ rest ⟨segments, each, same⟩ plain =>
        DefinesAll.some ⟨segments, rest, each, plain, same ▸ rfl⟩)
  refine Adds.bind (makes_onTarget .ofEnvironment (makes_bytesClass target)) defined ?_ ?_ ?_
  · rintro bytesClass _ _ rest rfl all
    exact ⟨bytesClass, rest, all, rfl⟩
  · exact fun _ _ plain => .inl plain
  · rintro bytesClass _ _ rest rfl some
    exact .inr ⟨bytesClass, rest, some, rfl⟩

end Steps

end JavaSnippet.Evaluation
