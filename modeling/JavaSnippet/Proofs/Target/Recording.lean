import JavaSnippet.Proofs.Contract
import JavaSnippet.Target.Suspension
/-!
What is performed on a target, one operation after another. A target that notes every operation it
is given answers like the target it stands for, so what is noted is what a piece of work performs.
A use of a suspension may fail, and the suspension is used further all the same.
-/
namespace JavaSnippet.Target

/-- An operation together with its result. -/
inductive Call where
  | resolveClass (name : String) (loader : Option ObjectRef) (result : Except Fault ClassRef)
  | newInstance (owner : ClassRef) (type : MethodType) (arguments : List Value)
      (result : Except Fault ObjectRef)
  | invokeMethod (receiver : Receiver) (name : String) (type : MethodType)
      (arguments : List Value) (result : Except Fault Value)
  | newString (text : String) (result : Except Fault ObjectRef)
  | newArray (arrayType : ClassRef) (length : Nat) (result : Except Fault ObjectRef)
  | setElement (array : ObjectRef) (index : Nat) (value : Value) (result : Except Fault Unit)
  | setElements (array : ObjectRef) (first : Nat) (values : List Value)
      (result : Except Fault Unit)
  | pin (ref : ObjectRef) (result : Except Fault Unit)
  | unpin (ref : ObjectRef) (result : Except Fault Unit)
  | platformVersion (result : Except Fault String)
  | contextLoader (result : Except Fault (Option ObjectRef))
  | resume (result : Except Fault Unit)

namespace Call

def of : {α : Type} → Operation α → Except Fault α → Call
  | _, .resolveClass name loader, result => resolveClass name loader result
  | _, .newInstance owner type arguments, result => newInstance owner type arguments result
  | _, .invokeMethod receiver name type arguments, result =>
    invokeMethod receiver name type arguments result
  | _, .newString text, result => newString text result
  | _, .newArray arrayType length, result => newArray arrayType length result
  | _, .setElement array index value, result => setElement array index value result
  | _, .setElements array first values, result => setElements array first values result
  | _, .pin ref, result => pin ref result
  | _, .unpin ref, result => unpin ref result
  | _, .platformVersion, result => platformVersion result
  | _, .contextLoader, result => contextLoader result
  | _, .resume, result => resume result

def succeeded : Call → Bool
  | resolveClass _ _ result => result.isOk
  | newInstance _ _ _ result | newString _ result | newArray _ _ result => result.isOk
  | invokeMethod _ _ _ _ result => result.isOk
  | setElement _ _ _ result | setElements _ _ _ result | pin _ result | unpin _ result |
    resume result => result.isOk
  | platformVersion result => result.isOk
  | contextLoader result => result.isOk

@[simp] theorem succeeded_of {α : Type} (operation : Operation α) (result : Except Fault α) :
    (of operation result).succeeded = result.isOk := by
  cases operation <;> rfl

/-- The object that the call made or answered with. The loader that a thread runs in is not made
for the caller, and is none. -/
def created? : Call → Option ObjectRef
  | newInstance _ _ _ (.ok ref) | newString _ (.ok ref) | newArray _ _ (.ok ref) => some ref
  | invokeMethod _ _ _ _ (.ok value) => value.object?
  | _ => none

/-- The object that the call pinned. -/
def pinned? : Call → Option ObjectRef
  | pin ref (.ok ()) => some ref
  | _ => none

end Call

/-- A call, and whether the work was cancelled while it ran. -/
structure Noted where
  call : Call
  cancels : Bool

variable {σ α : Type}

/-- The target with a note of each operation performed on it, in order. -/
def Target.recording (target : Target σ) : Target (σ × List Noted) where
  perform operation s :=
    let reply := target.perform operation s.1
    ⟨reply.result, (reply.state, s.2 ++ [⟨.of operation reply.result, reply.cancels⟩]),
      reply.cancels⟩

namespace Suspension

/-- The suspension of a target whose operations are noted from now on. -/
def recorded (s : Suspension σ) : Suspension (σ × List Noted) :=
  ⟨(s.state, []), s.pins, s.cancelled⟩

/-- The suspension without the notes. -/
def plain (s : Suspension (σ × List Noted)) : Suspension σ :=
  ⟨s.state.1, s.pins, s.cancelled⟩

/-- The notes. -/
def noted (s : Suspension (σ × List Noted)) : List Noted := s.state.2

variable (target : Target σ)

/-- The suspension after an operation was performed and noted. -/
def afterCall (operation : Operation α) (s : Suspension (σ × List Noted)) :
    Suspension (σ × List Noted) :=
  let reply := target.perform operation s.state.1
  ⟨(reply.state, s.noted ++ [⟨.of operation reply.result, reply.cancels⟩]), s.pins,
    s.cancelled || reply.cancels⟩

theorem send_recording (operation : Operation α) (s : Suspension (σ × List Noted)) :
    send target.recording operation s =
      ((target.perform operation s.state.1).result, afterCall target operation s) :=
  rfl

theorem sendActive_recording (operation : Operation α) (s : Suspension (σ × List Noted)) :
    sendActive target.recording operation s =
      if s.cancelled then (.error .cancelled, s)
      else ((target.perform operation s.state.1).result, afterCall target operation s) := by
  cases held : s.cancelled <;>
    simp [sendActive, ExceptState.bind_apply, ensureActive, held, send_recording]

theorem noted_afterCall (operation : Operation α) (s : Suspension (σ × List Noted)) :
    (afterCall target operation s).noted =
      s.noted ++ [⟨.of operation (target.perform operation s.state.1).result,
        (target.perform operation s.state.1).cancels⟩] :=
  rfl

theorem mirrors_send (operation : Operation α) :
    Mirrors plain (send target.recording operation) (send target operation) :=
  fun _ => rfl

theorem mirrors_ensureActive :
    Mirrors plain (ensureActive (σ := σ × List Noted)) (ensureActive (σ := σ)) :=
  fun _ => rfl

theorem mirrors_addPin (ref : ObjectRef) :
    Mirrors plain (addPin (σ := σ × List Noted) ref) (addPin (σ := σ) ref) :=
  fun _ => rfl

theorem mirrors_sendActive (operation : Operation α) :
    Mirrors plain (sendActive target.recording operation) (sendActive target operation) :=
  mirrors_ensureActive.bind fun _ => mirrors_send target operation

/-- An object that is not pinned yet is sent to be pinned; one that is, is left alone. -/
theorem pin_eq (ref : ObjectRef) (s : Suspension σ) :
    pin target ref s =
      if ref ∈ s.pins then (.ok ref, s)
      else (do sendActive target (.pin ref); addPin ref; return ref : Act σ ObjectRef) s := by
  have asked : pin target ref s =
      (do if s.pins.contains ref then return ref
          sendActive target (.pin ref); addPin ref; return ref : Act σ ObjectRef) s := rfl
  rw [asked]
  by_cases held : ref ∈ s.pins
  · rw [if_pos held, if_pos (List.contains_iff_mem.mpr held)]
    rfl
  · rw [if_neg held, if_neg (fun h => held (List.contains_iff_mem.mp h))]

theorem mirrors_pin (ref : ObjectRef) :
    Mirrors plain (pin target.recording ref) (pin target ref) := by
  intro s
  have sent : Mirrors plain
      (do sendActive target.recording (.pin ref); addPin ref; return ref)
      (do sendActive target (.pin ref); addPin ref; return ref) :=
    (mirrors_sendActive target _).bind fun _ =>
      (mirrors_addPin ref).bind fun _ => Mirrors.pure ref
  rw [pin_eq, pin_eq]
  change (if ref ∈ s.pins then _ else _) = _
  split
  · rfl
  · exact sent s

theorem mirrors_pinValue (value : Value) :
    Mirrors plain (pinValue target.recording value) (pinValue target value) := by
  cases value with
  | object ref => exact (mirrors_pin target ref).bind fun _ => Mirrors.pure _
  | void | null | primitive _ => exact Mirrors.pure _

theorem mirrors_newInstance (owner : ClassRef) (type : MethodType) (arguments : List Value) :
    Mirrors plain (newInstance target.recording owner type arguments)
      (newInstance target owner type arguments) :=
  (mirrors_sendActive target _).bind (mirrors_pin target)

theorem mirrors_invokeMethod (receiver : Receiver) (name : String) (type : MethodType)
    (arguments : List Value) :
    Mirrors plain (invokeMethod target.recording receiver name type arguments)
      (invokeMethod target receiver name type arguments) :=
  (mirrors_sendActive target _).bind (mirrors_pinValue target)

theorem mirrors_newString (text : String) :
    Mirrors plain (newString target.recording text) (newString target text) :=
  (mirrors_sendActive target _).bind (mirrors_pin target)

theorem mirrors_newArray (arrayType : ClassRef) (length : Nat) :
    Mirrors plain (newArray target.recording arrayType length)
      (newArray target arrayType length) :=
  (mirrors_sendActive target _).bind (mirrors_pin target)

end Suspension

namespace Suspension

inductive Use where
  | pin (ref : ObjectRef)
  | pinValue (value : Value)
  | resolveClass (name : String) (loader : Option ObjectRef)
  | newInstance (owner : ClassRef) (type : MethodType) (arguments : List Value)
  | invokeMethod (receiver : Receiver) (name : String) (type : MethodType)
      (arguments : List Value)
  | newString (text : String)
  | newArray (arrayType : ClassRef) (length : Nat)
  | setElements (array : ObjectRef) (first : Nat) (values : List Value)
  | releasePins
  | cancel

variable {σ : Type}

/-- The suspension after a use, whatever its result. -/
def Use.run (target : Target σ) : Use → Suspension σ → Suspension σ
  | pin ref, s => (Suspension.pin target ref s).2
  | pinValue value, s => (Suspension.pinValue target value s).2
  | resolveClass name loader, s => (Suspension.resolveClass target name loader s).2
  | newInstance owner type arguments, s =>
    (Suspension.newInstance target owner type arguments s).2
  | invokeMethod receiver name type arguments, s =>
    (Suspension.invokeMethod target receiver name type arguments s).2
  | newString text, s => (Suspension.newString target text s).2
  | newArray arrayType length, s => (Suspension.newArray target arrayType length s).2
  | setElements array first values, s => (Suspension.setElements target array first values s).2
  | releasePins, s => (Suspension.releasePins target s).2
  | cancel, s => s.cancel

/-- The suspension after uses in order. -/
def runAll (target : Target σ) (uses : List Use) (s : Suspension σ) : Suspension σ :=
  uses.foldl (fun s use => use.run target s) s

/-- A fault of one unpin does not keep the others from being sent. -/
theorem unpinAll_cons (target : Target σ) (ref : ObjectRef) (refs : List ObjectRef)
    (s : Suspension σ) :
    (unpinAll target (ref :: refs) s).2 =
      (unpinAll target refs (send target (.unpin ref) s).2).2 := by
  conv => lhs; unfold unpinAll
  cases send target (.unpin ref) s with
  | mk first t => cases first <;> rfl

end Suspension

end JavaSnippet.Target
