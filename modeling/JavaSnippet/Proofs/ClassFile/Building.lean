import JavaSnippet.Proofs.ClassFile.Interning
/-!
Building a body step by step. A step that adds an instruction first chooses it, which changes the
pool at most, and then pushes it; the other steps reserve a local slot or ask the pool for
something. Steps may fail, and the next one goes on from what is left.
-/
namespace JavaSnippet.ClassFile

/-- An instruction was refused because the code became too long with it. -/
def Fault.TooLong (fault : Fault) : Prop := ∃ i offset, fault = .codeOverflow i offset

namespace MethodBody

open ExceptState Pool

variable {α β : Type}

/-- The ways to add an instruction. -/
inductive Emission where
  | push (i : Instruction)
  | int (value : Int32)
  | long (value : Int64)
  | string (text : String)
  | invoke (kind : InvokeKind) (owner : ClassName) (name : String) (type : MethodType)
  | newObject (name : ClassName)
  | load (type : FieldType) (slot : UInt16)
  | store (type : FieldType) (slot : UInt16)
  | drop (type : FieldType)
  | returnValue (type : Option FieldType)

namespace Emission

def build : Emission → Build Unit
  | push i => MethodBody.push i
  | int value => pushInt value
  | long value => pushLong value
  | string text => pushString text
  | invoke kind owner name type => MethodBody.invoke kind owner name type
  | newObject name => MethodBody.newObject name
  | load type slot => MethodBody.load type slot
  | store type slot => MethodBody.store type slot
  | drop type => MethodBody.drop type
  | returnValue type => MethodBody.returnValue type

/-- The instruction that is added, with the constant that it needs. -/
def choose : Emission → Build Instruction
  | push i => pure i
  | int value =>
    if -32768 ≤ value ∧ value < 32768 then pure (.intConst value)
    else return .ldc (← inPool (Pool.integer value))
  | long value =>
    if value = 0 ∨ value = 1 then pure (.longConst value)
    else return .ldc2 (← inPool (Pool.long value))
  | string text => return .ldc (← inPool (Pool.string text))
  | invoke kind owner name type =>
    return .invoke kind (← inPool (Pool.methodRef owner name type (kind == .interface))) type
  | newObject name => return .newObject (← inPool (Pool.classRef name.text))
  | load type slot => return .load (← kindOr .floatingLocal type) slot
  | store type slot => return .store (← kindOr .floatingLocal type) slot
  | drop type => pure (if width type = 2 then .pop2 else .pop)
  | returnValue none => pure .returnVoid
  | returnValue (some type) => return .returnValue (← kindOr .floatingReturn type)

theorem build_eq (e : Emission) : e.build = (do MethodBody.push (← e.choose)) := by
  cases e with
  | int value =>
    simp only [build, choose, pushInt]
    split
    · rw [pure_bind]
    · rw [bind_assoc]
      simp only [pure_bind]
  | long value =>
    simp only [build, choose, pushLong]
    split
    · rw [pure_bind]
    · rw [bind_assoc]
      simp only [pure_bind]
  | returnValue type =>
    cases type with
    | none => rfl
    | some type => simp only [build, choose, MethodBody.returnValue, bind_assoc, pure_bind]
  | push i => rfl
  | drop type => rfl
  | string text => simp only [build, choose, pushString, bind_assoc, pure_bind]
  | invoke kind owner name type =>
    simp only [build, choose, MethodBody.invoke, bind_assoc, pure_bind]
  | newObject name => simp only [build, choose, MethodBody.newObject, bind_assoc, pure_bind]
  | load type slot => simp only [build, choose, MethodBody.load, bind_assoc, pure_bind]
  | store type slot => simp only [build, choose, MethodBody.store, bind_assoc, pure_bind]

end Emission

/-- A reserved local slot, with the type of what it is for. -/
structure Local where
  slot : UInt16
  type : FieldType
  deriving DecidableEq

/-- A step of building a body. -/
inductive Action where
  | emit (e : Emission)
  | freshLocal (type : FieldType)
  | ask (query : Query)

/-- Takes the step, and gives the local slots that it reserves. -/
def Action.run : Action → Build (List Local)
  | emit e => do
    e.build
    return []
  | freshLocal type => return [⟨← MethodBody.freshLocal type, type⟩]
  | ask query => do
    let _ ← inPool query.change
    return []

/-- Takes steps up to the first that fails. -/
def runAll : List Action → Build (List Local)
  | [] => return []
  | action :: actions => do
    let front ← action.run
    return front ++ (← runAll actions)

/-- The body after steps, each of which may have failed. -/
def attempt (b : MethodBody) (actions : List Action) : MethodBody :=
  actions.foldl (fun b action => (action.run b).2) b

/-- The faults of steps that are all taken. -/
def faults : List Action → MethodBody → List Fault
  | [], _ => []
  | action :: actions, b =>
    match action.run b with
    | (.ok _, d) => faults actions d
    | (.error fault, d) => fault :: faults actions d

/-- The bodies differ in their pools at most, and what the first pool holds the second does too. -/
structure PoolOnly (b d : MethodBody) : Prop where
  rest : d = { b with pool := d.pool }
  pool : b.pool.Follows d.pool

theorem poolOnly_refl (b : MethodBody) : b.PoolOnly b := ⟨rfl, follows_refl b.pool⟩

theorem PoolOnly.trans {b c d : MethodBody} (h : b.PoolOnly c) (g : c.PoolOnly d) :
    b.PoolOnly d :=
  ⟨by rw [g.rest, h.rest], h.pool.trans g.pool⟩

/-- Whatever its result, the step changes the pool at most, and never makes the code too long. -/
structure ToPool (x : Build α) : Prop where
  only : Moves PoolOnly x
  short : ∀ (b : MethodBody) (fault : Fault), (x b).1 = .error fault → ¬fault.TooLong

theorem ToPool.bind {x : Build α} {f : α → Build β} (first : ToPool x)
    (next : ∀ a, ToPool (f a)) : ToPool (x >>= f) := by
  refine ⟨first.only.bind PoolOnly.trans fun a => (next a).only, ?_⟩
  intro b
  have step := first.short b
  rw [bind_apply]
  rcases made : x b with ⟨result, c⟩
  rw [made] at step
  cases result with
  | ok a => exact (next a).short c
  | error fault =>
    rintro _ ⟨⟩
    exact step fault rfl

theorem toPool_pure (a : α) : ToPool (pure a : Build α) :=
  ⟨poolOnly_refl, fun _ _ none => by cases none⟩

theorem toPool_inPool {change : Change α} (steady : Steady change) : ToPool (inPool change) := by
  constructor <;> intro b <;> unfold inPool
  · have step := steady b.pool
    rcases made : change b.pool with ⟨result, p⟩
    rw [made] at step
    cases result with
    | ok a => exact ⟨rfl, step⟩
    | error overflow => exact ⟨rfl, step⟩
  · -- A full pool is a fault of its own.
    rcases change b.pool with ⟨result, p⟩
    cases result with
    | ok a =>
      intro fault none
      cases none
    | error overflow =>
      rintro fault same ⟨i, offset, rfl⟩
      cases same

theorem toPool_query (query : Query) : ToPool (inPool query.change) :=
  toPool_inPool (steady_query query)

theorem toPool_kindOr (cause : BadDescriptor) (type : FieldType) :
    ToPool (kindOr cause type) := by
  unfold kindOr
  cases valueKind? type with
  | some kind => exact toPool_pure kind
  | none =>
    refine ⟨poolOnly_refl, ?_⟩
    rintro b fault same ⟨i, offset, rfl⟩
    cases same

theorem Emission.toPool_choose (e : Emission) : ToPool e.choose := by
  cases e with
  | push i => exact toPool_pure i
  | int value =>
    rw [choose]
    split
    · exact toPool_pure _
    · exact (toPool_query (.request (.integer value))).bind fun _ => toPool_pure _
  | long value =>
    rw [choose]
    split
    · exact toPool_pure _
    · exact (toPool_query (.request (.long value))).bind fun _ => toPool_pure _
  | string text => exact (toPool_query (.request (.string text))).bind fun _ => toPool_pure _
  | invoke kind owner name type =>
    exact (toPool_query (.request (.methodRef owner name type (kind == .interface)))).bind
      fun _ => toPool_pure _
  | newObject name =>
    exact (toPool_query (.request (.classRef name.text))).bind fun _ => toPool_pure _
  | load type slot => exact (toPool_kindOr _ type).bind fun _ => toPool_pure _
  | store type slot => exact (toPool_kindOr _ type).bind fun _ => toPool_pure _
  | drop type => exact toPool_pure _
  | returnValue type =>
    cases type with
    | none => exact toPool_pure _
    | some type => exact (toPool_kindOr _ type).bind fun _ => toPool_pure _

/-- An instruction that is added is chosen first, and then pushed onto a body with another pool. -/
theorem Emission.build_ok {e : Emission} {b d : MethodBody} (h : e.build b = (.ok (), d)) :
    ∃ i c, e.choose b = (.ok i, c) ∧ b.PoolOnly c ∧ MethodBody.push i c = (.ok (), d) := by
  rw [e.build_eq] at h
  obtain ⟨i, c, chosen, pushed⟩ := bind_eq_ok.mp h
  have step := e.toPool_choose.only b
  rw [chosen] at step
  exact ⟨i, c, chosen, step, pushed⟩

theorem run_freshLocal_ok {type : FieldType} {locals : List Local} {b d : MethodBody}
    (h : (Action.freshLocal type).run b = (.ok locals, d)) :
    b.nextLocal < 65536 ∧ locals = [⟨b.nextLocal.toUInt16, type⟩] ∧
      d = { b with
        nextLocal := b.nextLocal + width type
        maxLocals := max b.maxLocals (b.nextLocal + width type) } := by
  obtain ⟨slot, c, reserved, last⟩ := bind_eq_ok.mp h
  obtain ⟨given, rfl⟩ := Prod.mk.inj last
  obtain rfl := Except.ok.inj given
  unfold MethodBody.freshLocal at reserved
  split at reserved
  · rename_i room
    obtain ⟨same, rfl⟩ := Prod.mk.inj reserved
    obtain rfl := Except.ok.inj same
    exact ⟨room, rfl, rfl⟩
  · cases reserved

theorem run_ask_ok {query : Query} {locals : List Local} {b d : MethodBody}
    (h : (Action.ask query).run b = (.ok locals, d)) : locals = [] ∧ b.PoolOnly d := by
  have step := (toPool_query query).only b
  obtain ⟨index, c, asked, last⟩ := bind_eq_ok.mp h
  obtain ⟨given, rfl⟩ := Prod.mk.inj last
  rw [asked] at step
  exact ⟨(Except.ok.inj given).symm, step⟩

theorem run_emit_ok {e : Emission} {locals : List Local} {b d : MethodBody}
    (h : (Action.emit e).run b = (.ok locals, d)) :
    locals = [] ∧ ∃ i c, e.choose b = (.ok i, c) ∧ b.PoolOnly c ∧
      MethodBody.push i c = (.ok (), d) := by
  obtain ⟨⟨⟩, c, built, last⟩ := bind_eq_ok.mp h
  obtain ⟨given, rfl⟩ := Prod.mk.inj last
  exact ⟨(Except.ok.inj given).symm, Emission.build_ok built⟩

theorem size_extend (b : MethodBody) (i : Instruction) :
    (b.extend i).code.size = b.code.size + i.encode.length := by
  rw [← Array.length_toList]
  simp [extend]

/-- What lets an instruction be added, if it is not one that never goes on. -/
theorem push_of_room {i : Instruction} {b : MethodBody} (reached : b.reachable = true)
    (bears : i.stackEffect.1 ≤ b.depth) (room : b.code.size + i.encode.length ≤ 65535)
    (goesOn : i.isTerminal = false) : MethodBody.push i b = (.ok (), b.extend i) := by
  have enough : ¬b.depth < i.stackEffect.1 := Nat.not_lt.mpr bears
  have short : ¬65535 < (b.extend i).code.size := by rwa [size_extend, Nat.not_lt]
  simp [MethodBody.push, reached, enough, short, goesOn]

/-- Code to which something was added was short enough before. -/
theorem Emission.size_of_build {e : Emission} {b d : MethodBody} (h : e.build b = (.ok (), d)) :
    b.code.size ≤ 65535 := by
  obtain ⟨i, c, -, only, pushed⟩ := e.build_ok h
  obtain ⟨-, -, short, -⟩ := push_ok pushed
  have same : c.code = b.code := by rw [only.rest]
  rw [size_extend, same] at short
  exact Nat.le_of_add_right_le short

theorem pool_push (i : Instruction) (b : MethodBody) : (MethodBody.push i b).2.pool = b.pool := by
  unfold MethodBody.push
  simp only
  split
  · rfl
  split
  · rfl
  split
  · rfl
  split <;> rfl

/-- What the first pool holds the second does too. In all else the bodies may differ. -/
def Onward (b d : MethodBody) : Prop := b.pool.Follows d.pool

theorem Onward.trans {b c d : MethodBody} (h : b.Onward c) (g : c.Onward d) : b.Onward d :=
  Follows.trans h g

theorem onward_of_pool {b d : MethodBody} (same : d.pool = b.pool) : b.Onward d := by
  rw [Onward, same]
  exact follows_refl b.pool

theorem ToPool.onward {x : Build α} (h : ToPool x) : Moves Onward x := fun b => (h.only b).pool

theorem Action.onward_run (action : Action) : Moves Onward action.run := by
  cases action with
  | emit e =>
    rw [Action.run, e.build_eq]
    have added : Moves Onward (do MethodBody.push (← e.choose)) :=
      e.toPool_choose.onward.bind Onward.trans fun i b => onward_of_pool (pool_push i b)
    exact added.bind Onward.trans fun _ => (toPool_pure _).onward
  | freshLocal type =>
    have reserved : Moves Onward (MethodBody.freshLocal type) := by
      intro b
      unfold MethodBody.freshLocal
      split <;> exact onward_of_pool rfl
    exact reserved.bind Onward.trans fun _ => (toPool_pure _).onward
  | ask query => exact ((toPool_query query).bind fun _ => toPool_pure _).onward

theorem onward_attempt (b : MethodBody) (actions : List Action) : b.Onward (attempt b actions) := by
  induction actions generalizing b with
  | nil => exact onward_of_pool rfl
  | cons action actions ih => exact (action.onward_run b).trans (ih (action.run b).2)

/-- What is written for a finished body. Its depth and its locals were counted before. -/
theorem finish_written {a : Attribute} {b d : MethodBody} (h : finish b = (.ok a, d)) :
    b.maxDepth < 65536 ∧ b.maxLocals < 65536 ∧
      a.info = (Code.mk b.maxDepth.toUInt16 b.maxLocals.toUInt16 b.code.toList [] []).encode := by
  obtain ⟨body, c, isBody, rest⟩ := bind_eq_ok.mp h
  obtain ⟨same, rfl⟩ := Prod.mk.inj isBody
  obtain rfl := Except.ok.inj same
  split at rest
  · rename_i counted
    obtain ⟨name, e, -, last⟩ := bind_eq_ok.mp rest
    obtain ⟨result, -⟩ := Prod.mk.inj last
    obtain rfl := Except.ok.inj result
    exact ⟨counted.1, counted.2, rfl⟩
  · cases rest

end MethodBody

end JavaSnippet.ClassFile
