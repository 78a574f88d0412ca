import JavaSnippet.ClassFile.Encode
import JavaSnippet.ClassFile.Fault
/-!
Straight-line method bodies under construction. The depth of the stack and the highest local slot
are followed, and nothing can be added after an instruction that never goes on.
-/
namespace JavaSnippet.ClassFile

structure MethodBody where
  pool : Pool
  code : Array UInt8
  /-- The slots on the stack now. -/
  depth : Nat
  maxDepth : Nat
  nextLocal : Nat
  maxLocals : Nat
  /-- Whether the next instruction could be run. -/
  reachable : Bool

namespace MethodBody

/-- The empty body of a method whose parameters take the first slots. -/
def start (pool : Pool) (parameterSlots : Nat) : MethodBody :=
  ⟨pool, #[], 0, 0, parameterSlots, parameterSlots, true⟩

/-- A change of a body. What was done before a fault stays done. -/
abbrev Build (α : Type) := ExceptT Fault (StateM MethodBody) α

/-- A change of the constants of the body. -/
def inPool {α : Type} (change : Pool.Change α) : Build α :=
  fun body =>
    match change body.pool with
    | (.ok a, pool) => (.ok a, { body with pool })
    | (.error overflow, pool) => (.error (.poolOverflow overflow), { body with pool })

/-- The next free local slot, which a value of the type takes with the one after it if it is
wide. -/
def freshLocal (t : FieldType) : Build UInt16 :=
  fun body =>
    if body.nextLocal < 65536 then
      let next := body.nextLocal + width t
      (.ok body.nextLocal.toUInt16,
        { body with nextLocal := next, maxLocals := max body.maxLocals next })
    else (.error .frameOverflow, body)

/-- The body with one more instruction, whose effect the stack can bear. -/
def extend (body : MethodBody) (i : Instruction) : MethodBody :=
  let depth := body.depth - i.stackEffect.1 + i.stackEffect.2
  { body with code := body.code ++ i.encode, depth, maxDepth := max body.maxDepth depth }

/-- Adds an instruction. -/
def push (i : Instruction) : Build Unit :=
  fun body =>
    let offset := body.code.size
    if !body.reachable then (.error (.unreachable i offset), body)
    else if body.depth < i.stackEffect.1 then (.error (.stackUnderflow i offset), body)
    else
      let extended := body.extend i
      if 65535 < extended.code.size then (.error (.codeOverflow i offset), extended)
      else if i.isTerminal then (.ok (), { extended with reachable := false, depth := 0 })
      else (.ok (), extended)

/-- Loads an integer, from the pool only when it needs more than sixteen bits. -/
def pushInt (value : Int32) : Build Unit := do
  if -32768 ≤ value ∧ value < 32768 then push (.intConst value)
  else push (.ldc (← inPool (Pool.integer value)))

def pushLong (value : Int64) : Build Unit := do
  if value = 0 ∨ value = 1 then push (.longConst value)
  else push (.ldc2 (← inPool (Pool.long value)))

def pushString (text : String) : Build Unit := do
  push (.ldc (← inPool (Pool.string text)))

def invoke (kind : InvokeKind) (owner : ClassName) (name : String) (type : MethodType) :
    Build Unit := do
  let method ← inPool (Pool.methodRef owner name type (kind == .interface))
  push (.invoke kind method type)

def newObject (name : ClassName) : Build Unit := do
  push (.newObject (← inPool (Pool.classRef name.text)))

/-- How values of a type are kept. There is no code for floating-point numbers. -/
def valueKind? (t : FieldType) : Option ValueKind :=
  match t.base? with
  | none => some .reference
  | some .long => some .long
  | some .float | some .double => none
  | some _ => some .int

/-- How values of a type are kept, or a fault. -/
def kindOr (cause : BadDescriptor) (t : FieldType) : Build ValueKind :=
  match valueKind? t with
  | some kind => pure kind
  | none => throw (.badDescriptor cause)

def load (t : FieldType) (slot : UInt16) : Build Unit := do
  push (.load (← kindOr .floatingLocal t) slot)

def store (t : FieldType) (slot : UInt16) : Build Unit := do
  push (.store (← kindOr .floatingLocal t) slot)

/-- Drops a value of the type from the stack. -/
def drop (t : FieldType) : Build Unit :=
  push (if width t = 2 then .pop2 else .pop)

/-- Returns a value of the type, or nothing. -/
def returnValue : Option FieldType → Build Unit
  | none => push .returnVoid
  | some t => do push (.returnValue (← kindOr .floatingReturn t))

/-- The finished body, which records the attribute's name in the pool. -/
def finish : Build Attribute := do
  let body ← get
  if body.maxDepth < 65536 ∧ body.maxLocals < 65536 then
    let name ← inPool (Pool.utf8 "Code")
    let code : Code :=
      ⟨body.maxDepth.toUInt16, body.maxLocals.toUInt16, body.code.toList, [], []⟩
    return ⟨name, code.encode⟩
  else throw .frameOverflow

end MethodBody

end JavaSnippet.ClassFile
