import JavaSnippet.Proofs.Machine.Fetch
import JavaSnippet.Proofs.Machine.Value
/-!
Running code that computes with integers. The machine reads one instruction after another and never
jumps; a division by zero ends the method with an exception. What is not defined here is not run.
-/
namespace JavaSnippet.Machine

open ClassFile

/-- The state of a running method. The top of the stack comes first. -/
structure Frame where
  stack : List Value
  locals : Locals Value

/-- What running an instruction leads to. -/
inductive Next where
  | goesOn (frame : Frame)
  | ends (outcome : Outcome)

def Value.kind : Value → ValueKind
  | .int _ => .int
  | .long _ => .long
  | .reference _ => .reference

/-- Arithmetic on `int`, unless it divides by zero. -/
def arith32 (op : ArithOp) (a b : Int32) : Option Int32 :=
  match op with
  | .add => some (a + b)
  | .sub => some (a - b)
  | .mul => some (a * b)
  | .div => if b = 0 then none else some (a / b)
  | .rem => if b = 0 then none else some (a % b)

/-- Arithmetic on `long`, unless it divides by zero. -/
def arith64 (op : ArithOp) (a b : Int64) : Option Int64 :=
  match op with
  | .add => some (a + b)
  | .sub => some (a - b)
  | .mul => some (a * b)
  | .div => if b = 0 then none else some (a / b)
  | .rem => if b = 0 then none else some (a % b)

namespace Frame

def push (f : Frame) (v : Value) : Frame := { f with stack := v :: f.stack }

/-- Pushes the result of a computation, if it has one. -/
def finish (f : Frame) (result : Option Value) : Next :=
  match result with
  | some v => .goesOn (f.push v)
  | none => .ends .arithmeticException

end Frame

/-- Runs an instruction, if its operands are there and of the right kind. -/
def step (t : ConstantTable) (i : Instruction) (f : Frame) : Option Next :=
  match i with
  | .intConst n => some (.goesOn (f.push (.int n)))
  | .longConst n => some (.goesOn (f.push (.long n)))
  | .ldc index =>
    match t.constant? index with
    | some (.integer n) => some (.goesOn (f.push (.int n)))
    | _ => none
  | .ldc2 index =>
    match t.constant? index with
    | some (.long n) => some (.goesOn (f.push (.long n)))
    | _ => none
  | .load kind slot =>
    match f.locals slot.toNat with
    | some v => if v.kind = kind then some (.goesOn (f.push v)) else none
    | none => none
  | .store kind slot =>
    match f.stack with
    | v :: stack =>
      if v.kind = kind then some (.goesOn ⟨stack, f.locals.set slot.toNat v⟩) else none
    | [] => none
  | .arith op .int =>
    match f.stack with
    | .int b :: .int a :: stack =>
      some (Frame.finish ⟨stack, f.locals⟩ ((arith32 op a b).map .int))
    | _ => none
  | .arith op .long =>
    match f.stack with
    | .long b :: .long a :: stack =>
      some (Frame.finish ⟨stack, f.locals⟩ ((arith64 op a b).map .long))
    | _ => none
  | .neg .int =>
    match f.stack with
    | .int a :: stack => some (.goesOn ⟨.int (-a) :: stack, f.locals⟩)
    | _ => none
  | .neg .long =>
    match f.stack with
    | .long a :: stack => some (.goesOn ⟨.long (-a) :: stack, f.locals⟩)
    | _ => none
  | .widen =>
    match f.stack with
    | .int a :: stack => some (.goesOn ⟨.long a.toInt64 :: stack, f.locals⟩)
    | _ => none
  | .returnValue kind =>
    match f.stack with
    | v :: _ => if v.kind = kind then some (.ends (.returns (some v))) else none
    | [] => none
  | .returnVoid => some (.ends (.returns none))
  | .nullConst | .pop | .pop2 | .dup | .newObject _ | .checkCast _ | .invoke _ _ _
  | .throwObject => none

/-- Runs code from a frame to its end, if the machine can do so. -/
def run (t : ConstantTable) (code : List UInt8) (f : Frame) : Option Outcome :=
  match _ : fetch code with
  | none => none
  | some (i, rest) =>
    match step t i f with
    | none => none
    | some (.ends outcome) => some outcome
    | some (.goesOn g) => run t rest g
termination_by code.length
decreasing_by exact fetch_shorter ‹_›

/-- The frame in which a static method starts. -/
def enter (args : List Value) : Frame := ⟨[], .ofList 0 args⟩

variable {t : ConstantTable} {i : Instruction} {f g : Frame}

theorem run_goesOn (plain : Plain i) (h : step t i f = some (.goesOn g)) (rest : List UInt8) :
    run t (i.encode ++ rest) f = run t rest g := by
  rw [run]
  split
  · rename_i unread
    rw [fetch_encode plain] at unread
    cases unread
  · rename_i j others read
    rw [fetch_encode plain] at read
    obtain ⟨rfl, rfl⟩ := Prod.mk.inj (Option.some.inj read)
    rw [h]

theorem run_ends {outcome : Outcome} (plain : Plain i) (h : step t i f = some (.ends outcome))
    (rest : List UInt8) : run t (i.encode ++ rest) f = some outcome := by
  rw [run]
  split
  · rename_i unread
    rw [fetch_encode plain] at unread
    cases unread
  · rename_i j others read
    rw [fetch_encode plain] at read
    obtain ⟨rfl, rfl⟩ := Prod.mk.inj (Option.some.inj read)
    rw [h]

end JavaSnippet.Machine
