import JavaSnippet.Proofs.ClassFile.Building
import JavaSnippet.Proofs.ClassFile.RoundTrip
import JavaSnippet.Proofs.Machine.Value
import Mathlib.Algebra.Ring.Int.Defs
import Mathlib.Order.Bounds.Basic
/-!
The account that a body keeps of its stack and its locals. As long as no step fails, the code is
that of the instructions that were pushed, the depth is what they push less what they pop, and each
reserved slot comes behind the parameters and all slots before it.
-/
namespace JavaSnippet.ClassFile.MethodBody

open ExceptState

/-- The instruction that a step adds to a body. -/
def Action.instruction? (b : MethodBody) : Action → Option Instruction
  | emit e => (e.choose b).1.toOption
  | freshLocal _ => none
  | ask _ => none

/-- The instructions that steps add, in order. -/
def pushed : List Action → MethodBody → List Instruction
  | [], _ => []
  | action :: actions, b => (action.instruction? b).toList ++ pushed actions (action.run b).2

/-- The slots on the stack behind instructions: all that they push less all that they pop. -/
def runningDepth (is : List Instruction) : Int :=
  (is.map fun i => (i.stackEffect.2 : Int) - i.stackEffect.1).sum

theorem runningDepth_concat (is : List Instruction) (i : Instruction) :
    runningDepth (is ++ [i]) = runningDepth is + ((i.stackEffect.2 : Int) - i.stackEffect.1) := by
  simp [runningDepth]

/-- Before each instruction there are as many slots on the stack as it pops. -/
def Bears (is : List Instruction) : Prop :=
  ∀ front i back, is = front ++ i :: back → (i.stackEffect.1 : Int) ≤ runningDepth front

/-- Only the last instruction can be one that never goes on. -/
def EndsLast (is : List Instruction) : Prop :=
  ∀ front i back, is = front ++ i :: back → i.isTerminal = true → back = []

/-- The depths that are reached before, between and behind instructions. -/
def depths (is : List Instruction) : Set Int := runningDepth '' {front | front <+: is}

theorem mem_depths {is : List Instruction} {depth : Int} :
    depth ∈ depths is ↔ ∃ front, front <+: is ∧ runningDepth front = depth := Iff.rfl

theorem depths_concat (is : List Instruction) (i : Instruction) :
    depths (is ++ [i]) = insert (runningDepth (is ++ [i])) (depths is) := by
  ext depth
  rw [Set.mem_insert_iff, mem_depths, mem_depths]
  constructor
  · rintro ⟨front, isPrefix, rfl⟩
    rcases List.prefix_concat_iff.mp isPrefix with rfl | shorter
    · exact .inl rfl
    · exact .inr ⟨front, shorter, rfl⟩
  · rintro (rfl | ⟨front, shorter, rfl⟩)
    · exact ⟨_, List.prefix_rfl, rfl⟩
    · exact ⟨front, shorter.trans (List.prefix_append is [i]), rfl⟩

/-- A place in a list with one more element is the last or a place in the list. -/
theorem cut_concat {α : Type} {as front back : List α} {a b : α}
    (h : as ++ [a] = front ++ b :: back) :
    front = as ∧ b = a ∨ ∃ rest, as = front ++ b :: rest := by
  rcases List.eq_nil_or_concat back with rfl | ⟨rest, last, rfl⟩
  · obtain ⟨rfl, same⟩ := List.append_inj' h rfl
    exact .inl ⟨rfl, (List.cons.inj same).1.symm⟩
  · have moved : as ++ [a] = (front ++ b :: rest) ++ [last] := by simpa using h
    exact .inr ⟨rest, (List.append_inj' moved rfl).1⟩

/-- The code and the stack of a body are those of instructions. -/
structure Balance (is : List Instruction) (b : MethodBody) : Prop where
  code : b.code.toList = is.flatMap Instruction.encode
  size : b.code.size ≤ 65535
  bears : Bears is
  endsLast : EndsLast is
  highest : IsGreatest (depths is) b.maxDepth
  depth : b.reachable = true → (b.depth : Int) = runningDepth is
  goesOn : b.reachable = true ↔ ∀ i ∈ is, i.isTerminal = false

theorem balance_start (pool : Pool) (slots : Nat) : Balance [] (start pool slots) where
  code := rfl
  size := Nat.zero_le _
  bears := fun front i back none => by simp at none
  endsLast := fun front i back none => by simp at none
  highest := by
    refine ⟨⟨[], List.prefix_rfl, rfl⟩, ?_⟩
    rintro _ ⟨front, isPrefix, rfl⟩
    rw [List.prefix_nil.mp isPrefix]
    rfl
  depth := fun _ => rfl
  goesOn := by simp [start]

namespace Balance

variable {is : List Instruction} {b d : MethodBody}

theorem poolOnly (h : Balance is b) (only : b.PoolOnly d) : Balance is d := by
  rw [only.rest]
  exact ⟨h.code, h.size, h.bears, h.endsLast, h.highest, h.depth, h.goesOn⟩

/-- What one more instruction does to the account. -/
theorem push {i : Instruction} (h : Balance is b) (pushed : MethodBody.push i b = (.ok (), d)) :
    Balance (is ++ [i]) d := by
  obtain ⟨reached, enough, short, rfl⟩ := push_ok pushed
  have depth := h.depth reached
  have goesOn := h.goesOn.mp reached
  have after : ((b.extend i).depth : Int) = runningDepth (is ++ [i]) := by
    rw [runningDepth_concat, ← depth]
    simp only [extend]
    omega
  have bears : Bears (is ++ [i]) := by
    intro front j back cut
    rcases cut_concat cut with ⟨rfl, rfl⟩ | ⟨rest, old⟩
    · omega
    · exact h.bears front j rest old
  have endsLast : EndsLast (is ++ [i]) := by
    intro front j back cut terminal
    rcases cut_concat cut with ⟨rfl, rfl⟩ | ⟨rest, rfl⟩
    · exact (List.cons.inj (List.append_cancel_left cut)).2.symm
    · have still := goesOn j (by simp)
      rw [terminal] at still
      cases still
  have highest : IsGreatest (depths (is ++ [i])) (b.extend i).maxDepth := by
    have most : (((b.extend i).maxDepth : Nat) : Int) =
        max (runningDepth (is ++ [i])) (b.maxDepth : Int) := by
      rw [← after]
      simp only [extend]
      omega
    rw [depths_concat, most]
    exact h.highest.insert _
  have code : (b.extend i).code.toList = (is ++ [i]).flatMap Instruction.encode := by
    simp [extend, h.code]
  split
  · -- Nothing comes after the instruction, so there is no depth to account for.
    rename_i terminal
    refine ⟨code, short, bears, endsLast, highest, fun goes => (by cases goes), ?_⟩
    simp [terminal]
  · rename_i continues
    refine ⟨code, short, bears, endsLast, highest, fun _ => after, ?_⟩
    have same : (b.extend i).reachable = true := reached
    simp only [same, true_iff, List.forall_mem_append, List.forall_mem_singleton]
    exact ⟨goesOn, by simpa using continues⟩

theorem run {action : Action} {locals : List Local} (h : Balance is b)
    (taken : action.run b = (.ok locals, d)) :
    Balance (is ++ (action.instruction? b).toList) d := by
  cases action with
  | emit e =>
    obtain ⟨-, i, c, chosen, only, added⟩ := run_emit_ok taken
    rw [Action.instruction?, chosen]
    exact (h.poolOnly only).push added
  | freshLocal type =>
    obtain ⟨-, -, rfl⟩ := run_freshLocal_ok taken
    rw [Action.instruction?, Option.toList_none, List.append_nil]
    exact ⟨h.code, h.size, h.bears, h.endsLast, h.highest, h.depth, h.goesOn⟩
  | ask query =>
    rw [Action.instruction?, Option.toList_none, List.append_nil]
    exact h.poolOnly (run_ask_ok taken).2

end Balance

namespace Local

/-- The first slot behind those that the variable takes. -/
def stop (x : Local) : Nat := x.slot.toNat + width x.type

/-- The slot is one of those that the variable takes. -/
def Takes (x : Local) (slot : Nat) : Prop := x.slot.toNat ≤ slot ∧ slot < x.stop

end Local

/-- The slots of a body are those of the parameters and of the reserved locals behind them. -/
structure Reserves (slots : Nat) (locals : List Local) (b : MethodBody) : Prop where
  next : b.nextLocal = slots + totalWidth (locals.map (·.type))
  most : b.maxLocals = b.nextLocal
  within : ∀ x ∈ locals, slots ≤ x.slot.toNat ∧ x.stop ≤ b.nextLocal
  apart : locals.Pairwise fun x y => x.stop ≤ y.slot.toNat

theorem reserves_start (pool : Pool) (slots : Nat) : Reserves slots [] (start pool slots) :=
  ⟨rfl, rfl, by simp, .nil⟩

namespace Reserves

variable {slots : Nat} {locals more : List Local} {b d : MethodBody}

theorem poolOnly (h : Reserves slots locals b) (only : b.PoolOnly d) :
    Reserves slots locals d := by
  rw [only.rest]
  exact ⟨h.next, h.most, h.within, h.apart⟩

theorem push {i : Instruction} (h : Reserves slots locals b)
    (pushed : MethodBody.push i b = (.ok (), d)) : Reserves slots locals d := by
  obtain ⟨-, -, -, rfl⟩ := push_ok pushed
  split
  · exact ⟨h.next, h.most, h.within, h.apart⟩
  · exact ⟨h.next, h.most, h.within, h.apart⟩

theorem freshLocal {type : FieldType} (h : Reserves slots locals b) (room : b.nextLocal < 65536) :
    Reserves slots (locals ++ [⟨b.nextLocal.toUInt16, type⟩]) { b with
      nextLocal := b.nextLocal + width type
      maxLocals := max b.maxLocals (b.nextLocal + width type) } := by
  have slot : b.nextLocal.toUInt16.toNat = b.nextLocal := Text.Utf16.toNat_toUInt16 room
  have next := h.next
  have most := h.most
  constructor
  · rw [List.map_append, Machine.totalWidth_append]
    simp only [List.map_cons, List.map_nil, totalWidth]
    omega
  · simp only
    omega
  · intro x here
    rcases List.mem_append.mp here with old | new
    · have := h.within x old
      simp only
      omega
    · obtain rfl := List.mem_singleton.mp new
      simp only [Local.stop]
      omega
  · rw [List.pairwise_append]
    refine ⟨h.apart, List.pairwise_singleton _ _, fun x old y new => ?_⟩
    obtain rfl := List.mem_singleton.mp new
    have := h.within x old
    simp only
    omega

theorem run {action : Action} (h : Reserves slots locals b)
    (taken : action.run b = (.ok more, d)) : Reserves slots (locals ++ more) d := by
  cases action with
  | emit e =>
    obtain ⟨rfl, i, c, -, only, added⟩ := run_emit_ok taken
    rw [List.append_nil]
    exact (h.poolOnly only).push added
  | freshLocal type =>
    obtain ⟨room, rfl, rfl⟩ := run_freshLocal_ok taken
    exact h.freshLocal room
  | ask query =>
    obtain ⟨rfl, only⟩ := run_ask_ok taken
    rw [List.append_nil]
    exact h.poolOnly only

theorem disjoint (h : Reserves slots locals b) :
    locals.Pairwise fun x y => ∀ slot, x.Takes slot → ¬y.Takes slot := by
  refine h.apart.imp fun {x y} before slot inX inY => ?_
  exact Nat.not_lt_of_le (before.trans inY.1) inX.2

end Reserves

/-- What each step that succeeds preserves, of the instructions and the locals so far, holds in the
end of all of them. -/
theorem runAll_keeps {P : List Instruction → List Local → MethodBody → Prop}
    (step : ∀ {is locals more b d action}, P is locals b → Action.run action b = (.ok more, d) →
      P (is ++ (action.instruction? b).toList) (locals ++ more) d)
    {is : List Instruction} {locals more : List Local} {b d : MethodBody} {actions : List Action}
    (h : P is locals b) (taken : runAll actions b = (.ok more, d)) :
    P (is ++ pushed actions b) (locals ++ more) d := by
  induction actions generalizing is locals more b with
  | nil =>
    obtain ⟨given, rfl⟩ := Prod.mk.inj taken
    obtain rfl := Except.ok.inj given
    rw [pushed, List.append_nil, List.append_nil]
    exact h
  | cons action actions ih =>
    obtain ⟨front, c, first, rest⟩ := bind_eq_ok.mp taken
    obtain ⟨back, e, others, last⟩ := bind_eq_ok.mp rest
    obtain ⟨given, rfl⟩ := Prod.mk.inj last
    obtain rfl := Except.ok.inj given
    have whole := ih (step h first) others
    rw [pushed, first, ← List.append_assoc, ← List.append_assoc]
    exact whole

theorem runAll_accounts {pool : Pool} {slots : Nat} {actions : List Action} {locals : List Local}
    {b : MethodBody} (built : runAll actions (start pool slots) = (.ok locals, b)) :
    Balance (pushed actions (start pool slots)) b ∧ Reserves slots locals b :=
  runAll_keeps (P := fun is locals b => Balance is b ∧ Reserves slots locals b)
    (fun h taken => ⟨h.1.run taken, h.2.run taken⟩)
    ⟨balance_start pool slots, reserves_start pool slots⟩ built

/-- Steps that all succeed have a beginning that does. -/
theorem runAll_front {front back : List Action} {locals : List Local} {b d : MethodBody}
    (h : runAll (front ++ back) b = (.ok locals, d)) :
    ∃ before c, runAll front b = (.ok before, c) := by
  induction front generalizing b d locals with
  | nil => exact ⟨[], b, rfl⟩
  | cons action front ih =>
    rw [List.cons_append] at h
    obtain ⟨first, c, taken, rest⟩ := bind_eq_ok.mp h
    obtain ⟨others, e, further, -⟩ := bind_eq_ok.mp rest
    obtain ⟨before, g, begun⟩ := ih further
    exact ⟨first ++ before, g, bind_eq_ok.mpr ⟨first, c, taken,
      bind_eq_ok.mpr ⟨before, g, begun, rfl⟩⟩⟩

/-- What a finished body says is exact, if no step of building it has failed: the code is that of
the pushed instructions, the greatest depth is one that is reached, and the locals are the
parameters and what was reserved behind them. Up to an instruction that never goes on, the depth of
the body is that of the instructions so far. -/
theorem finish_accounts {pool : Pool} {slots : Nat} {actions : List Action} {locals : List Local}
    {b d : MethodBody} {a : Attribute} (built : runAll actions (start pool slots) = (.ok locals, b))
    (finished : finish b = (.ok a, d)) :
    let is := pushed actions (start pool slots)
    (∃ code, Code.decode a.info = .ok code ∧ code.code = is.flatMap Instruction.encode ∧
        code.code.length ≤ 65535 ∧ code.handlers = [] ∧ code.attributes = [] ∧
        IsGreatest (depths is) code.maxStack.toNat ∧
        code.maxLocals.toNat = slots + totalWidth (locals.map (·.type))) ∧
      Bears is ∧ EndsLast is ∧
      (∀ front back, actions = front ++ back → ∃ some c,
        runAll front (start pool slots) = (.ok some, c) ∧
          ((∀ i ∈ pushed front (start pool slots), i.isTerminal = false) →
            (c.depth : Int) = runningDepth (pushed front (start pool slots)))) ∧
      locals.Pairwise (fun x y => ∀ slot, x.Takes slot → ¬y.Takes slot) ∧
      ∀ x ∈ locals, ∀ slot, x.Takes slot → slots ≤ slot := by
  intro is
  obtain ⟨balance, reserves⟩ := runAll_accounts built
  obtain ⟨countedStack, countedLocals, info⟩ := finish_written finished
  have short : b.code.toList.length ≤ 65535 := balance.size
  have fits : (Code.mk b.maxDepth.toUInt16 b.maxLocals.toUInt16 b.code.toList [] []).Fits :=
    ⟨by simp only; omega, by simp, by simp, by simp⟩
  refine ⟨⟨_, by rw [info]; exact decode_encode_code fits, balance.code, short, rfl, rfl, ?_, ?_⟩,
    balance.bears, balance.endsLast, ?_, reserves.disjoint, ?_⟩
  · rw [Text.Utf16.toNat_toUInt16 countedStack]
    exact balance.highest
  · rw [Text.Utf16.toNat_toUInt16 countedLocals, reserves.most]
    exact reserves.next
  · -- A beginning of the steps is a run of its own, with an account of its own.
    rintro front back rfl
    obtain ⟨before, c, begun⟩ := runAll_front built
    obtain ⟨soFar, -⟩ := runAll_accounts begun
    exact ⟨before, c, begun, fun goesOn => soFar.depth (soFar.goesOn.mpr goesOn)⟩
  · intro x here slot takes
    exact (reserves.within x here).1.trans takes.1

/-- Adds one and two as `long` values, by way of a local variable. -/
def sumActions : List Action :=
  [.freshLocal .long, .emit (.long 1), .emit (.int 2), .emit (.push .widen),
    .emit (.push (.arith .add .long)), .emit (.store .long 1), .emit (.load .long 1),
    .emit (.returnValue (some .long))]

def sumCode : List Instruction :=
  [.longConst 1, .intConst 2, .widen, .arith .add .long, .store .long 1, .load .long 1,
    .returnValue .long]

def sumBody : MethodBody :=
  ⟨.empty, #[0x0a, 0x05, 0x85, 0x61, 0x40, 0x1f, 0xad], 0, 4, 3, 3, false⟩

theorem finish_accounts_sum :
    ∃ a d code, runAll sumActions (start .empty 1) = (.ok [⟨1, .long⟩], sumBody) ∧
      finish sumBody = (.ok a, d) ∧ Code.decode a.info = .ok code ∧
      code.code = [0x0a, 0x05, 0x85, 0x61, 0x40, 0x1f, 0xad] ∧
      IsGreatest (depths sumCode) code.maxStack.toNat ∧ code.maxLocals.toNat = 3 ∧
      Bears sumCode ∧ EndsLast sumCode := by
  have built : runAll sumActions (start .empty 1) = (.ok [⟨1, .long⟩], sumBody) := rfl
  obtain ⟨a, d, finished, -, -⟩ := finish_total (b := sumBody) Pool.valid_empty
    (show 1 + 1 < 65536 by decide) (show 4 < 65536 by decide) (show 3 < 65536 by decide)
  obtain ⟨⟨code, decoded, bytes, -, -, -, greatest, locals⟩, bears, endsLast, -⟩ :=
    finish_accounts built finished
  exact ⟨a, d, code, built, finished, decoded, bytes, greatest, locals, bears, endsLast⟩

end JavaSnippet.ClassFile.MethodBody
