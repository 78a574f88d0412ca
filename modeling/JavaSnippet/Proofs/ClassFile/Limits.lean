import JavaSnippet.ClassFile.MethodBody
import JavaSnippet.Proofs.Fallible
/-!
Why a body cannot be built. When the stack bears what a change takes from it, the change can only
hit a limit of the format; what it takes and leaves is all that changes depend on of each other.
-/
namespace JavaSnippet.ClassFile

/-- The class file would be too large. -/
def Fault.IsLimit : Fault → Prop
  | .poolOverflow _ | .codeOverflow _ _ | .frameOverflow => True
  | _ => False

namespace MethodBody

open ExceptState

variable {α β : Type} {P : MethodBody → Prop} {Q : α → MethodBody → Prop}
  {R : β → MethodBody → Prop}

/-- From a body with a property, only limits are faults. -/
def LimitedTo (P : MethodBody → Prop) (x : Build α) (Q : α → MethodBody → Prop) : Prop :=
  ∀ b, P b →
    match x b with
    | (.ok a, d) => Q a d
    | (.error fault, _) => fault.IsLimit

theorem LimitedTo.bind {x : Build α} {f : α → Build β} (first : LimitedTo P x Q)
    (next : ∀ a, LimitedTo (Q a) (f a) R) : LimitedTo P (x >>= f) R := by
  intro b before
  have made := first b before
  rw [bind_apply]
  cases one : x b with
  | mk result d =>
    rw [one] at made
    cases result with
    | error fault => exact made
    | ok a => exact next a d made

theorem limited_pure {a : α} (h : ∀ b, P b → Q a b) : LimitedTo P (pure a) Q := h

/-- The next instruction could be run, with so many slots on the stack. -/
structure AtDepth (n : Nat) (b : MethodBody) : Prop where
  reachable : b.reachable = true
  depth : b.depth = n

theorem atDepth_start {pool : Pool} {parameterSlots : Nat} :
    AtDepth 0 (start pool parameterSlots) := ⟨rfl, rfl⟩

/-- The code takes slots from the stack and leaves others, and its result has a property. -/
def Balanced (before : Nat) (x : Build α) (after : Nat) (right : α → Prop) : Prop :=
  ∀ below, LimitedTo (AtDepth (below + before)) x fun a d => right a ∧ AtDepth (below + after) d

variable {n m k : Nat} {right : α → Prop} {rightNext : β → Prop}

theorem Balanced.bind {x : Build α} {f : α → Build β} (first : Balanced n x k right)
    (next : ∀ a, right a → Balanced k (f a) m rightNext) : Balanced n (x >>= f) m rightNext := by
  intro below
  refine (first below).bind fun a d made => ?_
  exact next a made.1 below d made.2

/-- What lies deeper on the stack makes no difference. -/
theorem Balanced.above {x : Build α} (h : Balanced n x m right) (deeper : Nat) :
    Balanced (deeper + n) x (deeper + m) right := by
  intro below
  rw [← Nat.add_assoc, ← Nat.add_assoc]
  exact h (below + deeper)

theorem Balanced.followed {x : Build α} {f : α → Build β} (first : Balanced n x m right)
    (next : ∀ a, right a → LimitedTo (AtDepth m) (f a) R) :
    LimitedTo (AtDepth n) (x >>= f) R := by
  have alone := first 0
  rw [Nat.zero_add, Nat.zero_add] at alone
  exact alone.bind fun a d made => next a made.1 d made.2

theorem balanced_pure {a : α} (h : right a) : Balanced n (pure a) n right :=
  fun _ _ before => ⟨h, before⟩

theorem balanced_push {i : Instruction} (goesOn : i.isTerminal = false)
    (takes : i.stackEffect = (n, m)) : Balanced n (push i) m fun _ => True := by
  intro below b before
  obtain ⟨reachable, depth⟩ := before
  have bears : ¬b.depth < i.stackEffect.1 := by
    rw [takes, depth]
    omega
  simp only [push, reachable, bears, goesOn, Bool.not_true, Bool.false_eq_true, if_false]
  by_cases long : 65535 < (b.extend i).code.size
  · rw [if_pos long]
    trivial
  · rw [if_neg long]
    refine ⟨trivial, reachable, ?_⟩
    simp only [extend, takes, depth]
    omega

/-- An instruction that ends the method. -/
theorem limited_push {i : Instruction} (takes : i.stackEffect.1 = n) :
    LimitedTo (AtDepth n) (push i) fun _ _ => True := by
  intro b before
  obtain ⟨reachable, depth⟩ := before
  have bears : ¬b.depth < i.stackEffect.1 := by omega
  simp only [push, reachable, bears, Bool.not_true, Bool.false_eq_true, if_false]
  by_cases long : 65535 < (b.extend i).code.size
  · rw [if_pos long]
    trivial
  · rw [if_neg long]
    by_cases last : i.isTerminal = true
    · rw [if_pos last]
      trivial
    · rw [if_neg last]
      trivial

theorem balanced_inPool {change : Pool.Change α} : Balanced n (inPool change) n fun _ => True := by
  intro below b before
  unfold inPool
  cases change b.pool with
  | mk result pool =>
    cases result with
    | error overflow => trivial
    | ok a => exact ⟨trivial, before.reachable, before.depth⟩

theorem balanced_freshLocal {t : FieldType} : Balanced n (freshLocal t) n fun _ => True := by
  intro below b before
  unfold freshLocal
  by_cases room : b.nextLocal < 65536
  · rw [if_pos room]
    exact ⟨trivial, before.reachable, before.depth⟩
  · rw [if_neg room]
    trivial

theorem limited_finish : LimitedTo P finish fun _ _ => True := by
  have got : LimitedTo P (get : Build MethodBody) fun _ _ => True := fun _ _ => trivial
  refine got.bind fun body => ?_
  split
  · have named : LimitedTo (fun _ => True) (inPool (Pool.utf8 "Code")) fun _ _ => True := by
      intro b before
      unfold inPool
      cases Pool.utf8 "Code" b.pool with
      | mk result pool =>
        cases result with
        | error overflow => trivial
        | ok name => trivial
    exact named.bind fun name => limited_pure fun _ _ => trivial
  · exact fun _ _ => trivial

theorem balanced_constant {change : Pool.Change PoolIndex} {f : PoolIndex → Instruction}
    (goesOn : ∀ index, (f index).isTerminal = false)
    (takes : ∀ index, (f index).stackEffect = (n, m)) :
    Balanced n (do push (f (← inPool change))) m fun _ => True := by
  exact balanced_inPool.bind fun index _ => balanced_push (goesOn index) (takes index)

theorem balanced_pushInt {value : Int32} : Balanced 0 (pushInt value) 1 fun _ => True := by
  unfold pushInt
  split
  · exact balanced_push rfl rfl
  · exact balanced_constant (fun _ => rfl) fun _ => rfl

theorem balanced_pushLong {value : Int64} : Balanced 0 (pushLong value) 2 fun _ => True := by
  unfold pushLong
  split
  · exact balanced_push rfl rfl
  · exact balanced_constant (fun _ => rfl) fun _ => rfl

theorem balanced_pushString {text : String} : Balanced 0 (pushString text) 1 fun _ => True :=
  balanced_constant (fun _ => rfl) fun _ => rfl

theorem balanced_newObject {name : ClassName} : Balanced 0 (newObject name) 1 fun _ => True :=
  balanced_constant (fun _ => rfl) fun _ => rfl

theorem balanced_invoke {kind : InvokeKind} {owner : ClassName} {name : String}
    {type : MethodType} (takes : type.parameterSlots (kind != .static) = n)
    (leaves : type.resultSlots = m) :
    Balanced n (invoke kind owner name type) m fun _ => True := by
  refine balanced_constant (fun _ => rfl) fun _ => ?_
  rw [Instruction.stackEffect, takes, leaves]

theorem balanced_kindOr {cause : BadDescriptor} {t : FieldType} {kind : ValueKind}
    (isKind : valueKind? t = some kind) : Balanced n (kindOr cause t) n (· = kind) := by
  unfold kindOr
  rw [isKind]
  exact balanced_pure rfl

theorem balanced_load {t : FieldType} {slot : UInt16} {kind : ValueKind}
    (isKind : valueKind? t = some kind) : Balanced 0 (load t slot) kind.slots fun _ => True := by
  refine (balanced_kindOr isKind).bind fun other same => ?_
  rw [same]
  exact balanced_push rfl rfl

theorem balanced_store {t : FieldType} {slot : UInt16} {kind : ValueKind}
    (isKind : valueKind? t = some kind) : Balanced kind.slots (store t slot) 0 fun _ => True := by
  refine (balanced_kindOr isKind).bind fun other same => ?_
  rw [same]
  exact balanced_push rfl rfl

theorem limited_returnValue {t : FieldType} {kind : ValueKind}
    (isKind : valueKind? t = some kind) :
    LimitedTo (AtDepth kind.slots) (returnValue (some t)) fun _ _ => True := by
  simp only [returnValue, kindOr, isKind]
  have returned : LimitedTo (AtDepth kind.slots) (push (.returnValue kind)) fun _ _ => True :=
    limited_push rfl
  exact returned

end MethodBody

end JavaSnippet.ClassFile
