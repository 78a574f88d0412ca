/-!
Tables whose elements occupy consecutive slots, each as many as its width. An element is found by
its first slot.
-/
namespace JavaSnippet

/-- The number of slots an element takes. -/
class Width (α : Type _) where
  width : α → Nat

export Width (width)

structure SlotTable (α : Type _) where
  /-- The elements in order, each with its first slot. -/
  entries : Array (Nat × α)
  /-- The slot of the next element. -/
  next : Nat
  deriving Repr

namespace SlotTable

variable {α : Type _}

/-- The table without elements, whose first element will be at `start`. -/
def startingAt (start : Nat) : SlotTable α :=
  ⟨#[], start⟩

def size (t : SlotTable α) : Nat :=
  t.entries.size

def isEmpty (t : SlotTable α) : Bool :=
  t.entries.isEmpty

def toList (t : SlotTable α) : List (Nat × α) :=
  t.entries.toList

def elements (t : SlotTable α) : List α :=
  t.toList.map (·.2)

/-- Adds an element after all others. Its slot is `t.next`. -/
def push [Width α] (t : SlotTable α) (a : α) : SlotTable α :=
  ⟨t.entries.push (t.next, a), t.next + width a⟩

/-- Adds elements in order. -/
def append [Width α] (t : SlotTable α) (as : List α) : SlotTable α :=
  as.foldl push t

/-- Within `base ..< base + count`, where the entries ascend, the last position whose slot is at
most `slot`, or `base` if none is. -/
def searchFrom (entries : Array (Nat × α)) (slot base : Nat) (count : Nat) : Nat :=
  if count ≤ 1 then base
  else
    let half := count / 2
    match entries[base + half]? with
    | some entry =>
      if slot < entry.1 then searchFrom entries slot base (count - half)
      else searchFrom entries slot (base + half) (count - half)
    | none => base
termination_by count
decreasing_by all_goals omega

/-- The element whose first slot is `slot`. -/
def get? (t : SlotTable α) (slot : Nat) : Option α :=
  match t.entries[searchFrom t.entries slot 0 t.entries.size]? with
  | some entry => if entry.1 = slot then some entry.2 else none
  | none => none

@[simp] theorem toList_startingAt (start : Nat) : (startingAt start : SlotTable α).toList = [] :=
  rfl

@[simp] theorem toList_push [Width α] (t : SlotTable α) (a : α) :
    (t.push a).toList = t.toList ++ [(t.next, a)] := by
  simp [push, toList]

@[simp] theorem next_push [Width α] (t : SlotTable α) (a : α) :
    (t.push a).next = t.next + width a := rfl

end SlotTable

end JavaSnippet
