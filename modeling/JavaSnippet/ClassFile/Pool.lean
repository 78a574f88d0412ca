import JavaSnippet.ClassFile.Constant
import JavaSnippet.Descriptor.Text
import Std.Data.HashMap
/-!
A constant table under construction. A constant that was recorded before is found again instead
of being added; nothing is ever moved or removed.
-/
namespace JavaSnippet.ClassFile

/-- A constant that did not fit, and the slot it would have had. -/
structure PoolOverflow where
  constant : Constant
  slot : UInt16
  deriving DecidableEq, Repr, Inhabited

structure Pool where
  table : ConstantTable
  /-- The recorded constants other than classes. -/
  recorded : Std.HashMap Constant PoolIndex
  /-- The recorded classes by the name they reach. -/
  classes : Std.HashMap String PoolIndex
  deriving Repr

namespace Pool

def empty : Pool := ⟨.empty, ∅, ∅⟩

/-- Records a text, unless an equal one has been. -/
def recordText (p : Pool) (entry : Nat × Constant) : Pool :=
  match entry.2 with
  | .utf8 _ => { p with recorded := p.recorded.insertIfNew entry.2 entry.1.toUInt16 }
  | _ => p

/-- Records a class whose name can be found, unless one of the same name has been. -/
def recordClass (p : Pool) (entry : Nat × Constant) : Pool :=
  match p.table.className? entry.1.toUInt16 with
  | some name => { p with classes := p.classes.insertIfNew name entry.1.toUInt16 }
  | none => p

/-- Goes on from a finished table. Only its texts and classes are found again, the first of equal
ones. -/
def ofTable (t : ConstantTable) : Pool :=
  let texts := t.toList.foldl recordText ⟨t, ∅, ∅⟩
  t.toList.foldl recordClass texts

/-- The number of slots, with slot zero. -/
def slotCount (p : Pool) : UInt16 := p.table.next.toUInt16

/-- The constants from a slot on. -/
def constantsFrom (p : Pool) (start : UInt16) : List Constant :=
  (p.table.toList.filter fun entry => start.toNat ≤ entry.1).map (·.2)

/-- A change of the pool that may find it full. What was added before stays. -/
abbrev Change (α : Type) := ExceptT PoolOverflow (StateM Pool) α

/-- Adds a constant, unless it would reach past slot 65534. -/
def add (c : Constant) : Change PoolIndex :=
  fun p =>
    let slot := p.slotCount
    if slot.toNat + width c < 65536 then (.ok slot, { p with table := p.table.push c })
    else (.error ⟨c, slot⟩, p)

/-- The slot of a constant, which is added at the first request. -/
def intern (c : Constant) : Change PoolIndex := do
  match (← get).recorded[c]? with
  | some slot => return slot
  | none =>
    let slot ← add c
    modify fun p => { p with recorded := p.recorded.insert c slot }
    return slot

def utf8 (text : String) : Change PoolIndex := intern (.utf8 text)

/-- The class of a name in internal form, or of an array descriptor. -/
def classRef (name : String) : Change PoolIndex := do
  match (← get).classes[name]? with
  | some slot => return slot
  | none =>
    let slot ← add (.classRef (← utf8 name))
    modify fun p => { p with classes := p.classes.insert name slot }
    return slot

def string (text : String) : Change PoolIndex := do
  intern (.string (← utf8 text))

def integer (value : Int32) : Change PoolIndex := intern (.integer value)

def long (value : Int64) : Change PoolIndex := intern (.long value)

def nameAndType (name descriptor : PoolIndex) : Change PoolIndex :=
  intern (.nameAndType name descriptor)

def methodRef (owner : ClassName) (name : String) (type : MethodType) (ofInterface : Bool) :
    Change PoolIndex := do
  let owner ← classRef owner.text
  let name ← utf8 name
  let descriptor ← utf8 type.render
  intern (.methodRef owner (← nameAndType name descriptor) ofInterface)

end Pool

end JavaSnippet.ClassFile
