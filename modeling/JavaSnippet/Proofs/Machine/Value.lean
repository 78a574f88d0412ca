import JavaSnippet.Arithmetic
import JavaSnippet.Descriptor
/-!
What variables and the operand stack hold, and how a call of a method ends. Source and machine share
these; each has its own arithmetic. A value is found at the first of its slots, and writing into any
slot that it takes destroys it.
-/
namespace JavaSnippet.Machine

section Slots

variable {V : Type} [Width V]

/-- What the local slots hold, each value at its first slot. -/
abbrev Locals (V : Type) := Nat → Option V

namespace Locals

def empty : Locals V := fun _ => none

/-- Writes a value into a slot, and into the slots after it that the value takes. -/
def set (l : Locals V) (slot : Nat) (v : V) : Locals V := fun n =>
  if n = slot then some v
  else (l n).filter fun old => n + width old ≤ slot ∨ slot + width v ≤ n

/-- Values one after another, as arguments are passed. -/
def ofList (slot : Nat) : List V → Locals V
  | [] => empty
  | v :: vs => (ofList (slot + width v) vs).set slot v

variable {l : Locals V}

@[simp] theorem set_same (slot : Nat) (v : V) : l.set slot v slot = some v := if_pos rfl

/-- A value that does not overlap the written one stays. -/
theorem set_apart {slot n : Nat} {v old : V} (here : l n = some old) (other : n ≠ slot)
    (apart : n + width old ≤ slot ∨ slot + width v ≤ n) : l.set slot v n = some old := by
  rw [set, if_neg other, here]
  simp [apart]

end Locals

/-- The slot of a variable, when variables take their slots in order. -/
def offset (types : List FieldType) (id : Nat) : Nat := totalWidth (types.take id)

theorem width_pos (t : FieldType) : 0 < width t := by
  have base : ∀ b : BaseType, 0 < width b := by intro b; cases b <;> decide
  simp only [width]
  cases t.base? with
  | none => exact Nat.one_pos
  | some b => exact base b

theorem totalWidth_append (front back : List FieldType) :
    totalWidth (front ++ back) = totalWidth front + totalWidth back := by
  induction front with
  | nil => simp [totalWidth]
  | cons t front ih =>
    rw [List.cons_append, totalWidth, totalWidth, ih]
    omega

theorem offset_succ {types : List FieldType} {id : Nat} {type : FieldType}
    (h : types[id]? = some type) : offset types (id + 1) = offset types id + width type := by
  rw [offset, List.take_add_one, h, totalWidth_append]
  rfl

theorem offset_le {types : List FieldType} {a b : Nat} (h : a ≤ b) :
    offset types a ≤ offset types b := by
  obtain ⟨rest, same⟩ := (List.take_prefix_take_left h : types.take a <+: types.take b)
  rw [offset, offset, ← same, totalWidth_append]
  omega

/-- Variables are apart from each other. -/
theorem offset_apart {types : List FieldType} {a b : Nat} {type : FieldType} (h : a < b)
    (isType : types[a]? = some type) : offset types a + width type ≤ offset types b := by
  rw [← offset_succ isType]
  exact offset_le h

theorem offset_append {front back : List FieldType} {id : Nat} (h : id ≤ front.length) :
    offset (front ++ back) id = offset front id := by
  rw [offset, List.take_append_of_le_length h, offset]

variable {l : Locals V}

/-- Writing one variable leaves the others alone. -/
theorem Locals.set_offset {types : List FieldType} {a b : Nat} {typeA typeB : FieldType} {w x : V}
    (isA : types[a]? = some typeA) (isB : types[b]? = some typeB) (ne : a ≠ b)
    (widthA : width w = width typeA) (widthB : width x = width typeB)
    (here : l (offset types a) = some w) :
    l.set (offset types b) x (offset types a) = some w := by
  have wideA := width_pos typeA
  have wideB := width_pos typeB
  rcases Nat.lt_or_gt_of_ne ne with before | after
  · have apart := offset_apart before isA
    exact set_apart here (by omega) (.inl (by omega))
  · have apart := offset_apart after isB
    exact set_apart here (by omega) (.inr (by omega))

/-- Arguments are where the variables of their types are. -/
theorem Locals.ofList_offset {vs : List V} {types : List FieldType}
    (widths : vs.map width = types.map width) (start : Nat) {i : Nat} {v : V}
    (h : vs[i]? = some v) : ofList start vs (start + offset types i) = some v := by
  induction vs generalizing types start i with
  | nil => cases h
  | cons w vs ih =>
    cases types with
    | nil => cases widths
    | cons type types =>
      obtain ⟨first, others⟩ := List.cons.inj widths
      cases i with
      | zero =>
        obtain rfl := Option.some.inj h
        exact set_same start _
      | succ i =>
        have later := ih others (start + width w) h
        have step : offset (type :: types) (i + 1) = width w + offset types i := by
          rw [offset, List.take_succ_cons, totalWidth, first, offset]
        have wide := width_pos type
        rw [step, ← Nat.add_assoc]
        refine set_apart later (by omega) (.inr (by omega))

end Slots

inductive Value where
  /-- Also the values of the types narrower than `int`, and of `boolean`. -/
  | int (value : Int32)
  | long (value : Int64)
  | reference (address : Nat)
  deriving DecidableEq, Repr, Inhabited

inductive Outcome where
  | returns (value : Option Value)
  | arithmeticException
  deriving DecidableEq, Repr, Inhabited

namespace Value

instance : Width Value where
  width
    | .long _ => 2
    | _ => 1

/-- Whether the value is one of a primitive type. -/
def isOf (v : Value) (type : BaseType) : Bool :=
  match type, v with
  | .byte, .int n => -128 ≤ n.toInt && n.toInt < 128
  | .short, .int n => -32768 ≤ n.toInt && n.toInt < 32768
  | .char, .int n => 0 ≤ n.toInt && n.toInt < 65536
  | .int, .int _ => true
  | .long, .long _ => true
  | .boolean, .int n => n == 0 || n == 1
  | _, _ => false

/-- Whether a variable of the type can hold the value. -/
def fits (v : Value) (type : FieldType) : Bool :=
  match type.base?, v with
  | some b, v => v.isOf b
  | none, .reference _ => true
  | none, _ => false

/-- Whether the values are one for each type. -/
def fitAll : List Value → List FieldType → Bool
  | [], [] => true
  | v :: vs, type :: types => v.fits type && fitAll vs types
  | _, _ => false

variable {v : Value}

theorem width_of_isOf {type : BaseType} (h : v.isOf type = true) : width v = width type := by
  cases type
  all_goals
    cases v
    all_goals first | rfl | cases h

theorem width_of_fits {type : FieldType} (h : v.fits type = true) : width v = width type := by
  unfold fits at h
  cases isBase : type.base? with
  | some b =>
    rw [isBase] at h
    have same := width_of_isOf h
    simp only [width, isBase] at same ⊢
    exact same
  | none =>
    rw [isBase] at h
    cases v with
    | reference address =>
      simp only [width, isBase]
    | int n => cases h
    | long n => cases h

theorem widths_of_fitAll {vs : List Value} {types : List FieldType}
    (h : fitAll vs types = true) : vs.map width = types.map width := by
  induction vs generalizing types with
  | nil =>
    cases types with
    | nil => rfl
    | cons type types => cases h
  | cons v vs ih =>
    cases types with
    | nil => cases h
    | cons type types =>
      obtain ⟨first, others⟩ := Bool.and_eq_true_iff.mp h
      rw [List.map_cons, List.map_cons, width_of_fits first, ih others]

theorem length_of_fitAll {vs : List Value} {types : List FieldType}
    (h : fitAll vs types = true) : vs.length = types.length := by
  simpa using congrArg List.length (widths_of_fitAll h)

end Value

end JavaSnippet.Machine
