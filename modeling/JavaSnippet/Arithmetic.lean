/-!
Integer arithmetic as source and machine share it: five operators, at two widths.
-/
namespace JavaSnippet

inductive ArithOp where
  | add | sub | mul | div | rem
  deriving DecidableEq, Repr, Inhabited

def ArithOp.symbol : ArithOp → Char
  | add => '+'
  | sub => '-'
  | mul => '*'
  | div => '/'
  | rem => '%'

/-- The widths at which integers are computed with. -/
inductive IntWidth where
  | int | long
  deriving DecidableEq, Repr, Inhabited

/-- Slots that an integer of the width takes. -/
def IntWidth.slots : IntWidth → Nat
  | int => 1
  | long => 2

/-- The first natural number that is too large for an `int`. -/
def intLimit : Nat := 2147483648

/-- The first natural number that is too large for a `long`. -/
def longLimit : Nat := 9223372036854775808

/-- The `int` that is equal to a value, if there is one. -/
def int32? (value : Int) : Option Int32 :=
  if -intLimit ≤ value ∧ value < intLimit then some (Int32.ofInt value) else none

/-- The `long` that is equal to a value, if there is one. -/
def int64? (value : Int) : Option Int64 :=
  if -longLimit ≤ value ∧ value < longLimit then some (Int64.ofInt value) else none

theorem int32?_eq_some {value : Int} {n : Int32} : int32? value = some n ↔ n.toInt = value := by
  rw [int32?, Option.ite_none_right_eq_some, Option.some.injEq]
  constructor
  · rintro ⟨⟨low, high⟩, rfl⟩
    exact Int32.toInt_ofInt_of_le low high
  · rintro rfl
    exact ⟨⟨n.le_toInt, n.toInt_lt⟩, Int32.ofInt_toInt n⟩

theorem int64?_eq_some {value : Int} {n : Int64} : int64? value = some n ↔ n.toInt = value := by
  rw [int64?, Option.ite_none_right_eq_some, Option.some.injEq]
  constructor
  · rintro ⟨⟨low, high⟩, rfl⟩
    exact Int64.toInt_ofInt_of_le low high
  · rintro rfl
    exact ⟨⟨n.le_toInt, n.toInt_lt⟩, Int64.ofInt_toInt n⟩

end JavaSnippet
