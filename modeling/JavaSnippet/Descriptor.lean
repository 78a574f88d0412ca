import JavaSnippet.Name
import JavaSnippet.SlotTable
/-!
Types of variables and methods. A variable's type is an element type under a number of array
dimensions.
-/
namespace JavaSnippet

inductive BaseType where
  | byte | char | double | float | int | long | short | boolean
  deriving DecidableEq, Hashable, Repr, Inhabited

namespace BaseType

/-- Two slots for `double` and `long`, one for the others. -/
instance : Width BaseType where
  width
    | .double | .long => 2
    | _ => 1

/-- The keyword of the type. -/
def keyword : BaseType → String
  | byte => "byte"
  | char => "char"
  | double => "double"
  | float => "float"
  | int => "int"
  | long => "long"
  | short => "short"
  | boolean => "boolean"

def all : List BaseType :=
  [byte, char, double, float, int, long, short, boolean]

def ofKeyword? (text : String) : Option BaseType :=
  all.find? (·.keyword == text)

/-- The letter of the type in descriptors. -/
def letter : BaseType → Char
  | byte => 'B'
  | char => 'C'
  | double => 'D'
  | float => 'F'
  | int => 'I'
  | long => 'J'
  | short => 'S'
  | boolean => 'Z'

def ofLetter? (c : Char) : Option BaseType :=
  all.find? (·.letter == c)

theorem ofLetter?_letter (t : BaseType) : ofLetter? t.letter = some t := by
  cases t <;> decide

theorem letter_of_ofLetter? {c : Char} {t : BaseType} (h : ofLetter? c = some t) :
    t.letter = c := by
  simpa using List.find?_some h

theorem ofKeyword?_keyword (t : BaseType) : ofKeyword? t.keyword = some t := by
  cases t <;> decide

/-- The types without fraction, which arithmetic is defined on. -/
def isIntegral : BaseType → Bool
  | byte | short | char | int | long => true
  | _ => false

def isFloating : BaseType → Bool
  | float | double => true
  | _ => false

end BaseType

/-- What a variable holds, or what the elements of an array are in the end. -/
inductive ElementType where
  | base (type : BaseType)
  | object (name : ClassName)
  deriving DecidableEq, Hashable, Repr, Inhabited

/-- The type of a variable. -/
structure FieldType where
  element : ElementType
  dimensions : Nat
  deriving DecidableEq, Hashable, Repr, Inhabited

namespace FieldType

def base (t : BaseType) : FieldType := ⟨.base t, 0⟩

def object (name : ClassName) : FieldType := ⟨.object name, 0⟩

/-- The type of arrays of a type. -/
def array (t : FieldType) : FieldType := ⟨t.element, t.dimensions + 1⟩

def int : FieldType := base .int
def long : FieldType := base .long
def boolean : FieldType := base .boolean
def byte : FieldType := base .byte
def string : FieldType := object .string

/-- The base type, if the type is primitive. -/
def base? : FieldType → Option BaseType
  | ⟨.base t, 0⟩ => some t
  | _ => none

/-- The class, if the type is a class or interface. -/
def class? : FieldType → Option ClassName
  | ⟨.object name, 0⟩ => some name
  | _ => none

def isReference (t : FieldType) : Bool := t.base?.isNone

def isArray (t : FieldType) : Bool := t.dimensions != 0

/-- References take one slot. -/
instance : Width FieldType where
  width t :=
    match t.base? with
    | some b => width b
    | none => 1

/-- Whether the type or its elements are floating-point numbers. -/
def mentionsFloating (t : FieldType) : Bool :=
  match t.element with
  | .base b => b.isFloating
  | .object _ => false

end FieldType

/-- The type of a method. A method without result is `void`. -/
structure MethodType where
  parameters : List FieldType
  result : Option FieldType
  deriving DecidableEq, Hashable, Repr, Inhabited

/-- Slots that values of the types take together. -/
def totalWidth : List FieldType → Nat
  | [] => 0
  | t :: ts => width t + totalWidth ts

namespace MethodType

/-- Slots of the parameters, with one more for the receiver of an instance method. -/
def parameterSlots (m : MethodType) (hasReceiver : Bool) : Nat :=
  (if hasReceiver then 1 else 0) + totalWidth m.parameters

def resultSlots (m : MethodType) : Nat :=
  match m.result with
  | none => 0
  | some t => width t

end MethodType

end JavaSnippet
