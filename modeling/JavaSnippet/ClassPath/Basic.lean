import JavaSnippet.Descriptor.Text
/-!
What the compiler knows of finished classes. A class path lists classes in the order in which they
are searched, so of two classes with one name the first counts.
-/
namespace JavaSnippet

structure MethodData where
  name : String
  type : MethodType
  isStatic : Bool
  deriving DecidableEq, Repr, Inhabited

structure ClassData where
  name : ClassName
  superclass : Option ClassName
  interfaces : List ClassName
  isInterface : Bool
  methods : List MethodData
  deriving DecidableEq, Repr, Inhabited

/-- The direct supertypes, the super class first. -/
def ClassData.supertypes (c : ClassData) : List ClassName :=
  c.superclass.toList ++ c.interfaces

structure ClassPath where
  classes : List ClassData
  deriving Repr, Inhabited

namespace ClassPath

def empty : ClassPath := ⟨[]⟩

/-- Searches the second path after the first. -/
def chain (first second : ClassPath) : ClassPath :=
  ⟨first.classes ++ second.classes⟩

/-- The path on which the last of several classes with one name counts. -/
def ofEntries (entries : List ClassData) : ClassPath :=
  ⟨entries.reverse⟩

def find? (p : ClassPath) (name : ClassName) : Option ClassData :=
  p.classes.find? (·.name == name)

def contains (p : ClassPath) (name : ClassName) : Bool :=
  (p.find? name).isSome

theorem find?_chain (first second : ClassPath) (name : ClassName) :
    (first.chain second).find? name = (first.find? name).or (second.find? name) := by
  simp [chain, find?]

/-- Whether a class on the path is an interface. -/
def isInterface (p : ClassPath) (name : ClassName) : Bool :=
  match p.find? name with
  | some c => c.isInterface
  | none => false

/-- The direct supertypes of a class. -/
def supertypes (p : ClassPath) (name : ClassName) : List ClassName :=
  match p.find? name with
  | some c => c.supertypes
  | none => []

/-- The number of steps from a class to a direct supertype. -/
def edgeCount (p : ClassPath) : Nat :=
  (p.classes.flatMap (·.supertypes)).length

end ClassPath

end JavaSnippet
