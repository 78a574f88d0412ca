import JavaSnippet.ClassPath.Basic
/-!
Subtypes, the methods a class inherits, and the conversions that need no cast. The hierarchy may
be incomplete or even cyclic, so searches note what they have visited.
-/
namespace JavaSnippet.ClassPath

/-- Adds the names not seen yet to those still to visit, and notes them as seen. -/
def enqueue (names : List ClassName) (toVisit seen : List ClassName) :
    List ClassName × List ClassName :=
  names.foldl (fun (toVisit, seen) name =>
    if name ∈ seen then (toVisit, seen) else (name :: toVisit, name :: seen)) (toVisit, seen)

/-- Whether a search from the classes still to visit comes to the target. Every class enters the
search once, so no more rounds are needed than there are edges. -/
def reaches (p : ClassPath) (target : ClassName) : Nat → List ClassName → List ClassName → Bool
  | 0, _, _ => false
  | _ + 1, [], _ => false
  | rounds + 1, next :: toVisit, seen =>
    if next = target then true
    else
      let (toVisit, seen) := enqueue (p.supertypes next) toVisit seen
      p.reaches target rounds toVisit seen

/-- Whether a class extends or implements another, itself included. Everything extends
`java/lang/Object`. -/
def isSubclass (p : ClassPath) (sub super : ClassName) : Bool :=
  super == .object || p.reaches super (p.edgeCount + 2) [sub] [sub]

/-- The class and the interface that arrays of every type extend. -/
def isArraySuper (name : ClassName) : Bool :=
  name == .object || name == .serializable

/-- Whether one reference type is a subtype of another. -/
def isSubtype (p : ClassPath) (sub super : FieldType) : Bool :=
  match sub, super with
  | ⟨_, _ + 1⟩, ⟨.object name, 0⟩ => isArraySuper name
  | ⟨.base a, m + 1⟩, ⟨.base b, n + 1⟩ => a == b && m == n
  | ⟨.object a, m + 1⟩, ⟨.object b, n + 1⟩ =>
    if m = n then p.isSubclass a b else n < m && isArraySuper b
  | ⟨.object a, 0⟩, ⟨.object b, 0⟩ => p.isSubclass a b
  | _, _ => false

/-- A search for the methods of one name. -/
structure MethodSearch where
  toVisit : List ClassName
  visited : List ClassName
  found : List (ClassData × MethodData)
  /-- Whether `java/lang/Object` has been or will be visited. -/
  reachedObject : Bool

/-- Adds the methods of a class that are not overridden. Constructors are not inherited. -/
def addMethods (start : ClassName) (name : String) (c : ClassData)
    (found : List (ClassData × MethodData)) : List (ClassData × MethodData) :=
  c.methods.foldl (fun found m =>
    if m.name ≠ name ∨ (m.name = "<init>" ∧ c.name ≠ start) then found
    else if found.any (·.2.type == m.type) then found
    else found ++ [(c, m)]) found

/-- Visits the next class. When none is left and `java/lang/Object` was not reached, which only
interfaces allow, it is visited at the end. -/
def MethodSearch.visit (s : MethodSearch) (p : ClassPath) (start : ClassName) (name : String)
    (next : ClassName) (rest : List ClassName) : MethodSearch :=
  if next ∈ s.visited then { s with toVisit := rest }
  else
    let found :=
      match p.find? next with
      | some c => addMethods start name c s.found
      | none => s.found
    let toVisit := rest ++ p.supertypes next
    let reached := s.reachedObject || next == .object
    if toVisit.isEmpty && !reached && name != "<init>" then
      ⟨[.object], next :: s.visited, found, true⟩
    else ⟨toVisit, next :: s.visited, found, reached⟩

def MethodSearch.run (p : ClassPath) (start : ClassName) (name : String) :
    Nat → MethodSearch → List (ClassData × MethodData)
  | 0, s => s.found
  | rounds + 1, s =>
    match s.toVisit with
    | [] => s.found
    | next :: rest => run p start name rounds (s.visit p start name next rest)

/-- The methods of a name that a class has, from near supertypes to far ones, each with the class
that declares it. -/
def visibleMethods (p : ClassPath) (start : ClassName) (name : String) :
    List (ClassData × MethodData) :=
  MethodSearch.run p start name (p.edgeCount + 3) ⟨[start], [], [], false⟩

/-- Whether integers of one type become another by widening. -/
def widens (source wanted : BaseType) : Bool :=
  source == wanted ||
    match source, wanted with
    | .byte, .short | .byte, .int | .byte, .long
    | .short, .int | .short, .long
    | .char, .int | .char, .long
    | .int, .long => true
    | _, _ => false

end JavaSnippet.ClassPath
