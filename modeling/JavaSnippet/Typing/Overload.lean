import JavaSnippet.ClassPath.Hierarchy
import JavaSnippet.Typing.Problem
/-!
Conversions and the choice among overloaded methods. Methods whose parameter types are those of
the arguments go before methods that need a widening, and of several the most specific is chosen.
-/
namespace JavaSnippet.Typing

/-- Whether a value of a type can stand where another type is wanted, without a cast. -/
def isAssignable (path : ClassPath) (source : ExprType) (wanted : FieldType) : Bool :=
  match source with
  | .void => false
  | .null => wanted.isReference
  | .value t =>
    match t.base?, wanted.base? with
    | some a, some b => ClassPath.widens a b
    | none, none => path.isSubtype t wanted
    | _, _ => false

/-- Passes a value where a type is wanted, widening a narrower integer to `long`. -/
def pass (path : ClassPath) (t : Term) (wanted : FieldType) : Option Term :=
  if isAssignable path t.type wanted then
    if wanted = .long ∧ t.type.base?.isSome ∧ !t.type.isLong then some (.widen t) else some t
  else none

/-- Whether an integer constant fits in a narrower type. -/
def narrows (value : Int32) (wanted : FieldType) : Bool :=
  match wanted.base? with
  | some .byte => -128 ≤ value && value < 128
  | some .short => -32768 ≤ value && value < 32768
  | some .char => 0 ≤ value && value < 65536
  | _ => false

/-- Why a value cannot be assigned. -/
def conversionFault (source : ExprType) (wanted : FieldType) : Cause :=
  match source.base?, wanted.base? with
  | some a, some b =>
    if a = .boolean ∨ b = .boolean then .inconvertible source (.value wanted) else .lossy a b
  | _, _ => .inconvertible source (.value wanted)

/-- Converts a value for an assignment. Constants may become narrower. -/
def convert (path : ClassPath) (t : Term) (wanted : FieldType) : Except Cause Term :=
  let narrowed :=
    match t with
    | .int value => narrows value wanted
    | _ => false
  if narrowed then .ok t
  else
    match pass path t wanted with
    | some converted => .ok converted
    | none => .error (conversionFault t.type wanted)

/-- Passes arguments to a method that was found to take them. -/
def passAll (path : ClassPath) (args : List Term) (m : MethodType) : List Term :=
  args.zipWith (fun t wanted => (pass path t wanted).getD t) m.parameters

def takesCount (args : List ExprType) (m : MethodData) : Bool :=
  m.type.parameters.length == args.length

/-- The parameter types are those of the arguments. -/
def isExact (args : List ExprType) (m : MethodData) : Bool :=
  takesCount args m && (args.zip m.type.parameters).all fun (a, p) => a == .value p

/-- The arguments can be passed. -/
def isApplicable (path : ClassPath) (args : List ExprType) (m : MethodData) : Bool :=
  takesCount args m && (args.zip m.type.parameters).all fun (a, p) => isAssignable path a p

/-- Whatever can be passed to the first method can be passed to the second. -/
def isMoreSpecific (path : ClassPath) (a b : MethodData) : Bool :=
  (a.type.parameters.zip b.type.parameters).all fun (p, q) => isAssignable path (.value p) q

/-- The methods at least as specific as all others. -/
def mostSpecific (path : ClassPath) (methods : List MethodData) : List MethodData :=
  methods.filter fun a => methods.all (isMoreSpecific path a ·)

def callKind (name : String) : CallKind :=
  if name = "<init>" then .constructor else .method

/-- The name that messages use. Constructors go by the name of their class. -/
def calledName (owner : ClassName) (name : String) : String :=
  if name = "<init>" then owner.shortForm else name

/-- Chooses among the methods of a name that a class has. -/
def select (path : ClassPath) (candidates : List (ClassData × MethodData)) (owner : ClassName)
    (name : String) (args : List ExprType) : Except Cause MethodData :=
  let methods := candidates.map (·.2)
  let exact := methods.filter (isExact args)
  let applicable := if exact.isEmpty then methods.filter (isApplicable path args) else exact
  let called := calledName owner name
  match mostSpecific path applicable, applicable, candidates with
  | chosen :: _, _, _ => .ok chosen
  | [], _ :: _, _ => .error (.ambiguous called)
  | [], [], [] => .error (.unknownMethod (callKind name) called args)
  | [], [], [only] => .error (.notApplicable (callKind name) called only.1.name)
  | [], [], _ => .error (.noSuitable (callKind name) called args)

end JavaSnippet.Typing
