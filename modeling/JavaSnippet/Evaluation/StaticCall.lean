import JavaSnippet.ClassFile.Basic
import JavaSnippet.Evaluation.CallText
import JavaSnippet.Target.Suspension
/-!
Calls of static methods with literal arguments. The method is the only cheapest one among those of
the name that can take the literals, where an exact match costs nothing and every widening one.
-/
namespace JavaSnippet.Evaluation

open Target

/-- The classes and interfaces that a string widens to. -/
def stringSupertypes : List ClassName :=
  [.object, .charSequence, .comparable, .serializable]

/-- What it costs to pass a literal as a parameter, if that can be done. -/
def Literal.cost (l : Literal) (parameter : FieldType) : Option Nat :=
  match l with
  | .int _ => if parameter = .int then some 0 else if parameter = .long then some 1 else none
  | .long _ => if parameter = .long then some 0 else none
  | .boolean _ => if parameter = .boolean then some 0 else none
  | .string _ =>
    match parameter.class? with
    | some name =>
      if name = .string then some 0 else if name ∈ stringSupertypes then some 1 else none
    | none => none
  | .null => if parameter.isReference then some 0 else none

/-- What it costs to pass literals as parameters, if they are as many and all of them can be
passed. -/
def costOf : List Literal → List FieldType → Option Nat
  | [], [] => some 0
  | l :: ls, p :: ps => do return (← l.cost p) + (← costOf ls ps)
  | _, _ => none

structure StaticCall where
  owner : ClassRef
  method : String
  type : MethodType
  arguments : List Literal
  deriving DecidableEq, Repr, Inhabited

namespace StaticCall

/-- Whether a path names a class: it is the end of the class's name, cut at a dot, where nested
classes come after dots too. -/
def namesClass (qualifier className : String) : Bool :=
  let full := replaceChar '$' '.' className
  qualifier == full || ('.' :: qualifier.toList).isSuffixOf full.toList

/-- The type and cost of a method that can take the literals of a call. -/
def candidate? (file : ClassFile) (text : CallText) (m : ClassFile.Member .method) :
    Option (Nat × MethodType) :=
  if m.flags.isStatic && file.constants.utf8? m.name == some text.method then
    match (file.constants.utf8? m.descriptor).map MethodType.parse with
    | some (.ok type) => (costOf text.arguments type.parameters).map fun cost => (cost, type)
    | _ => none
  else none

/-- The methods that can take the literals of a call, with their costs. -/
def candidates (file : ClassFile) (text : CallText) : List (Nat × MethodType) :=
  file.methods.filterMap (candidate? file text)

/-- Those that cost least. -/
def cheapest (all : List (Nat × MethodType)) : List MethodType :=
  match (all.map (·.1)).min? with
  | none => []
  | some least => (all.filter (·.1 == least)).map (·.2)

/-- The call of a text on the generated class. -/
def build (text : String) (generated : ClassRef) (file : ClassFile) :
    Except CallFault StaticCall := do
  let parsed ← CallText.parse text
  match parsed.qualifier with
  | some qualifier =>
    if !namesClass qualifier generated.name then
      throw (.otherClass qualifier generated.name)
  | none => pure ()
  match cheapest (candidates file parsed) with
  | [] => throw (.noMethod parsed.method generated.name parsed.arguments.length)
  | [type] => return ⟨generated, parsed.method, type, parsed.arguments⟩
  | _ => throw (.ambiguous parsed.method)

/-- Makes the argument for a parameter. Strings are made in the target. -/
def argument {σ : Type} (target : Target σ) (l : Literal) (parameter : FieldType) :
    Suspension.Act σ Value := do
  match l with
  | .int value =>
    return .primitive (if parameter = .long then .long value.toInt64 else .int value)
  | .long value => return .primitive (.long value)
  | .boolean value => return .primitive (.boolean value)
  | .string text => return .object (← Suspension.newString target text)
  | .null => return .null

/-- Makes the arguments in order. -/
def makeArguments {σ : Type} (target : Target σ) :
    List Literal → List FieldType → Suspension.Act σ (List Value)
  | l :: ls, p :: ps => do
    let value ← argument target l p
    return value :: (← makeArguments target ls ps)
  | _, _ => pure []

/-- Makes the call on the target. -/
def run {σ : Type} (target : Target σ) (call : StaticCall) : Suspension.Act σ Value := do
  let arguments ← makeArguments target call.arguments call.type.parameters
  Suspension.invokeMethod target (.static call.owner) call.method call.type arguments

end StaticCall

end JavaSnippet.Evaluation
