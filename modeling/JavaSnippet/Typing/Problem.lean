import JavaSnippet.Source.Parser
import JavaSnippet.Typing.Term
/-!
What can be wrong with source units, in the wording of the Java compiler.
-/
namespace JavaSnippet.Typing

/-- What a name that cannot be found was to be. -/
inductive CallKind where
  | method | constructor
  deriving DecidableEq, Repr, Inhabited

def CallKind.word : CallKind → String
  | .method => "method"
  | .constructor => "constructor"

inductive Cause where
  | syntactic (cause : Source.SyntaxCause)
  | badName (fault : NameFault)
  | staticNotAllowed
  | innerClass (name : String)
  | duplicateClass (name : ClassName)
  | instanceMethod (name : String)
  | duplicateMethod (signature : Signature) (owner : String)
  | unknownClass (name : String)
  | unknownPackage (name : String)
  | floatingType
  | unknownVariable (name : String)
  | unknownMethod (kind : CallKind) (name : String) (args : List ExprType)
  | notApplicable (kind : CallKind) (name : String) (owner : ClassName)
  | noSuitable (kind : CallKind) (name : String) (args : List ExprType)
  | ambiguous (name : String)
  | nonStatic (name : String) (parameters : List FieldType)
  | abstractClass (name : ClassName)
  | notDereferenced (type : ExprType)
  | redefined (name : String) (method : Signature)
  | uninitialized (name : String)
  | finalAssigned (name : String)
  | voidValue
  | numberTooLarge (magnitude : Nat)
  | badOperand (type : ExprType)
  | badOperands (op : ArithOp) (left right : ExprType)
  | lossy (source wanted : BaseType)
  | inconvertible (source wanted : ExprType)
  | notThrowable (type : ExprType)
  | unexpectedReturnValue
  | missingReturnValue
  | missingReturn
  | unreachable
  deriving Repr, Inhabited

def Cause.message : Cause → String
  | .syntactic cause => cause.message
  | .badName fault => fault.message
  | .staticNotAllowed => "modifier static not allowed here"
  | .innerClass name => s!"inner classes are not supported: declare {name} static"
  | .duplicateClass name => s!"duplicate class: {name.source}"
  | .instanceMethod name => s!"instance methods are not supported: declare {name} static"
  | .duplicateMethod signature owner =>
    s!"method {signature.shortForm} is already defined in class {owner}"
  | .unknownClass name => s!"cannot find symbol: class {name}"
  | .unknownPackage name => s!"package {name} does not exist"
  | .floatingType => "floating point types are not supported"
  | .unknownVariable name => s!"cannot find symbol: variable {name}"
  | .unknownMethod kind name args =>
    s!"cannot find symbol: {kind.word} {callForm name (args.map ExprType.shortForm)}"
  | .notApplicable kind name owner =>
    s!"{kind.word} {name} in class {owner.shortForm} cannot be applied to given types"
  | .noSuitable kind name args =>
    s!"no suitable {kind.word} found for {callForm name (args.map ExprType.shortForm)}"
  | .ambiguous name => s!"reference to {name} is ambiguous"
  | .nonStatic name parameters =>
    s!"non-static method {callForm name (parameters.map FieldType.shortForm)} cannot be " ++
      "referenced from a static context"
  | .abstractClass name => s!"{name.shortForm} is abstract; cannot be instantiated"
  | .notDereferenced type => s!"{type.shortForm} cannot be dereferenced"
  | .redefined name method =>
    s!"variable {name} is already defined in method {method.shortForm}"
  | .uninitialized name => s!"variable {name} might not have been initialized"
  | .finalAssigned name => s!"cannot assign a value to final variable {name}"
  | .voidValue => "'void' type not allowed here"
  | .numberTooLarge magnitude => s!"integer number too large: {magnitude}"
  | .badOperand type => s!"bad operand type {type.shortForm} for unary operator '-'"
  | .badOperands op left right =>
    s!"bad operand types for binary operator '{op.symbol}' " ++
      s!"(first type: {left.shortForm}, second type: {right.shortForm})"
  | .lossy source wanted =>
    s!"incompatible types: possible lossy conversion from {source.keyword} to {wanted.keyword}"
  | .inconvertible source wanted =>
    s!"incompatible types: {source.shortForm} cannot be converted to {wanted.shortForm}"
  | .notThrowable type =>
    s!"incompatible types: {type.shortForm} cannot be converted to Throwable"
  | .unexpectedReturnValue => "incompatible types: unexpected return value"
  | .missingReturnValue => "incompatible types: missing return value"
  | .missingReturn => "missing return statement"
  | .unreachable => "unreachable statement"

/-- A cause and the line it is reported on. -/
structure Problem where
  line : Nat
  cause : Cause
  deriving Repr, Inhabited

/-- Reports a cause on a line. -/
def reportAt {α : Type} (line : Nat) (cause : Cause) : Except Problem α :=
  .error ⟨line, cause⟩

/-- Reports the cause of a failure on a line. -/
def onLine {α : Type} (line : Nat) (result : Except Cause α) : Except Problem α :=
  match result with
  | .ok a => .ok a
  | .error cause => .error ⟨line, cause⟩

end JavaSnippet.Typing
