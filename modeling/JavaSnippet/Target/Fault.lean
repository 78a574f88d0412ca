import JavaSnippet.Descriptor.Text
import JavaSnippet.Target.Value
/-!
What can go wrong in the target or on the way to it.
-/
namespace JavaSnippet.Target

/-- An exception that code in the target threw. -/
structure Thrown where
  exception : ObjectRef
  /-- The name of its class as source would spell it. -/
  className : String
  /-- Its message, if it has one that could be read. -/
  message : Option String
  deriving DecidableEq, Repr, Inhabited

namespace Thrown

/-- What a user wants to know of it: the message, or else the class. -/
def description (t : Thrown) : String :=
  t.message.getD t.className

/-- Class and message. -/
def text (t : Thrown) : String :=
  match t.message with
  | some message => s!"{t.className}: {message}"
  | none => t.className

end Thrown

/-- How a call or a store goes against the types. -/
inductive Mismatch where
  | argumentCount (type : MethodType) (given : Nat)
  | argument (index : Nat) (type : MethodType) (given : Value) (expected : FieldType)
  /-- The class with this number has no method of the name and descriptor. -/
  | noMethod (name descriptor : String) (owner : UInt64)
  /-- In the words of the target. -/
  | reported (text : String)
  deriving DecidableEq, Repr, Inhabited

def Mismatch.message : Mismatch → String
  | argumentCount type given =>
    s!"{type.render} expects {type.parameters.length} argument(s) but got {given}"
  | argument index type given expected =>
    s!"argument {index} of {type.render} is {given.description} but should be {expected.render}"
  | noMethod name descriptor owner => s!"no method {name}{descriptor} in class {owner}"
  | reported text => text

/-- Why an operation on the target failed. -/
inductive Fault where
  /-- The class loader sees no class of this name. -/
  | classNotFound (name : String)
  | mismatch (cause : Mismatch)
  /-- The thread is not where it could run code. -/
  | illegalState (reason : String)
  | thrown (exception : Thrown)
  /-- The connection failed. -/
  | transport (reason : String)
  /-- The target refused with an error number that has no case of its own. -/
  | refused (code : UInt16)
  /-- The answer makes no sense. -/
  | protocol (reason : String)
  /-- The work was cancelled before the operation was sent. -/
  | cancelled
  deriving DecidableEq, Repr, Inhabited

/-- The name of the kind of fault. -/
def Fault.kind : Fault → String
  | classNotFound _ => "ClassNotFound"
  | mismatch _ => "Type"
  | illegalState _ => "IllegalState"
  | thrown _ => "Exception"
  | transport _ => "Transport"
  | refused _ => "Jdwp"
  | protocol _ => "Protocol"
  | cancelled => "Cancelled"

def Fault.message : Fault → String
  | classNotFound name => s!"class not found: {name}"
  | mismatch cause => s!"type mismatch: {cause.message}"
  | illegalState reason => s!"illegal thread state: {reason}"
  | thrown exception => s!"exception in target: {exception.text}"
  | transport reason => s!"transport failure: {reason}"
  | refused code => s!"JDWP error {code.toNat}"
  | protocol reason => s!"protocol error: {reason}"
  | cancelled => "cancelled"

/-- The first argument that does not fit its parameter. -/
def firstMisfit (type : MethodType) (index : Nat) : List FieldType → List Value → Option Mismatch
  | p :: ps, v :: vs =>
    if v.fits p then firstMisfit type (index + 1) ps vs else some (.argument index type v p)
  | _, _ => none

/-- Checks that arguments match a method type in number and kind. -/
def checkArguments (type : MethodType) (arguments : List Value) : Except Fault Unit :=
  if type.parameters.length ≠ arguments.length then
    .error (.mismatch (.argumentCount type arguments.length))
  else
    match firstMisfit type 0 type.parameters arguments with
    | some cause => .error (.mismatch cause)
    | none => .ok ()

end JavaSnippet.Target
