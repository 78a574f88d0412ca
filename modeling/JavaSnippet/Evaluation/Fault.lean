import JavaSnippet.Compile.Compilation
import JavaSnippet.Target.Fault
/-!
Why an evaluation gives no value. Nothing is tried again, and classes already defined in the target
stay defined.
-/
namespace JavaSnippet.Evaluation

/-- What is wrong with compiled classes or with the call. -/
inductive GenerationFault where
  /-- The super class of a unit cannot be replaced. -/
  | superclass (unit : String) (fault : ClassFile.Fault)
  /-- The class of the call cannot be read. -/
  | unreadable (fault : ClassFile.Fault)
  /-- There is no such call. -/
  | call (reason : String)
  deriving Repr, Inhabited

def GenerationFault.message : GenerationFault → String
  | superclass unit fault => s!"{unit}: {fault.message}"
  | unreadable fault => fault.message
  | call reason => reason

inductive Fault where
  /-- The source is wrong. -/
  | compilation (list : List Compile.Diagnostic)
  | codeGeneration (cause : GenerationFault)
  /-- The compiler failed on source that is right. -/
  | tooling (reason : String)
  /-- The target gave no class loader, or did not define the classes. -/
  | environment (cause : Target.Fault)
  /-- A class that the target ought to know is not there. -/
  | classResolution (name : String)
  /-- The call failed, other than by an exception. -/
  | remoteInvocation (cause : Target.Fault)
  /-- The thread is not where it could run code. -/
  | illegalState (reason : String)
  /-- The evaluated code threw an exception. -/
  | evaluation (description : String)
  | cancelled
  deriving Repr, Inhabited

namespace Fault

/-- The name of the kind of fault. -/
def kind : Fault → String
  | compilation _ => "Compilation"
  | codeGeneration _ => "CodeGeneration"
  | tooling _ => "Tooling"
  | environment _ => "Environment"
  | classResolution _ => "ClassResolution"
  | remoteInvocation _ => "RemoteInvocation"
  | illegalState _ => "IllegalState"
  | evaluation _ => "Evaluation"
  | cancelled => "Cancelled"

def message : Fault → String
  | compilation list => Compile.showDiagnostics list
  | codeGeneration cause => s!"code generation failed: {cause.message}"
  | tooling reason => s!"compiler failure: {reason}"
  | environment cause => s!"cannot prepare the target: {cause.message}"
  | classResolution name => s!"class not found: {name}"
  | remoteInvocation cause => s!"remote invocation failed: {cause.message}"
  | illegalState reason => s!"thread cannot run code: {reason}"
  | evaluation description => description
  | cancelled => "evaluation cancelled"

/-- Whether the fault lies in the user's own code. -/
def isUserFacing : Fault → Bool
  | compilation _ | evaluation _ => true
  | _ => false

/-- What the user is told. Faults that are not the user's own are not explained. -/
def userMessage (fault : Fault) : String :=
  if fault.isUserFacing then fault.message else "evaluation failed"

def ofCompile : Compile.Failure → Fault
  | .diagnostics list => compilation list
  | .tooling reason => tooling reason

/-- The fault of an evaluation whose call failed. -/
def ofCall : Target.Fault → Fault
  | .thrown exception => evaluation exception.description
  | .illegalState reason => illegalState reason
  | .classNotFound name => classResolution name
  | .cancelled => cancelled
  | cause => remoteInvocation cause

/-- The fault of an evaluation that could not be prepared. -/
def ofEnvironment : Target.Fault → Fault
  | .cancelled => cancelled
  | cause => environment cause

end Fault

end JavaSnippet.Evaluation
