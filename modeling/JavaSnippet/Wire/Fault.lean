import JavaSnippet.Target.Fault
import JavaSnippet.Text.Utf8
import JavaSnippet.Wire.Command
/-!
What can go wrong on a connection. The target's refusals carry numbers, some of which say that the
thread or the types are to blame.
-/
namespace JavaSnippet.Wire

/-- Failures of reading, writing or encoding. -/
inductive IoFault where
  | endOfInput
  | endInData (received expected : Nat)
  | lengthTooLarge
  | voidValue
  deriving DecidableEq, Repr, Inhabited

def IoFault.message : IoFault → String
  | endOfInput => "failed to fill whole buffer"
  | endInData received expected => s!"packet ended after {received} of {expected} data bytes"
  | lengthTooLarge => "length does not fit in an int"
  | voidValue => "void is not a value"

/-- How a packet or its data can be ill-formed. -/
inductive Malformation where
  | shortPacket (length : Nat)
  | longPacket (length : Nat)
  /-- A packet to send is too large. -/
  | oversized (dataLength : Nat)
  | truncated
  | negativeLength (length : Int32)
  | stringOverrun
  | badText (fault : Text.Utf8.Fault)
  | identifierSize (size : Int32)
  | notObjectTag (tag : UInt8)
  | unknownTag (tag : UInt8)
  | unsupportedEvent (kind : UInt8)
  | nullArray
  deriving DecidableEq, Repr

/-- A tag as the character it is. -/
def shownTag (tag : UInt8) : String :=
  Text.quotedChar (Char.ofNat tag.toNat)

def Malformation.message : Malformation → String
  | shortPacket length => s!"packet length {length} is shorter than its header"
  | longPacket length => s!"packet length {length} is too large"
  | oversized dataLength => s!"packet of {dataLength} bytes is too large"
  | truncated => "packet data ended unexpectedly"
  | negativeLength length => s!"negative length {length.toInt}"
  | stringOverrun => "string runs past the end of the packet"
  | badText fault => fault.message
  | identifierSize size => s!"unsupported identifier size {size.toInt}"
  | notObjectTag tag => s!"tag {shownTag tag} is not an object tag"
  | unknownTag tag => s!"unknown value tag {shownTag tag}"
  | unsupportedEvent kind => s!"unsupported event kind {kind.toNat}"
  | nullArray => "new array is null"

inductive Fault where
  | io (cause : IoFault)
  /-- The target greeted with other bytes. -/
  | handshake (received : List UInt8)
  /-- The target refused a command. -/
  | reply (command : Command) (code : UInt16)
  | malformed (cause : Malformation)
  deriving DecidableEq, Repr

/-- The names of known error numbers. -/
def errorNames : List (UInt16 × String) := [
  (10, "INVALID_THREAD"),
  (13, "THREAD_NOT_SUSPENDED"),
  (20, "INVALID_OBJECT"),
  (21, "INVALID_CLASS"),
  (22, "CLASS_NOT_PREPARED"),
  (23, "INVALID_METHODID"),
  (34, "TYPE_MISMATCH"),
  (99, "NOT_IMPLEMENTED"),
  (101, "ABSENT_INFORMATION"),
  (102, "INVALID_EVENT_TYPE"),
  (103, "ILLEGAL_ARGUMENT"),
  (112, "VM_DEAD"),
  (502, "ALREADY_INVOKING"),
  (504, "INVALID_LENGTH")]

def errorName? (code : UInt16) : Option String := errorNames.lookup code

namespace Fault

/-- The name of the kind of fault. -/
def kind : Fault → String
  | io _ => "Io"
  | handshake _ => "Handshake"
  | reply _ _ => "Reply"
  | malformed _ => "Malformed"

def message : Fault → String
  | io cause => cause.message
  | handshake received => s!"bad handshake: {Text.quoted (Text.Utf8.decodeLossy received)}"
  | reply command code =>
    match errorName? code with
    | some name => s!"{command.text} failed: {name} ({code.toNat})"
    | none => s!"{command.text} failed with error {code.toNat}"
  | malformed cause => s!"malformed packet: {cause.message}"

/-- Error numbers that blame the state of the thread. -/
def threadErrors : List UInt16 := [10, 13, 502]

/-- Error numbers that blame the types of arguments. -/
def typeErrors : List UInt16 := [34, 103]

/-- What the fault means for an operation on the target. -/
def toTarget : Fault → Target.Fault
  | io cause => .transport cause.message
  | reply _ code =>
    let name := (errorName? code).getD "unknown error"
    if code ∈ threadErrors then .illegalState name
    else if code ∈ typeErrors then .mismatch (.reported name)
    else .refused code
  | fault => .protocol fault.message

end Fault

end JavaSnippet.Wire
