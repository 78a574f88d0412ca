import JavaSnippet.Bytes
/-!
Command numbers of the Java Debug Wire Protocol.
-/
namespace JavaSnippet.Wire

/-- A command set and a number in it. -/
structure Command where
  set : UInt8
  number : UInt8
  deriving DecidableEq, Hashable, Repr, Inhabited

namespace Command

/-- The commands that are used, with their names. -/
def named : List (Command × String) := [
  (⟨1, 1⟩, "VirtualMachine.Version"),
  (⟨1, 2⟩, "VirtualMachine.ClassesBySignature"),
  (⟨1, 4⟩, "VirtualMachine.AllThreads"),
  (⟨1, 7⟩, "VirtualMachine.IDSizes"),
  (⟨1, 9⟩, "VirtualMachine.Resume"),
  (⟨1, 11⟩, "VirtualMachine.CreateString"),
  (⟨2, 1⟩, "ReferenceType.Signature"),
  (⟨2, 2⟩, "ReferenceType.ClassLoader"),
  (⟨2, 5⟩, "ReferenceType.Methods"),
  (⟨3, 1⟩, "ClassType.Superclass"),
  (⟨3, 3⟩, "ClassType.InvokeMethod"),
  (⟨3, 4⟩, "ClassType.NewInstance"),
  (⟨4, 1⟩, "ArrayType.NewInstance"),
  (⟨9, 1⟩, "ObjectReference.ReferenceType"),
  (⟨9, 6⟩, "ObjectReference.InvokeMethod"),
  (⟨9, 7⟩, "ObjectReference.DisableCollection"),
  (⟨9, 8⟩, "ObjectReference.EnableCollection"),
  (⟨10, 1⟩, "StringReference.Value"),
  (⟨11, 1⟩, "ThreadReference.Name"),
  (⟨11, 3⟩, "ThreadReference.Resume"),
  (⟨13, 3⟩, "ArrayReference.SetValues"),
  (⟨14, 1⟩, "ClassLoaderReference.VisibleClasses"),
  (⟨15, 1⟩, "EventRequest.Set"),
  (⟨15, 2⟩, "EventRequest.Clear"),
  (⟨17, 1⟩, "ClassObjectReference.ReflectedType"),
  (⟨64, 100⟩, "Event.Composite")]

/-- The command in which the target sends events. -/
def composite : Command := ⟨64, 100⟩

def name? (c : Command) : Option String := named.lookup c

def text (c : Command) : String :=
  c.name?.getD s!"command ({c.set.toNat}, {c.number.toNat})"

end Command

end JavaSnippet.Wire
