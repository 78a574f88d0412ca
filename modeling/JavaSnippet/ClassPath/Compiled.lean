import JavaSnippet.ClassFile.Decode
import JavaSnippet.ClassPath.Basic
/-!
Classes known from their class files. Private methods and static initializers are left out, as no
source outside the class can call them.
-/
namespace JavaSnippet.ClassFile

def refuse {α : Type} (cause : Malformation) : Except Fault α :=
  .error (.malformed 0 cause)

/-- What a method looks like from outside its class. -/
def methodData? (table : ConstantTable) (m : Member .method) :
    Except Fault (Option MethodData) := do
  if m.flags.isPrivate then return none
  match table.utf8? m.name, table.utf8? m.descriptor with
  | some name, some descriptor =>
    if name = "<clinit>" then return none
    match MethodType.parse descriptor with
    | .ok type => return some ⟨name, type, m.flags.isStatic⟩
    | .error fault => throw (.badDescriptor (.unreadable fault))
  | _, _ => refuse .badMember

/-- What a class looks like from outside. -/
def classData (c : ClassFile) : Except Fault ClassData := do
  match c.thisName? with
  | none => refuse .badThisName
  | some name =>
    let interfaces ← (c.interfaces.filterMap c.constants.className?).mapM fun text =>
      match ClassName.ofString text with
      | .ok name => .ok name
      | .error fault => refuse (.badInterface fault)
    let methods ← c.methods.mapM (methodData? c.constants)
    return ⟨name, c.superName?, interfaces, c.isInterface, methods.filterMap id⟩

end JavaSnippet.ClassFile

namespace JavaSnippet

/-- The path of the classes in some class files. -/
def ClassPath.ofFiles (files : List (List UInt8)) : Except ClassFile.Fault ClassPath := do
  let entries ← files.mapM fun bytes => do (← ClassFile.decode bytes).classData
  return .ofEntries entries

end JavaSnippet
