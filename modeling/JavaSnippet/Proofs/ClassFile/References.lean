import JavaSnippet.Proofs.ClassFile.Requests
import JavaSnippet.Proofs.ClassFile.RoundTrip
import JavaSnippet.Proofs.Descriptor.Text
import JavaSnippet.Proofs.Machine.Operations
/-!
References inside a class file. Each is to a slot of the table of constants, which has to hold a
constant of the right kind.
-/
namespace JavaSnippet.ClassFile

open Machine

/-- What the constant refers to is there. Only the kinds that compiled classes need are allowed. -/
def Constant.Refers (t : ConstantTable) : Constant → Prop
  | .utf8 _ | .integer _ | .long _ => True
  | .classRef text | .string text => ∃ content, t.utf8? text = some content
  | .nameAndType name descriptor =>
    (∃ text, t.utf8? name = some text) ∧ ∃ text, t.utf8? descriptor = some text
  | .methodRef owner member _ =>
    (∃ name, t.className? owner = some name) ∧
      ∃ name descriptor text type, t.constant? member = some (.nameAndType name descriptor) ∧
        t.utf8? descriptor = some text ∧ MethodType.parse text = .ok type
  | _ => False

structure InnerClass.Refers (t : ConstantTable) (entry : InnerClass) : Prop where
  inner : ∃ name, t.className? entry.inner = some name
  outer : ∃ name, t.className? entry.outer = some name
  name : ∃ text, t.utf8? entry.name = some text

/-- The name of the attribute is there, and what it refers to. -/
structure Attribute.Refers (t : ConstantTable) (a : Attribute) : Prop where
  name : ∃ text, t.utf8? a.name = some text
  sourceFile : t.utf8? a.name = some "SourceFile" →
    ∃ file text, a.info = Bytes.ofUInt16 file ∧ t.utf8? file = some text
  innerClasses : t.utf8? a.name = some "InnerClasses" →
    ∃ entries, a.info = encodeInnerClasses entries ∧ ∀ entry ∈ entries, entry.Refers t

structure Code.Refers (t : ConstantTable) (c : Code) : Prop where
  operations : ∃ operations, disassemble c.code = some operations ∧ ∀ o ∈ operations, o.Names t
  handlers : ∀ h ∈ c.handlers, ∃ name, t.className? h.catchType = some name
  attributes : ∀ a ∈ c.attributes, a.Refers t

structure Member.Refers {owner : FlagOwner} (t : ConstantTable) (m : Member owner) : Prop where
  name : ∃ text, t.utf8? m.name = some text
  descriptor : ∃ text, t.utf8? m.descriptor = some text
  attributes : ∀ a ∈ m.attributes, a.Refers t

/-- Every slot that the class file names holds a constant of the right kind. -/
structure Refers (f : ClassFile) : Prop where
  constants : ∀ c ∈ f.constants.elements, c.Refers f.constants
  thisClass : ∃ name, f.constants.className? f.thisClass = some name
  superClass : ∃ name, f.constants.className? f.superClass = some name
  interfaces : ∀ index ∈ f.interfaces, ∃ name, f.constants.className? index = some name
  fields : ∀ m ∈ f.fields, m.Refers f.constants
  methods : ∀ m ∈ f.methods, m.Refers f.constants
  codes : ∀ m ∈ f.methods, ∃ code, f.constants.code? m = some code ∧ code.Refers f.constants
  attributes : ∀ a ∈ f.attributes, a.Refers f.constants

namespace Pool.Request

/-- The types that the request names only name valid classes. -/
def IsValid : Request → Prop
  | methodRef _ _ type _ => type.IsValid
  | _ => True

theorem Needs.refers {t : ConstantTable} {r : Request} {c : Constant} (needs : r.Needs t c)
    (valid : r.IsValid) : c.Refers t := by
  cases needs with
  | utf8 => trivial
  | integer => trivial
  | long => trivial
  | classRef _ named => exact ⟨_, named⟩
  | string content => exact ⟨_, content⟩
  | nameAndType named described => exact ⟨⟨_, named⟩, _, described⟩
  | methodRef owned joined _ described =>
    exact ⟨⟨_, owned⟩, _, _, _, _, joined, described, MethodType.parse_render valid⟩

end Pool.Request

end JavaSnippet.ClassFile
