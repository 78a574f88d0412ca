import JavaSnippet.ClassFile.MethodBody
import JavaSnippet.Typing.Term
/-!
The kinds of values that instructions tell apart. A value takes as many slots as its type says, and
only floating-point numbers have no kind.
-/
namespace JavaSnippet

open ClassFile
open MethodBody (valueKind?)

instance : Width ValueKind where
  width := ValueKind.slots

def IntWidth.kind : IntWidth → ValueKind
  | int => .int
  | long => .long

theorem IntWidth.slots_kind (w : IntWidth) : w.kind.slots = w.slots := by
  cases w with
  | int => rfl
  | long => rfl

namespace FieldType

theorem kind_of_supported {t : FieldType} (h : t.mentionsFloating = false) :
    ∃ kind, valueKind? t = some kind := by
  obtain ⟨element, dimensions⟩ := t
  cases element with
  | object name => exact ⟨.reference, rfl⟩
  | base b =>
    cases dimensions with
    | succ n => exact ⟨.reference, rfl⟩
    | zero =>
      cases b with
      | float => cases h
      | double => cases h
      | long => exact ⟨.long, rfl⟩
      | _ => exact ⟨.int, rfl⟩

theorem kind_of_reference {t : FieldType} (h : t.base? = none) :
    valueKind? t = some .reference := by
  unfold MethodBody.valueKind?
  rw [h]

theorem slots_of_kind {t : FieldType} {kind : ValueKind} (h : valueKind? t = some kind) :
    kind.slots = width t := by
  unfold MethodBody.valueKind? at h
  simp only [width]
  cases isBase : t.base? with
  | none =>
    rw [isBase] at h
    rw [← Option.some.inj h]
    rfl
  | some b =>
    rw [isBase] at h
    cases b with
    | float => cases h
    | double => cases h
    | _ =>
      rw [← Option.some.inj h]
      rfl

theorem widths_of_kinds {types : List FieldType} {kinds : List ValueKind}
    (h : types.map valueKind? = kinds.map some) : kinds.map width = types.map width := by
  induction types generalizing kinds with
  | nil => simpa using h
  | cons type types ih =>
    cases kinds with
    | nil => cases h
    | cons kind kinds =>
      obtain ⟨first, others⟩ := List.cons.inj h
      have slots : width kind = width type := slots_of_kind first
      rw [List.map_cons, List.map_cons, slots, ih others]

theorem kinds_of_supported {types : List FieldType}
    (h : ∀ t ∈ types, t.mentionsFloating = false) :
    ∃ kinds : List ValueKind, types.map valueKind? = kinds.map some := by
  induction types with
  | nil => exact ⟨[], rfl⟩
  | cons type types ih =>
    obtain ⟨supported, others⟩ := List.forall_mem_cons.mp h
    obtain ⟨kind, isKind⟩ := kind_of_supported supported
    obtain ⟨kinds, areKinds⟩ := ih others
    exact ⟨kind :: kinds, by rw [List.map_cons, List.map_cons, isKind, areKinds]⟩

end FieldType

namespace Typing

/-- The kind of the value that an evaluated term leaves, if it leaves one. -/
def ExprType.kind? : ExprType → Option ValueKind
  | void => none
  | null => some .reference
  | value t => valueKind? t

@[simp] theorem kind_widthType (w : IntWidth) : (widthType w).kind? = some w.kind := by
  cases w with
  | int => rfl
  | long => rfl

end Typing

end JavaSnippet
