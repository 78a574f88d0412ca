import JavaSnippet.Descriptor
/-!
Types as messages about instructions show them, constructor by constructor.
-/
namespace JavaSnippet

def BaseType.shown : BaseType → String
  | byte => "Byte"
  | char => "Char"
  | double => "Double"
  | float => "Float"
  | int => "Int"
  | long => "Long"
  | short => "Short"
  | boolean => "Boolean"

/-- An array shows how many dimensions it has beyond the first. -/
def FieldType.shown (t : FieldType) : String :=
  let array (kind element : String) (extra : Nat) :=
    s!"Ref({kind}(ArrayType \x7b additional_dimensions: {extra}, element_type: {element} \x7d))"
  match t.element, t.dimensions with
  | .base b, 0 => s!"Base({b.shown})"
  | .object name, 0 => s!"Ref(Object({name.text}))"
  | .base b, extra + 1 => array "PrimitiveArray" b.shown extra
  | .object name, extra + 1 => array "ObjectArray" name.text extra

def MethodType.shown (m : MethodType) : String :=
  let parameters := String.intercalate ", " (m.parameters.map FieldType.shown)
  let result :=
    match m.result with
    | none => "None"
    | some t => s!"Some({t.shown})"
  s!"MethodDescriptor \x7b parameters: [{parameters}], return_type: {result} \x7d"

end JavaSnippet
