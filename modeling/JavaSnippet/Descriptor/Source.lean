import JavaSnippet.Descriptor
import JavaSnippet.Text.CharClass
/-!
Types as Java source spells them: a keyword or a dotted class name, and a pair of brackets for
each array dimension. White space around the brackets means nothing.
-/
namespace JavaSnippet.FieldType

/-- Takes bracket pairs off the end of a reversed text and counts them. The white space before
each pair goes with it. -/
def dropPairs : List Char → Nat → List Char × Nat
  | ']' :: '[' :: rest, count => dropPairs (rest.dropWhile Text.isBlank) (count + 1)
  | text, count => (text, count)
termination_by text => text.length
decreasing_by
  have := (List.dropWhile_suffix Text.isBlank (l := rest)).length_le
  simp; omega

/-- Reads the source form. -/
def ofSource (text : String) : Except NameFault FieldType :=
  let (reversed, dimensions) := dropPairs (Text.trim text.toList).reverse 0
  let element := String.ofList reversed.reverse
  match BaseType.ofKeyword? element with
  | some t => .ok ⟨.base t, dimensions⟩
  | none => (ClassName.ofDotted element).map fun name => ⟨.object name, dimensions⟩

/-- A type with its class, if it has one, spelt by `spell`. -/
def spellWith (spell : ClassName → String) (t : FieldType) : String :=
  let element :=
    match t.element with
    | .base b => b.keyword
    | .object name => spell name
  element ++ String.join (List.replicate t.dimensions "[]")

/-- The source form, with full class names. -/
def source (t : FieldType) : String :=
  t.spellWith ClassName.dotted

/-- The source form with simple class names, for messages about source. -/
def shortForm (t : FieldType) : String :=
  t.spellWith ClassName.shortForm

end JavaSnippet.FieldType
