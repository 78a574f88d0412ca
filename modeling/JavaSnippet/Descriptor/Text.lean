import JavaSnippet.Descriptor
import JavaSnippet.Text.Quoted
/-!
Descriptors, the text form of types in class files. Reading takes the longest type at the front
and refuses anything after it; the place of a fault is a number of bytes of the UTF-8 form.
-/
namespace JavaSnippet

namespace ElementType

def render : ElementType → List Char
  | base t => [t.letter]
  | object name => 'L' :: (name.text.toList ++ [';'])

end ElementType

namespace FieldType

/-- The characters of the descriptor. -/
def renderChars (t : FieldType) : List Char :=
  List.replicate t.dimensions '[' ++ t.element.render

def render (t : FieldType) : String :=
  String.ofList t.renderChars

end FieldType

namespace MethodType

def renderChars (m : MethodType) : List Char :=
  '(' :: (m.parameters.flatMap FieldType.renderChars ++
    (')' :: match m.result with
      | none => ['V']
      | some t => t.renderChars))

def render (m : MethodType) : String :=
  String.ofList m.renderChars

end MethodType

/-- What is wrong at one place of a descriptor. -/
inductive DescriptorCause where
  | trailing (found : Char)
  | expected (wanted found : Char)
  | ended (wanted : Char)
  | missing (terminator : Char)
  | notPrimitive (found : Char)
  | missingPrimitive
  | unclosedParameters
  | badName (fault : NameFault)
  deriving DecidableEq, Repr, Inhabited

def DescriptorCause.message : DescriptorCause → String
  | .trailing found => s!"unexpected trailing '{found}'"
  | .expected wanted found => s!"expected '{wanted}' but found '{found}'"
  | .ended wanted => s!"expected '{wanted}' but input ended"
  | .missing terminator => s!"missing '{terminator}'"
  | .notPrimitive found => s!"'{found}' is not a primitive type"
  | .missingPrimitive => "missing primitive type"
  | .unclosedParameters => "unclosed parameter list"
  | .badName fault => fault.message

/-- A descriptor that is not one, with the place and the cause. -/
structure DescriptorFault where
  descriptor : String
  position : Nat
  cause : DescriptorCause
  deriving DecidableEq, Repr, Inhabited

def DescriptorFault.message (fault : DescriptorFault) : String :=
  s!"{fault.cause.message} at offset {fault.position} of {Text.quoted fault.descriptor}"

namespace Descriptor

/-- What is left to read, and how many bytes lie before it. -/
structure Cursor where
  rest : List Char
  position : Nat
  deriving Repr

/-- A place and what is wrong there. -/
abbrev Scan (α : Type) := StateT Cursor (Except (Nat × DescriptorCause)) α

def fail {α : Type} (cause : DescriptorCause) : Scan α :=
  fun cursor => .error (cursor.position, cause)

def peek : Scan (Option Char) :=
  fun cursor => .ok (cursor.rest.head?, cursor)

/-- The next character, which is passed even when it is then refused. -/
def bump : Scan (Option Char) :=
  fun cursor =>
    match cursor.rest with
    | [] => .ok (none, cursor)
    | c :: rest => .ok (some c, ⟨rest, cursor.position + c.utf8Size⟩)

def expect (wanted : Char) : Scan Unit := do
  match ← bump with
  | some found => if found = wanted then pure () else fail (.expected wanted found)
  | none => fail (.ended wanted)

/-- The number of bytes of the UTF-8 form. -/
def byteCount : List Char → Nat
  | [] => 0
  | c :: rest => c.utf8Size + byteCount rest

/-- The characters before a terminator, which is passed too. -/
def takeUntil (terminator : Char) : Scan (List Char) :=
  fun cursor =>
    let taken := cursor.rest.takeWhile (· != terminator)
    match cursor.rest.dropWhile (· != terminator) with
    | [] => .error (cursor.position, .missing terminator)
    | _ :: rest =>
      .ok (taken, ⟨rest, cursor.position + byteCount taken + terminator.utf8Size⟩)

/-- The number of opening brackets at the front, which are passed. -/
def brackets : Scan Nat :=
  fun cursor =>
    let count := (cursor.rest.takeWhile (· == '[')).length
    .ok (count, ⟨cursor.rest.drop count, cursor.position + count⟩)

def baseType : Scan BaseType := do
  match ← bump with
  | some c =>
    match BaseType.ofLetter? c with
    | some t => pure t
    | none => fail (.notPrimitive c)
  | none => fail .missingPrimitive

def className : Scan ClassName := do
  expect 'L'
  let text ← takeUntil ';'
  match ClassName.ofString (String.ofList text) with
  | .ok name => pure name
  | .error fault => fail (.badName fault)

def elementType : Scan ElementType := do
  if (← peek) = some 'L' then return .object (← className)
  else return .base (← baseType)

def fieldType : Scan FieldType := do
  let dimensions ← brackets
  return ⟨← elementType, dimensions⟩

/-- Parameters up to the closing parenthesis. Each takes at least one of the characters that
`budget` counts; those already found come last first. -/
def parameters (budget : List Char) (found : List FieldType) : Scan (List FieldType) := do
  match ← peek with
  | some ')' => return found.reverse
  | none => fail .unclosedParameters
  | some _ =>
    match budget with
    | [] => fail .unclosedParameters
    | _ :: budget =>
      let t ← fieldType
      parameters budget (t :: found)

def methodType : Scan MethodType := do
  expect '('
  let cursor ← get
  let types ← parameters cursor.rest []
  expect ')'
  if (← peek) = some 'V' then
    let _ ← bump
    return ⟨types, none⟩
  else return ⟨types, some (← fieldType)⟩

/-- Reads a text that has to be used up. -/
def parseAll {α : Type} (scan : Scan α) (text : String) : Except DescriptorFault α :=
  match scan ⟨text.toList, 0⟩ with
  | .error (position, cause) => .error ⟨text, position, cause⟩
  | .ok (value, cursor) =>
    match cursor.rest with
    | [] => .ok value
    | c :: _ => .error ⟨text, cursor.position, .trailing c⟩

end Descriptor

def BaseType.parse : String → Except DescriptorFault BaseType :=
  Descriptor.parseAll Descriptor.baseType

def ClassName.parseDescriptor : String → Except DescriptorFault ClassName :=
  Descriptor.parseAll Descriptor.className

def FieldType.parse : String → Except DescriptorFault FieldType :=
  Descriptor.parseAll Descriptor.fieldType

def MethodType.parse : String → Except DescriptorFault MethodType :=
  Descriptor.parseAll Descriptor.methodType

end JavaSnippet
