/-!
Names of members and classes. A class name is kept in its internal form, with slashes between
packages; the dotted form is the one of Java source. A nested class joins its simple name to that
of the outer class by a dollar sign.
-/
namespace JavaSnippet

/-- Why a text is no name. -/
inductive NameFault where
  /-- A segment holds one of the characters `.`, `;`, `[` and `/`. -/
  | illegalCharacter (segment : String)
  | emptySegment
  | emptyClassName
  deriving DecidableEq, Repr, Inhabited

def NameFault.message : NameFault → String
  | .illegalCharacter segment => s!"Unqualified name '{segment}' contains an illegal character"
  | .emptySegment => "Unqualified name '' is empty"
  | .emptyClassName => "Binary name '' is empty"

/-- Splits a text at every occurrence of a separator. -/
def splitAtEach (separator : Char) (text : String) : List String :=
  (text.toList.splitOn separator).map String.ofList

/-- Puts one character in place of another throughout. -/
def replaceChar (old new : Char) (text : String) : String :=
  String.ofList (text.toList.map fun c => if c = old then new else c)

/-- The name of a method or field, or one segment of a class name. -/
structure SimpleName where
  text : String
  deriving DecidableEq, Hashable, Repr, Inhabited

namespace SimpleName

def isIllegal (c : Char) : Bool :=
  c == '.' || c == ';' || c == '[' || c == '/'

def check (text : String) : Except NameFault Unit :=
  if text.toList.any isIllegal then .error (.illegalCharacter text)
  else if text.isEmpty then .error .emptySegment
  else .ok ()

def ofString (text : String) : Except NameFault SimpleName :=
  (check text).map fun _ => ⟨text⟩

/-- The name under which constructors are declared. -/
def constructor : SimpleName := ⟨"<init>"⟩

end SimpleName

/-- The name of a class or interface, in internal form. -/
structure ClassName where
  text : String
  deriving DecidableEq, Hashable, Repr, Inhabited

namespace ClassName

/-- Every segment between slashes has to be a simple name. -/
def check (text : String) : Except NameFault Unit :=
  if text.isEmpty then .error .emptyClassName
  else (splitAtEach '/' text).forM SimpleName.check

def ofString (text : String) : Except NameFault ClassName :=
  (check text).map fun _ => ⟨text⟩

/-- Reads the dotted form. -/
def ofDotted (text : String) : Except NameFault ClassName :=
  ofString (replaceChar '.' '/' text)

/-- The dotted form. -/
def dotted (name : ClassName) : String :=
  replaceChar '/' '.' name.text

/-- The class nested in this one under a simple name. -/
def nested (name : ClassName) (inner : SimpleName) : ClassName :=
  ⟨name.text ++ "$" ++ inner.text⟩

/-- The part before the last slash. -/
def package? (name : ClassName) : Option String :=
  let before := (name.text.toList.reverse.dropWhile (· != '/')).drop 1
  if name.text.toList.contains '/' then some (String.ofList before.reverse) else none

/-- The part after the last slash. -/
def lastSegment (name : ClassName) : String :=
  String.ofList (name.text.toList.reverse.takeWhile (· != '/')).reverse

/-- The part of the last segment after its last dollar sign. -/
def simpleName (name : ClassName) : String :=
  String.ofList (name.lastSegment.toList.reverse.takeWhile (· != '$')).reverse

/-- The name as source would spell it, with nested classes after dots. -/
def source (name : ClassName) : String :=
  replaceChar '$' '.' name.dotted

/-- The last segment as source would spell it, with nested classes after dots. -/
def shortForm (name : ClassName) : String :=
  replaceChar '$' '.' name.lastSegment

def arithmeticException : ClassName := ⟨"java/lang/ArithmeticException"⟩
def boolean : ClassName := ⟨"java/lang/Boolean"⟩
def charSequence : ClassName := ⟨"java/lang/CharSequence"⟩
def classObject : ClassName := ⟨"java/lang/Class"⟩
def classLoader : ClassName := ⟨"java/lang/ClassLoader"⟩
def comparable : ClassName := ⟨"java/lang/Comparable"⟩
def error : ClassName := ⟨"java/lang/Error"⟩
def exception : ClassName := ⟨"java/lang/Exception"⟩
def illegalArgumentException : ClassName := ⟨"java/lang/IllegalArgumentException"⟩
def illegalStateException : ClassName := ⟨"java/lang/IllegalStateException"⟩
def integer : ClassName := ⟨"java/lang/Integer"⟩
def long : ClassName := ⟨"java/lang/Long"⟩
def math : ClassName := ⟨"java/lang/Math"⟩
def number : ClassName := ⟨"java/lang/Number"⟩
def object : ClassName := ⟨"java/lang/Object"⟩
def runtimeException : ClassName := ⟨"java/lang/RuntimeException"⟩
def serializable : ClassName := ⟨"java/io/Serializable"⟩
def string : ClassName := ⟨"java/lang/String"⟩
def stringBuilder : ClassName := ⟨"java/lang/StringBuilder"⟩
def system : ClassName := ⟨"java/lang/System"⟩
def throwable : ClassName := ⟨"java/lang/Throwable"⟩
def unsupportedOperationException : ClassName := ⟨"java/lang/UnsupportedOperationException"⟩
def url : ClassName := ⟨"java/net/URL"⟩
def urlClassLoader : ClassName := ⟨"java/net/URLClassLoader"⟩

/-- The class whose subclasses a Java 8 machine exempts from access checks. -/
def magicAccessor : ClassName := ⟨"sun/reflect/MagicAccessorImpl"⟩

end ClassName

end JavaSnippet
