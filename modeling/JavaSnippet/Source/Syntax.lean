import JavaSnippet.Arithmetic
/-!
The syntax of source units: classes that hold static methods of straight-line statements. Every
node carries the line it is reported on.
-/
namespace JavaSnippet.Source

/-- A dotted name. -/
structure Path where
  head : String
  tail : List String
  deriving DecidableEq, Repr, Inhabited

namespace Path

def segments (p : Path) : List String := p.head :: p.tail

def joined (separator : String) (p : Path) : String :=
  String.intercalate separator p.segments

/-- The last segment. -/
def last (p : Path) : String := p.tail.getLastD p.head

/-- The path with one more segment. -/
def snoc (p : Path) (segment : String) : Path := ⟨p.head, p.tail ++ [segment]⟩

@[simp] theorem segments_snoc (p : Path) (segment : String) :
    (p.snoc segment).segments = p.segments ++ [segment] := rfl

end Path

/-- A primitive keyword or a class name, with array dimensions. -/
structure TypeName where
  path : Path
  dimensions : Nat
  line : Nat
  deriving DecidableEq, Repr, Inhabited

inductive Expr where
  /-- A literal, with a minus sign in front of it already applied. -/
  | int (value : Int) (line : Nat)
  | long (value : Int) (line : Nat)
  | string (text : String) (line : Nat)
  | bool (value : Bool) (line : Nat)
  | null (line : Nat)
  /-- A simple name: a variable, or the start of a dotted name. -/
  | name (text : String) (line : Nat)
  | select (qualifier : Expr) (member : String) (line : Nat)
  | neg (operand : Expr) (line : Nat)
  | binary (op : ArithOp) (left right : Expr) (line : Nat)
  | call (method : String) (args : List Expr) (line : Nat)
  | callOn (receiver : Expr) (method : String) (args : List Expr) (line : Nat)
  | create (type : TypeName) (args : List Expr) (line : Nat)
  deriving Repr, Inhabited

namespace Expr

def line : Expr → Nat
  | int _ line | long _ line | string _ line | bool _ line | null line | name _ line
  | select _ _ line | neg _ line | binary _ _ _ line | call _ _ line | callOn _ _ _ line
  | create _ _ line => line

/-- The dotted name, if the expression is made of names and selections alone. -/
def path? : Expr → Option Path
  | name text _ => some ⟨text, []⟩
  | select qualifier member _ => qualifier.path?.map (·.snoc member)
  | _ => none

end Expr

inductive Stmt where
  | declare (type : TypeName) (name : String) (isFinal : Bool) (value : Option Expr) (line : Nat)
  | assign (name : String) (value : Expr) (line : Nat)
  | returns (value : Option Expr) (line : Nat)
  | throws (value : Expr) (line : Nat)
  | expr (value : Expr)
  deriving Repr, Inhabited

def Stmt.line : Stmt → Nat
  | declare _ _ _ _ line | assign _ _ line | returns _ line | throws _ line => line
  | expr value => value.line

structure Modifiers where
  isPublic : Bool
  isProtected : Bool
  isPrivate : Bool
  isStatic : Bool
  isFinal : Bool
  isAbstract : Bool
  deriving DecidableEq, Repr, Inhabited

def Modifiers.none : Modifiers := ⟨false, false, false, false, false, false⟩

/-- The modifiers with one more, if the word is one. -/
def Modifiers.with? (m : Modifiers) : String → Option Modifiers
  | "public" => some { m with isPublic := true }
  | "protected" => some { m with isProtected := true }
  | "private" => some { m with isPrivate := true }
  | "static" => some { m with isStatic := true }
  | "final" => some { m with isFinal := true }
  | "abstract" => some { m with isAbstract := true }
  | _ => Option.none

structure Parameter where
  type : TypeName
  name : String
  line : Nat
  deriving Repr, Inhabited

structure MethodDecl where
  name : String
  modifiers : Modifiers
  /-- `none` for `void`. -/
  result : Option TypeName
  parameters : List Parameter
  body : List Stmt
  line : Nat
  deriving Repr, Inhabited

inductive ClassDecl where
  | mk (name : String) (modifiers : Modifiers) (methods : List MethodDecl)
    (classes : List ClassDecl) (line : Nat)
  deriving Repr, Inhabited

namespace ClassDecl

def name : ClassDecl → String
  | mk name _ _ _ _ => name

def modifiers : ClassDecl → Modifiers
  | mk _ modifiers _ _ _ => modifiers

def methods : ClassDecl → List MethodDecl
  | mk _ _ methods _ _ => methods

def classes : ClassDecl → List ClassDecl
  | mk _ _ _ classes _ => classes

def line : ClassDecl → Nat
  | mk _ _ _ _ line => line

end ClassDecl

structure Import where
  /-- The imported class, or the package of an import on demand. -/
  path : Path
  onDemand : Bool
  line : Nat
  deriving Repr, Inhabited

/-- One source file. -/
structure CompilationUnit where
  package : Option Path
  imports : List Import
  classes : List ClassDecl
  deriving Repr, Inhabited

end JavaSnippet.Source
