import JavaSnippet.ClassPath.Basic
import JavaSnippet.Typing.Problem
/-!
The class names in scope in a source unit. A simple name is looked for among the enclosing
classes and those nested in them, then in the unit, the single imports, the package, `java.lang`,
and last the imports on demand.
-/
namespace JavaSnippet.Typing

open Source

structure TypeScope where
  classPath : ClassPath
  /-- The package in internal form, empty for the unnamed one. -/
  package : String
  unitClasses : List ClassName
  /-- The single imports by simple name. Of two with one name the first here counts. -/
  imports : List (String × ClassName)
  /-- The packages imported on demand, in internal form. -/
  onDemand : List String
  deriving Repr, Inhabited

/-- The text of a class name in a package. -/
def qualify (package simple : String) : String :=
  if package.isEmpty then simple else package ++ "/" ++ simple

/-- The package of a unit, in internal form. -/
def packageOf (unit : CompilationUnit) : String :=
  match unit.package with
  | some path => path.joined "/"
  | none => ""

namespace TypeScope

variable (scope : TypeScope)

/-- A class on the path, named in a package. -/
def inPackage (package simple : String) : Option ClassName :=
  match ClassName.ofString (qualify package simple) with
  | .ok name => if scope.classPath.contains name then some name else none
  | .error _ => none

/-- A class on the path, nested in another. -/
def nestedIn (outer : ClassName) (simple : String) : Option ClassName :=
  match SimpleName.ofString simple with
  | .ok inner =>
    if scope.classPath.contains (outer.nested inner) then some (outer.nested inner) else none
  | .error _ => none

/-- Follows simple names inward from a class. -/
def descend (name : ClassName) : List String → Except Cause ClassName
  | [] => .ok name
  | simple :: rest =>
    match scope.nestedIn name simple with
    | some inner => descend inner rest
    | none => .error (.unknownClass simple)

/-- Enclosing classes, from the innermost, and the classes nested in them. -/
def amongEnclosing (simple : String) : List ClassName → Option ClassName
  | [] => none
  | outer :: rest =>
    if outer.simpleName = simple then some outer
    else
      match scope.nestedIn outer simple with
      | some name => some name
      | none => amongEnclosing simple rest

/-- The class a simple name means. The enclosing classes are given outermost first. -/
def simple? (simple : String) (enclosing : List ClassName) : Option ClassName :=
  (scope.amongEnclosing simple enclosing.reverse)
    <|> scope.unitClasses.find? (·.lastSegment == simple)
    <|> scope.imports.lookup simple
    <|> scope.inPackage scope.package simple
    <|> scope.inPackage "java/lang" simple
    <|> scope.onDemand.findSome? (scope.inPackage · simple)

/-- Takes ever longer packages off the front of a name until a class is found after one. -/
def afterPackage (package : String) : List String → Option (Except Cause ClassName)
  | [] => none
  | simple :: rest =>
    match scope.inPackage package simple with
    | some name => some (scope.descend name rest)
    | none => afterPackage (package ++ "/" ++ simple) rest

/-- The class a name with its package means. -/
def qualified (path : Path) : Except Cause ClassName :=
  match scope.afterPackage path.head path.tail with
  | some result => result
  | none =>
    if path.tail.isEmpty then .error (.unknownClass path.head)
    else .error (.unknownPackage (String.intercalate "." path.segments.dropLast))

/-- The class a name in source means. -/
def resolve (path : Path) (enclosing : List ClassName) : Except Cause ClassName :=
  match scope.simple? path.head enclosing with
  | some name => scope.descend name path.tail
  | none => scope.qualified path

/-- The type that a type name means. -/
def resolveType (type : TypeName) (enclosing : List ClassName) : Except Cause FieldType := do
  match BaseType.ofKeyword? (type.path.joined ".") with
  | some b => if b.isFloating then throw .floatingType else return ⟨.base b, type.dimensions⟩
  | none => return ⟨.object (← scope.resolve type.path enclosing), type.dimensions⟩

/-- The flags that the modifiers of a method stand for. -/
def methodFlags (m : Modifiers) : ClassFile.Flags .method :=
  ClassFile.Flags.none
    |>.withBit ClassFile.Flag.isPublic m.isPublic
    |>.withBit ClassFile.Flag.isProtected m.isProtected
    |>.withBit ClassFile.Flag.isPrivate m.isPrivate
    |>.withBit ClassFile.Flag.isStatic m.isStatic
    |>.withBit ClassFile.Flag.isFinal m.isFinal

/-- Resolves the types in the head of a method. -/
def signature (m : MethodDecl) (enclosing : List ClassName) : Except Problem Signature := do
  let parameters ← m.parameters.mapM fun p =>
    onLine p.line (scope.resolveType p.type enclosing)
  let result ← m.result.mapM fun type => onLine type.line (scope.resolveType type enclosing)
  return ⟨m.name, methodFlags m.modifiers, m.parameters.map (·.name), ⟨parameters, result⟩, m.line⟩

/-- The scope of a unit before its imports. -/
def ofUnit (classPath : ClassPath) (unit : CompilationUnit) : TypeScope :=
  let package := packageOf unit
  let names := unit.classes.filterMap fun c =>
    (ClassName.ofString (qualify package c.name)).toOption
  ⟨classPath, package, names, [], []⟩

/-- Adds an import, or reports why it means nothing. -/
def addImport (state : TypeScope × List Problem) (i : Import) : TypeScope × List Problem :=
  let (scope, problems) := state
  if i.onDemand then ({ scope with onDemand := scope.onDemand ++ [i.path.joined "/"] }, problems)
  else
    match scope.qualified i.path with
    | .ok name => ({ scope with imports := (i.path.last, name) :: scope.imports }, problems)
    | .error cause => (scope, problems ++ [⟨i.line, cause⟩])

/-- The scope of a unit, and the problems with its imports. -/
def build (classPath : ClassPath) (unit : CompilationUnit) : TypeScope × List Problem :=
  unit.imports.foldl addImport (ofUnit classPath unit, [])

end TypeScope

end JavaSnippet.Typing
