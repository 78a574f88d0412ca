import JavaSnippet.Compile.Emission
import JavaSnippet.Typing.Body
/-!
Compilation of source units in memory. All units are parsed, then all classes declared, then all
signatures resolved, then all bodies typed; problems of every stage are reported together, unit by
unit.
-/
namespace JavaSnippet.Compile

open Typing Source

structure SourceUnit where
  /-- The dotted name of the main class. -/
  qualifiedName : String
  text : String
  deriving DecidableEq, Repr, Inhabited

/-- The name the unit would have as a file. -/
def SourceUnit.fileName (unit : SourceUnit) : String :=
  (splitAtEach '.' unit.qualifiedName).getLastD "" ++ ".java"

structure CompiledUnit where
  /-- The dotted name of the class. -/
  qualifiedName : String
  bytes : List UInt8
  deriving DecidableEq, Repr, Inhabited

/-- Whether a text occurs in another. -/
def occursIn (text : List Char) : List Char → Bool
  | [] => text.isEmpty
  | c :: rest => text.isPrefixOf (c :: rest) || occursIn text rest

/-- Whether the class belongs to code that was generated for an evaluation. -/
def CompiledUnit.isGenerated (unit : CompiledUnit) (marker : String) : Bool :=
  occursIn marker.toList unit.qualifiedName.toList

structure Diagnostic where
  unit : String
  line : Nat
  message : String
  deriving DecidableEq, Repr, Inhabited

def Diagnostic.text (d : Diagnostic) : String :=
  s!"{d.unit}:{d.line}: error: {d.message}"

/-- Diagnostics, one on a line. -/
def showDiagnostics (ds : List Diagnostic) : String :=
  String.intercalate "\n" (ds.map Diagnostic.text)

inductive Failure where
  /-- The source is wrong. -/
  | diagnostics (list : List Diagnostic)
  /-- The source is right, but the compiler cannot do it. -/
  | tooling (reason : String)
  deriving Repr, Inhabited

def Failure.message : Failure → String
  | .diagnostics list => showDiagnostics list
  | .tooling reason => s!"compiler failure: {reason}"

/-- A class with the unit it is in and the classes around it. -/
structure Declared where
  unit : Nat
  decl : ClassDecl
  /-- The enclosing classes, outermost first. -/
  around : List ClassName
  name : ClassName
  deriving Repr, Inhabited

namespace Declared

/-- The enclosing classes and the class itself. -/
def scope (d : Declared) : List ClassName := d.around ++ [d.name]

def outer (d : Declared) : Option ClassName := d.around.getLast?

end Declared

/-- A problem with the number of the unit it is in. -/
abbrev Located := Nat × Problem

/-- What is wrong with the place of a class. Top-level classes cannot be static, and nested ones
have to be. -/
def placement (decl : ClassDecl) (around : List ClassName) : List Problem :=
  if around.isEmpty then
    if decl.modifiers.isStatic then [⟨decl.line, .staticNotAllowed⟩] else []
  else if decl.modifiers.isStatic then [] else [⟨decl.line, .innerClass decl.name⟩]

mutual

/-- A class and those nested in it, outer classes first. -/
def declare (unit : Nat) (around : List ClassName) (name : ClassName) :
    ClassDecl → List Declared × List Located
  | .mk simple modifiers methods classes line =>
    let decl := ClassDecl.mk simple modifiers methods classes line
    let (inner, problems) := declareNested unit (around ++ [name]) name classes
    (⟨unit, decl, around, name⟩ :: inner, (placement decl around).map (unit, ·) ++ problems)

def declareNested (unit : Nat) (around : List ClassName) (outer : ClassName) :
    List ClassDecl → List Declared × List Located
  | [] => ([], [])
  | .mk simple modifiers methods classes line :: rest =>
    let decl := ClassDecl.mk simple modifiers methods classes line
    let (first, found) :=
      match SimpleName.ofString simple with
      | .ok inner => declare unit around (outer.nested inner) decl
      | .error fault => ([], [(unit, ⟨line, .badName fault⟩)])
    let (others, problems) := declareNested unit around outer rest
    (first ++ others, found ++ problems)

end

/-- The classes of a unit. -/
def declareUnit (unit : Nat) (parsed : CompilationUnit) : List Declared × List Located :=
  let parts := parsed.classes.map fun decl =>
    match ClassName.ofString (qualify (packageOf parsed) decl.name) with
    | .ok name => declare unit [] name decl
    | .error fault => ([], [(unit, ⟨decl.line, .badName fault⟩)])
  (parts.flatMap (·.1), parts.flatMap (·.2))

/-- Keeps the first of several classes with one name. What was kept comes last first. -/
def distinct (kept : List Declared) (problems : List Located) :
    List Declared → List Declared × List Located
  | [] => (kept.reverse, problems.reverse)
  | d :: rest =>
    if kept.any (·.name == d.name) then
      distinct kept ((d.unit, ⟨d.decl.line, .duplicateClass d.name⟩) :: problems) rest
    else distinct (d :: kept) problems rest

/-- What other classes see of a class being compiled. -/
def sourceData (d : Declared) (signatures : List Signature) : ClassData :=
  ⟨d.name, some .object, [], false,
    ⟨"<init>", noArguments, false⟩ :: signatures.map fun s => ⟨s.name, s.type, true⟩⟩

/-- The methods of a class whose head is right, in order. -/
structure Heads where
  /-- The methods found, last first. -/
  found : List (Signature × MethodDecl)
  /-- The problems found, last first. -/
  problems : List Problem

/-- Takes one more method. Methods have to be static and to differ in name or parameters. -/
def Heads.add (scope : TypeScope) (d : Declared) (heads : Heads) (m : MethodDecl) : Heads :=
  if !m.modifiers.isStatic then
    { heads with problems := ⟨m.line, .instanceMethod m.name⟩ :: heads.problems }
  else
    match scope.signature m d.scope with
    | .error problem => { heads with problems := problem :: heads.problems }
    | .ok s =>
      if heads.found.any fun other =>
          other.1.name == s.name && other.1.type.parameters == s.type.parameters then
        { heads with problems := ⟨m.line, .duplicateMethod s d.decl.name⟩ :: heads.problems }
      else { heads with found := (s, m) :: heads.found }

def headsOf (scope : TypeScope) (d : Declared) : Heads :=
  d.decl.methods.foldl (Heads.add scope d) ⟨[], []⟩

/-- A class whose method heads are resolved. -/
structure Resolved where
  declared : Declared
  methods : List (Signature × MethodDecl)

def Resolved.data (r : Resolved) : ClassData :=
  sourceData r.declared (r.methods.map (·.1))

/-- Types the bodies of a class. -/
def typeClass (scope : TypeScope) (all : List Declared) (file : String) (r : Resolved) :
    TypedClass × List Located :=
  let bodies := r.methods.map fun m => MethodContext.body ⟨scope, r.declared.scope, m.1⟩ m.2.body
  let members := all.filter fun d => d.outer == some r.declared.name
  (⟨r.declared.name, r.declared.decl.modifiers, r.declared.outer,
      members.map fun d => (d.name, d.decl.modifiers), bodies.map (·.1), file⟩,
    bodies.flatMap fun b => b.2.map (r.declared.unit, ·))

/-- A unit with its number, if its text could be parsed. -/
abbrev Parsed := Nat × CompilationUnit

/-- Parses all units. -/
def parseUnits (units : List SourceUnit) : List Parsed × List Located :=
  let results := units.zipIdx.map fun (unit, index) => (index, parse unit.text)
  (results.filterMap fun (index, result) => result.toOption.map (index, ·),
    results.filterMap fun (index, result) =>
      match result with
      | .ok _ => none
      | .error fault => some (index, ⟨fault.line, .syntactic fault.cause⟩))

/-- The typed classes of all units, and every problem found, stage after stage. -/
def typeUnits (external : ClassPath) (units : List SourceUnit) :
    List TypedClass × List Located :=
  let (parsed, syntactic) := parseUnits units
  let declarations := parsed.map fun (index, unit) => declareUnit index unit
  let (classes, duplicates) := distinct [] [] (declarations.flatMap (·.1))
  let stubs := ClassPath.chain ⟨classes.map (sourceData · [])⟩ external
  let scopes := parsed.map fun (index, unit) => (index, TypeScope.build stubs unit)
  let heads := classes.filterMap fun d =>
    (scopes.lookup d.unit).map fun scope => (d, headsOf scope.1 d)
  let resolved := heads.map fun (d, h) => (⟨d, h.found.reverse⟩ : Resolved)
  let path := ClassPath.chain ⟨resolved.map Resolved.data⟩ external
  let typed := resolved.filterMap fun r =>
    (scopes.lookup r.declared.unit).map fun scope =>
      let file := ((units[r.declared.unit]?).map SourceUnit.fileName).getD ""
      typeClass { scope.1 with classPath := path } classes file r
  (typed.map (·.1),
    syntactic ++ declarations.flatMap (·.2) ++ duplicates ++
      (scopes.flatMap fun (index, scope) => scope.2.map (index, ·)) ++
      (heads.flatMap fun (d, h) => h.problems.reverse.map (d.unit, ·)) ++
      typed.flatMap (·.2))

/-- Groups problems by unit, keeping their order. -/
def diagnose (units : List SourceUnit) (problems : List Located) : List Diagnostic :=
  units.zipIdx.flatMap fun (unit, index) =>
    (problems.filter (·.1 == index)).map fun p =>
      ⟨unit.qualifiedName, p.2.line, p.2.cause.message⟩

/-- Writes the classes after those already written, which come last first. -/
def emitAll (version : ClassFile.Version) (written : List CompiledUnit) :
    List TypedClass → Except Failure (List CompiledUnit)
  | [] => .ok written.reverse
  | c :: rest =>
    match emit c version with
    | .error fault => .error (.tooling fault.message)
    | .ok file => emitAll version (⟨c.name.dotted, file.encode⟩ :: written) rest

/-- Compiles units against a class path, for a class file version. -/
def compile (external : ClassPath) (units : List SourceUnit) (version : ClassFile.Version) :
    Except Failure (List CompiledUnit) :=
  let (classes, problems) := typeUnits external units
  match diagnose units problems with
  | [] => emitAll version [] classes
  | diagnostics => .error (.diagnostics diagnostics)

end JavaSnippet.Compile
