import JavaSnippet.Source.Syntax
import JavaSnippet.Source.Token
/-!
Parsing of source units. A parser takes tokens off the front of those left. Loops are bounded by
the tokens at their start, each round taking at least one; expressions nest at most 128 deep in
unary operators, parentheses and arguments, and the depth still allowed is an argument.
-/
namespace JavaSnippet.Source

/-- Why a text is no source unit. -/
inductive SyntaxCause where
  | lexical (cause : LexCause)
  | endOfFile
  | expected (what : String)
  | notStatement
  | nestedTooDeeply
  | illegalStart
  deriving DecidableEq, Repr, Inhabited

def SyntaxCause.message : SyntaxCause → String
  | .lexical cause => cause.message
  | .endOfFile => "reached end of file while parsing"
  | .expected what => s!"{what} expected"
  | .notStatement => "not a statement"
  | .nestedTooDeeply => "expression is nested too deeply"
  | .illegalStart => "illegal start of expression"

structure SyntaxFault where
  line : Nat
  cause : SyntaxCause
  deriving DecidableEq, Repr, Inhabited

namespace Parser

abbrev Parse (α : Type) := StateT Lexemes (Except SyntaxFault) α

def peek : Parse (Option Token) :=
  fun s => .ok (s.rest.head?.map (·.token), s)

/-- The line of the next token, or of the end. -/
def line : Parse Nat :=
  fun s => .ok ((s.rest.head?.map (·.line)).getD s.endLine, s)

def skip : Parse Unit :=
  fun s => .ok ((), { s with rest := s.rest.drop 1 })

/-- Refuses the next token. At the end, that there is none is the fault. -/
def fail {α : Type} (cause : SyntaxCause) : Parse α :=
  fun s =>
    match s.rest with
    | [] => .error ⟨s.endLine, .endOfFile⟩
    | next :: _ => .error ⟨next.line, cause⟩

/-- Refuses with a cause that holds at the end as well. -/
def failAt {α : Type} (line : Nat) (cause : SyntaxCause) : Parse α :=
  fun _ => .error ⟨line, cause⟩

def isNext (token : Token) : Parse Bool := do return (← peek) == some token

/-- Takes the token if it is next. -/
def eat (token : Token) : Parse Bool := do
  if ← isNext token then
    skip
    return true
  else return false

def eatPunct (c : Char) : Parse Bool := eat (.punct c)

def eatWord (text : String) : Parse Bool := eat (.word text)

def expect (c : Char) : Parse Unit := do
  if !(← eatPunct c) then fail (.expected s!"'{c}'")

def keywords : List String :=
  ["abstract", "boolean", "byte", "char", "class", "double", "else", "extends", "false", "final",
    "float", "for", "if", "implements", "import", "int", "interface", "long", "new", "null",
    "package", "private", "protected", "public", "return", "short", "static", "super", "this",
    "throw", "true", "void", "while"]

def primitives : List String :=
  ["boolean", "byte", "char", "double", "float", "int", "long", "short"]

/-- A word that is no keyword. -/
def identifier : Parse String := do
  match ← peek with
  | some (.word text) =>
    if text ∈ keywords then fail (.expected "<identifier>")
    else
      skip
      return text
  | _ => fail (.expected "<identifier>")

/-- The further segments of a dotted name. A dot belongs to it only before a word. -/
def pathFrom (budget : List Lexeme) (path : Path) : Parse Path := do
  match budget with
  | [] => return path
  | _ :: budget =>
    match (← get).rest with
    | ⟨.punct '.', _⟩ :: ⟨.word _, _⟩ :: _ =>
      skip
      let segment ← identifier
      pathFrom budget (path.snoc segment)
    | _ => return path

def path : Parse Path := do
  let first ← identifier
  pathFrom (← get).rest ⟨first, []⟩

/-- Counts pairs of brackets. -/
def dimensionsFrom (budget : List Lexeme) (count : Nat) : Parse Nat := do
  match budget with
  | [] => return count
  | _ :: budget =>
    match (← get).rest with
    | ⟨.punct '[', _⟩ :: ⟨.punct ']', _⟩ :: _ =>
      skip
      skip
      dimensionsFrom budget (count + 1)
    | _ => return count

def typeName : Parse TypeName := do
  let start ← line
  let name ← match ← peek with
    | some (.word text) =>
      if text ∈ primitives then do
        skip
        pure ⟨text, []⟩
      else path
    | _ => path
  return ⟨name, ← dimensionsFrom (← get).rest 0, start⟩

/-- Whether a type and a name come next. Nothing is taken. -/
def atDeclaration : Parse Bool :=
  fun s =>
    match (do let _ ← typeName; identifier : Parse String) s with
    | .ok _ => .ok (true, s)
    | .error _ => .ok (false, s)

/-- Operands joined by operators that bind equally strongly, to the left. -/
def operationsFrom (operator : Token → Option ArithOp) (operand : Parse Expr)
    (budget : List Lexeme) (left : Expr) : Parse Expr := do
  match budget with
  | [] => return left
  | _ :: budget =>
    match (← peek).bind operator with
    | some op =>
      let start ← line
      skip
      let right ← operand
      operationsFrom operator operand budget (.binary op left right start)
    | none => return left

def operations (operator : Token → Option ArithOp) (operand : Parse Expr) : Parse Expr := do
  let first ← operand
  operationsFrom operator operand (← get).rest first

def additive? : Token → Option ArithOp
  | .punct '+' => some .add
  | .punct '-' => some .sub
  | _ => none

def multiplicative? : Token → Option ArithOp
  | .punct '*' => some .mul
  | .punct '/' => some .div
  | .punct '%' => some .rem
  | _ => none

/-- An expression over the given unary expressions. -/
def expressionOf (unary : Parse Expr) : Parse Expr :=
  operations additive? (operations multiplicative? unary)

/-- Arguments after an opening parenthesis. Those already found come last first. -/
def argumentsFrom (expression : Parse Expr) (budget : List Lexeme) (found : List Expr) :
    Parse (List Expr) := do
  let arg ← expression
  if ← eatPunct ')' then return (arg :: found).reverse
  else if ← isNext (.punct ',') then
    skip
    match budget with
    | _ :: budget => argumentsFrom expression budget (arg :: found)
    | [] => fail (.expected "')'")
  else fail (.expected "')'")

def arguments (expression : Parse Expr) : Parse (List Expr) := do
  expect '('
  if ← eatPunct ')' then return []
  else argumentsFrom expression (← get).rest []

/-- Selections and calls on an expression. -/
def postfixFrom (expression : Parse Expr) (budget : List Lexeme) (subject : Expr) :
    Parse Expr := do
  match budget with
  | [] => return subject
  | _ :: budget =>
    if ← isNext (.punct '.') then
      skip
      let start ← line
      let member ← identifier
      if ← isNext (.punct '(') then
        let args ← arguments expression
        postfixFrom expression budget (.callOn subject member args start)
      else postfixFrom expression budget (.select subject member start)
    else return subject

/-- An expression that starts with a word. -/
def worded (expression : Parse Expr) (start : Nat) (text : String) : Parse Expr := do
  match text with
  | "true" =>
    skip
    return .bool true start
  | "false" =>
    skip
    return .bool false start
  | "null" =>
    skip
    return .null start
  | "new" =>
    skip
    let type ← typeName
    if type.dimensions ≠ 0 then fail (.expected "'('")
    return .create type (← arguments expression) start
  | text =>
    if text ∈ keywords then fail .illegalStart
    else
      skip
      if ← isNext (.punct '(') then return .call text (← arguments expression) start
      else return .name text start

/-- A name, a literal, a call, an object creation, or an expression in parentheses. -/
def primary (expression : Parse Expr) : Parse Expr := do
  let start ← line
  match ← peek with
  | some (.int value) =>
    skip
    return .int value.toNat start
  | some (.long value) =>
    skip
    return .long value.toNat start
  | some (.string text) =>
    skip
    return .string text start
  | some (.word text) => worded expression start text
  | some (.punct c) =>
    if c = '(' then
      skip
      let inner ← expression
      expect ')'
      return inner
    else fail .illegalStart
  | none => fail .illegalStart

/-- A sign and its operand, or an expression without a sign in front. A minus sign before a literal
becomes part of it. -/
def signed (unary : Parse Expr) : Parse Expr := do
  let expression := expressionOf unary
  let start ← line
  if ← eatPunct '+' then unary
  else if ← eatPunct '-' then
    match ← peek with
    | some (.int value) =>
      skip
      postfixFrom expression (← get).rest (.int (-value.toNat) start)
    | some (.long value) =>
      skip
      postfixFrom expression (← get).rest (.long (-value.toNat) start)
    | _ => return .neg (← unary) start
  else
    let subject ← primary expression
    postfixFrom expression (← get).rest subject

/-- A unary expression inside which this many more levels are allowed. -/
def unary : Nat → Parse Expr
  | 0 => fail .nestedTooDeeply
  | depth + 1 => signed (unary depth)

/-- How deep expressions may nest. -/
def maxNesting : Nat := 128

def expression : Parse Expr := expressionOf (unary maxNesting)

def isCall : Expr → Bool
  | .call _ _ _ | .callOn _ _ _ _ | .create _ _ _ => true
  | _ => false

/-- A declaration after its modifiers. -/
def declaration (isFinal : Bool) (start : Nat) : Parse Stmt := do
  let type ← typeName
  let name ← identifier
  let value ← if ← eatPunct '=' then some <$> expression else pure none
  expect ';'
  return .declare type name isFinal value start

/-- An assignment to a variable, or a call. -/
def assignmentOrCall (start : Nat) : Parse Stmt := do
  match (← get).rest with
  | ⟨.word name, _⟩ :: ⟨.punct '=', _⟩ :: _ =>
    skip
    skip
    let value ← expression
    expect ';'
    return .assign name value start
  | _ =>
    let value ← expression
    if !isCall value then failAt value.line .notStatement
    expect ';'
    return .expr value

def statement : Parse Stmt := do
  let start ← line
  if ← eatWord "return" then
    let value ← if ← isNext (.punct ';') then pure none else some <$> expression
    expect ';'
    return .returns value start
  else if ← eatWord "throw" then
    let value ← expression
    expect ';'
    return .throws value start
  else if ← eatWord "final" then declaration true start
  else if ← atDeclaration then declaration false start
  else assignmentOrCall start

/-- Statements up to the closing brace. Those already found come last first. -/
def statementsFrom (budget : List Lexeme) (found : List Stmt) : Parse (List Stmt) := do
  if ← eatPunct '\x7d' then return found.reverse
  else
    match budget with
    | [] => fail .endOfFile
    | _ :: budget =>
      if (← peek).isNone then fail .endOfFile
      let s ← statement
      statementsFrom budget (s :: found)

def modifiersFrom (budget : List Lexeme) (m : Modifiers) : Parse Modifiers := do
  match budget with
  | [] => return m
  | _ :: budget =>
    match ← peek with
    | some (.word text) =>
      match m.with? text with
      | some more =>
        skip
        modifiersFrom budget more
      | none => return m
    | _ => return m

def modifiers : Parse Modifiers := do
  modifiersFrom (← get).rest .none

def parameter : Parse Parameter := do
  let _ ← eatWord "final"
  let start ← line
  let type ← typeName
  let name ← identifier
  return ⟨type, name, start⟩

/-- Parameters after the opening parenthesis. Those already found come last first. -/
def parametersFrom (budget : List Lexeme) (found : List Parameter) : Parse (List Parameter) := do
  let found := (← parameter) :: found
  if ← eatPunct ')' then return found.reverse
  else
    expect ','
    match budget with
    | _ :: budget => parametersFrom budget found
    | [] => fail .endOfFile

def parameters : Parse (List Parameter) := do
  expect '('
  if ← eatPunct ')' then return [] else parametersFrom (← get).rest []

def result : Parse (Option TypeName) := do
  if ← eatWord "void" then return none else return some (← typeName)

/-- Statements in braces. -/
def block : Parse (List Stmt) := do
  expect '\x7b'
  statementsFrom (← get).rest []

def methodDecl (m : Modifiers) : Parse MethodDecl := do
  let start ← line
  let result ← result
  let name ← identifier
  let parameters ← parameters
  return ⟨name, m, result, parameters, ← block, start⟩

/-- The name of a class and its opening brace. -/
def classHead : Parse String := do
  if !(← eatWord "class") then fail (.expected "class")
  let name ← identifier
  if (← isNext (.word "extends")) || (← isNext (.word "implements")) then
    fail (.expected "'\x7b'")
  expect '\x7b'
  return name

/-- Members up to the closing brace. Those already found come last first. -/
def membersFrom (budget : List Lexeme) (methods : List MethodDecl) (classes : List ClassDecl) :
    Parse (List MethodDecl × List ClassDecl) := do
  if ← eatPunct '\x7d' then return (methods.reverse, classes.reverse)
  else
    match budget with
    | [] => fail .endOfFile
    | _ :: budget =>
      if (← peek).isNone then fail .endOfFile
      if ← eatPunct ';' then membersFrom budget methods classes
      else
        let m ← modifiers
        if ← isNext (.word "class") then
          let start ← line
          let name ← classHead
          let (inner, nested) ← membersFrom budget [] []
          membersFrom budget methods (.mk name m inner nested start :: classes)
        else
          let method ← methodDecl m
          membersFrom budget (method :: methods) classes

def classDecl (m : Modifiers) : Parse ClassDecl := do
  let start ← line
  let name ← classHead
  let (methods, classes) ← membersFrom (← get).rest [] []
  return .mk name m methods classes start

def packageDecl : Parse (Option Path) := do
  if ← eatWord "package" then
    let name ← path
    expect ';'
    return some name
  else return none

/-- Imports at the front. Those already found come last first. -/
def importsFrom (budget : List Lexeme) (found : List Import) : Parse (List Import) := do
  match budget with
  | [] => return found.reverse
  | _ :: budget =>
    if ← isNext (.word "import") then
      let start ← line
      skip
      let name ← path
      let onDemand ← eatPunct '.'
      if onDemand then expect '*'
      expect ';'
      importsFrom budget (⟨name, onDemand, start⟩ :: found)
    else return found.reverse

/-- Classes up to the end. Those already found come last first. -/
def classesFrom (budget : List Lexeme) (found : List ClassDecl) : Parse (List ClassDecl) := do
  match budget with
  | [] => return found.reverse
  | _ :: budget =>
    if (← peek).isNone then return found.reverse
    else if ← eatPunct ';' then classesFrom budget found
    else
      let m ← modifiers
      if !(← isNext (.word "class")) then
        failAt (← line) (.expected "class, interface, enum, or record")
      let c ← classDecl m
      classesFrom budget (c :: found)

def compilationUnit : Parse CompilationUnit := do
  let package ← packageDecl
  let imports ← importsFrom (← get).rest []
  let classes ← classesFrom (← get).rest []
  return ⟨package, imports, classes⟩

end Parser

/-- Parses the text of a source file. -/
def parse (text : String) : Except SyntaxFault CompilationUnit :=
  match scan text with
  | .error fault => .error ⟨fault.line, .lexical fault.cause⟩
  | .ok lexemes => (StateT.run Parser.compilationUnit lexemes).map (·.1)

end JavaSnippet.Source
