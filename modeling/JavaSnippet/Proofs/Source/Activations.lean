import JavaSnippet.Source.Parser
/-!
Parsing as a machine of activations. Here no loop is bounded by tokens and no depth is handed down:
the functions of the parser call each other as they please, and a counter holds how many unary
expressions are open. A loop is an activation of its own, which calls itself for its next round.
-/
namespace JavaSnippet.Source.Parser

/-- What the activations share. -/
structure State where
  lexemes : Lexemes
  /-- How many unary expressions are being parsed inside one another. -/
  depth : Nat
  deriving DecidableEq, Repr, Inhabited

/-- How many tokens are left. -/
def State.left (s : State) : Nat := s.lexemes.rest.length

/-- Operators that bind equally strongly. -/
inductive Level where
  | sums | products
  deriving DecidableEq, Repr, Inhabited

/-- What can be activated, with the arguments. The argument of a loop is what was found so far. -/
inductive Rule : Type → Type where
  | unit : Rule CompilationUnit
  | imports (found : List Import) : Rule (List Import)
  | classes (found : List ClassDecl) : Rule (List ClassDecl)
  | modifiers (found : Modifiers) : Rule Modifiers
  | classDecl (modifiers : Modifiers) : Rule ClassDecl
  | members (methods : List MethodDecl) (classes : List ClassDecl) :
    Rule (List MethodDecl × List ClassDecl)
  | methodDecl (modifiers : Modifiers) : Rule MethodDecl
  | parameters (found : List Parameter) : Rule (List Parameter)
  | statements (found : List Stmt) : Rule (List Stmt)
  | typeName : Rule TypeName
  | dimensions (found : Nat) : Rule Nat
  | path : Rule Path
  | segments (found : Path) : Rule Path
  | atDeclaration : Rule Bool
  | statement : Rule Stmt
  | operations (level : Level) : Rule Expr
  | operators (level : Level) (found : Expr) : Rule Expr
  | unary : Rule Expr
  | nestedUnary : Rule Expr
  | postfixes (found : Expr) : Rule Expr
  | arguments : Rule (List Expr)
  | argumentList (found : List Expr) : Rule (List Expr)
  | primary : Rule Expr

/-- What an activation does next: it ends, with a result or a fault, or it calls another and goes on
with what that gives. -/
inductive Outcome (α : Type) : Type 1 where
  | done (result : Except SyntaxFault α) (s : State)
  | call {β : Type} (rule : Rule β) (s : State)
    (resume : Except SyntaxFault β → State → Outcome α)

/-- What an activation does in a state. -/
def Code (α : Type) : Type 1 := State → Outcome α

/-- Goes on after a result. A fault ends the activation. -/
def Outcome.andThen {α β : Type} : Outcome α → (α → Code β) → Outcome β
  | .done (.ok a) s, next => next a s
  | .done (.error fault) s, _ => .done (.error fault) s
  | .call rule s resume, next => .call rule s fun result t => (resume result t).andThen next

instance : Monad Code where
  pure a := fun s => .done (.ok a) s
  bind x next := fun s => (x s).andThen next

namespace Code

/-- Does without a call what a parser does. -/
def of {α : Type} (x : Parse α) : Code α := fun s =>
  match x s.lexemes with
  | .ok (a, left) => .done (.ok a) { s with lexemes := left }
  | .error fault => .done (.error fault) s

def call {α : Type} (rule : Rule α) : Code α := fun s => .call rule s .done

end Code

open Code

section Names

/-- Whether a dot and a word are next. -/
def atSegment : Parse Bool := fun s =>
  match s.rest with
  | ⟨.punct '.', _⟩ :: ⟨.word _, _⟩ :: _ => .ok (true, s)
  | _ => .ok (false, s)

def segmentsCode (found : Path) : Code Path := do
  if ← of atSegment then
    of skip
    let segment ← of identifier
    call (.segments (found.snoc segment))
  else return found

def pathCode : Code Path := do
  let first ← of identifier
  call (.segments ⟨first, []⟩)

/-- Whether a pair of brackets is next. -/
def atBrackets : Parse Bool := fun s =>
  match s.rest with
  | ⟨.punct '[', _⟩ :: ⟨.punct ']', _⟩ :: _ => .ok (true, s)
  | _ => .ok (false, s)

def dimensionsCode (found : Nat) : Code Nat := do
  if ← of atBrackets then
    of skip
    of skip
    call (.dimensions (found + 1))
  else return found

/-- The word of a primitive type, if one is next. -/
def primitive? : Parse (Option String) := fun s =>
  match (s.rest.head?.map (·.token) : Option Token) with
  | some (.word text) => .ok (if text ∈ primitives then some text else none, s)
  | _ => .ok (none, s)

def typeNameCode : Code TypeName := do
  let start ← of line
  match ← of primitive? with
  | some text =>
    of skip
    return ⟨⟨text, []⟩, ← call (.dimensions 0), start⟩
  | none =>
    let name ← call .path
    return ⟨name, ← call (.dimensions 0), start⟩

/-- Looks ahead, and goes back to where it was, whether a type and a name were found or not. -/
def atDeclarationCode : Code Bool := fun s =>
  .call .typeName s fun result t =>
    match result with
    | .error _ => .done (.ok false) { t with lexemes := s.lexemes }
    | .ok _ => .done (.ok (identifier t.lexemes).toOption.isSome) { t with lexemes := s.lexemes }

end Names

section Expressions

def Level.operator : Level → Token → Option ArithOp
  | sums => additive?
  | products => multiplicative?

def Level.operand : Level → Rule Expr
  | sums => .operations .products
  | products => .unary

def operationsCode (level : Level) : Code Expr := do
  let first ← call level.operand
  call (.operators level first)

def operatorsCode (level : Level) (found : Expr) : Code Expr := do
  match (← of peek).bind level.operator with
  | some op =>
    let start ← of line
    of skip
    let right ← call level.operand
    call (.operators level (.binary op found right start))
  | none => return found

/-- The counter is one higher while the nested activation is open, however that ends. -/
def unaryCode : Code Expr := fun s =>
  if maxNesting ≤ s.depth then of (fail .nestedTooDeeply) s
  else
    .call .nestedUnary { s with depth := s.depth + 1 } fun result t =>
      .done result { t with depth := t.depth - 1 }

/-- A literal with a minus sign in front. -/
def negative? (start : Nat) : Option Token → Option Expr
  | some (.int value) => some (.int (-value.toNat) start)
  | some (.long value) => some (.long (-value.toNat) start)
  | _ => none

def nestedUnaryCode : Code Expr := do
  let start ← of line
  if ← of (eatPunct '+') then call .unary
  else if ← of (eatPunct '-') then
    match negative? start (← of peek) with
    | some literal =>
      of skip
      call (.postfixes literal)
    | none => return .neg (← call .unary) start
  else
    let subject ← call .primary
    call (.postfixes subject)

def postfixesCode (found : Expr) : Code Expr := do
  if ← of (isNext (.punct '.')) then
    of skip
    let start ← of line
    let member ← of identifier
    if ← of (isNext (.punct '(')) then
      let args ← call .arguments
      call (.postfixes (.callOn found member args start))
    else call (.postfixes (.select found member start))
  else return found

def argumentsCode : Code (List Expr) := do
  of (expect '(')
  if ← of (eatPunct ')') then return []
  else call (.argumentList [])

def argumentListCode (found : List Expr) : Code (List Expr) := do
  let arg ← call (.operations .sums)
  if ← of (eatPunct ')') then return (arg :: found).reverse
  else if ← of (isNext (.punct ',')) then
    of skip
    call (.argumentList (arg :: found))
  else of (fail (.expected "')'"))

/-- A literal that is a word. -/
def literal? (start : Nat) (text : String) : Option Expr :=
  if text = "true" then some (.bool true start)
  else if text = "false" then some (.bool false start)
  else if text = "null" then some (.null start)
  else none

def wordedCode (start : Nat) (text : String) : Code Expr := do
  match literal? start text with
  | some literal =>
    of skip
    return literal
  | none =>
    if text = "new" then
      of skip
      let type ← call .typeName
      if type.dimensions ≠ 0 then of (fail (.expected "'('"))
      return .create type (← call .arguments) start
    else if text ∈ keywords then of (fail .illegalStart)
    else
      of skip
      if ← of (isNext (.punct '(')) then return .call text (← call .arguments) start
      else return .name text start

def primaryCode : Code Expr := do
  let start ← of line
  match ← of peek with
  | some (.int value) =>
    of skip
    return .int value.toNat start
  | some (.long value) =>
    of skip
    return .long value.toNat start
  | some (.string text) =>
    of skip
    return .string text start
  | some (.word text) => wordedCode start text
  | some (.punct c) =>
    if c = '(' then
      of skip
      let inner ← call (.operations .sums)
      of (expect ')')
      return inner
    else of (fail .illegalStart)
  | none => of (fail .illegalStart)

end Expressions

section Statements

def declarationCode (isFinal : Bool) (start : Nat) : Code Stmt := do
  let type ← call .typeName
  let name ← of identifier
  if ← of (eatPunct '=') then
    let value ← call (.operations .sums)
    of (expect ';')
    return .declare type name isFinal (some value) start
  else
    of (expect ';')
    return .declare type name isFinal none start

/-- The variable of an assignment, if one is next. -/
def assigned? : Parse (Option String) := fun s =>
  match s.rest with
  | ⟨.word name, _⟩ :: ⟨.punct '=', _⟩ :: _ => .ok (some name, s)
  | _ => .ok (none, s)

def assignmentOrCallCode (start : Nat) : Code Stmt := do
  match ← of assigned? with
  | some name =>
    of skip
    of skip
    let value ← call (.operations .sums)
    of (expect ';')
    return .assign name value start
  | none =>
    let value ← call (.operations .sums)
    if !isCall value then of (failAt value.line .notStatement)
    of (expect ';')
    return .expr value

def statementCode : Code Stmt := do
  let start ← of line
  if ← of (eatWord "return") then
    if ← of (isNext (.punct ';')) then
      of (expect ';')
      return .returns none start
    else
      let value ← call (.operations .sums)
      of (expect ';')
      return .returns (some value) start
  else if ← of (eatWord "throw") then
    let value ← call (.operations .sums)
    of (expect ';')
    return .throws value start
  else if ← of (eatWord "final") then declarationCode true start
  else if ← call .atDeclaration then declarationCode false start
  else assignmentOrCallCode start

def statementsCode (found : List Stmt) : Code (List Stmt) := do
  if ← of (eatPunct '\x7d') then return found.reverse
  else
    if (← of peek).isNone then of (fail .endOfFile)
    let s ← call .statement
    call (.statements (s :: found))

end Statements

section Declarations

/-- The modifiers with the next word, if it is one. -/
def modified? (found : Modifiers) : Parse (Option Modifiers) := fun s =>
  match (s.rest.head?.map (·.token) : Option Token) with
  | some (.word text) => .ok (found.with? text, s)
  | _ => .ok (none, s)

def modifiersCode (found : Modifiers) : Code Modifiers := do
  match ← of (modified? found) with
  | some more =>
    of skip
    call (.modifiers more)
  | none => return found

def parameterCode : Code Parameter := do
  let _ ← of (eatWord "final")
  let start ← of line
  let type ← call .typeName
  let name ← of identifier
  return ⟨type, name, start⟩

def parametersCode (found : List Parameter) : Code (List Parameter) := do
  let p ← parameterCode
  if ← of (eatPunct ')') then return (p :: found).reverse
  else
    of (expect ',')
    call (.parameters (p :: found))

def resultCode : Code (Option TypeName) := do
  if ← of (eatWord "void") then return none else return some (← call .typeName)

def parameterListCode : Code (List Parameter) := do
  of (expect '(')
  if ← of (eatPunct ')') then return [] else call (.parameters [])

def blockCode : Code (List Stmt) := do
  of (expect '\x7b')
  call (.statements [])

def methodDeclCode (m : Modifiers) : Code MethodDecl := do
  let start ← of line
  let result ← resultCode
  let name ← of identifier
  let parameters ← parameterListCode
  return ⟨name, m, result, parameters, ← blockCode, start⟩

def classDeclCode (m : Modifiers) : Code ClassDecl := do
  let start ← of line
  let name ← of classHead
  let (methods, classes) ← call (.members [] [])
  return .mk name m methods classes start

def membersCode (methods : List MethodDecl) (classes : List ClassDecl) :
    Code (List MethodDecl × List ClassDecl) := do
  if ← of (eatPunct '\x7d') then return (methods.reverse, classes.reverse)
  else
    if (← of peek).isNone then of (fail .endOfFile)
    if ← of (eatPunct ';') then call (.members methods classes)
    else
      let m ← call (.modifiers .none)
      if ← of (isNext (.word "class")) then
        let c ← call (.classDecl m)
        call (.members methods (c :: classes))
      else
        let method ← call (.methodDecl m)
        call (.members (method :: methods) classes)

def packageCode : Code (Option Path) := do
  if ← of (eatWord "package") then
    let name ← call .path
    of (expect ';')
    return some name
  else return none

def importsCode (found : List Import) : Code (List Import) := do
  if ← of (isNext (.word "import")) then
    let start ← of line
    of skip
    let name ← call .path
    let onDemand ← of (eatPunct '.')
    if onDemand then of (expect '*')
    of (expect ';')
    call (.imports (⟨name, onDemand, start⟩ :: found))
  else return found.reverse

def classesCode (found : List ClassDecl) : Code (List ClassDecl) := do
  if (← of peek).isNone then return found.reverse
  else if ← of (eatPunct ';') then call (.classes found)
  else
    let m ← call (.modifiers .none)
    if !(← of (isNext (.word "class"))) then
      of (failAt (← of line) (.expected "class, interface, enum, or record"))
    let c ← call (.classDecl m)
    call (.classes (c :: found))

def unitCode : Code CompilationUnit := do
  let package ← packageCode
  let imports ← call (.imports [])
  let classes ← call (.classes [])
  return ⟨package, imports, classes⟩

end Declarations

/-- What an activation of a rule does. -/
def Rule.code : {α : Type} → Rule α → Code α
  | _, .unit => unitCode
  | _, .imports found => importsCode found
  | _, .classes found => classesCode found
  | _, .modifiers found => modifiersCode found
  | _, .classDecl m => classDeclCode m
  | _, .members ms cs => membersCode ms cs
  | _, .methodDecl m => methodDeclCode m
  | _, .parameters found => parametersCode found
  | _, .statements found => statementsCode found
  | _, .typeName => typeNameCode
  | _, .dimensions found => dimensionsCode found
  | _, .path => pathCode
  | _, .segments found => segmentsCode found
  | _, .atDeclaration => atDeclarationCode
  | _, .statement => statementCode
  | _, .operations level => operationsCode level
  | _, .operators level found => operatorsCode level found
  | _, .unary => unaryCode
  | _, .nestedUnary => nestedUnaryCode
  | _, .postfixes found => postfixesCode found
  | _, .arguments => argumentsCode
  | _, .argumentList found => argumentListCode found
  | _, .primary => primaryCode

/-- Where a rule stands in the grammar, above those that it calls before it takes a token. -/
def Rule.rank {α : Type} : Rule α → Nat
  | .segments _ | .path | .dimensions _ | .modifiers _ | .operators _ _ | .postfixes _ | .arguments
  | .primary | .imports _ | .classDecl _ => 0
  | .typeName | .nestedUnary | .classes _ => 1
  | .atDeclaration | .unary | .methodDecl _ | .parameters _ | .unit => 2
  | .operations .products | .members _ _ => 3
  | .operations .sums => 4
  | .argumentList _ | .statement => 5
  | .statements _ => 6

/-- How many nested unary expressions an activation of the rule is. -/
def Rule.nests {α : Type} : Rule α → Nat
  | .nestedUnary => 1
  | _ => 0

/-- The activations that wait for the result of one they called, each with the state it was entered
in. -/
inductive Stack : Type → Type 1 where
  | bottom : Stack CompilationUnit
  | push {α β : Type} (rule : Rule β) (entered : State)
    (resume : Except SyntaxFault α → State → Outcome β) (rest : Stack β) : Stack α

/-- How many nested unary expressions are among the activations. -/
def Stack.nested {α : Type} : Stack α → Nat
  | .bottom => 0
  | .push rule _ _ rest => rule.nests + rest.nested

/-- A moment of a parse: the newest activation has come to a call or to its end. -/
structure Config : Type 1 where
  {α : Type}
  rule : Rule α
  entered : State
  outcome : Outcome α
  stack : Stack α

namespace Config

/-- A call makes an activation, and the end of one goes on with the activation that called it. -/
def step : Config → Option Config
  | ⟨rule, entered, .call callee s resume, stack⟩ =>
    some ⟨callee, s, callee.code s, .push rule entered resume stack⟩
  | ⟨_, _, .done result s, .push rule entered resume stack⟩ =>
    some ⟨rule, entered, resume result s, stack⟩
  | ⟨_, _, .done _ _, .bottom⟩ => none

def start (lexemes : Lexemes) : Config :=
  ⟨.unit, ⟨lexemes, 0⟩, Rule.unit.code ⟨lexemes, 0⟩, .bottom⟩

/-- The counter. -/
def depth (c : Config) : Nat :=
  match c.outcome with
  | .done _ s => s.depth
  | .call _ s _ => s.depth

/-- How many nested unary expressions are open, counting one that is being called. -/
def nested (c : Config) : Nat :=
  match c.outcome with
  | .done _ _ => c.rule.nests + c.stack.nested
  | .call callee _ _ => callee.nests + (c.rule.nests + c.stack.nested)

end Config

end JavaSnippet.Source.Parser
