import JavaSnippet.Proofs.Source.Layout
import JavaSnippet.Source.Parser
/-!
Source units printed as text. Parentheses stand at least where the unit would be read differently
without them. The lines of the nodes do not count: a text has lines of its own.
-/
namespace JavaSnippet.Source

section Lines

def TypeName.withoutLine (t : TypeName) : TypeName := { t with line := 0 }

mutual

/-- The expression with zero for all lines. -/
def Expr.withoutLines : Expr → Expr
  | .int value _ => .int value 0
  | .long value _ => .long value 0
  | .string text _ => .string text 0
  | .bool value _ => .bool value 0
  | .null _ => .null 0
  | .name text _ => .name text 0
  | .select qualifier member _ => .select qualifier.withoutLines member 0
  | .neg operand _ => .neg operand.withoutLines 0
  | .binary op left right _ => .binary op left.withoutLines right.withoutLines 0
  | .call method args _ => .call method (Expr.allWithoutLines args) 0
  | .callOn receiver method args _ =>
    .callOn receiver.withoutLines method (Expr.allWithoutLines args) 0
  | .create type args _ => .create type.withoutLine (Expr.allWithoutLines args) 0

def Expr.allWithoutLines : List Expr → List Expr
  | [] => []
  | e :: rest => e.withoutLines :: Expr.allWithoutLines rest

end

def Stmt.withoutLines : Stmt → Stmt
  | .declare type name isFinal value _ =>
    .declare type.withoutLine name isFinal (value.map Expr.withoutLines) 0
  | .assign name value _ => .assign name value.withoutLines 0
  | .returns value _ => .returns (value.map Expr.withoutLines) 0
  | .throws value _ => .throws value.withoutLines 0
  | .expr value => .expr value.withoutLines

def Parameter.withoutLine (p : Parameter) : Parameter := ⟨p.type.withoutLine, p.name, 0⟩

def MethodDecl.withoutLines (m : MethodDecl) : MethodDecl :=
  ⟨m.name, m.modifiers, m.result.map TypeName.withoutLine, m.parameters.map Parameter.withoutLine,
    m.body.map Stmt.withoutLines, 0⟩

mutual

def ClassDecl.withoutLines : ClassDecl → ClassDecl
  | .mk name modifiers methods classes _ =>
    .mk name modifiers (methods.map MethodDecl.withoutLines) (ClassDecl.allWithoutLines classes) 0

def ClassDecl.allWithoutLines : List ClassDecl → List ClassDecl
  | [] => []
  | c :: rest => c.withoutLines :: ClassDecl.allWithoutLines rest

end

def Import.withoutLine (i : Import) : Import := { i with line := 0 }

def CompilationUnit.withoutLines (u : CompilationUnit) : CompilationUnit :=
  ⟨u.package, u.imports.map Import.withoutLine, ClassDecl.allWithoutLines u.classes⟩

end Lines

section Words

/-- A word that can name something. -/
def isIdentifier (text : String) : Bool := isSpelledWord text && text ∉ Parser.keywords

def Path.isName (p : Path) : Bool := p.segments.all isIdentifier

def TypeName.isName (t : TypeName) : Bool :=
  t.path.isName || (t.path.tail.isEmpty && t.path.head ∈ Parser.primitives)

mutual

/-- Whether an expression can be written down: names are identifiers, and a literal without its sign
fits into 64 bits. -/
def Expr.isWritable : Expr → Bool
  | .int value _ | .long value _ => value.natAbs < UInt64.size
  | .string _ _ | .bool _ _ | .null _ => true
  | .name text _ => isIdentifier text
  | .select qualifier member _ => qualifier.isWritable && isIdentifier member
  | .neg operand _ => operand.isWritable
  | .binary _ left right _ => left.isWritable && right.isWritable
  | .call method args _ => isIdentifier method && Expr.areWritable args
  | .callOn receiver method args _ =>
    receiver.isWritable && isIdentifier method && Expr.areWritable args
  | .create type args _ => type.isName && type.dimensions == 0 && Expr.areWritable args

def Expr.areWritable : List Expr → Bool
  | [] => true
  | e :: rest => e.isWritable && Expr.areWritable rest

end

def Stmt.isWritable : Stmt → Bool
  | .declare type name _ value _ => type.isName && isIdentifier name && value.all Expr.isWritable
  | .assign name value _ => isIdentifier name && value.isWritable
  | .returns value _ => value.all Expr.isWritable
  | .throws value _ => value.isWritable
  | .expr value => Parser.isCall value && value.isWritable

def Parameter.isWritable (p : Parameter) : Bool := p.type.isName && isIdentifier p.name

def MethodDecl.isWritable (m : MethodDecl) : Bool :=
  isIdentifier m.name && m.result.all TypeName.isName && m.parameters.all Parameter.isWritable &&
    m.body.all Stmt.isWritable

mutual

def ClassDecl.isWritable : ClassDecl → Bool
  | .mk name _ methods classes _ =>
    isIdentifier name && methods.all MethodDecl.isWritable && ClassDecl.areWritable classes

def ClassDecl.areWritable : List ClassDecl → Bool
  | [] => true
  | c :: rest => c.isWritable && ClassDecl.areWritable rest

end

def CompilationUnit.isWritable (u : CompilationUnit) : Bool :=
  u.package.all Path.isName && u.imports.all (·.path.isName) && ClassDecl.areWritable u.classes

end Words

section Parentheses

/-- Where an expression stands. -/
inductive Position where
  /-- In a statement, in parentheses or as an argument, or to the left of a plus or minus. -/
  | whole
  /-- To the right of a plus or minus, or to the left of another operator. -/
  | product
  /-- To the right of another operator. -/
  | factor
  | negated
  | receiver
  deriving DecidableEq, Repr

def isAdditive : ArithOp → Bool
  | .add | .sub => true
  | _ => false

def leftPosition (op : ArithOp) : Position := if isAdditive op then .whole else .product

def rightPosition (op : ArithOp) : Position := if isAdditive op then .product else .factor

/-- Whether an expression would be read differently without parentheses. A minus sign becomes part
of a literal behind it, also when the literal is the receiver of a call. -/
def Position.needsParentheses : Position → Expr → Bool
  | .product, .binary op _ _ _ => isAdditive op
  | .factor, .binary _ _ _ _ | .negated, .binary _ _ _ _ | .receiver, .binary _ _ _ _ => true
  | .receiver, .neg _ _ => true
  | .negated, .int value _ | .negated, .long value _ | .receiver, .int value _
  | .receiver, .long value _ => 0 ≤ value
  | _, _ => false

/-- Where parentheses stand. -/
abbrev Style := Position → Expr → Bool

/-- Parentheses stand where they are needed, and maybe elsewhere. -/
def Style.IsSafe (style : Style) : Prop :=
  ∀ place e, Position.needsParentheses place e = true → style place e = true

def parenthesized (inside : Bool) (tokens : List Token) : List Token :=
  if inside then .punct '(' :: (tokens ++ [.punct ')']) else tokens

/-- One level more, in parentheses. -/
def levels (inside : Bool) (nesting : Nat) : Nat := if inside then nesting + 1 else nesting

variable (style : Style)

mutual

/-- How deep an expression nests in unary operators, parentheses and argument lists. The sign of a
literal is no operator. -/
def Expr.nesting : Expr → Nat
  | .select qualifier _ _ => levels (style .receiver qualifier) qualifier.nesting
  | .neg operand _ => levels (style .negated operand) operand.nesting + 1
  | .binary op left right _ =>
    max (levels (style (leftPosition op) left) left.nesting)
      (levels (style (rightPosition op) right) right.nesting)
  | .call _ args _ | .create _ args _ => Expr.argumentNesting args
  | .callOn receiver _ args _ =>
    max (levels (style .receiver receiver) receiver.nesting) (Expr.argumentNesting args)
  | _ => 0

def Expr.argumentNesting : List Expr → Nat
  | [] => 0
  | e :: rest => max (levels (style .whole e) e.nesting + 1) (Expr.argumentNesting rest)

end

/-- The expression does not nest too deeply for a parser. -/
def Expr.isShallow (e : Expr) : Bool :=
  levels (style .whole e) (e.nesting style) < Parser.maxNesting

def Stmt.isShallow : Stmt → Bool
  | .declare _ _ _ value _ | .returns value _ => value.all (Expr.isShallow style)
  | .assign _ value _ | .throws value _ | .expr value => value.isShallow style

def MethodDecl.isShallow (m : MethodDecl) : Bool := m.body.all (Stmt.isShallow style)

mutual

def ClassDecl.isShallow : ClassDecl → Bool
  | .mk _ _ methods classes _ =>
    methods.all (MethodDecl.isShallow style) && ClassDecl.areShallow classes

def ClassDecl.areShallow : List ClassDecl → Bool
  | [] => true
  | c :: rest => c.isShallow && ClassDecl.areShallow rest

end

def CompilationUnit.isShallow (u : CompilationUnit) : Bool := ClassDecl.areShallow style u.classes

end Parentheses

section Tokens

/-- A literal. Its sign is a token of its own. -/
def numeral (token : UInt64 → Token) (value : Int) : List Token :=
  if value < 0 then [.punct '-', token value.natAbs.toUInt64] else [token value.natAbs.toUInt64]

def dotted (words : List String) : List Token :=
  words.flatMap fun word => [.punct '.', .word word]

def Path.tokens (p : Path) : List Token := .word p.head :: dotted p.tail

def TypeName.tokens (t : TypeName) : List Token :=
  t.path.tokens ++ (List.replicate t.dimensions [Token.punct '[', .punct ']']).flatten

/-- Items in parentheses, with commas between them. -/
def listed (items : List (List Token)) : List Token :=
  .punct '(' :: (List.intercalate [.punct ','] items ++ [.punct ')'])

variable (style : Style)

mutual

/-- The tokens of an expression, without parentheses around it. -/
def Expr.tokens : Expr → List Token
  | .int value _ => numeral .int value
  | .long value _ => numeral .long value
  | .string text _ => [.string text]
  | .bool value _ => [.word (if value then "true" else "false")]
  | .null _ => [.word "null"]
  | .name text _ => [.word text]
  | .select qualifier member _ =>
    parenthesized (style .receiver qualifier) qualifier.tokens ++ [.punct '.', .word member]
  | .neg operand _ => .punct '-' :: parenthesized (style .negated operand) operand.tokens
  | .binary op left right _ =>
    parenthesized (style (leftPosition op) left) left.tokens ++
      .punct op.symbol :: parenthesized (style (rightPosition op) right) right.tokens
  | .call method args _ => .word method :: listed (Expr.argumentTokens args)
  | .callOn receiver method args _ =>
    parenthesized (style .receiver receiver) receiver.tokens ++
      .punct '.' :: .word method :: listed (Expr.argumentTokens args)
  | .create type args _ => .word "new" :: (type.tokens ++ listed (Expr.argumentTokens args))

def Expr.argumentTokens : List Expr → List (List Token)
  | [] => []
  | e :: rest => parenthesized (style .whole e) e.tokens :: Expr.argumentTokens rest

end

/-- The tokens of an expression at a place. -/
def Expr.tokensAt (place : Position) (e : Expr) : List Token :=
  parenthesized (style place e) (e.tokens style)

/-- The initial value of a variable. -/
def initialTokens : Option Expr → List Token
  | some e => .punct '=' :: e.tokensAt style .whole
  | none => []

def Stmt.tokens : Stmt → List Token
  | .declare type name isFinal value _ =>
    (if isFinal then [.word "final"] else []) ++ (type.tokens ++ .word name ::
      (initialTokens style value ++ [.punct ';']))
  | .assign name value _ =>
    .word name :: .punct '=' :: (value.tokensAt style .whole ++ [.punct ';'])
  | .returns none _ => [.word "return", .punct ';']
  | .returns (some e) _ => .word "return" :: (e.tokensAt style .whole ++ [.punct ';'])
  | .throws value _ => .word "throw" :: (value.tokensAt style .whole ++ [.punct ';'])
  | .expr value => value.tokensAt style .whole ++ [.punct ';']

def Modifiers.words (m : Modifiers) : List String :=
  ([(m.isPublic, "public"), (m.isProtected, "protected"), (m.isPrivate, "private"),
    (m.isStatic, "static"), (m.isFinal, "final"), (m.isAbstract, "abstract")].filter (·.1)).map
    (·.2)

def Modifiers.tokens (m : Modifiers) : List Token := m.words.map .word

def Parameter.tokens (p : Parameter) : List Token := p.type.tokens ++ [.word p.name]

def resultTokens : Option TypeName → List Token
  | none => [.word "void"]
  | some type => type.tokens

def MethodDecl.tokens (m : MethodDecl) : List Token :=
  m.modifiers.tokens ++ (resultTokens m.result ++ .word m.name ::
    (listed (m.parameters.map Parameter.tokens) ++
      .punct '\x7b' :: (m.body.flatMap (Stmt.tokens style) ++ [.punct '\x7d'])))

mutual

/-- The tokens of a class. Its methods come before the classes inside it. -/
def ClassDecl.tokens : ClassDecl → List Token
  | .mk name modifiers methods classes _ =>
    modifiers.tokens ++ .word "class" :: .word name :: .punct '\x7b' ::
      (methods.flatMap (MethodDecl.tokens style) ++
        (ClassDecl.allTokens classes ++ [.punct '\x7d']))

def ClassDecl.allTokens : List ClassDecl → List Token
  | [] => []
  | c :: rest => c.tokens ++ ClassDecl.allTokens rest

end

def packageTokens : Option Path → List Token
  | none => []
  | some name => .word "package" :: (name.tokens ++ [.punct ';'])

def Import.tokens (i : Import) : List Token :=
  .word "import" :: (i.path.tokens ++
    (if i.onDemand then [.punct '.', .punct '*', .punct ';'] else [.punct ';']))

def CompilationUnit.tokens (u : CompilationUnit) : List Token :=
  packageTokens u.package ++
    (u.imports.flatMap Import.tokens ++ ClassDecl.allTokens style u.classes)

/-- The text of a unit, with gaps before its tokens and at its end. -/
def CompilationUnit.printed (gaps : Nat → Gap) (u : CompilationUnit) : String :=
  String.ofList (laidOut gaps 0 (u.tokens style))

end Tokens

end JavaSnippet.Source
