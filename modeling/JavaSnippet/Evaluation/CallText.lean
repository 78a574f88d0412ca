import JavaSnippet.Arithmetic
import JavaSnippet.Source.Token
/-!
The text of a call: a path of names, and literals as arguments, as in `Outer.method(1, "two")`.
-/
namespace JavaSnippet.Evaluation

open Source

inductive Literal where
  | int (value : Int32)
  | long (value : Int64)
  | boolean (value : Bool)
  | string (text : String)
  | null
  deriving DecidableEq, Repr, Inhabited

/-- Why there is no such call. -/
inductive CallFault where
  | lexical (cause : LexCause)
  /-- The next token does not belong there, or there is none. -/
  | unexpected (next : Option Token)
  | intTooLarge (value : Int)
  | longTooLarge (value : Int)
  /-- The path does not lead to the generated class. -/
  | otherClass (qualifier className : String)
  | noMethod (method className : String) (argumentCount : Nat)
  | ambiguous (method : String)
  deriving DecidableEq, Repr, Inhabited

def CallFault.message : CallFault → String
  | lexical cause => cause.message
  | unexpected next => s!"unexpected {shownNext next} in call"
  | intTooLarge value => s!"integer number too large: {value}"
  | longTooLarge value => s!"long number too large: {value}"
  | otherClass qualifier className =>
    s!"{qualifier} does not name the generated class {className}"
  | noMethod method className argumentCount =>
    s!"no static method {method} in {className} accepts {argumentCount} argument(s) like these"
  | ambiguous method => s!"reference to {method} is ambiguous"

structure CallText where
  /-- The dotted path before the method. -/
  qualifier : Option String
  method : String
  arguments : List Literal
  deriving DecidableEq, Repr, Inhabited

namespace CallText

/-- The path of names before the arguments. -/
def parsePath : List Token → Except CallFault (List String × List Token)
  | .word name :: .punct '(' :: rest => .ok ([name], rest)
  | .word name :: .punct '.' :: rest => do
    let (path, rest) ← parsePath rest
    return (name :: path, rest)
  | .word _ :: rest => .error (.unexpected rest.head?)
  | rest => .error (.unexpected rest.head?)

/-- The number with the sign that was before it. -/
def signed (negative : Bool) (magnitude : UInt64) : Int :=
  if negative then -(magnitude.toNat : Int) else magnitude.toNat

/-- The literal that a token is, unless it is a number. -/
def plainLiteral? : Token → Option Literal
  | .string text => some (.string text)
  | .word "true" => some (.boolean true)
  | .word "false" => some (.boolean false)
  | .word "null" => some .null
  | _ => none

/-- A literal of one token, with or without a minus sign. -/
def literal (negative : Bool) (token : Token) : Except CallFault Literal :=
  match token with
  | .int magnitude =>
    let value := signed negative magnitude
    match int32? value with
    | some n => .ok (.int n)
    | none => .error (.intTooLarge value)
  | .long magnitude =>
    let value := signed negative magnitude
    match int64? value with
    | some n => .ok (.long n)
    | none => .error (.longTooLarge value)
  | .string _ | .word _ | .punct _ =>
    match plainLiteral? token, negative with
    | some l, false => .ok l
    | _, _ => .error (.unexpected (some token))

/-- Literals up to the closing parenthesis. Those already found come last first. -/
def parseLiterals (found : List Literal) (negative : Bool) :
    List Token → Except CallFault (List Literal × List Token)
  | [] => .error (.unexpected none)
  | token :: rest =>
    if token = .punct '-' ∧ !negative then parseLiterals found true rest
    else
      match literal negative token with
      | .error fault => .error fault
      | .ok l =>
        match rest with
        | .punct ',' :: rest => parseLiterals (l :: found) false rest
        | .punct ')' :: rest => .ok ((l :: found).reverse, rest)
        | rest => .error (.unexpected rest.head?)

def parseArguments : List Token → Except CallFault (List Literal × List Token)
  | .punct ')' :: rest => .ok ([], rest)
  | rest => parseLiterals [] false rest

/-- Leaves out a semicolon. -/
def dropSemicolon : List Token → List Token
  | .punct ';' :: rest => rest
  | rest => rest

/-- The dotted path of names, if there are any. -/
def qualifierOf : List String → Option String
  | [] => none
  | names => some (String.intercalate "." names)

def ofTokens (tokens : List Token) : Except CallFault CallText := do
  let (path, rest) ← parsePath tokens
  let (arguments, rest) ← parseArguments rest
  match dropSemicolon rest with
  | [] => return ⟨qualifierOf path.dropLast, path.getLastD "", arguments⟩
  | next :: _ => throw (.unexpected (some next))

def parse (text : String) : Except CallFault CallText :=
  match scan text with
  | .error fault => .error (.lexical fault.cause)
  | .ok lexemes => ofTokens (lexemes.rest.map (·.token))

end CallText

end JavaSnippet.Evaluation
