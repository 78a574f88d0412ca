import JavaSnippet.Text.Quoted
/-!
Source text as tokens. The text is scanned in one pass, a character at a time, so scanning a text
that was joined from two goes on where the first part left off.
-/
namespace JavaSnippet.Source

inductive Token where
  /-- An identifier or keyword. -/
  | word (text : String)
  /-- An integer literal without its sign. -/
  | int (value : UInt64)
  /-- An integer literal with the suffix for `long`, without its sign. -/
  | long (value : UInt64)
  | string (text : String)
  | punct (c : Char)
  deriving DecidableEq, Repr, Inhabited

/-- A token as messages show it. -/
def Token.shown : Token → String
  | .word text => text
  | .int value => toString value.toNat
  | .long value => s!"{value.toNat}L"
  | .string text => Text.quoted text
  | .punct c => s!"'{c}'"

/-- The next token as messages show it. -/
def shownNext : Option Token → String
  | some token => token.shown
  | none => "<EOF>"

/-- A token and the line it starts on. Lines count from 1. -/
structure Lexeme where
  token : Token
  line : Nat
  deriving DecidableEq, Repr, Inhabited

/-- The tokens of a text, and the line it ends on. -/
structure Lexemes where
  rest : List Lexeme
  endLine : Nat
  deriving DecidableEq, Repr, Inhabited

/-- Why a text has no tokens. -/
inductive LexCause where
  | unsupportedNumber
  | numberTooLarge (digits : String)
  | unclosedString
  | illegalEscape
  | unclosedComment
  | illegalCharacter (c : Char)
  deriving DecidableEq, Repr, Inhabited

def LexCause.message : LexCause → String
  | .unsupportedNumber => "unsupported numeric literal"
  | .numberTooLarge digits => s!"integer number too large: {digits}"
  | .unclosedString => "unclosed string literal"
  | .illegalEscape => "illegal escape character in string literal"
  | .unclosedComment => "unclosed comment"
  | .illegalCharacter c => s!"illegal character: '{c}'"

structure LexFault where
  line : Nat
  cause : LexCause
  deriving DecidableEq, Repr, Inhabited

namespace Scan

/-- What the characters since the last whole token are part of. Characters already taken come last
first. -/
inductive Mode where
  | start
  /-- After a slash, which may open a comment. -/
  | slash
  | lineComment
  /-- In a comment that was opened on a line. The last character may have been a star. -/
  | blockComment (afterStar : Bool) (openLine : Nat)
  | number (digits : List Char)
  | longNumber (digits : List Char)
  | word (chars : List Char)
  | string (chars : List Char)
  /-- After a backslash in a string. -/
  | escape (chars : List Char)
  deriving DecidableEq, Repr

/-- A scan under way. The tokens found come last first. -/
structure State where
  mode : Mode
  line : Nat
  found : List Lexeme
  deriving DecidableEq, Repr

def State.initial : State := ⟨.start, 1, []⟩

def State.fail {α : Type} (s : State) (cause : LexCause) : Except LexFault α :=
  .error ⟨s.line, cause⟩

/-- Adds a token on the current line. -/
def State.emit (s : State) (token : Token) : State :=
  ⟨.start, s.line, ⟨token, s.line⟩ :: s.found⟩

def punctuation : List Char := "()\x7b\x7d[];,.=+-*/%".toList

def startsWord (c : Char) : Bool := Text.isLetter c || c == '_' || c == '$'

def continuesWord (c : Char) : Bool := Text.isLetterOrNumber c || c == '_' || c == '$'

/-- Takes a character that belongs to no token yet. -/
def begin (s : State) (c : Char) : Except LexFault State :=
  if c = '\n' then .ok ⟨.start, s.line + 1, s.found⟩
  else if Text.isBlank c then .ok { s with mode := .start }
  else if c = '/' then .ok { s with mode := .slash }
  else if Text.isDigit c then .ok { s with mode := .number [c] }
  else if startsWord c then .ok { s with mode := .word [c] }
  else if c = '"' then .ok { s with mode := .string [] }
  else if c ∈ punctuation then .ok (s.emit (.punct c))
  else s.fail (.illegalCharacter c)

/-- Ends a literal, whose value has to fit in 64 bits. -/
def emitNumber (s : State) (digits : List Char) (token : UInt64 → Token) :
    Except LexFault State :=
  let value := digits.reverse.foldl (fun n c => n * 10 + (c.toNat - '0'.toNat)) 0
  if value < UInt64.size then .ok (s.emit (token value.toUInt64))
  else s.fail (.numberTooLarge (String.ofList digits.reverse))

/-- Whether a literal cannot end before the character. -/
def spoilsNumber (c : Char) : Bool := Text.isLetterOrNumber c || c == '.'

/-- The character that an escape stands for. -/
def escaped? : Char → Option Char
  | 'n' => some '\n'
  | 't' => some '\t'
  | 'r' => some '\r'
  | 'b' => some '\x08'
  | 'f' => some '\x0c'
  | '0' => some '\x00'
  | '"' => some '"'
  | '\'' => some '\''
  | '\\' => some '\\'
  | _ => none

def step (s : State) (c : Char) : Except LexFault State :=
  match s.mode with
  | .start => begin s c
  | .slash =>
    if c = '/' then .ok { s with mode := .lineComment }
    else if c = '*' then .ok { s with mode := .blockComment false s.line }
    else begin (s.emit (.punct '/')) c
  | .lineComment =>
    if c = '\n' then .ok ⟨.start, s.line + 1, s.found⟩ else .ok s
  | .blockComment afterStar openLine =>
    if afterStar && c == '/' then .ok { s with mode := .start }
    else
      .ok ⟨.blockComment (c == '*') openLine, if c = '\n' then s.line + 1 else s.line, s.found⟩
  | .number digits =>
    if Text.isDigit c then .ok { s with mode := .number (c :: digits) }
    else if c = '_' then .ok s
    else if c = 'l' ∨ c = 'L' then .ok { s with mode := .longNumber digits }
    else if spoilsNumber c then s.fail .unsupportedNumber
    else do begin (← emitNumber s digits .int) c
  | .longNumber digits =>
    if spoilsNumber c then s.fail .unsupportedNumber
    else do begin (← emitNumber s digits .long) c
  | .word chars =>
    if continuesWord c then .ok { s with mode := .word (c :: chars) }
    else begin (s.emit (.word (String.ofList chars.reverse))) c
  | .string chars =>
    if c = '"' then .ok (s.emit (.string (String.ofList chars.reverse)))
    else if c = '\\' then .ok { s with mode := .escape chars }
    else if c = '\n' then s.fail .unclosedString
    else .ok { s with mode := .string (c :: chars) }
  | .escape chars =>
    match escaped? c with
    | some e => .ok { s with mode := .string (e :: chars) }
    | none => s.fail .illegalEscape

/-- Ends the scan with the text. -/
def finish (s : State) : Except LexFault State :=
  match s.mode with
  | .start | .lineComment => .ok s
  | .slash => .ok (s.emit (.punct '/'))
  | .blockComment _ openLine => .error ⟨openLine, .unclosedComment⟩
  | .number digits => emitNumber s digits .int
  | .longNumber digits => emitNumber s digits .long
  | .word chars => .ok (s.emit (.word (String.ofList chars.reverse)))
  | .string _ => s.fail .unclosedString
  | .escape _ => s.fail .illegalEscape

theorem foldlM_append (s : State) (a b : List Char) :
    (a ++ b).foldlM step s = (a.foldlM step s).bind fun t => b.foldlM step t :=
  List.foldlM_append

end Scan

/-- Splits a text into tokens. -/
def scan (text : String) : Except LexFault Lexemes := do
  let s ← Scan.finish (← text.toList.foldlM Scan.step .initial)
  return ⟨s.found.reverse, s.line⟩

end JavaSnippet.Source
