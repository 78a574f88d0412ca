import JavaSnippet.Proofs.Source.Expressions
/-!
Printed statements are parsed. A declaration is told from a call by a type and a name in a row,
which no call starts with.
-/
namespace JavaSnippet.Source

namespace Parser

variable {α β : Type} {P : α → Prop} {tokens middle left : List Token} {style : Style}

section Refusals

/-- A parser that finds some tokens fails. -/
def Refuses (x : Parse α) (tokens : List Token) : Prop :=
  ∀ s : Lexemes, s.tokens = tokens → ∃ fault, x s = .error fault

theorem Refuses.bind {x : Parse α} (h : Refuses x tokens) (f : α → Parse β) :
    Refuses (x >>= f) tokens := by
  intro s found
  obtain ⟨fault, failed⟩ := h s found
  exact ⟨fault, by rw [StateExcept.bind_apply, failed]⟩

theorem Takes.refuses {x : Parse α} {f : α → Parse β} (first : Takes x tokens middle P)
    (next : ∀ a, P a → Refuses (f a) middle) : Refuses (x >>= f) tokens := by
  intro s found
  obtain ⟨a, t, one, between, right⟩ := first s found
  obtain ⟨fault, failed⟩ := next a right t between
  exact ⟨fault, by rw [StateExcept.bind_apply, one]; exact failed⟩

theorem refuses_fail {cause : SyntaxCause} : Refuses (fail cause : Parse α) tokens := by
  intro s found
  unfold fail
  split
  · exact ⟨_, rfl⟩
  · exact ⟨_, rfl⟩

theorem refuses_identifier (h : ∀ text, tokens.head? = some (.word text) → text ∈ keywords) :
    Refuses identifier tokens := by
  refine takes_peek.refuses ?_
  rintro next rfl
  split
  · rename_i text isHead
    rw [if_pos (h text isHead)]
    exact refuses_fail
  · exact refuses_fail

theorem refuses_typeName
    (h : ∀ text, tokens.head? = some (.word text) → text ∈ keywords ∧ text ∉ primitives) :
    Refuses typeName tokens := by
  have noPath : Refuses path tokens :=
    (refuses_identifier fun text isHead => (h text isHead).1).bind _
  refine takes_line.refuses fun start _ => takes_peek.refuses ?_
  rintro next rfl
  split
  · rename_i text isHead
    rw [if_neg (h text isHead).2]
    exact noPath.bind _
  · exact noPath.bind _

end Refusals

section Beginnings

theorem head_ne_of_isName {type : TypeName} (isName : type.isName = true) {word : String}
    (reserved : word ∈ keywords ∧ word ∉ primitives) : type.path.head ≠ word := by
  rintro rfl
  obtain classNamed | primitive := Bool.or_eq_true_iff.mp isName
  · exact free_of_isName classNamed _ List.mem_cons_self reserved.1
  · exact reserved.2 (of_decide_eq_true (Bool.and_eq_true_iff.mp primitive).2)

theorem head_typeName {type : TypeName} (isName : type.isName = true) (left : List Token)
    {word : String} (reserved : word ∈ keywords ∧ word ∉ primitives) :
    (type.tokens ++ left).head? ≠ some (.word word) := fun same =>
  head_ne_of_isName isName reserved (Token.word.inj (Option.some.inj same))

theorem isName_snoc {p : Path} {member : String} (isName : p.isName = true)
    (isMember : isIdentifier member = true) : (p.snoc member).isName = true := by
  rw [Path.isName, Path.segments_snoc, List.all_append]
  exact Bool.and_eq_true_iff.mpr ⟨isName, by simpa using isMember⟩

theorem tokens_snoc (p : Path) (member : String) :
    (p.snoc member).tokens = p.tokens ++ [.punct '.', .word member] := by
  simp [Path.tokens, Path.snoc, dotted]

/-- How a subject starts: with a token that starts no declaration, with a dotted name and an opening
parenthesis, or it is a dotted name. -/
inductive Begins : List Token → Prop where
  | other (t : Token) (rest : List Token)
    (reserved : ∀ text, t = .word text →
      text ∈ ["true", "false", "null", "new"] ∧ rest.head? ≠ some (.punct '=')) :
    Begins (t :: rest)
  | called (p : Path) (isName : p.isName = true) (rest : List Token) :
    Begins (p.tokens ++ .punct '(' :: rest)
  | named (p : Path) (isName : p.isName = true) : Begins p.tokens

theorem begins_other {t : Token} (noWord : ∀ text, t ≠ .word text) (rest : List Token) :
    Begins (t :: rest) := .other t rest fun text same => absurd same (noWord text)

theorem begins_reserved {text : String} {rest : List Token}
    (reserved : text ∈ ["true", "false", "null", "new"])
    (apart : rest.head? ≠ some (.punct '=')) : Begins (.word text :: rest) :=
  .other _ _ fun _ same => Token.word.inj same ▸ ⟨reserved, apart⟩

/-- A member is selected or called. -/
theorem Begins.member (h : Begins tokens) {member : String} (isMember : isIdentifier member = true)
    (rest : List Token) (goesOn : rest = [] ∨ ∃ others, rest = .punct '(' :: others) :
    Begins (tokens ++ .punct '.' :: .word member :: rest) := by
  cases h with
  | other t others reserved =>
    refine .other t _ fun text same => ⟨(reserved text same).1, ?_⟩
    cases others with
    | nil => simp
    | cons next others => exact (reserved text same).2
  | called p isName others =>
    rw [List.append_assoc]
    exact .called p isName _
  | named p isName =>
    have longer : p.tokens ++ .punct '.' :: .word member :: rest =
        (p.snoc member).tokens ++ rest := by
      rw [tokens_snoc, List.append_assoc]
      rfl
    rw [longer]
    rcases goesOn with rfl | ⟨others, rfl⟩
    · rw [List.append_nil]
      exact .named _ (isName_snoc isName isMember)
    · exact .called _ (isName_snoc isName isMember) _

theorem begins_numeral {token : UInt64 → Token} (noWord : ∀ value text, token value ≠ .word text)
    (value : Int) : Begins (numeral token value) := by
  unfold numeral
  split
  · exact begins_other (by simp) _
  · exact begins_other (noWord _) _

theorem begins_tokensAt {place : Position} {e : Expr}
    (h : style place e = false → Begins (e.tokens style)) : Begins (e.tokensAt style place) := by
  unfold Expr.tokensAt
  cases inside : style place e with
  | true => exact begins_other (by simp) _
  | false => exact h inside

theorem begins_tokens (safe : style.IsSafe) (e : Expr) (writable : e.isWritable = true)
    (bare : Position.needsParentheses .receiver e = false) : Begins (e.tokens style) := by
  match e with
  | .int value _ => exact begins_numeral (by simp) value
  | .long value _ => exact begins_numeral (by simp) value
  | .string text _ => exact begins_other (by simp) _
  | .bool value _ => exact begins_reserved (by cases value <;> decide) (by simp)
  | .null _ => exact begins_reserved (by decide) (by simp)
  | .name text _ =>
    have isText : isIdentifier text = true := writable
    exact .named ⟨text, []⟩ (by simpa [Path.isName, Path.segments] using isText)
  | .neg _ _ => cases bare
  | .binary _ _ _ _ => cases bare
  | .select qualifier member _ =>
    obtain ⟨isQualifier, isMember⟩ := Bool.and_eq_true_iff.mp writable
    have before : Begins (qualifier.tokensAt style .receiver) := begins_tokensAt fun inside =>
      begins_tokens safe qualifier isQualifier (needless safe inside)
    exact before.member isMember [] (.inl rfl)
  | .call method args _ =>
    have isMethod := (Bool.and_eq_true_iff.mp writable).1
    exact .called ⟨method, []⟩ (by simpa [Path.isName, Path.segments] using isMethod) _
  | .callOn receiver method args _ =>
    obtain ⟨isReceiver, isMethod⟩ := Bool.and_eq_true_iff.mp (Bool.and_eq_true_iff.mp writable).1
    have before : Begins (receiver.tokensAt style .receiver) := begins_tokensAt fun inside =>
      begins_tokens safe receiver isReceiver (needless safe inside)
    exact before.member isMethod _ (.inr ⟨_, rfl⟩)
  | .create type args _ =>
    exact begins_reserved (by decide) (by simp [TypeName.tokens, Path.tokens])

end Beginnings

section Statements

/-- A parser that looks for a type and a name. -/
abbrev typeAndName : Parse String := do
  let _ ← typeName
  identifier

theorem atDeclaration_apply (s : Lexemes) :
    atDeclaration s = .ok ((typeAndName s).toBool, s) := by
  unfold atDeclaration
  cases typed : typeAndName s with
  | ok read => simp only [typeAndName] at typed; rw [typed]; rfl
  | error fault => simp only [typeAndName] at typed; rw [typed]; rfl

theorem takes_atDeclaration {P : String → Prop} (h : Takes typeAndName tokens left P) :
    Takes atDeclaration tokens tokens (· = true) := by
  intro s found
  obtain ⟨a, t, made, -, -⟩ := h s found
  exact ⟨_, s, atDeclaration_apply s, found, by rw [made]; rfl⟩

theorem takes_atDeclaration_miss (h : Refuses typeAndName tokens) :
    Takes atDeclaration tokens tokens (· = false) := by
  intro s found
  obtain ⟨fault, failed⟩ := h s found
  exact ⟨_, s, atDeclaration_apply s, found, by rw [failed]; rfl⟩

theorem takes_typeAndName {type : TypeName} {name : String} (isType : type.isName = true)
    (isName : isIdentifier name = true) (left : List Token) :
    Takes typeAndName (type.tokens ++ .word name :: left) left fun _ => True :=
  (takes_typeName isType ⟨by simp, by simp⟩).bind fun _ _ =>
    (takes_identifier (free_of_isIdentifier isName)).mono fun _ _ => trivial

/-- A dotted name with neither brackets nor another name behind it is no declaration. -/
theorem refuses_typeAndName {p : Path} (isName : p.isName = true) {c : Char} (noDot : c ≠ '.')
    (noBracket : c ≠ '[') (left : List Token) :
    Refuses typeAndName (p.tokens ++ .punct c :: left) := by
  have isType : (⟨p, 0, 0⟩ : TypeName).isName = true := by
    rw [TypeName.isName, isName, Bool.true_or]
  have ends : EndsType (.punct c :: left) := ⟨by simpa using noDot, by simpa using noBracket⟩
  have type := takes_typeName isType ends
  have bare : (⟨p, 0, 0⟩ : TypeName).tokens = p.tokens := List.append_nil _
  rw [bare] at type
  exact type.refuses fun _ _ => refuses_identifier (by simp)

theorem Begins.refuses (h : Begins tokens) (left : List Token) :
    Refuses typeAndName (tokens ++ .punct ';' :: left) := by
  cases h with
  | other t rest reserved =>
    refine (refuses_typeName fun text isHead => ?_).bind _
    have listed := (reserved text (Option.some.inj isHead)).1
    have all : ∀ word ∈ ["true", "false", "null", "new"], word ∈ keywords ∧ word ∉ primitives := by
      decide
    exact all text listed
  | called p isName rest =>
    rw [List.append_assoc]
    exact refuses_typeAndName isName (by decide) (by decide) _
  | named p isName => exact refuses_typeAndName isName (by decide) (by decide) _

theorem Begins.no_assignment (h : Begins tokens) (name : String) (left rest : List Token) :
    tokens ++ .punct ';' :: left ≠ .word name :: .punct '=' :: rest := by
  cases h with
  | other t others reserved =>
    intro same
    obtain ⟨rfl, more⟩ := List.cons.inj same
    cases others with
    | nil => simp at more
    | cons next others =>
      obtain ⟨rfl, -⟩ := List.cons.inj more
      exact (reserved name rfl).2 rfl
  | called p isName others =>
    obtain ⟨head, tail⟩ := p
    cases tail with
    | nil => simp [Path.tokens, dotted]
    | cons word tail => simp [Path.tokens, dotted]
  | named p isName =>
    obtain ⟨head, tail⟩ := p
    cases tail with
    | nil => simp [Path.tokens, dotted]
    | cons word tail => simp [Path.tokens, dotted]

/-- No expression statement starts like one of the other statements. -/
theorem Begins.head_ne (h : Begins tokens) {word : String}
    (reserved : word ∈ ["return", "throw", "final"]) (left : List Token) :
    (tokens ++ left).head? ≠ some (.word word) := by
  have keyword : ∀ word ∈ ["return", "throw", "final"], word ∈ keywords := by decide
  have apart : ∀ word ∈ ["return", "throw", "final"], word ∉ ["true", "false", "null", "new"] := by
    decide
  cases h with
  | other t rest others =>
    intro same
    exact apart word reserved (others word (Option.some.inj same)).1
  | called p isName rest =>
    intro same
    obtain rfl : p.head = word := Token.word.inj (Option.some.inj same)
    exact free_of_isName isName _ List.mem_cons_self (keyword _ reserved)
  | named p isName =>
    intro same
    obtain rfl : p.head = word := Token.word.inj (Option.some.inj same)
    exact free_of_isName isName _ List.mem_cons_self (keyword _ reserved)

theorem isCall_withoutLines (e : Expr) : isCall e.withoutLines = isCall e := by
  cases e <;> rfl

variable (safe : style.IsSafe)

include safe

theorem takes_value {e : Expr} (writable : e.isWritable = true) (shallow : e.isShallow style = true)
    (left : List Token) :
    Takes expression (e.tokensAt style .whole ++ .punct ';' :: left) (.punct ';' :: left)
      (·.withoutLines = e.withoutLines) :=
  yields_expression safe writable shallow _ (avoids_punct (by decide))

theorem takes_some {e : Expr} (writable : e.isWritable = true) (shallow : e.isShallow style = true)
    (left : List Token) :
    Takes (some <$> expression) (e.tokensAt style .whole ++ .punct ';' :: left) (.punct ';' :: left)
      (·.map Expr.withoutLines = some e.withoutLines) :=
  takes_map ((takes_value safe writable shallow left).mono fun _ same => congrArg some same)

theorem takes_declaration {type : TypeName} {name : String} {value : Option Expr}
    (isType : type.isName = true) (isName : isIdentifier name = true)
    (writable : value.all Expr.isWritable = true)
    (shallow : value.all (Expr.isShallow style) = true) (isFinal : Bool) (start line : Nat)
    (left : List Token) :
    Takes (declaration isFinal start)
      (type.tokens ++ .word name :: (initialTokens style value ++ .punct ';' :: left)) left
      (·.withoutLines = (Stmt.declare type name isFinal value line).withoutLines) := by
  refine (takes_typeName isType ⟨by simp, by simp⟩).bind fun foundType like => ?_
  refine (takes_identifier (free_of_isIdentifier isName)).known ?_
  have whole : ∀ found, found.map Expr.withoutLines = value.map Expr.withoutLines →
      Takes (do
          expect ';'
          return Stmt.declare foundType name isFinal found start) (.punct ';' :: left) left
        (·.withoutLines = (Stmt.declare type name isFinal value line).withoutLines) :=
    fun found same => takes_expect.bind fun _ _ => takes_pure (by
      rw [Stmt.withoutLines, Stmt.withoutLines, like, same])
  cases value with
  | none =>
    refine (takes_eat_miss (by simp [initialTokens])).known ?_
    exact (takes_pure (P := fun found => found.map Expr.withoutLines = none) rfl).bind whole
  | some e =>
    refine takes_eat_hit.known ?_
    exact (takes_some safe writable shallow left).bind whole

theorem takes_assignmentOrCall {e : Expr} (isCall : Parser.isCall e = true)
    (writable : e.isWritable = true) (shallow : e.isShallow style = true)
    (begins : Begins (e.tokensAt style .whole)) (start : Nat) (left : List Token) :
    Takes (assignmentOrCall start) (e.tokensAt style .whole ++ .punct ';' :: left) left
      (·.withoutLines = (Stmt.expr e).withoutLines) := by
  refine takes_get.bind fun s here => ?_
  split
  · rename_i isRest
    have same := here.symm.trans (congrArg (List.map Lexeme.token) isRest)
    exact absurd same (begins.no_assignment _ _ _)
  · refine (takes_value safe writable shallow left).bind fun found like => ?_
    have stillCall : Parser.isCall found = true := by
      rw [← isCall_withoutLines, like, isCall_withoutLines, isCall]
    rw [stillCall]
    exact takes_expect.bind fun _ _ => takes_pure (congrArg Stmt.expr like)

theorem begins_call {e : Expr} (isCall : Parser.isCall e = true) (writable : e.isWritable = true) :
    Begins (e.tokensAt style .whole) := by
  refine begins_tokensAt fun _ => begins_tokens safe e writable ?_
  cases e with
  | call _ _ _ => rfl
  | callOn _ _ _ _ => rfl
  | create _ _ _ => rfl
  | _ => cases isCall

theorem takes_declare {type : TypeName} {name : String} {isFinal : Bool} {value : Option Expr}
    {line : Nat} (writable : (Stmt.declare type name isFinal value line).isWritable = true)
    (shallow : value.all (Expr.isShallow style) = true) (left : List Token) :
    Takes statement ((Stmt.declare type name isFinal value line).tokens style ++ left) left
      (·.withoutLines = (Stmt.declare type name isFinal value line).withoutLines) := by
  obtain ⟨named, isValue⟩ := Bool.and_eq_true_iff.mp writable
  obtain ⟨isType, isName⟩ := Bool.and_eq_true_iff.mp named
  have whole := fun start =>
    takes_declaration safe isType isName isValue shallow isFinal start line left
  refine takes_line.bind fun start _ => ?_
  cases isFinal with
  | true =>
    have tokens : (Stmt.declare type name true value line).tokens style ++ left =
        .word "final" ::
          (type.tokens ++ .word name :: (initialTokens style value ++ .punct ';' :: left)) := by
      simp [Stmt.tokens]
    rw [tokens]
    refine (takes_eat_miss (by simp)).known ?_
    refine (takes_eat_miss (by simp)).known ?_
    refine takes_eat_hit.known ?_
    exact whole start
  | false =>
    have tokens : (Stmt.declare type name false value line).tokens style ++ left =
        type.tokens ++ .word name :: (initialTokens style value ++ .punct ';' :: left) := by
      simp [Stmt.tokens]
    rw [tokens]
    refine (takes_eat_miss (head_typeName isType _ (by decide))).known ?_
    refine (takes_eat_miss (head_typeName isType _ (by decide))).known ?_
    refine (takes_eat_miss (head_typeName isType _ (by decide))).known ?_
    refine (takes_atDeclaration (takes_typeAndName isType isName _)).known ?_
    exact whole start

theorem takes_assign {name : String} {value : Expr} (isName : isIdentifier name = true)
    (writable : value.isWritable = true) (shallow : value.isShallow style = true) (line : Nat)
    (left : List Token) :
    Takes statement ((Stmt.assign name value line).tokens style ++ left) left
      (·.withoutLines = (Stmt.assign name value line).withoutLines) := by
  have isPath : (⟨name, []⟩ : Path).isName = true := by
    simpa [Path.isName, Path.segments] using isName
  have free : ∀ word, word ∈ keywords → ∀ rest,
      ((⟨name, []⟩ : Path).tokens ++ rest).head? ≠ some (.word word) := by
    intro word keyword rest same
    obtain rfl : name = word := Token.word.inj (Option.some.inj same)
    exact free_of_isIdentifier isName keyword
  have tokens : (Stmt.assign name value line).tokens style ++ left = (⟨name, []⟩ : Path).tokens ++
      .punct '=' :: (value.tokensAt style .whole ++ .punct ';' :: left) := by
    simp [Stmt.tokens, Path.tokens, dotted]
  rw [tokens]
  refine takes_line.bind fun start _ => ?_
  refine (takes_eat_miss (free "return" (by decide) _)).known ?_
  refine (takes_eat_miss (free "throw" (by decide) _)).known ?_
  refine (takes_eat_miss (free "final" (by decide) _)).known ?_
  refine (takes_atDeclaration_miss (refuses_typeAndName isPath (by decide) (by decide) _)).known ?_
  refine takes_get.bind fun s here => ?_
  obtain ⟨line, others, isRest, more⟩ := tokens_eq_cons here
  obtain ⟨line', others', rfl, -⟩ := tokens_eq_cons (s := ⟨others, s.endLine⟩) more
  simp only [isRest]
  refine takes_skip.bind fun _ _ => takes_skip.bind fun _ _ => ?_
  refine (takes_value safe writable shallow left).bind fun found like => ?_
  exact takes_expect.bind fun _ _ => takes_pure (by
    rw [Stmt.withoutLines, Stmt.withoutLines, like])

theorem takes_returns {value : Option Expr} (writable : value.all Expr.isWritable = true)
    (shallow : value.all (Expr.isShallow style) = true) (line : Nat) (left : List Token) :
    Takes statement ((Stmt.returns value line).tokens style ++ left) left
      (·.withoutLines = (Stmt.returns value line).withoutLines) := by
  refine takes_line.bind fun start _ => ?_
  cases value with
  | none =>
    refine takes_eat_hit.known ?_
    refine takes_isNext_hit.known ?_
    refine (takes_pure (P := (· = none)) rfl).known ?_
    exact takes_expect.bind fun _ _ => takes_pure rfl
  | some e =>
    have tokens : (Stmt.returns (some e) line).tokens style ++ left =
        .word "return" :: (e.tokensAt style .whole ++ .punct ';' :: left) := by
      simp [Stmt.tokens]
    rw [tokens]
    have opens : Opens (e.tokensAt style .whole) := (opens_tokens style e).parenthesized _
    refine takes_eat_hit.known ?_
    refine (takes_isNext_miss (opens.head_ne (by decide) (by decide) _)).known ?_
    refine (takes_some safe writable shallow left).bind fun found same => ?_
    exact takes_expect.bind fun _ _ => takes_pure (by
      rw [Stmt.withoutLines, Stmt.withoutLines, same]
      rfl)

theorem takes_throws {value : Expr} (writable : value.isWritable = true)
    (shallow : value.isShallow style = true) (line : Nat) (left : List Token) :
    Takes statement ((Stmt.throws value line).tokens style ++ left) left
      (·.withoutLines = (Stmt.throws value line).withoutLines) := by
  have tokens : (Stmt.throws value line).tokens style ++ left =
      .word "throw" :: (value.tokensAt style .whole ++ .punct ';' :: left) := by
    simp [Stmt.tokens]
  rw [tokens]
  refine takes_line.bind fun start _ => ?_
  refine (takes_eat_miss (by simp)).known ?_
  refine takes_eat_hit.known ?_
  refine (takes_value safe writable shallow left).bind fun found like => ?_
  exact takes_expect.bind fun _ _ => takes_pure (by
    rw [Stmt.withoutLines, Stmt.withoutLines, like])

theorem takes_expr {value : Expr} (isCall : Parser.isCall value = true)
    (writable : value.isWritable = true) (shallow : value.isShallow style = true)
    (left : List Token) :
    Takes statement ((Stmt.expr value).tokens style ++ left) left
      (·.withoutLines = (Stmt.expr value).withoutLines) := by
  have begins := begins_call safe isCall writable
  have tokens : (Stmt.expr value).tokens style ++ left =
      value.tokensAt style .whole ++ .punct ';' :: left := by
    simp [Stmt.tokens]
  rw [tokens]
  refine takes_line.bind fun start _ => ?_
  refine (takes_eat_miss (begins.head_ne (by decide) _)).known ?_
  refine (takes_eat_miss (begins.head_ne (by decide) _)).known ?_
  refine (takes_eat_miss (begins.head_ne (by decide) _)).known ?_
  refine (takes_atDeclaration_miss (begins.refuses left)).known ?_
  exact takes_assignmentOrCall safe isCall writable shallow begins start left

theorem takes_statement {st : Stmt} (writable : st.isWritable = true)
    (shallow : st.isShallow style = true) (left : List Token) :
    Takes statement (st.tokens style ++ left) left (·.withoutLines = st.withoutLines) := by
  cases st with
  | declare type name isFinal value line => exact takes_declare safe writable shallow left
  | assign name value line =>
    obtain ⟨isName, isValue⟩ := Bool.and_eq_true_iff.mp writable
    exact takes_assign safe isName isValue shallow line left
  | returns value line => exact takes_returns safe writable shallow line left
  | throws value line => exact takes_throws safe writable shallow line left
  | expr value =>
    obtain ⟨isCall, isValue⟩ := Bool.and_eq_true_iff.mp writable
    exact takes_expr safe isCall isValue shallow left

end Statements

end Parser

end JavaSnippet.Source
