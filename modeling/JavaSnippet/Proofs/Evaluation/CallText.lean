import JavaSnippet.Evaluation.CallText
import JavaSnippet.Proofs.Source.Printing
import Mathlib.Data.List.Forall2
/-!
The text of a call, read and written. A call is a path of names, arguments in parentheses, and
perhaps a semicolon. Every such text is read as the call it shows, and no other text is a call.
-/
namespace JavaSnippet.Evaluation

open Source Scan

/-- A literal as it stands in a text: a minus sign or none, and a token. -/
structure Argument where
  negative : Bool
  token : Token
  deriving DecidableEq, Repr, Inhabited

def Argument.tokens (a : Argument) : List Token :=
  if a.negative then [.punct '-', a.token] else [a.token]

/-- The argument shows the literal. A number has the value that it has with its sign. -/
inductive Literal.WrittenAs : Literal → Argument → Prop where
  | int {n : Int32} {negative : Bool} {magnitude : UInt64}
      (value : CallText.signed negative magnitude = n.toInt) :
      WrittenAs (.int n) ⟨negative, .int magnitude⟩
  | long {n : Int64} {negative : Bool} {magnitude : UInt64}
      (value : CallText.signed negative magnitude = n.toInt) :
      WrittenAs (.long n) ⟨negative, .long magnitude⟩
  | string (text : String) : WrittenAs (.string text) ⟨false, .string text⟩
  | boolean (value : Bool) :
      WrittenAs (.boolean value) ⟨false, .word (if value then "true" else "false")⟩
  | null : WrittenAs .null ⟨false, .word "null"⟩

/-- The literal, with a minus sign only where it is needed. -/
def Literal.written : Literal → Argument
  | .int n => ⟨n.toInt < 0, .int n.toInt.natAbs.toUInt64⟩
  | .long n => ⟨n.toInt < 0, .long n.toInt.natAbs.toUInt64⟩
  | .string text => ⟨false, .string text⟩
  | .boolean value => ⟨false, .word (if value then "true" else "false")⟩
  | .null => ⟨false, .word "null"⟩

/-- The arguments with commas between them. -/
def separated (args : List Argument) : List Token :=
  List.intercalate [.punct ','] (args.map Argument.tokens)

/-- The names that lead to a method, each with a dot after it, and its own name. -/
def pathTokens (outer : List String) (method : String) : List Token :=
  outer.flatMap (fun name => [.word name, .punct '.']) ++ [.word method]

/-- A call of a method, which may end with a semicolon. -/
def callTokens (outer : List String) (method : String) (args : List Argument) (semicolon : Bool) :
    List Token :=
  pathTokens outer method ++ listed (args.map Argument.tokens) ++
    if semicolon then [.punct ';'] else []

namespace CallText

section Literals

theorem plainLiteral?_eq_some {token : Token} {l : Literal} (h : plainLiteral? token = some l) :
    l.WrittenAs ⟨false, token⟩ := by
  unfold plainLiteral? at h
  split at h
  · rw [← Option.some.inj h]
    exact .string _
  · rw [← Option.some.inj h]
    exact .boolean true
  · rw [← Option.some.inj h]
    exact .boolean false
  · rw [← Option.some.inj h]
    exact .null
  · cases h

theorem literal_eq_ok {negative : Bool} {token : Token} {l : Literal} :
    literal negative token = .ok l ↔ l.WrittenAs ⟨negative, token⟩ := by
  constructor
  · intro h
    cases token with
    | int magnitude =>
      cases small : int32? (signed negative magnitude) with
      | none => simp [literal, small] at h
      | some n =>
        simp only [literal, small, Except.ok.injEq] at h
        rw [← h]
        exact .int (int32?_eq_some.mp small).symm
    | long magnitude =>
      cases small : int64? (signed negative magnitude) with
      | none => simp [literal, small] at h
      | some n =>
        simp only [literal, small, Except.ok.injEq] at h
        rw [← h]
        exact .long (int64?_eq_some.mp small).symm
    | string _ | word _ | punct _ =>
      simp only [literal] at h
      split at h
      · rename_i found
        rw [← Except.ok.inj h]
        exact plainLiteral?_eq_some found
      · cases h
  · intro h
    cases h with
    | int value => simp only [literal, int32?_eq_some.mpr value.symm]
    | long value => simp only [literal, int64?_eq_some.mpr value.symm]
    | string text => rfl
    | boolean value => cases value <;> rfl
    | null => rfl

theorem not_punct {l : Literal} {a : Argument} (h : l.WrittenAs a) (c : Char) :
    a.token ≠ .punct c := by
  cases h <;> exact Token.noConfusion

end Literals

section Arguments

theorem separated_cons (a b : Argument) (args : List Argument) :
    separated (a :: b :: args) = a.tokens ++ .punct ',' :: separated (b :: args) := by
  rw [separated, List.map_cons, List.map_cons, List.intercalate_cons_cons, List.append_assoc]
  rfl

theorem parseLiterals_tokens (a : Argument) (found : List Literal) (rest : List Token) :
    parseLiterals found false (a.tokens ++ rest) =
      parseLiterals found a.negative (a.token :: rest) := by
  obtain ⟨negative, token⟩ := a
  cases negative with
  | false => rfl
  | true =>
    rw [Argument.tokens, if_pos rfl, List.cons_append, List.singleton_append, parseLiterals,
      if_pos ⟨rfl, rfl⟩]

theorem parseLiterals_comma {l : Literal} {a : Argument} (h : l.WrittenAs a)
    (found : List Literal) (rest : List Token) :
    parseLiterals found false (a.tokens ++ .punct ',' :: rest) =
      parseLiterals (l :: found) false rest := by
  have noSign := not_punct h '-'
  have read := literal_eq_ok.mpr h
  rw [parseLiterals_tokens, parseLiterals, if_neg fun both => noSign both.1]
  simp only [read]

theorem parseLiterals_close {l : Literal} {a : Argument} (h : l.WrittenAs a)
    (found : List Literal) (rest : List Token) :
    parseLiterals found false (a.tokens ++ .punct ')' :: rest) =
      .ok ((l :: found).reverse, rest) := by
  have noSign := not_punct h '-'
  have read := literal_eq_ok.mpr h
  rw [parseLiterals_tokens, parseLiterals, if_neg fun both => noSign both.1]
  simp only [read]

theorem parseLiterals_separated {ls : List Literal} {args : List Argument}
    (h : List.Forall₂ Literal.WrittenAs ls args) (some : args ≠ []) (found : List Literal)
    (rest : List Token) :
    parseLiterals found false (separated args ++ .punct ')' :: rest) =
      .ok (found.reverse ++ ls, rest) := by
  induction h generalizing found with
  | nil => exact absurd rfl some
  | @cons l a ls args first others ih =>
    cases others with
    | nil =>
      rw [separated, List.map_singleton, List.intercalate_singleton, parseLiterals_close first,
        List.reverse_cons]
    | cons next others =>
      rw [separated_cons, List.append_assoc, List.cons_append, parseLiterals_comma first,
        ih (List.cons_ne_nil _ _), List.reverse_cons, List.append_assoc, List.singleton_append]

theorem tokens_append (negative : Bool) (token : Token) (rest : List Token) :
    (⟨negative, token⟩ : Argument).tokens ++ rest =
      if negative then .punct '-' :: token :: rest else token :: rest := by
  cases negative <;> rfl

/-- What is taken as literals is written so. A minus sign that was taken before belongs to the
first of them. -/
theorem separated_of_parseLiterals {found : List Literal} {negative : Bool} {tokens : List Token}
    {ls : List Literal} {rest : List Token}
    (h : parseLiterals found negative tokens = .ok (ls, rest)) :
    ∃ args new, ls = found.reverse ++ new ∧ List.Forall₂ Literal.WrittenAs new args ∧
      args ≠ [] ∧ (if negative then .punct '-' :: tokens else tokens) =
        separated args ++ .punct ')' :: rest := by
  fun_induction parseLiterals found negative tokens with
  | case1 | case3 | case6 => cases h
  -- a minus sign, which the rest of the text then has in front
  | case2 found negative token tokens sign ih =>
    obtain ⟨rfl, first⟩ := sign
    obtain rfl : negative = false := by simpa using first
    exact ih h
  -- a literal and a comma
  | case4 found negative token _ l read tokens ih =>
    obtain ⟨args, new, rfl, written, some, same⟩ := ih h
    obtain ⟨next, args, rfl⟩ := List.exists_cons_of_ne_nil some
    refine ⟨⟨negative, token⟩ :: next :: args, l :: new, by simp,
      .cons (literal_eq_ok.mp read) written, List.cons_ne_nil _ _, ?_⟩
    rw [← tokens_append, separated_cons, List.append_assoc, List.cons_append, ← same]
    rfl
  -- a literal and the closing parenthesis
  | case5 found negative token _ l read tokens =>
    obtain ⟨rfl, rfl⟩ := Prod.mk.inj (Except.ok.inj h)
    refine ⟨[⟨negative, token⟩], [l], List.reverse_cons, .cons (literal_eq_ok.mp read) .nil,
      List.cons_ne_nil _ _, ?_⟩
    rw [← tokens_append, separated, List.map_singleton, List.intercalate_singleton]

theorem head?_separated {l : Literal} {a : Argument} (h : l.WrittenAs a) (args : List Argument)
    (rest : List Token) : (separated (a :: args) ++ rest).head? ≠ some (.punct ')') := by
  obtain ⟨more, same⟩ : ∃ more, separated (a :: args) = a.tokens ++ more := by
    cases args with
    | nil => exact ⟨[], by simp [separated]⟩
    | cons b args => exact ⟨_, separated_cons a b args⟩
  obtain ⟨negative, token⟩ := a
  rw [same, List.append_assoc, tokens_append]
  cases negative with
  | false => exact fun first => not_punct h ')' (Option.some.inj first)
  | true => exact fun first => absurd (Option.some.inj first) (by decide)

theorem parseArguments_eq_ok {tokens : List Token} {ls : List Literal} {rest : List Token} :
    parseArguments tokens = .ok (ls, rest) ↔ ∃ args, List.Forall₂ Literal.WrittenAs ls args ∧
      tokens = separated args ++ .punct ')' :: rest := by
  constructor
  · intro h
    unfold parseArguments at h
    split at h
    · obtain ⟨rfl, rfl⟩ := Prod.mk.inj (Except.ok.inj h)
      exact ⟨[], .nil, rfl⟩
    · obtain ⟨args, new, rfl, written, -, same⟩ := separated_of_parseLiterals h
      exact ⟨args, written, same⟩
  · rintro ⟨args, written, rfl⟩
    cases written with
    | nil => rfl
    | cons first others =>
      have opens := fun args => head?_separated first args (.punct ')' :: rest)
      unfold parseArguments
      split
      · rename_i closes
        exact absurd (congrArg List.head? closes) (opens _)
      · exact parseLiterals_separated (.cons first others) (List.cons_ne_nil _ _) [] rest

end Arguments

theorem parsePath_eq_ok {tokens : List Token} {path : List String} {rest : List Token} :
    parsePath tokens = .ok (path, rest) ↔ ∃ outer method, path = outer ++ [method] ∧
      tokens = pathTokens outer method ++ .punct '(' :: rest := by
  constructor
  · intro h
    fun_induction parsePath tokens generalizing path with
    | case1 name tokens =>
      obtain ⟨rfl, rfl⟩ := Prod.mk.inj (Except.ok.inj h)
      exact ⟨[], name, rfl, rfl⟩
    | case2 name tokens ih =>
      obtain ⟨⟨path, left⟩, read, h⟩ := except_bind_eq_ok.mp h
      obtain ⟨rfl, rfl⟩ := Prod.mk.inj (Except.ok.inj h)
      obtain ⟨outer, method, rfl, rfl⟩ := ih read
      exact ⟨name :: outer, method, rfl, rfl⟩
    | case3 | case4 => cases h
  · rintro ⟨outer, method, rfl, rfl⟩
    induction outer with
    | nil => rfl
    | cons name outer ih => exact except_bind_eq_ok.mpr ⟨_, ih, rfl⟩

theorem callTokens_eq (outer : List String) (method : String) (args : List Argument)
    (semicolon : Bool) : callTokens outer method args semicolon =
      pathTokens outer method ++ .punct '(' ::
        (separated args ++ .punct ')' :: if semicolon then [.punct ';'] else []) := by
  rw [callTokens, listed, separated, List.append_assoc, List.cons_append, List.append_assoc,
    List.singleton_append]

theorem dropSemicolon_eq_nil {tokens : List Token} :
    dropSemicolon tokens = [] ↔
      ∃ semicolon : Bool, tokens = if semicolon then [.punct ';'] else [] := by
  constructor
  · intro h
    unfold dropSemicolon at h
    split at h
    · exact ⟨true, by rw [h]; rfl⟩
    · exact ⟨false, h⟩
  · rintro ⟨semicolon, rfl⟩
    cases semicolon <;> rfl

theorem qualifierOf_eq (outer : List String) :
    qualifierOf outer = if outer = [] then none else some (String.intercalate "." outer) := by
  cases outer with
  | nil => rfl
  | cons name outer => rfl

/-- The tokens of a call are those of a path of names and of written literals. -/
theorem ofTokens_eq_ok {tokens : List Token} {call : CallText} :
    ofTokens tokens = .ok call ↔ ∃ outer args semicolon,
      tokens = callTokens outer call.method args semicolon ∧
        call.qualifier = (if outer = [] then none else some (String.intercalate "." outer)) ∧
        List.Forall₂ Literal.WrittenAs call.arguments args := by
  constructor
  · intro h
    obtain ⟨⟨path, afterPath⟩, readPath, goesOn⟩ := except_bind_eq_ok.mp h
    obtain ⟨⟨ls, afterArguments⟩, readArguments, last⟩ := except_bind_eq_ok.mp goesOn
    obtain ⟨outer, method, rfl, rfl⟩ := parsePath_eq_ok.mp readPath
    obtain ⟨args, written, rfl⟩ := parseArguments_eq_ok.mp readArguments
    dsimp only at last
    split at last
    · rename_i ends
      obtain ⟨semicolon, rfl⟩ := dropSemicolon_eq_nil.mp ends
      rw [← Except.ok.inj last]
      refine ⟨outer, args, semicolon, ?_, ?_, written⟩
      · rw [callTokens_eq, List.getLastD_concat]
      · rw [List.dropLast_concat, qualifierOf_eq]
    · cases last
  · rintro ⟨outer, args, semicolon, rfl, qualifier, written⟩
    have ends := dropSemicolon_eq_nil.mpr ⟨semicolon, rfl⟩
    refine except_bind_eq_ok.mpr ⟨_, parsePath_eq_ok.mpr ⟨outer, call.method, rfl,
      callTokens_eq outer call.method args semicolon⟩, except_bind_eq_ok.mpr
        ⟨_, parseArguments_eq_ok.mpr ⟨args, written, rfl⟩, ?_⟩⟩
    simp only [ends, List.dropLast_concat, List.getLastD_concat, qualifierOf_eq, ← qualifier]
    rfl

section Writing

theorem signed_natAbs {value : Int} (small : value.natAbs < UInt64.size) :
    signed (value < 0) value.natAbs.toUInt64 = value := by
  have same : value.natAbs.toUInt64.toNat = value.natAbs := UInt64.toNat_ofNat_of_lt' small
  by_cases negative : value < 0
  · rw [signed, same, if_pos (decide_eq_true negative)]
    omega
  · rw [signed, same, if_neg (by simpa using negative)]
    omega

/-- A literal is written so that it is read again, the least number of its type too. -/
theorem writtenAs_written (l : Literal) : l.WrittenAs l.written := by
  cases l with
  | int n =>
    have low := n.le_toInt
    have high := n.toInt_lt
    exact .int (signed_natAbs (show n.toInt.natAbs < 2 ^ 64 by omega))
  | long n =>
    have low := n.le_toInt
    have high := n.toInt_lt
    exact .long (signed_natAbs (show n.toInt.natAbs < 2 ^ 64 by omega))
  | string text => exact .string text
  | boolean value => exact .boolean value
  | null => exact .null

theorem isSpelled_written (l : Literal) : l.written.token.IsSpelled := by
  cases l with
  | int | long | string => trivial
  | boolean value =>
    cases value with
    | true => exact (by decide : isSpelledWord "true" = true)
    | false => exact (by decide : isSpelledWord "false" = true)
  | null => exact (by decide : isSpelledWord "null" = true)

theorem runsInto_written (l : Literal) {c : Char} (listed : c ∈ [',', ')', '/']) :
    l.written.token.runsInto c = false := by
  obtain ⟨word, number⟩ : continuesWord c = false ∧ (spoilsNumber c || c == '_') = false := by
    simp only [List.mem_cons, List.not_mem_nil, or_false] at listed
    rcases listed with rfl | rfl | rfl <;> decide
  cases l with
  | int n => exact number
  | long n => exact (Bool.or_eq_false_iff.mp number).1
  | string text => rfl
  | boolean value => exact word
  | null => exact word

theorem compact_argument (l : Literal) {c : Char} (ends : c ∈ [',', ')']) {tokens : List Token}
    (rest : Compact (.punct c :: tokens)) : Compact (l.written.tokens ++ .punct c :: tokens) := by
  have unsigned : Compact (l.written.token :: .punct c :: tokens) :=
    .before (isSpelled_written l) (runsInto_written l (List.mem_append_left ['/'] ends))
      (runsInto_written l (by decide)) rest
  rw [tokens_append]
  split
  · exact .punct (by decide) (by decide) unsigned
  · exact unsigned

theorem compact_separated (ls : List Literal) {tokens : List Token}
    (rest : Compact (.punct ')' :: tokens)) :
    Compact (separated (ls.map Literal.written) ++ .punct ')' :: tokens) := by
  induction ls with
  | nil => exact rest
  | cons l ls ih =>
    cases ls with
    | nil => simpa [separated] using compact_argument l (by decide) rest
    | cons next ls =>
      rw [List.map_cons, List.map_cons, separated_cons, List.append_assoc]
      exact compact_argument l (by decide) (.punct (by decide) (by decide) ih)

theorem compact_word {name : String} (spelled : isSpelledWord name = true) {c : Char}
    (ends : continuesWord c = false) {tokens : List Token} (rest : Compact (.punct c :: tokens)) :
    Compact (.word name :: .punct c :: tokens) :=
  .before spelled ends (by decide : continuesWord '/' = false) rest

theorem compact_callTokens {outer : List String} {method : String}
    (spelled : ∀ name ∈ method :: outer, isSpelledWord name = true) (ls : List Literal)
    (semicolon : Bool) : Compact (callTokens outer method (ls.map Literal.written) semicolon) := by
  obtain ⟨here, others⟩ := List.forall_mem_cons.mp spelled
  rw [callTokens_eq]
  have last : Compact (if semicolon then [.punct ';'] else []) := by
    cases semicolon with
    | false => exact .nil
    | true => exact .punct (by decide) (by decide) .nil
  have arguments := compact_separated ls (.punct (by decide) (by decide) last)
  induction outer with
  | nil =>
    exact compact_word here (by decide) (.punct (by decide) (by decide) arguments)
  | cons name outer ih =>
    obtain ⟨first, others⟩ := List.forall_mem_cons.mp others
    have rest := ih (List.forall_mem_cons.mpr ⟨here, others⟩) others
    exact compact_word first (by decide) (.punct (by decide) (by decide) rest)

end Writing

/-- The text of a call is read as the call, whatever stands between its tokens. Conversely, the
tokens of every text that is read are those of a call, and settle what is read. -/
theorem parse_calls :
    (∀ (outer : List String) (method : String) (ls : List Literal) (semicolon : Bool) (lead : Gap)
      (parts : List (Token × Gap)), (∀ name ∈ method :: outer, isSpelledWord name = true) →
      parts.map (·.1) = callTokens outer method (ls.map Literal.written) semicolon →
      parse (String.ofList (lead.flatMap Filler.chars ++ joined parts)) =
        .ok ⟨if outer = [] then none else some (String.intercalate "." outer), method, ls⟩) ∧
    ∀ (text : String) (call : CallText), parse text = .ok call ↔
      ∃ lexemes outer args semicolon, scan text = .ok lexemes ∧
        lexemes.tokens = callTokens outer call.method args semicolon ∧
        call.qualifier = (if outer = [] then none else some (String.intercalate "." outer)) ∧
        List.Forall₂ Literal.WrittenAs call.arguments args := by
  constructor
  · intro outer method ls semicolon lead parts spelled same
    have compact : Compact (parts.map (·.1)) := same ▸ compact_callTokens spelled ls semicolon
    have isSpelled : ∀ p ∈ parts, p.1.IsSpelled := fun p here =>
      compact.isSpelled p.1 (List.mem_map_of_mem here)
    rw [parse, scan_joined lead isSpelled (keptApart_of_compact compact)]
    dsimp only
    rw [tokens_located, same]
    refine ofTokens_eq_ok.mpr ⟨outer, _, semicolon, rfl, rfl, ?_⟩
    exact List.forall₂_map_right_iff.mpr (List.forall₂_same.mpr fun l _ => writtenAs_written l)
  · intro text call
    rw [parse]
    cases scan text with
    | error fault => simp
    | ok lexemes =>
      simp only [Except.ok.injEq, exists_and_left, exists_eq_left']
      exact ofTokens_eq_ok

/-- A call with a literal of each kind, and spaces after the commas. -/
def sampleParts : List (Token × Gap) :=
  let space : Gap := [.blank ' ' isBlank_space]
  [(.word "Outer", []), (.punct '.', []), (.word "invoke", []), (.punct '(', []),
    (.int 1, []), (.punct ',', space), (.punct '-', []), (.int 2147483648, []),
    (.punct ',', space), (.long 3, []), (.punct ',', space), (.string "s", []),
    (.punct ',', space), (.word "true", []), (.punct ',', space), (.word "null", []),
    (.punct ')', []), (.punct ';', [])]

theorem parse_calls_sample :
    parse "Outer.invoke(1, -2147483648, 3L, \"s\", true, null);" =
      .ok ⟨some "Outer", "invoke",
        [.int 1, .int (-2147483648), .long 3, .string "s", .boolean true, .null]⟩ :=
  parse_calls.1 ["Outer"] "invoke" _ true [] sampleParts (by decide) (by decide)

end CallText

end JavaSnippet.Evaluation
