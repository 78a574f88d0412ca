import JavaSnippet.Proofs.Source.Lexical
/-!
Tokens as text. Between two tokens stand any blanks and comments, or nothing where the first token
ends with its last character anyway. Whatever stands there, the tokens are scanned again.
-/
namespace JavaSnippet.Source

open Scan

/-- Tokens that have a spelling. -/
def Token.IsSpelled : Token → Prop
  | .word text => isSpelledWord text = true
  | .punct c => c ∈ punctuation
  | _ => True

/-- A character inside a string literal. -/
def escape (c : Char) : List Char :=
  if c = '\n' then ['\\', 'n'] else if c = '"' ∨ c = '\\' then ['\\', c] else [c]

/-- The characters of a token. -/
def Token.chars : Token → List Char
  | .word text => text.toList
  | .int value => Nat.toDigits 10 value.toNat
  | .long value => Nat.toDigits 10 value.toNat ++ ['L']
  | .string text => '"' :: (text.toList.flatMap escape ++ ['"'])
  | .punct c => [c]

/-- What stands before a token, after another, or both. -/
abbrev Gap := List Filler

/-- The token in front of a text. They are kept apart by a space if they would run together. -/
def Token.before (t : Token) : List Char → List Char
  | [] => t.chars
  | c :: rest => t.chars ++ (if t.runsInto c then ' ' :: c :: rest else c :: rest)

/-- The tokens with a gap before each and after the last. -/
def laidOut (gaps : Nat → Gap) : Nat → List Token → List Char
  | i, [] => (gaps i).flatMap Filler.chars
  | i, t :: rest => (gaps i).flatMap Filler.chars ++ t.before (laidOut gaps (i + 1) rest)

/-- Tokens with a gap behind each. -/
def joined (parts : List (Token × Gap)) : List Char :=
  parts.flatMap fun part => part.1.chars ++ part.2.flatMap Filler.chars

/-- The tokens on the lines that they begin on, in a text where other characters come first. -/
def located (before : List Char) : List (Token × Gap) → List Lexeme
  | [] => []
  | (t, gap) :: parts =>
    ⟨t, 1 + before.count '\n'⟩ ::
      located (before ++ t.chars ++ gap.flatMap Filler.chars) parts

/-- No token runs into what follows it. -/
def KeptApart : List (Token × Gap) → Prop
  | [] => True
  | (t, gap) :: parts =>
    (∀ c ∈ (gap.flatMap Filler.chars ++ joined parts).head?, t.runsInto c = false) ∧
      KeptApart parts

/-- A blank, and then any blanks and comments. -/
def Gap.StartsBlank (gap : Gap) : Prop :=
  ∃ c isBlank others, gap = .blank c isBlank :: others

theorem isDigit_toDigits {n : Nat} : ∀ c ∈ Nat.toDigits 10 n, Text.isDigit c = true := by
  intro c here
  have digit := Char.isDigit_iff_toNat.mp (Nat.isDigit_of_mem_toDigits (by decide) (by decide) here)
  have zero : '0'.toNat = 48 := rfl
  have nine : '9'.toNat = 57 := rfl
  rw [zero, nine] at digit
  simpa [Text.isDigit, Char.le_def, UInt32.le_iff_toNat_le] using digit

theorem isDigitRun_toDigits (n : Nat) : isDigitRun (Nat.toDigits 10 n) = true := by
  have digits := isDigit_toDigits (n := n)
  cases spelled : Nat.toDigits 10 n with
  | nil => exact absurd spelled Nat.toDigits_ne_nil
  | cons c rest =>
    rw [spelled] at digits
    obtain ⟨first, others⟩ := List.forall_mem_cons.mp digits
    rw [isDigitRun, first, Bool.true_and, List.all_eq_true]
    intro d here
    rw [continuesNumber, others d here, Bool.true_or]

theorem decimalValue_toDigits (n : Nat) : decimalValue (Nat.toDigits 10 n) = n := by
  rw [decimalValue, List.filter_eq_self.mpr isDigit_toDigits]
  simp only [Nat.mul_comm _ 10]
  exact Nat.ofDigitChars_ten_toDigits

theorem unquotes_escape {c : Char} {body text : List Char} (h : Unquotes body text) :
    Unquotes (escape c ++ body) (c :: text) := by
  unfold escape
  split
  · rename_i newline
    rw [newline]
    exact .escaped rfl h
  split
  · rename_i quoted
    rcases quoted with rfl | rfl
    · exact .escaped rfl h
    · exact .escaped rfl h
  · rename_i plain notQuoted
    rw [not_or] at notQuoted
    exact .plain notQuoted.1 notQuoted.2 plain h

theorem unquotes_escapes (text : List Char) : Unquotes (text.flatMap escape) text := by
  induction text with
  | nil => exact .done
  | cons c text ih => exact unquotes_escape ih

theorem spelledAs_chars {t : Token} (h : t.IsSpelled) : t.SpelledAs t.chars := by
  cases t with
  | word text => exact .word h
  | int value => exact .int (isDigitRun_toDigits _) (decimalValue_toDigits _)
  | long value => exact .long (isDigitRun_toDigits _) (decimalValue_toDigits _) (.inr rfl)
  | string text => exact .string (unquotes_escapes text.toList)
  | punct c => exact .punct h

theorem lexes_gap (gap : Gap) {line last : Nat} {text : List Char} {found : List Occurrence}
    (h : Lexes (line + (gap.flatMap Filler.chars).count '\n') text found last) :
    Lexes line (gap.flatMap Filler.chars ++ text) found last := by
  induction gap generalizing line with
  | nil => exact h
  | cons filler gap ih =>
    rw [List.flatMap_cons, List.append_assoc]
    refine .filler filler (ih ?_)
    rwa [List.flatMap_cons, List.count_append, ← Nat.add_assoc] at h

theorem isBlank_space : Text.isBlank ' ' = true := by decide

theorem lexes_before {t : Token} (h : t.IsSpelled) {line last : Nat} {text : List Char}
    {found : List Occurrence} (rest : Lexes line text found last) :
    Lexes line (t.before text) (⟨⟨t, line⟩, t.chars⟩ :: found) last := by
  have spelled := spelledAs_chars h
  cases text with
  | nil =>
    have whole := Lexes.token spelled (by simp) rest
    rwa [List.append_nil] at whole
  | cons c text =>
    rw [Token.before]
    split
    · refine .token spelled ?_ (.filler (.blank ' ' isBlank_space) rest)
      intro d next
      rw [← Option.some.inj next]
      exact runsInto_of_isBlank t isBlank_space
    · rename_i apart
      refine .token spelled (fun d next => ?_) rest
      rw [← Option.some.inj next]
      simpa using apart

theorem lexes_laidOut {tokens : List Token} (h : ∀ t ∈ tokens, t.IsSpelled) (gaps : Nat → Gap)
    (i line : Nat) :
    ∃ found last, Lexes line (laidOut gaps i tokens) found last ∧ found.map (·.token) = tokens := by
  induction tokens generalizing i line with
  | nil =>
    have whole : Lexes line ((gaps i).flatMap Filler.chars ++ []) [] _ :=
      lexes_gap (gaps i) (.done _)
    rw [List.append_nil] at whole
    exact ⟨[], _, whole, rfl⟩
  | cons t tokens ih =>
    obtain ⟨isSpelled, others⟩ := List.forall_mem_cons.mp h
    obtain ⟨found, last, rest, same⟩ := ih others (i + 1)
      (line + ((gaps i).flatMap Filler.chars).count '\n')
    exact ⟨_, last, lexes_gap (gaps i) (lexes_before isSpelled rest), congrArg (t :: ·) same⟩

/-- The tokens that are left. -/
def Lexemes.tokens (s : Lexemes) : List Token := s.rest.map (·.token)

/-- Tokens that are laid out as text are the tokens of the text. -/
theorem scan_laidOut {tokens : List Token} (h : ∀ t ∈ tokens, t.IsSpelled) (gaps : Nat → Gap) :
    ∃ lexemes, scan (String.ofList (laidOut gaps 0 tokens)) = .ok lexemes ∧
      lexemes.tokens = tokens := by
  obtain ⟨found, last, read, same⟩ := lexes_laidOut h gaps 0 1
  refine ⟨⟨found.map (·.toLexeme), last⟩, scan_eq_ok_iff.mpr ⟨found, ?_, rfl⟩, ?_⟩
  · rwa [String.toList_ofList]
  · rw [Lexemes.tokens, List.map_map]
    exact same

theorem newline_notMem_of_unquotes {body text : List Char} (h : Unquotes body text) :
    '\n' ∉ body := by
  induction h with
  | done => simp
  | plain noQuote noBackslash noNewline rest ih => simp [Ne.symm noNewline, ih]
  | @escaped e c body text means rest ih =>
    have shown : e ≠ '\n' := by
      rintro rfl
      cases means
    simp [Ne.symm shown, ih]

theorem newline_notMem_of_isDigitRun {run : List Char} (h : isDigitRun run = true) :
    '\n' ∉ run := fun newline =>
  absurd (continuesNumber_of_isDigitRun h _ newline) (by decide)

theorem newline_notMem_of_spelledAs {t : Token} {chars : List Char} (h : t.SpelledAs chars) :
    '\n' ∉ chars := by
  cases h with
  | @word text isWord =>
    intro newline
    unfold isSpelledWord at isWord
    split at isWord
    · rename_i c rest same
      obtain ⟨starts, continues⟩ := Bool.and_eq_true_iff.mp isWord
      rw [same, List.mem_cons] at newline
      rcases newline with rfl | inside
      · exact absurd starts (by decide)
      · exact absurd (List.all_eq_true.mp continues _ inside) (by decide)
    · cases isWord
  | int isRun spells => exact newline_notMem_of_isDigitRun isRun
  | long isRun spells isSuffix =>
    rcases isSuffix with rfl | rfl <;> simp [newline_notMem_of_isDigitRun isRun]
  | string means => simp [newline_notMem_of_unquotes means]
  | punct isPunct =>
    rw [List.mem_singleton]
    rintro rfl
    exact absurd isPunct (by decide)

theorem lexes_joined {parts : List (Token × Gap)} (spelled : ∀ p ∈ parts, p.1.IsSpelled)
    (apart : KeptApart parts) (before : List Char) :
    ∃ found, Lexes (1 + before.count '\n') (joined parts) found
        (1 + (before ++ joined parts).count '\n') ∧
      found.map (·.toLexeme) = located before parts := by
  induction parts generalizing before with
  | nil =>
    rw [joined, List.flatMap_nil, List.append_nil]
    exact ⟨[], .done _, rfl⟩
  | cons part parts ih =>
    obtain ⟨t, gap⟩ := part
    obtain ⟨isSpelled, others⟩ := List.forall_mem_cons.mp spelled
    obtain ⟨follows, apart⟩ := apart
    have here := spelledAs_chars isSpelled
    have oneLine := List.count_eq_zero.mpr (newline_notMem_of_spelledAs here)
    obtain ⟨found, rest, same⟩ := ih others apart (before ++ t.chars ++ gap.flatMap Filler.chars)
    have lines : 1 + (before ++ t.chars ++ gap.flatMap Filler.chars).count '\n' =
        1 + before.count '\n' + (gap.flatMap Filler.chars).count '\n' := by
      rw [List.count_append, List.count_append, oneLine, Nat.add_zero, Nat.add_assoc]
    have text : joined ((t, gap) :: parts) =
        t.chars ++ (gap.flatMap Filler.chars ++ joined parts) := by
      rw [joined, List.flatMap_cons, List.append_assoc, ← joined]
    refine ⟨⟨⟨t, 1 + before.count '\n'⟩, t.chars⟩ :: found, ?_,
      by rw [List.map_cons, same, located]⟩
    rw [text]
    refine .token here follows (lexes_gap gap ?_)
    rw [← lines]
    simpa only [List.append_assoc] using rest

theorem tokens_located (before : List Char) (parts : List (Token × Gap)) :
    (located before parts).map (·.token) = parts.map (·.1) := by
  induction parts generalizing before with
  | nil => rfl
  | cons part parts ih => exact congrArg (part.1 :: ·) (ih _)

/-- Tokens that do not run into what follows them are scanned again, on their lines. -/
theorem scan_joined (lead : Gap) {parts : List (Token × Gap)}
    (spelled : ∀ p ∈ parts, p.1.IsSpelled) (apart : KeptApart parts) :
    scan (String.ofList (lead.flatMap Filler.chars ++ joined parts)) =
      .ok ⟨located (lead.flatMap Filler.chars) parts,
        1 + (lead.flatMap Filler.chars ++ joined parts).count '\n'⟩ := by
  obtain ⟨found, read, same⟩ := lexes_joined spelled apart (lead.flatMap Filler.chars)
  refine scan_eq_ok_iff.mpr ⟨found, ?_, same⟩
  rw [String.toList_ofList]
  exact lexes_gap lead read

theorem keptApart_of_separated {parts : List (Token × Gap)}
    (separated : ∀ p ∈ parts.dropLast, p.2.StartsBlank)
    (ended : ∀ p ∈ parts.getLast?, p.2 = [] ∨ p.2.StartsBlank) : KeptApart parts := by
  have blank : ∀ (t : Token) {gap : Gap} (rest : List Char), gap.StartsBlank →
      ∀ c ∈ (gap.flatMap Filler.chars ++ rest).head?, t.runsInto c = false := by
    rintro t gap rest ⟨d, isBlank, others, rfl⟩ c next
    rw [← Option.some.inj next]
    exact runsInto_of_isBlank t isBlank
  induction parts with
  | nil => trivial
  | cons part parts ih =>
    obtain ⟨t, gap⟩ := part
    cases parts with
    | nil =>
      refine ⟨?_, trivial⟩
      rcases ended _ rfl with rfl | starts
      · simp [joined]
      · exact blank t _ starts
    | cons next parts =>
      rw [List.dropLast_cons_cons] at separated
      obtain ⟨starts, others⟩ := List.forall_mem_cons.mp separated
      rw [List.getLast?_cons_cons] at ended
      exact ⟨blank t _ starts, ih others ended⟩

/-- Tokens that stay apart without blanks: each is a punctuation character that cannot open a
comment, or stands before such a character and does not run into it. -/
inductive Compact : List Token → Prop where
  | nil : Compact []
  | punct {c : Char} {tokens : List Token} (listed : c ∈ punctuation) (noSlash : c ≠ '/')
      (rest : Compact tokens) : Compact (.punct c :: tokens)
  | before {t : Token} {c : Char} {tokens : List Token} (spelled : t.IsSpelled)
      (apart : t.runsInto c = false) (noComment : t.runsInto '/' = false)
      (rest : Compact (.punct c :: tokens)) : Compact (t :: .punct c :: tokens)

theorem Compact.isSpelled {tokens : List Token} (h : Compact tokens) :
    ∀ t ∈ tokens, t.IsSpelled := by
  induction h with
  | nil => simp
  | punct listed noSlash rest ih => exact List.forall_mem_cons.mpr ⟨listed, ih⟩
  | before spelled apart noComment rest ih => exact List.forall_mem_cons.mpr ⟨spelled, ih⟩

theorem apart_gap {t : Token} (noComment : t.runsInto '/' = false) (gap : Gap) {text : List Char}
    (apart : ∀ c ∈ text.head?, t.runsInto c = false) :
    ∀ c ∈ (gap.flatMap Filler.chars ++ text).head?, t.runsInto c = false := by
  cases gap with
  | nil => exact apart
  | cons filler gap =>
    intro c next
    cases filler with
    | blank d isBlank =>
      rw [← Option.some.inj next]
      exact runsInto_of_isBlank t isBlank
    | lineComment | blockComment =>
      rw [← Option.some.inj next]
      exact noComment

theorem keptApart_of_compact {parts : List (Token × Gap)} (h : Compact (parts.map (·.1))) :
    KeptApart parts := by
  generalize tokens : parts.map (·.1) = ts at h
  induction h generalizing parts with
  | nil =>
    obtain rfl := List.map_eq_nil_iff.mp tokens
    trivial
  | @punct c ts listed noSlash rest ih =>
    obtain ⟨⟨t, gap⟩, parts, rfl, rfl, others⟩ := List.map_eq_cons_iff.mp tokens
    have never : ∀ d, (Token.punct c).runsInto d = false := fun d => by
      simp [Token.runsInto, noSlash]
    exact ⟨fun d _ => never d, ih others⟩
  | @before t c ts spelled apart noComment rest ih =>
    obtain ⟨⟨t, gap⟩, parts, rfl, rfl, others⟩ := List.map_eq_cons_iff.mp tokens
    refine ⟨apart_gap noComment gap ?_, ih others⟩
    obtain ⟨⟨u, gap⟩, parts, rfl, rfl, -⟩ := List.map_eq_cons_iff.mp others
    intro d next
    rwa [← Option.some.inj next]

/-- Tokens that are written with a blank after each, and any blanks and comments after that, are
scanned again. They are found on the lines that they begin on, and the text ends on its last
line. -/
theorem scan_separated (lead : Gap) (parts : List (Token × Gap))
    (spelled : ∀ p ∈ parts, p.1.IsSpelled)
    (separated : ∀ p ∈ parts.dropLast, p.2.StartsBlank)
    (ended : ∀ p ∈ parts.getLast?, p.2 = [] ∨ p.2.StartsBlank) :
    scan (String.ofList (lead.flatMap Filler.chars ++ joined parts)) =
      .ok ⟨located (lead.flatMap Filler.chars) parts,
        1 + (lead.flatMap Filler.chars ++ joined parts).count '\n'⟩ :=
  scan_joined lead spelled (keptApart_of_separated separated ended)

/-- Tokens of every kind, with comments that hold stars and slashes. -/
def sampleParts : List (Token × Gap) :=
  [(.word "x", [.blank '\n' (by decide), .blockComment "/*\n* ".toList (by decide)]),
    (.punct '/', [.blank ' ' isBlank_space, .lineComment "* \"".toList (by decide)]),
    (.long 18446744073709551615, [.blank '\t' (by decide), .blockComment ['*'] (by decide)]),
    (.string "\"\n\\/*", [.blank '\n' (by decide)]), (.int 0, [])]

theorem scan_separated_sample :
    (∀ p ∈ sampleParts, p.1.IsSpelled) ∧
      scan (String.ofList (['\n'] ++ joined sampleParts)) =
        .ok ⟨[⟨.word "x", 2⟩, ⟨.punct '/', 4⟩, ⟨.long 18446744073709551615, 5⟩,
          ⟨.string "\"\n\\/*", 5⟩, ⟨.int 0, 6⟩], 6⟩ := by
  have spelled : ∀ p ∈ sampleParts, p.1.IsSpelled := by
    intro p here
    simp only [sampleParts, List.mem_cons, List.not_mem_nil, or_false] at here
    rcases here with rfl | rfl | rfl | rfl | rfl
    · exact (by decide : isSpelledWord "x" = true)
    · exact (by decide : '/' ∈ punctuation)
    all_goals trivial
  have separated : ∀ p ∈ sampleParts.dropLast, p.2.StartsBlank := by
    intro p here
    simp only [sampleParts, List.dropLast, List.mem_cons, List.not_mem_nil, or_false] at here
    rcases here with rfl | rfl | rfl | rfl <;> exact ⟨_, _, _, rfl⟩
  have ended : ∀ p ∈ sampleParts.getLast?, p.2 = [] ∨ p.2.StartsBlank := by
    intro p last
    obtain rfl := Option.some.inj last
    exact .inl rfl
  have scanned := scan_separated [.blank '\n' (by decide)] sampleParts spelled separated ended
  exact ⟨spelled, scanned.trans (congrArg Except.ok (by decide))⟩

end JavaSnippet.Source
