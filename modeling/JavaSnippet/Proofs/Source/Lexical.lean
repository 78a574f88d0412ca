import JavaSnippet.Proofs.Source.Spelling
/-!
The lexical grammar of source. A text is made of blanks, comments and tokens, where no token runs
into what follows it. The scan succeeds on just these texts, and finds the tokens.
-/
namespace JavaSnippet.Source

open Scan

/-- A part of a text that makes no token. -/
inductive Filler where
  | blank (c : Char) (isBlank : Text.isBlank c = true)
  | lineComment (text : List Char) (oneLine : '\n' ∉ text)
  | blockComment (text : List Char) (isOpen : ¬ ['*', '/'] <:+: text)

def Filler.chars : Filler → List Char
  | .blank c _ => [c]
  | .lineComment text _ => '/' :: '/' :: (text ++ ['\n'])
  | .blockComment text _ => '/' :: '*' :: (text ++ ['*', '/'])

/-- A token in a text, with the characters that spell it there. -/
structure Occurrence extends Lexeme where
  chars : List Char
  deriving DecidableEq, Repr, Inhabited

/-- How a text that begins on a line is read, and the line it ends on. A comment up to the end of a
line may be the last of the text. -/
inductive Lexes : Nat → List Char → List Occurrence → Nat → Prop where
  | done (line : Nat) : Lexes line [] [] line
  | comment {text : List Char} (oneLine : '\n' ∉ text) (line : Nat) :
      Lexes line ('/' :: '/' :: text) [] line
  | filler (f : Filler) {line last : Nat} {text : List Char} {found : List Occurrence}
      (rest : Lexes (line + f.chars.count '\n') text found last) :
      Lexes line (f.chars ++ text) found last
  | token {t : Token} {chars text : List Char} {line last : Nat} {found : List Occurrence}
      (spelled : t.SpelledAs chars) (apart : ∀ c ∈ text.head?, t.runsInto c = false)
      (rest : Lexes line text found last) :
      Lexes line (chars ++ text) (⟨⟨t, line⟩, chars⟩ :: found) last

namespace Scan

section Steps

variable (line : Nat) (found : List Lexeme)

theorem step_blank {c : Char} (h : Text.isBlank c = true) :
    step ⟨.start, line, found⟩ c = .ok ⟨.start, line + [c].count '\n', found⟩ := by
  by_cases newline : c = '\n'
  · rw [newline]
    rfl
  · rw [List.count_singleton, if_neg (by simpa using newline)]
    simp only [step, begin, if_neg newline, h, if_true, Nat.add_zero]

theorem foldlM_lineComment {text : List Char} (oneLine : '\n' ∉ text) :
    text.foldlM step ⟨.lineComment, line, found⟩ = .ok ⟨.lineComment, line, found⟩ := by
  induction text with
  | nil => rfl
  | cons c text ih =>
    rw [List.mem_cons, not_or] at oneLine
    have first : step ⟨.lineComment, line, found⟩ c = .ok ⟨.lineComment, line, found⟩ :=
      if_neg (Ne.symm oneLine.1)
    rw [List.foldlM_cons, first]
    exact ih oneLine.2

/-- Inside a comment that a star may close, the text does not go on with a slash. -/
theorem foldlM_blockComment {text : List Char} {afterStar : Bool} (openLine : Nat)
    (isOpen : ¬ ['*', '/'] <:+: (if afterStar then '*' :: text else text)) :
    (text ++ ['*', '/']).foldlM step ⟨.blockComment afterStar openLine, line, found⟩ =
      .ok ⟨.start, line + text.count '\n', found⟩ := by
  induction text generalizing afterStar line with
  | nil => cases afterStar <;> rfl
  | cons c text ih =>
    have goesOn : (afterStar && c == '/') = false := by
      rw [← Bool.not_eq_true, Bool.and_eq_true, beq_iff_eq]
      rintro ⟨rfl, rfl⟩
      exact isOpen ⟨[], text, rfl⟩
    have inside : ¬ ['*', '/'] <:+: (if c == '*' then '*' :: text else text) := by
      intro closes
      apply isOpen
      have here : ['*', '/'] <:+: c :: text := by
        split at closes
        · rename_i star
          rwa [beq_iff_eq.mp star]
        · exact closes.trans (List.infix_cons List.infix_rfl)
      split
      · exact here.trans (List.infix_cons List.infix_rfl)
      · exact here
    have lines : (if c = '\n' then line + 1 else line) + text.count '\n' =
        line + (c :: text).count '\n' := by
      rw [List.count_cons]
      by_cases newline : c = '\n'
      · simp only [newline, if_true, beq_self_eq_true]
        omega
      · simp [newline]
    rw [List.cons_append, List.foldlM_cons]
    simp only [step, goesOn]
    rw [← lines]
    exact ih _ inside

theorem foldlM_filler (f : Filler) :
    f.chars.foldlM step ⟨.start, line, found⟩ =
      .ok ⟨.start, line + f.chars.count '\n', found⟩ := by
  cases f with
  | blank c isBlank =>
    rw [Filler.chars, List.foldlM_cons, step_blank line found isBlank]
    rfl
  | lineComment text oneLine =>
    have once : (Filler.lineComment text oneLine).chars.count '\n' = 1 := by
      simp [Filler.chars, List.count_eq_zero.mpr oneLine]
    rw [once]
    show (text ++ ['\n']).foldlM step ⟨.lineComment, line, found⟩ = _
    rw [foldlM_append, foldlM_lineComment line found oneLine]
    rfl
  | blockComment text isOpen =>
    have inside : (Filler.blockComment text isOpen).chars.count '\n' = text.count '\n' := by
      simp [Filler.chars]
    rw [inside]
    exact foldlM_blockComment line found line isOpen

/-- A text after a token is scanned as if the token had been found already. -/
theorem through_token {t : Token} {chars text : List Char} (spelled : t.SpelledAs chars)
    (apart : ∀ c ∈ text.head?, t.runsInto c = false) :
    through ⟨.start, line, found⟩ (chars ++ text) = through (after line found t) text := by
  obtain ⟨pending, read, pends⟩ := pends_spelled line found spelled
  rw [through_append read]
  exact pends.through fun c rest same => apart c (by rw [same]; rfl)

end Steps

/-- A text that is read is scanned to its tokens. -/
theorem through_of_lexes {line last : Nat} {text : List Char} {items : List Occurrence}
    (h : Lexes line text items last) (found : List Lexeme) :
    ∃ final, through ⟨.start, line, found⟩ text = .ok final ∧ final.line = last ∧
      final.found = (items.map (·.toLexeme)).reverse ++ found := by
  induction h generalizing found with
  | done line => exact ⟨_, rfl, rfl, rfl⟩
  | @comment text oneLine line =>
    refine ⟨⟨.lineComment, line, found⟩, ?_, rfl, rfl⟩
    show text.foldlM step ⟨.lineComment, line, found⟩ >>= finish = _
    rw [foldlM_lineComment line found oneLine]
    rfl
  | @filler f line last text items rest ih =>
    rw [through_append (foldlM_filler line found f)]
    exact ih found
  | @token t chars text line last items spelled apart rest ih =>
    obtain ⟨final, scanned, ends, all⟩ := ih (⟨t, line⟩ :: found)
    refine ⟨final, ?_, ends, ?_⟩
    · rw [through_token line found spelled apart]
      exact scanned
    · rw [all, List.map_cons, List.reverse_cons, List.append_assoc]
      rfl

section Pieces

variable {line : Nat} {found : List Lexeme} {final : State} {text : List Char}

/-- What a text begins with. -/
inductive Begins (text : List Char) : Prop where
  | done (none : text = [])
  | comment (body : List Char) (oneLine : '\n' ∉ body) (same : text = '/' :: '/' :: body)
  | filler (f : Filler) (rest : List Char) (same : text = f.chars ++ rest)
  | token (t : Token) (chars rest : List Char) (spelled : t.SpelledAs chars)
      (apart : ∀ c ∈ rest.head?, t.runsInto c = false) (same : text = chars ++ rest)

theorem begins_lineComment (text : List Char) : Begins ('/' :: '/' :: text) := by
  by_cases newline : '\n' ∈ text
  · obtain ⟨body, rest, rfl, oneLine⟩ := List.eq_append_cons_of_mem newline
    exact .filler (.lineComment body oneLine) rest (by simp [Filler.chars])
  · exact .comment text newline rfl

/-- A comment that is closed is closed where a star and a slash come first. -/
theorem closes_of_through {afterStar : Bool} {openLine : Nat}
    (h : through ⟨.blockComment afterStar openLine, line, found⟩ text = .ok final) :
    ∃ body rest, (if afterStar then '*' :: text else text) = body ++ '*' :: '/' :: rest ∧
      ¬ ['*', '/'] <:+: body := by
  induction text generalizing afterStar line with
  | nil => cases h
  | cons c text ih =>
    by_cases closing : (afterStar && c == '/') = true
    · obtain ⟨rfl, slash⟩ := Bool.and_eq_true_iff.mp closing
      rw [beq_iff_eq.mp slash]
      exact ⟨[], text, rfl, by simp⟩
    rw [through, List.foldlM_cons] at h
    simp only [step, if_neg closing] at h
    obtain ⟨body, rest, same, isOpen⟩ := ih h
    have further : ∃ more, c :: text = more ++ '*' :: '/' :: rest ∧ ¬ ['*', '/'] <:+: more := by
      split at same
      · rename_i star
        rw [beq_iff_eq.mp star]
        exact ⟨body, same, isOpen⟩
      · rename_i other
        refine ⟨c :: body, by rw [same, List.cons_append], ?_⟩
        rw [List.infix_cons_iff, not_or]
        refine ⟨fun begins => other ?_, isOpen⟩
        obtain ⟨_, cut⟩ := begins
        exact beq_iff_eq.mpr (List.cons.inj cut).1.symm
    obtain ⟨more, whole, stillOpen⟩ := further
    cases afterStar with
    | false => exact ⟨more, rest, whole, stillOpen⟩
    | true =>
      refine ⟨'*' :: more, rest, by simp [whole], ?_⟩
      rw [List.infix_cons_iff, not_or]
      refine ⟨fun begins => closing ?_, stillOpen⟩
      obtain ⟨tail, cut⟩ := begins
      cases more with
      | nil => simp at cut
      | cons d more =>
        obtain rfl : '/' = d := (List.cons.inj (List.cons.inj cut).2).1
        rw [(List.cons.inj whole).1]
        rfl

theorem begins_blockComment
    (h : through ⟨.start, line, found⟩ ('/' :: '*' :: text) = .ok final) :
    Begins ('/' :: '*' :: text) := by
  have inside : through ⟨.blockComment false line, line, found⟩ text = .ok final := h
  obtain ⟨body, rest, same, isOpen⟩ := closes_of_through inside
  exact .filler (.blockComment body isOpen) rest (by simpa [Filler.chars] using same)

theorem begins_slash (h : through ⟨.start, line, found⟩ ('/' :: text) = .ok final) :
    Begins ('/' :: text) := by
  by_cases lineComment : text.head? = some '/'
  · obtain ⟨rest, rfl⟩ := List.head?_eq_some_iff.mp lineComment
    exact begins_lineComment rest
  by_cases blockComment : text.head? = some '*'
  · obtain ⟨rest, rfl⟩ := List.head?_eq_some_iff.mp blockComment
    exact begins_blockComment h
  refine .token (.punct '/') ['/'] text (.punct (by decide)) (fun c next => ?_) rfl
  rw [Option.mem_def] at next
  have noSlash : c ≠ '/' := fun same => lineComment (same ▸ next)
  have noStar : c ≠ '*' := fun same => blockComment (same ▸ next)
  simp [Token.runsInto, noSlash, noStar]

/-- A string that is closed is made of plain characters and escapes. -/
theorem unquotes_of_through (n : Nat) {chars : List Char} (short : text.length ≤ n)
    (h : through ⟨.string chars, line, found⟩ text = .ok final) :
    ∃ body content rest, text = body ++ '"' :: rest ∧ Unquotes body content := by
  induction n generalizing text chars with
  | zero =>
    obtain rfl := List.length_eq_zero_iff.mp (Nat.le_zero.mp short)
    cases h
  | succ n ih =>
    cases text with
    | nil => cases h
    | cons c text =>
      have shorter : text.length ≤ n := by simpa using short
      by_cases quote : c = '"'
      · exact ⟨[], [], text, by rw [quote]; rfl, .done⟩
      by_cases backslash : c = '\\'
      · -- An escape takes two characters, so the induction is on the length.
        cases text with
        | nil =>
          rw [backslash] at h
          cases h
        | cons e text =>
          rw [backslash] at h
          cases means : escaped? e with
          | none =>
            simp only [through, List.foldlM_cons, step] at h
            simp [means, bind, Except.bind, State.fail] at h
          | some d =>
            have next : through ⟨.string (d :: chars), line, found⟩ text = .ok final := by
              simp only [through, List.foldlM_cons, step] at h
              simpa [means, bind, Except.bind, through] using h
            have shorter' : text.length ≤ n := Nat.le_of_succ_le shorter
            obtain ⟨body, content, rest, rfl, unquotes⟩ := ih shorter' next
            exact ⟨_, _, rest, by rw [backslash]; rfl, .escaped means unquotes⟩
      by_cases newline : c = '\n'
      · rw [newline] at h
        cases h
      · have next : through ⟨.string (c :: chars), line, found⟩ text = .ok final := by
          rw [through, List.foldlM_cons] at h
          simp only [step, if_neg quote, if_neg backslash, if_neg newline] at h
          exact h
        obtain ⟨body, content, rest, rfl, unquotes⟩ := ih shorter next
        exact ⟨c :: body, _, rest, rfl, .plain quote backslash newline unquotes⟩

theorem begins_string (h : through ⟨.start, line, found⟩ ('"' :: text) = .ok final) :
    Begins ('"' :: text) := by
  have inside : through ⟨.string [], line, found⟩ text = .ok final := h
  obtain ⟨body, content, rest, rfl, unquotes⟩ := unquotes_of_through _ (Nat.le_refl _) inside
  refine .token (.string (String.ofList content)) ('"' :: (body ++ ['"'])) rest (.string ?_)
    (fun _ _ => rfl) (by simp)
  rwa [String.toList_ofList]

/-- A text is cut after its first characters of a kind. -/
theorem exists_cut (p : Char → Bool) (text : List Char) :
    ∃ front rest, text = front ++ rest ∧ (∀ c ∈ front, p c = true) ∧
      ∀ c ∈ rest.head?, p c = false := by
  refine ⟨text.takeWhile p, text.dropWhile p, List.takeWhile_append_dropWhile.symm,
    fun c here => List.all_eq_true.mp List.all_takeWhile c here, fun c next => ?_⟩
  have first := List.head?_dropWhile_not p text
  rw [Option.mem_def.mp next] at first
  exact first

theorem begins_word {c : Char} (starts : startsWord c = true) : Begins (c :: text) := by
  obtain ⟨more, rest, rfl, continues, ends⟩ := exists_cut continuesWord text
  have spelled : (Token.word (String.ofList (c :: more))).SpelledAs (c :: more) := by
    have isWord : isSpelledWord (String.ofList (c :: more)) = true := by
      rw [isSpelledWord, String.toList_ofList]
      exact Bool.and_eq_true_iff.mpr ⟨starts, List.all_eq_true.mpr continues⟩
    have word := Token.SpelledAs.word isWord
    rwa [String.toList_ofList] at word
  exact .token _ (c :: more) rest spelled ends rfl

/-- What follows a number does not spoil it, and the number is not too large. -/
theorem spelled_of_emit {mode : Mode} {run : List Char} {token : UInt64 → Token} {c : Char}
    (h : ((if spoilsNumber c then State.fail ⟨mode, line, found⟩ .unsupportedNumber
      else do
        begin (← emitNumber ⟨mode, line, found⟩ (run.filter Text.isDigit).reverse token) c) >>=
        fun s => text.foldlM step s) >>= finish = .ok final) :
    spoilsNumber c = false ∧ ∃ value : UInt64, decimalValue run = value.toNat := by
  obtain ⟨before, h, -⟩ := except_bind_eq_ok.mp h
  obtain ⟨next, h, -⟩ := except_bind_eq_ok.mp h
  split at h
  · cases h
  · rename_i clean
    obtain ⟨s, emitted, -⟩ := except_bind_eq_ok.mp h
    obtain ⟨value, spells, -⟩ := (emitNumber_eq_ok line found).mp emitted
    exact ⟨by simpa using clean, value, spells⟩

theorem begins_int {run : List Char} (isRun : isDigitRun run = true)
    (ends : ∀ c ∈ text.head?, continuesNumber c = false)
    (noSuffix : ∀ c ∈ text.head?, ¬ (c = 'l' ∨ c = 'L'))
    (h : through ⟨.number (run.filter Text.isDigit).reverse, line, found⟩ text = .ok final) :
    Begins (run ++ text) := by
  cases text with
  | nil =>
    obtain ⟨value, spells, -⟩ := (emitNumber_eq_ok line found).mp h
    exact .token (.int value) run [] (.int isRun spells) (by simp) rfl
  | cons c text =>
    obtain ⟨noDigit, noGap⟩ := Bool.or_eq_false_iff.mp (ends c rfl)
    rw [through, List.foldlM_cons] at h
    simp only [step, noDigit, if_neg (ne_of_beq_false noGap), if_neg (noSuffix c rfl),
      Bool.false_eq_true, if_false] at h
    obtain ⟨clean, value, spells⟩ := spelled_of_emit h
    refine .token (.int value) run (c :: text) (.int isRun spells) (fun d next => ?_) rfl
    rw [← Option.some.inj next, Token.runsInto, clean, noGap, Bool.or_self]

theorem begins_long {run : List Char} {suffix : Char} (isRun : isDigitRun run = true)
    (isSuffix : suffix = 'l' ∨ suffix = 'L')
    (h : through ⟨.longNumber (run.filter Text.isDigit).reverse, line, found⟩ text = .ok final) :
    Begins (run ++ [suffix] ++ text) := by
  cases text with
  | nil =>
    obtain ⟨value, spells, -⟩ := (emitNumber_eq_ok line found).mp h
    exact .token (.long value) (run ++ [suffix]) [] (.long isRun spells isSuffix) (by simp) rfl
  | cons c text =>
    rw [through, List.foldlM_cons] at h
    obtain ⟨clean, value, spells⟩ := spelled_of_emit h
    refine .token (.long value) (run ++ [suffix]) (c :: text) (.long isRun spells isSuffix)
      (fun d next => ?_) rfl
    rw [← Option.some.inj next, Token.runsInto, clean]

theorem begins_number {c : Char} (digit : Text.isDigit c = true)
    (h : through ⟨.start, line, found⟩ (c :: text) = .ok final) : Begins (c :: text) := by
  obtain ⟨more, rest, rfl, continues, ends⟩ := exists_cut continuesNumber text
  have isRun : isDigitRun (c :: more) = true :=
    Bool.and_eq_true_iff.mpr ⟨digit, List.all_eq_true.mpr continues⟩
  by_cases isSuffix : ∃ d ∈ rest.head?, d = 'l' ∨ d = 'L'
  · obtain ⟨suffix, next, isSuffix⟩ := isSuffix
    obtain ⟨others, rfl⟩ := List.head?_eq_some_iff.mp next
    have cut : c :: (more ++ suffix :: others) = c :: more ++ [suffix] ++ others := by simp
    rw [cut, through_append (foldlM_long line found isRun isSuffix)] at h
    rw [cut]
    exact begins_long isRun isSuffix h
  · rw [← List.cons_append, through_append (foldlM_digitRun line found isRun)] at h
    exact begins_int isRun ends (fun d next same => isSuffix ⟨d, next, same⟩) h

/-- A text that is scanned begins with something that the grammar knows. -/
theorem begins_of_through (h : through ⟨.start, line, found⟩ text = .ok final) : Begins text := by
  cases text with
  | nil => exact .done rfl
  | cons c text =>
    by_cases blank : Text.isBlank c = true
    · exact .filler (.blank c blank) text rfl
    by_cases slash : c = '/'
    · rw [slash] at h ⊢
      exact begins_slash h
    by_cases digit : Text.isDigit c = true
    · exact begins_number digit h
    by_cases letter : startsWord c = true
    · exact begins_word letter
    by_cases quote : c = '"'
    · rw [quote] at h ⊢
      exact begins_string h
    by_cases listed : c ∈ punctuation
    · refine .token (.punct c) [c] text (.punct listed) (fun d next => ?_) rfl
      simp [Token.runsInto, slash]
    · have noNewline : c ≠ '\n' := by
        rintro rfl
        exact blank (by decide)
      rw [through, List.foldlM_cons] at h
      simp only [step, begin, if_neg noNewline, if_neg blank, if_neg slash, if_neg digit,
        if_neg letter, if_neg quote, if_neg listed] at h
      cases h

end Pieces

theorem filler_ne_nil (f : Filler) : f.chars ≠ [] := by
  cases f <;> exact List.cons_ne_nil _ _

theorem ne_nil_of_spelledAs {t : Token} {chars : List Char} (h : t.SpelledAs chars) :
    chars ≠ [] := by
  cases h with
  | @word text isWord =>
    intro empty
    rw [isSpelledWord, empty] at isWord
    cases isWord
  | @int run value isRun spells =>
    rintro rfl
    cases isRun
  | long isRun spells isSuffix => simp
  | string means => simp
  | punct isPunct => simp

theorem length_lt_append {front : List Char} (rest : List Char) (some : front ≠ []) :
    rest.length < (front ++ rest).length := by
  have := List.length_pos_iff.mpr some
  rw [List.length_append]
  omega

/-- A text that is scanned is one that the grammar reads. -/
theorem lexes_of_through (n : Nat) {line : Nat} {text : List Char} {found : List Lexeme}
    {final : State} (short : text.length ≤ n)
    (h : through ⟨.start, line, found⟩ text = .ok final) :
    ∃ items, Lexes line text items final.line ∧
      final.found = (items.map (·.toLexeme)).reverse ++ found := by
  induction n generalizing text line found with
  | zero =>
    obtain rfl := List.length_eq_zero_iff.mp (Nat.le_zero.mp short)
    rw [← Except.ok.inj h]
    exact ⟨[], .done line, rfl⟩
  | succ n ih =>
    cases begins_of_through h with
    | done none =>
      subst none
      rw [← Except.ok.inj h]
      exact ⟨[], .done line, rfl⟩
    | comment body oneLine same =>
      subst same
      obtain ⟨other, scanned, line', same⟩ :=
        through_of_lexes (.comment oneLine line) found
      rw [scanned] at h
      rw [← Except.ok.inj h, line']
      exact ⟨[], .comment oneLine line, same⟩
    | filler f rest same =>
      subst same
      have shorter := length_lt_append rest (filler_ne_nil f)
      rw [through_append (foldlM_filler line found f)] at h
      obtain ⟨items, read, all⟩ := ih (by omega) h
      exact ⟨items, .filler f read, all⟩
    | token t chars rest spelled apart same =>
      subst same
      have shorter := length_lt_append rest (ne_nil_of_spelledAs spelled)
      rw [through_token line found spelled apart] at h
      obtain ⟨items, read, all⟩ := ih (by omega) h
      refine ⟨_, .token spelled apart read, ?_⟩
      rw [all, List.map_cons, List.reverse_cons, List.append_assoc]
      rfl

end Scan

/-- The scan succeeds on the texts of the grammar, and finds their tokens. -/
theorem scan_eq_ok_iff {text : String} {lexemes : Lexemes} :
    scan text = .ok lexemes ↔ ∃ items, Lexes 1 text.toList items lexemes.endLine ∧
      items.map (·.toLexeme) = lexemes.rest := by
  have whole : scan text =
      (through .initial text.toList).map fun s => ⟨s.found.reverse, s.line⟩ := by
    unfold scan through
    cases text.toList.foldlM step .initial with
    | error fault => rfl
    | ok s =>
      simp only [bind, Except.bind]
      cases finish s <;> rfl
  rw [whole]
  constructor
  · intro h
    obtain ⟨final, scanned, rfl⟩ := except_map_eq_ok.mp h
    obtain ⟨items, read, all⟩ := lexes_of_through _ (Nat.le_refl _) scanned
    exact ⟨items, read, by simp [all]⟩
  · rintro ⟨items, read, all⟩
    obtain ⟨final, scanned, last, same⟩ := through_of_lexes read []
    show Except.map _ (through ⟨.start, 1, []⟩ text.toList) = _
    rw [scanned, Except.map, last, same, List.append_nil, List.reverse_reverse, all]

end JavaSnippet.Source
