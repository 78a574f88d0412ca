import JavaSnippet.Proofs.Fallible
import JavaSnippet.Proofs.Source.Words
import Mathlib.Data.List.Basic
/-!
How source spells tokens. The scan finds a token once its characters are read, and goes on with the
next character unless that would have become a part of the token.
-/
namespace JavaSnippet.Source

open Scan

/-- A word that the characters of a text could spell. -/
def isSpelledWord (text : String) : Bool :=
  match text.toList with
  | c :: rest => startsWord c && rest.all continuesWord
  | [] => false

def continuesNumber (c : Char) : Bool := Text.isDigit c || c == '_'

/-- A digit, and then digits and underscores. -/
def isDigitRun : List Char → Bool
  | c :: rest => Text.isDigit c && rest.all continuesNumber
  | [] => false

/-- The number that the digits among the characters spell in base ten. -/
def decimalValue (run : List Char) : Nat :=
  (run.filter Text.isDigit).foldl (fun n c => n * 10 + (c.toNat - '0'.toNat)) 0

/-- Characters that stand between quotes for the characters of a text. -/
inductive Unquotes : List Char → List Char → Prop where
  | done : Unquotes [] []
  | plain {c : Char} {body text : List Char} (noQuote : c ≠ '"') (noBackslash : c ≠ '\\')
      (noNewline : c ≠ '\n') (rest : Unquotes body text) : Unquotes (c :: body) (c :: text)
  | escaped {e c : Char} {body text : List Char} (means : escaped? e = some c)
      (rest : Unquotes body text) : Unquotes ('\\' :: e :: body) (c :: text)

/-- The characters spell the token. -/
inductive Token.SpelledAs : Token → List Char → Prop where
  | word {text : String} (isWord : isSpelledWord text = true) :
      SpelledAs (.word text) text.toList
  | int {run : List Char} {value : UInt64} (isRun : isDigitRun run = true)
      (spells : decimalValue run = value.toNat) : SpelledAs (.int value) run
  | long {run : List Char} {value : UInt64} {suffix : Char} (isRun : isDigitRun run = true)
      (spells : decimalValue run = value.toNat) (isSuffix : suffix = 'l' ∨ suffix = 'L') :
      SpelledAs (.long value) (run ++ [suffix])
  | string {text : String} {body : List Char} (means : Unquotes body text.toList) :
      SpelledAs (.string text) ('"' :: (body ++ ['"']))
  | punct {c : Char} (isPunct : c ∈ punctuation) : SpelledAs (.punct c) [c]

/-- Whether a character right after the token would be taken for a part of it, or not be allowed
there. -/
def Token.runsInto : Token → Char → Bool
  | .word _, c => continuesWord c
  | .int _, c => spoilsNumber c || c == '_'
  | .long _, c => spoilsNumber c
  | .string _, _ => false
  | .punct p, c => p == '/' && (c == '/' || c == '*')

theorem continuesNumber_of_isDigitRun {run : List Char} (h : isDigitRun run = true) :
    ∀ c ∈ run, continuesNumber c = true := by
  cases run with
  | nil => cases h
  | cons c rest =>
    obtain ⟨digit, others⟩ := Bool.and_eq_true_iff.mp h
    rw [List.forall_mem_cons, continuesNumber, digit]
    exact ⟨rfl, List.all_eq_true.mp others⟩

namespace Scan

/-- Scans a text to its end. -/
def through (s : State) (text : List Char) : Except LexFault State :=
  text.foldlM step s >>= finish

/-- After a token, the state goes on like the state in which the token is found, unless the next
character runs into the token. -/
structure Pends (t : Token) (pending found : State) : Prop where
  step : ∀ c, t.runsInto c = false → Scan.step pending c = Scan.step found c
  finish : Scan.finish pending = Scan.finish found

theorem pends_refl (t : Token) (s : State) : Pends t s s := ⟨fun _ _ => rfl, rfl⟩

theorem through_append {s t : State} {front : List Char} (h : front.foldlM step s = .ok t)
    (back : List Char) : through s (front ++ back) = through t back := by
  rw [through, foldlM_append, h]
  rfl

theorem Pends.through {t : Token} {pending found : State} (h : Pends t pending found)
    {text : List Char} (apart : ∀ c rest, text = c :: rest → t.runsInto c = false) :
    Scan.through pending text = Scan.through found text := by
  cases text with
  | nil => exact h.finish
  | cons c rest =>
    rw [Scan.through, Scan.through, List.foldlM_cons, List.foldlM_cons, h.step c (apart c rest rfl)]

/-- What a check finds for all of the code points holds for characters that have one of them. -/
theorem of_code_points {p : Char → Bool} {points : List Nat}
    (h : (points.all fun point => p (Char.ofNat point)) = true) {c : Char}
    (here : c.toNat ∈ points) : p c = true := by
  have holds := List.all_eq_true.mp h c.toNat here
  rwa [Char.ofNat_toNat] at holds

theorem isLetterOrNumber_of_isBlank {c : Char} (h : Text.isBlank c = true) :
    Text.isLetterOrNumber c = false := by
  obtain ⟨range, here, within⟩ := List.any_eq_true.mp h
  simp only [Bool.and_eq_true, decide_eq_true_eq] at within
  have point : c.toNat ∈ Text.blankRanges.flatMap fun range =>
      List.range' range.1 (range.2 - range.1 + 1) :=
    List.mem_flatMap.mpr ⟨range, here, List.mem_range'_1.mpr (by omega)⟩
  have none := of_code_points (p := fun c => !Text.isLetterOrNumber c) (by decide +kernel) point
  simpa using none

theorem isBlank_of_continuesWord {c : Char} (h : continuesWord c = true) :
    Text.isBlank c = false := by
  by_contra blank
  rw [Bool.not_eq_false] at blank
  simp only [continuesWord, isLetterOrNumber_of_isBlank blank, Bool.false_or, Bool.or_eq_true,
    beq_iff_eq] at h
  rcases h with rfl | rfl
  · exact absurd blank (by decide)
  · exact absurd blank (by decide)

theorem runsInto_of_isBlank (t : Token) {c : Char} (h : Text.isBlank c = true) :
    t.runsInto c = false := by
  have number : spoilsNumber c = false := by
    rw [spoilsNumber, isLetterOrNumber_of_isBlank h, Bool.false_or, beq_eq_false_iff_ne]
    rintro rfl
    exact absurd h (by decide)
  have only : ∀ d, Text.isBlank d = false → (c == d) = false := by
    intro d visible
    rw [beq_eq_false_iff_ne]
    rintro rfl
    exact absurd (h.symm.trans visible) (by decide)
  cases t with
  | word text =>
    rw [Token.runsInto, ← Bool.not_eq_true]
    intro continues
    exact absurd (h.symm.trans (isBlank_of_continuesWord continues)) (by decide)
  | int value => rw [Token.runsInto, number, only '_' (by decide), Bool.or_self]
  | long value => rw [Token.runsInto, number]
  | string text => rfl
  | punct p =>
    rw [Token.runsInto, only '/' (by decide), only '*' (by decide), Bool.or_self, Bool.and_false]

theorem startsWord_of_isDigit {c : Char} (h : Text.isDigit c = true) : startsWord c = false := by
  have within : 48 ≤ c.toNat ∧ c.toNat ≤ 57 := by
    simpa [Text.isDigit, Char.le_def, UInt32.le_iff_toNat_le] using h
  have point : c.toNat ∈ List.range' 48 10 := List.mem_range'_1.mpr (by omega)
  have none := of_code_points (p := fun c => !startsWord c) (by decide) point
  simpa using none

section Tokens

variable (line : Nat) (found : List Lexeme)

theorem begin_word {c : Char} (h : startsWord c = true) :
    begin ⟨.start, line, found⟩ c = .ok ⟨.word [c], line, found⟩ := by
  have visible := isBlank_of_continuesWord (continuesWord_of_startsWord h)
  have noNewline : c ≠ '\n' := by
    rintro rfl
    exact absurd visible (by decide)
  have noSlash : c ≠ '/' := by
    rintro rfl
    exact absurd h (by decide)
  have noDigit : Text.isDigit c ≠ true := by
    intro digit
    exact absurd (h.symm.trans (startsWord_of_isDigit digit)) (by decide)
  rw [begin, if_neg noNewline, if_neg (by rw [visible]; decide), if_neg noSlash, if_neg noDigit,
    if_pos h]

theorem begin_digit {c : Char} (h : Text.isDigit c = true) :
    begin ⟨.start, line, found⟩ c = .ok ⟨.number [c], line, found⟩ := by
  have continues : continuesWord c = true := by
    rw [continuesWord, Text.isLetterOrNumber, h]
    simp
  have visible := isBlank_of_continuesWord continues
  have noNewline : c ≠ '\n' := by
    rintro rfl
    exact absurd h (by decide)
  have noSlash : c ≠ '/' := by
    rintro rfl
    exact absurd h (by decide)
  rw [begin, if_neg noNewline, if_neg (by rw [visible]; decide), if_neg noSlash, if_pos h]

theorem foldlM_word {text : List Char} (chars : List Char)
    (h : ∀ c ∈ text, continuesWord c = true) :
    text.foldlM step ⟨.word chars, line, found⟩ =
      .ok ⟨.word (text.reverse ++ chars), line, found⟩ := by
  induction text generalizing chars with
  | nil => rfl
  | cons c text ih =>
    have first : step ⟨.word chars, line, found⟩ c = .ok ⟨.word (c :: chars), line, found⟩ :=
      if_pos (h c List.mem_cons_self)
    rw [List.foldlM_cons, first, List.reverse_cons, List.append_assoc]
    exact ih (c :: chars) fun d here => h d (List.mem_cons_of_mem c here)

theorem foldlM_number {text : List Char} (digits : List Char)
    (h : ∀ c ∈ text, continuesNumber c = true) :
    text.foldlM step ⟨.number digits, line, found⟩ =
      .ok ⟨.number ((text.filter Text.isDigit).reverse ++ digits), line, found⟩ := by
  induction text generalizing digits with
  | nil => rfl
  | cons c text ih =>
    have others : ∀ d ∈ text, continuesNumber d = true := fun d here =>
      h d (List.mem_cons_of_mem c here)
    rw [List.foldlM_cons]
    by_cases digit : Text.isDigit c = true
    · have first : step ⟨.number digits, line, found⟩ c =
          .ok ⟨.number (c :: digits), line, found⟩ := if_pos digit
      rw [first, List.filter_cons_of_pos digit, List.reverse_cons, List.append_assoc]
      exact ih (c :: digits) others
    · obtain rfl : c = '_' := by simpa [continuesNumber, digit] using h c List.mem_cons_self
      rw [List.filter_cons_of_neg digit]
      exact ih digits others

theorem foldlM_digitRun {run : List Char} (h : isDigitRun run = true) :
    run.foldlM step ⟨.start, line, found⟩ =
      .ok ⟨.number (run.filter Text.isDigit).reverse, line, found⟩ := by
  cases run with
  | nil => cases h
  | cons c rest =>
    obtain ⟨digit, others⟩ := Bool.and_eq_true_iff.mp h
    have first : step ⟨.start, line, found⟩ c = .ok ⟨.number [c], line, found⟩ :=
      begin_digit line found digit
    rw [List.foldlM_cons, first, List.filter_cons_of_pos digit, List.reverse_cons]
    exact foldlM_number line found [c] (List.all_eq_true.mp others)

/-- The token of a line. -/
abbrev after (t : Token) : State := ⟨.start, line, ⟨t, line⟩ :: found⟩

theorem emitNumber_eq_ok {mode : Mode} {run : List Char} {token : UInt64 → Token} {s : State} :
    emitNumber ⟨mode, line, found⟩ (run.filter Text.isDigit).reverse token = .ok s ↔
      ∃ value : UInt64, decimalValue run = value.toNat ∧ s = after line found (token value) := by
  have read : ((run.filter Text.isDigit).reverse.reverse.foldl
      (fun n c => n * 10 + (c.toNat - '0'.toNat)) 0) = decimalValue run := by
    rw [List.reverse_reverse, decimalValue]
  rw [emitNumber, read]
  constructor
  · intro h
    split at h
    · rename_i small
      exact ⟨_, (UInt64.toNat_ofNat_of_lt' small).symm, (Except.ok.inj h).symm⟩
    · cases h
  · rintro ⟨value, spells, rfl⟩
    rw [spells, if_pos value.toNat_lt, Nat.toUInt64_eq, UInt64.ofNat_toNat]
    rfl

theorem pends_int {run : List Char} {value : UInt64} (isRun : isDigitRun run = true)
    (spells : decimalValue run = value.toNat) : ∃ pending,
    run.foldlM step ⟨.start, line, found⟩ = .ok pending ∧
      Pends (.int value) pending (after line found (.int value)) := by
  have emitted : emitNumber ⟨.number (run.filter Text.isDigit).reverse, line, found⟩
      (run.filter Text.isDigit).reverse .int = .ok (after line found (.int value)) :=
    (emitNumber_eq_ok line found).mpr ⟨value, spells, rfl⟩
  refine ⟨_, foldlM_digitRun line found isRun, fun c apart => ?_, emitted⟩
  obtain ⟨noSpoiler, noGap⟩ := Bool.or_eq_false_iff.mp apart
  have noLetter := (Bool.or_eq_false_iff.mp noSpoiler).1
  have noDigit : ¬ Text.isDigit c = true := by
    intro digit
    rw [Text.isLetterOrNumber, digit] at noLetter
    simp at noLetter
  have noSuffix : ¬ (c = 'l' ∨ c = 'L') := by
    rintro (rfl | rfl)
    · exact absurd noLetter (by decide)
    · exact absurd noLetter (by decide)
  simp only [step, if_neg noDigit, if_neg (ne_of_beq_false noGap), if_neg noSuffix, noSpoiler,
    emitted]
  rfl

theorem foldlM_long {run : List Char} {suffix : Char} (isRun : isDigitRun run = true)
    (isSuffix : suffix = 'l' ∨ suffix = 'L') :
    (run ++ [suffix]).foldlM step ⟨.start, line, found⟩ =
      .ok ⟨.longNumber (run.filter Text.isDigit).reverse, line, found⟩ := by
  rw [foldlM_append, foldlM_digitRun line found isRun]
  rcases isSuffix with rfl | rfl <;> rfl

theorem pends_long {run : List Char} {value : UInt64} {suffix : Char}
    (isRun : isDigitRun run = true) (spells : decimalValue run = value.toNat)
    (isSuffix : suffix = 'l' ∨ suffix = 'L') : ∃ pending,
    (run ++ [suffix]).foldlM step ⟨.start, line, found⟩ = .ok pending ∧
      Pends (.long value) pending (after line found (.long value)) := by
  have emitted : emitNumber ⟨.longNumber (run.filter Text.isDigit).reverse, line, found⟩
      (run.filter Text.isDigit).reverse .long = .ok (after line found (.long value)) :=
    (emitNumber_eq_ok line found).mpr ⟨value, spells, rfl⟩
  refine ⟨_, foldlM_long line found isRun isSuffix, fun c apart => ?_, emitted⟩
  rw [Token.runsInto] at apart
  simp only [step, apart, emitted]
  rfl

theorem foldlM_unquotes {body text : List Char} (h : Unquotes body text) (chars : List Char) :
    body.foldlM step ⟨.string chars, line, found⟩ =
      .ok ⟨.string (text.reverse ++ chars), line, found⟩ := by
  induction h generalizing chars with
  | done => rfl
  | @plain c body text noQuote noBackslash noNewline rest ih =>
    have first : step ⟨.string chars, line, found⟩ c = .ok ⟨.string (c :: chars), line, found⟩ := by
      simp only [step, if_neg noQuote, if_neg noBackslash, if_neg noNewline]
    rw [List.foldlM_cons, first, List.reverse_cons, List.append_assoc]
    exact ih (c :: chars)
  | @escaped e c body text means rest ih =>
    have first : step ⟨.string chars, line, found⟩ '\\' = .ok ⟨.escape chars, line, found⟩ := rfl
    have second : step ⟨.escape chars, line, found⟩ e =
        .ok ⟨.string (c :: chars), line, found⟩ := by
      simp only [step, means]
    rw [List.foldlM_cons, first, List.reverse_cons, List.append_assoc]
    refine Eq.trans ?_ (ih (c :: chars))
    exact (List.foldlM_cons ..).trans (congrArg (fun s => s >>= body.foldlM step) second)

theorem foldlM_string {text : String} {body : List Char} (means : Unquotes body text.toList) :
    ('"' :: (body ++ ['"'])).foldlM step ⟨.start, line, found⟩ =
      .ok (after line found (.string text)) := by
  have first : step ⟨.start, line, found⟩ '"' = .ok ⟨.string [], line, found⟩ := rfl
  have whole : String.ofList text.toList.reverse.reverse = text := by
    rw [List.reverse_reverse, String.ofList_toList]
  rw [List.foldlM_cons, first]
  show (body ++ ['"']).foldlM step ⟨.string [], line, found⟩ = _
  rw [foldlM_append, foldlM_unquotes line found means, List.append_nil]
  show Except.ok (State.emit ⟨.string text.toList.reverse, line, found⟩
    (.string (String.ofList text.toList.reverse.reverse))) = _
  rw [whole]
  rfl

theorem pends_word {text : String} (h : isSpelledWord text = true) :
    ∃ pending, text.toList.foldlM step ⟨.start, line, found⟩ = .ok pending ∧
      Pends (.word text) pending (after line found (.word text)) := by
  unfold isSpelledWord at h
  split at h
  · rename_i c rest spelled
    obtain ⟨starts, continues⟩ := Bool.and_eq_true_iff.mp h
    have first : step ⟨.start, line, found⟩ c = .ok ⟨.word [c], line, found⟩ :=
      begin_word line found starts
    have whole : String.ofList (rest.reverse ++ [c]).reverse = text := by
      rw [List.reverse_append, List.reverse_reverse, List.reverse_singleton, List.singleton_append,
        ← spelled, String.ofList_toList]
    refine ⟨⟨.word (rest.reverse ++ [c]), line, found⟩, ?_, ?_⟩
    · rw [spelled, List.foldlM_cons, first]
      exact foldlM_word line found [c] fun d here => List.all_eq_true.mp continues d here
    · constructor
      · intro d ends
        rw [Token.runsInto] at ends
        simp only [step, ends, State.emit, whole]
        rfl
      · simp only [finish, State.emit, whole]
  · cases h

theorem pends_punct {c : Char} (h : c ∈ punctuation) : ∃ pending,
    [c].foldlM step ⟨.start, line, found⟩ = .ok pending ∧
      Pends (.punct c) pending (after line found (.punct c)) := by
  by_cases slash : c = '/'
  · rw [slash]
    refine ⟨⟨.slash, line, found⟩, rfl, fun d apart => ?_, rfl⟩
    obtain ⟨noSlash, noStar⟩ : d ≠ '/' ∧ d ≠ '*' := by simpa [Token.runsInto] using apart
    simp only [step, if_neg noSlash, if_neg noStar]
    rfl
  · refine ⟨after line found (.punct c), ?_, pends_refl _ _⟩
    have listed : c ∈ ['(', ')', '\x7b', '\x7d', '[', ']', ';', ',', '.', '=', '+', '-', '*', '/',
        '%'] := h
    simp only [List.mem_cons, List.not_mem_nil, or_false, slash, false_or] at listed
    rcases listed with rfl | rfl | rfl | rfl | rfl | rfl | rfl | rfl | rfl | rfl | rfl | rfl | rfl |
      rfl <;> rfl

/-- A token is found once characters that spell it are read. -/
theorem pends_spelled {t : Token} {chars : List Char} (h : t.SpelledAs chars) : ∃ pending,
    chars.foldlM step ⟨.start, line, found⟩ = .ok pending ∧
      Pends t pending (after line found t) := by
  cases h with
  | word isWord => exact pends_word line found isWord
  | int isRun spells => exact pends_int line found isRun spells
  | long isRun spells isSuffix => exact pends_long line found isRun spells isSuffix
  | string means => exact ⟨_, foldlM_string line found means, pends_refl _ _⟩
  | punct isPunct => exact pends_punct line found isPunct

end Tokens

end Scan

end JavaSnippet.Source
