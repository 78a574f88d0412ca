import JavaSnippet.Proofs.Fallible
import JavaSnippet.Source.Token
/-!
The words of a text. A word token is made of the characters that continue a word and of no others,
so no name in source is one of the names with angle brackets that methods have inside class files.
-/
namespace JavaSnippet.Source

open Scan

def IsWord (text : String) : Prop := ∀ c ∈ text.toList, continuesWord c = true

theorem IsWord.bracket_not_mem {text : String} (h : IsWord text) : '<' ∉ text.toList :=
  fun bracket => absurd (h '<' bracket) (by decide)

theorem IsWord.ne_init {text : String} (h : IsWord text) : text ≠ "<init>" := by
  rintro rfl
  exact h.bracket_not_mem (by decide)

theorem IsWord.ne_clinit {text : String} (h : IsWord text) : text ≠ "<clinit>" := by
  rintro rfl
  exact h.bracket_not_mem (by decide)

def Token.IsPlain : Token → Prop
  | .word text => IsWord text
  | _ => True

theorem isPlain_int (value : UInt64) : (Token.int value).IsPlain := trivial

theorem isPlain_long (value : UInt64) : (Token.long value).IsPlain := trivial

/-- All word tokens are words. -/
def Plain (tokens : List Lexeme) : Prop := ∀ x ∈ tokens, x.token.IsPlain

theorem plain_cons {x : Lexeme} {tokens : List Lexeme} :
    Plain (x :: tokens) ↔ x.token.IsPlain ∧ Plain tokens := List.forall_mem_cons

namespace Scan

def Mode.IsPlain : Mode → Prop
  | .word chars => ∀ c ∈ chars, continuesWord c = true
  | _ => True

/-- The word under way and the words found are words. -/
structure State.IsPlain (s : State) : Prop where
  mode : s.mode.IsPlain
  found : Plain s.found

theorem continuesWord_of_startsWord {c : Char} (h : startsWord c = true) :
    continuesWord c = true := by
  simp only [startsWord, Bool.or_eq_true] at h
  simp only [continuesWord, Text.isLetterOrNumber, Bool.or_eq_true]
  rcases h with (letter | underscore) | dollar
  · exact .inl (.inl (.inl (.inl letter)))
  · exact .inl (.inr underscore)
  · exact .inr dollar

theorem isPlain_emit {s : State} {token : Token} (found : Plain s.found) (plain : token.IsPlain) :
    (s.emit token).IsPlain := ⟨trivial, plain_cons.mpr ⟨plain, found⟩⟩

theorem isWord_reverse {chars : List Char} (h : ∀ c ∈ chars, continuesWord c = true) :
    IsWord (String.ofList chars.reverse) := by
  intro c here
  rw [String.toList_ofList] at here
  exact h c (List.mem_reverse.mp here)

theorem begin_plain {s t : State} {c : Char} (found : Plain s.found) (h : begin s c = .ok t) :
    t.IsPlain := by
  unfold begin at h
  split at h
  · rw [← Except.ok.inj h]
    exact ⟨trivial, found⟩
  split at h
  · rw [← Except.ok.inj h]
    exact ⟨trivial, found⟩
  split at h
  · rw [← Except.ok.inj h]
    exact ⟨trivial, found⟩
  split at h
  · rw [← Except.ok.inj h]
    exact ⟨trivial, found⟩
  split at h
  · rename_i starts
    rw [← Except.ok.inj h]
    refine ⟨?_, found⟩
    intro d here
    rw [List.mem_singleton.mp here]
    exact continuesWord_of_startsWord starts
  split at h
  · rw [← Except.ok.inj h]
    exact ⟨trivial, found⟩
  split at h
  · rw [← Except.ok.inj h]
    exact isPlain_emit found trivial
  · cases h

theorem emitNumber_plain {s t : State} {digits : List Char} {token : UInt64 → Token}
    (found : Plain s.found) (plain : ∀ value, (token value).IsPlain)
    (h : emitNumber s digits token = .ok t) : t.IsPlain := by
  unfold emitNumber at h
  simp only at h
  split at h
  · rw [← Except.ok.inj h]
    exact isPlain_emit found (plain _)
  · cases h

/-- A number that ends makes room for the next character. -/
theorem number_plain {s t : State} {digits : List Char} {token : UInt64 → Token} {c : Char}
    (found : Plain s.found) (plain : ∀ value, (token value).IsPlain)
    (h : (do begin (← emitNumber s digits token) c) = .ok t) : t.IsPlain := by
  obtain ⟨u, ended, begun⟩ := except_bind_eq_ok.mp h
  exact begin_plain (emitNumber_plain found plain ended).found begun

theorem step_plain {s t : State} {c : Char} (plain : s.IsPlain) (h : step s c = .ok t) :
    t.IsPlain := by
  obtain ⟨mode, line, tokens⟩ := s
  have found : Plain tokens := plain.found
  unfold step at h
  cases mode with
  | start => exact begin_plain found h
  | slash =>
    simp only at h
    split at h
    · rw [← Except.ok.inj h]
      exact ⟨trivial, found⟩
    split at h
    · rw [← Except.ok.inj h]
      exact ⟨trivial, found⟩
    · have slash : (Token.punct '/').IsPlain := trivial
      exact begin_plain (isPlain_emit found slash).found h
  | lineComment =>
    simp only at h
    split at h
    · rw [← Except.ok.inj h]
      exact ⟨trivial, found⟩
    · rw [← Except.ok.inj h]
      exact plain
  | blockComment afterStar openLine =>
    simp only at h
    split at h
    · rw [← Except.ok.inj h]
      exact ⟨trivial, found⟩
    · rw [← Except.ok.inj h]
      exact ⟨trivial, found⟩
  | number digits =>
    simp only at h
    split at h
    · rw [← Except.ok.inj h]
      exact ⟨trivial, found⟩
    split at h
    · rw [← Except.ok.inj h]
      exact plain
    split at h
    · rw [← Except.ok.inj h]
      exact ⟨trivial, found⟩
    split at h
    · cases h
    · exact number_plain found isPlain_int h
  | longNumber digits =>
    simp only at h
    split at h
    · cases h
    · exact number_plain found isPlain_long h
  | word chars =>
    have continues : ∀ d ∈ chars, continuesWord d = true := plain.mode
    simp only at h
    split at h
    · rename_i another
      rw [← Except.ok.inj h]
      exact ⟨List.forall_mem_cons.mpr ⟨another, continues⟩, found⟩
    · have word : (Token.word (String.ofList chars.reverse)).IsPlain := isWord_reverse continues
      exact begin_plain (isPlain_emit found word).found h
  | string chars =>
    simp only at h
    split at h
    · rw [← Except.ok.inj h]
      exact isPlain_emit found trivial
    split at h
    · rw [← Except.ok.inj h]
      exact ⟨trivial, found⟩
    split at h
    · cases h
    · rw [← Except.ok.inj h]
      exact ⟨trivial, found⟩
  | escape chars =>
    simp only at h
    split at h
    · rw [← Except.ok.inj h]
      exact ⟨trivial, found⟩
    · cases h

theorem foldlM_step_plain {text : List Char} {s t : State} (plain : s.IsPlain)
    (h : text.foldlM step s = .ok t) : t.IsPlain := by
  induction text generalizing s with
  | nil =>
    rw [← Except.ok.inj h]
    exact plain
  | cons c text ih =>
    rw [List.foldlM_cons] at h
    obtain ⟨u, first, rest⟩ := except_bind_eq_ok.mp h
    exact ih (step_plain plain first) rest

theorem finish_plain {s t : State} (plain : s.IsPlain) (h : finish s = .ok t) : t.IsPlain := by
  obtain ⟨mode, line, tokens⟩ := s
  have found : Plain tokens := plain.found
  unfold finish at h
  cases mode with
  | start =>
    rw [← Except.ok.inj h]
    exact plain
  | lineComment =>
    rw [← Except.ok.inj h]
    exact plain
  | slash =>
    rw [← Except.ok.inj h]
    exact isPlain_emit found trivial
  | number digits => exact emitNumber_plain found isPlain_int h
  | longNumber digits => exact emitNumber_plain found isPlain_long h
  | word chars =>
    rw [← Except.ok.inj h]
    exact isPlain_emit found (isWord_reverse plain.mode)
  | blockComment afterStar openLine => cases h
  | string chars => cases h
  | escape chars => cases h

end Scan

/-- The word tokens of a text are words. -/
theorem scan_plain {text : String} {lexemes : Lexemes} (h : scan text = .ok lexemes) :
    Plain lexemes.rest := by
  obtain ⟨s, scanned, finished⟩ := except_bind_eq_ok.mp h
  obtain ⟨t, ended, made⟩ := except_bind_eq_ok.mp finished
  obtain rfl := Except.ok.inj made
  have start : State.initial.IsPlain := ⟨trivial, by simp [State.initial, Plain]⟩
  have whole := finish_plain (foldlM_step_plain start scanned) ended
  intro x here
  exact whole.found x (List.mem_reverse.mp here)

end JavaSnippet.Source
