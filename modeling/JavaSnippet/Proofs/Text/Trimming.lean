import JavaSnippet.Text.CharClass
/-!
White space taken off the ends of a text. What is left has none at its ends, and a text that has
none is found again between any white space.
-/
namespace JavaSnippet.Text

def AllBlank (text : List Char) : Prop := ∀ c ∈ text, isBlank c = true

/-- White space stands at neither end. -/
structure IsTrimmed (text : List Char) : Prop where
  front : ∀ c ∈ text.head?, isBlank c = false
  back : ∀ c ∈ text.getLast?, isBlank c = false

theorem dropWhile_isBlank {before text : List Char} (blank : AllBlank before)
    (front : ∀ c ∈ text.head?, isBlank c = false) :
    (before ++ text).dropWhile isBlank = text := by
  rw [List.dropWhile_append_of_pos blank]
  cases text with
  | nil => rfl
  | cons c text =>
    have visible : isBlank c = false := front c rfl
    simp [visible]

theorem head_dropWhile_isBlank (text : List Char) :
    ∀ c ∈ (text.dropWhile isBlank).head?, isBlank c = false := by
  intro c here
  have stops := List.head?_dropWhile_not isBlank text
  rw [Option.mem_def.mp here] at stops
  simpa using stops

theorem allBlank_takeWhile (text : List Char) : AllBlank (text.takeWhile isBlank) :=
  List.all_eq_true.mp List.all_takeWhile

theorem trim_eq {before text after : List Char} (some : text ≠ []) (trimmed : IsTrimmed text)
    (blankBefore : AllBlank before) (blankAfter : AllBlank after) :
    trim (before ++ (text ++ after)) = text := by
  have front : ∀ c ∈ (text ++ after).head?, isBlank c = false := by
    obtain ⟨c, rest, rfl⟩ := List.exists_cons_of_ne_nil some
    exact trimmed.front
  have back : ∀ c ∈ text.reverse.head?, isBlank c = false := by
    rw [List.head?_reverse]
    exact trimmed.back
  have blank : AllBlank after.reverse := fun c here => blankAfter c (List.mem_reverse.mp here)
  rw [trim, dropWhile_isBlank blankBefore front, trimEnd, List.reverse_append,
    dropWhile_isBlank blank back, List.reverse_reverse]

theorem exists_trim (text : List Char) : ∃ before after, text = before ++ (trim text ++ after) ∧
    AllBlank before ∧ AllBlank after ∧ IsTrimmed (trim text) := by
  obtain ⟨after, blank, whole⟩ :
      ∃ after, AllBlank after ∧ text.dropWhile isBlank = trim text ++ after := by
    refine ⟨((text.dropWhile isBlank).reverse.takeWhile isBlank).reverse,
      fun c here => allBlank_takeWhile _ c (List.mem_reverse.mp here), ?_⟩
    rw [trim, trimEnd, ← List.reverse_append, List.takeWhile_append_dropWhile, List.reverse_reverse]
  refine ⟨text.takeWhile isBlank, after, ?_, allBlank_takeWhile text, blank, ?_, ?_⟩
  · rw [← whole, List.takeWhile_append_dropWhile]
  · intro c here
    refine head_dropWhile_isBlank text c ?_
    rw [whole, List.head?_append, Option.mem_def.mp here]
    rfl
  · intro c here
    refine head_dropWhile_isBlank (text.dropWhile isBlank).reverse c ?_
    rwa [trim, trimEnd, List.getLast?_reverse] at here

theorem IsTrimmed.map {text : List Char} (trimmed : IsTrimmed text) {f : Char → Char}
    (keeps : ∀ c, isBlank (f c) = isBlank c) : IsTrimmed (text.map f) := by
  constructor
  · rw [List.head?_map]
    intro c here
    obtain ⟨d, isHead, rfl⟩ := Option.map_eq_some_iff.mp here
    exact (keeps d).trans (trimmed.front d isHead)
  · rw [List.getLast?_map]
    intro c here
    obtain ⟨d, isLast, rfl⟩ := Option.map_eq_some_iff.mp here
    exact (keeps d).trans (trimmed.back d isLast)

end JavaSnippet.Text
