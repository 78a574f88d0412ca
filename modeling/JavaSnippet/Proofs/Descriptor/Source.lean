import JavaSnippet.Descriptor.Source
import JavaSnippet.Proofs.Fallible
import JavaSnippet.Proofs.Name
import JavaSnippet.Proofs.Text.Trimming
/-!
Types that are read from source forms. Just those texts are read in which an element stands before
pairs of brackets, with white space only around the whole and before each pair. The form that the
type itself has is one of them, so it is read as the same type.
-/
namespace JavaSnippet

open Text

theorem isBlank_replaced {old new : Char} (visible : isBlank old = isBlank new) (c : Char) :
    isBlank (if c = old then new else c) = isBlank c := by
  split
  · rename_i same
    rw [same, visible]
  · rfl

theorem BaseType.keyword_of_ofKeyword? {text : String} {t : BaseType}
    (h : ofKeyword? text = some t) : text = t.keyword := by
  have found := List.find?_some h
  exact (eq_of_beq found).symm

theorem BaseType.keyword_ne_nil (t : BaseType) : t.keyword.toList ≠ [] := by
  cases t <;> decide

theorem BaseType.not_mem_keyword (t : BaseType) :
    '[' ∉ t.keyword.toList ∧ '.' ∉ t.keyword.toList ∧ '/' ∉ t.keyword.toList := by
  cases t <;> decide

theorem BaseType.isTrimmed_keyword (t : BaseType) : IsTrimmed t.keyword.toList := by
  have letters : t.keyword.toList.any isBlank = false := by cases t <;> rfl
  have visible : ∀ c ∈ t.keyword.toList, isBlank c = false := by simpa using letters
  exact ⟨fun c here => visible c (List.mem_of_head? here),
    fun c here => visible c (List.mem_of_getLast? here)⟩

namespace ElementType

/-- Source means the element by this text. -/
def SpeltAs (text : String) : ElementType → Prop
  | base t => text = t.keyword
  | object name => BaseType.ofKeyword? text = none ∧ ClassName.ofDotted text = .ok name

/-- The source form. -/
def source : ElementType → String
  | base t => t.keyword
  | object name => name.dotted

variable {e : ElementType} {text : String}

theorem speltAs_iff : e.SpeltAs text ↔
    (match BaseType.ofKeyword? text with
      | some t => Except.ok (base t)
      | none => (ClassName.ofDotted text).map object) = .ok e := by
  cases e with
  | base t =>
    constructor
    · intro (spelt : text = t.keyword)
      rw [spelt, t.ofKeyword?_keyword]
    · intro h
      split at h
      · rename_i isKeyword
        obtain rfl := base.inj (Except.ok.inj h)
        exact BaseType.keyword_of_ofKeyword? isKeyword
      · cases named : ClassName.ofDotted text <;> rw [named] at h <;> cases h
  | object name =>
    constructor
    · rintro ⟨noKeyword, named⟩
      rw [noKeyword, named]
      rfl
    · intro h
      split at h
      · cases h
      · rename_i noKeyword
        cases named : ClassName.ofDotted text with
        | error fault =>
          rw [named] at h
          cases h
        | ok other =>
          rw [named] at h
          obtain rfl := object.inj (Except.ok.inj h)
          exact ⟨noKeyword, named⟩

theorem SpeltAs.not_mem_bracket (spelt : e.SpeltAs text) : '[' ∉ text.toList := by
  cases e with
  | base t =>
    obtain rfl : text = t.keyword := spelt
    exact t.not_mem_keyword.1
  | object name =>
    obtain ⟨-, named⟩ := spelt
    have valid := ClassName.isValid_of_ofString named
    obtain rfl := ClassName.eq_of_ofString named
    intro here
    have inName : '[' ∈ (replaceChar '.' '/' text).toList := by
      rw [toList_replaceChar]
      exact List.mem_map.mpr ⟨'[', here, by decide⟩
    have := valid.legal inName
    revert this
    decide

theorem SpeltAs.ne_nil (spelt : e.SpeltAs text) : text.toList ≠ [] := by
  cases e with
  | base t =>
    obtain rfl : text = t.keyword := spelt
    exact t.keyword_ne_nil
  | object name =>
    obtain ⟨-, named⟩ := spelt
    obtain ⟨some, -⟩ := ClassName.check_eq_ok.mp (ClassName.isValid_of_ofString named)
    obtain rfl := ClassName.eq_of_ofString named
    intro none
    rw [toList_replaceChar, none] at some
    exact some rfl

/-- A keyword has neither dots nor slashes, so it is the dotted form of no name but itself. -/
theorem SpeltAs.source (spelt : e.SpeltAs text) : e.SpeltAs e.source := by
  cases e with
  | base t => exact rfl
  | object name =>
    obtain ⟨noKeyword, named⟩ := spelt
    have valid := ClassName.isValid_of_ofString named
    refine ⟨?_, valid.ofDotted_dotted⟩
    obtain rfl := ClassName.eq_of_ofString named
    cases isKeyword : BaseType.ofKeyword? (ElementType.object _).source with
    | none => rfl
    | some t =>
      obtain ⟨-, noDot, noSlash⟩ := t.not_mem_keyword
      have dotted : replaceChar '/' '.' (replaceChar '.' '/' text) = t.keyword :=
        BaseType.keyword_of_ofKeyword? isKeyword
      have slashed := replaceChar_eq_self (dotted ▸ noDot)
      rw [slashed] at dotted
      have same := replaceChar_eq_self (dotted ▸ noSlash)
      rw [← same, dotted, t.ofKeyword?_keyword] at noKeyword
      cases noKeyword

theorem SpeltAs.isTrimmed_source (spelt : e.SpeltAs text) (trimmed : IsTrimmed text.toList) :
    IsTrimmed e.source.toList := by
  cases e with
  | base t => exact t.isTrimmed_keyword
  | object name =>
    obtain rfl := ClassName.eq_of_ofString spelt.2
    have stored : IsTrimmed (replaceChar '.' '/' text).toList := by
      rw [toList_replaceChar]
      exact trimmed.map (isBlank_replaced rfl)
    have written : IsTrimmed (replaceChar '/' '.' (replaceChar '.' '/' text)).toList := by
      rw [toList_replaceChar]
      exact stored.map (isBlank_replaced rfl)
    exact written

end ElementType

/-- An element and pairs of brackets behind it, with white space before each pair. -/
inductive Bracketed (element : List Char) : Nat → List Char → Prop
  | none : Bracketed element 0 element
  | pair {n : Nat} {text blanks : List Char} (inner : Bracketed element n text)
      (blank : AllBlank blanks) : Bracketed element (n + 1) (text ++ (blanks ++ ['[', ']']))

namespace Bracketed

variable {element text : List Char} {n : Nat}

theorem eq_append (h : Bracketed element n text) : ∃ brackets, text = element ++ brackets := by
  induction h with
  | none => exact ⟨[], (List.append_nil _).symm⟩
  | pair inner blank ih =>
    obtain ⟨brackets, rfl⟩ := ih
    exact ⟨brackets ++ _, List.append_assoc ..⟩

theorem isTrimmed (h : Bracketed element n text) (some : element ≠ [])
    (trimmed : IsTrimmed element) : IsTrimmed text := by
  constructor
  · obtain ⟨brackets, rfl⟩ := h.eq_append
    obtain ⟨c, rest, rfl⟩ := List.exists_cons_of_ne_nil some
    exact trimmed.front
  · cases h with
    | none => exact trimmed.back
    | pair inner blank =>
      intro c here
      obtain rfl : ']' = c := by simpa using here
      decide

/-- All pairs come off, and the element that has no bracket stays. -/
theorem dropPairs (h : Bracketed element n text) (some : element ≠ [])
    (trimmed : IsTrimmed element) (bare : '[' ∉ element) (count : Nat) :
    FieldType.dropPairs text.reverse count = (element.reverse, count + n) := by
  induction h generalizing count with
  | none =>
    unfold FieldType.dropPairs
    split
    · rename_i rest reversed
      refine absurd ?_ bare
      rw [← List.mem_reverse, reversed]
      simp
    · rfl
  | pair inner blank ih =>
    rename_i n text blanks
    have turned : (text ++ (blanks ++ ['[', ']'])).reverse =
        ']' :: '[' :: (blanks.reverse ++ text.reverse) := by simp
    have left : (blanks.reverse ++ text.reverse).dropWhile isBlank = text.reverse := by
      refine dropWhile_isBlank (fun c here => blank c (List.mem_reverse.mp here)) ?_
      rw [List.head?_reverse]
      exact (inner.isTrimmed some trimmed).back
    rw [turned, FieldType.dropPairs, left, ih, Nat.add_assoc, Nat.add_comm 1]

theorem of_dropPairs {reversed left : List Char} {count total : Nat}
    (h : FieldType.dropPairs reversed count = (left, total)) :
    ∃ n, total = count + n ∧ Bracketed left.reverse n reversed.reverse ∧
      ((∀ c ∈ reversed.head?, isBlank c = false) → ∀ c ∈ left.head?, isBlank c = false) := by
  fun_induction FieldType.dropPairs reversed count with
  | case1 rest count ih =>
    obtain ⟨n, rfl, bracketed, visible⟩ := ih h
    refine ⟨n + 1, by omega, ?_, fun _ => visible (head_dropWhile_isBlank rest)⟩
    have turned : (']' :: '[' :: rest).reverse =
        (rest.dropWhile isBlank).reverse ++ ((rest.takeWhile isBlank).reverse ++ ['[', ']']) := by
      rw [← List.append_assoc, ← List.reverse_append, List.takeWhile_append_dropWhile]
      simp
    rw [turned]
    exact bracketed.pair fun c here => allBlank_takeWhile rest c (List.mem_reverse.mp here)
  | case2 =>
    obtain ⟨rfl, rfl⟩ := Prod.mk.inj h
    exact ⟨0, rfl, .none, id⟩

theorem replicate (element : List Char) (n : Nat) :
    Bracketed element n (element ++ (List.replicate n ['[', ']']).flatten) := by
  induction n with
  | zero =>
    rw [List.replicate_zero, List.flatten_nil, List.append_nil]
    exact .none
  | succ n ih =>
    rw [List.replicate_succ', List.flatten_append, ← List.append_assoc]
    have nothing : AllBlank [] := nofun
    exact ih.pair nothing

end Bracketed

namespace FieldType

/-- A source form of the type: its element, brackets for its dimensions, and white space around the
whole. -/
inductive SpeltAs (text : String) (t : FieldType) : Prop
  | intro (before element middle after : List Char)
      (whole : text.toList = before ++ (middle ++ after)) (blankBefore : AllBlank before)
      (blankAfter : AllBlank after) (trimmed : IsTrimmed element)
      (bracketed : Bracketed element t.dimensions middle)
      (spelt : t.element.SpeltAs (String.ofList element))

/-- What is left without the pairs decides on the element, and their number on the dimensions. -/
theorem ofSource_of_dropPairs {text : String} {reversed : List Char} {dimensions : Nat}
    (dropped : dropPairs (trim text.toList).reverse 0 = (reversed, dimensions)) {t : FieldType} :
    ofSource text = .ok t ↔
      t.dimensions = dimensions ∧ t.element.SpeltAs (String.ofList reversed.reverse) := by
  obtain ⟨element, n⟩ := t
  rw [ElementType.speltAs_iff, ofSource, dropped]
  simp only
  cases BaseType.ofKeyword? (String.ofList reversed.reverse) with
  | some b => simp [eq_comm, and_comm]
  | none =>
    cases ClassName.ofDotted (String.ofList reversed.reverse) with
    | error fault => simp [Except.map]
    | ok name => simp [Except.map, eq_comm, and_comm]

theorem speltAs_of_ofSource {text : String} {t : FieldType} (read : ofSource text = .ok t) :
    t.SpeltAs text := by
  obtain ⟨before, after, whole, blankBefore, blankAfter, trimmed⟩ := exists_trim text.toList
  rcases dropped : dropPairs (trim text.toList).reverse 0 with ⟨reversed, dimensions⟩
  obtain ⟨isDimensions, spelt⟩ := (ofSource_of_dropPairs dropped).mp read
  obtain ⟨n, total, bracketed, visible⟩ := Bracketed.of_dropPairs dropped
  rw [Nat.zero_add] at total
  rw [List.reverse_reverse] at bracketed
  have some := spelt.ne_nil
  rw [String.toList_ofList] at some
  have element : IsTrimmed reversed.reverse := by
    constructor
    · obtain ⟨brackets, isMiddle⟩ := bracketed.eq_append
      obtain ⟨c, rest, isElement⟩ := List.exists_cons_of_ne_nil some
      have front := trimmed.front
      rw [isMiddle, isElement] at front
      rwa [isElement]
    · rw [List.getLast?_reverse]
      refine visible ?_
      rw [List.head?_reverse]
      exact trimmed.back
  rw [← total, ← isDimensions] at bracketed
  exact ⟨before, _, _, after, whole, blankBefore, blankAfter, element, bracketed, spelt⟩

theorem SpeltAs.ofSource {text : String} {t : FieldType} (h : t.SpeltAs text) :
    ofSource text = .ok t := by
  obtain ⟨before, element, middle, after, whole, blankBefore, blankAfter, trimmed, bracketed,
    spelt⟩ := h
  have some := spelt.ne_nil
  have bare := spelt.not_mem_bracket
  rw [String.toList_ofList] at some bare
  have middleSome : middle ≠ [] := by
    obtain ⟨brackets, rfl⟩ := bracketed.eq_append
    exact List.append_ne_nil_of_left_ne_nil some brackets
  have isTrim := trim_eq middleSome (bracketed.isTrimmed some trimmed) blankBefore blankAfter
  have dropped := bracketed.dropPairs some trimmed bare 0
  rw [← isTrim, ← whole] at dropped
  refine (ofSource_of_dropPairs dropped).mpr ⟨(Nat.zero_add _).symm, ?_⟩
  rwa [List.reverse_reverse]

theorem toList_source (t : FieldType) : t.source.toList =
    t.element.source.toList ++ (List.replicate t.dimensions ['[', ']']).flatten := by
  obtain ⟨element, n⟩ := t
  cases element <;> simp [source, spellWith, ElementType.source, List.flatMap_def]

/-- The form that a type itself has is read whenever any form of it is. -/
theorem SpeltAs.source {text : String} {t : FieldType} (spelt : t.SpeltAs text) :
    t.SpeltAs t.source := by
  obtain ⟨before, element, middle, after, -, -, -, trimmed, -, isElement⟩ := spelt
  refine ⟨[], t.element.source.toList, t.source.toList, [], ?_, nofun, nofun, ?_, ?_, ?_⟩
  · rw [List.append_nil, List.nil_append]
  · exact isElement.isTrimmed_source (by rwa [String.toList_ofList])
  · rw [toList_source]
    exact .replicate _ _
  · rw [String.ofList_toList]
    exact isElement.source

/-- A type that is read from some source form has a form of its own from which it is read, and no
other type that is read has the same. -/
theorem ofSource_source {text : String} {t : FieldType} (read : ofSource text = .ok t) :
    ofSource t.source = .ok t ∧
      ∀ other u, ofSource other = .ok u → u.source = t.source → u = t := by
  have again {text : String} {t : FieldType} (read : ofSource text = .ok t) :
      ofSource t.source = .ok t :=
    (speltAs_of_ofSource read).source.ofSource
  refine ⟨again read, fun other u otherRead same => ?_⟩
  have both := again otherRead
  rw [same, again read] at both
  exact (Except.ok.inj both).symm

theorem ofSource_source_strings :
    let text := "\t java/lang.String []\u2028[] "
    let t : FieldType := ⟨.object .string, 2⟩
    ofSource text = .ok t ∧ t.source = "java.lang.String[][]" ∧
      ofSource "java.lang.String[][]" = .ok t := by
  intro text t
  have read : ofSource text = .ok t := except_eq_ok_of_toOption (by decide +kernel)
  have shown : t.source = "java.lang.String[][]" := by rfl
  exact ⟨read, shown, shown ▸ (ofSource_source read).1⟩

end FieldType

end JavaSnippet
