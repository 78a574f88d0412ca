import JavaSnippet.Name
import JavaSnippet.Proofs.Fallible
/-!
Names that pass their own check. Every segment of a valid class name is a valid simple name, and a
class nested in one under a valid name is named validly too.
-/
namespace JavaSnippet

/-- What follows without a separator goes on the last segment. -/
theorem splitOn_append {α : Type} [BEq α] [LawfulBEq α] {a : α} (xs : List α) {ys : List α}
    (apart : a ∉ ys) :
    ∃ front last, xs.splitOn a = front ++ [last] ∧
      (xs ++ ys).splitOn a = front ++ [last ++ ys] := by
  induction xs with
  | nil => exact ⟨[], [], List.splitOn_nil a, List.splitOn_eq_singleton apart⟩
  | cons x xs ih =>
    obtain ⟨front, last, whole, longer⟩ := ih
    rw [List.cons_append, List.splitOn_cons_eq_if_modifyHead, List.splitOn_cons_eq_if_modifyHead,
      whole, longer]
    cases x == a with
    | true => exact ⟨[] :: front, last, rfl, rfl⟩
    | false =>
      cases front with
      | nil => exact ⟨[], x :: last, rfl, rfl⟩
      | cons first front => exact ⟨(x :: first) :: front, last, rfl, rfl⟩

theorem mem_splitOn {α : Type} [BEq α] [LawfulBEq α] {a b : α} {xs : List α} (here : b ∈ xs) :
    b = a ∨ ∃ segment ∈ xs.splitOn a, b ∈ segment := by
  induction xs with
  | nil => cases here
  | cons x xs ih =>
    rw [List.splitOn_cons_eq_if_modifyHead]
    cases same : x == a with
    | true =>
      rcases List.mem_cons.mp here with rfl | later
      · exact .inl (eq_of_beq same)
      · exact (ih later).imp_right fun ⟨segment, isSegment, inside⟩ =>
          ⟨segment, List.mem_cons_of_mem _ isSegment, inside⟩
    | false =>
      obtain ⟨first, others, split⟩ := List.exists_cons_of_ne_nil (List.splitOn_ne_nil a xs)
      rw [split] at ih ⊢
      show b = a ∨ ∃ segment ∈ (x :: first) :: others, b ∈ segment
      rcases List.mem_cons.mp here with rfl | later
      · exact .inr ⟨_, List.mem_cons_self, List.mem_cons_self⟩
      · refine (ih later).imp_right fun ⟨segment, isSegment, inside⟩ => ?_
        rcases List.mem_cons.mp isSegment with rfl | other
        · exact ⟨_, List.mem_cons_self, List.mem_cons_of_mem x inside⟩
        · exact ⟨segment, List.mem_cons_of_mem _ other, inside⟩

theorem forM_eq_ok {ε α : Type} {f : α → Except ε Unit} {as : List α} :
    as.forM f = .ok () ↔ ∀ a ∈ as, f a = .ok () := by
  induction as with
  | nil => exact ⟨fun _ _ here => (by cases here), fun _ => rfl⟩
  | cons a as ih =>
    have step : (a :: as).forM f = (f a >>= fun _ => as.forM f) := rfl
    rw [List.forall_mem_cons, ← ih, step]
    cases f a with
    | error e => exact ⟨fun h => (by cases h), fun h => (by cases h.1)⟩
    | ok u => exact ⟨fun h => ⟨rfl, h⟩, fun h => h.2⟩

theorem toList_replaceChar (old new : Char) (text : String) :
    (replaceChar old new text).toList = text.toList.map fun c => if c = old then new else c :=
  String.toList_ofList

/-- Where the new character does not occur, none was put. -/
theorem replaceChar_eq_self {old new : Char} {text : String}
    (absent : new ∉ (replaceChar old new text).toList) : replaceChar old new text = text := by
  have same : ∀ c ∈ text.toList, (if c = old then new else c) = c := by
    intro c here
    split
    · rename_i isOld
      refine absurd ?_ absent
      rw [toList_replaceChar]
      exact List.mem_map.mpr ⟨c, here, if_pos isOld⟩
    · rfl
  rw [replaceChar, List.map_congr_left same, List.map_id', String.ofList_toList]

namespace SimpleName

def IsValid (name : SimpleName) : Prop := check name.text = .ok ()

theorem check_eq_ok {text : String} :
    check text = .ok () ↔ (∀ c ∈ text.toList, isIllegal c = false) ∧ text.toList ≠ [] := by
  unfold check
  cases illegal : text.toList.any isIllegal with
  | true =>
    obtain ⟨c, here, isC⟩ := List.any_eq_true.mp illegal
    refine ⟨fun h => (by cases h), fun h => ?_⟩
    rw [h.1 c here] at isC
    cases isC
  | false =>
    have legal : ∀ c ∈ text.toList, isIllegal c = false := by
      simpa using List.any_eq_false.mp illegal
    cases empty : text.isEmpty with
    | true =>
      refine ⟨fun h => (by cases h), fun h => absurd ?_ h.2⟩
      rw [String.isEmpty_iff.mp empty]
      rfl
    | false =>
      refine ⟨fun _ => ⟨legal, fun none => ?_⟩, fun _ => rfl⟩
      rw [String.toList_eq_nil_iff.mp none] at empty
      cases empty

theorem isValid_of_ofString {text : String} {name : SimpleName} (h : ofString text = .ok name) :
    name.IsValid := by
  obtain ⟨_, checked, rfl⟩ := except_map_eq_ok.mp h
  exact checked

theorem eq_of_ofString {text : String} {name : SimpleName} (h : ofString text = .ok name) :
    name = ⟨text⟩ := by
  obtain ⟨_, -, isName⟩ := except_map_eq_ok.mp h
  exact isName.symm

end SimpleName

namespace ClassName

def IsValid (name : ClassName) : Prop := check name.text = .ok ()

theorem check_eq_ok {text : String} :
    check text = .ok () ↔
      text.toList ≠ [] ∧ ∀ segment ∈ text.toList.splitOn '/',
        (∀ c ∈ segment, SimpleName.isIllegal c = false) ∧ segment ≠ [] := by
  unfold check
  cases empty : text.isEmpty with
  | true =>
    refine ⟨fun h => (by cases h), fun h => absurd ?_ h.1⟩
    rw [String.isEmpty_iff.mp empty]
    rfl
  | false =>
    have some : text.toList ≠ [] := by
      intro none
      rw [String.toList_eq_nil_iff.mp none] at empty
      cases empty
    rw [if_neg Bool.false_ne_true, forM_eq_ok, splitAtEach, List.forall_mem_map]
    simp only [SimpleName.check_eq_ok, String.toList_ofList]
    exact ⟨fun h => ⟨some, h⟩, fun h => h.2⟩

theorem isValid_of_ofString {text : String} {name : ClassName} (h : ofString text = .ok name) :
    name.IsValid := by
  obtain ⟨_, checked, rfl⟩ := except_map_eq_ok.mp h
  exact checked

theorem eq_of_ofString {text : String} {name : ClassName} (h : ofString text = .ok name) :
    name = ⟨text⟩ := by
  obtain ⟨_, -, isName⟩ := except_map_eq_ok.mp h
  exact isName.symm

variable {name : ClassName}

theorem IsValid.ofString (h : name.IsValid) : ClassName.ofString name.text = .ok name := by
  rw [ClassName.ofString, h]
  rfl

/-- No character but a slash is illegal in all segments and in the name. -/
theorem IsValid.legal (h : name.IsValid) {c : Char} (here : c ∈ name.text.toList) :
    c = '/' ∨ SimpleName.isIllegal c = false := by
  obtain ⟨-, segments⟩ := check_eq_ok.mp h
  exact (mem_splitOn here).imp_right fun ⟨segment, isSegment, inside⟩ =>
    (segments segment isSegment).1 c inside

/-- The dotted form of a valid name is read back. -/
theorem IsValid.ofDotted_dotted (h : name.IsValid) : ofDotted name.dotted = .ok name := by
  have each : ∀ c ∈ name.text.toList,
      (if (if c = '/' then '.' else c) = '.' then '/' else if c = '/' then '.' else c) = c := by
    intro c here
    rcases h.legal here with rfl | legal
    · decide
    · have dot : c ≠ '.' := by
        rintro rfl
        revert legal
        decide
      have slash : c ≠ '/' := by
        rintro rfl
        revert legal
        decide
      rw [if_neg slash, if_neg dot]
  have back : replaceChar '.' '/' name.dotted = name.text := by
    unfold dotted replaceChar
    rw [String.toList_ofList, List.map_map]
    exact (congrArg String.ofList ((List.map_congr_left each).trans (List.map_id' _))).trans
      String.ofList_toList
  rw [ofDotted, back, h.ofString]

/-- The nested class keeps all segments but the last, which grows. -/
theorem IsValid.nested (h : name.IsValid) {inner : SimpleName} (valid : inner.IsValid) :
    (name.nested inner).IsValid := by
  obtain ⟨-, segments⟩ := check_eq_ok.mp h
  obtain ⟨legal, -⟩ := SimpleName.check_eq_ok.mp valid
  have text : (name.nested inner).text.toList = name.text.toList ++ '$' :: inner.text.toList := by
    simp [ClassName.nested]
  have added : ∀ c ∈ '$' :: inner.text.toList, SimpleName.isIllegal c = false :=
    List.forall_mem_cons.mpr ⟨by decide, legal⟩
  have apart : '/' ∉ '$' :: inner.text.toList := fun here => by
    have := added '/' here
    revert this
    decide
  obtain ⟨front, last, whole, longer⟩ := splitOn_append name.text.toList apart
  rw [whole] at segments
  refine check_eq_ok.mpr ⟨by simp [text], ?_⟩
  rw [text, longer]
  intro segment here
  rcases List.mem_append.mp here with before | isLast
  · exact segments segment (List.mem_append_left _ before)
  · obtain rfl := List.mem_singleton.mp isLast
    obtain ⟨old, -⟩ := segments last (by simp)
    refine ⟨fun c inside => ?_, by simp⟩
    rcases List.mem_append.mp inside with inLast | inAdded
    · exact old c inLast
    · exact added c inAdded

end ClassName

end JavaSnippet
