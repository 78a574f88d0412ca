import JavaSnippet.ClassFile.Constant
import Mathlib.Algebra.GroupWithZero.Nat
/-!
Look-up in a slot table. As long as every element has a width, slots ascend, so the search by
halves finds an element exactly when it was put at the slot, and adding elements changes no
earlier answer. Elements lie one behind another: each slot from the start to the next free one is
of one element, which is found at its first slot and nowhere else.
-/
namespace JavaSnippet.SlotTable

variable {α : Type _}

/-- Slots ascend and end before the next one. -/
structure Ascending (t : SlotTable α) : Prop where
  ordered : t.toList.Pairwise fun a b => a.1 < b.1
  below : ∀ entry ∈ t.toList, entry.1 < t.next

/-- The second table goes on from the first. -/
def IsPrefix (t u : SlotTable α) : Prop := t.toList <+: u.toList

/-- Elements one behind another from a slot on, each with its first slot. -/
def laidOut [Width α] (slot : Nat) : List α → List (Nat × α)
  | [] => []
  | a :: as => (slot, a) :: laidOut (slot + width a) as

theorem ascending_startingAt (start : Nat) : (startingAt start : SlotTable α).Ascending :=
  ⟨List.Pairwise.nil, by simp⟩

theorem Ascending.push [Width α] {t : SlotTable α} (h : t.Ascending) {a : α} (wide : 0 < width a) :
    (t.push a).Ascending := by
  constructor
  · rw [toList_push, List.pairwise_append]
    refine ⟨h.ordered, List.pairwise_singleton _ _, ?_⟩
    intro entry old last isLast
    rw [List.mem_singleton.mp isLast]
    exact h.below entry old
  · intro entry found
    rw [toList_push, List.mem_append, List.mem_singleton] at found
    rw [next_push]
    rcases found with old | rfl
    · have := h.below entry old
      omega
    · simp only
      omega

theorem isPrefix_refl (t : SlotTable α) : t.IsPrefix t := List.prefix_rfl

theorem IsPrefix.trans {t u v : SlotTable α} (h : t.IsPrefix u) (g : u.IsPrefix v) :
    t.IsPrefix v := List.IsPrefix.trans h g

theorem isPrefix_push [Width α] (t : SlotTable α) (a : α) : t.IsPrefix (t.push a) := by
  rw [IsPrefix, toList_push]
  exact List.prefix_append _ _

section LaidOut

variable [Width α] {n slot : Nat} {as : List α} {entry other : Nat × α}

theorem elements_laidOut (n : Nat) (as : List α) : (laidOut n as).map (·.2) = as := by
  induction as generalizing n with
  | nil => rfl
  | cons a as ih => rw [laidOut, List.map_cons, ih]

/-- The slots of an element end before the next free one, so a word that can hold the next free
slot can hold every slot. -/
theorem within_of_mem (here : entry ∈ laidOut n as) :
    n ≤ entry.1 ∧ entry.1 + width entry.2 ≤ n + (as.map width).sum := by
  induction as generalizing n with
  | nil => cases here
  | cons a as ih =>
    rw [List.map_cons, List.sum_cons]
    rcases List.mem_cons.mp here with rfl | later
    · constructor <;> simp only <;> omega
    · have := ih later
      omega

theorem behind_of_lt (here : entry ∈ laidOut n as) (there : other ∈ laidOut n as)
    (before : entry.1 < other.1) : entry.1 + width entry.2 ≤ other.1 := by
  induction as generalizing n with
  | nil => cases here
  | cons a as ih =>
    rcases List.mem_cons.mp here with rfl | later
    · rcases List.mem_cons.mp there with rfl | behind
      · exact absurd before (Nat.lt_irrefl _)
      · exact (within_of_mem behind).1
    · rcases List.mem_cons.mp there with rfl | behind
      · have := (within_of_mem later).1
        simp only at before
        omega
      · exact ih later behind

theorem exists_covering (above : n ≤ slot) (below : slot < n + (as.map width).sum) :
    ∃ entry ∈ laidOut n as, entry.1 ≤ slot ∧ slot < entry.1 + width entry.2 := by
  induction as generalizing n with
  | nil =>
    rw [List.map_nil, List.sum_nil] at below
    omega
  | cons a as ih =>
    rw [List.map_cons, List.sum_cons] at below
    by_cases first : slot < n + width a
    · exact ⟨(n, a), List.mem_cons_self, above, first⟩
    · obtain ⟨entry, later, inside⟩ := ih (n := n + width a) (by omega) (by omega)
      exact ⟨entry, List.mem_cons_of_mem _ later, inside⟩

end LaidOut

theorem append_append [Width α] (t : SlotTable α) (front back : List α) :
    t.append (front ++ back) = (t.append front).append back := List.foldl_append

theorem toList_append [Width α] (t : SlotTable α) (as : List α) :
    (t.append as).toList = t.toList ++ laidOut t.next as := by
  induction as generalizing t with
  | nil => exact (List.append_nil _).symm
  | cons a as ih =>
    have others := ih (t.push a)
    rw [toList_push, next_push, List.append_assoc] at others
    exact others

/-- Elements that are added take the slots of their widths. -/
theorem next_append [Width α] (t : SlotTable α) (as : List α) :
    (t.append as).next = t.next + (as.map width).sum := by
  induction as generalizing t with
  | nil => rfl
  | cons a as ih =>
    have first := ih (t.push a)
    rw [next_push, Nat.add_assoc] at first
    simpa [append] using first

theorem elements_append [Width α] (t : SlotTable α) (as : List α) :
    (t.append as).elements = t.elements ++ as := by
  rw [elements, toList_append, List.map_append, elements_laidOut]
  rfl

theorem Ascending.append [Width α] {t : SlotTable α} (h : t.Ascending) {as : List α}
    (wide : ∀ a ∈ as, 0 < width a) : (t.append as).Ascending := by
  induction as generalizing t with
  | nil => exact h
  | cons a as ih =>
    exact ih (h.push (wide a List.mem_cons_self)) fun b mem => wide b (List.mem_cons_of_mem a mem)

theorem isPrefix_append [Width α] (t : SlotTable α) (as : List α) :
    t.IsPrefix (t.append as) := by
  rw [IsPrefix, toList_append]
  exact List.prefix_append _ _

/-- Elements that are added do not come before what was there. -/
theorem le_of_mem_append [Width α] {n : Nat} {t : SlotTable α}
    (old : ∀ entry ∈ t.toList, n ≤ entry.1) (later : n ≤ t.next) (as : List α) :
    ∀ entry ∈ (t.append as).toList, n ≤ entry.1 := by
  intro entry here
  rw [toList_append, List.mem_append] at here
  rcases here with before | added
  · exact old entry before
  · exact Nat.le_trans later (within_of_mem added).1

theorem searchFrom_eq {entries : Array (Nat × α)} {slot : Nat}
    (ordered : ∀ i j, (hi : i < entries.size) → (hj : j < entries.size) → i < j →
      entries[i].1 < entries[j].1)
    {i base count : Nat} (hi : i < entries.size) (found : entries[i].1 = slot) (low : base ≤ i)
    (high : i < base + count) (fits : base + count ≤ entries.size) :
    searchFrom entries slot base count = i := by
  induction count using Nat.strongRecOn generalizing base with
  | ind count ih =>
    rw [searchFrom]
    split
    · omega
    · have inside : base + count / 2 < entries.size := by omega
      simp only [Array.getElem?_eq_getElem inside]
      split
      · rename_i less
        have before : i < base + count / 2 := by
          refine Nat.lt_of_not_le fun after => ?_
          rcases Nat.lt_or_eq_of_le after with later | same
          · have := ordered _ _ inside hi later
            omega
          · subst same
            omega
        exact ih _ (by omega) low (by omega) (by omega)
      · rename_i notLess
        have after : base + count / 2 ≤ i := by
          refine Nat.le_of_not_lt fun before => ?_
          have := ordered _ _ hi inside before
          omega
        exact ih _ (by omega) after (by omega) (by omega)

theorem mem_of_get? {t : SlotTable α} {slot : Nat} {a : α} (h : t.get? slot = some a) :
    (slot, a) ∈ t.toList := by
  unfold get? at h
  split at h
  · rename_i entry found
    split at h
    · rename_i same
      obtain rfl := Option.some.inj h
      rw [← same]
      exact Array.mem_toList_iff.mpr (Array.mem_of_getElem? found)
    · cases h
  · cases h

theorem get?_of_mem {t : SlotTable α} (h : t.Ascending) {slot : Nat} {a : α}
    (found : (slot, a) ∈ t.toList) : t.get? slot = some a := by
  obtain ⟨i, hi, entry⟩ := List.mem_iff_getElem.mp found
  have size : i < t.entries.size := by simpa [toList] using hi
  have here : t.entries[i] = (slot, a) := by simpa [toList] using entry
  have ordered := List.pairwise_iff_getElem.mp h.ordered
  have place : searchFrom t.entries slot 0 t.entries.size = i := by
    refine searchFrom_eq ?_ size (by rw [here]) (Nat.zero_le i) (by omega) (by omega)
    intro j k hj hk less
    simpa [toList] using ordered j k (by simpa [toList] using hj) (by simpa [toList] using hk) less
  rw [get?, place, Array.getElem?_eq_getElem size, here]
  simp

theorem get?_eq_some {t : SlotTable α} (h : t.Ascending) {slot : Nat} {a : α} :
    t.get? slot = some a ↔ (slot, a) ∈ t.toList :=
  ⟨mem_of_get?, get?_of_mem h⟩

theorem get?_of_isPrefix {t u : SlotTable α} (h : t.IsPrefix u) (ascending : u.Ascending)
    {slot : Nat} {a : α} (found : t.get? slot = some a) : u.get? slot = some a :=
  get?_of_mem ascending (h.subset (mem_of_get? found))

theorem get?_push_next [Width α] {t : SlotTable α} (h : t.Ascending) {a : α}
    (wide : 0 < width a) : (t.push a).get? t.next = some a := by
  apply get?_of_mem (h.push wide)
  simp

theorem elements_from_append [Width α] {n : Nat} {t : SlotTable α} (later : n ≤ t.next)
    (as : List α) :
    ((t.append as).toList.filter fun entry => n ≤ entry.1).map (·.2) =
      (t.toList.filter fun entry => n ≤ entry.1).map (·.2) ++ as := by
  have all : (laidOut t.next as).filter (fun entry => n ≤ entry.1) = laidOut t.next as := by
    rw [List.filter_eq_self]
    intro entry added
    exact decide_eq_true (Nat.le_trans later (within_of_mem added).1)
  rw [toList_append, List.filter_append, List.map_append, all, elements_laidOut]

/-- The elements that were appended are those from the first free slot on. -/
theorem elements_from_next [Width α] {t : SlotTable α} (h : t.Ascending) (as : List α) :
    ((t.append as).toList.filter fun entry => t.next ≤ entry.1).map (·.2) = as := by
  have old : t.toList.filter (fun entry => t.next ≤ entry.1) = [] := by
    rw [List.filter_eq_nil_iff]
    intro entry here
    have := h.below entry here
    simp only [decide_eq_true_eq]
    omega
  rw [elements_from_append (Nat.le_refl _), old]
  rfl

section Filled

variable [Width α] {start slot : Nat} {as : List α}

theorem toList_filled (start : Nat) (as : List α) :
    ((startingAt start).append as).toList = laidOut start as := by
  rw [toList_append, toList_startingAt, List.nil_append]
  rfl

theorem get?_filled_eq_some (wide : ∀ a ∈ as, 0 < width a) {a : α} :
    ((startingAt start).append as).get? slot = some a ↔ (slot, a) ∈ laidOut start as := by
  rw [get?_eq_some ((ascending_startingAt start).append wide), toList_filled]

/-- Only slots outside the table and those behind the first slot of an element are without an
answer. -/
theorem get?_filled_eq_none (wide : ∀ a ∈ as, 0 < width a) :
    ((startingAt start).append as).get? slot = none ↔
      slot < start ∨ ((startingAt start).append as).next ≤ slot ∨
        ∃ entry ∈ laidOut start as, entry.1 < slot ∧ slot < entry.1 + width entry.2 := by
  have next : ((startingAt start).append as).next = start + (as.map width).sum := next_append _ as
  rw [next]
  constructor
  · intro missing
    by_cases before : slot < start
    · exact .inl before
    by_cases behind : start + (as.map width).sum ≤ slot
    · exact .inr (.inl behind)
    -- A slot of the table is of some element, so without an answer it is not the first one.
    obtain ⟨entry, here, low, high⟩ :=
      exists_covering (Nat.le_of_not_lt before) (Nat.lt_of_not_le behind)
    have different : entry.1 ≠ slot := by
      rintro rfl
      rw [(get?_filled_eq_some wide).mpr here] at missing
      cases missing
    exact .inr (.inr ⟨entry, here, by omega, high⟩)
  · intro free
    rw [Option.eq_none_iff_forall_ne_some]
    intro a found
    have there := (get?_filled_eq_some wide).mp found
    have within := within_of_mem there
    have space : 0 < width a := by
      apply wide
      rw [← elements_laidOut start as]
      exact List.mem_map_of_mem there
    simp only at within
    rcases free with before | behind | ⟨entry, here, low, high⟩
    · omega
    · omega
    · have := behind_of_lt here there low
      simp only at this
      omega

end Filled

section Placing

variable {α : Type} [Width α]

/-- Adds an element and tells the slot it is put at. -/
def place (a : α) : StateM (SlotTable α) Nat := fun t => (t.next, t.push a)

end Placing

end JavaSnippet.SlotTable
