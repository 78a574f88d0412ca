import JavaSnippet.ClassPath.Hierarchy
import JavaSnippet.ClassPath.Platform
import Mathlib.Logic.Relation
/-!
Ways up a class hierarchy. A search for a supertype only succeeds along such a way, so in a
hierarchy without cycles no two types are subtypes of each other.
-/
namespace JavaSnippet.ClassPath

variable {p : ClassPath} {a b : ClassName}

/-- The second name is that of a direct supertype. -/
def Extends (p : ClassPath) (sub super : ClassName) : Prop := super ∈ p.supertypes sub

/-- A number of steps, perhaps none, lead up from the first name to the second. -/
def Below (p : ClassPath) : ClassName → ClassName → Prop := Relation.ReflTransGen p.Extends

/-- No way up comes back to where it started. -/
def Acyclic (p : ClassPath) : Prop := ∀ name, ¬Relation.TransGen p.Extends name name

theorem extends_iff : p.Extends a b ↔ ∃ c, p.find? a = some c ∧ b ∈ c.supertypes := by
  unfold Extends supertypes
  cases found : p.find? a with
  | none => simp
  | some c => simp

/-- A number that gets smaller at every step up rules cycles out. -/
theorem acyclic_of_rank (rank : ClassName → Nat)
    (smaller : ∀ c ∈ p.classes, ∀ super ∈ c.supertypes, rank super < rank c.name) :
    p.Acyclic := by
  have up : ∀ {x y}, Relation.TransGen p.Extends x y → rank y < rank x := by
    intro x y way
    have step : ∀ {x y}, p.Extends x y → rank y < rank x := by
      intro x y direct
      obtain ⟨c, found, isSuper⟩ := extends_iff.mp direct
      obtain rfl : c.name = x := by simpa using List.find?_some found
      exact smaller c (List.mem_of_find?_eq_some found) y isSuper
    induction way with
    | single direct => exact step direct
    | tail _ direct ih => exact Nat.lt_trans (step direct) ih
  exact fun name cycle => Nat.lt_irrefl _ (up cycle)

/-- A way up from a set of names that holds their supertypes stays in it. -/
theorem Below.mem {names : List ClassName} (closed : ∀ x ∈ names, ∀ y ∈ p.supertypes x, y ∈ names)
    (start : a ∈ names) (way : p.Below a b) : b ∈ names := by
  induction way with
  | refl => exact start
  | tail _ direct ih => exact closed _ ih _ direct

theorem Acyclic.eq_of_below (acyclic : p.Acyclic) (up : p.Below a b) (down : p.Below b a) :
    a = b := by
  rcases Relation.reflTransGen_iff_eq_or_transGen.mp up with same | way
  · exact same.symm
  · exact absurd (way.trans_left down) (acyclic a)

section Search

theorem enqueue_cons (name : ClassName) (names toVisit seen : List ClassName) :
    enqueue (name :: names) toVisit seen =
      if name ∈ seen then enqueue names toVisit seen
      else enqueue names (name :: toVisit) (name :: seen) := by
  by_cases known : name ∈ seen
  · simp only [enqueue, List.foldl_cons, if_pos known]
  · simp only [enqueue, List.foldl_cons, if_neg known]

theorem mem_of_enqueue {x : ClassName} (names : List ClassName) {toVisit seen : List ClassName}
    (here : x ∈ (enqueue names toVisit seen).1) : x ∈ names ∨ x ∈ toVisit := by
  induction names generalizing toVisit seen with
  | nil => exact .inr here
  | cons name names ih =>
    rw [enqueue_cons] at here
    split at here
    · exact (ih here).imp_left (List.mem_cons_of_mem name)
    · rcases ih here with later | waiting
      · exact .inl (List.mem_cons_of_mem name later)
      · rcases List.mem_cons.mp waiting with rfl | before
        · exact .inl List.mem_cons_self
        · exact .inr before

/-- What waits for its visit is above the start, so what is found is. -/
theorem below_of_reaches {start target : ClassName} {rounds : Nat} {toVisit seen : List ClassName}
    (waiting : ∀ x ∈ toVisit, p.Below start x)
    (found : p.reaches target rounds toVisit seen = true) : p.Below start target := by
  induction rounds generalizing toVisit seen with
  | zero => cases found
  | succ rounds ih =>
    cases toVisit with
    | nil => cases found
    | cons next toVisit =>
      have isNext := waiting next List.mem_cons_self
      rw [reaches] at found
      split at found
      · rename_i here
        exact here ▸ isNext
      · refine ih (fun x inside => ?_) found
        rcases mem_of_enqueue _ inside with above | before
        · exact isNext.tail above
        · exact waiting x (List.mem_cons_of_mem next before)

theorem isSubclass_refl (p : ClassPath) (a : ClassName) : p.isSubclass a a = true := by
  rw [isSubclass, reaches, if_pos rfl, Bool.or_true]

theorem below_of_isSubclass (h : p.isSubclass a b = true) : b = .object ∨ p.Below a b := by
  rcases Bool.or_eq_true_iff.mp h with top | found
  · exact .inl (eq_of_beq top)
  · refine .inr (below_of_reaches (fun x here => ?_) found)
    rw [List.mem_singleton.mp here]
    exact .refl

end Search

section Order

/-- The hierarchy has no cycles, and `java/lang/Object` is at its top. -/
structure Ordered (p : ClassPath) : Prop where
  acyclic : p.Acyclic
  top : p.supertypes .object = []

variable (ordered : p.Ordered)
include ordered

theorem Ordered.below_object (h : p.Below .object a) : a = .object := by
  have closed : ∀ x ∈ [ClassName.object], ∀ y ∈ p.supertypes x, y ∈ [ClassName.object] := by
    intro x isTop y above
    rw [List.mem_singleton.mp isTop, ordered.top] at above
    cases above
  exact List.mem_singleton.mp (h.mem closed List.mem_cons_self)

theorem Ordered.eq_of_isSubclass (up : p.isSubclass a b = true) (down : p.isSubclass b a = true) :
    a = b := by
  rcases below_of_isSubclass up with rfl | above
  · rcases below_of_isSubclass down with same | back
    · exact same
    · exact ordered.below_object back
  · rcases below_of_isSubclass down with rfl | back
    · exact (ordered.below_object above).symm
    · exact ordered.acyclic.eq_of_below above back

theorem Ordered.eq_of_isSubtype {t u : FieldType} (up : p.isSubtype t u = true)
    (down : p.isSubtype u t = true) : t = u := by
  obtain ⟨first, m⟩ := t
  obtain ⟨second, n⟩ := u
  cases first with
  | base a =>
    cases second with
    | base b =>
      cases m with
      | zero => cases up
      | succ m =>
        cases n with
        | zero => cases up
        | succ n =>
          obtain ⟨sameType, sameCount⟩ := Bool.and_eq_true_iff.mp up
          rw [eq_of_beq sameType, eq_of_beq sameCount]
    | object b =>
      cases m with
      | zero => cases up
      | succ m => cases n <;> cases down
  | object a =>
    cases second with
    | base b =>
      cases n with
      | zero => cases down
      | succ n => cases m <;> cases up
    | object b =>
      cases m with
      | zero =>
        cases n with
        | zero => rw [ordered.eq_of_isSubclass up down]
        | succ n => cases up
      | succ m =>
        cases n with
        | zero => cases down
        | succ n =>
          -- Arrays of different dimensions are only related in one direction.
          rw [isSubtype] at up down
          by_cases same : m = n
          · subst same
            rw [if_pos rfl] at up down
            rw [ordered.eq_of_isSubclass up down]
          · rw [if_neg same, Bool.and_eq_true_iff, decide_eq_true_iff] at up
            rw [if_neg (Ne.symm same), Bool.and_eq_true_iff, decide_eq_true_iff] at down
            exact absurd up.1 (Nat.lt_asymm down.1)

end Order

/-- The classes of the platform that others extend, with each after its own supertypes. -/
def platformSupertypes : List ClassName :=
  [.object, .serializable, .charSequence, .comparable, .number, .throwable, .exception,
    .runtimeException]

theorem ordered_platform : platform.Ordered where
  acyclic := acyclic_of_rank platformSupertypes.idxOf (by decide +kernel)
  top := by decide +kernel

end JavaSnippet.ClassPath
