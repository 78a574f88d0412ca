import JavaSnippet.Proofs.ClassPath.Reachability
import Mathlib.Data.List.Nodup
/-!
The search for a supertype ends, whatever the hierarchy looks like, and it misses nothing. Every
name waits for its visit once, so each visit uses up edges that no later one follows.
-/
namespace JavaSnippet.ClassPath

variable {p : ClassPath} {start target next : ClassName} {toVisit seen done : List ClassName}

section Edges

/-- The number of steps from a class to a direct supertype, but for the classes of some names. -/
def edgesBeyond (p : ClassPath) (done : List ClassName) : Nat :=
  ((p.classes.filter (·.name ∉ done)).flatMap ClassData.supertypes).length

theorem edgesBeyond_nil (p : ClassPath) : p.edgesBeyond [] = p.edgeCount := by
  simp [edgesBeyond, edgeCount]

theorem edgesBeyond_cons (c : ClassData) (cs : List ClassData) (done : List ClassName) :
    edgesBeyond ⟨c :: cs⟩ done =
      (if c.name ∈ done then 0 else c.supertypes.length) + edgesBeyond ⟨cs⟩ done := by
  by_cases known : c.name ∈ done
  · simp [edgesBeyond, known]
  · simp [edgesBeyond, known]

theorem supertypes_cons (c : ClassData) (cs : List ClassData) (name : ClassName) :
    supertypes ⟨c :: cs⟩ name =
      if c.name = name then c.supertypes else supertypes ⟨cs⟩ name := by
  by_cases here : c.name = name
  · simp [supertypes, find?, here]
  · simp [supertypes, find?, here]

theorem edgesBeyond_mono (p : ClassPath) (next : ClassName) (done : List ClassName) :
    p.edgesBeyond (next :: done) ≤ p.edgesBeyond done := by
  obtain ⟨cs⟩ := p
  induction cs with
  | nil => exact Nat.le_refl _
  | cons c cs ih =>
    rw [edgesBeyond_cons, edgesBeyond_cons]
    refine Nat.add_le_add ?_ ih
    by_cases known : c.name ∈ done
    · rw [if_pos (List.mem_cons_of_mem next known)]
      exact Nat.zero_le _
    · rw [if_neg known]
      split
      · exact Nat.zero_le _
      · exact Nat.le_refl _

/-- A visit uses up the edges of the class. -/
theorem edgesBeyond_visit (new : next ∉ done) :
    (p.supertypes next).length + p.edgesBeyond (next :: done) ≤ p.edgesBeyond done := by
  obtain ⟨cs⟩ := p
  induction cs with
  | nil => exact Nat.le_refl _
  | cons c cs ih =>
    rw [edgesBeyond_cons, edgesBeyond_cons, supertypes_cons]
    by_cases here : c.name = next
    · subst here
      have others := edgesBeyond_mono ⟨cs⟩ c.name done
      rw [if_pos rfl, if_pos List.mem_cons_self, if_neg new]
      omega
    · have same : c.name ∈ next :: done ↔ c.name ∈ done := by simp [here]
      rw [if_neg here, if_congr same rfl rfl]
      omega

end Edges

section Loop

/-- The search from the classes still to visit ends with an answer, in however many rounds. -/
inductive Searches (p : ClassPath) (target : ClassName) :
    List ClassName → List ClassName → Bool → Prop where
  | exhausted {seen : List ClassName} : Searches p target [] seen false
  | found {toVisit seen : List ClassName} : Searches p target (target :: toVisit) seen true
  | visit {next : ClassName} {toVisit seen : List ClassName} {answer : Bool}
    (other : next ≠ target)
    (rest : Searches p target (enqueue (p.supertypes next) toVisit seen).1
      (enqueue (p.supertypes next) toVisit seen).2 answer) :
    Searches p target (next :: toVisit) seen answer

/-- What a search has come to when some classes are done with: nothing waits twice, and the
supertypes of what is done with were seen. -/
structure Searched (p : ClassPath) (start : ClassName) (done toVisit seen : List ClassName) :
    Prop where
  start : start ∈ seen
  known : ∀ x, x ∈ seen ↔ x ∈ toVisit ∨ x ∈ done
  once : toVisit.Nodup
  apart : ∀ x ∈ toVisit, x ∉ done
  closed : ∀ x ∈ done, ∀ y ∈ p.supertypes x, y ∈ seen

theorem searched_start (p : ClassPath) (start : ClassName) :
    p.Searched start [] [start] [start] where
  start := List.mem_cons_self
  known x := by simp
  once := List.nodup_singleton start
  apart _ _ := List.not_mem_nil
  closed _ none := (List.not_mem_nil none).elim

/-- What is added to the names that wait and to those seen: each new name, once. -/
theorem exists_enqueue (names toVisit seen : List ClassName) :
    ∃ new, enqueue names toVisit seen = (new ++ toVisit, new ++ seen) ∧ new.Nodup ∧
      (∀ x, x ∈ new ↔ x ∈ names ∧ x ∉ seen) ∧ new.length ≤ names.length := by
  induction names generalizing toVisit seen with
  | nil => exact ⟨[], rfl, List.nodup_nil, by simp, Nat.le_refl _⟩
  | cons name names ih =>
    rw [enqueue_cons]
    by_cases known : name ∈ seen
    · obtain ⟨new, added, once, members, short⟩ := ih toVisit seen
      rw [if_pos known]
      refine ⟨new, added, once, fun x => ?_, Nat.le_succ_of_le short⟩
      rw [members, List.mem_cons]
      refine and_congr_left fun unseen => ⟨.inr, fun here => here.resolve_left ?_⟩
      rintro rfl
      exact unseen known
    · obtain ⟨new, added, once, members, short⟩ := ih (name :: toVisit) (name :: seen)
      have apart : name ∉ new := fun here => ((members name).mp here).2 List.mem_cons_self
      rw [if_neg known]
      refine ⟨new ++ [name], by simp [added], ?_, fun x => ?_, by simpa using short⟩
      · rw [List.nodup_append]
        exact ⟨once, List.nodup_singleton name, fun a here b last same =>
          apart (List.mem_singleton.mp last ▸ same ▸ here)⟩
      · rw [List.mem_append, members, List.mem_singleton, List.mem_cons, List.mem_cons]
        by_cases same : x = name
        · simp [same, known]
        · simp [same]

theorem Searched.visit (h : p.Searched start done (next :: toVisit) seen) :
    p.Searched start (next :: done) (enqueue (p.supertypes next) toVisit seen).1
      (enqueue (p.supertypes next) toVisit seen).2 := by
  obtain ⟨new, added, once, members, -⟩ := exists_enqueue (p.supertypes next) toVisit seen
  obtain ⟨alone, others⟩ := List.nodup_cons.mp h.once
  have isSeen : next ∈ seen := (h.known next).mpr (.inl List.mem_cons_self)
  have unseen : ∀ x ∈ new, x ∉ seen := fun x here => ((members x).mp here).2
  have waits : ∀ x ∈ toVisit, x ∈ seen := fun x here =>
    (h.known x).mpr (.inl (List.mem_cons_of_mem next here))
  rw [added]
  constructor
  · exact List.mem_append_right new h.start
  · intro x
    simp only [List.mem_append, List.mem_cons, h.known x, or_assoc, or_left_comm]
  · rw [List.nodup_append]
    refine ⟨once, others, fun a here b later same => ?_⟩
    exact unseen a here (waits a (same ▸ later))
  · intro x waiting isDone
    rcases List.mem_append.mp waiting with here | later
    · rcases List.mem_cons.mp isDone with rfl | before
      · exact unseen x here isSeen
      · exact unseen x here ((h.known x).mpr (.inr before))
    · rcases List.mem_cons.mp isDone with rfl | before
      · exact alone later
      · exact h.apart x (List.mem_cons_of_mem next later) before
  · intro x isDone y above
    rcases List.mem_cons.mp isDone with rfl | before
    · by_cases old : y ∈ seen
      · exact List.mem_append_right new old
      · exact List.mem_append_left seen ((members y).mpr ⟨above, old⟩)
    · exact List.mem_append_right new (h.closed x before y above)

/-- Names that wait and edges that are left are together fewer after each visit, so with enough
rounds the search is over before they run out. -/
theorem searches_of_searched {rounds : Nat} (h : p.Searched start done toVisit seen)
    (enough : toVisit.length + p.edgesBeyond done < rounds) :
    p.Searches target toVisit seen (p.reaches target rounds toVisit seen) := by
  induction rounds generalizing done toVisit seen with
  | zero => exact absurd enough (Nat.not_lt_zero _)
  | succ rounds ih =>
    cases toVisit with
    | nil => exact .exhausted
    | cons next toVisit =>
      rw [reaches]
      split
      · rename_i here
        exact here ▸ .found
      · rename_i other
        refine .visit other (ih h.visit ?_)
        obtain ⟨new, added, -, -, short⟩ := exists_enqueue (p.supertypes next) toVisit seen
        have used := edgesBeyond_visit (p := p) (h.apart next List.mem_cons_self)
        rw [added, List.length_append]
        rw [List.length_cons] at enough
        omega

/-- A search that ends without success has seen all that is above its start. -/
theorem not_below_of_searches {answer : Bool} (ends : p.Searches target toVisit seen answer)
    (failed : answer = false) (h : p.Searched start done toVisit seen) (new : target ∉ done) :
    ¬p.Below start target := by
  induction ends generalizing done with
  | found => cases failed
  | visit other _ ih =>
    exact ih failed h.visit fun isDone => (List.mem_cons.mp isDone).elim (Ne.symm other) new
  | @exhausted seen =>
    intro way
    have all : ∀ x, x ∈ seen ↔ x ∈ done := fun x => by simp [h.known x]
    have isSeen : target ∈ seen :=
      way.mem (fun x here y above => h.closed x ((all x).mp here) y above) h.start
    exact new ((all target).mp isSeen)

end Loop

/-- The search for a subclass ends in the rounds that it is given. -/
theorem searches_reaches (p : ClassPath) (a b : ClassName) :
    p.Searches b [a] [a] (p.reaches b (p.edgeCount + 2) [a] [a]) := by
  refine searches_of_searched (searched_start p a) ?_
  rw [edgesBeyond_nil, List.length_singleton]
  omega

theorem isSubclass_iff {a b : ClassName} :
    p.isSubclass a b = true ↔ b = .object ∨ p.Below a b := by
  refine ⟨below_of_isSubclass, ?_⟩
  rintro (rfl | way)
  · rfl
  · rw [isSubclass, Bool.or_eq_true_iff]
    cases found : p.reaches b (p.edgeCount + 2) [a] [a] with
    | true => exact .inr rfl
    | false =>
      have ends := searches_reaches p a b
      rw [found] at ends
      exact absurd way (not_below_of_searches ends rfl (searched_start p a) List.not_mem_nil)

/-- On every class path, also one with cycles or gaps, the search ends, and the class is found to
be a subclass exactly when a way up leads to the other or that one is `java/lang/Object`. -/
theorem isSubclass_searches (p : ClassPath) (a b : ClassName) :
    (∃ answer, p.Searches b [a] [a] answer ∧ p.isSubclass a b = (b == .object || answer)) ∧
      (p.isSubclass a b = true ↔ b = .object ∨ p.Below a b) :=
  ⟨⟨_, searches_reaches p a b, rfl⟩, isSubclass_iff⟩

end JavaSnippet.ClassPath
