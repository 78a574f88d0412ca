import JavaSnippet.Proofs.ClassPath.Searching
/-!
Walks up a class hierarchy, nearest supertypes first. A walk comes to each name above its start, and
for the first time in the order of their distances.
-/
namespace JavaSnippet.ClassPath

variable {p : ClassPath} {root start next x y : ClassName} {k j : Nat}
  {queue visited names now later : List ClassName}

/-- So many steps lead up from the start to the name. -/
inductive StepsUp (p : ClassPath) (start : ClassName) : Nat → ClassName → Prop where
  | here : StepsUp p start 0 start
  | step {n : Nat} {x y : ClassName} (way : StepsUp p start n x) (above : p.Extends x y) :
    StepsUp p start (n + 1) y

theorem below_iff_stepsUp : p.Below start x ↔ ∃ n, p.StepsUp start n x := by
  constructor
  · intro way
    induction way with
    | refl => exact ⟨0, .here⟩
    | tail _ above ih =>
      obtain ⟨n, way⟩ := ih
      exact ⟨n + 1, way.step above⟩
  · rintro ⟨n, way⟩
    induction way with
    | here => exact .refl
    | step _ above ih => exact ih.tail above

section Walks

/-- From a queue of names, when some were visited before, the walk comes to names one after another.
The supertypes of a name that was not visited join the queue at its end. -/
inductive Walks (p : ClassPath) : List ClassName → List ClassName → List ClassName → Prop where
  | ended {visited : List ClassName} : Walks p [] visited []
  | again {next : ClassName} {rest visited names : List ClassName} (known : next ∈ visited)
    (walk : Walks p rest visited names) : Walks p (next :: rest) visited (next :: names)
  | first {next : ClassName} {rest visited names : List ClassName} (new : next ∉ visited)
    (walk : Walks p (rest ++ p.supertypes next) (next :: visited) names) :
    Walks p (next :: rest) visited (next :: names)

/-- Every walk ends: there are fewer edges left after each first visit, and fewer names wait after
each other one. -/
theorem exists_walks (p : ClassPath) (queue visited : List ClassName) :
    ∃ names, p.Walks queue visited names := by
  induction size : queue.length + p.edgesBeyond visited using Nat.strongRecOn
    generalizing queue visited with
  | ind size ih =>
    cases queue with
    | nil => exact ⟨[], .ended⟩
    | cons next rest =>
      rw [List.length_cons] at size
      by_cases known : next ∈ visited
      · obtain ⟨names, walk⟩ := ih _ (by omega) rest visited rfl
        exact ⟨next :: names, .again known walk⟩
      · have used := edgesBeyond_visit (p := p) known
        obtain ⟨names, walk⟩ := ih _ (by rw [List.length_append]; omega)
          (rest ++ p.supertypes next) (next :: visited) rfl
        exact ⟨next :: names, .first known walk⟩

theorem Walks.eq_nil_iff (walk : p.Walks queue visited names) : names = [] ↔ queue = [] := by
  cases walk with
  | ended => exact ⟨fun _ => rfl, fun _ => rfl⟩
  | again | first => exact ⟨nofun, nofun⟩

/-- It only matters which names were visited. -/
theorem Walks.congr (walk : p.Walks queue visited names) {others : List ClassName}
    (same : ∀ x, x ∈ visited ↔ x ∈ others) : p.Walks queue others names := by
  induction walk generalizing others with
  | ended => exact .ended
  | again known _ ih => exact .again ((same _).mp known) (ih same)
  | first new _ ih =>
    exact .first (fun known => new ((same _).mpr known)) (ih fun x => by simp [same])

theorem Walks.exists_below (walk : p.Walks queue visited names) (here : x ∈ names) :
    ∃ q ∈ queue, p.Below q x := by
  induction walk with
  | ended => cases here
  | @again next rest _ _ _ _ ih =>
    rcases List.mem_cons.mp here with rfl | after
    · exact ⟨x, List.mem_cons_self, .refl⟩
    · obtain ⟨q, waits, way⟩ := ih after
      exact ⟨q, List.mem_cons_of_mem next waits, way⟩
  | @first next rest _ _ _ _ ih =>
    rcases List.mem_cons.mp here with rfl | after
    · exact ⟨x, List.mem_cons_self, .refl⟩
    · obtain ⟨q, waits, way⟩ := ih after
      rcases List.mem_append.mp waits with before | above
      · exact ⟨q, List.mem_cons_of_mem next before, way⟩
      · exact ⟨next, List.mem_cons_self, .head above way⟩

/-- Whatever waits is come to, and nothing above what was visited or come to is left out. -/
theorem Walks.closed (walk : p.Walks queue visited names)
    (before : ∀ x ∈ visited, ∀ y ∈ p.supertypes x, y ∈ visited ∨ y ∈ queue) :
    (∀ x ∈ queue, x ∈ names) ∧
      ∀ x, x ∈ visited ∨ x ∈ names → ∀ y ∈ p.supertypes x, y ∈ visited ∨ y ∈ names := by
  induction walk with
  | ended =>
    exact ⟨fun _ none => none, fun x here => before x (here.resolve_right List.not_mem_nil)⟩
  | @again next rest visited names known _ ih =>
    have kept : ∀ x ∈ visited, ∀ y ∈ p.supertypes x, y ∈ visited ∨ y ∈ rest := by
      intro x here y above
      rcases before x here y above with old | waits
      · exact .inl old
      · rcases List.mem_cons.mp waits with rfl | waits
        · exact .inl known
        · exact .inr waits
    obtain ⟨come, closed⟩ := ih kept
    refine ⟨List.forall_mem_cons.mpr ⟨List.mem_cons_self, fun x waits =>
      List.mem_cons_of_mem next (come x waits)⟩, fun x here y above => ?_⟩
    have inside : x ∈ visited ∨ x ∈ names := by
      rcases here with old | here
      · exact .inl old
      · rcases List.mem_cons.mp here with rfl | after
        · exact .inl known
        · exact .inr after
    exact (closed x inside y above).imp_right (List.mem_cons_of_mem next)
  | @first next rest visited names new _ ih =>
    have kept : ∀ x ∈ next :: visited, ∀ y ∈ p.supertypes x,
        y ∈ next :: visited ∨ y ∈ rest ++ p.supertypes next := by
      intro x here y above
      rcases List.mem_cons.mp here with rfl | old
      · exact .inr (List.mem_append_right rest above)
      · rcases before x old y above with old | waits
        · exact .inl (List.mem_cons_of_mem next old)
        · rcases List.mem_cons.mp waits with rfl | waits
          · exact .inl List.mem_cons_self
          · exact .inr (List.mem_append_left _ waits)
    obtain ⟨come, closed⟩ := ih kept
    refine ⟨List.forall_mem_cons.mpr ⟨List.mem_cons_self, fun x waits =>
      List.mem_cons_of_mem next (come x (List.mem_append_left _ waits))⟩, fun x here y above => ?_⟩
    have same : ∀ z, z ∈ next :: visited ∨ z ∈ names ↔ z ∈ visited ∨ z ∈ next :: names := by
      intro z
      simp only [List.mem_cons, or_assoc, or_left_comm]
    exact (same y).mp (closed x ((same x).mpr here) y above)

/-- Beyond names that are closed, a walk comes to everything above its start. -/
theorem Walks.mem (walk : p.Walks [start] visited names)
    (closed : ∀ x ∈ visited, ∀ y ∈ p.supertypes x, y ∈ visited) (way : p.Below start x) :
    x ∈ visited ∨ x ∈ names := by
  obtain ⟨come, all⟩ := walk.closed fun x here y above => .inl (closed x here y above)
  rw [← List.mem_append]
  refine way.mem (fun x here y above => ?_)
    (List.mem_append_right visited (come start List.mem_cons_self))
  exact List.mem_append.mpr (all x (List.mem_append.mp here) y above)

theorem Walks.mem_iff (walk : p.Walks [start] [] names) : x ∈ names ↔ p.Below start x := by
  constructor
  · intro here
    obtain ⟨q, isStart, way⟩ := walk.exists_below here
    rwa [List.mem_singleton.mp isStart] at way
  · intro way
    have none : ∀ x ∈ ([] : List ClassName), ∀ y ∈ p.supertypes x, y ∈ ([] : List ClassName) :=
      fun x here => (List.not_mem_nil here).elim
    exact (walk.mem none way).resolve_left List.not_mem_nil

end Walks

section FirstVisits

/-- The names that were not visited, where they come for the first time. -/
def firstVisits : List ClassName → List ClassName → List ClassName
  | _, [] => []
  | visited, next :: names =>
    if next ∈ visited then firstVisits visited names
    else next :: firstVisits (next :: visited) names

theorem firstVisits_again (known : next ∈ visited) :
    firstVisits visited (next :: names) = firstVisits visited names :=
  if_pos known

theorem firstVisits_first (new : next ∉ visited) :
    firstVisits visited (next :: names) = next :: firstVisits (next :: visited) names :=
  if_neg new

theorem mem_firstVisits : x ∈ firstVisits visited names ↔ x ∈ names ∧ x ∉ visited := by
  induction names generalizing visited with
  | nil => simp [firstVisits]
  | cons next names ih =>
    by_cases known : next ∈ visited
    · rw [firstVisits_again known, ih, List.mem_cons]
      refine and_congr_left fun new => ⟨.inr, fun here => here.resolve_left ?_⟩
      rintro rfl
      exact new known
    · rw [firstVisits_first known, List.mem_cons, ih, List.mem_cons, List.mem_cons]
      by_cases same : x = next
      · simp [same, known]
      · simp [same]

theorem firstVisits_congr {others : List ClassName} (same : ∀ x, x ∈ visited ↔ x ∈ others) :
    firstVisits visited names = firstVisits others names := by
  induction names generalizing visited others with
  | nil => rfl
  | cons next names ih =>
    by_cases known : next ∈ visited
    · rw [firstVisits_again known, firstVisits_again ((same next).mp known), ih same]
    · have both : ∀ x, x ∈ next :: visited ↔ x ∈ next :: others := fun x => by simp [same]
      rw [firstVisits_first known, firstVisits_first fun old => known ((same next).mpr old),
        ih both]

theorem firstVisits_append (front back : List ClassName) :
    firstVisits visited (front ++ back) =
      firstVisits visited front ++ firstVisits (front ++ visited) back := by
  induction front generalizing visited with
  | nil => rfl
  | cons next front ih =>
    rw [List.cons_append]
    by_cases known : next ∈ visited
    · rw [firstVisits_again known, firstVisits_again known, ih]
      refine congrArg _ (firstVisits_congr fun x => ⟨List.mem_cons_of_mem next, fun here => ?_⟩)
      exact (List.mem_cons.mp here).elim (· ▸ List.mem_append_right front known) id
    · rw [firstVisits_first known, firstVisits_first known, ih, List.cons_append]
      exact congrArg _ (congrArg _ (firstVisits_congr fun x => by
        simp only [List.cons_append, List.mem_append, List.mem_cons, or_left_comm]))

end FirstVisits

section Distances

/-- A walk is at a distance from its root: first the names of that distance wait that are left, then
names one step above, and all that is nearer was visited. -/
structure Level (p : ClassPath) (root : ClassName) (k : Nat) (visited now later : List ClassName) :
    Prop where
  here : ∀ x ∈ now, p.StepsUp root k x
  above : ∀ x ∈ later, p.StepsUp root (k + 1) x
  nearer : ∀ j < k, ∀ x, p.StepsUp root j x → x ∈ visited
  level : ∀ x, p.StepsUp root k x → x ∈ visited ∨ x ∈ now
  closed : ∀ x ∈ visited, ∀ y ∈ p.supertypes x, y ∈ visited ∨ y ∈ now ∨ y ∈ later

theorem level_root (root : ClassName) (closed : ∀ x ∈ visited, ∀ y ∈ p.supertypes x, y ∈ visited) :
    p.Level root 0 visited [root] [] where
  here x isRoot := List.mem_singleton.mp isRoot ▸ .here
  above x none := (List.not_mem_nil none).elim
  nearer j less := (Nat.not_lt_zero j less).elim
  level x way := by
    cases way
    exact .inr List.mem_cons_self
  closed x here y above := .inl (closed x here y above)

theorem Level.turn (h : p.Level root k visited [] later) :
    p.Level root (k + 1) visited later [] where
  here := h.above
  above x none := (List.not_mem_nil none).elim
  nearer j less x way := by
    rcases Nat.lt_succ_iff_lt_or_eq.mp less with nearer | rfl
    · exact h.nearer j nearer x way
    · exact (h.level x way).resolve_right List.not_mem_nil
  level y way := by
    cases way with
    | @step _ x _ way above =>
      have old := (h.level x way).resolve_right List.not_mem_nil
      exact (h.closed x old y above).imp_right fun waits => waits.resolve_left List.not_mem_nil
  closed x here y above :=
    (h.closed x here y above).imp_right fun waits => .inl (waits.resolve_left List.not_mem_nil)

/-- Where a name waits, it can be said at which distance it is. -/
theorem Level.exists_cons {rest : List ClassName} (h : p.Level root k visited now later)
    (waits : now ++ later = next :: rest) :
    ∃ k now later, p.Level root k visited (next :: now) later ∧ rest = now ++ later := by
  cases now with
  | cons first now =>
    cases waits
    exact ⟨k, now, later, h, rfl⟩
  | nil =>
    subst waits
    exact ⟨k + 1, rest, [], h.turn, (List.append_nil rest).symm⟩

theorem Level.again (h : p.Level root k visited (next :: now) later) (known : next ∈ visited) :
    p.Level root k visited now later where
  here x waits := h.here x (List.mem_cons_of_mem next waits)
  above := h.above
  nearer := h.nearer
  level x way := by
    rcases h.level x way with old | waits
    · exact .inl old
    · rcases List.mem_cons.mp waits with rfl | waits
      · exact .inl known
      · exact .inr waits
  closed x here y above := by
    rcases h.closed x here y above with old | waits | waits
    · exact .inl old
    · rcases List.mem_cons.mp waits with rfl | waits
      · exact .inl known
      · exact .inr (.inl waits)
    · exact .inr (.inr waits)

theorem Level.first (h : p.Level root k visited (next :: now) later) :
    p.Level root k (next :: visited) now (later ++ p.supertypes next) where
  here x waits := h.here x (List.mem_cons_of_mem next waits)
  above x waits := (List.mem_append.mp waits).elim (h.above x) fun above =>
    (h.here next List.mem_cons_self).step above
  nearer j less x way := List.mem_cons_of_mem next (h.nearer j less x way)
  level x way := by
    rcases h.level x way with old | waits
    · exact .inl (List.mem_cons_of_mem next old)
    · rcases List.mem_cons.mp waits with rfl | waits
      · exact .inl List.mem_cons_self
      · exact .inr waits
  closed x here y above := by
    rcases List.mem_cons.mp here with rfl | old
    · exact .inr (.inr (List.mem_append_right later above))
    · rcases h.closed x old y above with old | waits | waits
      · exact .inl (List.mem_cons_of_mem next old)
      · rcases List.mem_cons.mp waits with rfl | waits
        · exact .inl List.mem_cons_self
        · exact .inr (.inl waits)
      · exact .inr (.inr (List.mem_append_left _ waits))

/-- What is visited for the first time is as near as anything that was not visited before it. -/
theorem Walks.nearest {front back : List ClassName} (walk : p.Walks queue visited names)
    (h : p.Level root k visited now later) (waiting : now ++ later = queue)
    (order : firstVisits visited names = front ++ x :: back) (way : p.StepsUp root j y)
    (new : y ∉ visited) (notBefore : y ∉ front) : ∃ i ≤ j, p.StepsUp root i x := by
  induction walk generalizing k now later front with
  | ended => simp [firstVisits] at order
  | again known _ ih =>
    obtain ⟨k, now, later, h, rest⟩ := h.exists_cons waiting
    rw [firstVisits_again known] at order
    exact ih (h.again known) rest.symm order new notBefore
  | @first next _ visited _ unknown _ ih =>
    obtain ⟨k, now, later, h, rfl⟩ := h.exists_cons waiting
    rw [firstVisits_first unknown] at order
    cases front with
    | nil =>
      cases order
      refine ⟨k, ?_, h.here x List.mem_cons_self⟩
      by_contra nearer
      exact new (h.nearer j (Nat.lt_of_not_le nearer) y way)
    | cons _ front =>
      obtain ⟨rfl, rest⟩ := List.cons.inj order
      have other : y ≠ next := fun same => notBefore (same ▸ List.mem_cons_self)
      refine ih h.first (List.append_assoc ..).symm rest ?_ ?_
      · exact fun here => (List.mem_cons.mp here).elim other new
      · exact fun here => notBefore (List.mem_cons_of_mem next here)

end Distances

end JavaSnippet.ClassPath
