import JavaSnippet.ClassPath.Platform
import JavaSnippet.Proofs.ClassPath.Walking
/-!
The methods of a class, against the classes that it inherits from. The search for them walks up the
hierarchy, and of the methods of one type it keeps the first, so what is found is declared as near
as it can be. At the end of the walk it goes on to `java/lang/Object`, but only from a class that it
had not visited before.
-/
namespace JavaSnippet.ClassPath

variable {p : ClassPath} {start next owner : ClassName} {name : String} {t : MethodType}
  {queue visited names more rest : List ClassName} {found : List (ClassData × MethodData)}

section Kept

/-- The methods of a name that the class declares. -/
def declared (p : ClassPath) (name : String) (owner : ClassName) :
    List (ClassData × MethodData) :=
  match p.find? owner with
  | some c => (c.methods.filter (·.name == name)).map (c, ·)
  | none => []

theorem mem_declared {x : ClassData × MethodData} : x ∈ p.declared name owner ↔
    p.find? owner = some x.1 ∧ x.2 ∈ x.1.methods ∧ x.2.name = name := by
  unfold declared
  cases isClass : p.find? owner with
  | none => simp
  | some c =>
    simp only [List.mem_map, List.mem_filter, beq_iff_eq, Option.some.injEq]
    constructor
    · rintro ⟨m, ⟨here, named⟩, rfl⟩
      exact ⟨rfl, here, named⟩
    · rintro ⟨rfl, here, named⟩
      exact ⟨x.2, ⟨here, named⟩, rfl⟩

/-- The types of methods. -/
def typesOf (methods : List (ClassData × MethodData)) : List MethodType := methods.map (·.2.type)

/-- Keeps a method unless there is one of its type. -/
def keep (found : List (ClassData × MethodData)) (x : ClassData × MethodData) :
    List (ClassData × MethodData) :=
  if x.2.type ∈ typesOf found then found else found ++ [x]

def keepAll (found methods : List (ClassData × MethodData)) : List (ClassData × MethodData) :=
  methods.foldl keep found

variable {methods : List (ClassData × MethodData)}

theorem keepAll_cons (x : ClassData × MethodData) :
    keepAll found (x :: methods) = keepAll (keep found x) methods :=
  rfl

theorem mem_typesOf_keep {x : ClassData × MethodData} :
    t ∈ typesOf (keep found x) ↔ t ∈ typesOf found ∨ t = x.2.type := by
  unfold keep
  split
  · rename_i known
    exact ⟨.inl, fun here => here.elim id (· ▸ known)⟩
  · simp [typesOf]

theorem mem_typesOf_keepAll :
    t ∈ typesOf (keepAll found methods) ↔ t ∈ typesOf found ∨ t ∈ typesOf methods := by
  induction methods generalizing found with
  | nil => simp [keepAll, typesOf]
  | cons x methods ih =>
    rw [keepAll_cons, ih, mem_typesOf_keep, or_assoc]
    simp only [typesOf, List.map_cons, List.mem_cons]

theorem nodup_keepAll (once : (typesOf found).Nodup) :
    (typesOf (keepAll found methods)).Nodup := by
  induction methods generalizing found with
  | nil => exact once
  | cons x methods ih =>
    refine ih ?_
    unfold keep
    split
    · exact once
    · rename_i new
      rw [typesOf, List.map_append, List.map_singleton, ← List.concat_eq_append]
      exact once.concat new

theorem mem_keepAll {x : ClassData × MethodData} (here : x ∈ keepAll found methods) :
    x ∈ found ∨ x ∈ methods ∧ x.2.type ∉ typesOf found := by
  induction methods generalizing found with
  | nil => exact .inl here
  | cons y methods ih =>
    rcases ih here with kept | ⟨later, new⟩
    · unfold keep at kept
      split at kept
      · exact .inl kept
      · rename_i new
        rcases List.mem_append.mp kept with old | last
        · exact .inl old
        · obtain rfl := List.mem_singleton.mp last
          exact .inr ⟨List.mem_cons_self, new⟩
    · exact .inr ⟨List.mem_cons_of_mem y later,
        fun old => new (mem_typesOf_keep.mpr (.inl old))⟩

/-- Methods other than constructors are looked at without regard to the class. -/
theorem addMethods_eq (ordinary : name ≠ "<init>") {c : ClassData}
    (isClass : p.find? owner = some c) :
    addMethods start name c found = keepAll found (p.declared name owner) := by
  have same : ∀ (found : List (ClassData × MethodData)) (m : MethodData),
      (if m.name ≠ name ∨ (m.name = "<init>" ∧ c.name ≠ start) then found
        else if found.any (·.2.type == m.type) then found else found ++ [(c, m)]) =
      if (m.name == name) = true then keep found (c, m) else found := by
    intro found m
    by_cases named : m.name = name
    · have notConstructor : m.name ≠ "<init>" := fun constructor => ordinary (named ▸ constructor)
      have known : found.any (·.2.type == m.type) = true ↔ m.type ∈ typesOf found := by
        simp [typesOf]
      rw [if_neg (by simp [named, ordinary]), if_pos (beq_iff_eq.mpr named)]
      exact if_congr known rfl rfl
    · rw [if_pos (.inl named), if_neg (mt eq_of_beq named)]
  rw [addMethods, declared, isClass, keepAll, List.foldl_map, List.foldl_filter]
  simp only [same]

/-- Keeps the methods of a name in the order of the classes that declare them. -/
def collect (p : ClassPath) (name : String) (found : List (ClassData × MethodData))
    (names : List ClassName) : List (ClassData × MethodData) :=
  names.foldl (fun found owner => keepAll found (p.declared name owner)) found

theorem collect_cons (owner : ClassName) (names : List ClassName) :
    p.collect name found (owner :: names) =
      p.collect name (keepAll found (p.declared name owner)) names :=
  rfl

theorem mem_typesOf_collect : t ∈ typesOf (p.collect name found names) ↔
    t ∈ typesOf found ∨ ∃ owner ∈ names, t ∈ typesOf (p.declared name owner) := by
  induction names generalizing found with
  | nil => simp [collect]
  | cons owner names ih => simp [collect_cons, ih, mem_typesOf_keepAll, or_assoc]

theorem nodup_collect (once : (typesOf found).Nodup) :
    (typesOf (p.collect name found names)).Nodup := by
  induction names generalizing found with
  | nil => exact once
  | cons owner names ih => exact ih (nodup_keepAll once)

/-- What is kept is declared by the first class that declares a method of its type. -/
theorem mem_collect {x : ClassData × MethodData} (here : x ∈ p.collect name found names) :
    x ∈ found ∨ x.2.type ∉ typesOf found ∧ ∃ front owner back, names = front ++ owner :: back ∧
      x ∈ p.declared name owner ∧ ∀ other ∈ front, x.2.type ∉ typesOf (p.declared name other) := by
  induction names generalizing found with
  | nil => exact .inl here
  | cons owner names ih =>
    rcases ih here with kept | ⟨new, front, other, back, rfl, isDeclared, first⟩
    · rcases mem_keepAll kept with old | ⟨isDeclared, new⟩
      · exact .inl old
      · exact .inr ⟨new, [], owner, names, rfl, isDeclared,
          fun _ none => (List.not_mem_nil none).elim⟩
    · rw [mem_typesOf_keepAll, not_or] at new
      exact .inr ⟨new.1, owner :: front, other, back, rfl, isDeclared,
        List.forall_mem_cons.mpr ⟨new.2, first⟩⟩

end Kept

section Loop

/-- The search ends with these methods, in however many rounds. -/
inductive MethodSearch.Ends (p : ClassPath) (start : ClassName) (name : String) :
    MethodSearch → List (ClassData × MethodData) → Prop where
  | ended {s : MethodSearch} (empty : s.toVisit = []) : Ends p start name s s.found
  | visit {s : MethodSearch} {next : ClassName} {rest : List ClassName}
    {found : List (ClassData × MethodData)} (waits : s.toVisit = next :: rest)
    (ends : Ends p start name (s.visit p start name next rest) found) : Ends p start name s found

theorem MethodSearch.Ends.unique {s : MethodSearch} {other : List (ClassData × MethodData)}
    (ends : s.Ends p start name found) (again : s.Ends p start name other) : found = other := by
  induction ends with
  | ended empty =>
    cases again with
    | ended => rfl
    | visit waits => cases empty.symm.trans waits
  | visit waits _ ih =>
    cases again with
    | ended empty => cases empty.symm.trans waits
    | visit waits' again =>
      cases waits.symm.trans waits'
      exact ih again

/-- A bound on the rounds that are left. Going on to `java/lang/Object` takes one. -/
def MethodSearch.roundsLeft (p : ClassPath) (s : MethodSearch) : Nat :=
  s.toVisit.length + p.edgesBeyond s.visited + if s.reachedObject then 0 else 1

theorem roundsLeft_visit {s : MethodSearch} (waits : s.toVisit = next :: rest) :
    (s.visit p start name next rest).roundsLeft p < s.roundsLeft p := by
  have before : s.roundsLeft p = rest.length + 1 + p.edgesBeyond s.visited +
      if s.reachedObject then 0 else 1 := by
    rw [MethodSearch.roundsLeft, waits, List.length_cons]
  rw [before, MethodSearch.visit]
  split
  · simp only [MethodSearch.roundsLeft]
    omega
  · rename_i new
    have used := edgesBeyond_visit (p := p) new
    simp only
    split
    · rename_i last
      have missed : s.reachedObject = false := by
        cases reached : s.reachedObject with
        | false => rfl
        | true => simp [reached] at last
      simp only [MethodSearch.roundsLeft, missed, List.length_singleton, if_true,
        Bool.false_eq_true, if_false]
      omega
    · have flag : (if (s.reachedObject || next == .object) = true then 0 else 1) ≤
          if s.reachedObject = true then 0 else 1 := by
        cases s.reachedObject <;> cases next == ClassName.object <;> decide
      simp only [MethodSearch.roundsLeft, List.length_append]
      omega

theorem ends_run {rounds : Nat} {s : MethodSearch} (enough : s.roundsLeft p < rounds) :
    s.Ends p start name (s.run p start name rounds) := by
  induction rounds generalizing s with
  | zero => exact absurd enough (Nat.not_lt_zero _)
  | succ rounds ih =>
    rw [MethodSearch.run]
    split
    · rename_i empty
      exact .ended empty
    · rename_i waits
      exact .visit waits (ih (Nat.lt_of_lt_of_le (roundsLeft_visit waits)
        (Nat.le_of_lt_succ enough)))

theorem ends_visibleMethods (p : ClassPath) (start : ClassName) (name : String) :
    MethodSearch.Ends p start name ⟨[start], [], [], false⟩ (p.visibleMethods start name) := by
  refine ends_run ?_
  simp only [MethodSearch.roundsLeft, edgesBeyond_nil, List.length_singleton, Bool.false_eq_true,
    if_false]
  omega

end Loop

section Order

/-- The last of the names is one that was neither visited nor come to before. -/
def EndsNew (visited names : List ClassName) : Prop :=
  ∃ front last, names = front ++ [last] ∧ last ∉ front ∧ last ∉ visited

theorem endsNew_cons : EndsNew visited (next :: names) ↔
    names = [] ∧ next ∉ visited ∨ EndsNew (next :: visited) names := by
  constructor
  · rintro ⟨front, last, same, unseen, new⟩
    cases front with
    | nil =>
      cases same
      exact .inl ⟨rfl, new⟩
    | cons first front =>
      cases same
      rw [List.mem_cons, not_or] at unseen
      exact .inr ⟨front, last, rfl, unseen.2, fun old =>
        (List.mem_cons.mp old).elim unseen.1 new⟩
  · rintro (⟨rfl, new⟩ | ⟨front, last, rfl, unseen, new⟩)
    · exact ⟨[], next, rfl, List.not_mem_nil, new⟩
    · rw [List.mem_cons, not_or] at new
      exact ⟨next :: front, last, rfl, fun here =>
        (List.mem_cons.mp here).elim new.1 unseen, new.2⟩

theorem endsNew_again (known : next ∈ visited) :
    EndsNew visited (next :: names) ↔ EndsNew visited names := by
  have same : ∀ last, last ∈ next :: visited ↔ last ∈ visited := fun last =>
    ⟨fun old => (List.mem_cons.mp old).elim (· ▸ known) id, List.mem_cons_of_mem next⟩
  rw [endsNew_cons]
  simp only [known, not_true_eq_false, and_false, false_or, EndsNew, same]

/-- The names come to after those of a walk: from `java/lang/Object` on, if the walk missed it and
ends at a new name. -/
inductive Follows (p : ClassPath) (visited names : List ClassName) : List ClassName → Prop where
  | object {more : List ClassName} (new : EndsNew visited names) (missed : .object ∉ names)
    (walk : p.Walks [.object] (names ++ visited) more) : Follows p visited names more
  | nothing (stays : EndsNew visited names → .object ∈ names) : Follows p visited names []

theorem exists_follows (p : ClassPath) (visited names : List ClassName) :
    ∃ more, p.Follows visited names more := by
  by_cases goesOn : EndsNew visited names ∧ .object ∉ names
  · obtain ⟨more, walk⟩ := exists_walks p [.object] (names ++ visited)
    exact ⟨more, .object goesOn.1 goesOn.2 walk⟩
  · exact ⟨[], .nothing fun new => by_contra fun missed => goesOn ⟨new, missed⟩⟩

theorem Follows.again (h : p.Follows visited (next :: names) more) (known : next ∈ visited)
    (other : next ≠ .object) : p.Follows visited names more := by
  cases h with
  | object new missed walk =>
    refine .object ((endsNew_again known).mp new) (fun here => missed ?_) (walk.congr fun x => ?_)
    · exact List.mem_cons_of_mem next here
    · refine ⟨fun here => ?_, List.mem_cons_of_mem next⟩
      exact (List.mem_cons.mp here).elim (· ▸ List.mem_append_right names known) id
  | nothing stays =>
    refine .nothing fun new => ?_
    exact (List.mem_cons.mp (stays ((endsNew_again known).mpr new))).resolve_left other.symm

theorem Follows.first (h : p.Follows visited (next :: names) more) (notLast : names ≠ [])
    (other : next ≠ .object) : p.Follows (next :: visited) names more := by
  have same : EndsNew visited (next :: names) ↔ EndsNew (next :: visited) names := by
    simp only [endsNew_cons, notLast, false_and, false_or]
  cases h with
  | object new missed walk =>
    refine .object (same.mp new) (fun here => missed ?_) (walk.congr fun x => ?_)
    · exact List.mem_cons_of_mem next here
    · simp only [List.cons_append, List.mem_cons, List.mem_append, or_left_comm]
  | nothing stays =>
    refine .nothing fun new => ?_
    exact (List.mem_cons.mp (stays (same.mpr new))).resolve_left other.symm

end Order

section Visits

theorem visit_again {flag : Bool} (known : next ∈ visited) :
    MethodSearch.visit ⟨queue, visited, found, flag⟩ p start name next rest =
      ⟨rest, visited, found, flag⟩ :=
  if_pos known

variable (ordinary : name ≠ "<init>")
include ordinary

theorem visit_first {flag : Bool} (new : next ∉ visited) :
    MethodSearch.visit ⟨queue, visited, found, flag⟩ p start name next rest =
      if (rest ++ p.supertypes next).isEmpty && !(flag || next == .object) then
        ⟨[.object], next :: visited, keepAll found (p.declared name next), true⟩
      else
        ⟨rest ++ p.supertypes next, next :: visited, keepAll found (p.declared name next),
          flag || next == .object⟩ := by
  have search : (name != "<init>") = true := bne_iff_ne.mpr ordinary
  rw [MethodSearch.visit, if_neg new]
  cases isClass : p.find? next with
  | none => simp only [search, Bool.and_true, declared, isClass, keepAll, List.foldl_nil]
  | some c => simp only [search, Bool.and_true, addMethods_eq ordinary isClass]

/-- Once it will not go on to `java/lang/Object`, the search is a walk. -/
theorem ends_of_reached (walk : p.Walks queue visited names) :
    MethodSearch.Ends p start name ⟨queue, visited, found, true⟩
      (p.collect name found (firstVisits visited names)) := by
  induction walk generalizing found with
  | ended => exact .ended rfl
  | again known _ ih =>
    refine .visit rfl ?_
    rw [visit_again known, firstVisits_again known]
    exact ih
  | first new _ ih =>
    refine .visit rfl ?_
    rw [visit_first ordinary new, firstVisits_first new, collect_cons]
    simp only [Bool.true_or, Bool.not_true, Bool.and_false, Bool.false_eq_true, if_false]
    exact ih

theorem ends_of_walks (walk : p.Walks queue visited names) (missed : .object ∉ visited)
    (follows : p.Follows visited names more) :
    MethodSearch.Ends p start name ⟨queue, visited, found, false⟩
      (p.collect name found (firstVisits visited (names ++ more))) := by
  induction walk generalizing found with
  | ended =>
    cases follows with
    | object new => obtain ⟨front, last, none, -⟩ := new; simp at none
    | nothing => exact .ended rfl
  | @again next _ _ _ known _ ih =>
    have other : next ≠ .object := fun same => missed (same ▸ known)
    refine .visit rfl ?_
    rw [visit_again known, List.cons_append, firstVisits_again known]
    exact ih missed (follows.again known other)
  | @first next rest visited names new walk ih =>
    refine .visit rfl ?_
    rw [visit_first ordinary new, List.cons_append, firstVisits_first new, collect_cons]
    by_cases isObject : next = .object
    · have nothing : more = [] := by
        cases follows with
        | object _ missed => exact absurd (isObject ▸ List.mem_cons_self) missed
        | nothing => rfl
      simp only [isObject, nothing, beq_self_eq_true, Bool.or_true, Bool.not_true, Bool.and_false,
        Bool.false_eq_true, if_false, List.append_nil]
      exact ends_of_reached ordinary (isObject ▸ walk)
    · have apart : .object ∉ next :: visited := fun here =>
        (List.mem_cons.mp here).elim (fun same => isObject same.symm) missed
      by_cases last : rest ++ p.supertypes next = []
      · -- Nothing is left of the walk, so the search goes on to the top.
        obtain rfl := walk.eq_nil_iff.mpr last
        have goesOn : p.Walks [.object] (next :: visited) more := by
          cases follows with
          | object _ _ walk => exact walk
          | nothing stays =>
            have here := stays (endsNew_cons.mpr (.inl ⟨rfl, new⟩))
            exact absurd (List.mem_singleton.mp here).symm isObject
        simp only [last, List.isEmpty_nil, Bool.false_or, beq_eq_false_iff_ne.mpr isObject,
          Bool.not_false, Bool.and_true, if_true, List.nil_append]
        exact ends_of_reached ordinary goesOn
      · have notLast : names ≠ [] := mt walk.eq_nil_iff.mp last
        simp only [List.isEmpty_eq_false_iff.mpr last, Bool.false_and, Bool.false_eq_true, if_false,
          Bool.false_or, beq_eq_false_iff_ne.mpr isObject]
        exact ih apart (follows.first notLast isObject)

end Visits

section Inherited

/-- How near a class is to another that declares something: none that does is nearer. -/
def Nearest (p : ClassPath) (root : ClassName) (declares : ClassName → Prop) (x : ClassName) :
    Prop :=
  ∀ owner n, declares owner → p.StepsUp root n owner → ∃ m ≤ n, p.StepsUp root m x

/-- The class whose methods are looked for has those of a class when it is below that class, or when
`java/lang/Object` is and its own walk, which comes to the names, ends at a new one. -/
def Inherits (p : ClassPath) (start : ClassName) (names : List ClassName) (owner : ClassName) :
    Prop :=
  p.Below start owner ∨ EndsNew [] names ∧ p.Below .object owner

/-- What is found of a name, when a walk from the class comes to the names. -/
structure Inherited (p : ClassPath) (start : ClassName) (name : String) (names : List ClassName)
    (found : List (ClassData × MethodData)) : Prop where
  once : (typesOf found).Nodup
  types : ∀ t, t ∈ typesOf found ↔
    ∃ owner, p.Inherits start names owner ∧ t ∈ typesOf (p.declared name owner)
  declared : ∀ x ∈ found, x ∈ p.declared name x.1.name
  nearest : ∀ x ∈ found,
    p.Nearest start (fun owner => x.2.type ∈ typesOf (p.declared name owner)) x.1.name
  /-- What is not above the class itself is declared as near to `java/lang/Object` as can be. -/
  nearestTop : ∀ x ∈ found, ¬p.Below start x.1.name →
    p.Nearest .object (fun owner => x.2.type ∈ typesOf (p.declared name owner)) x.1.name

theorem name_of_mem_declared {x : ClassData × MethodData} (h : x ∈ p.declared name owner) :
    x.1.name = owner := by
  simpa using List.find?_some (mem_declared.mp h).1

theorem mem_firstVisits_iff (walk : p.Walks [start] [] names) (follows : p.Follows [] names more) :
    owner ∈ firstVisits [] (names ++ more) ↔ p.Inherits start names owner := by
  rw [mem_firstVisits, List.mem_append, walk.mem_iff, Inherits]
  simp only [List.not_mem_nil, not_false_eq_true, and_true]
  refine or_congr_right' fun notBelow => ?_
  cases follows with
  | object new missed goesOn =>
    constructor
    · intro here
      obtain ⟨top, isTop, way⟩ := goesOn.exists_below here
      exact ⟨new, List.mem_singleton.mp isTop ▸ way⟩
    · rintro ⟨-, way⟩
      have closed := (walk.closed fun x none => (List.not_mem_nil none).elim).2
      rw [List.append_nil] at goesOn
      refine (goesOn.mem (fun x here y above => ?_) way).resolve_left fun here =>
        notBelow (walk.mem_iff.mp here)
      exact (closed x (.inr here) y above).resolve_left List.not_mem_nil
  | nothing stays =>
    refine ⟨fun none => (List.not_mem_nil none).elim, fun ⟨new, way⟩ => ?_⟩
    exact absurd ((walk.mem_iff.mp (stays new)).trans way) notBelow

/-- What stands somewhere in two lists joined stands in the first, or behind all of it. -/
theorem split_append {first second front back : List ClassName}
    (same : first ++ second = front ++ owner :: back) :
    (∃ rest, first = front ++ owner :: rest) ∨
      ∃ between, front = first ++ between ∧ second = between ++ owner :: back := by
  rcases List.append_eq_append_iff.mp same with
    ⟨between, isFront, isSecond⟩ | ⟨rest, isFirst, isBack⟩
  · exact .inr ⟨between, isFront, isSecond⟩
  · cases rest with
    | nil =>
      rw [List.append_nil] at isFirst
      exact .inr ⟨[], by rw [isFirst, List.append_nil], isBack.symm⟩
    | cons next rest =>
      obtain ⟨rfl, -⟩ := List.cons.inj isBack
      exact .inl ⟨rest, isFirst⟩

variable {front back : List ClassName} {declares : ClassName → Prop}

/-- The first class of those visited that declares something is as near as can be. -/
theorem nearest_of_first (walk : p.Walks [start] [] names)
    (order : firstVisits [] (names ++ more) = front ++ owner :: back)
    (first : ∀ other ∈ front, ¬declares other) : p.Nearest start declares owner := by
  intro other n isOther way
  have notBefore : other ∉ front := fun here => first other here isOther
  have here : other ∈ firstVisits [] names :=
    mem_firstVisits.mpr ⟨walk.mem_iff.mpr (below_iff_stepsUp.mpr ⟨n, way⟩), List.not_mem_nil⟩
  rw [firstVisits_append] at order
  rcases split_append order with ⟨rest, isFirst⟩ | ⟨between, rfl, -⟩
  · exact walk.nearest (level_root start fun x none => (List.not_mem_nil none).elim) rfl isFirst way
      List.not_mem_nil notBefore
  · exact absurd (List.mem_append_left between here) notBefore

theorem nearestTop_of_first (walk : p.Walks [start] [] names)
    (follows : p.Follows [] names more)
    (order : firstVisits [] (names ++ more) = front ++ owner :: back)
    (first : ∀ other ∈ front, ¬declares other) (notBelow : ¬p.Below start owner) :
    p.Nearest .object declares owner := by
  intro other n isOther way
  have notOther : other ∉ names := by
    intro here
    obtain ⟨k, upTo⟩ := below_iff_stepsUp.mp (walk.mem_iff.mp here)
    obtain ⟨m, -, up⟩ := nearest_of_first walk order first other k isOther upTo
    exact notBelow (below_iff_stepsUp.mpr ⟨m, up⟩)
  rw [firstVisits_append] at order
  rcases split_append order with ⟨rest, isFirst⟩ | ⟨between, rfl, isSecond⟩
  · have here : owner ∈ firstVisits [] names :=
      isFirst ▸ List.mem_append_right front List.mem_cons_self
    exact absurd (walk.mem_iff.mp (mem_firstVisits.mp here).1) notBelow
  · cases follows with
    | nothing => simp [firstVisits] at isSecond
    | object _ _ goesOn =>
      have closed := (walk.closed fun x none => (List.not_mem_nil none).elim).2
      rw [List.append_nil] at goesOn isSecond
      refine goesOn.nearest (level_root .object fun x here y above => ?_) rfl isSecond way notOther
        fun here => first other (List.mem_append_right _ here) isOther
      exact (closed x (.inr here) y above).resolve_left List.not_mem_nil

/-- For a name other than that of constructors, the search ends, and it finds one method of each
type that a class declares which is inherited from, the nearest one. The classes above
`java/lang/Object` count only if the walk ends at a new class. -/
theorem visibleMethods_inherited (ordinary : name ≠ "<init>") :
    ∃ names, p.Walks [start] [] names ∧
      MethodSearch.Ends p start name ⟨[start], [], [], false⟩ (p.visibleMethods start name) ∧
      p.Inherited start name names (p.visibleMethods start name) := by
  obtain ⟨names, walk⟩ := exists_walks p [start] []
  obtain ⟨more, follows⟩ := exists_follows p [] names
  have ends := ends_visibleMethods p start name
  have collected : p.visibleMethods start name =
      p.collect name [] (firstVisits [] (names ++ more)) :=
    ends.unique (ends_of_walks ordinary walk List.not_mem_nil follows)
  have origin : ∀ x ∈ p.visibleMethods start name, ∃ front back,
      firstVisits [] (names ++ more) = front ++ x.1.name :: back ∧ x ∈ p.declared name x.1.name ∧
        ∀ other ∈ front, x.2.type ∉ typesOf (p.declared name other) := by
    intro x here
    rw [collected] at here
    obtain none | ⟨-, front, owner, back, order, isDeclared, first⟩ := mem_collect here
    · cases none
    · obtain rfl := name_of_mem_declared isDeclared
      exact ⟨front, back, order, isDeclared, first⟩
  refine ⟨names, walk, ends, ?_, fun t => ?_, ?_, ?_, ?_⟩
  · rw [collected]
    exact nodup_collect List.nodup_nil
  · rw [collected, mem_typesOf_collect]
    simp only [mem_firstVisits_iff walk follows, typesOf, List.map_nil, List.not_mem_nil, false_or]
  · intro x here
    obtain ⟨-, -, -, isDeclared, -⟩ := origin x here
    exact isDeclared
  · intro x here
    obtain ⟨front, back, order, -, first⟩ := origin x here
    exact nearest_of_first walk order first
  · intro x here notBelow
    obtain ⟨front, back, order, -, first⟩ := origin x here
    exact nearestTop_of_first walk follows order first notBelow

/-- An interface that extends two others with one super interface, none of which has a super
class. -/
def diamond : ClassPath :=
  ⟨[⟨⟨"I"⟩, none, [⟨"J"⟩, ⟨"K"⟩], true, []⟩, ⟨⟨"J"⟩, none, [⟨"L"⟩], true, []⟩,
    ⟨⟨"K"⟩, none, [⟨"L"⟩], true, []⟩, ⟨⟨"L"⟩, none, [], true, []⟩] ++ platformClasses⟩

/-- The walk ends at `L` for the second time, so `toString` is not found. From `J` it is. -/
theorem visibleMethods_inherited_diamond :
    "toString" ≠ "<init>" ∧
      diamond.visibleMethods ⟨"I"⟩ "toString" = [] ∧
      (∃ names, diamond.Walks [⟨"I"⟩] [] names ∧
        MethodSearch.Ends diamond ⟨"I"⟩ "toString" ⟨[⟨"I"⟩], [], [], false⟩
          (diamond.visibleMethods ⟨"I"⟩ "toString") ∧
        diamond.Inherited ⟨"I"⟩ "toString" names (diamond.visibleMethods ⟨"I"⟩ "toString")) ∧
      (diamond.visibleMethods ⟨"J"⟩ "toString").map (·.1.name) = [.object] ∧
      ∃ names, diamond.Walks [⟨"J"⟩] [] names ∧
        MethodSearch.Ends diamond ⟨"J"⟩ "toString" ⟨[⟨"J"⟩], [], [], false⟩
          (diamond.visibleMethods ⟨"J"⟩ "toString") ∧
        diamond.Inherited ⟨"J"⟩ "toString" names (diamond.visibleMethods ⟨"J"⟩ "toString") :=
  ⟨by decide, by decide +kernel, visibleMethods_inherited (by decide), by decide +kernel,
    visibleMethods_inherited (by decide)⟩

end Inherited

end JavaSnippet.ClassPath
