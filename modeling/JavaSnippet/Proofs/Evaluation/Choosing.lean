import JavaSnippet.Proofs.Evaluation.Costs
/-!
Which method the text of a call chooses: the strict minimum of the costs of those that can take the
literals, in whatever order the class file has them.
-/
namespace JavaSnippet.Evaluation

open Target

/-- The cost of literals is the sum of their costs, if they are as many as the parameters and each
of them has one. -/
theorem costOf_eq_some_iff {ls : List Literal} {ps : List FieldType} {k : Nat} :
    costOf ls ps = some k ↔ ps.length = ls.length ∧
      ∃ costs : List Nat, List.zipWith Literal.cost ls ps = costs.map some ∧
        costs.foldr (· + ·) 0 = k := by
  induction ls generalizing ps k with
  | nil =>
    cases ps with
    | nil =>
      constructor
      · intro free
        exact ⟨rfl, [], rfl, Option.some.inj free⟩
      · rintro ⟨-, costs, none, rfl⟩
        rw [List.map_eq_nil_iff.mp none.symm]
        rfl
    | cons p ps => exact ⟨nofun, nofun⟩
  | cons l ls ih =>
    cases ps with
    | nil => exact ⟨nofun, nofun⟩
    | cons p ps =>
      rw [costOf_cons_eq_some]
      constructor
      · rintro ⟨i, first, j, rest, rfl⟩
        obtain ⟨arity, costs, all, rfl⟩ := ih.mp rest
        refine ⟨congrArg (· + 1) arity, i :: costs, ?_, rfl⟩
        rw [List.zipWith_cons_cons, List.map_cons, first, all]
      · rintro ⟨arity, costs, all, rfl⟩
        cases costs with
        | nil => cases all
        | cons i costs =>
          obtain ⟨first, rest⟩ := List.cons.inj all
          exact ⟨i, first, _, ih.mpr ⟨Nat.succ.inj arity, costs, rest, rfl⟩, rfl⟩

namespace StaticCall

section Least

variable {all seen : List (Nat × MethodType)} {b c : Nat × MethodType} {type : MethodType}

/-- The candidate costs no more than any of them. -/
abbrev IsLeast (all : List (Nat × MethodType)) (c : Nat × MethodType) : Prop :=
  ∀ other ∈ all, c.1 ≤ other.1

/-- The candidates that cost least. -/
def leastOf (all : List (Nat × MethodType)) : List (Nat × MethodType) :=
  all.filter (IsLeast all ·)

theorem mem_leastOf_iff : c ∈ leastOf all ↔ c ∈ all ∧ IsLeast all c := by
  rw [leastOf, List.mem_filter, decide_eq_true_iff]

theorem cheapest_eq (all : List (Nat × MethodType)) : cheapest all = (leastOf all).map (·.2) := by
  unfold cheapest leastOf
  cases isLeast : (all.map (·.1)).min? with
  | none =>
    rw [List.map_eq_nil_iff.mp (List.min?_eq_none_iff.mp isLeast)]
    rfl
  | some least =>
    obtain ⟨reached, bound⟩ := List.min?_eq_some_iff.mp isLeast
    refine congrArg (List.map Prod.snd) (List.filter_congr fun c here => ?_)
    rw [Bool.eq_iff_iff, beq_iff_eq, decide_eq_true_iff]
    constructor
    · rintro rfl other inside
      exact bound other.1 (List.mem_map_of_mem inside)
    · intro below
      obtain ⟨other, inside, rfl⟩ := List.mem_map.mp reached
      exact Nat.le_antisymm (below other inside) (bound c.1 (List.mem_map_of_mem here))

/-- Keeps a candidate unless one that is kept costs less, and lets go of those that it undercuts. -/
def keepCheapest (best : List (Nat × MethodType)) (c : Nat × MethodType) :
    List (Nat × MethodType) :=
  match best with
  | [] => [c]
  | b :: _ => if c.1 < b.1 then [c] else if c.1 = b.1 then best ++ [c] else best

theorem isLeast_concat : IsLeast (seen ++ [c]) b ↔ IsLeast seen b ∧ b.1 ≤ c.1 := by
  rw [IsLeast, List.forall_mem_append, List.forall_mem_singleton]

/-- Of any candidates at all, some cost least. -/
theorem eq_nil_of_leastOf (none : leastOf all = []) : all = [] := by
  cases isLeast : (all.map (·.1)).min? with
  | none => exact List.map_eq_nil_iff.mp (List.min?_eq_none_iff.mp isLeast)
  | some least =>
    obtain ⟨reached, bound⟩ := List.min?_eq_some_iff.mp isLeast
    obtain ⟨c, inside, rfl⟩ := List.mem_map.mp reached
    have found : c ∈ leastOf all :=
      mem_leastOf_iff.mpr ⟨inside, fun other here => bound other.1 (List.mem_map_of_mem here)⟩
    rw [none] at found
    cases found

theorem leastOf_concat (seen : List (Nat × MethodType)) (c : Nat × MethodType) :
    leastOf (seen ++ [c]) =
      (leastOf seen).filter (·.1 ≤ c.1) ++ if IsLeast seen c then [c] else [] := by
  have front : seen.filter (IsLeast (seen ++ [c]) ·) = (leastOf seen).filter (·.1 ≤ c.1) := by
    rw [leastOf, List.filter_filter]
    refine List.filter_congr fun b _ => ?_
    rw [← Bool.decide_and, decide_eq_decide, isLeast_concat, and_comm]
  have last : IsLeast (seen ++ [c]) c ↔ IsLeast seen c :=
    isLeast_concat.trans (and_iff_left (Nat.le_refl c.1))
  rw [leastOf, List.filter_append, front, List.filter_singleton, cond_eq_ite]
  exact congrArg _ (if_congr (decide_eq_true_iff.trans last) rfl rfl)

/-- What costs least of the candidates seen is also what is kept of them with the next one. -/
theorem keepCheapest_leastOf (seen : List (Nat × MethodType)) (c : Nat × MethodType) :
    keepCheapest (leastOf seen) c = leastOf (seen ++ [c]) := by
  rw [leastOf_concat]
  cases kept : leastOf seen with
  | nil =>
    rw [eq_nil_of_leastOf kept]
    rfl
  | cons b more =>
    have least : ∀ x ∈ b :: more, x ∈ seen ∧ IsLeast seen x := fun x inside =>
      mem_leastOf_iff.mp (kept ▸ inside)
    obtain ⟨here, bound⟩ := least b List.mem_cons_self
    have level : ∀ x ∈ b :: more, x.1 = b.1 := fun x inside =>
      Nat.le_antisymm ((least x inside).2 b here) (bound x (least x inside).1)
    have last : IsLeast seen c ↔ c.1 ≤ b.1 :=
      ⟨fun below => below b here, fun below x inside => Nat.le_trans below (bound x inside)⟩
    have front : (b :: more).filter (·.1 ≤ c.1) = if b.1 ≤ c.1 then b :: more else [] := by
      split
      · rename_i below
        exact List.filter_eq_self.mpr fun x inside => decide_eq_true (level x inside ▸ below)
      · rename_i above
        exact List.filter_eq_nil_iff.mpr fun x inside isBelow =>
          above (level x inside ▸ of_decide_eq_true isBelow)
    rw [front, keepCheapest]
    rcases Nat.lt_trichotomy c.1 b.1 with less | same | more
    · rw [if_pos less, if_neg (Nat.not_le_of_lt less), if_pos (last.mpr (Nat.le_of_lt less)),
        List.nil_append]
    · rw [if_neg (Nat.not_lt_of_le (Nat.le_of_eq same.symm)), if_pos same,
        if_pos (Nat.le_of_eq same.symm), if_pos (last.mpr (Nat.le_of_eq same))]
    · rw [if_neg (Nat.not_lt_of_lt more), if_neg (Nat.ne_of_gt more), if_pos (Nat.le_of_lt more),
        if_neg (mt last.mp (Nat.not_le_of_lt more)), List.append_nil]

/-- One pass over the candidates, with those kept that cost least so far, finds those that cost
least. -/
theorem cheapest_eq_foldl (all : List (Nat × MethodType)) :
    cheapest all = (all.foldl keepCheapest []).map (·.2) := by
  have run : ∀ seen rest : List (Nat × MethodType),
      rest.foldl keepCheapest (leastOf seen) = leastOf (seen ++ rest) := by
    intro seen rest
    induction rest generalizing seen with
    | nil => rw [List.append_nil, List.foldl_nil]
    | cons c rest ih => rw [List.foldl_cons, keepCheapest_leastOf, ih, ← List.append_cons]
  rw [cheapest_eq]
  exact congrArg (List.map Prod.snd) (run [] all).symm

theorem cheapest_eq_singleton_iff :
    cheapest all = [type] ↔ ∃ before k after, all = before ++ (k, type) :: after ∧
      ∀ c ∈ before ++ after, k < c.1 := by
  rw [cheapest_eq, List.map_eq_singleton_iff, leastOf]
  constructor
  · rintro ⟨⟨k, type⟩, one, rfl⟩
    obtain ⟨before, after, rfl, front, least, back⟩ := List.filter_eq_cons_iff.mp one
    rw [List.filter_eq_nil_iff] at back
    refine ⟨before, k, after, rfl, fun c other => ?_⟩
    have passed : ¬IsLeast (before ++ (k, type) :: after) c := by
      rcases List.mem_append.mp other with inside | inside
      · exact fun isLeast => front c inside (decide_eq_true isLeast)
      · exact fun isLeast => back c inside (decide_eq_true isLeast)
    have bound : ∀ o ∈ before ++ (k, type) :: after, k ≤ o.1 := of_decide_eq_true least
    by_contra notDearer
    exact passed fun o inside => Nat.le_trans (Nat.le_of_not_lt notDearer) (bound o inside)
  · rintro ⟨before, k, after, rfl, dearer⟩
    have least : IsLeast (before ++ (k, type) :: after) (k, type) := by
      intro c inside
      rcases List.mem_append.mp inside with front | back
      · exact Nat.le_of_lt (dearer c (List.mem_append_left _ front))
      · rcases List.mem_cons.mp back with rfl | back
        · exact Nat.le_refl k
        · exact Nat.le_of_lt (dearer c (List.mem_append_right _ back))
    have passed : ∀ c ∈ before ++ after,
        ¬decide (IsLeast (before ++ (k, type) :: after) c) = true := by
      intro c other isLeast
      have below := of_decide_eq_true isLeast (k, type)
        (List.mem_append_right _ List.mem_cons_self)
      exact Nat.not_lt_of_le below (dearer c other)
    refine ⟨(k, type), List.filter_eq_cons_iff.mpr ⟨before, after, rfl, ?_, ?_, ?_⟩, rfl⟩
    · exact fun c inside => passed c (List.mem_append_left _ inside)
    · exact decide_eq_true least
    · exact List.filter_eq_nil_iff.mpr fun c inside => passed c (List.mem_append_right _ inside)

theorem cheapest_perm {others : List (Nat × MethodType)} (same : all.Perm others) :
    (cheapest all).Perm (cheapest others) := by
  have alike : ∀ c, IsLeast all c ↔ IsLeast others c :=
    fun c => forall_congr' fun o => imp_congr_left same.mem_iff
  rw [cheapest_eq, cheapest_eq, leastOf, leastOf]
  simp only [alike]
  exact (same.filter _).map Prod.snd

end Least

section Choice

variable {file : ClassFile} {parsed : CallText} {m : ClassFile.Member .method} {type : MethodType}
  {k : Nat}

/-- The method is static, has the name that a text calls and this type, and takes the literals of
the text at this cost. -/
structure Takes (file : ClassFile) (parsed : CallText) (m : ClassFile.Member .method)
    (type : MethodType) (cost : Nat) : Prop where
  isStatic : m.flags.isStatic = true
  named : file.constants.utf8? m.name = some parsed.method
  typed : ∃ text, file.constants.utf8? m.descriptor = some text ∧ MethodType.parse text = .ok type
  arity : type.parameters.length = parsed.arguments.length
  convertible : ∃ costs : List Nat,
    List.zipWith Literal.cost parsed.arguments type.parameters = costs.map some ∧
      costs.foldr (· + ·) 0 = cost

theorem takes_iff : Takes file parsed m type k ↔ candidate? file parsed m = some (k, type) := by
  rw [candidate?_eq_some_iff, costOf_eq_some_iff]
  constructor
  · rintro ⟨isStatic, named, typed, arity, convertible⟩
    exact ⟨isStatic, named, typed, arity, convertible⟩
  · rintro ⟨isStatic, named, typed, arity, convertible⟩
    exact ⟨isStatic, named, typed, arity, convertible⟩

/-- One method of the class file takes the literals of a text, has this type, and costs less than
every other that takes them. -/
def OnlyCheapest (file : ClassFile) (parsed : CallText) (type : MethodType) : Prop :=
  ∃ before m after cost, file.methods = before ++ m :: after ∧ Takes file parsed m type cost ∧
    ∀ other ∈ before ++ after, ∀ otherType otherCost,
      Takes file parsed other otherType otherCost → cost < otherCost

theorem cheapest_candidates_iff :
    cheapest (candidates file parsed) = [type] ↔ OnlyCheapest file parsed type := by
  rw [cheapest_eq_singleton_iff]
  unfold candidates OnlyCheapest
  constructor
  · rintro ⟨front, k, back, all, dearer⟩
    obtain ⟨before, rest, methods, rfl, last⟩ := List.filterMap_eq_append_iff.mp all
    obtain ⟨skipped, m, after, rfl, none, takes, rfl⟩ := List.filterMap_eq_cons_iff.mp last
    refine ⟨before ++ skipped, m, after, k, ?_, takes_iff.mpr takes, ?_⟩
    · rw [methods, List.append_assoc]
    · intro other inside otherType cost takesOther
      have isCandidate := takes_iff.mp takesOther
      refine dearer (cost, otherType) (List.mem_append.mpr ?_)
      rcases List.mem_append.mp inside with early | late
      · rcases List.mem_append.mp early with first | between
        · exact .inl (List.mem_filterMap.mpr ⟨other, first, isCandidate⟩)
        · rw [none other between] at isCandidate
          cases isCandidate
      · exact .inr (List.mem_filterMap.mpr ⟨other, late, isCandidate⟩)
  · rintro ⟨before, m, after, k, methods, takes, dearer⟩
    refine ⟨before.filterMap (candidate? file parsed), k, after.filterMap (candidate? file parsed),
      ?_, ?_⟩
    · rw [methods, List.filterMap_append, List.filterMap_cons_some (takes_iff.mp takes)]
    · rintro ⟨cost, otherType⟩ inside
      rw [← List.filterMap_append] at inside
      obtain ⟨other, here, isCandidate⟩ := List.mem_filterMap.mp inside
      exact dearer other here otherType cost (takes_iff.mpr isCandidate)

end Choice

section Building

variable {text qualifier className : String} {generated : ClassRef} {file : ClassFile}
  {parsed : CallText} {call : StaticCall}

/-- The path is the class's name, with dots for dollar signs, or what follows a dot in that. -/
def NamesClass (qualifier className : String) : Prop :=
  qualifier = replaceChar '$' '.' className ∨
    ∃ outer, replaceChar '$' '.' className = outer ++ "." ++ qualifier

theorem namesClass_iff :
    namesClass qualifier className = true ↔ NamesClass qualifier className := by
  unfold namesClass NamesClass
  rw [Bool.or_eq_true_iff, beq_iff_eq, List.isSuffixOf_iff_suffix]
  refine or_congr_right ⟨?_, ?_⟩
  · rintro ⟨outer, same⟩
    refine ⟨String.ofList outer, String.toList_inj.mp ?_⟩
    rw [String.toList_append, String.toList_append, String.toList_ofList, ← same,
      List.append_assoc]
    rfl
  · rintro ⟨outer, same⟩
    refine ⟨outer.toList, ?_⟩
    rw [same, String.toList_append, String.toList_append, List.append_assoc]
    rfl

/-- Whether the path of a call, if there is one, names the class. -/
def checkQualifier (qualifier : Option String) (className : String) : Except CallFault Unit :=
  match qualifier with
  | some path => if namesClass path className then .ok () else .error (.otherClass path className)
  | none => .ok ()

/-- The call of the only method left. -/
def callOfOnly (generated : ClassRef) (parsed : CallText) :
    List MethodType → Except CallFault StaticCall
  | [] => .error (.noMethod parsed.method generated.name parsed.arguments.length)
  | [type] => .ok ⟨generated, parsed.method, type, parsed.arguments⟩
  | _ => .error (.ambiguous parsed.method)

theorem build_eq (text : String) (generated : ClassRef) (file : ClassFile) :
    build text generated file = (do
      let parsed ← CallText.parse text
      checkQualifier parsed.qualifier generated.name
      callOfOnly generated parsed (cheapest (candidates file parsed))) := by
  unfold build
  cases CallText.parse text with
  | error fault => rfl
  | ok parsed =>
    obtain ⟨qualifier, method, arguments⟩ := parsed
    cases qualifier with
    | none => rfl
    | some path =>
      change (if !namesClass path generated.name then _ else _) =
        ((if namesClass path generated.name then Except.ok () else Except.error _) >>= _)
      cases namesClass path generated.name <;> rfl

theorem checkQualifier_eq_ok_iff {qualifier : Option String} {done : Unit} :
    checkQualifier qualifier className = .ok done ↔
      ∀ path ∈ qualifier, NamesClass path className := by
  cases qualifier with
  | none => exact iff_of_true rfl nofun
  | some path =>
    rw [checkQualifier]
    simp only [Option.mem_some_iff, forall_eq', ← namesClass_iff]
    cases namesClass path className with
    | false => exact iff_of_false nofun nofun
    | true => exact iff_of_true rfl rfl

theorem callOfOnly_eq_ok_iff {types : List MethodType} :
    callOfOnly generated parsed types = .ok call ↔
      ∃ type, types = [type] ∧ call = ⟨generated, parsed.method, type, parsed.arguments⟩ := by
  constructor
  · intro built
    match types, built with
    | [type], rfl => exact ⟨type, rfl, rfl⟩
  · rintro ⟨type, rfl, rfl⟩
    rfl

/-- The order of the methods left does not matter. -/
theorem callOfOnly_perm {types others : List MethodType} (same : types.Perm others) :
    callOfOnly generated parsed types = callOfOnly generated parsed others := by
  match types, others, same.length_eq with
  | [], [], _ => rfl
  | [type], [other], _ => rw [List.perm_singleton.mp same]
  | _ :: _ :: _, _ :: _ :: _, _ => rfl

theorem build_eq_ok_iff : build text generated file = .ok call ↔
    ∃ parsed, CallText.parse text = .ok parsed ∧
      (∀ path ∈ parsed.qualifier, NamesClass path generated.name) ∧
      ∃ type, OnlyCheapest file parsed type ∧
        call = ⟨generated, parsed.method, type, parsed.arguments⟩ := by
  simp only [build_eq, except_bind_eq_ok, checkQualifier_eq_ok_iff, callOfOnly_eq_ok_iff,
    cheapest_candidates_iff, exists_and_left, exists_const]

theorem build_perm {methods : List (ClassFile.Member .method)} (same : methods.Perm file.methods) :
    build text generated { file with methods } = build text generated file := by
  rw [build_eq, build_eq]
  refine congrArg _ (funext fun parsed => congrArg _ (funext fun _ => ?_))
  have inside : (candidates { file with methods } parsed).Perm (candidates file parsed) :=
    same.filterMap (candidate? file parsed)
  exact callOfOnly_perm (cheapest_perm inside)

end Building

end StaticCall

end JavaSnippet.Evaluation
