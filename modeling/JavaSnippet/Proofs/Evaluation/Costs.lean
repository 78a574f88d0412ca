import JavaSnippet.Evaluation.StaticCall
import JavaSnippet.Proofs.ClassFile.Superclass
import JavaSnippet.Proofs.Typing.Specificity
/-!
Costs of literals, against the types that the compiler gives them. A literal has a cost exactly
where its type can be passed, and it costs no more as a more specific parameter. So where one method
is the cheapest and one is the most specific, they are the same.
-/
namespace JavaSnippet.Evaluation

open Typing

/-- The type of the literal in source. -/
def Literal.type : Literal → ExprType
  | int _ => .value .int
  | long _ => .value .long
  | boolean _ => .value .boolean
  | string _ => .value .string
  | null => .null

section Assignable

variable {path : ClassPath} {wanted : FieldType}

theorem isSubclass_string {name : ClassName} :
    ClassPath.platform.isSubclass .string name = true ↔
      name = .string ∨ name ∈ stringSupertypes := by
  constructor
  · intro above
    rcases ClassPath.below_of_isSubclass above with rfl | way
    · exact .inr (by decide)
    · have closed : ∀ x ∈ ClassName.string :: stringSupertypes,
          ∀ y ∈ ClassPath.platform.supertypes x, y ∈ ClassName.string :: stringSupertypes := by
        decide +kernel
      exact List.mem_cons.mp (way.mem closed List.mem_cons_self)
  · have all : ∀ x ∈ ClassName.string :: stringSupertypes,
        ClassPath.platform.isSubclass .string x = true := by
      decide +kernel
    exact fun isAbove => all name (List.mem_cons.mpr isAbove)

theorem isAssignable_int :
    isAssignable path (.value .int) wanted = true ↔ wanted = .int ∨ wanted = .long := by
  constructor
  · intro h
    obtain ⟨b, rfl, wider⟩ := isAssignable_base h
    cases b with
    | int => exact .inl rfl
    | long => exact .inr rfl
    | _ => cases wider
  · rintro (rfl | rfl) <;> rfl

/-- A base type that does not widen only stands for itself. -/
theorem isAssignable_widest {a : BaseType} (widest : ∀ b, ClassPath.widens a b = true → b = a) :
    isAssignable path (.value (.base a)) wanted = true ↔ wanted = .base a := by
  constructor
  · intro h
    obtain ⟨b, rfl, wider⟩ := isAssignable_base h
    rw [widest b wider]
  · rintro rfl
    exact isAssignable_refl path (.base a)

theorem isAssignable_long :
    isAssignable path (.value .long) wanted = true ↔ wanted = .long :=
  isAssignable_widest fun b wider => by
    cases b with
    | long => rfl
    | _ => cases wider

theorem isAssignable_boolean :
    isAssignable path (.value .boolean) wanted = true ↔ wanted = .boolean :=
  isAssignable_widest fun b wider => by
    cases b with
    | boolean => rfl
    | _ => cases wider

theorem isAssignable_string :
    isAssignable .platform (.value .string) wanted = true ↔
      ∃ name, wanted = .object name ∧ (name = .string ∨ name ∈ stringSupertypes) := by
  constructor
  · intro h
    obtain ⟨element, dimensions⟩ := wanted
    cases element with
    | base b => cases dimensions <;> cases h
    | object name =>
      cases dimensions with
      | zero => exact ⟨name, rfl, isSubclass_string.mp h⟩
      | succ n => cases h
  · rintro ⟨name, rfl, above⟩
    exact isSubclass_string.mpr above

end Assignable

section Cost

variable {l : Literal} {p q : FieldType} {j k : Nat}

theorem Literal.cost_string (text : String) (name : ClassName) :
    (string text).cost (.object name) =
      if name = .string then some 0 else if name ∈ stringSupertypes then some 1 else none :=
  rfl

/-- A literal costs nothing where its own type is wanted and, if it is `null`, anywhere. Elsewhere
it costs one. -/
theorem Literal.cost_eq (l : Literal) (p : FieldType) :
    l.cost p =
      if isAssignable .platform l.type p = true then
        some (if l = .null ∨ l.type = .value p then 0 else 1)
      else none := by
  cases l with
  | int value =>
    by_cases isInt : p = .int
    · subst isInt
      rfl
    · by_cases isLong : p = .long
      · subst isLong
        rfl
      · have refused : ¬isAssignable .platform (.value .int) p = true :=
          fun taken => (isAssignable_int.mp taken).elim isInt isLong
        rw [Literal.cost, if_neg isInt, if_neg isLong, Literal.type, if_neg refused]
  | long value =>
    by_cases isLong : p = .long
    · subst isLong
      rfl
    · rw [Literal.cost, if_neg isLong, Literal.type, if_neg (mt isAssignable_long.mp isLong)]
  | boolean value =>
    by_cases isBoolean : p = .boolean
    · subst isBoolean
      rfl
    · rw [Literal.cost, if_neg isBoolean, Literal.type,
        if_neg (mt isAssignable_boolean.mp isBoolean)]
  | string text =>
    cases isClass : p.class? with
    | none =>
      have refused : ¬isAssignable .platform (.value .string) p = true := by
        rw [isAssignable_string]
        rintro ⟨name, rfl, -⟩
        cases isClass
      rw [Literal.cost, isClass, Literal.type, if_neg refused]
    | some name =>
      obtain rfl := FieldType.eq_object_of_class? isClass
      by_cases isString : name = .string
      · subst isString
        rfl
      · rw [Literal.cost_string, if_neg isString, Literal.type]
        by_cases above : name ∈ stringSupertypes
        · have other : ¬(Literal.string text = .null ∨
              ExprType.value .string = .value (.object name)) := by
            rintro (isNull | same)
            · cases isNull
            · cases same
              exact isString rfl
          rw [if_pos above, if_pos (isAssignable_string.mpr ⟨name, rfl, .inr above⟩), if_neg other]
        · have refused : ¬isAssignable .platform (.value .string) (.object name) = true := by
            rw [isAssignable_string]
            rintro ⟨_, same, isAbove⟩
            cases same
            exact isAbove.elim isString above
          rw [if_neg above, if_neg refused]
  | null =>
    rw [Literal.cost]
    exact if_congr Iff.rfl (congrArg some (if_pos (Or.inl rfl)).symm) rfl

theorem Literal.cost_eq_some_iff :
    l.cost p = some k ↔ isAssignable .platform l.type p = true ∧
      k = if l = .null ∨ l.type = .value p then 0 else 1 := by
  rw [Literal.cost_eq, Option.ite_none_right_eq_some, Option.some.injEq, eq_comm (b := k)]

/-- A parameter that can stand for another is not the dearer one. -/
theorem Literal.cost_le (specific : isAssignable .platform (.value p) q = true)
    (first : l.cost p = some j) (second : l.cost q = some k) : j ≤ k := by
  obtain ⟨assignable, isFirst⟩ := cost_eq_some_iff.mp first
  obtain ⟨-, isSecond⟩ := cost_eq_some_iff.mp second
  by_cases free : l = .null ∨ l.type = .value q
  · rcases free with rfl | same
    · rw [isFirst, if_pos (.inl rfl)]
      exact Nat.zero_le k
    · rw [same] at assignable
      obtain rfl := eq_of_isAssignable ClassPath.ordered_platform specific assignable
      exact Nat.le_of_eq (Option.some.inj (first.symm.trans second))
  · rw [isSecond, if_neg free, isFirst]
    split <;> decide

end Cost

section Costs

variable {l : Literal} {ls : List Literal} {p : FieldType} {ps qs : List FieldType} {j k : Nat}

theorem costOf_cons_eq_some : costOf (l :: ls) (p :: ps) = some k ↔
    ∃ i, l.cost p = some i ∧ ∃ j, costOf ls ps = some j ∧ i + j = k := by
  simp only [costOf, Option.bind_eq_bind, Option.bind_eq_some_iff, Option.pure_def,
    Option.some.injEq]

/-- Literals can be passed exactly where values of their types can be. -/
theorem exists_costOf_iff : (∃ k, costOf ls ps = some k) ↔
    List.Forall₂ (fun t p => isAssignable .platform t p = true) (ls.map Literal.type) ps := by
  induction ls generalizing ps with
  | nil =>
    cases ps with
    | nil => exact ⟨fun _ => .nil, fun _ => ⟨0, rfl⟩⟩
    | cons p ps => exact ⟨nofun, nofun⟩
  | cons l ls ih =>
    cases ps with
    | nil => exact ⟨nofun, nofun⟩
    | cons p ps =>
      rw [List.map_cons, List.forall₂_cons, ← ih]
      simp only [costOf_cons_eq_some, Literal.cost_eq_some_iff]
      constructor
      · rintro ⟨-, i, ⟨assignable, -⟩, j, rest, -⟩
        exact ⟨assignable, j, rest⟩
      · rintro ⟨assignable, j, rest⟩
        exact ⟨_, _, ⟨assignable, rfl⟩, j, rest, rfl⟩

theorem costOf_le
    (specific : List.Forall₂ (fun p q => isAssignable .platform (.value p) q = true) ps qs)
    (first : costOf ls ps = some j) (second : costOf ls qs = some k) : j ≤ k := by
  induction specific generalizing ls j k with
  | nil =>
    obtain rfl := Option.some.inj (first.symm.trans second)
    exact Nat.le_refl j
  | cons head tail ih =>
    cases ls with
    | nil => cases first
    | cons l ls =>
      obtain ⟨i, hi, j, hj, rfl⟩ := costOf_cons_eq_some.mp first
      obtain ⟨m, hm, n, hn, rfl⟩ := costOf_cons_eq_some.mp second
      exact Nat.add_le_add (Literal.cost_le head hi hm) (ih hj hn)

end Costs

/-- A method of a class file, if its name and its type can be read. -/
def methodOf? (file : ClassFile) (m : ClassFile.Member .method) : Option MethodData := do
  let name ← file.constants.utf8? m.name
  let text ← file.constants.utf8? m.descriptor
  let type ← (MethodType.parse text).toOption
  return ⟨name, type, m.flags.isStatic⟩

/-- The static methods of a name. -/
def staticMethods (file : ClassFile) (name : String) : List MethodData :=
  (file.methods.filterMap (methodOf? file)).filter fun m => m.isStatic && m.name == name

theorem mem_staticMethods_iff {file : ClassFile} {name : String} {m : MethodData} :
    m ∈ staticMethods file name ↔ m.isStatic = true ∧ m.name = name ∧
      ∃ member ∈ file.methods, member.flags.isStatic = m.isStatic ∧
        file.constants.utf8? member.name = some m.name ∧
        ∃ text, file.constants.utf8? member.descriptor = some text ∧
          MethodType.parse text = .ok m.type := by
  unfold staticMethods
  rw [List.mem_filter, List.mem_filterMap, Bool.and_eq_true_iff, beq_iff_eq]
  constructor
  · rintro ⟨⟨member, here, isMethod⟩, isStatic, isName⟩
    obtain ⟨name, named, isMethod⟩ := Option.bind_eq_some_iff.mp isMethod
    obtain ⟨text, described, isMethod⟩ := Option.bind_eq_some_iff.mp isMethod
    obtain ⟨type, read, isMethod⟩ := Option.bind_eq_some_iff.mp isMethod
    obtain rfl := Option.some.inj isMethod
    exact ⟨isStatic, isName, member, here, rfl, named, text, described,
      except_eq_ok_of_toOption read⟩
  · rintro ⟨isStatic, isName, member, here, flag, named, text, described, read⟩
    refine ⟨⟨member, here, ?_⟩, isStatic, isName⟩
    simp [methodOf?, named, described, read, flag, Except.toOption]

namespace StaticCall

variable {file : ClassFile} {parsed : CallText} {m : ClassFile.Member .method}
  {all : List (Nat × MethodType)} {type other : MethodType} {k : Nat}

theorem candidate?_eq_some_iff : candidate? file parsed m = some (k, type) ↔
    m.flags.isStatic = true ∧ file.constants.utf8? m.name = some parsed.method ∧
      (∃ text, file.constants.utf8? m.descriptor = some text ∧ MethodType.parse text = .ok type) ∧
      costOf parsed.arguments type.parameters = some k := by
  unfold candidate?
  constructor
  · intro isCandidate
    split at isCandidate
    · rename_i suits
      obtain ⟨isStatic, isName⟩ := Bool.and_eq_true_iff.mp suits
      split at isCandidate
      · rename_i read isRead
        obtain ⟨text, described, parses⟩ := Option.map_eq_some_iff.mp isRead
        obtain ⟨cost, isCost, same⟩ := Option.map_eq_some_iff.mp isCandidate
        cases same
        exact ⟨isStatic, eq_of_beq isName, ⟨text, described, parses⟩, isCost⟩
      · cases isCandidate
    · cases isCandidate
  · rintro ⟨isStatic, named, ⟨text, described, parses⟩, isCost⟩
    simp [isStatic, named, described, parses, isCost]

/-- A method can take the literals of a call where they have a cost. -/
theorem mem_candidates_iff : (k, type) ∈ candidates file parsed ↔
    ⟨parsed.method, type, true⟩ ∈ staticMethods file parsed.method ∧
      costOf parsed.arguments type.parameters = some k := by
  rw [mem_staticMethods_iff, candidates, List.mem_filterMap]
  constructor
  · rintro ⟨member, here, isCandidate⟩
    obtain ⟨isStatic, named, typed, isCost⟩ := candidate?_eq_some_iff.mp isCandidate
    exact ⟨⟨rfl, rfl, member, here, isStatic, named, typed⟩, isCost⟩
  · rintro ⟨⟨-, -, member, here, isStatic, named, typed⟩, isCost⟩
    exact ⟨member, here, candidate?_eq_some_iff.mpr ⟨isStatic, named, typed, isCost⟩⟩

/-- Where only one is the cheapest, whatever costs as little as all others is that one. -/
theorem eq_of_cheapest (only : cheapest all = [type]) (here : (k, other) ∈ all)
    (least : ∀ c ∈ all, k ≤ c.1) : other = type := by
  have isLeast : (all.map (·.1)).min? = some k := by
    rw [List.min?_eq_some_iff]
    refine ⟨List.mem_map_of_mem (f := (·.1)) here, fun cost inside => ?_⟩
    obtain ⟨c, isCandidate, rfl⟩ := List.mem_map.mp inside
    exact least c isCandidate
  have found : other ∈ cheapest all := by
    rw [cheapest, isLeast]
    exact List.mem_map.mpr ⟨(k, other), List.mem_filter.mpr ⟨here, beq_self_eq_true k⟩, rfl⟩
  rw [only] at found
  exact List.mem_singleton.mp found

theorem build_ok {text : String} {generated : Target.ClassRef} {call : StaticCall}
    (h : build text generated file = .ok call) :
    ∃ parsed, CallText.parse text = .ok parsed ∧
      call = ⟨generated, parsed.method, call.type, parsed.arguments⟩ ∧
      cheapest (candidates file parsed) = [call.type] := by
  obtain ⟨parsed, read, rest⟩ := except_bind_eq_ok.mp h
  refine ⟨parsed, read, ?_⟩
  cases all : cheapest (candidates file parsed) with
  | nil =>
    simp only [all] at rest
    split at rest
    · split at rest <;> cases rest
    · cases rest
  | cons type others =>
    cases others with
    | cons other others =>
      simp only [all] at rest
      split at rest
      · split at rest <;> cases rest
      · cases rest
    | nil =>
      simp only [all] at rest
      have built : call = ⟨generated, parsed.method, type, parsed.arguments⟩ := by
        split at rest
        · split at rest
          · cases rest
          · exact (Except.ok.inj rest).symm
        · exact (Except.ok.inj rest).symm
      subst built
      exact ⟨rfl, rfl⟩

end StaticCall

/-- Whenever the text of a call and the compiler, which sees the same static methods of the name and
literals of the same types, both choose a method, they choose the same one. -/
theorem build_agrees_with_select {text : String} {generated : Target.ClassRef} {file : ClassFile}
    {call : StaticCall} {methods : List (ClassData × MethodData)} {owner : ClassName}
    {m : MethodData} (built : StaticCall.build text generated file = .ok call)
    (alike : ∀ other, other ∈ methods.map (·.2) ↔ other ∈ staticMethods file call.method)
    (selected : select .platform methods owner call.method (call.arguments.map Literal.type) =
      .ok m) :
    m = ⟨call.method, call.type, true⟩ := by
  obtain ⟨parsed, -, isCall, only⟩ := StaticCall.build_ok built
  rw [isCall] at alike selected
  obtain ⟨here, takes, specific⟩ := specific_of_select selected
  have isMethod := (alike m).mp here
  obtain ⟨isStatic, isName, -⟩ := mem_staticMethods_iff.mp isMethod
  obtain ⟨name, type, flag⟩ := m
  subst isStatic
  subst isName
  obtain ⟨cost, isCost⟩ := exists_costOf_iff.mpr (isApplicable_iff.mp takes)
  have isCandidate := StaticCall.mem_candidates_iff.mpr ⟨isMethod, isCost⟩
  -- The compiler's choice is as specific as any candidate, so none of them is cheaper.
  have least : ∀ c ∈ StaticCall.candidates file parsed, cost ≤ c.1 := by
    rintro ⟨k, other⟩ inside
    obtain ⟨isOther, otherCost⟩ := StaticCall.mem_candidates_iff.mp inside
    have takesOther : isApplicable .platform (parsed.arguments.map Literal.type)
        ⟨parsed.method, other, true⟩ = true :=
      isApplicable_iff.mpr (exists_costOf_iff.mp ⟨k, otherCost⟩)
    have wider := specific _ ((alike _).mpr isOther) takesOther
    rw [isMoreSpecific_iff (count_of_isApplicable takes takesOther)] at wider
    exact costOf_le wider isCost otherCost
  rw [isCall, StaticCall.eq_of_cheapest only isCandidate least]

/-- A class with two methods of one name. Of these, the first is the more specific. -/
def overloadedClass : ClassFile :=
  { ClassFile.bareClass with
    constants := ClassFile.bareClass.constants.append
      [.utf8 "f", .utf8 "(Ljava/lang/String;I)V", .utf8 "(Ljava/lang/Object;J)V"]
    methods := [⟨⟨ClassFile.Flag.isStatic⟩, 5, 6, []⟩, ⟨⟨ClassFile.Flag.isStatic⟩, 5, 7, []⟩] }

/-- The class as the compiler sees it. -/
def overloadedData : ClassData :=
  ⟨⟨"A"⟩, some .object, [], false,
    [⟨"f", ⟨[.string, .int], none⟩, true⟩, ⟨"f", ⟨[.object .object, .long], none⟩, true⟩]⟩

/-- For both, `null` stands for a string, and the number stays an `int`. -/
theorem build_agrees_with_select_null :
    StaticCall.build "f(null, 1)" ⟨0, "A"⟩ overloadedClass =
        .ok ⟨⟨0, "A"⟩, "f", ⟨[.string, .int], none⟩, [.null, .int 1]⟩ ∧
      select .platform (overloadedData.methods.map (overloadedData, ·)) ⟨"A"⟩ "f"
          [.null, .value .int] =
        .ok ⟨"f", ⟨[.string, .int], none⟩, true⟩ := by
  have built : StaticCall.build "f(null, 1)" ⟨0, "A"⟩ overloadedClass =
      .ok ⟨⟨0, "A"⟩, "f", ⟨[.string, .int], none⟩, [.null, .int 1]⟩ :=
    except_eq_ok_of_toOption (by decide +kernel)
  have same : staticMethods overloadedClass "f" = overloadedData.methods := by decide +kernel
  refine ⟨built, ?_⟩
  cases selected : select .platform (overloadedData.methods.map (overloadedData, ·)) ⟨"A"⟩ "f"
      [.null, .value .int] with
  | error cause =>
    have chosen : (select .platform (overloadedData.methods.map (overloadedData, ·)) ⟨"A"⟩ "f"
        [.null, .value .int]).isOk = true := by decide +kernel
    rw [selected] at chosen
    cases chosen
  | ok m =>
    rw [build_agrees_with_select built (fun other => by rw [same]; rfl) selected]

end JavaSnippet.Evaluation
