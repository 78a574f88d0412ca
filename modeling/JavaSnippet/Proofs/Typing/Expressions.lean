import JavaSnippet.Proofs.ClassPath.Methods
import JavaSnippet.Proofs.Typing.Body
import JavaSnippet.Proofs.Typing.Kinds
/-!
What typing makes of expressions. When the class path is supported, the term of an expression has
operands of the right kinds everywhere; the induction is on the expression.
-/
namespace JavaSnippet.Typing

open Source ClassFile
open MethodBody (valueKind?)

variable {v : Variables} {path : ClassPath}

section Calls

theorem select_ok {candidates : List (ClassData × MethodData)} {owner : ClassName} {name : String}
    {args : List ExprType} {m : MethodData}
    (h : select path candidates owner name args = .ok m) :
    m ∈ candidates.map (·.2) ∧ m.type.parameters.length = args.length ∧
      ∀ x ∈ args.zip m.type.parameters, Passes path x.1 x.2 := by
  unfold select at h
  simp only at h
  split at h
  · rename_i chosen rest isBest
    obtain rfl := Except.ok.inj h
    have best := (List.mem_filter.mp (isBest ▸ List.mem_cons_self)).1
    split at best
    · obtain ⟨here, applicable⟩ := List.mem_filter.mp best
      obtain ⟨count, all⟩ := Bool.and_eq_true_iff.mp applicable
      refine ⟨here, eq_of_beq count, fun x inside => .inr ?_⟩
      exact List.all_eq_true.mp all x inside
    · obtain ⟨here, exact⟩ := List.mem_filter.mp best
      obtain ⟨count, all⟩ := Bool.and_eq_true_iff.mp exact
      refine ⟨here, eq_of_beq count, fun x inside => .inl ?_⟩
      exact eq_of_beq (List.all_eq_true.mp all x inside)
  all_goals cases h

variable {place : Place}

/-- A chosen method is one that the class path declares, and takes the arguments. -/
theorem choose_ok {owner : ClassName} {name : String} {args : List Term} {m : MethodData}
    (h : place.choose owner name args = .ok m) :
    (∃ c ∈ place.path.classes, m ∈ c.methods) ∧ m.name = name ∧
      m.type.parameters.length = args.length ∧
      ∀ x ∈ (args.map Term.type).zip m.type.parameters, Passes place.path x.1 x.2 := by
  obtain ⟨here, count, passes⟩ := select_ok h
  obtain ⟨x, visible, rfl⟩ := List.mem_map.mp here
  obtain ⟨isClass, isMethod, named⟩ := ClassPath.declares_visibleMethods x visible
  rw [List.length_map] at count
  exact ⟨⟨x.1, isClass, isMethod⟩, named, count, passes⟩

theorem kinded_of_choose (supported : place.path.Supported) {owner : ClassName} {name : String}
    {args : List Term} {m : MethodData} (kinded : ∀ a ∈ args, Kinded v a)
    (h : place.choose owner name args = .ok m) :
    KindedArgs v (passAll place.path args m.type) m.type.parameters ∧ KindedResult m.type := by
  obtain ⟨⟨c, isClass, isMethod⟩, -, count, passes⟩ := choose_ok h
  have parameters := supported.parameters c isClass m isMethod
  have results := supported.results c isClass m isMethod
  exact ⟨kinded_passAll kinded parameters count passes,
    fun t isResult => FieldType.kind_of_supported (results t isResult)⟩

theorem kinded_staticCall (supported : place.path.Supported) {owner : ClassName} {name : String}
    {args : List Term} {a : Term} (kinded : ∀ a ∈ args, Kinded v a)
    (h : place.staticCall owner name args = .ok a) : Kinded v a := by
  obtain ⟨m, chosen, last⟩ := except_bind_eq_ok.mp h
  split at last
  · obtain rfl := Except.ok.inj last
    rw [Kinded]
    exact kinded_of_choose supported kinded chosen
  · cases last

theorem kinded_plainCall (supported : place.path.Supported) {name : String} {args : List Term}
    {a : Term} (kinded : ∀ a ∈ args, Kinded v a) (h : place.plainCall name args = .ok a) :
    Kinded v a := by
  unfold Place.plainCall at h
  split at h
  · exact kinded_staticCall supported kinded h
  · cases h

theorem kind_of_receiverClass {type : ExprType} {owner : ClassName}
    (h : Place.receiverClass type = .ok owner) : type.kind? = some .reference := by
  unfold Place.receiverClass at h
  cases type with
  | void => cases h
  | null => cases h
  | value t =>
    obtain ⟨element, dimensions⟩ := t
    cases element with
    | object name => rfl
    | base b =>
      cases dimensions with
      | succ n => rfl
      | zero => cases h

theorem kinded_memberCall (supported : place.path.Supported) {receiver : Term} {name : String}
    {args : List Term} {a : Term} (kindedReceiver : Kinded v receiver)
    (kinded : ∀ a ∈ args, Kinded v a) (h : place.memberCall receiver name args = .ok a) :
    Kinded v a := by
  obtain ⟨owner, isOwner, rest⟩ := except_bind_eq_ok.mp h
  obtain ⟨m, chosen, last⟩ := except_bind_eq_ok.mp rest
  have isReference := kind_of_receiverClass isOwner
  have call := kinded_of_choose supported kinded chosen
  split at last
  · obtain rfl := Except.ok.inj last
    rw [Kinded]
    exact ⟨⟨kindedReceiver, _, isReference⟩, call⟩
  · obtain rfl := Except.ok.inj last
    rw [Kinded]
    exact ⟨⟨kindedReceiver, isReference⟩, call⟩

theorem kinded_creation (supported : place.path.Supported) {owner : ClassName} {args : List Term}
    {a : Term} (kinded : ∀ a ∈ args, Kinded v a) (h : place.creation owner args = .ok a) :
    Kinded v a := by
  unfold Place.creation at h
  split at h
  · cases h
  · obtain ⟨m, chosen, last⟩ := except_bind_eq_ok.mp h
    obtain rfl := Except.ok.inj last
    obtain ⟨⟨c, isClass, isMethod⟩, named, -, -⟩ := choose_ok chosen
    rw [Kinded]
    exact ⟨(kinded_of_choose supported kinded chosen).1,
      supported.constructors c isClass m isMethod named⟩

end Calls

section Expressions

theorem kindedParts_append {front back : List Term} (h : KindedParts v front)
    (g : KindedParts v back) : KindedParts v (front ++ back) := by
  induction front with
  | nil => exact g
  | cons a front ih =>
    rw [KindedParts] at h
    rw [List.cons_append, KindedParts]
    exact ⟨h.1, ih h.2⟩

theorem kindedParts_singleton {a : Term} (kinded : Kinded v a) (used : a.type ≠ .void) :
    KindedParts v [a] := by
  rw [KindedParts, KindedParts]
  exact ⟨⟨kinded, kinded.kind used⟩, trivial⟩

theorem kinded_concatenate {a b : Term} (left : Kinded v a) (usedLeft : a.type ≠ .void)
    (right : Kinded v b) (usedRight : b.type ≠ .void) : Kinded v (Place.concatenate a b) := by
  have last := kindedParts_singleton right usedRight
  have pair : Kinded v (.concat [a, b]) := by
    rw [Kinded]
    exact kindedParts_append (kindedParts_singleton left usedLeft) last
  cases a with
  | concat parts =>
    rw [Kinded] at left
    rw [Place.concatenate, Kinded]
    exact kindedParts_append left last
  | _ => exact pair

theorem kinded_promote {width : IntWidth} {a : Term} (kinded : Kinded v a)
    (integral : a.type.isIntegral = true) (narrow : width = .int → a.type.isLong = false) :
    Kinded v (Place.promote width a) ∧
      (Place.promote width a).type.kind? = some width.kind := by
  have kind := kind_of_isIntegral integral
  cases width with
  | int =>
    rw [narrow rfl] at kind
    exact ⟨kinded, kind⟩
  | long =>
    by_cases isLong : a.type.isLong = true
    · rw [Place.promote, if_pos isLong]
      rw [if_pos isLong] at kind
      exact ⟨kinded, kind⟩
    · rw [Place.promote, if_neg isLong]
      rw [if_neg isLong] at kind
      refine ⟨?_, rfl⟩
      rw [Kinded]
      exact ⟨kinded, kind⟩

theorem kinded_binary {op : ArithOp} {a b c : Term} (left : Kinded v a)
    (usedLeft : a.type ≠ .void) (right : Kinded v b) (usedRight : b.type ≠ .void)
    (h : Place.binary op a b = .ok c) : Kinded v c := by
  unfold Place.binary at h
  split at h
  · obtain rfl := Except.ok.inj h
    exact kinded_concatenate left usedLeft right usedRight
  split at h
  · cases h
  · rename_i integral
    simp only [Bool.or_eq_true, Bool.not_eq_eq_eq_not, Bool.not_true, not_or,
      Bool.not_eq_false] at integral
    obtain rfl := Except.ok.inj h
    have narrow : (if a.type.isLong || b.type.isLong then IntWidth.long else .int) = .int →
        a.type.isLong = false ∧ b.type.isLong = false := by
      intro isInt
      by_cases isLong : (a.type.isLong || b.type.isLong) = true
      · rw [if_pos isLong] at isInt
        cases isInt
      · simpa using isLong
    rw [Kinded]
    exact ⟨kinded_promote left integral.1 fun isInt => (narrow isInt).1,
      kinded_promote right integral.2 fun isInt => (narrow isInt).2⟩

theorem kinded_negation {a b : Term} (kinded : Kinded v a) (h : Place.negation a = .ok b) :
    Kinded v b := by
  unfold Place.negation at h
  split at h
  · cases h
  · rename_i integral
    obtain rfl := Except.ok.inj h
    have kind := kind_of_isIntegral (by simpa using integral : a.type.isIntegral = true)
    rw [Kinded]
    refine ⟨kinded, ?_⟩
    cases isLong : a.type.isLong with
    | true =>
      rw [isLong] at kind
      exact kind
    | false =>
      rw [isLong] at kind
      exact kind

variable {place : Place}

theorem kinded_variableTerm (supported : ∀ t ∈ place.vars.types, t.mentionsFloating = false)
    {name : String} {a : Term} (h : place.variableTerm name = .ok a) : Kinded place.vars a := by
  unfold Place.variableTerm at h
  split at h
  · cases h
  · rename_i id state found
    split at h
    · rename_i assigned
      obtain rfl := Except.ok.inj h
      have isType := List.mem_of_getElem? (Variables.types_of_find? found)
      rw [Kinded]
      exact ⟨⟨state, (Variables.find?_eq_some.mp found).2, assigned, rfl⟩,
        FieldType.kind_of_supported (supported _ isType)⟩
    · cases h

mutual

/-- What typing makes of an expression has operands of the right kinds everywhere. -/
theorem kinded_expression (path : place.path.Supported)
    (vars : ∀ t ∈ place.vars.types, t.mentionsFloating = false) :
    ∀ (e : Expr) {a : Term}, place.expression e = .ok a → Kinded place.vars a
  | .int value line, a, h => by
    have literal := onLine_eq_ok.mp h
    unfold Place.intLiteral at literal
    split at literal
    · rw [← Except.ok.inj literal, Kinded]
      trivial
    · cases literal
  | .long value line, a, h => by
    have literal := onLine_eq_ok.mp h
    unfold Place.longLiteral at literal
    split at literal
    · rw [← Except.ok.inj literal, Kinded]
      trivial
    · cases literal
  | .string text line, a, h => by
    rw [← Except.ok.inj h, Kinded]
    trivial
  | .bool value line, a, h => by
    rw [← Except.ok.inj h, Kinded]
    trivial
  | .null line, a, h => by
    rw [← Except.ok.inj h, Kinded]
    trivial
  | .name text line, a, h => kinded_variableTerm vars (onLine_eq_ok.mp h)
  | .select qualifier member line, a, h => by
    rw [Place.expression] at h
    split at h
    · cases h
    · obtain ⟨inner, -, rest⟩ := except_bind_eq_ok.mp h
      obtain ⟨used, -, last⟩ := except_bind_eq_ok.mp rest
      cases last
  | .neg operand line, a, h => by
    obtain ⟨inner, isInner, rest⟩ := except_bind_eq_ok.mp h
    obtain ⟨used, isUsed, last⟩ := except_bind_eq_ok.mp rest
    obtain ⟨rfl, -⟩ := used_ok isUsed
    exact kinded_negation (kinded_expression path vars operand isInner) (onLine_eq_ok.mp last)
  | .binary op left right line, a, h => by
    obtain ⟨l, isLeft, rest⟩ := except_bind_eq_ok.mp h
    obtain ⟨usedLeft, isUsedLeft, rest⟩ := except_bind_eq_ok.mp rest
    obtain ⟨r, isRight, rest⟩ := except_bind_eq_ok.mp rest
    obtain ⟨usedRight, isUsedRight, last⟩ := except_bind_eq_ok.mp rest
    obtain ⟨rfl, valueLeft⟩ := used_ok isUsedLeft
    obtain ⟨rfl, valueRight⟩ := used_ok isUsedRight
    have kindedLeft := kinded_expression path vars left isLeft
    have kindedRight := kinded_expression path vars right isRight
    exact kinded_binary kindedLeft valueLeft kindedRight valueRight (onLine_eq_ok.mp last)
  | .call method args line, a, h => by
    obtain ⟨passed, arePassed, last⟩ := except_bind_eq_ok.mp h
    have kinded := kinded_expressions path vars args arePassed
    exact kinded_plainCall path kinded (onLine_eq_ok.mp last)
  | .callOn receiver method args line, a, h => by
    obtain ⟨owner, -, rest⟩ := except_bind_eq_ok.mp h
    obtain ⟨passed, arePassed, last⟩ := except_bind_eq_ok.mp rest
    have kinded := kinded_expressions path vars args arePassed
    cases owner with
    | some owner => exact kinded_staticCall path kinded (onLine_eq_ok.mp last)
    | none =>
      obtain ⟨target, isTarget, rest⟩ := except_bind_eq_ok.mp last
      obtain ⟨used, isUsed, last⟩ := except_bind_eq_ok.mp rest
      obtain ⟨rfl, -⟩ := used_ok isUsed
      have kindedTarget := kinded_expression path vars receiver isTarget
      exact kinded_memberCall path kindedTarget kinded (onLine_eq_ok.mp last)
  | .create type args line, a, h => by
    obtain ⟨owner, -, rest⟩ := except_bind_eq_ok.mp h
    obtain ⟨passed, arePassed, last⟩ := except_bind_eq_ok.mp rest
    have kinded := kinded_expressions path vars args arePassed
    exact kinded_creation path kinded (onLine_eq_ok.mp last)

theorem kinded_expressions (path : place.path.Supported)
    (vars : ∀ t ∈ place.vars.types, t.mentionsFloating = false) :
    ∀ (es : List Expr) {as : List Term}, place.expressions es = .ok as →
      ∀ a ∈ as, Kinded place.vars a
  | [], as, h => by
    obtain rfl := Except.ok.inj h
    simp
  | e :: rest, as, h => by
    obtain ⟨first, isFirst, h⟩ := except_bind_eq_ok.mp h
    obtain ⟨used, isUsed, h⟩ := except_bind_eq_ok.mp h
    obtain ⟨others, areOthers, last⟩ := except_bind_eq_ok.mp h
    obtain ⟨rfl, -⟩ := used_ok isUsed
    obtain rfl := Except.ok.inj last
    have kindedFirst := kinded_expression path vars e isFirst
    exact List.forall_mem_cons.mpr ⟨kindedFirst, kinded_expressions path vars rest areOthers⟩

end

/-- A value that is used is of some kind. -/
theorem kinded_value (path : place.path.Supported)
    (vars : ∀ t ∈ place.vars.types, t.mentionsFloating = false) {e : Expr} {a : Term}
    (h : place.value e = .ok a) : Kinded place.vars a := by
  obtain ⟨inner, isInner, isUsed⟩ := except_bind_eq_ok.mp h
  obtain ⟨rfl, -⟩ := used_ok isUsed
  exact kinded_expression path vars e isInner

theorem kinded_assigned (path : place.path.Supported)
    (vars : ∀ t ∈ place.vars.types, t.mentionsFloating = false) {e : Expr} {wanted : FieldType}
    {a : Term} (h : place.assigned e wanted = .ok a) :
    Kinded place.vars a ∧ a.type.kind? = valueKind? wanted := by
  obtain ⟨inner, isValue, last⟩ := except_bind_eq_ok.mp h
  exact kind_of_convert (kinded_value path vars isValue) (onLine_eq_ok.mp last)

end Expressions

end JavaSnippet.Typing
