import JavaSnippet.Proofs.Evaluation.Choosing
import JavaSnippet.Proofs.Evaluation.Recording
import JavaSnippet.Proofs.Target.Calls
/-!
What a call passes to the method that it chose. A literal that has a cost as a parameter becomes a
value that fits the parameter, so the target is never asked to call a method with arguments of
another number or kind than the method's.
-/
namespace JavaSnippet.Evaluation.StaticCall

open Target Suspension

/-- The values can be passed as the parameters, which are as many. -/
abbrev Fit (values : List Value) (ps : List FieldType) : Prop :=
  List.Forall₂ (fun v p => v.fits p = true) values ps

theorem firstMisfit_eq_none {type : MethodType} {index : Nat} {ps : List FieldType}
    {values : List Value} (fit : Fit values ps) : firstMisfit type index ps values = none := by
  induction fit generalizing index with
  | nil => rfl
  | cons head _ ih => rw [firstMisfit, if_pos head, ih]

theorem checkArguments_of_fits {type : MethodType} {values : List Value}
    (fit : Fit values type.parameters) : checkArguments type values = .ok () := by
  rw [checkArguments, if_neg (not_not.mpr fit.length_eq.symm), firstMisfit_eq_none fit]

variable {σ : Type} {l : Literal} {p : FieldType} {ls : List Literal} {ps : List FieldType}
  {k : Nat}

theorem makes_argument (target : Target σ) (cost : l.cost p = some k) :
    Makes (argument target.recording l p) (fun v made => v.fits p = true ∧ invocations made = [])
      fun _ made => invocations made = [] := by
  have assignable := (Literal.cost_eq_some_iff.mp cost).1
  cases l with
  | int value =>
    rcases isAssignable_int.mp assignable with rfl | rfl
    · exact Adds.pure ⟨rfl, rfl⟩
    · exact Adds.pure ⟨rfl, rfl⟩
  | long value =>
    obtain rfl := isAssignable_long.mp assignable
    exact Adds.pure ⟨rfl, rfl⟩
  | boolean value =>
    obtain rfl := isAssignable_boolean.mp assignable
    exact Adds.pure ⟨rfl, rfl⟩
  | null => exact Adds.pure ⟨assignable, rfl⟩
  | string text =>
    obtain ⟨name, rfl, -⟩ := isAssignable_string.mp assignable
    refine Adds.mono (Adds.give (makes_newString target text) Value.object) ?_ ?_
    · rintro _ made ⟨ref, rfl, performed⟩
      exact ⟨rfl, performed.invocations⟩
    · rintro fault made (rfl | ⟨result, performed⟩)
      · rfl
      · exact performed.invocations

theorem makes_makeArguments (target : Target σ) (cost : costOf ls ps = some k) :
    Makes (makeArguments target.recording ls ps)
      (fun values made => Fit values ps ∧ invocations made = [])
      fun _ made => invocations made = [] := by
  induction ls generalizing ps k with
  | nil =>
    cases ps with
    | nil => exact Adds.pure ⟨.nil, rfl⟩
    | cons p ps => cases cost
  | cons l ls ih =>
    cases ps with
    | nil => cases cost
    | cons p ps =>
      obtain ⟨i, first, j, rest, -⟩ := costOf_cons_eq_some.mp cost
      refine Adds.bind (makes_argument target first) (fun value => Adds.give (ih rest) (value :: ·))
        ?_ (fun _ _ none => none) ?_
      · rintro value _ front back ⟨fits, none⟩ ⟨values, rfl, fit, noneLater⟩
        exact ⟨.cons fits fit, by rw [invocations_append, none, noneLater]; rfl⟩
      · rintro value fault front back ⟨-, none⟩ noneLater
        rw [invocations_append, none, noneLater]
        rfl

/-- Among the calls made there is one of a method: the call's own, with arguments that match its
type. -/
def Invokes (call : StaticCall) (made : List Call) : Prop :=
  ∃ arguments, invocations made = [⟨.static call.owner, call.method, call.type, arguments⟩] ∧
    checkArguments call.type arguments = .ok ()

theorem makes_run (target : Target σ) {call : StaticCall}
    (cost : costOf call.arguments call.type.parameters = some k) :
    Makes (call.run target.recording) (fun _ => call.Invokes)
      fun _ made => invocations made = [] ∨ call.Invokes made := by
  have invokes : ∀ {front back : List Call} {values : List Value}
      {result : Except Target.Fault Value},
      Fit values call.type.parameters ∧ invocations front = [] →
      Performed (.invokeMethod (.static call.owner) call.method call.type values) result back →
        call.Invokes (front ++ back) := by
    rintro front back values result ⟨fit, none⟩ performed
    refine ⟨values, ?_, checkArguments_of_fits fit⟩
    rw [invocations_append, none, performed.invocations]
    rfl
  refine Adds.bind (makes_makeArguments target cost)
    (fun values => makes_invokeMethod target _ call.method call.type values) ?_ ?_ ?_
  · exact fun values _ front back made performed => invokes made performed
  · exact fun _ _ none => .inl none
  · rintro values fault front back made (rfl | ⟨result, performed⟩)
    · exact .inl (by rw [List.append_nil, made.2])
    · exact .inr (invokes made performed)

/-- On any target, the call invokes its method with arguments that match, or it fails before it
invokes one. -/
def Matches (call : StaticCall) : Prop :=
  ∀ {σ : Type} (target : Target σ) (s : Suspension σ),
    ∃ result after, call.run target.recording s.recorded = (result, after) ∧
      call.run target s = (result, after.plain) ∧
      (call.Invokes after.calls ∨
        invocations after.calls = [] ∧ ∃ fault, result = .error fault)

theorem matches_of_cost {call : StaticCall}
    (cost : costOf call.arguments call.type.parameters = some k) : call.Matches := by
  intro σ target s
  have made := (makes_run target cost).run s.recorded s.recorded rfl
  have same : call.run target s = _ := mirrors_run target call s.recorded
  cases ran : call.run target.recording s.recorded with
  | mk result after =>
    rw [ran] at made same
    refine ⟨result, after, rfl, same, ?_⟩
    cases result with
    | ok value =>
      obtain ⟨new, ⟨-, added⟩, invokes⟩ := made
      rw [added]
      exact .inl invokes
    | error fault =>
      obtain ⟨new, ⟨-, added⟩, none | invokes⟩ := made
      · rw [added]
        exact .inr ⟨none, fault, rfl⟩
      · rw [added]
        exact .inl invokes

/-- A call is built where its text parses, its path names the class, and one method alone is the
cheapest of those that take its literals. The order of the methods does not matter. What is built
passes arguments that match the method. -/
theorem build_chooses (text : String) (generated : ClassRef) (file : ClassFile) :
    (∀ call, build text generated file = .ok call ↔
      ∃ parsed, CallText.parse text = .ok parsed ∧
        (∀ path ∈ parsed.qualifier, NamesClass path generated.name) ∧
        ∃ type, OnlyCheapest file parsed type ∧
          call = ⟨generated, parsed.method, type, parsed.arguments⟩) ∧
    (∀ methods : List (ClassFile.Member .method), methods.Perm file.methods →
      build text generated { file with methods } = build text generated file) ∧
    ∀ call, build text generated file = .ok call → call.Matches := by
  refine ⟨fun call => build_eq_ok_iff, fun methods same => build_perm same, fun call built => ?_⟩
  obtain ⟨parsed, -, -, type, ⟨_, _, _, k, -, takes, -⟩, rfl⟩ := build_eq_ok_iff.mp built
  exact matches_of_cost (costOf_eq_some_iff.mpr ⟨takes.arity, takes.convertible⟩)

/-- The path leaves out the package, and either order of the two methods gives the first of them. -/
theorem build_chooses_overloaded :
    build "Outer.A.f(null, 1)" ⟨0, "pkg.Outer$A"⟩ overloadedClass =
        .ok ⟨⟨0, "pkg.Outer$A"⟩, "f", ⟨[.string, .int], none⟩, [.null, .int 1]⟩ ∧
      build "Outer.A.f(null, 1)" ⟨0, "pkg.Outer$A"⟩
          { overloadedClass with methods := overloadedClass.methods.reverse } =
        .ok ⟨⟨0, "pkg.Outer$A"⟩, "f", ⟨[.string, .int], none⟩, [.null, .int 1]⟩ ∧
      StaticCall.Matches
        ⟨⟨0, "pkg.Outer$A"⟩, "f", ⟨[.string, .int], none⟩, [.null, .int 1]⟩ := by
  have built : build "Outer.A.f(null, 1)" ⟨0, "pkg.Outer$A"⟩ overloadedClass =
      .ok ⟨⟨0, "pkg.Outer$A"⟩, "f", ⟨[.string, .int], none⟩, [.null, .int 1]⟩ :=
    except_eq_ok_of_toOption (by decide +kernel)
  obtain ⟨-, ordered, matching⟩ := build_chooses "Outer.A.f(null, 1)" ⟨0, "pkg.Outer$A"⟩
    overloadedClass
  exact ⟨built, (ordered _ (List.reverse_perm _)).trans built, matching _ built⟩

end JavaSnippet.Evaluation.StaticCall
