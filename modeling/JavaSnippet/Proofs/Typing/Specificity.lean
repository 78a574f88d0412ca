import JavaSnippet.Proofs.ClassPath.Reachability
import JavaSnippet.Proofs.Fallible
import JavaSnippet.Proofs.Typing.Overload
import Mathlib.Data.List.Forall2
/-!
The choice among overloaded methods. Methods that match the arguments exactly go first, but nothing
depends on that: such a method is the most specific of all that take the arguments, and no method
with other parameters is.
-/
namespace JavaSnippet

/-- Widening has no two directions. -/
theorem ClassPath.eq_of_widens {a b : BaseType} (up : widens a b = true)
    (down : widens b a = true) : a = b := by
  revert up down
  cases a <;> cases b <;> decide

namespace Typing

variable {path : ClassPath}

theorem isAssignable_refl (path : ClassPath) (t : FieldType) :
    isAssignable path (.value t) t = true := by
  obtain ⟨element, dimensions⟩ := t
  cases element with
  | base type =>
    cases dimensions with
    | zero => exact Bool.or_eq_true_iff.mpr (.inl (beq_self_eq_true type))
    | succ n => exact Bool.and_eq_true_iff.mpr ⟨beq_self_eq_true type, beq_self_eq_true n⟩
  | object name =>
    cases dimensions with
    | zero => exact path.isSubclass_refl name
    | succ n =>
      show (if n = n then path.isSubclass name name
        else n < n && ClassPath.isArraySuper name) = true
      rw [if_pos rfl, path.isSubclass_refl]

/-- Two types that can stand for each other are one type. -/
theorem eq_of_isAssignable (ordered : path.Ordered) {t u : FieldType}
    (up : isAssignable path (.value t) u = true) (down : isAssignable path (.value u) t = true) :
    t = u := by
  cases isBase : t.base? with
  | some a =>
    obtain rfl := FieldType.eq_base_of_base? isBase
    obtain ⟨b, rfl, wider⟩ := isAssignable_base up
    obtain ⟨c, same, back⟩ := isAssignable_base down
    obtain rfl := FieldType.base_inj same
    rw [ClassPath.eq_of_widens wider back]
  | none =>
    cases isOther : u.base? with
    | some b =>
      simp only [isAssignable, isBase, isOther] at up
      cases up
    | none =>
      simp only [isAssignable, isBase, isOther] at up down
      exact ordered.eq_of_isSubtype up down

section Methods

variable {args : List ExprType} {a b : MethodData}

theorem all_zip_iff {α β : Type} (test : α → β → Bool) {xs : List α} {ys : List β}
    (count : xs.length = ys.length) :
    ((xs.zip ys).all fun (x, y) => test x y) = true ↔
      List.Forall₂ (fun x y => test x y = true) xs ys := by
  rw [List.forall₂_iff_zip, List.all_eq_true]
  exact ⟨fun all => ⟨count, fun inside => all _ inside⟩, fun all x inside => all.2 inside⟩

theorem isExact_iff : isExact args a = true ↔ args = a.type.parameters.map .value := by
  rw [← List.forall₂_eq_eq_eq, List.forall₂_map_right_iff]
  unfold isExact takesCount
  rw [Bool.and_eq_true_iff, beq_iff_eq]
  constructor
  · rintro ⟨count, all⟩
    exact ((all_zip_iff _ count.symm).mp all).imp fun _ _ => eq_of_beq
  · intro same
    exact ⟨same.length_eq.symm,
      (all_zip_iff _ same.length_eq).mpr (same.imp fun _ _ => beq_iff_eq.mpr)⟩

theorem isApplicable_iff : isApplicable path args a = true ↔
    List.Forall₂ (fun s t => isAssignable path s t = true) args a.type.parameters := by
  unfold isApplicable takesCount
  rw [Bool.and_eq_true_iff, beq_iff_eq]
  constructor
  · rintro ⟨count, all⟩
    exact (all_zip_iff _ count.symm).mp all
  · intro pass
    exact ⟨pass.length_eq.symm, (all_zip_iff _ pass.length_eq).mpr pass⟩

theorem isMoreSpecific_iff (count : a.type.parameters.length = b.type.parameters.length) :
    isMoreSpecific path a b = true ↔
      List.Forall₂ (fun t u => isAssignable path (.value t) u = true) a.type.parameters
        b.type.parameters :=
  all_zip_iff (fun t u => isAssignable path (.value t) u) count

theorem count_of_isApplicable (ha : isApplicable path args a = true)
    (hb : isApplicable path args b = true) :
    a.type.parameters.length = b.type.parameters.length :=
  (isApplicable_iff.mp ha).length_eq.symm.trans (isApplicable_iff.mp hb).length_eq

theorem isApplicable_of_isExact (h : isExact args a = true) :
    isApplicable path args a = true := by
  rw [isApplicable_iff, isExact_iff.mp h, List.forall₂_map_left_iff, List.forall₂_same]
  exact fun t _ => isAssignable_refl path t

/-- Whatever takes the arguments of an exact match takes its parameters. -/
theorem isMoreSpecific_of_isExact (exact : isExact args a = true)
    (applicable : isApplicable path args b = true) : isMoreSpecific path a b = true := by
  rw [isMoreSpecific_iff (count_of_isApplicable (isApplicable_of_isExact exact) applicable)]
  have pass := isApplicable_iff.mp applicable
  rwa [isExact_iff.mp exact, List.forall₂_map_left_iff] at pass

/-- A method that takes the arguments and is as specific as an exact match is one. -/
theorem isExact_of_isMoreSpecific (ordered : path.Ordered) (exact : isExact args b = true)
    (applicable : isApplicable path args a = true) (specific : isMoreSpecific path a b = true) :
    isExact args a = true := by
  have isB := isExact_iff.mp exact
  have count := count_of_isApplicable applicable (isApplicable_of_isExact exact)
  have down := (isMoreSpecific_iff count).mp specific
  have up := isApplicable_iff.mp applicable
  rw [isB, List.forall₂_map_left_iff] at up
  have same : a.type.parameters = b.type.parameters := by
    have back : List.Forall₂ (fun t u => isAssignable path (.value u) t = true) a.type.parameters
        b.type.parameters := List.Forall₂.flip up
    rw [← List.forall₂_eq_eq_eq]
    exact down.mp (fun _ _ => eq_of_isAssignable ordered) back
  rw [isExact_iff, isB, same]

/-- Once a method matches exactly, the most specific ones are those that do, whether the others that
take the arguments are considered or not. -/
theorem mostSpecific_filter (ordered : path.Ordered) {methods : List MethodData}
    {considered : MethodData → Bool}
    (wide : ∀ m ∈ methods, isExact args m = true → considered m = true)
    (narrow : ∀ m ∈ methods, considered m = true → isApplicable path args m = true)
    (here : b ∈ methods) (exact : isExact args b = true) :
    mostSpecific path (methods.filter considered) = methods.filter (isExact args) := by
  rw [mostSpecific, List.filter_filter]
  refine List.filter_congr fun m isMethod => Bool.eq_iff_iff.mpr ?_
  rw [Bool.and_eq_true_iff, List.all_eq_true]
  constructor
  · rintro ⟨specific, isConsidered⟩
    have toExact := specific b (List.mem_filter.mpr ⟨here, wide b here exact⟩)
    exact isExact_of_isMoreSpecific ordered exact (narrow m isMethod isConsidered) toExact
  · intro isExact
    refine ⟨fun other isOther => ?_, wide m isMethod isExact⟩
    obtain ⟨isMethod, isConsidered⟩ := List.mem_filter.mp isOther
    exact isMoreSpecific_of_isExact isExact (narrow other isMethod isConsidered)

end Methods

section Choice

/-- Why no method is chosen, given those that take the arguments. -/
def refusal (candidates : List (ClassData × MethodData)) (owner : ClassName) (name : String)
    (args : List ExprType) (applicable : List MethodData) : Cause :=
  let called := calledName owner name
  match applicable, candidates with
  | _ :: _, _ => .ambiguous called
  | [], [] => .unknownMethod (callKind name) called args
  | [], [only] => .notApplicable (callKind name) called only.1.name
  | [], _ => .noSuitable (callKind name) called args

/-- The choice without a preference: of all methods that take the arguments, the first that is at
least as specific as each of them. -/
def selectByWidening (path : ClassPath) (candidates : List (ClassData × MethodData))
    (owner : ClassName) (name : String) (args : List ExprType) : Except Cause MethodData :=
  let applicable := (candidates.map (·.2)).filter (isApplicable path args)
  match applicable.find? fun a => applicable.all (isMoreSpecific path a ·) with
  | some chosen => .ok chosen
  | none => .error (refusal candidates owner name args applicable)

variable {candidates : List (ClassData × MethodData)} {owner : ClassName} {name : String}
  {args : List ExprType}

/-- The methods whose parameter types are those of the arguments or, if there are none, all that
take the arguments. -/
def preferred (path : ClassPath) (methods : List MethodData) (args : List ExprType) :
    List MethodData :=
  if (methods.filter (isExact args)).isEmpty then methods.filter (isApplicable path args)
  else methods.filter (isExact args)

theorem select_eq :
    select path candidates owner name args =
      match (mostSpecific path (preferred path (candidates.map (·.2)) args)).head? with
      | some chosen => .ok chosen
      | none =>
        .error (refusal candidates owner name args
          (preferred path (candidates.map (·.2)) args)) := by
  unfold select
  simp only [← preferred.eq_1]
  cases mostSpecific path (preferred path (candidates.map (·.2)) args) with
  | cons chosen others => rfl
  | nil =>
    cases preferred path (candidates.map (·.2)) args with
    | cons m others => rfl
    | nil =>
      match candidates with
      | [] => rfl
      | [only] => rfl
      | _ :: _ :: _ => rfl

/-- The method that is chosen takes the arguments, and is as specific as any that does. -/
theorem specific_of_select {m : MethodData}
    (h : select path candidates owner name args = .ok m) :
    m ∈ candidates.map (·.2) ∧ isApplicable path args m = true ∧
      ∀ other ∈ candidates.map (·.2), isApplicable path args other = true →
        isMoreSpecific path m other = true := by
  rw [select_eq] at h
  cases isHead : (mostSpecific path (preferred path (candidates.map (·.2)) args)).head? with
  | none =>
    rw [isHead] at h
    cases h
  | some chosen =>
    rw [isHead] at h
    obtain rfl := Except.ok.inj h
    obtain ⟨among, specific⟩ := List.mem_filter.mp (List.mem_of_mem_head? isHead)
    rw [preferred] at among specific
    split at among
    · rename_i none
      rw [if_pos none, List.all_eq_true] at specific
      obtain ⟨here, applicable⟩ := List.mem_filter.mp among
      exact ⟨here, applicable, fun other isOther takes =>
        specific other (List.mem_filter.mpr ⟨isOther, takes⟩)⟩
    · obtain ⟨here, exact⟩ := List.mem_filter.mp among
      exact ⟨here, isApplicable_of_isExact exact, fun _ _ => isMoreSpecific_of_isExact exact⟩

/-- On a class path without cycles and with `java/lang/Object` at the top, to look at the exact
matches first changes neither the method that is chosen nor the reason why none is. -/
theorem select_eq_selectByWidening (ordered : path.Ordered)
    (candidates : List (ClassData × MethodData)) (owner : ClassName) (name : String)
    (args : List ExprType) :
    select path candidates owner name args =
      selectByWidening path candidates owner name args := by
  rw [select_eq, selectByWidening]
  simp only [← List.head?_filter]
  cases exact : (candidates.map (·.2)).filter (isExact args) with
  | nil =>
    have all : preferred path (candidates.map (·.2)) args =
        (candidates.map (·.2)).filter (isApplicable path args) := by
      rw [preferred, exact]
      rfl
    rw [all]
    rfl
  | cons first others =>
    have only : preferred path (candidates.map (·.2)) args =
        (candidates.map (·.2)).filter (isExact args) := by
      rw [preferred, exact]
      rfl
    have member : first ∈ (candidates.map (·.2)).filter (isExact args) := by
      rw [exact]
      exact List.mem_cons_self
    obtain ⟨here, isFirst⟩ := List.mem_filter.mp member
    have among : mostSpecific path ((candidates.map (·.2)).filter (isExact args)) =
        (candidates.map (·.2)).filter (isExact args) :=
      mostSpecific_filter ordered (fun _ _ isExact => isExact)
        (fun _ _ => isApplicable_of_isExact) here isFirst
    have amongAll : mostSpecific path ((candidates.map (·.2)).filter (isApplicable path args)) =
        (candidates.map (·.2)).filter (isExact args) :=
      mostSpecific_filter ordered (fun _ _ => isApplicable_of_isExact)
        (fun _ _ applicable => applicable) here isFirst
    rw [mostSpecific] at amongAll
    rw [only, among, amongAll, exact]
    rfl

/-- A text can be appended as such or as any object. -/
theorem select_eq_selectByWidening_append :
    ClassPath.platform.Ordered ∧
      select .platform (ClassPath.platform.visibleMethods .stringBuilder "append") .stringBuilder
          "append" [.value .string] =
        .ok ⟨"append", ⟨[.string], some (.object .stringBuilder)⟩, false⟩ ∧
      selectByWidening .platform (ClassPath.platform.visibleMethods .stringBuilder "append")
          .stringBuilder "append" [.value .string] =
        .ok ⟨"append", ⟨[.string], some (.object .stringBuilder)⟩, false⟩ := by
  have chosen : select .platform (ClassPath.platform.visibleMethods .stringBuilder "append")
      .stringBuilder "append" [.value .string] =
        .ok ⟨"append", ⟨[.string], some (.object .stringBuilder)⟩, false⟩ :=
    except_eq_ok_of_toOption (by decide +kernel)
  refine ⟨ClassPath.ordered_platform, chosen, ?_⟩
  rw [← select_eq_selectByWidening ClassPath.ordered_platform, chosen]

end Choice

end Typing

end JavaSnippet
