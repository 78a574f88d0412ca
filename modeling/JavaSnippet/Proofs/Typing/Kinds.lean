import JavaSnippet.Proofs.ClassFile.Kinds
import JavaSnippet.Proofs.Typing.Body
import JavaSnippet.Proofs.Typing.Overload
/-!
How the values of terms are kept. Every term that typing gives uses operands of the kinds that its
instructions need, reads only variables that hold a value, and calls methods with arguments of the
kinds of their parameters.
-/
namespace JavaSnippet.Typing

open Source ClassFile
open MethodBody (valueKind?)

theorem kind_of_isIntegral {type : ExprType} (h : type.isIntegral = true) :
    type.kind? = some (if type.isLong then .long else .int) := by
  unfold ExprType.isIntegral at h
  cases type with
  | void => cases h
  | null => cases h
  | value t =>
    cases isBase : t.base? with
    | none =>
      simp only [ExprType.base?, isBase] at h
      cases h
    | some b =>
      obtain rfl := FieldType.eq_base_of_base? isBase
      cases b with
      | double => cases h
      | float => cases h
      | boolean => cases h
      | _ => rfl

section Terms

variable (v : Variables)

/-- The variable of the number was assigned a value of the type. -/
def Variables.Holds (id : Nat) (type : FieldType) : Prop :=
  ∃ state, v.locals[id]? = some state ∧ state.assigned = true ∧ state.type = type

def KindedResult (m : MethodType) : Prop :=
  ∀ t, m.result = some t → ∃ kind, valueKind? t = some kind

mutual

/-- Whether all parts of a term have the kinds that their places need. -/
def Kinded : Term → Prop
  | .int _ | .long _ | .string _ | .bool _ | .null => True
  | .localVar id type => v.Holds id type ∧ ∃ kind, valueKind? type = some kind
  | .neg width operand => Kinded operand ∧ operand.type.kind? = some width.kind
  | .arith _ width left right =>
    (Kinded left ∧ left.type.kind? = some width.kind) ∧
      (Kinded right ∧ right.type.kind? = some width.kind)
  | .widen operand => Kinded operand ∧ operand.type.kind? = some .int
  | .concat parts => KindedParts parts
  | .callStatic _ _ type args => KindedArgs args type.parameters ∧ KindedResult type
  | .callStaticOn receiver _ _ type args =>
    (Kinded receiver ∧ ∃ kind, receiver.type.kind? = some kind) ∧
      KindedArgs args type.parameters ∧ KindedResult type
  | .callInstance receiver _ _ _ type args =>
    (Kinded receiver ∧ receiver.type.kind? = some .reference) ∧
      KindedArgs args type.parameters ∧ KindedResult type
  | .create _ type args => KindedArgs args type.parameters ∧ type.result = none

def KindedParts : List Term → Prop
  | [] => True
  | a :: rest => (Kinded a ∧ ∃ kind, a.type.kind? = some kind) ∧ KindedParts rest

def KindedArgs : List Term → List FieldType → Prop
  | [], [] => True
  | a :: rest, type :: types =>
    (Kinded a ∧ ∃ kind, a.type.kind? = some kind ∧ valueKind? type = some kind) ∧
      KindedArgs rest types
  | _, _ => False

end

end Terms

variable {v : Variables} {path : ClassPath}

/-- A term that gives a value gives one of some kind. -/
theorem Kinded.kind {a : Term} (h : Kinded v a) (used : a.type ≠ .void) :
    ∃ kind, a.type.kind? = some kind := by
  have result : ∀ type : MethodType, KindedResult type → resultType type ≠ .void →
      ∃ kind, (resultType type).kind? = some kind := by
    intro type kinded isValue
    unfold resultType at isValue ⊢
    cases isResult : type.result with
    | none =>
      rw [isResult] at isValue
      exact absurd rfl isValue
    | some t => exact kinded t isResult
  cases a with
  | int n => exact ⟨.int, rfl⟩
  | long n => exact ⟨.long, rfl⟩
  | string text => exact ⟨.reference, rfl⟩
  | bool b => exact ⟨.int, rfl⟩
  | null => exact ⟨.reference, rfl⟩
  | localVar id type =>
    rw [Kinded] at h
    exact h.2
  | neg width operand => exact ⟨_, kind_widthType width⟩
  | arith op width left right => exact ⟨_, kind_widthType width⟩
  | widen operand => exact ⟨.long, rfl⟩
  | concat parts => exact ⟨.reference, rfl⟩
  | callStatic owner method type args =>
    rw [Kinded] at h
    exact result type h.2 used
  | callStaticOn receiver owner method type args =>
    rw [Kinded] at h
    exact result type h.2.2 used
  | callInstance receiver ofInterface owner method type args =>
    rw [Kinded] at h
    exact result type h.2.2 used
  | create owner type args => exact ⟨.reference, rfl⟩

section Conversions

/-- An integer that is made a `long` was none before. -/
theorem kind_of_widened {type : ExprType} (assignable : isAssignable path type .long = true)
    (short : type.isLong = false) (isBase : type.base?.isSome = true) :
    type.kind? = some .int := by
  cases type with
  | void => cases isBase
  | null => cases isBase
  | value t =>
    obtain ⟨b, found⟩ := Option.isSome_iff_exists.mp isBase
    obtain rfl := FieldType.eq_base_of_base? found
    obtain ⟨other, isLong, widens⟩ := isAssignable_base assignable
    obtain rfl := FieldType.base_inj isLong
    cases b with
    | long => cases short
    | boolean => cases widens
    | float => cases widens
    | double => cases widens
    | _ => rfl

/-- A value that is passed as it is has the kind that is wanted. -/
theorem kind_of_kept {type : ExprType} {wanted : FieldType}
    (assignable : isAssignable path type wanted = true)
    (kept : ¬(wanted = .long ∧ type.base?.isSome = true ∧ type.isLong = false)) :
    type.kind? = valueKind? wanted := by
  cases type with
  | void => cases assignable
  | null =>
    have isReference : wanted.base?.isNone = true := assignable
    exact (FieldType.kind_of_reference (Option.isNone_iff_eq_none.mp isReference)).symm
  | value t =>
    cases isBase : t.base? with
    | none =>
      cases isWanted : wanted.base? with
      | none =>
        rw [ExprType.kind?, FieldType.kind_of_reference isBase,
          FieldType.kind_of_reference isWanted]
      | some other =>
        simp only [isAssignable, isBase, isWanted] at assignable
        cases assignable
    | some b =>
      obtain rfl := FieldType.eq_base_of_base? isBase
      obtain ⟨other, rfl, widens⟩ := isAssignable_base assignable
      cases other with
      | long =>
        cases b with
        | long => rfl
        | _ => exact absurd ⟨rfl, rfl, rfl⟩ kept
      | float =>
        cases b with
        | float => rfl
        | _ => cases widens
      | double =>
        cases b with
        | double => rfl
        | _ => cases widens
      | _ =>
        cases b with
        | float => cases widens
        | double => cases widens
        | long => cases widens
        | _ => rfl

theorem kind_of_throwable {type : ExprType} {name : ClassName}
    (h : isAssignable path type (.object name) = true) : type.kind? = some .reference :=
  kind_of_kept h fun widened => by cases widened.1

theorem kind_of_pass {a b : Term} {wanted : FieldType} (kinded : Kinded v a)
    (passed : pass path a wanted = some b) :
    Kinded v b ∧ b.type.kind? = valueKind? wanted := by
  obtain ⟨assignable, ⟨rfl, isBase, short, rfl⟩ | ⟨kept, rfl⟩⟩ := pass_ok passed
  · refine ⟨?_, rfl⟩
    rw [Kinded]
    exact ⟨kinded, kind_of_widened assignable short isBase⟩
  · exact ⟨kinded, kind_of_kept assignable kept⟩

/-- A value that is assigned is of the kind of its variable. -/
theorem kind_of_convert {a b : Term} {wanted : FieldType} (kinded : Kinded v a)
    (converted : convert path a wanted = .ok b) :
    Kinded v b ∧ b.type.kind? = valueKind? wanted := by
  rcases convert_ok converted with ⟨n, rfl, narrowed, rfl⟩ | passed
  · refine ⟨kinded, ?_⟩
    unfold narrows at narrowed
    cases isBase : wanted.base? with
    | none =>
      rw [isBase] at narrowed
      cases narrowed
    | some type =>
      obtain rfl := FieldType.eq_base_of_base? isBase
      cases type with
      | long => cases narrowed
      | float => cases narrowed
      | double => cases narrowed
      | _ => rfl
  · exact kind_of_pass kinded passed

/-- The value can stand where the type is wanted. -/
def Passes (path : ClassPath) (source : ExprType) (wanted : FieldType) : Prop :=
  source = .value wanted ∨ isAssignable path source wanted = true

theorem kind_of_passes {a : Term} {wanted : FieldType} (kinded : Kinded v a)
    (passes : Passes path a.type wanted) :
    Kinded v ((pass path a wanted).getD a) ∧
      ((pass path a wanted).getD a).type.kind? = valueKind? wanted := by
  cases passed : pass path a wanted with
  | some b => exact kind_of_pass kinded passed
  | none =>
    rcases passes with same | assignable
    · exact ⟨kinded, by rw [Option.getD_none, same, ExprType.kind?]⟩
    · unfold pass at passed
      rw [if_pos assignable] at passed
      split at passed
      · cases passed
      · cases passed

theorem kinded_passAll {args : List Term} {types : List FieldType}
    (kinded : ∀ a ∈ args, Kinded v a) (supported : ∀ t ∈ types, t.mentionsFloating = false)
    (count : types.length = args.length)
    (passes : ∀ x ∈ (args.map Term.type).zip types, Passes path x.1 x.2) :
    KindedArgs v (args.zipWith (fun a wanted => (pass path a wanted).getD a) types) types := by
  induction args generalizing types with
  | nil =>
    obtain rfl := List.length_eq_zero_iff.mp count
    trivial
  | cons a args ih =>
    cases types with
    | nil => cases count
    | cons type types =>
      obtain ⟨first, others⟩ := List.forall_mem_cons.mp kinded
      obtain ⟨supportedFirst, supportedOthers⟩ := List.forall_mem_cons.mp supported
      obtain ⟨passesFirst, passesOthers⟩ := List.forall_mem_cons.mp passes
      obtain ⟨kindedFirst, same⟩ := kind_of_passes first passesFirst
      obtain ⟨kind, isKind⟩ := FieldType.kind_of_supported supportedFirst
      rw [List.zipWith_cons_cons, KindedArgs]
      exact ⟨⟨kindedFirst, kind, same.trans isKind, isKind⟩,
        ih others supportedOthers (Nat.succ.inj count) passesOthers⟩

end Conversions

end JavaSnippet.Typing
