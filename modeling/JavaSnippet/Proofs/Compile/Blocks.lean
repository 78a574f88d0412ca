import JavaSnippet.Proofs.ClassFile.References
import JavaSnippet.Proofs.Compile.Requests
/-!
The blocks that code is put together from. A property of instructions that holds of every block, and
of blocks that are put behind each other, holds of the code of all terms and statements.
-/
namespace JavaSnippet.Compile

open ClassFile Typing Machine
open Pool (Request)

/-- A property of instructions and of what is asked for to write them. It holds of every block and
stays when more instructions are put behind. -/
structure Composes (t : ConstantTable) (Q : List Request → List Instruction → Prop) : Prop where
  nil : Q [] []
  append {rs ss : List Request} {xs ys : List Instruction} :
    Q rs xs → Q ss ys → Q (rs ++ ss) (xs ++ ys)
  plain {i : Instruction} (rs : List Request) : Plain i → (Operation.of i).Names t →
    (∀ index, i ≠ .newObject index) → Q rs [i]
  newObject {index : PoolIndex} {name : String} : t.className? index = some name →
    Q [.classRef name] [.newObject index, .dup]
  call {kind : InvokeKind} {owner : ClassName} {method : String} {type : MethodType}
    {i : Instruction} (rs : List Request) : CodesCall t kind owner method type i → Q rs [i]

namespace Composes

variable {t : ConstantTable} {Q : List Request → List Instruction → Prop} {slots : SlotMap}
  {rs : List Request} {xs ys : List Instruction}

theorem behind (h : Composes t Q) (first : Q rs xs) (others : Q [] ys) : Q rs (xs ++ ys) := by
  have whole := h.append first others
  rwa [List.append_nil] at whole

theorem int (h : Composes t Q) {value : Int32} {i : Instruction} (codes : CodesInt t value i) :
    Q rs [i] := by
  obtain ⟨low, high, rfl⟩ | ⟨index, rfl, found⟩ := codes
  · exact h.plain rs ⟨low, high⟩ trivial (by simp)
  · exact h.plain rs trivial (.inl ⟨value, found⟩) (by simp)

theorem long (h : Composes t Q) {value : Int64} {i : Instruction} (codes : CodesLong t value i) :
    Q rs [i] := by
  obtain ⟨small, rfl⟩ | ⟨index, rfl, found⟩ := codes
  · exact h.plain rs small trivial (by simp)
  · exact h.plain rs trivial ⟨value, found⟩ (by simp)

theorem drop (h : Composes t Q) (type : ExprType) : Q [] (dropCode type) := by
  cases type with
  | void => exact h.nil
  | null => exact h.plain [] trivial trivial (by simp)
  | value type =>
    show Q [] [if width type = 2 then .pop2 else .pop]
    split
    · exact h.plain [] trivial trivial (by simp)
    · exact h.plain [] trivial trivial (by simp)

mutual

theorem term (h : Composes t Q) : ∀ (a : Term) {is : List Instruction}, Codes t slots a is →
    Q (requestsOfTerm a) is
  | .int value, is, codes | .bool value, is, codes => by
    rw [Codes] at codes
    obtain ⟨i, isInt, rfl⟩ := codes
    exact h.int isInt
  | .long value, is, codes => by
    rw [Codes] at codes
    obtain ⟨i, isLong, rfl⟩ := codes
    exact h.long isLong
  | .string text, is, codes => by
    rw [Codes] at codes
    obtain ⟨index, content, found, -, rfl⟩ := codes
    exact h.plain _ trivial (.inr ⟨content, found⟩) (by simp)
  | .null, is, codes => by
    rw [Codes] at codes
    obtain rfl := codes
    exact h.plain _ trivial trivial (by simp)
  | .localVar id type, is, codes => by
    rw [Codes] at codes
    obtain ⟨kind, slot, -, -, rfl⟩ := codes
    exact h.plain _ trivial trivial (by simp)
  | .neg width operand, is, codes | .widen operand, is, codes => by
    rw [Codes] at codes
    obtain ⟨xs, inner, rfl⟩ := codes
    rw [requestsOfTerm]
    exact h.behind (h.term operand inner) (h.plain [] trivial trivial (by simp))
  | .arith op width left right, is, codes => by
    rw [Codes] at codes
    obtain ⟨xs, ys, onLeft, onRight, rfl⟩ := codes
    rw [requestsOfTerm]
    exact h.append (h.term left onLeft)
      (h.behind (h.term right onRight) (h.plain [] trivial trivial (by simp)))
  | .concat parts, is, codes => by
    rw [Codes] at codes
    obtain ⟨builder, create, finish, xs, isBuilder, creates, inner, finishes, rfl⟩ := codes
    rw [requestsOfTerm]
    exact h.append (h.append (h.newObject isBuilder) (h.call _ creates))
      (h.append (h.parts parts inner) (h.call _ finishes))
  | .callStatic owner method type args, is, codes => by
    rw [Codes] at codes
    obtain ⟨xs, call, inner, calls, rfl⟩ := codes
    rw [requestsOfTerm]
    exact h.append (h.terms args inner) (h.call _ calls)
  | .callStaticOn receiver owner method type args, is, codes => by
    rw [Codes] at codes
    obtain ⟨xs, ys, call, onReceiver, inner, calls, rfl⟩ := codes
    rw [requestsOfTerm]
    have called := h.append (h.drop receiver.type)
      (h.append (h.terms args inner) (h.call [.methodRef owner method type false] calls))
    exact h.append (h.term receiver onReceiver) called
  | .callInstance receiver ofInterface owner method type args, is, codes => by
    rw [Codes] at codes
    obtain ⟨xs, ys, call, onReceiver, inner, calls, rfl⟩ := codes
    rw [requestsOfTerm]
    exact h.append (h.term receiver onReceiver)
      (h.append (h.terms args inner) (h.call _ calls))
  | .create owner type args, is, codes => by
    rw [Codes] at codes
    obtain ⟨object, xs, call, isObject, inner, calls, rfl⟩ := codes
    rw [requestsOfTerm]
    exact h.append (h.newObject isObject) (h.append (h.terms args inner) (h.call _ calls))

theorem terms (h : Composes t Q) : ∀ (as : List Term) {is : List Instruction},
    CodesAll t slots as is → Q (requestsOfTerms as) is
  | [], is, codes => by
    rw [CodesAll] at codes
    exact codes ▸ h.nil
  | a :: rest, is, codes => by
    rw [CodesAll] at codes
    obtain ⟨xs, ys, first, others, rfl⟩ := codes
    rw [requestsOfTerms]
    exact h.append (h.term a first) (h.terms rest others)

theorem parts (h : Composes t Q) : ∀ (parts : List Term) {is : List Instruction},
    CodesParts t slots parts is → Q (requestsOfParts parts) is
  | [], is, codes => by
    rw [CodesParts] at codes
    exact codes ▸ h.nil
  | a :: rest, is, codes => by
    rw [CodesParts] at codes
    obtain ⟨xs, append, ys, first, appends, others, rfl⟩ := codes
    rw [requestsOfParts]
    exact h.append (h.term a first)
      (h.append (h.call [appendRequest a.type] appends) (h.parts rest others))

end

theorem returned (h : Composes t Q) {result : Option FieldType} {i : Instruction}
    (codes : CodesReturn result i) : Q [] [i] := by
  cases result with
  | none =>
    obtain rfl := codes
    exact h.plain [] trivial trivial (by simp)
  | some type =>
    obtain ⟨kind, -, rfl⟩ := codes
    exact h.plain [] trivial trivial (by simp)

variable {m : TypedMethod}

theorem statement (h : Composes t Q) {after : SlotMap} {next later : Nat} {s : TypedStmt}
    {is : List Instruction} (codes : CodesStmt t m slots next s is after later) :
    Q (requestsOfStmt s) is := by
  cases codes with
  | declare => exact h.nil
  | fill _ codes => exact h.behind (h.term _ codes) (h.plain [] trivial trivial (by simp))
  | store _ codes => exact h.behind (h.term _ codes) (h.plain [] trivial trivial (by simp))
  | @returns value _ last codes isReturn =>
    cases value with
    | none =>
      obtain rfl := codes
      exact h.returned isReturn
    | some a => exact h.behind (h.term a codes) (h.returned isReturn)
  | throws codes => exact h.behind (h.term _ codes) (h.plain [] trivial trivial (by simp))
  | expr codes => exact h.behind (h.term _ codes) (h.drop _)

theorem statements (h : Composes t Q) {next : Nat} {body : List TypedStmt}
    {blocks : List (List Instruction)} (codes : CodesStmts t m slots next body blocks) :
    Q (body.flatMap requestsOfStmt) blocks.flatten := by
  induction codes with
  | nil => exact h.nil
  | cons first _ ih => exact h.append (h.statement first) ih

/-- The code of a whole body has the property. -/
theorem body (h : Composes t Q) {next : Nat} {body : List TypedStmt}
    {blocks : List (List Instruction)} (codes : CodesStmts t m slots next body blocks) :
    Q (body.flatMap requestsOfStmt) (closed m blocks).flatten := by
  unfold closed
  split
  · rw [List.flatten_append]
    exact h.behind (h.statements codes) (h.plain [] trivial trivial (by simp))
  · exact h.statements codes

theorem constructor (h : Composes t Q) {call : Instruction}
    (calls : CodesCall t .special .object "<init>" noArguments call) :
    Q [] (constructorCode call) := by
  have loaded : Q [] [.load .reference 0] := h.plain [] trivial trivial (by simp)
  have returned : Q [] [.returnVoid] := h.plain [] trivial trivial (by simp)
  exact h.append loaded (h.append (h.call [] calls) returned)

end Composes

end JavaSnippet.Compile
