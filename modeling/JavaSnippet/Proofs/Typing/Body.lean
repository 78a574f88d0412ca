import JavaSnippet.Proofs.Typing.TypeScope
import JavaSnippet.Typing.Body
/-!
What typing a body without problems does, statement by statement. Every proof about typed bodies
goes through these rules instead of the functions that report problems.
-/
namespace JavaSnippet.Typing

open Source

namespace Variables

/-- Names stand for different variables, which exist. -/
structure Valid (v : Variables) : Prop where
  bounded : ∀ (name : String) (id : Nat), v.numbers[name]? = some id → id < v.locals.size
  injective : ∀ (a b : String) (id : Nat), v.numbers[a]? = some id → v.numbers[b]? = some id → a = b

/-- The types of the variables by number. -/
def types (v : Variables) : List FieldType := (v.locals.map (·.type)).toList

variable {v : Variables}

theorem find?_eq_some {name : String} {id : Nat} {state : LocalVar} :
    v.find? name = some (id, state) ↔ v.numbers[name]? = some id ∧ v.locals[id]? = some state := by
  unfold find?
  split
  · rename_i number found
    rw [found]
    constructor
    · intro h
      obtain ⟨here, isHere, same⟩ := Option.map_eq_some_iff.mp h
      obtain ⟨rfl, rfl⟩ := Prod.mk.inj same
      exact ⟨rfl, isHere⟩
    · rintro ⟨same, isHere⟩
      obtain rfl := Option.some.inj same
      rw [isHere]
      rfl
  · rename_i missing
    rw [missing]
    simp

theorem valid_empty : Valid empty := ⟨by simp [empty], by simp [empty]⟩

theorem Valid.declare (h : v.Valid) (name : String) (state : LocalVar) :
    (v.declare name state).Valid := by
  constructor
  · intro other id found
    simp only [Variables.declare, Std.HashMap.getElem?_insert, Array.size_push] at found ⊢
    split at found
    · obtain rfl := Option.some.inj found
      omega
    · have := h.bounded other id found
      omega
  · intro a b id first second
    simp only [Variables.declare, Std.HashMap.getElem?_insert] at first second
    split at first
    · rename_i isA
      obtain rfl := Option.some.inj first
      split at second
      · rename_i isB
        exact (eq_of_beq isA).symm.trans (eq_of_beq isB)
      · have := h.bounded b _ second
        omega
    · split at second
      · obtain rfl := Option.some.inj second
        have := h.bounded a _ first
        omega
      · exact h.injective a b id first second

theorem Valid.update (h : v.Valid) (id : Nat) (f : LocalVar → LocalVar) :
    (v.update id f).Valid :=
  ⟨fun name other found => by simpa [Variables.update] using h.bounded name other found,
    h.injective⟩

theorem find?_declare (h : v.Valid) (name : String) (state : LocalVar) (other : String) :
    (v.declare name state).find? other =
      if other = name then some (v.locals.size, state) else v.find? other := by
  by_cases same : other = name
  · rw [if_pos same, find?_eq_some]
    simp [Variables.declare, same]
  · rw [if_neg same]
    have numbers : (v.declare name state).numbers[other]? = v.numbers[other]? := by
      simp [Variables.declare, Std.HashMap.getElem?_insert, Ne.symm same]
    unfold find?
    rw [numbers]
    cases found : v.numbers[other]? with
    | none => rfl
    | some id =>
      have inside := h.bounded other id found
      simp [Variables.declare, Array.getElem?_push, Nat.ne_of_lt inside]

theorem find?_update (id : Nat) (f : LocalVar → LocalVar) (name : String) :
    (v.update id f).find? name =
      (v.find? name).map fun found => (found.1, if id = found.1 then f found.2 else found.2) := by
  unfold find? Variables.update
  cases v.numbers[name]? with
  | none => rfl
  | some number =>
    simp only [Array.getElem?_modify]
    cases v.locals[number]? with
    | none => simp
    | some state =>
      by_cases same : id = number
      · simp [same]
      · simp [same]

@[simp] theorem types_empty : empty.types = [] := by simp [types, empty]

@[simp] theorem types_declare (name : String) (state : LocalVar) :
    (v.declare name state).types = v.types ++ [state.type] := by
  simp [types, Variables.declare]

theorem types_update {id : Nat} {f : LocalVar → LocalVar} (keeps : ∀ s, (f s).type = s.type) :
    (v.update id f).types = v.types := by
  unfold types Variables.update
  apply congrArg Array.toList
  ext i here there
  · simp
  · simp only [Array.getElem_map, Array.getElem_modify]
    split
    · exact keeps _
    · rfl

theorem types_assigned (v : Variables) (id : Nat) :
    (v.update id fun s => { s with assigned := true }).types = v.types :=
  types_update fun _ => rfl

theorem length_types : v.types.length = v.locals.size := by simp [types]

theorem types_of_find? {name : String} {id : Nat} {state : LocalVar}
    (h : v.find? name = some (id, state)) : v.types[id]? = some state.type := by
  have here := (find?_eq_some.mp h).2
  simp [types, here]

theorem update_declare (name : String) (state : LocalVar) (f : LocalVar → LocalVar) :
    (v.declare name state).update v.locals.size f = v.declare name (f state) := by
  have last : (v.locals.push state).modify v.locals.size f = v.locals.push (f state) := by
    ext i here there
    · simp
    · simp only [Array.getElem_modify, Array.getElem_push]
      split
      · rename_i same
        simp [same]
      · split
        · rfl
        · rename_i outside
          simp only [Array.size_modify, Array.size_push] at here
          omega
  simp only [Variables.update, Variables.declare, last]

theorem types_foldl_declare {parameters : List (String × FieldType)} :
    (parameters.foldl (fun v p => v.declare p.1 ⟨p.2, true, false⟩) v).types =
      v.types ++ parameters.map (·.2) := by
  induction parameters generalizing v with
  | nil => simp
  | cons p parameters ih =>
    rw [List.foldl_cons, ih, types_declare]
    simp

theorem types_ofSignature {s : Signature}
    (length : s.type.parameters.length ≤ s.parameterNames.length) :
    (ofSignature s).types = s.type.parameters := by
  rw [ofSignature, types_foldl_declare, types_empty, List.nil_append]
  exact List.map_snd_zip length

end Variables

/-- Only terms with a value are used. -/
theorem used_ok {line : Nat} {a b : Term} (h : Place.used line a = .ok b) :
    a = b ∧ a.type ≠ .void := by
  unfold Place.used at h
  split at h
  · cases h
  · rename_i used
    exact ⟨Except.ok.inj h, used⟩

/-- A statement that is typed without a problem, and the variables after it. -/
inductive TypesStmt (c : MethodContext) : Variables → Stmt → TypedStmt → Variables → Prop where
  | declare {v : Variables} {type : TypeName} {name : String} {isFinal : Bool} {line : Nat}
    {fieldType : FieldType} (fresh : v.declares name = false)
    (resolved : c.scope.resolveType type c.enclosing = .ok fieldType) :
    TypesStmt c v (.declare type name isFinal none line) (.declare v.locals.size none)
      (v.declare name ⟨fieldType, false, isFinal⟩)
  | fill {v : Variables} {type : TypeName} {name : String} {isFinal : Bool} {line : Nat}
    {fieldType : FieldType} {e : Expr} {t : Term} (fresh : v.declares name = false)
    (resolved : c.scope.resolveType type c.enclosing = .ok fieldType)
    (typed : (c.place (v.declare name ⟨fieldType, false, false⟩)).assigned e fieldType = .ok t) :
    TypesStmt c v (.declare type name isFinal (some e) line) (.declare v.locals.size (some t))
      (v.declare name ⟨fieldType, true, isFinal⟩)
  | assign {v : Variables} {name : String} {e : Expr} {line id : Nat} {state : LocalVar} {t : Term}
    (found : v.find? name = some (id, state)) (isOpen : ¬(state.isFinal ∧ state.assigned))
    (typed : (c.place v).assigned e state.type = .ok t) :
    TypesStmt c v (.assign name e line) (.store id t)
      (v.update id fun s => { s with assigned := true })
  | returnVoid {v : Variables} {line : Nat} (isVoid : c.signature.type.result = none) :
    TypesStmt c v (.returns none line) (.returns none) v
  | returnValue {v : Variables} {e : Expr} {line : Nat} {type : FieldType} {t : Term}
    (isResult : c.signature.type.result = some type)
    (typed : (c.place v).assigned e type = .ok t) :
    TypesStmt c v (.returns (some e) line) (.returns (some t)) v
  | throws {v : Variables} {e : Expr} {line : Nat} {t : Term}
    (typed : (c.place v).value e = .ok t)
    (throwable : isAssignable c.scope.classPath t.type (.object .throwable) = true) :
    TypesStmt c v (.throws e line) (.throws t) v
  | expr {v : Variables} {e : Expr} {t : Term} (typed : (c.place v).expression e = .ok t) :
    TypesStmt c v (.expr e) (.expr t) v

/-- Statements that are typed without a problem, and whether their end is reached. -/
inductive TypesStmts (c : MethodContext) :
    Variables → List Stmt → List TypedStmt → Variables → Bool → Prop where
  | nil {v : Variables} : TypesStmts c v [] [] v true
  | leave {v after : Variables} {s : Stmt} {t : TypedStmt} (first : TypesStmt c v s t after)
    (leaves : MethodContext.leaves s = true) : TypesStmts c v [s] [t] after false
  | cons {v after final : Variables} {s : Stmt} {t : TypedStmt} {rest : List Stmt}
    {others : List TypedStmt} {reachesEnd : Bool} (first : TypesStmt c v s t after)
    (goesOn : MethodContext.leaves s = false)
    (typed : TypesStmts c after rest others final reachesEnd) :
    TypesStmts c v (s :: rest) (t :: others) final reachesEnd

theorem TypesStmt.types {c : MethodContext} {v after : Variables} {s : Stmt} {t : TypedStmt}
    (h : TypesStmt c v s t after) : v.types <+: after.types := by
  cases h with
  | declare =>
    rw [Variables.types_declare]
    exact List.prefix_append _ _
  | fill =>
    rw [Variables.types_declare]
    exact List.prefix_append _ _
  | assign => exact ⟨[], by rw [List.append_nil, Variables.types_assigned]⟩
  | _ => exact List.prefix_rfl

theorem TypesStmts.types {c : MethodContext} {v final : Variables} {stmts : List Stmt}
    {ts : List TypedStmt} {reachesEnd : Bool} (h : TypesStmts c v stmts ts final reachesEnd) :
    v.types <+: final.types := by
  induction h with
  | nil => exact List.prefix_rfl
  | leave first => exact first.types
  | cons first _ _ ih => exact first.types.trans ih

namespace MethodContext

variable {c : MethodContext} {v after : Variables} {t : TypedStmt}

theorem declaration_ok {type : TypeName} {name : String} {isFinal : Bool} {value : Option Expr}
    {line : Nat} (h : c.declaration v type name isFinal value line = (.ok t, after)) :
    TypesStmt c v (.declare type name isFinal value line) t after := by
  unfold declaration at h
  split at h
  · cases h
  · rename_i fresh
    cases resolved : onLine type.line (c.scope.resolveType type c.enclosing) with
    | error problem =>
      simp only [resolved] at h
      cases h
    | ok fieldType =>
      have isType := onLine_eq_ok.mp resolved
      simp only [resolved, Variables.update_declare] at h
      cases value with
      | none =>
        obtain ⟨same, rfl⟩ := Prod.mk.inj h
        obtain rfl := Except.ok.inj same
        exact .declare (by simpa using fresh) isType
      | some e =>
        simp only at h
        split at h
        · cases h
        · rename_i term typed
          obtain ⟨same, rfl⟩ := Prod.mk.inj h
          obtain rfl := Except.ok.inj same
          exact .fill (by simpa using fresh) isType typed

theorem assignment_ok {name : String} {e : Expr} {line : Nat}
    (h : c.assignment v name e line = (.ok t, after)) :
    TypesStmt c v (.assign name e line) t after := by
  unfold assignment at h
  split at h
  · cases h
  · rename_i id state found
    split at h
    · cases h
    · rename_i isOpen
      split at h
      · cases h
      · rename_i term typed
        obtain ⟨same, rfl⟩ := Prod.mk.inj h
        obtain rfl := Except.ok.inj same
        exact .assign found (by simpa using isOpen) typed

theorem returning_ok {value : Option Expr} {line : Nat} (h : c.returning v value line = .ok t) :
    TypesStmt c v (.returns value line) t v := by
  unfold returning at h
  split at h
  · rename_i isVoid
    obtain rfl := Except.ok.inj h
    exact .returnVoid isVoid
  · cases h
  · cases h
  · rename_i e type isResult
    obtain ⟨term, typed, last⟩ := except_bind_eq_ok.mp h
    obtain rfl := Except.ok.inj last
    exact .returnValue isResult typed

theorem throwing_ok {e : Expr} {line : Nat} (h : c.throwing v e = .ok t) :
    TypesStmt c v (.throws e line) t v := by
  obtain ⟨term, typed, rest⟩ := except_bind_eq_ok.mp h
  split at rest
  · rename_i throwable
    obtain rfl := Except.ok.inj rest
    exact .throws typed throwable
  · cases rest

theorem statement_ok {s : Stmt} (h : c.statement v s = (.ok t, after)) :
    TypesStmt c v s t after := by
  cases s with
  | declare type name isFinal value line => exact declaration_ok h
  | assign name value line => exact assignment_ok h
  | returns value line =>
    obtain ⟨returned, rfl⟩ := Prod.mk.inj h
    exact returning_ok returned
  | throws value line =>
    obtain ⟨thrown, rfl⟩ := Prod.mk.inj h
    exact throwing_ok thrown
  | expr value =>
    obtain ⟨typed, rfl⟩ := Prod.mk.inj h
    cases term : (c.place v).expression value with
    | error problem =>
      rw [term] at typed
      cases typed
    | ok a =>
      rw [term] at typed
      obtain rfl := Except.ok.inj typed
      exact .expr term

/-- Without problems at the end there was none in between, so every statement was typed. -/
theorem statements_ok {stmts : List Stmt} {p : Progress}
    (h : (c.statements p stmts).1.problems = []) :
    p.problems = [] ∧ ∃ ts final reachesEnd,
      c.statements p stmts = (⟨final, ts.reverse ++ p.body, []⟩, reachesEnd) ∧
        TypesStmts c p.vars stmts ts final reachesEnd := by
  induction stmts generalizing p with
  | nil =>
    obtain ⟨vars, body, problems⟩ := p
    obtain rfl : problems = [] := h
    exact ⟨rfl, [], vars, true, rfl, .nil⟩
  | cons s rest ih =>
    rw [statements] at h ⊢
    cases step : c.statement p.vars s with
    | mk result vars =>
      simp only [step] at h ⊢
      cases result with
      | error problem =>
        simp only at h
        split at h
        · split at h
          · cases h
          · cases h
        · have clean := (ih h).1
          cases clean
      | ok t =>
        have typed := statement_ok step
        simp only at h ⊢
        split at h
        · rename_i leaves
          rw [if_pos leaves]
          cases rest with
          | nil =>
            have clean : p.problems = [] := h
            refine ⟨clean, [t], vars, false, ?_, .leave typed leaves⟩
            simp [clean]
          | cons next rest => cases h
        · rename_i goesOn
          rw [if_neg goesOn]
          obtain ⟨clean, ts, final, reachesEnd, result, others⟩ := ih h
          refine ⟨clean, t :: ts, final, reachesEnd, ?_, ?_⟩
          · rw [result]
            simp
          · exact .cons typed (by simpa using goesOn) others

/-- A body without problems is typed statement by statement, and its end is only reached when
there is nothing to return. -/
theorem body_ok {stmts : List Stmt} (h : (c.body stmts).2 = []) :
    ∃ ts final reachesEnd, (c.body stmts).1 = ⟨c.signature, final.types, ts, reachesEnd⟩ ∧
      TypesStmts c (.ofSignature c.signature) stmts ts final reachesEnd ∧
      (reachesEnd = true → c.signature.type.result = none) := by
  unfold body at h ⊢
  obtain ⟨problems, missing⟩ := List.append_eq_nil_iff.mp h
  have clean := List.reverse_eq_nil_iff.mp problems
  obtain ⟨-, ts, final, reachesEnd, result, typed⟩ := statements_ok clean
  refine ⟨ts, final, reachesEnd, ?_, typed, ?_⟩
  · simp [result, Variables.types]
  · intro reached
    simpa [result, reached] using missing

end MethodContext

end JavaSnippet.Typing
