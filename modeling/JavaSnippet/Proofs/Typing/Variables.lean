import JavaSnippet.Proofs.Typing.Body
import Mathlib.Tactic.Tauto
/-!
The variables of a method by name. A local variable never has the name of a variable before it, and
a final one is not assigned once it holds a value. Parameters are declared without a look at either:
of two with one name the last has it, and none is final, whatever was written in front of it.
-/
namespace JavaSnippet.Source

namespace Stmt

/-- The variable that a statement declares, if any. -/
def declared : Stmt → List String
  | declare _ name _ _ _ => [name]
  | _ => []

/-- The variable that a statement declares final. -/
def declaredFinal : Stmt → List String
  | declare _ name isFinal _ _ => if isFinal then [name] else []
  | _ => []

/-- The variable that a statement assigns to. -/
def assigned : Stmt → List String
  | assign name _ _ => [name]
  | _ => []

/-- The variable that a statement gives a value. -/
def filled : Stmt → List String
  | declare _ name _ value _ => if value.isSome then [name] else []
  | assign name _ _ => [name]
  | _ => []

theorem nodup_declared (s : Stmt) : s.declared.Nodup := by
  cases s <;> simp [declared]

end Stmt

namespace MethodDecl

variable (m : MethodDecl)

def parameterNames : List String := m.parameters.map (·.name)

def localNames : List String := m.body.flatMap Stmt.declared

def assignedNames : List String := m.body.flatMap Stmt.assigned

/-- No local variable has the name of a parameter or of another local variable. -/
structure LocalsDiffer : Prop where
  fresh : ∀ name ∈ m.localNames, name ∉ m.parameterNames
  nodup : m.localNames.Nodup

/-- No assignment is to a final variable that holds a value, when these parameters are final too.
Parameters always hold a value. -/
def FinalsKept (finals : List String) : Prop :=
  ∀ before name value line after, m.body = before ++ .assign name value line :: after →
    name ∈ finals ++ before.flatMap Stmt.declaredFinal →
    name ∉ m.parameterNames ++ before.flatMap Stmt.filled

variable {m}

/-- Whether all names differ is up to the parameters. -/
theorem LocalsDiffer.nodup_append_iff (h : m.LocalsDiffer) :
    (m.parameterNames ++ m.localNames).Nodup ↔ m.parameterNames.Nodup := by
  rw [List.nodup_append]
  constructor
  · exact fun all => all.1
  · intro parameters
    refine ⟨parameters, h.nodup, ?_⟩
    rintro name isParameter other isLocal rfl
    exact h.fresh name isLocal isParameter

end MethodDecl

/-- The word `final` in front of a parameter leaves nothing behind. -/
theorem Parser.parameter_final {line endLine : Nat} {rest : List Lexeme}
    (once : rest.head?.map (·.token) ≠ some (.word "final")) :
    Parser.parameter ⟨⟨.word "final", line⟩ :: rest, endLine⟩ =
      Parser.parameter ⟨rest, endLine⟩ := by
  have taken : Parser.eatWord "final" ⟨⟨.word "final", line⟩ :: rest, endLine⟩ =
      .ok (true, ⟨rest, endLine⟩) := rfl
  have missed : Parser.eatWord "final" ⟨rest, endLine⟩ = .ok (false, ⟨rest, endLine⟩) := by
    have other : (rest.head?.map (·.token) == some (.word "final")) = false := by simpa using once
    have next : Parser.isNext (.word "final") ⟨rest, endLine⟩ = .ok (false, ⟨rest, endLine⟩) :=
      congrArg (fun found => Except.ok (found, Lexemes.mk rest endLine)) other
    rw [Parser.eatWord, Parser.eat, StateExcept.bind_apply, next]
    rfl
  unfold Parser.parameter
  rw [StateExcept.bind_apply, StateExcept.bind_apply, taken, missed]

end JavaSnippet.Source

namespace JavaSnippet.Typing

open Source

namespace Variables

variable {v : Variables} {names : List String}

/-- Variables with these names, in the order of their numbers. A name stands for the last variable
that has it. -/
structure Named (v : Variables) (names : List String) : Prop where
  size : v.locals.size = names.length
  declares : ∀ name, v.declares name = true ↔ name ∈ names
  number : ∀ name (id : Nat), v.numbers[name]? = some id ↔
    names[id]? = some name ∧ name ∉ names.drop (id + 1)

theorem last_append {name other : String} {id : Nat} :
    ((names ++ [name])[id]? = some other ∧ other ∉ (names ++ [name]).drop (id + 1)) ↔
      if name = other then names.length = id
      else names[id]? = some other ∧ other ∉ names.drop (id + 1) := by
  rcases Nat.lt_trichotomy id names.length with inside | rfl | outside
  · rw [List.getElem?_append_left inside, List.drop_append_of_le_length inside, List.mem_append,
      List.mem_singleton]
    split
    · rename_i same
      have differ : names.length ≠ id := by omega
      tauto
    · rename_i differ
      have apart : other ≠ name := fun same => differ same.symm
      tauto
  · simp
  · have after : names.length + 1 ≤ id := outside
    rw [List.getElem?_eq_none (by simpa using after), List.getElem?_eq_none (by omega)]
    have differ : names.length ≠ id := by omega
    simp [differ]

theorem named_empty : empty.Named [] :=
  ⟨rfl, by simp [declares, empty], by simp [empty]⟩

theorem Named.declare (h : v.Named names) (name : String) (state : LocalVar) :
    (v.declare name state).Named (names ++ [name]) := by
  refine ⟨?_, ?_, ?_⟩
  · simp [Variables.declare, h.size]
  · intro other
    have old := h.declares other
    simp only [Variables.declares] at old
    simp only [Variables.declares, Variables.declare, Std.HashMap.contains_insert, Bool.or_eq_true,
      old, List.mem_append, List.mem_singleton, beq_iff_eq]
    tauto
  · intro other id
    rw [last_append, ← h.number other id, ← h.size]
    simp only [Variables.declare, Std.HashMap.getElem?_insert, beq_iff_eq]
    split
    · exact Option.some_inj
    · rfl

theorem Named.update (h : v.Named names) (id : Nat) (f : LocalVar → LocalVar) :
    (v.update id f).Named names :=
  ⟨by simp [Variables.update, h.size], h.declares, h.number⟩

theorem Named.foldl_declare (h : v.Named names) (parameters : List (String × FieldType)) :
    (parameters.foldl (fun v p => v.declare p.1 ⟨p.2, true, false⟩) v).Named
      (names ++ parameters.map (·.1)) := by
  induction parameters generalizing v names with
  | nil => simpa using h
  | cons p parameters ih =>
    have rest := ih (h.declare p.1 ⟨p.2, true, false⟩)
    rwa [List.append_assoc] at rest

theorem named_ofSignature {s : Signature}
    (length : s.parameterNames.length ≤ s.type.parameters.length) :
    (ofSignature s).Named s.parameterNames := by
  have named := named_empty.foldl_declare (s.parameterNames.zip s.type.parameters)
  rwa [List.nil_append, List.map_fst_zip length] at named

theorem declares_declare (name : String) (state : LocalVar) (other : String) :
    (v.declare name state).declares other = true ↔ name = other ∨ v.declares other = true := by
  simp [declares, Variables.declare]

theorem declares_of_number {name : String} {id : Nat} (h : v.numbers[name]? = some id) :
    v.declares name = true := by
  rw [declares, Std.HashMap.contains_eq_isSome_getElem?, h]
  rfl

/-- The names of the variables that a flag is set for. -/
structure Lists (v : Variables) (flag : LocalVar → Bool) (names : List String) : Prop where
  known : ∀ name ∈ names, v.declares name = true
  mem_iff : ∀ name id state, v.find? name = some (id, state) → (name ∈ names ↔ flag state = true)

variable {flag : LocalVar → Bool}

theorem lists_empty : empty.Lists flag [] := ⟨by simp, by simp [find?, empty]⟩

theorem mem_append_ite {name other : String} {holds : Bool} :
    other ∈ names ++ (if holds then [name] else []) ↔
      other ∈ names ∨ name = other ∧ holds = true := by
  cases holds
  · simp
  · simp [eq_comm]

/-- A variable with the name of a listed one has to be listed too. -/
theorem Lists.declare (h : v.Lists flag names) (valid : v.Valid) {name : String} {state : LocalVar}
    (stays : name ∈ names → flag state = true) :
    (v.declare name state).Lists flag (names ++ if flag state then [name] else []) := by
  refine ⟨fun other listed => ?_, fun other id found isFound => ?_⟩
  · rw [declares_declare]
    exact (mem_append_ite.mp listed).symm.imp And.left (h.known other)
  · rw [mem_append_ite]
    rw [find?_declare valid] at isFound
    split at isFound
    · rename_i same
      obtain ⟨-, rfl⟩ := Prod.mk.inj (Option.some.inj isFound)
      subst same
      tauto
    · rename_i apart
      have old := h.mem_iff other id found isFound
      have differ : name ≠ other := Ne.symm apart
      tauto

theorem Lists.declare_fresh (h : v.Lists flag names) (valid : v.Valid) {name : String}
    (fresh : v.declares name = false) (state : LocalVar) :
    (v.declare name state).Lists flag (names ++ if flag state then [name] else []) := by
  refine h.declare valid fun listed => ?_
  rw [h.known name listed] at fresh
  cases fresh

/-- A change of one variable that sets the flag, or leaves it as it is. -/
theorem Lists.update (h : v.Lists flag names) (valid : v.Valid) {name : String} {id : Nat}
    {state : LocalVar} (found : v.find? name = some (id, state)) {f : LocalVar → LocalVar}
    {holds : Bool} (change : ∀ s, flag (f s) = (holds || flag s)) :
    (v.update id f).Lists flag (names ++ if holds then [name] else []) := by
  refine ⟨fun other listed => ?_, fun other number updated isFound => ?_⟩
  · rcases mem_append_ite.mp listed with old | ⟨rfl, -⟩
    · exact h.known other old
    · exact declares_of_number (find?_eq_some.mp found).1
  · rw [mem_append_ite]
    rw [find?_update] at isFound
    obtain ⟨⟨place, before⟩, isBefore, same⟩ := Option.map_eq_some_iff.mp isFound
    obtain ⟨rfl, rfl⟩ := Prod.mk.inj same
    rw [h.mem_iff other place before isBefore]
    by_cases isName : name = other
    · subst isName
      obtain ⟨rfl, rfl⟩ := Prod.mk.inj (Option.some.inj (found.symm.trans isBefore))
      rw [if_pos rfl, change, Bool.or_eq_true]
      tauto
    · have apart : id ≠ place := by
        rintro rfl
        exact isName (valid.injective name other id (find?_eq_some.mp found).1
          (find?_eq_some.mp isBefore).1)
      rw [if_neg apart]
      tauto

/-- Variables of which these are final and those hold a value. -/
structure Tracked (v : Variables) (finals filled : List String) : Prop where
  valid : v.Valid
  finals : v.Lists LocalVar.isFinal finals
  filled : v.Lists LocalVar.assigned filled

theorem tracked_empty : empty.Tracked [] [] := ⟨valid_empty, lists_empty, lists_empty⟩

theorem Tracked.foldl_declare {filled : List String} (h : v.Tracked [] filled)
    (parameters : List (String × FieldType)) :
    (parameters.foldl (fun v p => v.declare p.1 ⟨p.2, true, false⟩) v).Tracked []
      (filled ++ parameters.map (·.1)) := by
  induction parameters generalizing v filled with
  | nil => simpa using h
  | cons p parameters ih =>
    have first : (v.declare p.1 ⟨p.2, true, false⟩).Tracked [] (filled ++ [p.1]) :=
      ⟨h.valid.declare _ _, h.finals.declare h.valid (by simp),
        h.filled.declare h.valid fun _ => rfl⟩
    have rest := ih first
    rwa [List.append_assoc] at rest

theorem tracked_ofSignature {s : Signature}
    (length : s.parameterNames.length ≤ s.type.parameters.length) :
    (ofSignature s).Tracked [] s.parameterNames := by
  have tracked := tracked_empty.foldl_declare (s.parameterNames.zip s.type.parameters)
  rwa [List.nil_append, List.map_fst_zip length] at tracked

end Variables

section Statements

variable {c : MethodContext} {v after final : Variables} {s : Stmt} {t : TypedStmt}
  {stmts : List Stmt} {ts : List TypedStmt} {reachesEnd : Bool} {names finals filled : List String}

theorem TypesStmt.named (h : TypesStmt c v s t after) (named : v.Named names) :
    after.Named (names ++ s.declared) := by
  cases h with
  | declare | fill => exact named.declare _ _
  | assign => simpa [Stmt.declared] using named.update _ _
  | _ => simpa [Stmt.declared] using named

/-- A statement that declares a variable has a new name for it. -/
theorem TypesStmt.fresh (h : TypesStmt c v s t after) (named : v.Named names) :
    ∀ name ∈ s.declared, name ∉ names := by
  intro name declared known
  have isKnown := (named.declares name).mpr known
  cases h with
  | declare fresh | fill fresh =>
    obtain rfl := List.mem_singleton.mp declared
    rw [isKnown] at fresh
    cases fresh
  | _ => cases declared

theorem TypesStmt.tracked (h : TypesStmt c v s t after) (tracked : v.Tracked finals filled) :
    after.Tracked (finals ++ s.declaredFinal) (filled ++ s.filled) := by
  cases h with
  | declare fresh | fill fresh =>
    exact ⟨tracked.valid.declare _ _, tracked.finals.declare_fresh tracked.valid fresh _,
      tracked.filled.declare_fresh tracked.valid fresh _⟩
  | @assign name e line id state t found =>
    have finals : (v.update id fun s => { s with assigned := true }).Lists LocalVar.isFinal
        (finals ++ if false then [name] else []) :=
      tracked.finals.update tracked.valid found fun _ => rfl
    have filled : (v.update id fun s => { s with assigned := true }).Lists LocalVar.assigned
        (filled ++ if true then [name] else []) :=
      tracked.filled.update tracked.valid found fun _ => rfl
    exact ⟨tracked.valid.update _ _, finals, filled⟩
  | _ => simpa [Stmt.declaredFinal, Stmt.filled] using tracked

theorem TypesStmts.named (h : TypesStmts c v stmts ts final reachesEnd) (named : v.Named names) :
    final.Named (names ++ stmts.flatMap Stmt.declared) := by
  induction h generalizing names with
  | nil => simpa using named
  | leave first => simpa using first.named named
  | cons first _ _ ih =>
    rw [List.flatMap_cons, ← List.append_assoc]
    exact ih (first.named named)

theorem TypesStmts.tracked (h : TypesStmts c v stmts ts final reachesEnd)
    (tracked : v.Tracked finals filled) :
    final.Tracked (finals ++ stmts.flatMap Stmt.declaredFinal)
      (filled ++ stmts.flatMap Stmt.filled) := by
  induction h generalizing finals filled with
  | nil => simpa using tracked
  | leave first => simpa using first.tracked tracked
  | cons first _ _ ih =>
    rw [List.flatMap_cons, List.flatMap_cons, ← List.append_assoc, ← List.append_assoc]
    exact ih (first.tracked tracked)

/-- Each statement is typed where those before it lead. -/
theorem TypesStmts.split {before rest : List Stmt}
    (h : TypesStmts c v (before ++ s :: rest) ts final reachesEnd) :
    ∃ first mid t next, TypesStmts c v before first mid true ∧ TypesStmt c mid s t next := by
  induction before generalizing v ts with
  | nil =>
    cases h with
    | leave first | cons first => exact ⟨[], v, _, _, .nil, first⟩
  | cons b before ih =>
    rw [List.cons_append] at h
    generalize later : before ++ s :: rest = others at h
    cases h with
    | leave => simp at later
    | cons first goesOn typed =>
      subst later
      obtain ⟨others, mid, t, next, lead, isTyped⟩ := ih typed
      exact ⟨_, mid, t, next, .cons first goesOn lead, isTyped⟩

/-- Declared names are new, and differ from each other. -/
theorem TypesStmts.fresh (h : TypesStmts c v stmts ts final reachesEnd) (named : v.Named names) :
    (∀ name ∈ stmts.flatMap Stmt.declared, name ∉ names) ∧
      (stmts.flatMap Stmt.declared).Nodup := by
  induction h generalizing names with
  | nil => simp
  | @leave v after s t first =>
    rw [List.flatMap_singleton]
    exact ⟨first.fresh named, s.nodup_declared⟩
  | @cons v after final s t rest others reachesEnd first goesOn typed ih =>
    obtain ⟨fresh, nodup⟩ := ih (first.named named)
    rw [List.flatMap_cons]
    constructor
    · intro name declared
      rcases List.mem_append.mp declared with here | later
      · exact first.fresh named name here
      · exact fun old => fresh name later (List.mem_append_left _ old)
    · refine List.nodup_append.mpr ⟨s.nodup_declared, nodup, ?_⟩
      rintro name here other later rfl
      exact fresh name later (List.mem_append_right _ here)

/-- An assignment is to a variable that is not final, or holds no value. -/
theorem TypesStmt.isOpen {name : String} {e : Expr} {line : Nat}
    (h : TypesStmt c v (.assign name e line) t after) (tracked : v.Tracked finals filled) :
    name ∈ finals → name ∉ filled := by
  intro isFinal isFilled
  cases h with
  | assign found isOpen =>
    exact isOpen ⟨(tracked.finals.mem_iff name _ _ found).mp isFinal,
      (tracked.filled.mem_iff name _ _ found).mp isFilled⟩

end Statements

section Methods

variable {c : MethodContext} {m : MethodDecl} {scope : TypeScope} {enclosing : List ClassName}
  {ts : List TypedStmt} {final : Variables} {reachesEnd : Bool}

theorem parameterNames_of_signature {s : Signature} (h : scope.signature m enclosing = .ok s) :
    s.parameterNames = m.parameterNames ∧
      s.parameterNames.length = s.type.parameters.length := by
  obtain ⟨-, -, names, types, -⟩ := TypeScope.signature_ok h
  have lengths := congrArg List.length types
  rw [List.length_map, List.length_map] at lengths
  exact ⟨names, by rw [names, List.length_map, lengths]⟩

theorem named_of_signature {s : Signature} (h : scope.signature m enclosing = .ok s) :
    (Variables.ofSignature s).Named m.parameterNames := by
  obtain ⟨names, length⟩ := parameterNames_of_signature h
  exact names ▸ Variables.named_ofSignature (Nat.le_of_eq length)

theorem tracked_of_signature {s : Signature} (h : scope.signature m enclosing = .ok s) :
    (Variables.ofSignature s).Tracked [] m.parameterNames := by
  obtain ⟨names, length⟩ := parameterNames_of_signature h
  exact names ▸ Variables.tracked_ofSignature (Nat.le_of_eq length)

theorem TypesStmts.localsDiffer (head : scope.signature m enclosing = .ok c.signature)
    (h : TypesStmts c (.ofSignature c.signature) m.body ts final reachesEnd) : m.LocalsDiffer := by
  obtain ⟨fresh, nodup⟩ := h.fresh (named_of_signature head)
  exact ⟨fresh, nodup⟩

/-- Final local variables are kept. Final parameters are kept only if nothing assigns to them. -/
theorem TypesStmts.finalsKept_iff (head : scope.signature m enclosing = .ok c.signature)
    (h : TypesStmts c (.ofSignature c.signature) m.body ts final reachesEnd) {finals : List String}
    (parameters : finals ⊆ m.parameterNames) :
    m.FinalsKept finals ↔ ∀ name ∈ finals, name ∉ m.assignedNames := by
  constructor
  · -- A parameter holds a value from the start, so any assignment to it counts.
    intro kept name isFinal assigned
    obtain ⟨s, here, isAssigned⟩ := List.mem_flatMap.mp assigned
    cases s with
    | assign other value line =>
      obtain rfl := List.mem_singleton.mp isAssigned
      obtain ⟨before, rest, split⟩ := List.append_of_mem here
      exact kept before name value line rest split (List.mem_append_left _ isFinal)
        (List.mem_append_left _ (parameters isFinal))
    | _ => cases isAssigned
  · intro untouched before name value line rest split isFinal
    rcases List.mem_append.mp isFinal with isParameter | isLocal
    · refine absurd ?_ (untouched name isParameter)
      rw [MethodDecl.assignedNames, split, List.flatMap_append, List.flatMap_cons]
      exact List.mem_append_right _ (List.mem_append_left _ List.mem_cons_self)
    · rw [split] at h
      obtain ⟨first, mid, t, next, lead, typed⟩ := h.split
      exact typed.isOpen (lead.tracked (tracked_of_signature head)) isLocal

end Methods

namespace MethodContext

variable {c : MethodContext} {v : Variables}

/-- The variables after some statements, whatever is wrong with them. -/
def varsAfter (c : MethodContext) (v : Variables) (stmts : List Stmt) : Variables :=
  stmts.foldl (fun v s => (c.statement v s).2) v

/-- A parameter has the name, or a variable that was declared with a type that exists. -/
def Known (c : MethodContext) (before : List Stmt) (name : String) : Prop :=
  name ∈ c.signature.parameterNames ∨ ∃ type isFinal value line t,
    .declare type name isFinal value line ∈ before ∧
      c.scope.resolveType type c.enclosing = .ok t

theorem declaration_redefined {type : TypeName} {name : String} {isFinal : Bool}
    {value : Option Expr} {line : Nat} (known : v.declares name = true) :
    c.declaration v type name isFinal value line =
      (reportAt line (.redefined name c.signature), v) := by
  rw [declaration, if_pos known]

/-- A declaration adds its variable, unless its type does not exist or its name is taken. -/
theorem vars_declaration (type : TypeName) (name : String) (isFinal : Bool) (value : Option Expr)
    (line : Nat) :
    (c.declaration v type name isFinal value line).2 = v ∧
        ((∃ cause, c.scope.resolveType type c.enclosing = .error cause) ∨ v.declares name = true) ∨
      ∃ state, (c.declaration v type name isFinal value line).2 = v.declare name state := by
  unfold declaration
  split
  · rename_i known
    exact .inl ⟨rfl, .inr known⟩
  · cases resolved : c.scope.resolveType type c.enclosing with
    | error cause => exact .inl ⟨rfl, .inl ⟨cause, rfl⟩⟩
    | ok fieldType =>
      refine .inr ?_
      simp only [onLine, Variables.update_declare]
      cases value with
      | none => exact ⟨_, rfl⟩
      | some e =>
        simp only
        split
        · exact ⟨_, rfl⟩
        · exact ⟨_, rfl⟩

theorem declares_declaration {type : TypeName} {name : String} {isFinal : Bool}
    {value : Option Expr} {line : Nat} {t : FieldType}
    (resolved : c.scope.resolveType type c.enclosing = .ok t) :
    (c.declaration v type name isFinal value line).2.declares name = true := by
  rcases vars_declaration (c := c) (v := v) type name isFinal value line with
    ⟨same, ⟨cause, failed⟩ | known⟩ | ⟨state, same⟩
  · rw [resolved] at failed
    cases failed
  · rw [same]
    exact known
  · rw [same]
    exact (Variables.declares_declare name state name).mpr (.inl rfl)

theorem declares_statement {name : String} (known : v.declares name = true) (s : Stmt) :
    (c.statement v s).2.declares name = true := by
  cases s with
  | declare type other isFinal value line =>
    show (c.declaration v type other isFinal value line).2.declares name = true
    rcases vars_declaration (c := c) (v := v) type other isFinal value line with
      ⟨same, -⟩ | ⟨state, same⟩
    · rw [same]
      exact known
    · rw [same]
      exact (Variables.declares_declare other state name).mpr (.inr known)
  | assign other value line =>
    show (c.assignment v other value line).2.declares name = true
    unfold assignment
    split
    · exact known
    · split
      · exact known
      · split
        · exact known
        · exact known
  | _ => exact known

theorem declares_varsAfter {name : String} (known : v.declares name = true) (stmts : List Stmt) :
    (c.varsAfter v stmts).declares name = true := by
  induction stmts generalizing v with
  | nil => exact known
  | cons s stmts ih => exact ih (declares_statement known s)

theorem declares_of_mem {type : TypeName} {name : String} {isFinal : Bool} {value : Option Expr}
    {line : Nat} {t : FieldType} {stmts : List Stmt}
    (here : .declare type name isFinal value line ∈ stmts)
    (resolved : c.scope.resolveType type c.enclosing = .ok t) :
    (c.varsAfter v stmts).declares name = true := by
  induction stmts generalizing v with
  | nil => cases here
  | cons s stmts ih =>
    rcases List.mem_cons.mp here with rfl | later
    · exact declares_varsAfter (declares_declaration resolved) stmts
    · exact ih later

theorem declares_of_known {before : List Stmt} {name : String} (h : c.Known before name)
    (start : v.Named c.signature.parameterNames) :
    (c.varsAfter v before).declares name = true := by
  rcases h with parameter | ⟨type, isFinal, value, line, t, here, resolved⟩
  · exact declares_varsAfter ((start.declares name).mpr parameter) before
  · exact declares_of_mem here resolved

/-- What is known after one more statement. -/
def step (c : MethodContext) (p : Progress) (s : Stmt) : Progress :=
  match (c.statement p.vars s).1 with
  | .ok t => ⟨(c.statement p.vars s).2, t :: p.body, p.problems⟩
  | .error problem => ⟨(c.statement p.vars s).2, p.body, problem :: p.problems⟩

theorem statements_cons (p : Progress) (s : Stmt) (rest : List Stmt) :
    c.statements p (s :: rest) =
      if leaves s then
        match rest with
        | [] => (c.step p s, false)
        | after :: _ =>
          ({ c.step p s with problems := ⟨after.line, .unreachable⟩ :: (c.step p s).problems },
            false)
      else c.statements (c.step p s) rest := rfl

theorem vars_step (p : Progress) (s : Stmt) :
    (c.step p s).vars = (c.statement p.vars s).2 := by
  unfold step
  split
  · rfl
  · rfl

theorem problems_step (p : Progress) (s : Stmt) : p.problems <:+ (c.step p s).problems := by
  unfold step
  split
  · exact List.suffix_rfl
  · exact List.suffix_cons _ _

/-- Statements that nothing leaves lead to the statements after them. -/
theorem statements_append {before : List Stmt} (goesOn : ∀ s ∈ before, leaves s = false)
    (p : Progress) (rest : List Stmt) :
    ∃ q : Progress, q.vars = c.varsAfter p.vars before ∧
      c.statements p (before ++ rest) = c.statements q rest := by
  induction before generalizing p with
  | nil => exact ⟨p, rfl, rfl⟩
  | cons s before ih =>
    obtain ⟨first, others⟩ := List.forall_mem_cons.mp goesOn
    obtain ⟨q, vars, same⟩ := ih others (c.step p s)
    refine ⟨q, ?_, ?_⟩
    · rw [vars, vars_step]
      rfl
    · rw [List.cons_append, statements_cons, first, if_neg Bool.false_ne_true, same]

/-- Problems that were found stay. -/
theorem problems_statements (stmts : List Stmt) (p : Progress) :
    p.problems <:+ (c.statements p stmts).1.problems := by
  induction stmts generalizing p with
  | nil => exact List.suffix_rfl
  | cons s rest ih =>
    rw [statements_cons]
    split
    · split
      · exact problems_step p s
      · exact (problems_step p s).trans (List.suffix_cons _ _)
    · exact (problems_step p s).trans (ih _)

/-- A second declaration of a name is reported. -/
theorem redefined_mem_body {before rest : List Stmt} {type : TypeName} {name : String}
    {isFinal : Bool} {value : Option Expr} {line : Nat}
    (goesOn : ∀ s ∈ before, leaves s = false) (known : c.Known before name)
    (start : (Variables.ofSignature c.signature).Named c.signature.parameterNames) :
    ⟨line, .redefined name c.signature⟩ ∈
      (c.body (before ++ .declare type name isFinal value line :: rest)).2 := by
  obtain ⟨q, vars, same⟩ := statements_append goesOn ⟨.ofSignature c.signature, [], []⟩
    (.declare type name isFinal value line :: rest)
  have taken : q.vars.declares name = true := vars ▸ declares_of_known known start
  have reported : ⟨line, .redefined name c.signature⟩ ∈
      (c.step q (.declare type name isFinal value line)).problems := by
    rw [step, statement, declaration_redefined taken]
    exact List.mem_cons_self
  -- The statements after the declaration only add problems, and so does a missing return.
  unfold body
  rw [same, statements_cons]
  exact List.mem_append_left _ (List.mem_reverse.mpr ((problems_statements rest _).subset reported))

end MethodContext

end JavaSnippet.Typing
