import JavaSnippet.Proofs.Compile.Layout
import JavaSnippet.Proofs.Source.Meaning
import JavaSnippet.Proofs.Typing.TypeScope
/-!
When source and machine agree on the variables. A variable that was assigned has a value of its type
in the source, and the same value in its slots.
-/
namespace JavaSnippet.Compile

open ClassFile Typing Source Machine

/-- The type of a variable, if it is an integer type. -/
def integerType? (t : FieldType) : Option BaseType := t.base?.filter (·.isIntegral)

theorem integerType?_of_resolveType {scope : TypeScope} {type : TypeName}
    {enclosing : List ClassName} {t : FieldType} (h : scope.resolveType type enclosing = .ok t) :
    integerType? t = type.integer? := by
  unfold TypeName.integer?
  obtain ⟨b, keyword, -, rfl⟩ | ⟨keyword, name, -, rfl⟩ := TypeScope.resolveType_ok h
  · rw [keyword]
    cases type.dimensions with
    | zero => rfl
    | succ n => rfl
  · rw [keyword]
    split
    · rfl
    · rfl

theorem eq_base_of_integerType? {t : FieldType} {b : BaseType} (h : integerType? t = some b) :
    t = .base b ∧ b.isIntegral = true := by
  obtain ⟨isBase, integral⟩ := Option.filter_eq_some_iff.mp h
  exact ⟨FieldType.eq_base_of_base? isBase, integral⟩

theorem kind_of_fits {v : Value} {type : FieldType} {kind : ValueKind}
    (fits : v.fits type = true) (isKind : MethodBody.valueKind? type = some kind) :
    v.kind = kind := by
  unfold Value.fits at fits
  unfold MethodBody.valueKind? at isKind
  cases isBase : type.base? with
  | none =>
    rw [isBase] at fits isKind
    cases v with
    | reference address => exact Option.some.inj isKind
    | int n => cases fits
    | long n => cases fits
  | some b =>
    rw [isBase] at fits isKind
    cases b
    all_goals
      cases v
      all_goals first | exact Option.some.inj isKind | cases fits

/-- The variables have the same types and values in source and machine. -/
structure Agrees (types : List FieldType) (env : Env) (v : Variables) (locals : Locals Value) :
    Prop where
  valid : v.Valid
  isPrefix : v.types <+: types
  found : ∀ name id state, v.find? name = some (id, state) →
    ∃ value, env.lookup name = some ⟨integerType? state.type, value⟩ ∧
      (state.assigned = true → ∃ w, value = some w ∧ w.fits state.type = true ∧
        locals (offset types id) = some w)

section Variables

theorem lookup_cons_ne {name other : String} {var : Variable} {env : Env} (ne : other ≠ name) :
    ((name, var) :: env).lookup other = env.lookup other := by
  rw [List.lookup_cons, beq_false_of_ne ne]

theorem lookup_cons_same {name : String} {var : Variable} {env : Env} :
    ((name, var) :: env).lookup name = some var := by
  simp

variable {types : List FieldType} {env : Env} {v : Variables} {locals : Locals Value}

namespace Agrees

theorem type (h : Agrees types env v locals) {name : String} {id : Nat} {state : LocalVar}
    (found : v.find? name = some (id, state)) : types[id]? = some state.type := by
  have here := Variables.types_of_find? found
  obtain ⟨rest, rfl⟩ := h.isPrefix
  have inside := (List.getElem?_eq_some_iff.mp here).1
  rw [List.getElem?_append_left inside]
  exact here

/-- A value is put where no variable is yet. -/
theorem above (h : Agrees types env v locals) {type : FieldType} {w : Value}
    (isType : types[v.locals.size]? = some type) (fits : w.fits type = true) :
    Agrees types env v (locals.set (offset types v.locals.size) w) := by
  refine ⟨h.valid, h.isPrefix, ?_⟩
  intro name id state isFound
  obtain ⟨value, bound, hasValue⟩ := h.found name id state isFound
  refine ⟨value, bound, fun assigned => ?_⟩
  obtain ⟨x, isValue, fitsOther, stored⟩ := hasValue assigned
  have before := h.valid.bounded name id (Variables.find?_eq_some.mp isFound).1
  exact ⟨x, isValue, fitsOther,
    Locals.set_offset (h.type isFound) isType (by omega) (Value.width_of_fits fitsOther)
      (Value.width_of_fits fits) stored⟩

theorem declare (h : Agrees types env v locals) {name : String} {state : LocalVar}
    {value : Option Value} (room : (v.declare name state).types <+: types)
    (hasValue : state.assigned = true → ∃ w, value = some w ∧ w.fits state.type = true ∧
      locals (offset types v.locals.size) = some w) :
    Agrees types ((name, ⟨integerType? state.type, value⟩) :: env) (v.declare name state)
      locals := by
  refine ⟨h.valid.declare name state, room, ?_⟩
  intro other id found isFound
  rw [Variables.find?_declare h.valid] at isFound
  split at isFound
  · rename_i same
    obtain ⟨rfl, rfl⟩ := Prod.mk.inj (Option.some.inj isFound)
    rw [same, lookup_cons_same]
    exact ⟨value, rfl, hasValue⟩
  · rename_i ne
    rw [lookup_cons_ne ne]
    exact h.found other id found isFound

theorem declareEmpty (h : Agrees types env v locals) {name : String} {type : FieldType}
    {isFinal : Bool} (room : (v.declare name ⟨type, false, isFinal⟩).types <+: types) :
    Agrees types ((name, ⟨integerType? type, none⟩) :: env)
      (v.declare name ⟨type, false, isFinal⟩) locals :=
  h.declare room fun assigned => by cases assigned

theorem assign (h : Agrees types env v locals) {name : String} {id : Nat} {state : LocalVar}
    {w : Value} (target : v.find? name = some (id, state)) (fits : w.fits state.type = true) :
    Agrees types ((name, ⟨integerType? state.type, some w⟩) :: env)
      (v.update id fun s => { s with assigned := true }) (locals.set (offset types id) w) := by
  refine ⟨h.valid.update id _, by rw [Variables.types_assigned]; exact h.isPrefix, ?_⟩
  intro other number found isFound
  rw [Variables.find?_update] at isFound
  obtain ⟨⟨before, old⟩, isOld, same⟩ := Option.map_eq_some_iff.mp isFound
  obtain ⟨rfl, rfl⟩ := Prod.mk.inj same
  by_cases isName : other = name
  · subst isName
    rw [target] at isOld
    obtain ⟨rfl, rfl⟩ := Prod.mk.inj (Option.some.inj isOld)
    rw [lookup_cons_same]
    simp only [if_true]
    exact ⟨some w, rfl, fun _ => ⟨w, rfl, fits, Locals.set_same _ _⟩⟩
  · have apart : id ≠ before := by
      rintro rfl
      exact isName (h.valid.injective other name id (Variables.find?_eq_some.mp isOld).1
        (Variables.find?_eq_some.mp target).1)
    rw [lookup_cons_ne isName]
    simp only [if_neg apart]
    obtain ⟨value, bound, hasValue⟩ := h.found other before old isOld
    refine ⟨value, bound, fun assigned => ?_⟩
    obtain ⟨x, isValue, fitsOther, stored⟩ := hasValue assigned
    exact ⟨x, isValue, fitsOther,
      Locals.set_offset (h.type isOld) (h.type target) (Ne.symm apart)
        (Value.width_of_fits fitsOther) (Value.width_of_fits fits) stored⟩

end Agrees

variable {isVariable : String → Bool}

/-- The integer variables are in scope. -/
def Named (isVariable : String → Bool) (env : Env) : Prop :=
  ∀ name, isVariable name = true → ∃ type value, env.lookup name = some ⟨some type, value⟩

theorem Named.cons (named : Named isVariable env) {name : String} {type : BaseType}
    {value : Option Value} :
    Named (fun other => other == name || isVariable other)
      ((name, ⟨some type, value⟩) :: env) := by
  intro other isOther
  by_cases same : other = name
  · subst same
    exact ⟨type, value, lookup_cons_same⟩
  · have isVariable : (other == name || isVariable other) = true := isOther
    rw [beq_false_of_ne same, Bool.false_or] at isVariable
    rw [lookup_cons_ne same]
    exact named other isVariable

theorem Named.assign (named : Named isVariable env) {name : String} {type : BaseType}
    {value : Option Value} : Named isVariable ((name, ⟨some type, value⟩) :: env) := by
  intro other isOther
  by_cases same : other = name
  · subst same
    exact ⟨type, value, lookup_cons_same⟩
  · rw [lookup_cons_ne same]
    exact named other isOther

end Variables

section Entry

variable {types : List FieldType}

/-- Parameters have their values before any statement is run. -/
theorem agrees_parameters {scope : TypeScope} {enclosing : List ClassName}
    {locals : Locals Value} {ps : List Parameter} {parameters : List FieldType}
    {args : List Value} {env : Env} {v : Variables}
    (resolved : ps.map (fun p => onLine p.line (scope.resolveType p.type enclosing)) =
      parameters.map .ok)
    (fit : Value.fitAll args parameters = true) (isPrefix : v.types ++ parameters <+: types)
    (stored : ∀ (i : Nat) w, args[i]? = some w →
      locals (offset types (v.locals.size + i)) = some w)
    (agrees : Agrees types env v locals) :
    Agrees types
      (((ps.zip args).map fun (p, w) => (p.name, ⟨p.type.integer?, some w⟩)).reverse ++ env)
      (((ps.map (·.name)).zip parameters).foldl
        (fun v p => v.declare p.1 ⟨p.2, true, false⟩) v) locals := by
  induction ps generalizing parameters args env v with
  | nil => exact agrees
  | cons p ps ih =>
    cases parameters with
    | nil => cases resolved
    | cons type parameters =>
      cases args with
      | nil => cases fit
      | cons w args =>
        obtain ⟨fits, fitOthers⟩ := Bool.and_eq_true_iff.mp fit
        obtain ⟨isType, others⟩ := List.cons.inj resolved
        have integer := integerType?_of_resolveType (onLine_eq_ok.mp isType)
        have room : (v.declare p.name ⟨type, true, false⟩).types <+: types := by
          rw [Variables.types_declare]
          exact List.IsPrefix.trans ⟨parameters, by simp⟩ isPrefix
        have held : ∃ x, some w = some x ∧ x.fits type = true ∧
            locals (offset types v.locals.size) = some x := ⟨w, rfl, fits, stored 0 w rfl⟩
        have declared := agrees.declare room fun _ => held
        simp only [integer] at declared
        have later := ih others fitOthers (v := v.declare p.name ⟨type, true, false⟩)
          (by rw [Variables.types_declare, ← List.append_cons]; exact isPrefix)
          (by
            intro i x found
            have here := stored (i + 1) x found
            have size : (v.declare p.name ⟨type, true, false⟩).locals.size + i =
                v.locals.size + (i + 1) := by
              simp only [Variables.declare, Array.size_push]
              omega
            rw [size, here])
          declared
        simpa using later

theorem agrees_empty (locals : Locals Value) : Agrees types [] .empty locals := by
  refine ⟨Variables.valid_empty, by simp, ?_⟩
  intro name id state found
  simp [Variables.find?, Variables.empty] at found

/-- At the start of a call the arguments are where the parameters are. -/
theorem agrees_start {scope : TypeScope} {enclosing : List ClassName} {m : MethodDecl}
    {s : Signature} {args : List Value} (resolved : scope.signature m enclosing = .ok s)
    (fit : Value.fitAll args s.type.parameters = true) (isPrefix : s.type.parameters <+: types) :
    Agrees types (m.start args) (.ofSignature s) (.ofList 0 args) := by
  obtain ⟨-, -, names, parameters, -⟩ := TypeScope.signature_ok resolved
  have stored : ∀ (i : Nat) w, args[i]? = some w →
      Locals.ofList 0 args (offset types (Variables.empty.locals.size + i)) = some w := by
    intro i w found
    have here := Locals.ofList_offset (Value.widths_of_fitAll fit) 0 found
    obtain ⟨rest, rfl⟩ := isPrefix
    have inside := (List.getElem?_eq_some_iff.mp found).1
    rw [Value.length_of_fitAll fit] at inside
    have size : Variables.empty.locals.size + i = i := Nat.zero_add i
    rw [size, offset_append (Nat.le_of_lt inside)]
    rwa [Nat.zero_add] at here
  have agrees := agrees_parameters parameters fit (by simpa using isPrefix) stored
    (agrees_empty _)
  rw [List.append_nil, ← names] at agrees
  exact agrees

theorem lookup_types (env : Env) (name : String) :
    (env.map fun (n, var) => (n, var.type)).lookup name = (env.lookup name).map (·.type) := by
  induction env with
  | nil => rfl
  | cons binding env ih =>
    obtain ⟨other, var⟩ := binding
    rw [List.map_cons, List.lookup_cons, List.lookup_cons, ih]
    cases name == other with
    | true => rfl
    | false => rfl

theorem parameterTypes_eq (m : MethodDecl) {args : List Value}
    (length : args.length = m.parameters.length) :
    m.parameterTypes = (m.start args).map fun (n, var) => (n, var.type) := by
  unfold MethodDecl.parameterTypes MethodDecl.start
  have zipped : (m.parameters.zip args).map Prod.fst = m.parameters :=
    List.map_fst_zip (by omega)
  rw [List.map_reverse, List.map_map]
  conv => lhs; rw [← zipped, List.map_map]
  rfl

theorem named_start (m : MethodDecl) {args : List Value}
    (length : args.length = m.parameters.length) :
    Named (fun name => (m.parameterTypes.lookup name).join.isSome) (m.start args) := by
  intro name isKnown
  simp only [parameterTypes_eq m length, lookup_types] at isKnown
  cases bound : (m.start args).lookup name with
  | none =>
    rw [bound] at isKnown
    cases isKnown
  | some var =>
    rw [bound] at isKnown
    obtain ⟨type, value⟩ := var
    cases type with
    | none => cases isKnown
    | some type => exact ⟨type, value, rfl⟩

end Entry

end JavaSnippet.Compile
