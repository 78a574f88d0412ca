import JavaSnippet.Compile.Compilation
import JavaSnippet.Proofs.ClassPath.Methods
import JavaSnippet.Proofs.Name
import JavaSnippet.Proofs.Source.Parsing
import JavaSnippet.Proofs.Typing.TypeScope
/-!
Where typed classes come from. Each is one of the declared classes, which have different names; a
nested class is named after the one around it; and each of its methods is a body that was typed
against a resolved head.
-/
namespace JavaSnippet.Compile

open Typing Source

/-- A class inside another carries the name of that class in front. -/
def Declared.Placed (d : Declared) : Prop :=
  ∀ outer, d.outer = some outer → ∃ inner, d.name = outer.nested inner

theorem nested_ne (outer : ClassName) (inner : SimpleName) : outer.nested inner ≠ outer := by
  intro same
  have length := congrArg (fun name => name.text.length) same
  simp only [ClassName.nested, String.length_append] at length
  have : "$".length = 1 := rfl
  omega

/-- A class inside another carries its own simple name after the name of that class. -/
def Declared.Nested (d : Declared) : Prop :=
  ∀ outer, d.outer = some outer →
    d.name = outer.nested ⟨d.decl.name⟩ ∧ (⟨d.decl.name⟩ : SimpleName).IsValid

theorem Declared.Nested.placed {d : Declared} (h : d.Nested) : d.Placed :=
  fun outer isOuter => ⟨_, (h outer isOuter).1⟩

/-- A property of declared classes that the classes inside a class have as well. -/
def Inherited (P : Declared → Prop) : Prop :=
  ∀ d, P d → ∀ c ∈ d.decl.classes, ∀ inner, SimpleName.ofString c.name = .ok inner →
    P ⟨d.unit, c, d.scope, d.name.nested inner⟩

section Inheriting

variable {P : Declared → Prop}

mutual

theorem Inherited.of_declare (h : Inherited P) : ∀ (decl : ClassDecl) {unit : Nat}
    {around : List ClassName} {name : ClassName}, P ⟨unit, decl, around, name⟩ →
      ∀ d ∈ (declare unit around name decl).1, P d
  | .mk simple modifiers methods classes line, unit, around, name, outer, d, here => by
    rw [declare] at here
    rcases List.mem_cons.mp here with rfl | inside
    · exact outer
    · exact h.of_declareNested classes (h _ outer) d inside

theorem Inherited.of_declareNested (h : Inherited P) : ∀ (decls : List ClassDecl) {unit : Nat}
    {around : List ClassName} {outer : ClassName},
    (∀ c ∈ decls, ∀ inner, SimpleName.ofString c.name = .ok inner →
      P ⟨unit, c, around, outer.nested inner⟩) →
      ∀ d ∈ (declareNested unit around outer decls).1, P d
  | [], unit, around, outer, inside, d, here => by
    rw [declareNested] at here
    cases here
  | .mk simple modifiers methods classes line :: rest, unit, around, outer, inside, d, here => by
    obtain ⟨one, others⟩ := List.forall_mem_cons.mp inside
    rw [declareNested] at here
    rcases List.mem_append.mp here with first | later
    · cases named : SimpleName.ofString simple with
      | error fault =>
        rw [named] at first
        cases first
      | ok inner =>
        rw [named] at first
        exact h.of_declare _ (one inner named) d first
    · exact h.of_declareNested rest others d later

end

/-- What the classes of a unit have is passed on to all classes in it. -/
theorem Inherited.of_declareUnit (h : Inherited P) {unit : Nat} {parsed : CompilationUnit}
    (top : ∀ c ∈ parsed.classes, ∀ name,
      ClassName.ofString (qualify (packageOf parsed) c.name) = .ok name → P ⟨unit, c, [], name⟩) :
    ∀ d ∈ (declareUnit unit parsed).1, P d := by
  intro d here
  unfold declareUnit at here
  simp only [List.mem_flatMap, List.mem_map] at here
  obtain ⟨part, ⟨decl, isClass, rfl⟩, inPart⟩ := here
  cases named : ClassName.ofString (qualify (packageOf parsed) decl.name) with
  | error fault =>
    rw [named] at inPart
    cases inPart
  | ok name =>
    rw [named] at inPart
    exact h.of_declare decl (top decl isClass name named) d inPart

end Inheriting

theorem inherited_nested : Inherited Declared.Nested := by
  intro d _ c _ inner named outer isOuter
  obtain rfl := SimpleName.eq_of_ofString named
  have same : d.name = outer := by
    rw [Declared.outer, Declared.scope, List.getLast?_concat] at isOuter
    exact Option.some.inj isOuter
  exact ⟨same ▸ rfl, SimpleName.isValid_of_ofString named⟩

theorem nested_of_declareUnit {unit : Nat} {parsed : CompilationUnit} {d : Declared}
    (here : d ∈ (declareUnit unit parsed).1) : d.Nested :=
  inherited_nested.of_declareUnit (fun _ _ _ _ _ isOuter => nomatch isOuter) d here

theorem inherited_named : Inherited fun d => Parser.Named d.decl := by
  rintro ⟨unit, decl, around, name⟩ named c isInner _ _
  cases named with
  | mk words inner => exact inner c isInner

theorem named_of_declareUnit {unit : Nat} {parsed : CompilationUnit} {d : Declared}
    (named : ∀ c ∈ parsed.classes, Parser.Named c) (here : d ∈ (declareUnit unit parsed).1) :
    Parser.Named d.decl :=
  inherited_named.of_declareUnit (fun c isClass _ _ => named c isClass) d here

theorem mem_of_distinct {kept : List Declared} {problems : List Located} {ds : List Declared}
    {d : Declared} (here : d ∈ (distinct kept problems ds).1) : d ∈ kept ∨ d ∈ ds := by
  induction ds generalizing kept problems with
  | nil => exact .inl (List.mem_reverse.mp here)
  | cons first rest ih =>
    rw [distinct] at here
    split at here
    · rcases ih here with old | later
      · exact .inl old
      · exact .inr (List.mem_cons_of_mem first later)
    · rcases ih here with old | later
      · rcases List.mem_cons.mp old with rfl | older
        · exact .inr List.mem_cons_self
        · exact .inl older
      · exact .inr (List.mem_cons_of_mem first later)

theorem distinct_nodup {kept : List Declared} {problems : List Located} {ds : List Declared}
    (unique : (kept.map (·.name)).Nodup) :
    ((distinct kept problems ds).1.map (·.name)).Nodup := by
  induction ds generalizing kept problems with
  | nil =>
    rw [distinct, List.map_reverse]
    exact List.pairwise_reverse.mpr (unique.imp Ne.symm)
  | cons first rest ih =>
    rw [distinct]
    split
    · exact ih unique
    · rename_i fresh
      refine ih (List.nodup_cons.mpr ⟨?_, unique⟩)
      intro known
      obtain ⟨other, mem, same⟩ := List.mem_map.mp known
      refine fresh (List.any_eq_true.mpr ⟨other, mem, ?_⟩)
      simpa using same

/-- The head of a static method of a class, with its types resolved. -/
structure IsHead (scope : TypeScope) (d : Declared) (head : Signature × MethodDecl) : Prop where
  mem : head.2 ∈ d.decl.methods
  isStatic : head.2.modifiers.isStatic = true
  resolved : scope.signature head.2 d.scope = .ok head.1

theorem isHead_of_add {scope : TypeScope} {d : Declared} {heads : Heads} {m : MethodDecl}
    (mem : m ∈ d.decl.methods) (old : ∀ head ∈ heads.found, IsHead scope d head) :
    ∀ head ∈ (heads.add scope d m).found, IsHead scope d head := by
  unfold Heads.add
  split
  · exact old
  · rename_i static
    split
    · exact old
    · rename_i s resolved
      split
      · exact old
      · intro head here
        rcases List.mem_cons.mp here with rfl | before
        · exact ⟨mem, by simpa using static, resolved⟩
        · exact old head before

theorem isHead_of_foldl {scope : TypeScope} {d : Declared} {ms : List MethodDecl} {heads : Heads}
    (mem : ∀ m ∈ ms, m ∈ d.decl.methods) (old : ∀ head ∈ heads.found, IsHead scope d head) :
    ∀ head ∈ (ms.foldl (Heads.add scope d) heads).found, IsHead scope d head := by
  induction ms generalizing heads with
  | nil => exact old
  | cons m ms ih =>
    exact ih (fun n later => mem n (List.mem_cons_of_mem m later))
      (isHead_of_add (mem m List.mem_cons_self) old)

theorem isHead_of_headsOf {scope : TypeScope} {d : Declared} :
    ∀ head ∈ (headsOf scope d).found, IsHead scope d head :=
  isHead_of_foldl (fun _ mem => mem) (by simp)

theorem parseUnits_singleton {unit : SourceUnit} {content : CompilationUnit}
    (parsed : parse unit.text = .ok content) : parseUnits [unit] = ([(0, content)], []) := by
  simp [parseUnits, List.zipIdx, parsed, Except.toOption]

section Stages

variable (external : ClassPath) (units : List SourceUnit)

/-- The classes declared in some units, as far as two have not the same name. -/
def declaredIn : List Declared :=
  let declarations := (parseUnits units).1.map fun (index, unit) => declareUnit index unit
  (distinct [] [] (declarations.flatMap (·.1))).1

/-- Trees come from the texts of the units. -/
theorem exists_of_parsed {units : List SourceUnit} {x : Parsed} (here : x ∈ (parseUnits units).1) :
    ∃ unit, (unit, x.1) ∈ units.zipIdx ∧ parse unit.text = .ok x.2 := by
  obtain ⟨⟨index, result⟩, inResults, isParsed⟩ := List.mem_filterMap.mp here
  obtain ⟨⟨unit, number⟩, inUnits, same⟩ := List.mem_map.mp inResults
  obtain ⟨rfl, rfl⟩ := Prod.mk.inj same
  obtain ⟨content, read, rfl⟩ := Option.map_eq_some_iff.mp isParsed
  exact ⟨unit, inUnits, except_eq_ok_of_toOption read⟩

theorem exists_of_declaredIn {units : List SourceUnit} {d : Declared}
    (here : d ∈ declaredIn units) :
    ∃ x ∈ (parseUnits units).1, d ∈ (declareUnit x.1 x.2).1 := by
  rcases mem_of_distinct here with kept | declared
  · cases kept
  · obtain ⟨result, isResult, declared⟩ := List.mem_flatMap.mp declared
    obtain ⟨x, isParsed, rfl⟩ := List.mem_map.mp isResult
    exact ⟨x, isParsed, declared⟩

theorem placed_of_mem {units : List SourceUnit} {d : Declared} (here : d ∈ declaredIn units) :
    d.Placed := by
  obtain ⟨x, -, declared⟩ := exists_of_declaredIn here
  exact (nested_of_declareUnit declared).placed

theorem named_of_mem {units : List SourceUnit} {d : Declared} (here : d ∈ declaredIn units) :
    Parser.Named d.decl := by
  obtain ⟨x, isParsed, declared⟩ := exists_of_declaredIn here
  obtain ⟨unit, -, parsed⟩ := exists_of_parsed isParsed
  exact named_of_declareUnit (named_of_parse parsed) declared

/-- The scopes of the units by number. -/
def scopesIn : List (Nat × TypeScope × List Problem) :=
  let stubs := ClassPath.chain ⟨(declaredIn units).map (sourceData · [])⟩ external
  (parseUnits units).1.map fun (index, unit) => (index, TypeScope.build stubs unit)

def headsIn : List (Declared × Heads) :=
  (declaredIn units).filterMap fun d =>
    ((scopesIn external units).lookup d.unit).map fun scope => (d, headsOf scope.1 d)

def resolvedIn : List Resolved :=
  (headsIn external units).map fun (d, h) => (⟨d, h.found.reverse⟩ : Resolved)

/-- What bodies are typed against: the classes of the units before the class path. -/
def pathIn : ClassPath :=
  .chain ⟨(resolvedIn external units).map Resolved.data⟩ external

def typedIn : List (TypedClass × List Located) :=
  (resolvedIn external units).filterMap fun r =>
    ((scopesIn external units).lookup r.declared.unit).map fun scope =>
      let file := ((units[r.declared.unit]?).map SourceUnit.fileName).getD ""
      typeClass { scope.1 with classPath := pathIn external units } (declaredIn units) file r

theorem typeUnits_classes :
    (typeUnits external units).1 = (typedIn external units).map (·.1) := rfl

theorem typeUnits_problems :
    ∃ others, (typeUnits external units).2 = others ++ (typedIn external units).flatMap (·.2) :=
  ⟨_, rfl⟩

end Stages

/-- A class of the units whose heads are resolved. -/
structure IsResolved (units : List SourceUnit) (r : Resolved) : Prop where
  declared : r.declared ∈ declaredIn units
  heads : ∃ scope : TypeScope, ∀ head ∈ r.methods, IsHead scope r.declared head

theorem isResolved_of_mem {external : ClassPath} {units : List SourceUnit} {r : Resolved}
    (here : r ∈ resolvedIn external units) : IsResolved units r := by
  obtain ⟨⟨d, h⟩, inHeads, rfl⟩ := List.mem_map.mp here
  obtain ⟨e, declared, found⟩ := List.mem_filterMap.mp inHeads
  obtain ⟨scope, -, same⟩ := Option.map_eq_some_iff.mp found
  obtain ⟨rfl, rfl⟩ := Prod.mk.inj same
  exact ⟨declared, scope.1, fun head mem => isHead_of_headsOf head (List.mem_reverse.mp mem)⟩

/-- The classes of the units have no method that code could not be written for. -/
theorem supported_resolvedIn {external : ClassPath} {units : List SourceUnit} :
    (⟨(resolvedIn external units).map Resolved.data⟩ : ClassPath).Supported := by
  have declared : ∀ c ∈ (resolvedIn external units).map Resolved.data, ∀ m ∈ c.methods,
      m = ⟨"<init>", noArguments, false⟩ ∨ ∃ (scope : TypeScope) (enclosing : List ClassName)
        (method : MethodDecl) (s : Signature), IsWord method.name ∧
          scope.signature method enclosing = .ok s ∧ m = ⟨s.name, s.type, true⟩ := by
    intro c here m isMethod
    obtain ⟨r, inResolved, rfl⟩ := List.mem_map.mp here
    obtain ⟨declared, scope, heads⟩ := isResolved_of_mem inResolved
    rcases List.mem_cons.mp isMethod with create | other
    · exact .inl create
    · obtain ⟨s, isHead, rfl⟩ := List.mem_map.mp other
      obtain ⟨head, inMethods, rfl⟩ := List.mem_map.mp isHead
      obtain ⟨inDecl, -, resolved⟩ := heads head inMethods
      have word := (named_of_mem declared).methods head.2 inDecl
      exact .inr ⟨scope, _, head.2, head.1, word, resolved, rfl⟩
  constructor
  · intro c here m isMethod
    rcases declared c here m isMethod with rfl | ⟨scope, enclosing, method, s, -, resolved, rfl⟩
    · simp [noArguments]
    · exact (TypeScope.mentionsFloating_of_signature resolved).1
  · intro c here m isMethod
    rcases declared c here m isMethod with rfl | ⟨scope, enclosing, method, s, -, resolved, rfl⟩
    · simp [noArguments]
    · exact (TypeScope.mentionsFloating_of_signature resolved).2
  · intro c here m isMethod isInit
    rcases declared c here m isMethod with rfl | ⟨scope, enclosing, method, s, word, resolved, rfl⟩
    · rfl
    · have name := (TypeScope.signature_ok resolved).1
      exact absurd (name.symm.trans isInit) word.ne_init

theorem supported_pathIn {external : ClassPath} {units : List SourceUnit}
    (supported : external.Supported) : (pathIn external units).Supported :=
  supported_resolvedIn.chain supported

/-- A typed class comes of a resolved one, and without problems if there are none at all. -/
theorem typeClass_of_mem {external : ClassPath} {units : List SourceUnit} {c : TypedClass}
    (here : c ∈ (typeUnits external units).1) :
    ∃ (r : Resolved) (scope : TypeScope) (file : String), IsResolved units r ∧
      scope.classPath = pathIn external units ∧
      c = (typeClass scope (declaredIn units) file r).1 ∧
      ((typeUnits external units).2 = [] →
        (typeClass scope (declaredIn units) file r).2 = []) := by
  rw [typeUnits_classes] at here
  obtain ⟨result, inTyped, rfl⟩ := List.mem_map.mp here
  obtain ⟨r, resolved, found⟩ := List.mem_filterMap.mp inTyped
  obtain ⟨scope, -, rfl⟩ := Option.map_eq_some_iff.mp found
  refine ⟨r, _, _, isResolved_of_mem resolved, rfl, rfl, fun none => ?_⟩
  obtain ⟨others, problems⟩ := typeUnits_problems external units
  rw [problems] at none
  have empty := (List.append_eq_nil_iff.mp none).2
  exact List.flatMap_eq_nil_iff.mp empty _ inTyped

/-- A typed method comes of a declared one whose signature was resolved. -/
theorem body_of_mem {external : ClassPath} {units : List SourceUnit} {c : TypedClass}
    {m : TypedMethod} (here : c ∈ (typeUnits external units).1) (method : m ∈ c.methods) :
    ∃ (headScope : TypeScope) (context : MethodContext) (declared : MethodDecl),
      context.scope.classPath = pathIn external units ∧
      headScope.signature declared context.enclosing = .ok context.signature ∧
      m = (context.body declared.body).1 ∧
      ((typeUnits external units).2 = [] → (context.body declared.body).2 = []) := by
  obtain ⟨r, scope, file, resolved, path, rfl, clean⟩ := typeClass_of_mem here
  obtain ⟨body, typed, rfl⟩ := List.mem_map.mp method
  obtain ⟨head, isHead, rfl⟩ := List.mem_map.mp typed
  obtain ⟨headScope, heads⟩ := resolved.heads
  refine ⟨headScope, ⟨scope, r.declared.scope, head.1⟩, head.2, path,
    (heads head isHead).resolved, rfl, fun none => ?_⟩
  have problems := List.flatMap_eq_nil_iff.mp (clean none) _ typed
  exact List.map_eq_nil_iff.mp problems

end JavaSnippet.Compile
