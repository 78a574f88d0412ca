import JavaSnippet.Proofs.Compile.Finished
import JavaSnippet.Proofs.Compile.Soundness
import JavaSnippet.Proofs.Compile.Requests
import Mathlib.Data.List.Forall2
/-!
Separate compilation. Units can be compiled against the class files of others in place of their
sources, and give the same class files as when all are compiled together.
-/
namespace JavaSnippet.Compile

open Typing Source ClassFile MethodBody

section Moving

variable {p q : ClassPath}

theorem headsOf_withPath {scope : TypeScope} (same : scope.classPath.contains = q.contains)
    (d : Declared) : headsOf (scope.withPath q) d = headsOf scope d := by
  have step : Heads.add (scope.withPath q) d = Heads.add scope d := by
    funext heads m
    rw [Heads.add, Heads.add, TypeScope.signature_withPath same]
  rw [headsOf, headsOf, step]

theorem SourceUnit.scope_alike (same : p.contains = q.contains) (unit : SourceUnit) :
    unit.scope q = (unit.scope p).withPath q :=
  congrArg Prod.fst (TypeScope.build_alike same unit.content)

theorem SourceUnit.heads_alike (same : p.contains = q.contains) (unit : SourceUnit) :
    unit.heads q = unit.heads p := by
  have start : (unit.scope p).classPath.contains = q.contains := by
    rw [SourceUnit.scope, TypeScope.classPath_build, same]
  rw [SourceUnit.heads, SourceUnit.heads, unit.scope_alike same]
  exact List.map_congr_left fun d _ => by rw [headsOf_withPath start]

theorem SourceUnit.resolved_alike (same : p.contains = q.contains) (unit : SourceUnit) :
    unit.resolved q = unit.resolved p := by
  rw [SourceUnit.resolved, SourceUnit.resolved, unit.heads_alike same]

theorem typeClass_withPath {scope : TypeScope} (alike : scope.classPath.Alike q)
    (all : List Declared) (file : String) (r : Resolved) :
    typeClass (scope.withPath q) all file r = typeClass scope all file r := by
  have bodies : ∀ m : Signature × MethodDecl,
      MethodContext.body ⟨scope.withPath q, r.declared.scope, m.1⟩ m.2.body =
        MethodContext.body ⟨scope, r.declared.scope, m.1⟩ m.2.body := by
    intro m
    have here : (⟨scope, r.declared.scope, m.1⟩ : MethodContext).scope.classPath.Alike q := alike
    exact MethodContext.body_withPath here m.2.body
  unfold typeClass
  simp only [bodies]

/-- A unit is typed the same on paths that cannot be told apart. -/
theorem SourceUnit.typed_alike {stubs stubs' path path' : ClassPath}
    (names : stubs.contains = stubs'.contains) (alike : path.Alike path') (unit : SourceUnit) :
    unit.typed stubs' path' = unit.typed stubs path := by
  have scope : (unit.scope stubs').withPath path' =
      ((unit.scope stubs).withPath path).withPath path' := by
    rw [unit.scope_alike names]
    rfl
  have same : ((unit.scope stubs).withPath path).classPath.Alike path' := alike
  rw [SourceUnit.typed, SourceUnit.typed, unit.resolved_alike names, scope]
  exact List.map_congr_left fun r _ => typeClass_withPath same unit.classes unit.fileName r

theorem SourceUnit.Clean.alike {stubs stubs' path path' : ClassPath}
    (names : stubs.contains = stubs'.contains) (alike : path.Alike path') {unit : SourceUnit}
    (h : unit.Clean stubs path) : unit.Clean stubs' path' := by
  refine ⟨h.parses, h.placed, ?_, ?_, ?_⟩
  · rw [TypeScope.build_alike names]
    exact h.imports
  · rw [unit.heads_alike names]
    exact h.heads
  · rw [unit.typed_alike names alike]
    exact h.bodies

end Moving

section Writing

variable {version : Version}

theorem emits_append {xs ys : List TypedClass} {written : List CompiledUnit}
    (h : List.Forall₂ (Emits version) (xs ++ ys) written) :
    ∃ own others, written = own ++ others ∧ List.Forall₂ (Emits version) xs own ∧
      List.Forall₂ (Emits version) ys others := by
  induction xs generalizing written with
  | nil => exact ⟨[], written, rfl, .nil, h⟩
  | cons x xs ih =>
    obtain ⟨u, rest, first, later, rfl⟩ := List.forall₂_cons_left_iff.mp h
    obtain ⟨own, others, rfl, left, right⟩ := ih later
    exact ⟨u :: own, others, rfl, .cons first left, right⟩

theorem names_of_emits {cs : List TypedClass} {written : List CompiledUnit}
    (h : List.Forall₂ (Emits version) cs written) :
    written.map (·.qualifiedName) = cs.map (·.name.dotted) := by
  induction h with
  | nil => rfl
  | cons first _ ih =>
    obtain ⟨file, -, rfl⟩ := first
    rw [List.map_cons, List.map_cons, ih]

/-- The path of written classes, each of which is read back as its data. -/
theorem ofFiles_of_emits {read : List (TypedClass × ClassData)} {written : List CompiledUnit}
    (emits : List.Forall₂ (Emits version) (read.map (·.1)) written)
    (back : ∀ x ∈ read, ∀ f, emit x.1 version = .ok f →
      decode f.encode = .ok f ∧ f.classData = .ok x.2) :
    ClassPath.ofFiles (written.map (·.bytes)) = .ok (.ofEntries (read.map (·.2))) := by
  have each : (written.map (·.bytes)).map (fun bytes => do (← decode bytes).classData) =
      (read.map (·.2)).map .ok := by
    induction read generalizing written with
    | nil =>
      cases emits
      rfl
    | cons x read ih =>
      obtain ⟨u, others, ⟨f, emitted, rfl⟩, rest, rfl⟩ := List.forall₂_cons_left_iff.mp emits
      obtain ⟨first, later⟩ := List.forall_mem_cons.mp back
      obtain ⟨decoded, data⟩ := first f emitted
      rw [List.map_cons, List.map_cons, List.map_cons, List.map_cons, ih rest later, ← data]
      congr 1
      simp only
      rw [decoded]
      rfl
  unfold ClassPath.ofFiles
  rw [except_mapM_of_map each]
  rfl

end Writing

section Names

variable {external stubs path : ClassPath} {units : List SourceUnit}

theorem names_dataOf : (dataOf stubs units).map (·.name) =
    (units.flatMap SourceUnit.classes).map (·.name) := by
  unfold dataOf
  rw [List.map_map, List.map_flatMap, List.map_flatMap]
  refine List.flatMap_congr fun unit _ => ?_
  unfold SourceUnit.resolved SourceUnit.heads
  rw [List.map_map, List.map_map]
  rfl

theorem SourceUnit.dotted_typed (unit : SourceUnit) :
    (unit.typed stubs path).map (·.1.name.dotted) = unit.classes.map (·.name.dotted) := by
  unfold SourceUnit.typed SourceUnit.resolved SourceUnit.heads
  rw [List.map_map, List.map_map, List.map_map]
  rfl

theorem dotted_typed :
    ((units.flatMap fun unit => unit.typed stubs path).map (·.1)).map (·.name.dotted) =
      (units.flatMap SourceUnit.classes).map (·.name.dotted) := by
  rw [List.map_map, List.map_flatMap, List.map_flatMap]
  exact List.flatMap_congr fun unit _ => unit.dotted_typed

end Names

section Separation

variable {external : ClassPath} {first second : List SourceUnit}

/-- The path of the classes of some units, as they are known when all units are compiled. -/
def finished (external : ClassPath) (first second : List SourceUnit) : ClassPath :=
  .ofEntries (dataOf (stubsOf external (first ++ second)) first)

theorem contains_moved (external : ClassPath) (first second : List SourceUnit) :
    (stubsOf external (first ++ second)).contains =
    (stubsOf (external.chain (finished external first second)) second).contains := by
  refine ClassPath.contains_eq_of_names fun name => ?_
  have stubs : ∀ ds : List Declared, (ds.map (sourceData · [])).map (·.name) = ds.map (·.name) :=
    fun ds => List.map_map
  simp only [stubsOf, finished, ClassPath.chain, ClassPath.ofEntries, List.map_append,
    List.map_reverse, List.mem_append, List.mem_reverse, stubs, names_dataOf, List.flatMap_append]
  tauto

theorem dataOf_append (stubs : ClassPath) :
    dataOf stubs (first ++ second) = dataOf stubs first ++ dataOf stubs second := by
  rw [dataOf, List.flatMap_append, List.map_append]
  rfl

theorem dataOf_alike {p q : ClassPath} (same : p.contains = q.contains)
    (units : List SourceUnit) : dataOf q units = dataOf p units := by
  unfold dataOf
  simp only [SourceUnit.resolved_alike same]

theorem alike_pathOf (unique : (((first ++ second).flatMap SourceUnit.classes).map (·.name)).Nodup)
    (unknown : ∀ unit ∈ first, ∀ d ∈ unit.classes, external.contains d.name = false) :
    (pathOf external (first ++ second)).Alike
      (pathOf (external.chain (finished external first second)) second) := by
  have others := dataOf_alike (contains_moved external first second) second
  rw [pathOf, pathOf, dataOf_append, others]
  refine ClassPath.alike_moved ?_ fun c isData => ?_
  · rw [← dataOf_append, names_dataOf]
    exact unique
  · have name : c.name ∈ (first.flatMap SourceUnit.classes).map (·.name) := by
      rw [← names_dataOf]
      exact List.mem_map_of_mem isData
    obtain ⟨d, isClass, same⟩ := List.mem_map.mp name
    obtain ⟨unit, here, isOwn⟩ := List.mem_flatMap.mp isClass
    rw [← same]
    exact unknown unit here d isOwn

/-- What is right with others in source is right with others compiled. -/
theorem Accepts.moved (h : Accepts external (first ++ second))
    (unknown : ∀ unit ∈ first, ∀ d ∈ unit.classes, external.contains d.name = false) :
    Accepts (external.chain (finished external first second)) second := by
  have unique := h.unique
  rw [List.flatMap_append, List.map_append, List.nodup_append] at unique
  exact ⟨unique.2.1, fun unit here =>
    (h.clean unit (List.mem_append_right first here)).alike (contains_moved external first second)
      (alike_pathOf h.unique unknown)⟩

theorem typedOf_moved (h : Accepts external (first ++ second))
    (unknown : ∀ unit ∈ first, ∀ d ∈ unit.classes, external.contains d.name = false) :
    typedOf external (first ++ second) =
      (first.flatMap fun unit => unit.typed (stubsOf external (first ++ second))
        (pathOf external (first ++ second))).map (·.1) ++
      typedOf (external.chain (finished external first second)) second := by
  have names := contains_moved external first second
  have alike := alike_pathOf h.unique unknown
  unfold typedOf
  simp only [SourceUnit.typed_alike names alike]
  rw [List.flatMap_append, List.map_append]

/-- The classes of some units as typed, each with what it tells others. -/
def told (stubs path : ClassPath) (units : List SourceUnit) : List (TypedClass × ClassData) :=
  units.flatMap fun unit => (unit.resolved stubs).map fun r =>
    ((typeClass ((unit.scope stubs).withPath path) unit.classes unit.fileName r).1, r.data)

theorem map_fst_told (stubs path : ClassPath) (units : List SourceUnit) :
    (told stubs path units).map (·.1) =
      (units.flatMap fun unit => unit.typed stubs path).map (·.1) := by
  unfold told SourceUnit.typed
  simp only [List.map_flatMap, List.map_map]
  rfl

theorem map_snd_told (stubs path : ClassPath) (units : List SourceUnit) :
    (told stubs path units).map (·.2) = dataOf stubs units := by
  unfold told dataOf
  simp only [List.map_flatMap, List.map_map]
  rfl

/-- Sixteen bits can count the texts in a class file and the methods of its class. -/
structure Countable (c : TypedClass) (f : ClassFile) : Prop where
  texts : ∀ text, Constant.utf8 text ∈ f.constants.elements →
    (Text.ModifiedUtf8.encode text).length ≤ 65535
  methods : c.methods.length ≤ 65534

/-- It is enough that the texts of the class can be counted. -/
theorem countable_of_texts {c : TypedClass} {version : Version} {f : ClassFile}
    (emitted : emit c version = .ok f)
    (short : ∀ text ∈ c.texts, (Text.ModifiedUtf8.encode text).length ≤ 65535)
    (few : c.methods.length ≤ 65534) : Countable c f :=
  ⟨fun text here => short text (texts_of_emit emitted here), few⟩

/-- Units that were compiled together with others are compiled to the same class files against those
of the others. -/
theorem compile_separately {version : Version} {compiled : List CompiledUnit}
    (joint : compile external (first ++ second) version = .ok compiled)
    (unknown : ∀ unit ∈ first, ∀ d ∈ unit.classes, external.contains d.name = false)
    (isOpen : ∀ unit ∈ first, ∀ d ∈ unit.classes, ∀ m ∈ d.decl.methods,
      m.modifiers.isPrivate = false)
    (countable : ∀ c ∈ (typeUnits external (first ++ second)).1,
      c.name ∈ (first.flatMap SourceUnit.classes).map (·.name) →
        ∀ f, emit c version = .ok f → Countable c f) :
    ∃ own others path, compiled = own ++ others ∧
      own.map (·.qualifiedName) = (first.flatMap SourceUnit.classes).map (·.name.dotted) ∧
      others.map (·.qualifiedName) = (second.flatMap SourceUnit.classes).map (·.name.dotted) ∧
      ClassPath.ofFiles (own.map (·.bytes)) = .ok path ∧
      compile (external.chain path) second version = .ok others := by
  obtain ⟨accepts, written⟩ := compile_eq_ok.mp joint
  obtain ⟨new, rfl, emits⟩ := emitAll_eq_ok.mp written
  have typed := accepts.typeUnits_eq
  rw [typedOf_moved accepts unknown, ← map_fst_told] at emits typed
  obtain ⟨own, others, rfl, areOwn, areOthers⟩ := emits_append emits
  have back : ∀ x ∈ told (stubsOf external (first ++ second)) (pathOf external (first ++ second))
      first, ∀ f, emit x.1 version = .ok f → decode f.encode = .ok f ∧ f.classData = .ok x.2 := by
    intro x here f emitted
    have isTyped : x.1 ∈ (typeUnits external (first ++ second)).1 := by
      rw [typed]
      exact List.mem_append_left _ (List.mem_map_of_mem here)
    obtain ⟨unit, isUnit, inUnit⟩ := List.mem_flatMap.mp here
    obtain ⟨r, resolved, rfl⟩ := List.mem_map.mp inUnit
    obtain ⟨isClass, -⟩ := heads_of_resolved resolved
    have isOwn := name_mem_flatMap isUnit (List.mem_map_of_mem isClass)
    obtain ⟨texts, few⟩ := countable _ isTyped isOwn f emitted
    have read := (decode_emitted_iff isTyped emitted).mpr ⟨texts, Nat.lt_succ_of_le few⟩
    exact ⟨read, classData_of_resolved resolved (isOpen unit isUnit _ isClass) emitted read⟩
  have path := ofFiles_of_emits areOwn back
  rw [map_snd_told] at path
  refine ⟨own, others, finished external first second, rfl, ?_, ?_, path, ?_⟩
  · rw [names_of_emits areOwn, map_fst_told, dotted_typed]
  · rw [names_of_emits areOthers, typedOf, dotted_typed]
  · exact compile_eq_ok.mpr ⟨accepts.moved unknown, emitAll_eq_ok.mpr ⟨others, rfl, areOthers⟩⟩

/-- A unit that needs the class of another. -/
def makingUnit : SourceUnit := ⟨"B", "class B { static A make() { return new A(); } }"⟩

def makingDecl : MethodDecl :=
  ⟨"make", { Modifiers.none with isStatic := true }, some ⟨⟨"A", []⟩, 0, 1⟩, [],
    [.returns (some (.create ⟨⟨"A", []⟩, 0, 1⟩ [] 1)) 1], 1⟩

def makingTokens : Lexemes :=
  ⟨[⟨.word "class", 1⟩, ⟨.word "B", 1⟩, ⟨.punct '{', 1⟩, ⟨.word "static", 1⟩, ⟨.word "A", 1⟩,
    ⟨.word "make", 1⟩, ⟨.punct '(', 1⟩, ⟨.punct ')', 1⟩, ⟨.punct '{', 1⟩, ⟨.word "return", 1⟩,
    ⟨.word "new", 1⟩, ⟨.word "A", 1⟩, ⟨.punct '(', 1⟩, ⟨.punct ')', 1⟩,
    ⟨.punct ';', 1⟩, ⟨.punct '}', 1⟩, ⟨.punct '}', 1⟩], 1⟩

theorem scan_making : scan makingUnit.text = .ok makingTokens :=
  except_eq_ok_of_toOption (by decide +kernel)

theorem parse_making :
    parse makingUnit.text = .ok ⟨none, [], [.mk "B" .none [makingDecl] [] 1]⟩ := by
  rw [parse, scan_making]
  rfl

def makingMethod : TypedMethod :=
  ⟨⟨"make", TypeScope.methodFlags makingDecl.modifiers, [], ⟨[], some (.object ⟨"A"⟩)⟩, 1⟩,
    Variables.empty.types, [.returns (some (.create ⟨"A"⟩ noArguments []))], false⟩

def makingClass : TypedClass := ⟨⟨"B"⟩, .none, none, [], [makingMethod], "B.java"⟩

theorem typeUnits_making :
    typeUnits .empty [sumUnit, makingUnit] = ([sumClass, makingClass], []) := by
  have parsed : parseUnits [sumUnit, makingUnit] =
      ([(0, ⟨none, [], [.mk "A" .none [sumDecl] [] 1]⟩),
        (1, ⟨none, [], [.mk "B" .none [makingDecl] [] 1]⟩)], []) := by
    simp [parseUnits, List.zipIdx, parse_sum, parse_making, Except.toOption]
  rw [typeUnits, parsed]
  rfl

theorem takes_makingMethod : Takes (writeMethod makingMethod) 11 := by
  have body : Takes (inBody 0 (Emit.method makingMethod (startSlots makingMethod []))) 9 := by
    refine takes_inBody fun p valid room => ?_
    obtain ⟨owner, q, isOwner, validOwner, fromOwner⟩ :=
      Pool.takes_classRef "A" p valid (by omega)
    obtain ⟨method, r, isMethod, validMethod, fromMethod⟩ :=
      Pool.takes_methodRef ⟨"A"⟩ "<init>" noArguments false q validOwner (by omega)
    let copied := ({ start p 0 with pool := q }.extend (.newObject owner)).extend .dup
    let called := { copied with pool := r }.extend (.invoke .special method noArguments)
    let returned : MethodBody :=
      { called.extend (.returnValue .reference) with reachable := false, depth := 0 }
    have foundOwner : MethodBody.inPool (Pool.classRef "A") (start p 0) =
        (.ok owner, { start p 0 with pool := q }) := inPool_of_ok isOwner
    have foundMethod : MethodBody.inPool (Pool.methodRef ⟨"A"⟩ "<init>" noArguments false) copied =
        (.ok method, { copied with pool := r }) := inPool_of_ok isMethod
    obtain ⟨a, d, finished, validLast, last⟩ :=
      finish_total (b := returned) validMethod (show r.table.next + 1 < 65536 by omega)
        (show 2 < 65536 by decide) (show 0 < 65536 by decide)
    have fromCode : d.pool.table.next ≤ r.table.next + 1 := last
    refine ⟨a, d, ?_, validLast, by omega⟩
    refine ExceptState.bind_eq_ok.mpr ⟨(), returned, ?_, finished⟩
    refine ExceptState.bind_eq_ok.mpr ⟨startSlots makingMethod [], returned, ?_, rfl⟩
    refine ExceptState.bind_eq_ok.mpr ⟨(), called, ?_, rfl⟩
    refine ExceptState.bind_eq_ok.mpr ⟨(), { start p 0 with pool := q }.extend (.newObject owner),
      ExceptState.bind_eq_ok.mpr ⟨owner, _, foundOwner, rfl⟩, ?_⟩
    refine ExceptState.bind_eq_ok.mpr ⟨(), copied, rfl, ?_⟩
    refine ExceptState.bind_eq_ok.mpr ⟨(), copied, rfl, ?_⟩
    exact ExceptState.bind_eq_ok.mpr ⟨method, _, foundMethod, rfl⟩
  exact takes_writeMethod rfl body

theorem emit_making : ∃ f, emit makingClass ⟨0, 52⟩ = .ok f :=
  emit_of_method rfl takes_makingMethod (by decide) _

theorem compile_making :
    ∃ compiled, compile .empty ([sumUnit] ++ [makingUnit]) ⟨0, 52⟩ = .ok compiled := by
  obtain ⟨f, emitted⟩ := emit_sum
  obtain ⟨g, emittedLast⟩ := emit_making
  rw [List.singleton_append, compile_of_typeUnits typeUnits_making]
  simp only [emitAll, emitted, emittedLast]
  exact ⟨_, rfl⟩

theorem classes_sum : sumUnit.classes = [⟨0, .mk "A" .none [sumDecl] [] 1, [], ⟨"A"⟩⟩] := by
  rw [SourceUnit.classes, SourceUnit.content, parse_sum]
  rfl

theorem classes_making :
    makingUnit.classes = [⟨0, .mk "B" .none [makingDecl] [] 1, [], ⟨"B"⟩⟩] := by
  rw [SourceUnit.classes, SourceUnit.content, parse_making]
  rfl

theorem compile_separately_making :
    ∃ compiled own others path, compile .empty [sumUnit, makingUnit] ⟨0, 52⟩ = .ok compiled ∧
      compiled = own ++ others ∧ own.map (·.qualifiedName) = ["A"] ∧
      others.map (·.qualifiedName) = ["B"] ∧ ClassPath.ofFiles (own.map (·.bytes)) = .ok path ∧
      compile (ClassPath.empty.chain path) [makingUnit] ⟨0, 52⟩ = .ok others := by
  obtain ⟨compiled, joint⟩ := compile_making
  have unknown : ∀ unit ∈ [sumUnit], ∀ d ∈ unit.classes,
      ClassPath.empty.contains d.name = false := fun _ _ _ _ => rfl
  have isOpen : ∀ unit ∈ [sumUnit], ∀ d ∈ unit.classes, ∀ m ∈ d.decl.methods,
      m.modifiers.isPrivate = false := by
    simp [classes_sum, ClassDecl.methods, sumDecl, Modifiers.none]
  have countable : ∀ c ∈ (typeUnits .empty ([sumUnit] ++ [makingUnit])).1,
      c.name ∈ ([sumUnit].flatMap SourceUnit.classes).map (·.name) →
        ∀ f, emit c ⟨0, 52⟩ = .ok f → Countable c f := by
    intro c here isOwn f emitted
    rw [List.singleton_append, typeUnits_making] at here
    rw [List.flatMap_singleton, classes_sum] at isOwn
    rcases List.mem_pair.mp here with rfl | rfl
    · exact countable_of_texts emitted (by decide +kernel) (by decide)
    · exact absurd (List.mem_singleton.mp isOwn) (by decide)
  obtain ⟨own, others, path, both, ownNames, otherNames, read, alone⟩ :=
    compile_separately joint unknown isOpen countable
  refine ⟨compiled, own, others, path, joint, both, ?_, ?_, read, alone⟩
  · rw [ownNames, List.flatMap_singleton, classes_sum]
    decide
  · rw [otherNames, List.flatMap_singleton, classes_making]
    decide

end Separation

end JavaSnippet.Compile
