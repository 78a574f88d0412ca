import JavaSnippet.Proofs.Compile.Order
/-!
What is compiled is what was declared. The output has one class file for each declared class, outer
classes before those nested in them, and each class file has the methods of its class in order,
after a constructor.
-/
namespace JavaSnippet.Compile

open Typing Source ClassFile

section Listing

mutual

/-- The classes that a declaration makes, itself first and those nested in it as they stand. -/
def listed (around : List ClassName) (name : ClassName) : ClassDecl → List Declared
  | .mk simple modifiers methods classes line =>
    ⟨0, .mk simple modifiers methods classes line, around, name⟩ ::
      listedInside (around ++ [name]) name classes

def listedInside (around : List ClassName) (outer : ClassName) : List ClassDecl → List Declared
  | [] => []
  | .mk simple modifiers methods classes line :: rest =>
    listed around (outer.nested ⟨simple⟩) (.mk simple modifiers methods classes line) ++
      listedInside around outer rest

end

/-- The classes of a unit in the order of its text. -/
def listing (content : CompilationUnit) : List Declared :=
  content.classes.flatMap fun decl => listed [] ⟨qualify (packageOf content) decl.name⟩ decl

mutual

theorem listed_of_declare : ∀ (decl : ClassDecl) {around : List ClassName} {name : ClassName},
    (declare 0 around name decl).2 = [] → (declare 0 around name decl).1 = listed around name decl
  | .mk simple modifiers methods classes line, around, name, placed => by
    rw [declare] at placed ⊢
    obtain ⟨-, inside⟩ := List.append_eq_nil_iff.mp placed
    rw [listed, ← listedInside_of_declare classes inside]

theorem listedInside_of_declare : ∀ (decls : List ClassDecl) {around : List ClassName}
    {outer : ClassName}, (declareNested 0 around outer decls).2 = [] →
      (declareNested 0 around outer decls).1 = listedInside around outer decls
  | [], around, outer, placed => by rw [declareNested, listedInside]
  | .mk simple modifiers methods classes line :: rest, around, outer, placed => by
    rw [declareNested] at placed ⊢
    obtain ⟨first, others⟩ := List.append_eq_nil_iff.mp placed
    rw [listedInside, ← listedInside_of_declare rest others]
    cases named : SimpleName.ofString simple with
    | error fault =>
      rw [named] at first
      cases first
    | ok inner =>
      rw [named] at first
      obtain rfl := SimpleName.eq_of_ofString named
      rw [← listed_of_declare _ first]

end

/-- Where all classes have their place, none is left out. -/
theorem listing_of_declareUnit {content : CompilationUnit}
    (placed : (declareUnit 0 content).2 = []) : (declareUnit 0 content).1 = listing content := by
  unfold declareUnit listing at *
  simp only [List.flatMap_map, List.flatMap_eq_nil_iff] at placed ⊢
  refine List.flatMap_congr fun decl here => ?_
  have first := placed decl here
  cases named : ClassName.ofString (qualify (packageOf content) decl.name) with
  | error fault =>
    rw [named] at first
    cases first
  | ok name =>
    rw [named] at first
    obtain rfl := ClassName.eq_of_ofString named
    exact listed_of_declare decl first

end Listing

section Heads

variable {scope : TypeScope} {d : Declared}

theorem problems_of_add (heads : Heads) (m : MethodDecl) :
    heads.problems <:+ (heads.add scope d m).problems := by
  unfold Heads.add
  split
  · exact List.suffix_cons _ _
  · split
    · exact List.suffix_cons _ _
    · split
      · exact List.suffix_cons _ _
      · exact List.suffix_rfl

theorem found_of_add {heads : Heads} {m : MethodDecl}
    (none : (heads.add scope d m).problems = []) :
    (heads.add scope d m).found.map (·.2) = m :: heads.found.map (·.2) := by
  unfold Heads.add at none ⊢
  split at none
  · cases none
  · rename_i isStatic
    rw [if_neg isStatic]
    split at none
    · cases none
    · split at none
      · cases none
      · rename_i fresh
        rw [if_neg fresh]
        rfl

theorem problems_of_foldl (ms : List MethodDecl) (heads : Heads) :
    heads.problems <:+ (ms.foldl (Heads.add scope d) heads).problems := by
  induction ms generalizing heads with
  | nil => exact List.suffix_rfl
  | cons m ms ih => exact (problems_of_add heads m).trans (ih _)

theorem found_of_foldl {ms : List MethodDecl} {heads : Heads}
    (none : (ms.foldl (Heads.add scope d) heads).problems = []) :
    (ms.foldl (Heads.add scope d) heads).found.map (·.2) =
      ms.reverse ++ heads.found.map (·.2) := by
  induction ms generalizing heads with
  | nil => rfl
  | cons m ms ih =>
    have first : (heads.add scope d m).problems = [] :=
      List.suffix_nil.mp (none ▸ problems_of_foldl ms (heads.add scope d m))
    rw [List.foldl_cons, ih none, found_of_add first, List.reverse_cons, List.append_assoc]
    rfl

/-- Without problems every method has a head, in order. -/
theorem methods_of_headsOf (none : (headsOf scope d).problems = []) :
    (headsOf scope d).found.reverse.map (·.2) = d.decl.methods := by
  unfold headsOf at none ⊢
  rw [List.map_reverse, found_of_foldl none, List.map_nil, List.append_nil, List.reverse_reverse]

end Heads

section Mirroring

/-- Each type of a method head is what its name means in the class. -/
structure Resolves (scope : TypeScope) (enclosing : List ClassName) (m : MethodDecl)
    (type : MethodType) : Prop where
  parameters : List.Forall₂ (fun p t => scope.resolveType p.type enclosing = .ok t) m.parameters
    type.parameters
  result : Option.Rel (fun name t => scope.resolveType name enclosing = .ok t) m.result type.result

/-- The flags are those of the modifiers. Since every method has a body, `abstract` has none. -/
structure HasFlags (m : Modifiers) (flags : Flags .method) : Prop where
  known : flags.Known
  flags : ∀ flag ∈ FlagOwner.method.flags, flags.contains flag.2 =
    ((flag.2 == Flag.isPublic && m.isPublic) || (flag.2 == Flag.isPrivate && m.isPrivate) ||
      (flag.2 == Flag.isProtected && m.isProtected) || (flag.2 == Flag.isStatic && m.isStatic) ||
      (flag.2 == Flag.isFinal && m.isFinal))

/-- The method of a class file is the declared one. -/
structure MirrorsMethod (t : ConstantTable) (scope : TypeScope) (enclosing : List ClassName)
    (m : MethodDecl) (member : Member .method) : Prop where
  flags : HasFlags m.modifiers member.flags
  name : t.utf8? member.name = some m.name
  descriptor : ∃ type : MethodType, Resolves scope enclosing m type ∧
    t.utf8? member.descriptor = some type.render

/-- The class file is the declared class, with a constructor before its methods. -/
structure Mirrors (version : Version) (scope : TypeScope) (d : Declared) (f : ClassFile) :
    Prop where
  version : f.version = version
  name : f.thisName? = some d.name
  superName : f.superName? = some .object
  methods : ∃ create members, f.methods = create :: members ∧
    create.flags = ⟨Flag.isPublic⟩ ∧ f.constants.utf8? create.name = some "<init>" ∧
    f.constants.utf8? create.descriptor = some "()V" ∧
    List.Forall₂ (MirrorsMethod f.constants scope d.scope) d.decl.methods members

theorem resolves_of_signature {scope : TypeScope} {m : MethodDecl} {enclosing : List ClassName}
    {s : Signature} (h : scope.signature m enclosing = .ok s) :
    Resolves scope enclosing m s.type := by
  obtain ⟨-, -, -, parameters, result⟩ := TypeScope.signature_ok h
  constructor
  · rw [← List.forall₂_eq_eq_eq, List.forall₂_map_left_iff, List.forall₂_map_right_iff]
      at parameters
    exact parameters.imp fun _ _ => onLine_eq_ok.mp
  · cases declared : m.result with
    | none =>
      rw [declared] at result
      rw [← Except.ok.inj result]
      exact .none
    | some name =>
      rw [declared] at result
      obtain ⟨t, resolved, last⟩ := except_bind_eq_ok.mp result
      rw [← Except.ok.inj last]
      exact .some (onLine_eq_ok.mp resolved)

end Mirroring

section Output

variable {external : ClassPath} {units : List SourceUnit}

/-- Every class of the units with its unit. -/
def declarations (units : List SourceUnit) : List (SourceUnit × Declared) :=
  units.flatMap fun unit => (listing unit.content).map (unit, ·)

/-- What a class of the units is typed to. -/
def typedFor (external : ClassPath) (units : List SourceUnit) (x : SourceUnit × Declared) :
    TypedClass :=
  (typeClass ((x.1.scope (stubsOf external units)).withPath (pathOf external units)) x.1.classes
    x.1.fileName ⟨x.2, (headsOf (x.1.scope (stubsOf external units)) x.2).found.reverse⟩).1

theorem typedOf_eq_map (h : Accepts external units) :
    typedOf external units = (declarations units).map (typedFor external units) := by
  unfold typedOf declarations
  rw [List.map_flatMap, List.map_flatMap]
  refine List.flatMap_congr fun unit here => ?_
  rw [← listing_of_declareUnit (h.clean unit here).placed]
  unfold SourceUnit.typed SourceUnit.resolved SourceUnit.heads
  simp only [List.map_map]
  rfl

theorem mem_declarations (h : Accepts external units) {x : SourceUnit × Declared}
    (here : x ∈ declarations units) :
    x.2.name.IsValid ∧ (headsOf (x.1.scope (stubsOf external units)) x.2).problems = [] := by
  obtain ⟨unit, isUnit, inUnit⟩ := List.mem_flatMap.mp here
  obtain ⟨d, isClass, rfl⟩ := List.mem_map.mp inUnit
  have clean := h.clean unit isUnit
  rw [← listing_of_declareUnit clean.placed] at isClass
  exact ⟨isValid_of_mem isClass _ (List.mem_append_right _ List.mem_cons_self),
    clean.heads _ (List.mem_map_of_mem isClass)⟩

end Output

end JavaSnippet.Compile
