import JavaSnippet.Proofs.ClassPath.Alike
import JavaSnippet.Typing.Body
/-!
Typing on another class path. What a name means depends on which classes there are, and the type of
a body on nothing but the answers of the path, so paths that cannot be told apart type all bodies
alike.
-/
namespace JavaSnippet.Typing

open Source

section Conversions

variable {p q : ClassPath}

theorem isAssignable_alike (h : p.Alike q) : isAssignable p = isAssignable q := by
  funext source wanted
  unfold isAssignable
  simp only [h.isSubtype]

theorem pass_alike (h : p.Alike q) : pass p = pass q := by
  funext t wanted
  rw [pass, pass, isAssignable_alike h]

theorem convert_alike (h : p.Alike q) : convert p = convert q := by
  funext t wanted
  unfold convert
  rw [pass_alike h]

theorem passAll_alike (h : p.Alike q) : passAll p = passAll q := by
  funext args m
  rw [passAll, passAll, pass_alike h]

theorem isApplicable_alike (h : p.Alike q) : isApplicable p = isApplicable q := by
  funext args m
  rw [isApplicable, isApplicable, isAssignable_alike h]

theorem mostSpecific_alike (h : p.Alike q) : mostSpecific p = mostSpecific q := by
  funext methods
  unfold mostSpecific isMoreSpecific
  rw [isAssignable_alike h]

theorem select_alike (h : p.Alike q) : select p = select q := by
  funext candidates owner name args
  unfold select
  rw [isApplicable_alike h, mostSpecific_alike h]

end Conversions

namespace TypeScope

/-- The scope on another class path. -/
def withPath (scope : TypeScope) (q : ClassPath) : TypeScope := { scope with classPath := q }

section Names

variable {scope : TypeScope} {q : ClassPath}

theorem inPackage_withPath (same : scope.classPath.contains = q.contains) :
    (scope.withPath q).inPackage = scope.inPackage := by
  funext package simple
  rw [inPackage, inPackage, same]
  rfl

theorem nestedIn_withPath (same : scope.classPath.contains = q.contains) :
    (scope.withPath q).nestedIn = scope.nestedIn := by
  funext outer simple
  rw [nestedIn, nestedIn, same]
  rfl

theorem descend_withPath (same : scope.classPath.contains = q.contains) (name : ClassName)
    (rest : List String) : (scope.withPath q).descend name rest = scope.descend name rest := by
  induction rest generalizing name with
  | nil => rfl
  | cons simple rest ih =>
    rw [descend, descend, nestedIn_withPath same]
    split
    · exact ih _
    · rfl

theorem amongEnclosing_withPath (same : scope.classPath.contains = q.contains) (simple : String)
    (enclosing : List ClassName) :
    (scope.withPath q).amongEnclosing simple enclosing = scope.amongEnclosing simple enclosing := by
  induction enclosing with
  | nil => rfl
  | cons outer rest ih => rw [amongEnclosing, amongEnclosing, nestedIn_withPath same, ih]

theorem simple?_withPath (same : scope.classPath.contains = q.contains) (simple : String)
    (enclosing : List ClassName) :
    (scope.withPath q).simple? simple enclosing = scope.simple? simple enclosing := by
  rw [simple?, simple?, amongEnclosing_withPath same, inPackage_withPath same]
  rfl

theorem afterPackage_withPath (same : scope.classPath.contains = q.contains) (package : String)
    (names : List String) :
    (scope.withPath q).afterPackage package names = scope.afterPackage package names := by
  induction names generalizing package with
  | nil => rfl
  | cons simple rest ih =>
    rw [afterPackage, afterPackage, inPackage_withPath same, ih]
    simp only [descend_withPath same]

theorem qualified_withPath (same : scope.classPath.contains = q.contains) (path : Path) :
    (scope.withPath q).qualified path = scope.qualified path := by
  rw [qualified, qualified, afterPackage_withPath same]

theorem resolve_withPath (same : scope.classPath.contains = q.contains) (path : Path)
    (enclosing : List ClassName) :
    (scope.withPath q).resolve path enclosing = scope.resolve path enclosing := by
  rw [resolve, resolve, simple?_withPath same, qualified_withPath same]
  simp only [descend_withPath same]

theorem resolveType_withPath (same : scope.classPath.contains = q.contains) (type : TypeName)
    (enclosing : List ClassName) :
    (scope.withPath q).resolveType type enclosing = scope.resolveType type enclosing := by
  rw [resolveType, resolveType, resolve_withPath same]

theorem signature_withPath (same : scope.classPath.contains = q.contains) (m : MethodDecl)
    (enclosing : List ClassName) :
    (scope.withPath q).signature m enclosing = scope.signature m enclosing := by
  rw [signature, signature]
  simp only [resolveType_withPath same]

theorem addImport_withPath (same : scope.classPath.contains = q.contains) (problems : List Problem)
    (i : Import) :
    addImport (scope.withPath q, problems) i =
      ((addImport (scope, problems) i).1.withPath q, (addImport (scope, problems) i).2) := by
  unfold addImport
  simp only [qualified_withPath same]
  split
  · rfl
  · split
    · rfl
    · rfl

theorem classPath_addImport (state : TypeScope × List Problem) (i : Import) :
    (addImport state i).1.classPath = state.1.classPath := by
  unfold addImport
  simp only
  split
  · rfl
  · split
    · rfl
    · rfl

theorem addImports_withPath (same : scope.classPath.contains = q.contains) (problems : List Problem)
    (imports : List Import) :
    imports.foldl addImport (scope.withPath q, problems) =
      ((imports.foldl addImport (scope, problems)).1.withPath q,
        (imports.foldl addImport (scope, problems)).2) := by
  induction imports generalizing scope problems with
  | nil => rfl
  | cons i imports ih =>
    rw [List.foldl_cons, List.foldl_cons, addImport_withPath same]
    refine ih ?_ _
    rw [classPath_addImport]
    exact same

end Names

theorem classPath_build (p : ClassPath) (unit : CompilationUnit) :
    (build p unit).1.classPath = p := by
  unfold build
  refine List.foldlRecOn (motive := fun state => state.1.classPath = p) unit.imports addImport
    (b := (ofUnit p unit, [])) rfl ?_
  intro state same i _
  rw [classPath_addImport, same]

/-- The scope of a unit is the same on a path with the same class names. -/
theorem build_alike {p q : ClassPath} (same : p.contains = q.contains) (unit : CompilationUnit) :
    build q unit = ((build p unit).1.withPath q, (build p unit).2) := by
  have start : (ofUnit p unit).classPath.contains = q.contains := same
  exact addImports_withPath start [] unit.imports

end TypeScope

namespace Place

/-- The place on another class path. -/
def withPath (place : Place) (q : ClassPath) : Place :=
  { place with scope := place.scope.withPath q }

variable {place : Place} {q : ClassPath}

theorem classReceiver_withPath (alike : place.path.Alike q) (e : Expr) :
    (place.withPath q).classReceiver e = place.classReceiver e := by
  unfold classReceiver
  simp only [withPath, TypeScope.resolve_withPath alike.contains]
  rfl

theorem missingPart_withPath (alike : place.path.Alike q) (p : Path) (member : String) :
    (place.withPath q).missingPart p member = place.missingPart p member := by
  unfold missingPart
  simp only [withPath, TypeScope.resolve_withPath alike.contains]

theorem choose_withPath (alike : place.path.Alike q) (owner : ClassName) (name : String)
    (args : List Term) :
    (place.withPath q).choose owner name args = place.choose owner name args := by
  rw [choose, choose, select_alike alike, alike.visibleMethods]
  rfl

theorem staticCall_withPath (alike : place.path.Alike q) (owner : ClassName) (name : String)
    (args : List Term) :
    (place.withPath q).staticCall owner name args = place.staticCall owner name args := by
  rw [staticCall, staticCall, choose_withPath alike, passAll_alike alike]
  rfl

theorem plainCall_withPath (alike : place.path.Alike q) (name : String) (args : List Term) :
    (place.withPath q).plainCall name args = place.plainCall name args := by
  unfold plainCall
  simp only [staticCall_withPath alike, alike.visibleMethods]
  rfl

theorem memberCall_withPath (alike : place.path.Alike q) (receiver : Term) (name : String)
    (args : List Term) :
    (place.withPath q).memberCall receiver name args = place.memberCall receiver name args := by
  unfold memberCall
  simp only [choose_withPath alike, passAll_alike alike, alike.isInterface]
  rfl

theorem creation_withPath (alike : place.path.Alike q) (owner : ClassName) (args : List Term) :
    (place.withPath q).creation owner args = place.creation owner args := by
  unfold creation
  simp only [choose_withPath alike, passAll_alike alike, alike.isInterface]
  rfl

mutual

theorem expression_withPath (alike : place.path.Alike q) :
    ∀ e, (place.withPath q).expression e = place.expression e
  | .int value line => rfl
  | .long value line => rfl
  | .string text line => rfl
  | .bool value line => rfl
  | .null line => rfl
  | .name text line => rfl
  | .select qualifier member line => by
    rw [expression, expression, expression_withPath alike qualifier]
    simp only [missingPart_withPath alike]
    rfl
  | .neg operand line => by
    rw [expression, expression, expression_withPath alike operand]
  | .binary op left right line => by
    rw [expression, expression, expression_withPath alike left, expression_withPath alike right]
  | .call method args line => by
    rw [expression, expression, expressions_withPath alike args]
    simp only [plainCall_withPath alike]
  | .callOn receiver method args line => by
    rw [expression, expression, expressions_withPath alike args, expression_withPath alike receiver,
      classReceiver_withPath alike]
    simp only [staticCall_withPath alike, memberCall_withPath alike]
  | .create type args line => by
    have resolved : (place.withPath q).scope.resolve = place.scope.resolve := by
      funext path enclosing
      exact TypeScope.resolve_withPath alike.contains path enclosing
    rw [expression, expression, expressions_withPath alike args, resolved]
    simp only [creation_withPath alike]
    rfl

theorem expressions_withPath (alike : place.path.Alike q) :
    ∀ es, (place.withPath q).expressions es = place.expressions es
  | [] => rfl
  | e :: rest => by
    rw [expressions, expressions, expression_withPath alike e, expressions_withPath alike rest]

end

theorem value_withPath (alike : place.path.Alike q) (e : Expr) :
    (place.withPath q).value e = place.value e := by
  rw [value, value, expression_withPath alike]

theorem assigned_withPath (alike : place.path.Alike q) (e : Expr) (wanted : FieldType) :
    (place.withPath q).assigned e wanted = place.assigned e wanted := by
  rw [assigned, assigned, value_withPath alike, convert_alike alike]
  rfl

end Place

namespace MethodContext

/-- The method on another class path. -/
def withPath (c : MethodContext) (q : ClassPath) : MethodContext :=
  { c with scope := c.scope.withPath q }

variable {c : MethodContext} {q : ClassPath}

theorem assigned_withPath (alike : c.scope.classPath.Alike q) (v : Variables) (e : Expr)
    (wanted : FieldType) :
    ((c.withPath q).place v).assigned e wanted = (c.place v).assigned e wanted := by
  have here : (c.place v).path.Alike q := alike
  exact Place.assigned_withPath here e wanted

theorem declaration_withPath (alike : c.scope.classPath.Alike q) (v : Variables) (type : TypeName)
    (name : String) (isFinal : Bool) (value : Option Expr) (line : Nat) :
    (c.withPath q).declaration v type name isFinal value line =
      c.declaration v type name isFinal value line := by
  unfold declaration
  simp only [assigned_withPath alike]
  simp only [withPath, TypeScope.resolveType_withPath alike.contains]

theorem assignment_withPath (alike : c.scope.classPath.Alike q) (v : Variables) (name : String)
    (value : Expr) (line : Nat) :
    (c.withPath q).assignment v name value line = c.assignment v name value line := by
  unfold assignment
  simp only [assigned_withPath alike]

theorem returning_withPath (alike : c.scope.classPath.Alike q) (v : Variables) (value : Option Expr)
    (line : Nat) : (c.withPath q).returning v value line = c.returning v value line := by
  unfold returning
  simp only [assigned_withPath alike]
  rfl

theorem throwing_withPath (alike : c.scope.classPath.Alike q) (v : Variables) (value : Expr) :
    (c.withPath q).throwing v value = c.throwing v value := by
  have here : (c.place v).path.Alike q := alike
  have same : ((c.withPath q).place v).value value = (c.place v).value value :=
    Place.value_withPath here value
  rw [throwing, throwing, same, isAssignable_alike alike]
  rfl

theorem statement_withPath (alike : c.scope.classPath.Alike q) (v : Variables) (s : Stmt) :
    (c.withPath q).statement v s = c.statement v s := by
  cases s with
  | declare type name isFinal value line =>
    exact declaration_withPath alike v type name isFinal value line
  | assign name value line => exact assignment_withPath alike v name value line
  | returns value line => rw [statement, statement, returning_withPath alike]
  | throws value line => rw [statement, statement, throwing_withPath alike]
  | expr value =>
    have here : (c.place v).path.Alike q := alike
    have same : ((c.withPath q).place v).expression value = (c.place v).expression value :=
      Place.expression_withPath here value
    rw [statement, statement, same]

theorem statements_withPath (alike : c.scope.classPath.Alike q) (p : Progress) (stmts : List Stmt) :
    (c.withPath q).statements p stmts = c.statements p stmts := by
  induction stmts generalizing p with
  | nil => rfl
  | cons s rest ih =>
    rw [statements, statements, statement_withPath alike]
    simp only [ih]

/-- The body of a method is typed the same on paths that cannot be told apart. -/
theorem body_withPath (alike : c.scope.classPath.Alike q) (stmts : List Stmt) :
    (c.withPath q).body stmts = c.body stmts := by
  unfold body
  rw [statements_withPath alike]
  rfl

end MethodContext

end JavaSnippet.Typing
