import JavaSnippet.Proofs.Compile.Emission
import JavaSnippet.Proofs.ClassFile.Requests
/-!
What class files name. A class file has no constants but those that its class, its code and a few
names of the format ask for.
-/
namespace JavaSnippet.Compile

open ClassFile Typing
open Pool (Request)

section Mentioned

/-- What is asked for to start a text builder. -/
def builderRequests : List Request :=
  [.classRef ClassName.stringBuilder.text, .methodRef .stringBuilder "<init>" noArguments false]

def appendRequest (t : ExprType) : Request :=
  .methodRef .stringBuilder "append" ⟨[Emit.appendParameter t], some (.object .stringBuilder)⟩ false

def finishRequest : Request :=
  .methodRef .stringBuilder "toString" ⟨[], some .string⟩ false

mutual

/-- What the code of a term asks for. Small numbers are not asked for, but that is left open. -/
def requestsOfTerm : Term → List Request
  | .int value => [.integer value]
  | .long value => [.long value]
  | .string text => [.string text]
  | .bool value => [.integer (if value then 1 else 0)]
  | .null | .localVar _ _ => []
  | .neg _ operand => requestsOfTerm operand
  | .arith _ _ left right => requestsOfTerm left ++ requestsOfTerm right
  | .widen operand => requestsOfTerm operand
  | .concat parts => builderRequests ++ (requestsOfParts parts ++ [finishRequest])
  | .callStatic owner method type args =>
    requestsOfTerms args ++ [.methodRef owner method type false]
  | .callStaticOn receiver owner method type args =>
    requestsOfTerm receiver ++ (requestsOfTerms args ++ [.methodRef owner method type false])
  | .callInstance receiver ofInterface owner method type args =>
    requestsOfTerm receiver ++
      (requestsOfTerms args ++ [.methodRef owner method type ofInterface])
  | .create owner type args =>
    .classRef owner.text :: (requestsOfTerms args ++ [.methodRef owner "<init>" type false])

def requestsOfTerms : List Term → List Request
  | [] => []
  | t :: rest => requestsOfTerm t ++ requestsOfTerms rest

/-- What the code of the parts of a text asks for. -/
def requestsOfParts : List Term → List Request
  | [] => []
  | t :: rest => requestsOfTerm t ++ (appendRequest t.type :: requestsOfParts rest)

end

def requestsOfStmt : TypedStmt → List Request
  | .declare _ value => value.elim [] requestsOfTerm
  | .store _ value => requestsOfTerm value
  | .returns value => value.elim [] requestsOfTerm
  | .throws value => requestsOfTerm value
  | .expr value => requestsOfTerm value

def requestsOfMethod (m : TypedMethod) : List Request :=
  .utf8 m.signature.name :: .utf8 m.signature.type.render ::
    (m.body.flatMap requestsOfStmt ++ [.utf8 "Code"])

def constructorRequests : List Request :=
  [.utf8 "<init>", .utf8 noArguments.render, .methodRef .object "<init>" noArguments false,
    .utf8 "Code"]

/-- What the entry of a nested class asks for. -/
def requestsOfNested (inner outer : ClassName) : List Request :=
  [.classRef inner.text, .classRef outer.text, .utf8 inner.simpleName]

def TypedClass.requests (c : TypedClass) : List Request :=
  .classRef c.name.text :: .classRef ClassName.object.text :: (constructorRequests ++
    (c.methods.flatMap requestsOfMethod ++ (.utf8 c.sourceFile :: .utf8 "SourceFile" ::
      ((c.nesting.flatMap fun entry => requestsOfNested entry.1 entry.2.1) ++
        [.utf8 "InnerClasses"]))))

def TypedClass.texts (c : TypedClass) : List String := c.requests.flatMap Request.texts

end Mentioned

namespace Emit

open MethodBody

variable {slots : SlotMap}

theorem asks_slotOf (id : Nat) : Asks [] (slotOf slots id) :=
  asks_of_same fun _ _ _ made => by rw [(slotOf_ok made).2]

theorem asks_dropResult : ∀ (type : ExprType), Asks [] (dropResult type)
  | .void => asks_pure _
  | .null => asks_push _
  | .value _ => asks_push _

theorem asks_startBuilder : Asks builderRequests startBuilder :=
  (asks_newObject .stringBuilder).bind fun _ => (asks_push .dup).bind fun _ =>
    asks_invoke .special .stringBuilder "<init>" noArguments

theorem asks_call (ofInterface : Bool) (owner : ClassName) (method : String) (type : MethodType) :
    Asks [.methodRef owner method type ofInterface]
      (invoke (if ofInterface then .interface else .virtual) owner method type) := by
  cases ofInterface with
  | false => exact asks_invoke .virtual owner method type
  | true => exact asks_invoke .interface owner method type

mutual

theorem asks_term : ∀ (a : Term), Asks (requestsOfTerm a) (term slots a)
  | .int value => asks_pushInt value
  | .long value => asks_pushLong value
  | .string text => asks_pushString text
  | .bool value => asks_pushInt _
  | .null => asks_push _
  | .localVar id type => (asks_slotOf id).bind fun _ => asks_load _ _
  | .neg width operand => by
    rw [requestsOfTerm]
    exact (asks_term operand).silent fun _ => asks_push _
  | .arith op width left right => by
    rw [requestsOfTerm]
    exact (asks_term left).bind fun _ => (asks_term right).silent fun _ => asks_push _
  | .widen operand => by
    rw [requestsOfTerm]
    exact (asks_term operand).silent fun _ => asks_push _
  | .concat parts => by
    rw [requestsOfTerm]
    exact asks_startBuilder.bind fun _ => (asks_appendParts parts).bind fun _ =>
      asks_invoke .virtual .stringBuilder "toString" ⟨[], some .string⟩
  | .callStatic owner method type args => by
    rw [requestsOfTerm]
    exact (asks_terms args).bind fun _ => asks_invoke .static owner method type
  | .callStaticOn receiver owner method type args => by
    rw [requestsOfTerm]
    exact (asks_term receiver).bind fun _ => (asks_dropResult _).bind fun _ =>
      (asks_terms args).bind fun _ => asks_invoke .static owner method type
  | .callInstance receiver ofInterface owner method type args => by
    rw [requestsOfTerm]
    exact (asks_term receiver).bind fun _ => (asks_terms args).bind fun _ =>
      asks_call ofInterface owner method type
  | .create owner type args => by
    rw [requestsOfTerm]
    exact (asks_newObject owner).bind fun _ => (asks_push .dup).bind fun _ =>
      (asks_terms args).bind fun _ => asks_invoke .special owner "<init>" type

theorem asks_terms : ∀ (as : List Term), Asks (requestsOfTerms as) (terms slots as)
  | [] => asks_pure _
  | a :: rest => by
    rw [requestsOfTerms]
    exact (asks_term a).bind fun _ => asks_terms rest

theorem asks_appendParts : ∀ (parts : List Term),
    Asks (requestsOfParts parts) (appendParts slots parts)
  | [] => asks_pure _
  | a :: rest => by
    rw [requestsOfParts]
    exact (asks_term a).bind fun _ =>
      (asks_invoke .virtual .stringBuilder "append" _).bind fun _ => asks_appendParts rest

end

theorem asks_statement {m : TypedMethod} : ∀ (s : TypedStmt),
    Asks (requestsOfStmt s) (statement slots m s)
  | .declare _ none => (asks_freshLocal _).silent fun _ => asks_pure _
  | .declare _ (some value) =>
    (asks_freshLocal _).bind fun _ => (asks_term value).silent fun _ =>
      (asks_store _ _).silent fun _ => asks_pure _
  | .store id value =>
    (asks_slotOf id).bind fun _ => (asks_term value).silent fun _ =>
      (asks_store _ _).silent fun _ => asks_pure _
  | .returns none => (asks_returnValue _).silent fun _ => asks_pure _
  | .returns (some value) =>
    (asks_term value).silent fun _ => (asks_returnValue _).silent fun _ => asks_pure _
  | .throws value =>
    (asks_term value).silent fun _ => (asks_push _).silent fun _ => asks_pure _
  | .expr value =>
    (asks_term value).silent fun _ => (asks_dropResult _).silent fun _ => asks_pure _

theorem asks_statements {m : TypedMethod} : ∀ (body : List TypedStmt) (slots : SlotMap),
    Asks (body.flatMap requestsOfStmt) (statements m slots body)
  | [], _ => asks_pure _
  | s :: rest, slots => by
    rw [List.flatMap_cons]
    exact (asks_statement s).bind fun after => asks_statements rest after

theorem asks_method {m : TypedMethod} :
    Asks (m.body.flatMap requestsOfStmt ++ [.utf8 "Code"]) (method m slots) := by
  refine (asks_statements m.body slots).bind fun _ => ?_
  split
  · exact (asks_returnValue none).bind fun _ => asks_finish
  · exact asks_finish

theorem asks_constructor :
    Asks [.methodRef .object "<init>" noArguments false, .utf8 "Code"] constructor :=
  (asks_push _).bind fun _ => (asks_invoke .special .object "<init>" noArguments).bind fun _ =>
    (asks_push _).bind fun _ => asks_finish

end Emit

section Writing

variable {α β : Type} {requests front back : List Request}

/-- Writing asks the pool for nothing but the requests. -/
def Writes (requests : List Request) (x : Write α) : Prop :=
  ∀ p a q, p.Valid → x p = .ok (a, q) → p.Serves requests q

theorem Writes.mono {x : Write α} (h : Writes front x) (more : front ⊆ back) : Writes back x :=
  fun p a q valid made => (h p a q valid made).mono more

theorem Writes.bind {x : Write α} {f : α → Write β} (first : Writes front x)
    (next : ∀ a, Writes back (f a)) : Writes (front ++ back) (x >>= f) := by
  intro p b q valid h
  obtain ⟨a, r, one, other⟩ := StateExcept.bind_eq_ok.mp h
  have served := first p a r valid one
  have further := next a r b q served.leads.valid other
  exact (served.mono (List.subset_append_left _ _)).trans
    (further.mono (List.subset_append_right _ _))

/-- Nothing is asked for after the first part. -/
theorem Writes.silent {x : Write α} {f : α → Write β} (first : Writes requests x)
    (next : ∀ a, Writes [] (f a)) : Writes requests (x >>= f) := by
  have whole := first.bind next
  rwa [List.append_nil] at whole

theorem writes_pure (a : α) : Writes [] (pure a : Write α) := by
  intro p b q valid h
  cases h
  exact valid.serves

theorem writes_get : Writes [] (get : Write Pool) := by
  intro p b q valid h
  cases h
  exact valid.serves

theorem writes_inPool (r : Request) : Writes [r] (inPool r.change) :=
  fun _ _ _ valid made => Pool.serves_of_change valid (inPool_ok made)

theorem writes_inBody {n : Nat} {build : MethodBody.Build α}
    (h : MethodBody.Asks requests build) : Writes requests (inBody n build) := by
  intro p a q valid made
  obtain ⟨body, built, rfl⟩ := inBody_ok made
  exact h (MethodBody.start p n) a body valid built

theorem writes_constructor : Writes constructorRequests writeConstructor :=
  (writes_inPool (.utf8 "<init>")).bind fun _ =>
    (writes_inPool (.utf8 noArguments.render)).bind fun _ =>
      (writes_inBody Emit.asks_constructor).silent fun _ => writes_pure _

theorem writes_method (m : TypedMethod) : Writes (requestsOfMethod m) (writeMethod m) := by
  refine (writes_inPool (.utf8 m.signature.name)).bind fun _ =>
    (writes_inPool (.utf8 m.signature.type.render)).bind fun _ => ?_
  split
  · intro p a q _ h
    cases h
  · exact (writes_inBody Emit.asks_method).silent fun _ => writes_pure _

theorem writes_methods : ∀ (ms : List TypedMethod) (written : List (Member .method)),
    Writes (ms.flatMap requestsOfMethod) (writeMethods written ms)
  | [], _ => writes_pure _
  | m :: rest, written => by
    rw [List.flatMap_cons]
    exact (writes_method m).bind fun member => writes_methods rest _

theorem writes_inner (inner outer : ClassName) (m : Source.Modifiers) :
    Writes (requestsOfNested inner outer) (writeInner inner outer m) :=
  (writes_inPool (.classRef inner.text)).bind fun _ =>
    (writes_inPool (.classRef outer.text)).bind fun _ =>
      (writes_inPool (.utf8 inner.simpleName)).silent fun _ => writes_pure _

theorem writes_inners : ∀ (nesting : List (ClassName × ClassName × Source.Modifiers)),
    Writes (nesting.flatMap fun entry => requestsOfNested entry.1 entry.2.1)
      (nesting.mapM fun entry => writeInner entry.1 entry.2.1 entry.2.2)
  | [] => by
    rw [List.mapM_nil]
    exact writes_pure _
  | entry :: rest => by
    rw [List.flatMap_cons, List.mapM_cons]
    exact (writes_inner _ _ _).bind fun _ => (writes_inners rest).silent fun _ => writes_pure _

theorem writes_attributes (c : TypedClass) :
    Writes (.utf8 c.sourceFile :: .utf8 "SourceFile" ::
      ((c.nesting.flatMap fun entry => requestsOfNested entry.1 entry.2.1) ++
        [.utf8 "InnerClasses"])) (writeAttributes c) := by
  refine (writes_inPool (.utf8 c.sourceFile)).bind fun file =>
    (writes_inPool (.utf8 "SourceFile")).bind fun source =>
      (writes_inners c.nesting).bind fun entries => ?_
  split
  · exact (writes_pure _).mono (List.nil_subset _)
  · exact (writes_inPool (.utf8 "InnerClasses")).silent fun _ => writes_pure _

theorem writes_class (c : TypedClass) (version : Version) :
    Writes c.requests (writeClass c version) :=
  (writes_inPool (.classRef c.name.text)).bind fun _ =>
    (writes_inPool (.classRef ClassName.object.text)).bind fun _ =>
      writes_constructor.bind fun _ => (writes_methods c.methods []).bind fun _ =>
        (writes_attributes c).silent fun _ => writes_get.silent fun _ => writes_pure _

theorem pool_of_emit {c : TypedClass} {version : Version} {f : ClassFile}
    (emitted : emit c version = .ok f) :
    ∃ p, writeClass c version .empty = .ok (f, p) ∧ f.constants = p.table := by
  obtain ⟨⟨file, pool⟩, written, rfl⟩ := except_map_eq_ok.mp emitted
  refine ⟨pool, written, ?_⟩
  obtain ⟨thisClass, p, -, rest⟩ := StateExcept.bind_eq_ok.mp written
  obtain ⟨superClass, q, -, rest⟩ := StateExcept.bind_eq_ok.mp rest
  obtain ⟨create, r, -, rest⟩ := StateExcept.bind_eq_ok.mp rest
  obtain ⟨methods, s, -, rest⟩ := StateExcept.bind_eq_ok.mp rest
  obtain ⟨attributes, u, -, rest⟩ := StateExcept.bind_eq_ok.mp rest
  obtain ⟨last, v, isLast, done⟩ := StateExcept.bind_eq_ok.mp rest
  obtain ⟨rfl, rfl⟩ := Prod.mk.inj (Except.ok.inj isLast)
  obtain ⟨rfl, rfl⟩ := Prod.mk.inj (Except.ok.inj done)
  rfl

/-- Every constant of a class file is there because its class asks for it. -/
theorem needed_of_emit {c : TypedClass} {version : Version} {f : ClassFile}
    (emitted : emit c version = .ok f) :
    ∀ k ∈ f.constants.elements, ∃ r ∈ c.requests, r.Needs f.constants k := by
  obtain ⟨p, written, table⟩ := pool_of_emit emitted
  rw [table]
  exact Pool.needed_of_serves (writes_class c version .empty f p Pool.valid_empty written)

/-- A class file has no other texts than its class. -/
theorem texts_of_emit {c : TypedClass} {version : Version} {f : ClassFile}
    (emitted : emit c version = .ok f) {text : String}
    (here : Constant.utf8 text ∈ f.constants.elements) : text ∈ c.texts := by
  obtain ⟨r, asked, needs⟩ := needed_of_emit emitted _ here
  cases needs with
  | utf8 mentioned => exact List.mem_flatMap_of_mem asked mentioned

end Writing

end JavaSnippet.Compile
