import JavaSnippet.Proofs.ClassFile.MethodBody
/-!
What a pool is asked for. Answering a request adds constants that it needs and no others, so every
constant in a pool is there for one of the requests that were made.
-/
namespace JavaSnippet.ClassFile

open ExceptState

namespace Pool

/-- Something that a class file has to name. -/
inductive Request where
  | utf8 (text : String)
  | classRef (name : String)
  | string (text : String)
  | integer (value : Int32)
  | long (value : Int64)
  | methodRef (owner : ClassName) (name : String) (type : MethodType) (ofInterface : Bool)

namespace Request

def change : Request → Change PoolIndex
  | utf8 text => Pool.utf8 text
  | classRef name => Pool.classRef name
  | string text => Pool.string text
  | integer value => Pool.integer value
  | long value => Pool.long value
  | methodRef owner name type ofInterface => Pool.methodRef owner name type ofInterface

def texts : Request → List String
  | utf8 text | classRef text | string text => [text]
  | integer _ | long _ => []
  | methodRef owner name type _ => [owner.text, name, type.render]

/-- The name of the class that the request reaches. -/
def className? : Request → Option String
  | classRef name => some name
  | methodRef owner _ _ _ => some owner.text
  | _ => none

theorem mem_texts_of_className? {r : Request} {name : String} (h : r.className? = some name) :
    name ∈ r.texts := by
  cases r with
  | classRef other => exact Option.some.inj h ▸ List.mem_singleton_self other
  | methodRef owner method type ofInterface => exact Option.some.inj h ▸ List.mem_cons_self
  | _ => cases h

/-- The constants that answer a request, each with what it refers to in the table. -/
inductive Needs (t : ConstantTable) : Request → Constant → Prop where
  | utf8 {r : Request} {text : String} (mentioned : text ∈ r.texts) : Needs t r (.utf8 text)
  | integer (value : Int32) : Needs t (.integer value) (.integer value)
  | long (value : Int64) : Needs t (.long value) (.long value)
  | classRef {r : Request} {name : String} {index : PoolIndex} (reached : r.className? = some name)
    (named : t.utf8? index = some name) : Needs t r (.classRef index)
  | string {text : String} {index : PoolIndex} (content : t.utf8? index = some text) :
    Needs t (.string text) (.string index)
  | nameAndType {owner : ClassName} {method : String} {type : MethodType} {ofInterface : Bool}
    {name descriptor : PoolIndex} (named : t.utf8? name = some method)
    (described : t.utf8? descriptor = some type.render) :
    Needs t (.methodRef owner method type ofInterface) (.nameAndType name descriptor)
  | methodRef {owner : ClassName} {method : String} {type : MethodType} {ofInterface : Bool}
    {ownerIndex member name descriptor : PoolIndex}
    (owned : t.className? ownerIndex = some owner.text)
    (joined : t.constant? member = some (.nameAndType name descriptor))
    (named : t.utf8? name = some method) (described : t.utf8? descriptor = some type.render) :
    Needs t (.methodRef owner method type ofInterface) (.methodRef ownerIndex member ofInterface)

theorem Needs.within {p : Pool} {t : ConstantTable} (h : p.Within t) {r : Request} {c : Constant}
    (needs : r.Needs p.table c) : r.Needs t c := by
  cases needs with
  | utf8 mentioned => exact .utf8 mentioned
  | integer value => exact .integer value
  | long value => exact .long value
  | classRef reached named => exact .classRef reached (h.utf8? named)
  | string content => exact .string (h.utf8? content)
  | nameAndType named described => exact .nameAndType (h.utf8? named) (h.utf8? described)
  | methodRef owned joined named described =>
    exact .methodRef (h.className? owned) (h.constant? joined) (h.utf8? named) (h.utf8? described)

end Request

/-- The second pool has all that the first has, and more for the requests. -/
def Serves (p : Pool) (requests : List Request) (q : Pool) : Prop :=
  ∃ added, p.Grows added q ∧ ∀ c ∈ added, ∃ r ∈ requests, r.Needs q.table c

variable {p q s : Pool} {requests front back : List Request} {r : Request}

theorem Serves.leads (h : p.Serves requests q) : p.Leads q := by
  obtain ⟨added, grown, -⟩ := h
  exact ⟨added, grown⟩

theorem Valid.serves (h : p.Valid) : p.Serves requests p := ⟨[], h.grows, by simp⟩

theorem Serves.mono (h : p.Serves front q) (more : front ⊆ back) : p.Serves back q := by
  obtain ⟨added, grown, needed⟩ := h
  refine ⟨added, grown, fun c here => ?_⟩
  obtain ⟨r, asked, needs⟩ := needed c here
  exact ⟨r, more asked, needs⟩

theorem Serves.trans (h : p.Serves requests q) (g : q.Serves requests s) :
    p.Serves requests s := by
  obtain ⟨old, grown, neededOld⟩ := h
  obtain ⟨new, grownMore, neededNew⟩ := g
  refine ⟨old ++ new, grown.trans grownMore, fun c here => ?_⟩
  rcases List.mem_append.mp here with before | after
  · obtain ⟨r, asked, needs⟩ := neededOld c before
    have within : q.Within s.table := ⟨grownMore.isPrefix, grownMore.valid.ascending⟩
    exact ⟨r, asked, needs.within within⟩
  · exact neededNew c after

theorem serves_of_intern {c : Constant} {slot : PoolIndex} (valid : p.Valid)
    (h : intern c p = (.ok slot, q)) (needs : r.Needs q.table c) : p.Serves [r] q := by
  obtain ⟨-, ⟨-, grown⟩ | ⟨-, grown⟩⟩ := intern_ok valid h
  · exact ⟨[], grown, by simp⟩
  · exact ⟨[c], grown, by simpa using needs⟩

theorem serves_of_classRef {name : String} {slot : PoolIndex} (valid : p.Valid)
    (h : classRef name p = (.ok slot, q)) (reached : r.className? = some name) :
    p.Serves [r] q := by
  obtain ⟨-, ⟨-, grown⟩ | ⟨-, text, named, ⟨-, grown⟩ | ⟨-, grown⟩⟩⟩ := classRef_ok valid h
  · exact ⟨[], grown, by simp⟩
  · have isClass : r.Needs q.table (.classRef text) := .classRef reached named
    exact ⟨_, grown, by simpa using isClass⟩
  · have isClass : r.Needs q.table (.classRef text) := .classRef reached named
    have isName : r.Needs q.table (.utf8 name) := .utf8 (Request.mem_texts_of_className? reached)
    exact ⟨_, grown, by simpa using And.intro isName isClass⟩

/-- A pool that gives an answer grew for that request alone. -/
theorem serves_of_change {slot : PoolIndex} (valid : p.Valid)
    (h : r.change p = (.ok slot, q)) : p.Serves [r] q := by
  cases r with
  | utf8 text => exact serves_of_intern valid h (.utf8 (List.mem_singleton_self text))
  | classRef name => exact serves_of_classRef valid h rfl
  | integer value => exact serves_of_intern valid h (.integer value)
  | long value => exact serves_of_intern valid h (.long value)
  | string text =>
    obtain ⟨content, a, isText, last⟩ := bind_eq_ok.mp h
    obtain ⟨toText, named⟩ := utf8_leads valid isText
    have toEnd := (intern_leads toText.valid last).1
    have within := toEnd.within toEnd.valid.within
    have textNeeds : (Request.string text).Needs a.table (.utf8 text) :=
      .utf8 (List.mem_singleton_self text)
    exact (serves_of_intern valid isText textNeeds).trans
      (serves_of_intern toText.valid last (.string (within.utf8? named)))
  | methodRef owner name type ofInterface =>
    obtain ⟨ownerIndex, a, isOwner, h⟩ := bind_eq_ok.mp h
    obtain ⟨toOwner, owned⟩ := classRef_leads valid isOwner
    obtain ⟨nameIndex, b, isName, h⟩ := bind_eq_ok.mp h
    obtain ⟨toName, named⟩ := utf8_leads toOwner.valid isName
    obtain ⟨descriptor, d, isDescriptor, h⟩ := bind_eq_ok.mp h
    obtain ⟨toDescriptor, described⟩ := utf8_leads toName.valid isDescriptor
    obtain ⟨member, e, isMember, last⟩ := bind_eq_ok.mp h
    obtain ⟨toMember, joined⟩ := intern_leads toDescriptor.valid isMember
    have toEnd := (intern_leads toMember.valid last).1
    have atMember := toMember.valid.within
    have atDescriptor := toMember.within atMember
    have joinedNeeds : (Request.methodRef owner name type ofInterface).Needs e.table
        (.nameAndType nameIndex descriptor) :=
      .nameAndType ((toDescriptor.within atDescriptor).utf8? named) (atDescriptor.utf8? described)
    have beforeEnd := toEnd.within toEnd.valid.within
    have withDescriptor := toMember.within beforeEnd
    have withName := toDescriptor.within withDescriptor
    have referenceNeeds : (Request.methodRef owner name type ofInterface).Needs q.table
        (.methodRef ownerIndex member ofInterface) :=
      .methodRef ((toName.within withName).className? owned) (beforeEnd.constant? joined)
        (withName.utf8? named) (withDescriptor.utf8? described)
    exact (serves_of_classRef valid isOwner rfl).trans <|
      (serves_of_intern toOwner.valid isName (.utf8 (by simp [Request.texts]))).trans <|
      (serves_of_intern toName.valid isDescriptor (.utf8 (by simp [Request.texts]))).trans <|
      (serves_of_intern toDescriptor.valid isMember joinedNeeds).trans <|
      serves_of_intern toMember.valid last referenceNeeds

/-- Every constant of a pool that was empty at first is needed by a request. -/
theorem needed_of_serves (h : Pool.empty.Serves requests p) :
    ∀ c ∈ p.table.elements, ∃ r ∈ requests, r.Needs p.table c := by
  obtain ⟨added, grown, needed⟩ := h
  have all : p.table.elements = added := by
    rw [grown.table, SlotTable.elements_append]
    rfl
  rwa [all]

end Pool

namespace MethodBody

open Pool

variable {α β : Type} {requests front back : List Request}

/-- Building the code asks the pool for nothing but the requests. -/
def Asks (requests : List Request) (x : Build α) : Prop :=
  ∀ b a d, b.pool.Valid → x b = (.ok a, d) → b.pool.Serves requests d.pool

theorem Asks.mono {x : Build α} (h : Asks front x) (more : front ⊆ back) : Asks back x :=
  fun b a d valid made => (h b a d valid made).mono more

theorem Asks.bind {x : Build α} {f : α → Build β} (first : Asks front x)
    (next : ∀ a, Asks back (f a)) : Asks (front ++ back) (x >>= f) := by
  intro b c d valid h
  obtain ⟨a, e, one, other⟩ := bind_eq_ok.mp h
  have served := first b a e valid one
  have further := next a e c d served.leads.valid other
  exact (served.mono (List.subset_append_left _ _)).trans
    (further.mono (List.subset_append_right _ _))

/-- Nothing is asked for after the first part. -/
theorem Asks.silent {x : Build α} {f : α → Build β} (first : Asks requests x)
    (next : ∀ a, Asks [] (f a)) : Asks requests (x >>= f) := by
  have whole := first.bind next
  rwa [List.append_nil] at whole

theorem asks_of_same {x : Build α} (same : ∀ b a d, x b = (.ok a, d) → d.pool = b.pool) :
    Asks [] x := fun b a d valid made => same b a d made ▸ valid.serves

theorem asks_pure (a : α) : Asks [] (pure a : Build α) := asks_of_same fun _ _ _ made => by
  obtain ⟨-, rfl⟩ := Prod.mk.inj made
  rfl

theorem asks_throw (fault : Fault) : Asks [] (throw fault : Build α) :=
  fun _ _ _ _ made => by cases made

theorem asks_inPool (r : Request) : Asks [r] (inPool r.change) := by
  intro b slot d valid h
  obtain ⟨q, made, rfl⟩ := inPool_ok h
  exact serves_of_change valid made

theorem asks_push (i : Instruction) : Asks [] (push i) := by
  refine asks_of_same fun b a d made => ?_
  obtain ⟨-, -, -, rfl⟩ := push_ok made
  split
  · rfl
  · rfl

theorem asks_freshLocal (t : FieldType) : Asks [] (freshLocal t) := by
  refine asks_of_same fun b a d made => ?_
  unfold freshLocal at made
  split at made
  · obtain ⟨-, rfl⟩ := Prod.mk.inj made
    rfl
  · cases made

/-- An instruction that needs a constant. -/
theorem asks_constant (r : Request) (f : PoolIndex → Instruction) :
    Asks [r] (do push (f (← inPool r.change))) := (asks_inPool r).silent fun _ => asks_push _

theorem asks_pushInt (value : Int32) : Asks [.integer value] (pushInt value) := by
  unfold pushInt
  split
  · exact (asks_push _).mono (List.nil_subset _)
  · exact asks_constant (.integer value) .ldc

theorem asks_pushLong (value : Int64) : Asks [.long value] (pushLong value) := by
  unfold pushLong
  split
  · exact (asks_push _).mono (List.nil_subset _)
  · exact asks_constant (.long value) .ldc2

theorem asks_pushString (text : String) : Asks [.string text] (pushString text) :=
  asks_constant (.string text) .ldc

theorem asks_newObject (name : ClassName) : Asks [.classRef name.text] (newObject name) :=
  asks_constant (.classRef name.text) .newObject

theorem asks_invoke (kind : InvokeKind) (owner : ClassName) (name : String) (type : MethodType) :
    Asks [.methodRef owner name type (kind == .interface)] (invoke kind owner name type) :=
  asks_constant (.methodRef owner name type (kind == .interface)) fun method =>
    .invoke kind method type

theorem asks_kindOr (cause : BadDescriptor) (t : FieldType) : Asks [] (kindOr cause t) :=
  asks_of_same fun _ _ _ made => by rw [(kindOr_ok made).2]

theorem asks_load (t : FieldType) (slot : UInt16) : Asks [] (load t slot) :=
  (asks_kindOr _ _).silent fun _ => asks_push _

theorem asks_store (t : FieldType) (slot : UInt16) : Asks [] (store t slot) :=
  (asks_kindOr _ _).silent fun _ => asks_push _

theorem asks_returnValue : ∀ (t : Option FieldType), Asks [] (returnValue t)
  | none => asks_push _
  | some _ => (asks_kindOr _ _).silent fun _ => asks_push _

theorem asks_finish : Asks [.utf8 "Code"] finish := by
  have got : Asks [] (get : Build MethodBody) := asks_of_same fun _ _ _ made => by
    obtain ⟨-, rfl⟩ := Prod.mk.inj made
    rfl
  refine got.bind fun body => ?_
  split
  · exact (asks_inPool (.utf8 "Code")).silent fun _ => asks_pure _
  · exact (asks_throw _).mono (List.nil_subset _)

end MethodBody

end JavaSnippet.ClassFile
