import JavaSnippet.Proofs.ClassFile.RoundTrip
import JavaSnippet.Proofs.Compile.Codes
import Mathlib.Data.List.Forall2
/-!
What an emitted class file holds. Each method has one body, whose bytes are the code of its
statements, and every index in the file is the slot of what it stands for.
-/
namespace JavaSnippet.Compile

open ClassFile Typing MethodBody

/-- Whatever stands in the second list stands there for something in the first. -/
theorem exists_of_forall₂ {α β : Type} {R : α → β → Prop} {as : List α} {bs : List β}
    (h : List.Forall₂ R as bs) {b : β} (here : b ∈ bs) : ∃ a ∈ as, R a b := by
  induction h with
  | nil => cases here
  | @cons a other as bs first _ ih =>
    rcases List.mem_cons.mp here with rfl | later
    · exact ⟨a, List.mem_cons_self, first⟩
    · obtain ⟨c, isIn, related⟩ := ih later
      exact ⟨c, List.mem_cons_of_mem a isIn, related⟩

theorem inPool_ok {α : Type} {change : Pool.Change α} {p q : Pool} {a : α}
    (h : inPool change p = .ok (a, q)) : change p = (.ok a, q) := by
  unfold inPool at h
  cases made : change p with
  | mk result r =>
    rw [made] at h
    cases result with
    | error overflow => cases h
    | ok b =>
      obtain ⟨rfl, rfl⟩ := Prod.mk.inj (Except.ok.inj h)
      rfl

theorem inBody_ok {α : Type} {n : Nat} {build : Build α} {p q : Pool} {a : α}
    (h : inBody n build p = .ok (a, q)) :
    ∃ body, build (start p n) = (.ok a, body) ∧ q = body.pool := by
  unfold inBody at h
  cases built : build (start p n) with
  | mk result body =>
    rw [built] at h
    cases result with
    | error fault => cases h
    | ok b =>
      obtain ⟨rfl, rfl⟩ := Prod.mk.inj (Except.ok.inj h)
      exact ⟨body, rfl, rfl⟩

theorem sound_start {p : Pool} (valid : p.Valid) (n : Nat) : (start p n).Sound :=
  ⟨valid, Nat.zero_le _⟩

/-- The attribute is a body of the given bytes without handlers. -/
structure HoldsCode (t : ConstantTable) (a : Attribute) (bytes : List UInt8) : Prop where
  name : t.utf8? a.name = some "Code"
  short : bytes.length ≤ 65535
  info : ∃ maxStack maxLocals, a.info = (Code.mk maxStack maxLocals bytes [] []).encode

/-- A reader of the class file finds the body. -/
theorem HoldsCode.whole {t : ConstantTable} {a : Attribute} {bytes : List UInt8}
    (h : HoldsCode t a bytes) {m : Member .method} (only : m.attributes = [a]) :
    ∃ maxStack maxLocals, t.code? m = some ⟨maxStack, maxLocals, bytes, [], []⟩ := by
  obtain ⟨maxStack, maxLocals, info⟩ := h.info
  have short := h.short
  have fits : (Code.mk maxStack maxLocals bytes [] []).Fits :=
    ⟨by simp only; omega, by simp, by simp, by simp⟩
  refine ⟨maxStack, maxLocals, ?_⟩
  unfold ConstantTable.code?
  rw [only, List.find?_cons_of_pos (by simp [h.name])]
  simp only
  rw [info, decode_encode_code fits]
  rfl

theorem HoldsCode.code? {t : ConstantTable} {a : Attribute} {bytes : List UInt8}
    (h : HoldsCode t a bytes) {m : Member .method} (only : m.attributes = [a]) :
    ∃ code, t.code? m = some code ∧ code.code = bytes := by
  obtain ⟨maxStack, maxLocals, whole⟩ := h.whole only
  exact ⟨_, whole, rfl⟩

theorem finish_ok {a : Attribute} {b d : MethodBody} (sound : b.Sound)
    (h : finish b = (.ok a, d)) :
    b.pool.Leads d.pool ∧ ∀ t, d.pool.Within t → HoldsCode t a b.code.toList := by
  obtain ⟨body, c, isBody, rest⟩ := ExceptState.bind_eq_ok.mp h
  obtain ⟨same, rfl⟩ := Prod.mk.inj isBody
  obtain rfl := Except.ok.inj same
  split at rest
  · obtain ⟨name, e, isName, last⟩ := ExceptState.bind_eq_ok.mp rest
    obtain ⟨q, made, rfl⟩ := MethodBody.inPool_ok isName
    obtain ⟨leads, found⟩ := Pool.utf8_leads sound.pool made
    obtain ⟨result, rfl⟩ := Prod.mk.inj last
    obtain rfl := Except.ok.inj result
    exact ⟨leads, fun t within => ⟨within.utf8? found, sound.size, _, _, rfl⟩⟩
  · cases rest

/-- The blocks of a whole body. A body whose end is reached returns there. -/
def closed (m : TypedMethod) (blocks : List (List Instruction)) : List (List Instruction) :=
  if m.fallsThrough then blocks ++ [[.returnVoid]] else blocks

theorem method_ok {m : TypedMethod} {slots : SlotMap} {a : Attribute} {b d : MethodBody}
    (sound : b.Sound) (h : Emit.method m slots b = (.ok a, d)) :
    b.pool.Leads d.pool ∧ ∃ blocks, ∀ t, d.pool.Within t →
      CodesStmts t m slots b.nextLocal m.body blocks ∧
        HoldsCode t a (b.code.toList ++ (closed m blocks).flatten.flatMap Instruction.encode) := by
  obtain ⟨⟨⟩, c, first, rest⟩ := ExceptState.bind_eq_ok.mp h
  obtain ⟨blocks, grown, codes⟩ := Emit.statements_ok sound first
  unfold closed
  split at rest
  · rename_i falls
    obtain ⟨⟨⟩, e, second, last⟩ := ExceptState.bind_eq_ok.mp rest
    have returned := push_extends grown.sound second
    obtain ⟨leads, holds⟩ := finish_ok returned.sound last
    refine ⟨(grown.pool.trans returned.pool).trans leads, blocks, fun t within => ?_⟩
    have atReturn := leads.within within
    have code := holds t within
    rw [returned.code, grown.code, List.append_assoc, ← List.flatMap_append] at code
    rw [if_pos falls, List.flatten_append]
    exact ⟨codes t (returned.pool.within atReturn), by simpa using code⟩
  · rename_i ends
    obtain ⟨leads, holds⟩ := finish_ok grown.sound rest
    refine ⟨grown.pool.trans leads, blocks, fun t within => ?_⟩
    have code := holds t within
    rw [grown.code] at code
    rw [if_neg ends]
    exact ⟨codes t (leads.within within), code⟩

/-- The code of a constructor, with the call of the one of `java/lang/Object`. -/
def constructorCode (call : Instruction) : List Instruction :=
  [.load .reference 0, call, .returnVoid]

theorem constructor_ok {a : Attribute} {b d : MethodBody} (sound : b.Sound)
    (h : Emit.constructor b = (.ok a, d)) :
    b.pool.Leads d.pool ∧ ∃ call, ∀ t, d.pool.Within t →
      CodesCall t .special .object "<init>" noArguments call ∧
        HoldsCode t a (b.code.toList ++ (constructorCode call).flatMap Instruction.encode) := by
  obtain ⟨⟨⟩, c, first, rest⟩ := ExceptState.bind_eq_ok.mp h
  have loaded := push_extends sound first
  obtain ⟨⟨⟩, e, second, rest⟩ := ExceptState.bind_eq_ok.mp rest
  obtain ⟨call, called, calls⟩ := Emit.call_ok loaded.sound second
  obtain ⟨⟨⟩, f, third, last⟩ := ExceptState.bind_eq_ok.mp rest
  have returned := push_extends called.sound third
  have whole := (loaded.trans called).trans returned
  obtain ⟨leads, holds⟩ := finish_ok returned.sound last
  refine ⟨whole.pool.trans leads, call, fun t within => ?_⟩
  have code := holds t within
  rw [whole.code] at code
  exact ⟨calls t (returned.pool.within (leads.within within)), code⟩

/-- The variables at the start of a method. -/
def startSlots (m : TypedMethod) (parameters : List (Option UInt16)) : SlotMap :=
  (parameters ++ List.replicate (m.locals.length - parameters.length) none).toArray

/-- The member is the method, with the code of its statements. -/
structure Written (t : ConstantTable) (m : TypedMethod) (member : Member .method) : Prop where
  flags : member.flags = m.signature.flags
  name : t.utf8? member.name = some m.signature.name
  descriptor : t.utf8? member.descriptor = some m.signature.type.render
  body : ∃ a parameters blocks, member.attributes = [a] ∧
    Emit.parameterSlots 0 m.signature.type.parameters = some parameters ∧
    CodesStmts t m (startSlots m parameters) (m.signature.type.parameterSlots false) m.body
      blocks ∧
    HoldsCode t a ((closed m blocks).flatten.flatMap Instruction.encode)

theorem writeMethod_ok {m : TypedMethod} {member : Member .method} {p q : Pool} (valid : p.Valid)
    (h : writeMethod m p = .ok (member, q)) :
    p.Leads q ∧ ∀ t, q.Within t → Written t m member := by
  obtain ⟨name, r, isName, rest⟩ := StateExcept.bind_eq_ok.mp h
  obtain ⟨toName, named⟩ := Pool.utf8_leads valid (inPool_ok isName)
  obtain ⟨descriptor, s, isDescriptor, rest⟩ := StateExcept.bind_eq_ok.mp rest
  obtain ⟨toDescriptor, described⟩ := Pool.utf8_leads toName.valid (inPool_ok isDescriptor)
  cases placed : Emit.parameterSlots 0 m.signature.type.parameters with
  | none =>
    rw [placed] at rest
    cases rest
  | some parameters =>
    rw [placed] at rest
    obtain ⟨a, u, isCode, last⟩ := StateExcept.bind_eq_ok.mp rest
    obtain ⟨body, built, rfl⟩ := inBody_ok isCode
    obtain ⟨toCode, blocks, codes⟩ := method_ok (sound_start toDescriptor.valid _) built
    obtain ⟨rfl, rfl⟩ := Prod.mk.inj (Except.ok.inj last)
    refine ⟨toName.trans (toDescriptor.trans toCode), fun t within => ?_⟩
    have atDescriptor := toCode.within within
    have atName := toDescriptor.within atDescriptor
    obtain ⟨isBody, holds⟩ := codes t within
    exact ⟨rfl, atName.utf8? named, atDescriptor.utf8? described, a, parameters, blocks, rfl,
      placed, isBody, by simpa [start] using holds⟩

/-- The member is the constructor without parameters. -/
structure Creates (t : ConstantTable) (member : Member .method) : Prop where
  name : t.utf8? member.name = some "<init>"
  descriptor : t.utf8? member.descriptor = some noArguments.render
  body : ∃ a call, member.attributes = [a] ∧
    CodesCall t .special .object "<init>" noArguments call ∧
    HoldsCode t a ((constructorCode call).flatMap Instruction.encode)

theorem writeConstructor_ok {member : Member .method} {p q : Pool} (valid : p.Valid)
    (h : writeConstructor p = .ok (member, q)) :
    p.Leads q ∧ member.flags = ⟨Flag.isPublic⟩ ∧ ∀ t, q.Within t → Creates t member := by
  obtain ⟨name, r, isName, rest⟩ := StateExcept.bind_eq_ok.mp h
  obtain ⟨toName, named⟩ := Pool.utf8_leads valid (inPool_ok isName)
  obtain ⟨descriptor, s, isDescriptor, rest⟩ := StateExcept.bind_eq_ok.mp rest
  obtain ⟨toDescriptor, described⟩ := Pool.utf8_leads toName.valid (inPool_ok isDescriptor)
  obtain ⟨a, u, isCode, last⟩ := StateExcept.bind_eq_ok.mp rest
  obtain ⟨body, built, rfl⟩ := inBody_ok isCode
  obtain ⟨toCode, call, codes⟩ := constructor_ok (sound_start toDescriptor.valid _) built
  obtain ⟨rfl, rfl⟩ := Prod.mk.inj (Except.ok.inj last)
  refine ⟨toName.trans (toDescriptor.trans toCode), rfl, fun t within => ?_⟩
  have atDescriptor := toCode.within within
  have atName := toDescriptor.within atDescriptor
  obtain ⟨calls, holds⟩ := codes t within
  exact ⟨atName.utf8? named, atDescriptor.utf8? described, a, call, rfl, calls,
    by simpa [start] using holds⟩

theorem writeMethods_ok {ms : List TypedMethod} {written members : List (Member .method)}
    {p q : Pool} (valid : p.Valid) (h : writeMethods written ms p = .ok (members, q)) :
    p.Leads q ∧ ∃ new, members = written.reverse ++ new ∧ new.length = ms.length ∧
      ∀ (i : Nat) m, ms[i]? = some m → ∃ member, new[i]? = some member ∧
        ∀ t, q.Within t → Written t m member := by
  induction ms generalizing written p with
  | nil =>
    obtain ⟨rfl, rfl⟩ := Prod.mk.inj (Except.ok.inj h)
    exact ⟨valid.leads, [], (List.append_nil _).symm, rfl, by simp⟩
  | cons m ms ih =>
    obtain ⟨member, r, first, rest⟩ := StateExcept.bind_eq_ok.mp h
    obtain ⟨toMember, isWritten⟩ := writeMethod_ok valid first
    obtain ⟨toRest, new, rfl, length, others⟩ := ih toMember.valid rest
    refine ⟨toMember.trans toRest, member :: new, by simp, by simp [length], ?_⟩
    intro i other found
    cases i with
    | zero =>
      obtain rfl := Option.some.inj found
      exact ⟨member, rfl, fun t within => isWritten t (toRest.within within)⟩
    | succ i => exact others i other found

/-- The entry is the nested class, with the class around it, its simple name and its modifiers. -/
structure NamesInner (t : ConstantTable) (nested : ClassName × ClassName × Source.Modifiers)
    (entry : InnerClass) : Prop where
  inner : t.className? entry.inner = some nested.1.text
  outer : t.className? entry.outer = some nested.2.1.text
  name : t.utf8? entry.name = some nested.1.simpleName
  flags : entry.flags = innerFlags nested.2.2

theorem writeInner_ok {nested : ClassName × ClassName × Source.Modifiers} {entry : InnerClass}
    {p q : Pool} (valid : p.Valid)
    (h : writeInner nested.1 nested.2.1 nested.2.2 p = .ok (entry, q)) :
    p.Leads q ∧ ∀ t, q.Within t → NamesInner t nested entry := by
  obtain ⟨innerIndex, r, isInner, rest⟩ := StateExcept.bind_eq_ok.mp h
  obtain ⟨toInner, foundInner⟩ := Pool.classRef_leads valid (inPool_ok isInner)
  obtain ⟨outerIndex, s, isOuter, rest⟩ := StateExcept.bind_eq_ok.mp rest
  obtain ⟨toOuter, foundOuter⟩ := Pool.classRef_leads toInner.valid (inPool_ok isOuter)
  obtain ⟨name, u, isName, last⟩ := StateExcept.bind_eq_ok.mp rest
  obtain ⟨toName, named⟩ := Pool.utf8_leads toOuter.valid (inPool_ok isName)
  obtain ⟨rfl, rfl⟩ := Prod.mk.inj (Except.ok.inj last)
  refine ⟨toInner.trans (toOuter.trans toName), fun t within => ?_⟩
  have atOuter := toName.within within
  have atInner := toOuter.within atOuter
  exact ⟨atInner.className? foundInner, atOuter.className? foundOuter, within.utf8? named, rfl⟩

theorem writeInners_ok {nesting : List (ClassName × ClassName × Source.Modifiers)}
    {entries : List InnerClass} {p q : Pool} (valid : p.Valid)
    (h : (nesting.mapM fun entry => writeInner entry.1 entry.2.1 entry.2.2) p =
      .ok (entries, q)) :
    p.Leads q ∧ ∀ t, q.Within t → List.Forall₂ (NamesInner t) nesting entries := by
  induction nesting generalizing entries p with
  | nil =>
    rw [List.mapM_nil] at h
    obtain ⟨rfl, rfl⟩ := Prod.mk.inj (Except.ok.inj h)
    exact ⟨valid.leads, fun _ _ => .nil⟩
  | cons e nesting ih =>
    rw [List.mapM_cons] at h
    obtain ⟨entry, r, first, rest⟩ := StateExcept.bind_eq_ok.mp h
    obtain ⟨toFirst, found⟩ := writeInner_ok valid first
    obtain ⟨others, s, second, last⟩ := StateExcept.bind_eq_ok.mp rest
    obtain ⟨rfl, rfl⟩ := Prod.mk.inj (Except.ok.inj last)
    obtain ⟨toOthers, named⟩ := ih toFirst.valid second
    exact ⟨toFirst.trans toOthers, fun t within =>
      .cons (found t (toOthers.within within)) (named t within)⟩

/-- The attributes of a class name its source file, and its nested classes in order if there are
any. -/
structure NamesNested (t : ConstantTable) (c : TypedClass) (attributes : List Attribute) :
    Prop where
  written : ∃ source file entries rest, attributes = ⟨source, Bytes.ofUInt16 file⟩ :: rest ∧
    t.utf8? source = some "SourceFile" ∧ t.utf8? file = some c.sourceFile ∧
    List.Forall₂ (NamesInner t) c.nesting entries ∧
    (entries = [] ∧ rest = [] ∨
      ∃ name, t.utf8? name = some "InnerClasses" ∧ rest = [⟨name, encodeInnerClasses entries⟩])

theorem encodeInnerClasses_length (entries : List InnerClass) :
    (encodeInnerClasses entries).length = 2 + 8 * entries.length := by
  unfold encodeInnerClasses encodeList
  rw [List.length_append, Bytes.ofLength16_length]
  induction entries with
  | nil => rfl
  | cons entry entries ih =>
    rw [List.flatMap_cons, List.length_append, List.length_cons]
    have one : entry.encode.length = 8 := by simp [InnerClass.encode]
    omega

/-- There are few attributes, and none is long but for its entries. -/
theorem NamesNested.short {t : ConstantTable} {c : TypedClass} {attributes : List Attribute}
    (h : NamesNested t c attributes) :
    attributes.length ≤ 2 ∧ ∃ entries, List.Forall₂ (NamesInner t) c.nesting entries ∧
      ∀ a ∈ attributes, a.info.length ≤ 2 + 8 * entries.length := by
  obtain ⟨source, file, entries, rest, rfl, -, -, named, ⟨-, rfl⟩ | ⟨name, -, rfl⟩⟩ := h.written
  · exact ⟨by simp, entries, named, by simp⟩
  · refine ⟨by simp, entries, named, fun a here => ?_⟩
    rcases List.mem_pair.mp here with rfl | rfl
    · simp
    · exact Nat.le_of_eq (encodeInnerClasses_length entries)

theorem writeAttributes_ok {c : TypedClass} {attributes : List Attribute} {p q : Pool}
    (valid : p.Valid) (h : writeAttributes c p = .ok (attributes, q)) :
    p.Leads q ∧ ∀ t, q.Within t → NamesNested t c attributes := by
  obtain ⟨file, r, isFile, rest⟩ := StateExcept.bind_eq_ok.mp h
  obtain ⟨toFile, foundFile⟩ := Pool.utf8_leads valid (inPool_ok isFile)
  obtain ⟨source, s, isSource, rest⟩ := StateExcept.bind_eq_ok.mp rest
  obtain ⟨toSource, foundSource⟩ := Pool.utf8_leads toFile.valid (inPool_ok isSource)
  obtain ⟨entries, u, areEntries, rest⟩ := StateExcept.bind_eq_ok.mp rest
  obtain ⟨toEntries, named⟩ := writeInners_ok toSource.valid areEntries
  have start := toFile.trans (toSource.trans toEntries)
  split at rest
  · rename_i none
    obtain ⟨rfl, rfl⟩ := Prod.mk.inj (Except.ok.inj rest)
    refine ⟨start, fun t within => ⟨source, file, entries, [], rfl, ?_⟩⟩
    have atSource := toEntries.within within
    exact ⟨atSource.utf8? foundSource, (toSource.within atSource).utf8? foundFile,
      named t within, .inl ⟨List.isEmpty_iff.mp none, rfl⟩⟩
  · obtain ⟨name, v, isName, last⟩ := StateExcept.bind_eq_ok.mp rest
    obtain ⟨toName, foundName⟩ := Pool.utf8_leads toEntries.valid (inPool_ok isName)
    obtain ⟨rfl, rfl⟩ := Prod.mk.inj (Except.ok.inj last)
    refine ⟨start.trans toName, fun t within => ⟨source, file, entries, _, rfl, ?_⟩⟩
    have atEntries := toName.within within
    have atSource := toEntries.within atEntries
    exact ⟨atSource.utf8? foundSource, (toSource.within atSource).utf8? foundFile,
      named t atEntries, .inr ⟨name, within.utf8? foundName, rfl⟩⟩

/-- The class file is the class, method by method. -/
structure Emitted (c : TypedClass) (version : Version) (f : ClassFile) : Prop where
  built : ∃ cs, f.constants = ConstantTable.empty.append cs
  bounded : f.constants.next < 65536
  version : f.version = version
  flags : f.flags = classFlags c.modifiers
  thisClass : f.constants.className? f.thisClass = some c.name.text
  superClass : f.constants.className? f.superClass = some ClassName.object.text
  interfaces : f.interfaces = []
  fields : f.fields = []
  methods : ∃ create a bytes others, f.methods = create :: others ∧
    create.flags = ⟨Flag.isPublic⟩ ∧ create.attributes = [a] ∧ HoldsCode f.constants a bytes ∧
    others.length = c.methods.length ∧
    ∀ (i : Nat) m, c.methods[i]? = some m →
      ∃ member, others[i]? = some member ∧ Written f.constants m member
  constructor : ∃ create, f.methods.head? = some create ∧ Creates f.constants create
  attributes : NamesNested f.constants c f.attributes

/-- Whatever is emitted for a class is the class. -/
theorem emit_ok {c : TypedClass} {version : Version} {f : ClassFile}
    (h : emit c version = .ok f) : Emitted c version f := by
  obtain ⟨⟨file, pool⟩, written, isFile⟩ := except_map_eq_ok.mp h
  obtain rfl : file = f := isFile
  obtain ⟨thisClass, p, isThis, rest⟩ := StateExcept.bind_eq_ok.mp written
  obtain ⟨toThis, foundThis⟩ := Pool.classRef_leads Pool.valid_empty (inPool_ok isThis)
  obtain ⟨superClass, q, isSuper, rest⟩ := StateExcept.bind_eq_ok.mp rest
  obtain ⟨toSuper, foundSuper⟩ := Pool.classRef_leads toThis.valid (inPool_ok isSuper)
  obtain ⟨create, r, isCreate, rest⟩ := StateExcept.bind_eq_ok.mp rest
  obtain ⟨toCreate, flags, creates⟩ := writeConstructor_ok toSuper.valid isCreate
  obtain ⟨methods, s, areMethods, rest⟩ := StateExcept.bind_eq_ok.mp rest
  obtain ⟨toMethods, others, all, count, isWritten⟩ := writeMethods_ok toCreate.valid areMethods
  obtain rfl : methods = others := all
  obtain ⟨attributes, u, areAttributes, rest⟩ := StateExcept.bind_eq_ok.mp rest
  obtain ⟨toAttributes, nested⟩ := writeAttributes_ok toMethods.valid areAttributes
  obtain ⟨last, v, isLast, done⟩ := StateExcept.bind_eq_ok.mp rest
  obtain ⟨rfl, rfl⟩ := Prod.mk.inj (Except.ok.inj isLast)
  obtain ⟨rfl, rfl⟩ := Prod.mk.inj (Except.ok.inj done)
  have atEnd := toAttributes.valid.within
  have atMethods := toAttributes.within atEnd
  have atCreate := toMethods.within atMethods
  have atSuper := toCreate.within atCreate
  have isCreate := creates _ atCreate
  obtain ⟨a, call, only, -, code⟩ := isCreate.body
  have whole := toThis.trans <| toSuper.trans <| toCreate.trans <| toMethods.trans toAttributes
  constructor
  · obtain ⟨cs, grown⟩ := whole
    exact ⟨cs, grown.table⟩
  · exact toAttributes.valid.bounded
  · rfl
  · rfl
  · exact (toSuper.within atSuper).className? foundThis
  · exact atSuper.className? foundSuper
  · rfl
  · rfl
  · refine ⟨create, a, _, methods, rfl, flags, only, code, count, ?_⟩
    intro i m found
    obtain ⟨member, isMember, code⟩ := isWritten i m found
    exact ⟨member, isMember, code _ atMethods⟩
  · exact ⟨create, rfl, isCreate⟩
  · exact nested _ atEnd

end JavaSnippet.Compile
