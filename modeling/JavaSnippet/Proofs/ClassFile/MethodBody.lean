import JavaSnippet.ClassFile.MethodBody
import JavaSnippet.Proofs.ClassFile.Pool
/-!
What building a method body adds. A change that succeeds appends whole instructions to the code and
constants to the pool, and leaves everything before them alone.
-/
namespace JavaSnippet.ClassFile

open ExceptState

/-- What a pool holds now is in the table for good. -/
structure Pool.Within (p : Pool) (t : ConstantTable) : Prop where
  isPrefix : p.table.IsPrefix t
  ascending : t.Ascending

namespace Pool

variable {p q : Pool} {t : ConstantTable}

theorem Valid.within (h : p.Valid) : p.Within p.table := ⟨SlotTable.isPrefix_refl _, h.ascending⟩

theorem Leads.within (h : p.Leads q) (g : q.Within t) : p.Within t := by
  obtain ⟨added, grown⟩ := h
  exact ⟨grown.isPrefix.trans g.isPrefix, g.ascending⟩

theorem Leads.valid (h : p.Leads q) : q.Valid := by
  obtain ⟨added, grown⟩ := h
  exact grown.valid

theorem Valid.leads (h : p.Valid) : p.Leads p := ⟨[], h.grows⟩

theorem Within.constant? (h : p.Within t) {index : PoolIndex} {c : Constant}
    (found : p.table.constant? index = some c) : t.constant? index = some c :=
  ConstantTable.constant?_of_isPrefix h.isPrefix h.ascending found

theorem Within.utf8? (h : p.Within t) {index : PoolIndex} {text : String}
    (found : p.table.utf8? index = some text) : t.utf8? index = some text :=
  ConstantTable.utf8?_of_isPrefix h.isPrefix h.ascending found

theorem Within.className? (h : p.Within t) {index : PoolIndex} {text : String}
    (found : p.table.className? index = some text) : t.className? index = some text :=
  ConstantTable.className?_of_isPrefix h.isPrefix h.ascending found

end Pool

/-- The slot holds a reference to a method. -/
structure ConstantTable.NamesMethod (t : ConstantTable) (index : PoolIndex) (owner : ClassName)
    (name : String) (type : MethodType) (ofInterface : Bool) : Prop where
  reference : ∃ ownerIndex member,
    t.constant? index = some (.methodRef ownerIndex member ofInterface) ∧
    t.className? ownerIndex = some owner.text ∧
    ∃ nameIndex descriptor, t.constant? member = some (.nameAndType nameIndex descriptor) ∧
      t.utf8? nameIndex = some name ∧ t.utf8? descriptor = some type.render

namespace Pool

theorem string_ok {text : String} {p q : Pool} {slot : PoolIndex} (valid : p.Valid)
    (h : string text p = (.ok slot, q)) :
    p.Leads q ∧ ∀ t, q.Within t →
      ∃ content, t.constant? slot = some (.string content) ∧ t.utf8? content = some text := by
  obtain ⟨content, r, isText, last⟩ := bind_eq_ok.mp h
  obtain ⟨toText, named⟩ := utf8_leads valid isText
  obtain ⟨toString, found⟩ := intern_leads toText.valid last
  refine ⟨toText.trans toString, fun t within => ⟨content, within.constant? found, ?_⟩⟩
  exact (toString.within within).utf8? named

theorem methodRef_ok {owner : ClassName} {name : String} {type : MethodType} {ofInterface : Bool}
    {p q : Pool} {slot : PoolIndex} (valid : p.Valid)
    (h : methodRef owner name type ofInterface p = (.ok slot, q)) :
    p.Leads q ∧ ∀ t, q.Within t → t.NamesMethod slot owner name type ofInterface := by
  obtain ⟨ownerIndex, r, isOwner, h⟩ := bind_eq_ok.mp h
  obtain ⟨toOwner, owned⟩ := classRef_leads valid isOwner
  obtain ⟨nameIndex, s, isName, h⟩ := bind_eq_ok.mp h
  obtain ⟨toName, named⟩ := utf8_leads toOwner.valid isName
  obtain ⟨descriptor, u, isDescriptor, h⟩ := bind_eq_ok.mp h
  obtain ⟨toDescriptor, described⟩ := utf8_leads toName.valid isDescriptor
  obtain ⟨member, v, isMember, last⟩ := bind_eq_ok.mp h
  obtain ⟨toMember, joined⟩ := intern_leads toDescriptor.valid isMember
  obtain ⟨toMethod, found⟩ := intern_leads toMember.valid last
  refine ⟨toOwner.trans <| toName.trans <| toDescriptor.trans <| toMember.trans toMethod, ?_⟩
  intro t within
  have withMember := toMethod.within within
  have withDescriptor := toMember.within withMember
  have withName := toDescriptor.within withDescriptor
  have withOwner := toName.within withName
  exact ⟨ownerIndex, member, within.constant? found, withOwner.className? owned, nameIndex,
    descriptor, withMember.constant? joined, withName.utf8? named, withDescriptor.utf8? described⟩

end Pool

namespace MethodBody

variable {α β : Type}

/-- Instructions were appended to the code, and constants to the pool. -/
structure Appends (b : MethodBody) (is : List Instruction) (d : MethodBody) : Prop where
  pool : b.pool.Leads d.pool
  code : d.code.toList = b.code.toList ++ is.flatMap Instruction.encode
  size : d.code.size ≤ 65535

/-- No local slot was taken either. -/
structure Extends (b : MethodBody) (is : List Instruction) (d : MethodBody) : Prop
    extends b.Appends is d where
  nextLocal : d.nextLocal = b.nextLocal

/-- A body whose pool keeps its promises and whose code is not too long. -/
structure Sound (b : MethodBody) : Prop where
  pool : b.pool.Valid
  size : b.code.size ≤ 65535

theorem Sound.extends {b : MethodBody} (h : b.Sound) : b.Extends [] b :=
  ⟨⟨h.pool.leads, (List.append_nil _).symm, h.size⟩, rfl⟩

theorem Appends.sound {b d : MethodBody} {is : List Instruction} (h : b.Appends is d) : d.Sound :=
  ⟨h.pool.valid, h.size⟩

theorem Appends.trans {b c d : MethodBody} {is js : List Instruction} (h : b.Appends is c)
    (g : c.Appends js d) : b.Appends (is ++ js) d where
  pool := h.pool.trans g.pool
  code := by rw [g.code, h.code, List.flatMap_append, List.append_assoc]
  size := g.size

theorem Extends.trans {b c d : MethodBody} {is js : List Instruction} (h : b.Extends is c)
    (g : c.Extends js d) : b.Extends (is ++ js) d :=
  ⟨h.toAppends.trans g.toAppends, by rw [g.nextLocal, h.nextLocal]⟩

theorem inPool_of_ok {change : Pool.Change α} {b : MethodBody} {q : Pool} {a : α}
    (h : change b.pool = (.ok a, q)) : inPool change b = (.ok a, { b with pool := q }) := by
  unfold inPool
  rw [h]

theorem inPool_ok {change : Pool.Change α} {b d : MethodBody} {a : α}
    (h : inPool change b = (.ok a, d)) :
    ∃ q, change b.pool = (.ok a, q) ∧ d = { b with pool := q } := by
  unfold inPool at h
  cases made : change b.pool with
  | mk result q =>
    rw [made] at h
    cases result with
    | error overflow => cases h
    | ok b =>
      obtain ⟨same, rfl⟩ := Prod.mk.inj h
      obtain rfl := Except.ok.inj same
      exact ⟨q, rfl, rfl⟩

/-- Everything that a successful push can do. -/
theorem push_ok {i : Instruction} {b d : MethodBody} (h : push i b = (.ok (), d)) :
    b.reachable = true ∧ i.stackEffect.1 ≤ b.depth ∧ (b.extend i).code.size ≤ 65535 ∧
      d = if i.isTerminal then { b.extend i with reachable := false, depth := 0 }
        else b.extend i := by
  unfold push at h
  simp only at h
  split at h
  · cases h
  rename_i reached
  split at h
  · cases h
  rename_i bears
  split at h
  · cases h
  rename_i short
  refine ⟨by simpa using reached, by omega, by omega, ?_⟩
  split at h
  · rename_i terminal
    rw [if_pos terminal]
    exact (Prod.mk.inj h).2.symm
  · rename_i goesOn
    rw [if_neg goesOn]
    exact (Prod.mk.inj h).2.symm

theorem push_extends {i : Instruction} {b d : MethodBody} (sound : b.Sound)
    (h : push i b = (.ok (), d)) : b.Extends [i] d := by
  obtain ⟨-, -, short, rfl⟩ := push_ok h
  have appended : (b.extend i).code.toList = b.code.toList ++ [i].flatMap Instruction.encode := by
    simp [extend]
  split
  · exact ⟨⟨sound.pool.leads, appended, short⟩, rfl⟩
  · exact ⟨⟨sound.pool.leads, appended, short⟩, rfl⟩

theorem inPool_extends {change : Pool.Change α} {b d : MethodBody} {a : α} (sound : b.Sound)
    (h : inPool change b = (.ok a, d))
    (leads : ∀ q, change b.pool = (.ok a, q) → b.pool.Leads q) : b.Extends [] d := by
  obtain ⟨q, made, rfl⟩ := inPool_ok h
  exact ⟨⟨leads q made, (List.append_nil _).symm, sound.size⟩, rfl⟩

/-- An instruction that needs a constant. What holds of the constant in the pool that it was added
to holds in every table that the pool becomes part of. -/
theorem push_constant {change : Pool.Change PoolIndex} {f : PoolIndex → Instruction}
    {b d : MethodBody} {Holds : PoolIndex → ConstantTable → Prop} (sound : b.Sound)
    (added : ∀ index q, change b.pool = (.ok index, q) →
      b.pool.Leads q ∧ ∀ t, q.Within t → Holds index t)
    (h : (do push (f (← inPool change))) b = (.ok (), d)) :
    ∃ index, b.Extends [f index] d ∧ ∀ t, d.pool.Within t → Holds index t := by
  obtain ⟨index, c, isIndex, last⟩ := bind_eq_ok.mp h
  obtain ⟨q, made, rfl⟩ := inPool_ok isIndex
  have first := inPool_extends sound isIndex fun q made => (added index q made).1
  have second := push_extends first.sound last
  have holds := (added index q made).2
  exact ⟨index, first.trans second, fun t within => holds t (second.pool.within within)⟩

theorem push_interned {c : Constant} {f : PoolIndex → Instruction} {b d : MethodBody}
    (sound : b.Sound) (h : (do push (f (← inPool (Pool.intern c)))) b = (.ok (), d)) :
    ∃ index, b.Extends [f index] d ∧ ∀ t, d.pool.Within t → t.constant? index = some c := by
  refine push_constant sound (fun index q made => ?_) h
  obtain ⟨leads, found⟩ := Pool.intern_leads sound.pool made
  exact ⟨leads, fun t within => within.constant? found⟩

theorem pushInt_ok {value : Int32} {b d : MethodBody} (sound : b.Sound)
    (h : pushInt value b = (.ok (), d)) :
    ∃ i, b.Extends [i] d ∧
      (-32768 ≤ value ∧ value < 32768 ∧ i = .intConst value ∨
        ∃ index, i = .ldc index ∧ ∀ t, d.pool.Within t →
          t.constant? index = some (.integer value)) := by
  unfold pushInt at h
  split at h
  · rename_i small
    exact ⟨_, push_extends sound h, .inl ⟨small.1, small.2, rfl⟩⟩
  · obtain ⟨index, grown, found⟩ := push_interned sound h
    exact ⟨_, grown, .inr ⟨index, rfl, found⟩⟩

theorem pushLong_ok {value : Int64} {b d : MethodBody} (sound : b.Sound)
    (h : pushLong value b = (.ok (), d)) :
    ∃ i, b.Extends [i] d ∧
      ((value = 0 ∨ value = 1) ∧ i = .longConst value ∨
        ∃ index, i = .ldc2 index ∧ ∀ t, d.pool.Within t →
          t.constant? index = some (.long value)) := by
  unfold pushLong at h
  split at h
  · rename_i small
    exact ⟨_, push_extends sound h, .inl ⟨small, rfl⟩⟩
  · obtain ⟨index, grown, found⟩ := push_interned sound h
    exact ⟨_, grown, .inr ⟨index, rfl, found⟩⟩

theorem pushString_ok {text : String} {b d : MethodBody} (sound : b.Sound)
    (h : pushString text b = (.ok (), d)) :
    ∃ index, b.Extends [.ldc index] d ∧ ∀ t, d.pool.Within t →
      ∃ content, t.constant? index = some (.string content) ∧ t.utf8? content = some text :=
  push_constant sound (fun _ _ made => Pool.string_ok sound.pool made) h

theorem newObject_ok {name : ClassName} {b d : MethodBody} (sound : b.Sound)
    (h : newObject name b = (.ok (), d)) :
    ∃ index, b.Extends [.newObject index] d ∧ ∀ t, d.pool.Within t →
      t.className? index = some name.text := by
  refine push_constant sound (fun index q made => ?_) h
  obtain ⟨leads, found⟩ := Pool.classRef_leads sound.pool made
  exact ⟨leads, fun t within => within.className? found⟩

theorem invoke_ok {kind : InvokeKind} {owner : ClassName} {name : String} {type : MethodType}
    {b d : MethodBody} (sound : b.Sound) (h : invoke kind owner name type b = (.ok (), d)) :
    ∃ index, b.Extends [.invoke kind index type] d ∧ ∀ t, d.pool.Within t →
      t.NamesMethod index owner name type (kind == .interface) :=
  push_constant sound (fun _ _ made => Pool.methodRef_ok sound.pool made) h

theorem kindOr_ok {cause : BadDescriptor} {t : FieldType} {kind : ValueKind} {b d : MethodBody}
    (h : kindOr cause t b = (.ok kind, d)) : valueKind? t = some kind ∧ d = b := by
  unfold kindOr at h
  cases isKind : valueKind? t with
  | none =>
    rw [isKind] at h
    cases h
  | some found =>
    rw [isKind] at h
    obtain ⟨same, rfl⟩ := Prod.mk.inj h
    obtain rfl := Except.ok.inj same
    exact ⟨rfl, rfl⟩

theorem load_ok {t : FieldType} {slot : UInt16} {b d : MethodBody} (sound : b.Sound)
    (h : load t slot b = (.ok (), d)) :
    ∃ kind, valueKind? t = some kind ∧ b.Extends [.load kind slot] d := by
  obtain ⟨kind, c, isKind, last⟩ := bind_eq_ok.mp h
  obtain ⟨found, rfl⟩ := kindOr_ok isKind
  exact ⟨kind, found, push_extends sound last⟩

theorem store_ok {t : FieldType} {slot : UInt16} {b d : MethodBody} (sound : b.Sound)
    (h : store t slot b = (.ok (), d)) :
    ∃ kind, valueKind? t = some kind ∧ b.Extends [.store kind slot] d := by
  obtain ⟨kind, c, isKind, last⟩ := bind_eq_ok.mp h
  obtain ⟨found, rfl⟩ := kindOr_ok isKind
  exact ⟨kind, found, push_extends sound last⟩

theorem freshLocal_ok {t : FieldType} {slot : UInt16} {b d : MethodBody} (sound : b.Sound)
    (h : freshLocal t b = (.ok slot, d)) :
    b.nextLocal < 65536 ∧ slot = b.nextLocal.toUInt16 ∧ d.nextLocal = b.nextLocal + width t ∧
      b.Appends [] d := by
  unfold freshLocal at h
  split at h
  · rename_i room
    obtain ⟨same, rfl⟩ := Prod.mk.inj h
    obtain rfl := Except.ok.inj same
    exact ⟨room, rfl, rfl, sound.extends.toAppends.pool, (List.append_nil _).symm, sound.size⟩
  · cases h

/-- A body is finished as long as its pool has room for one more constant. -/
theorem finish_total {b : MethodBody} (valid : b.pool.Valid)
    (room : b.pool.table.next + 1 < 65536) (stack : b.maxDepth < 65536)
    (locals : b.maxLocals < 65536) :
    ∃ a d, finish b = (.ok a, d) ∧ d.pool.Valid ∧
      d.pool.table.next ≤ b.pool.table.next + 1 := by
  obtain ⟨name, q, made, validNext, grown⟩ := Pool.takes_utf8 "Code" b.pool valid room
  have named : inPool (Pool.utf8 "Code") b = (.ok name, { b with pool := q }) :=
    inPool_of_ok made
  have finished : finish b = (.ok ⟨name, (Code.mk b.maxDepth.toUInt16 b.maxLocals.toUInt16
      b.code.toList [] []).encode⟩, { b with pool := q }) := by
    refine bind_eq_ok.mpr ⟨b, b, rfl, ?_⟩
    simp only [stack, locals, and_self, if_true]
    exact bind_eq_ok.mpr ⟨name, _, named, rfl⟩
  exact ⟨_, _, finished, validNext, grown⟩

end MethodBody

end JavaSnippet.ClassFile
