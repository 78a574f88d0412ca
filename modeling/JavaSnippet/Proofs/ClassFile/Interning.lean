import JavaSnippet.Proofs.ClassFile.Requests
/-!
A pool that started empty holds no constant twice. No request changes or moves an entry, not even
one that fails half-way, so what was asked for once is found at the same slot ever after, however
full the pool has become.
-/
namespace JavaSnippet.ClassFile

open ExceptState

/-- Every constant but a class, whose record is kept by the name it reaches. -/
def Constant.IsPlain (c : Constant) : Prop := ∀ text, c ≠ .classRef text

namespace ConstantTable

variable {t : ConstantTable}

theorem constant?_eq_some (ascending : t.Ascending) {index : PoolIndex} {c : Constant} :
    t.constant? index = some c ↔ (index.toNat, c) ∈ t.toList :=
  SlotTable.get?_eq_some ascending

/-- Slot zero, the second slot of a constant of eight bytes and the slots that are still free hold
no constant, and every other slot does. -/
theorem constant?_eq_none (cs : List Constant) (index : PoolIndex) :
    let t : ConstantTable := SlotTable.append ConstantTable.empty cs
    t.constant? index = none ↔ index = 0 ∨ t.next ≤ index.toNat ∨
      ∃ slot c, (slot, c) ∈ t.toList ∧ width c = 2 ∧ index.toNat = slot + 1 := by
  intro t
  have laid : t.toList = SlotTable.laidOut 1 cs := SlotTable.toList_filled 1 cs
  have free : t.constant? index = none ↔ _ :=
    SlotTable.get?_filled_eq_none fun c _ => c.width_pos
  have zero : index.toNat < 1 ↔ index = 0 := by
    rw [← UInt16.toNat_inj]
    exact Nat.lt_one_iff
  rw [free, zero, laid]
  refine or_congr_right (or_congr_right ⟨?_, ?_⟩)
  · rintro ⟨⟨slot, c⟩, here, low, high⟩
    rcases c.width_eq with one | two
    · simp only [one] at low high
      omega
    · simp only [two] at low high
      exact ⟨slot, c, here, two, by omega⟩
  · rintro ⟨slot, c, here, two, behind⟩
    exact ⟨(slot, c), here, by simp only; omega, by simp only [two]; omega⟩

/-- Only the last slot of a longer table is new. -/
theorem constant?_push (ascending : t.Ascending) {c d : Constant} {index : PoolIndex}
    (h : (ConstantTable.constant? (t.push c) index) = some d) :
    t.constant? index = some d ∨ index.toNat = t.next ∧ d = c := by
  rw [constant?_eq_some (ascending.push c.width_pos), SlotTable.toList_push, List.mem_append,
    List.mem_singleton] at h
  rcases h with old | last
  · exact .inl ((constant?_eq_some ascending).mpr old)
  · exact .inr (Prod.mk.inj last)

end ConstantTable

namespace Pool

/-- Something that can be asked of a pool, by its content or by slots that were given before. -/
inductive Query where
  | request (r : Request)
  | nameAndType (name descriptor : PoolIndex)

def Query.change : Query → Change PoolIndex
  | request r => r.change
  | nameAndType name descriptor => Pool.nameAndType name descriptor

/-- The pool after queries, each of which may have failed. -/
def after (p : Pool) (queries : List Query) : Pool :=
  queries.foldl (fun p query => (query.change p).2) p

/-- The slot holds the constant that the request is for. -/
def Request.Answered (t : ConstantTable) (slot : PoolIndex) : Request → Prop
  | utf8 text => t.utf8? slot = some text
  | classRef name => t.className? slot = some name
  | string text => ∃ content, t.constant? slot = some (.string content) ∧
      t.utf8? content = some text
  | integer value => t.constant? slot = some (.integer value)
  | long value => t.constant? slot = some (.long value)
  | methodRef owner name type ofInterface => t.NamesMethod slot owner name type ofInterface

def Query.Answered (t : ConstantTable) (slot : PoolIndex) : Query → Prop
  | request r => r.Answered t slot
  | nameAndType name descriptor => t.constant? slot = some (.nameAndType name descriptor)

/-- A constant is added behind all others, or there is no room for it. -/
theorem add_cases (c : Constant) (p : Pool) :
    add c p = (.ok p.slotCount, { p with table := p.table.push c }) ∨
      ∃ overflow, add c p = (.error overflow, p) := by
  simp only [add]
  by_cases room : p.slotCount.toNat + width c < 65536
  · rw [if_pos room]
    exact .inl rfl
  · rw [if_neg room]
    exact .inr ⟨_, rfl⟩

theorem intern_known {c : Constant} {p : Pool} {slot : PoolIndex}
    (known : p.recorded[c]? = some slot) : intern c p = (.ok slot, p) := by
  refine bind_eq_ok.mpr ⟨p, p, rfl, ?_⟩
  simp only [known]
  rfl

/-- A constant without a record is added and recorded, if there is room for it. -/
theorem intern_new {c : Constant} {p : Pool} (new : p.recorded[c]? = none) :
    intern c p = (.ok p.slotCount, { p with
        table := p.table.push c, recorded := p.recorded.insert c p.slotCount }) ∨
      ∃ overflow, intern c p = (.error overflow, p) := by
  have seen : (get : Change Pool) p = (.ok p, p) := rfl
  rw [intern, bind_apply, seen]
  simp only [new]
  rw [bind_apply]
  rcases add_cases c p with added | ⟨overflow, full⟩
  · rw [added]
    exact .inl rfl
  · rw [full]
    exact .inr ⟨overflow, rfl⟩

theorem classRef_known {name : String} {p : Pool} {slot : PoolIndex}
    (known : p.classes[name]? = some slot) : classRef name p = (.ok slot, p) := by
  refine bind_eq_ok.mpr ⟨p, p, rfl, ?_⟩
  simp only [known]
  rfl

/-- A class without a record is added behind its name and recorded, if there is room for both. The
name may be added for nothing. -/
theorem classRef_new {name : String} {p : Pool} (new : p.classes[name]? = none) :
    (∃ overflow, classRef name p = (.error overflow, (utf8 name p).2)) ∨
      ∃ text q, utf8 name p = (.ok text, q) ∧
        classRef name p = (.ok q.slotCount, { q with
          table := q.table.push (.classRef text)
          classes := q.classes.insert name q.slotCount }) := by
  have seen : (get : Change Pool) p = (.ok p, p) := rfl
  rw [classRef, bind_apply, seen]
  simp only [new]
  rw [bind_apply]
  cases made : utf8 name p with
  | mk result q =>
    cases result with
    | error overflow => exact .inl ⟨overflow, rfl⟩
    | ok text =>
      simp only [bind_apply]
      rcases add_cases (.classRef text) q with added | ⟨overflow, full⟩
      · rw [added]
        exact .inr ⟨text, q, rfl, rfl⟩
      · rw [full]
        exact .inl ⟨overflow, rfl⟩

/-- The records are the entries of the table: each constant is found where it is, and each class
has a name. -/
structure Interned (p : Pool) : Prop extends p.Valid where
  plain : ∀ {index c}, p.table.constant? index = some c → c.IsPlain →
    p.recorded[c]? = some index
  classNamed : ∀ {index text}, p.table.constant? index = some (.classRef text) →
    ∃ name, p.table.utf8? text = some name ∧ p.classes[name]? = some index

theorem interned_empty : Interned .empty where
  toValid := valid_empty
  plain := by
    intro index c found
    cases SlotTable.mem_of_get? found
  classNamed := by
    intro index text found
    cases SlotTable.mem_of_get? found

namespace Interned

variable {p : Pool}

theorem class_known (h : p.Interned) {index : PoolIndex} {name : String}
    (isClass : p.table.className? index = some name) : p.classes[name]? = some index := by
  obtain ⟨text, found, named⟩ := ConstantTable.className?_eq_some.mp isClass
  obtain ⟨other, same, known⟩ := h.classNamed found
  obtain rfl := Option.some.inj (same.symm.trans named)
  exact known

/-- A constant is in one slot only. -/
theorem slot_unique (h : p.Interned) {i j : PoolIndex} {c : Constant}
    (first : p.table.constant? i = some c) (second : p.table.constant? j = some c) : i = j := by
  by_cases isClass : ∃ text, c = .classRef text
  · obtain ⟨text, rfl⟩ := isClass
    obtain ⟨name, named, known⟩ := h.classNamed first
    obtain ⟨other, same, found⟩ := h.classNamed second
    obtain rfl := Option.some.inj (same.symm.trans named)
    exact Option.some.inj (known.symm.trans found)
  · have isPlain : c.IsPlain := fun text same => isClass ⟨text, same⟩
    exact Option.some.inj ((h.plain first isPlain).symm.trans (h.plain second isPlain))

theorem nodup_elements (h : p.Interned) : p.table.elements.Nodup := by
  rw [SlotTable.elements, List.Nodup, List.pairwise_map]
  refine h.ascending.ordered.imp_of_mem fun {a b} isA isB before same => ?_
  have slotA := slot_of_mem h.ascending h.bounded isA
  have slotB := slot_of_mem h.ascending h.bounded isB
  rw [← same] at slotB
  have equal := h.slot_unique slotA.2 slotB.2
  rw [← slotA.1, ← slotB.1, equal] at before
  exact Nat.lt_irrefl _ before

/-- A constant that has no record yet is added and recorded. -/
theorem push_plain (h : p.Interned) {c : Constant} (isPlain : c.IsPlain) {q : Pool}
    (added : q = { p with
      table := p.table.push c, recorded := p.recorded.insert c p.slotCount })
    (new : p.recorded[c]? = none) (valid : q.Valid) : q.Interned := by
  subst added
  refine ⟨valid, ?_, ?_⟩
  · intro index d found plainD
    simp only [Std.HashMap.getElem?_insert]
    rcases ConstantTable.constant?_push h.ascending found with old | ⟨last, rfl⟩
    · have known := h.plain old plainD
      rw [if_neg]
      · exact known
      · intro same
        rw [← eq_of_beq same, new] at known
        cases known
    · rw [if_pos (BEq.refl _)]
      exact congrArg some (UInt16.toNat_inj.mp (h.next_toNat.trans last.symm))
  · intro index text found
    rcases ConstantTable.constant?_push h.ascending found with old | ⟨-, isClass⟩
    · obtain ⟨name, named, known⟩ := h.classNamed old
      exact ⟨name, ConstantTable.utf8?_of_isPrefix (SlotTable.isPrefix_push _ _)
        valid.ascending named, known⟩
    · exact absurd isClass.symm (isPlain text)

/-- A class that has no record yet is added and recorded by its name. -/
theorem push_class (h : p.Interned) {text : PoolIndex} {name : String} {q : Pool}
    (added : q = { p with
      table := p.table.push (.classRef text), classes := p.classes.insert name p.slotCount })
    (named : p.table.utf8? text = some name) (new : p.classes[name]? = none) (valid : q.Valid) :
    q.Interned := by
  subst added
  have longer : p.table.IsPrefix (p.table.push (.classRef text)) := SlotTable.isPrefix_push _ _
  refine ⟨valid, ?_, ?_⟩
  · intro index d found plainD
    rcases ConstantTable.constant?_push h.ascending found with old | ⟨-, isClass⟩
    · exact h.plain old plainD
    · exact absurd isClass (plainD text)
  · intro index other found
    simp only [Std.HashMap.getElem?_insert]
    rcases ConstantTable.constant?_push h.ascending found with old | ⟨last, isClass⟩
    · obtain ⟨oldName, oldNamed, known⟩ := h.classNamed old
      refine ⟨oldName, ConstantTable.utf8?_of_isPrefix longer valid.ascending oldNamed, ?_⟩
      rw [if_neg]
      · exact known
      · intro same
        rw [← eq_of_beq same, new] at known
        cases known
    · obtain rfl := Constant.classRef.inj isClass
      refine ⟨name, ConstantTable.utf8?_of_isPrefix longer valid.ascending named, ?_⟩
      rw [if_pos (BEq.refl _)]
      exact congrArg some (UInt16.toNat_inj.mp (h.next_toNat.trans last.symm))

end Interned

/-- What holds between a pool and what a change makes of it, even one that fails. -/
structure Follows (p q : Pool) : Prop where
  leads : p.Valid → p.Leads q
  interned : p.Interned → q.Interned

theorem follows_refl (p : Pool) : p.Follows p := ⟨Valid.leads, id⟩

theorem Follows.trans {p q r : Pool} (h : p.Follows q) (g : q.Follows r) : p.Follows r :=
  ⟨fun valid => (h.leads valid).trans (g.leads (h.leads valid).valid),
    fun start => g.interned (h.interned start)⟩

/-- A change that never does more than add constants of its own. -/
def Steady {α : Type} (change : Change α) : Prop := Moves Follows change

theorem Steady.bind {α β : Type} {change : Change α} {f : α → Change β} (first : Steady change)
    (next : ∀ a, Steady (f a)) : Steady (change >>= f) := Moves.bind first Follows.trans next

theorem steady_intern {c : Constant} (isPlain : c.IsPlain) : Steady (intern c) := by
  intro p
  cases known : p.recorded[c]? with
  | some slot =>
    rw [intern_known known]
    exact follows_refl p
  | none =>
    rcases intern_new known with added | ⟨overflow, full⟩
    · have leads := fun valid : p.Valid => (intern_leads valid added).1
      rw [added]
      exact ⟨leads, fun start => start.push_plain isPlain rfl known (leads start.toValid).valid⟩
    · rw [full]
      exact follows_refl p

theorem steady_utf8 (text : String) : Steady (utf8 text) :=
  steady_intern fun _ same => by cases same

/-- Recording a text makes no record of a class. -/
theorem classes_utf8 (text : String) (p : Pool) : (utf8 text p).2.classes = p.classes := by
  rw [utf8]
  cases known : p.recorded[Constant.utf8 text]? with
  | some slot => rw [intern_known known]
  | none =>
    rcases intern_new known with added | ⟨overflow, full⟩
    · rw [added]
    · rw [full]

theorem steady_classRef (name : String) : Steady (classRef name) := by
  intro p
  cases known : p.classes[name]? with
  | some slot =>
    rw [classRef_known known]
    exact follows_refl p
  | none =>
    have first := steady_utf8 name p
    rcases classRef_new known with ⟨overflow, full⟩ | ⟨text, q, isText, added⟩
    · rw [full]
      exact first
    · have leads := fun valid : p.Valid => (classRef_leads valid added).1
      rw [added]
      refine ⟨leads, fun start => ?_⟩
      have still := classes_utf8 name p
      rw [isText] at first still
      have named := (utf8_leads start.toValid isText).2
      exact (first.interned start).push_class rfl named (by rw [still, known])
        (leads start.toValid).valid

theorem steady_query (query : Query) : Steady query.change := by
  cases query with
  | nameAndType name descriptor => exact steady_intern fun _ same => by cases same
  | request r =>
    cases r with
    | utf8 text => exact steady_utf8 text
    | classRef name => exact steady_classRef name
    | string text =>
      exact (steady_utf8 text).bind fun content => steady_intern fun _ same => by cases same
    | integer value => exact steady_intern fun _ same => by cases same
    | long value => exact steady_intern fun _ same => by cases same
    | methodRef owner name type ofInterface =>
      refine (steady_classRef owner.text).bind fun ownerIndex => ?_
      refine (steady_utf8 name).bind fun nameIndex => ?_
      refine (steady_utf8 type.render).bind fun descriptor => ?_
      refine Steady.bind (steady_intern fun _ same => by cases same) fun member => ?_
      exact steady_intern fun _ same => by cases same

theorem follows_after (p : Pool) (queries : List Query) : p.Follows (p.after queries) := by
  induction queries generalizing p with
  | nil => exact follows_refl p
  | cons query queries ih => exact (steady_query query p).trans (ih _)

theorem interned_after (queries : List Query) : (Pool.empty.after queries).Interned :=
  (follows_after .empty queries).interned interned_empty

section Answers

variable {p q : Pool} {t : ConstantTable} {slot : PoolIndex} {query : Query}

theorem Query.Answered.within (h : p.Within t) (answered : query.Answered p.table slot) :
    query.Answered t slot := by
  cases query with
  | nameAndType name descriptor => exact h.constant? answered
  | request r =>
    cases r with
    | utf8 text => exact h.utf8? answered
    | classRef name => exact h.className? answered
    | integer value => exact h.constant? answered
    | long value => exact h.constant? answered
    | string text =>
      obtain ⟨content, found, named⟩ := answered
      exact ⟨content, h.constant? found, h.utf8? named⟩
    | methodRef owner name type ofInterface =>
      obtain ⟨ownerIndex, member, found, owned, nameIndex, descriptor, joined, named, described⟩ :=
        answered.reference
      exact ⟨ownerIndex, member, h.constant? found, h.className? owned, nameIndex, descriptor,
        h.constant? joined, h.utf8? named, h.utf8? described⟩

/-- The slot that is given holds the constant that was asked for. -/
theorem answered_of_change (valid : p.Valid) (h : query.change p = (.ok slot, q)) :
    query.Answered q.table slot := by
  cases query with
  | nameAndType name descriptor => exact (intern_leads valid h).2
  | request r =>
    cases r with
    | utf8 text => exact (utf8_leads valid h).2
    | classRef name => exact (classRef_leads valid h).2
    | integer value => exact (intern_leads valid h).2
    | long value => exact (intern_leads valid h).2
    | string text =>
      obtain ⟨leads, found⟩ := string_ok valid h
      exact found q.table leads.valid.within
    | methodRef owner name type ofInterface =>
      obtain ⟨leads, found⟩ := methodRef_ok valid h
      exact found q.table leads.valid.within

theorem Interned.utf8_again (h : p.Interned) {text : String}
    (here : p.table.utf8? slot = some text) : utf8 text p = (.ok slot, p) :=
  intern_known <| h.plain (ConstantTable.utf8?_eq_some.mp here) fun _ same => by cases same

theorem Interned.classRef_again (h : p.Interned) {name : String}
    (here : p.table.className? slot = some name) : classRef name p = (.ok slot, p) :=
  classRef_known (h.class_known here)

theorem Interned.intern_again (h : p.Interned) {c : Constant} (isPlain : c.IsPlain)
    (here : p.table.constant? slot = some c) : intern c p = (.ok slot, p) :=
  intern_known (h.plain here isPlain)

/-- What is in the pool is found there, and nothing is added. -/
theorem Interned.change_again (h : p.Interned) (answered : query.Answered p.table slot) :
    query.change p = (.ok slot, p) := by
  cases query with
  | nameAndType name descriptor => exact h.intern_again (fun _ same => by cases same) answered
  | request r =>
    cases r with
    | utf8 text => exact h.utf8_again answered
    | classRef name => exact h.classRef_again answered
    | integer value => exact h.intern_again (fun _ same => by cases same) answered
    | long value => exact h.intern_again (fun _ same => by cases same) answered
    | string text =>
      obtain ⟨content, found, named⟩ := answered
      exact bind_eq_ok.mpr ⟨content, p, h.utf8_again named,
        h.intern_again (fun _ same => by cases same) found⟩
    | methodRef owner name type ofInterface =>
      obtain ⟨ownerIndex, member, found, owned, nameIndex, descriptor, joined, named, described⟩ :=
        answered.reference
      refine bind_eq_ok.mpr ⟨ownerIndex, p, h.classRef_again owned, ?_⟩
      refine bind_eq_ok.mpr ⟨nameIndex, p, h.utf8_again named, ?_⟩
      refine bind_eq_ok.mpr ⟨descriptor, p, h.utf8_again described, ?_⟩
      refine bind_eq_ok.mpr ⟨member, p, ?_, ?_⟩
      · exact h.intern_again (fun _ same => by cases same) joined
      · exact h.intern_again (fun _ same => by cases same) found

end Answers

/-- The slots are those of the widths of all constants, behind slot zero, and sixteen bits count
them. -/
structure Counted (p : Pool) : Prop where
  slots : p.table.next = 1 + (p.table.elements.map width).sum
  bounded : p.table.next ≤ 65535
  slotCount : p.slotCount.toNat = p.table.next
  indices : ∀ entry ∈ p.table.toList, entry.1.toUInt16.toNat = entry.1

theorem counted_after (queries : List Query) : (Pool.empty.after queries).Counted := by
  obtain ⟨added, grown⟩ := (follows_after .empty queries).leads valid_empty
  have valid := grown.valid
  refine ⟨?_, Nat.le_of_lt_succ valid.bounded, valid.next_toNat, fun entry here =>
    (slot_of_mem valid.ascending valid.bounded here).1⟩
  rw [grown.table, SlotTable.next_append, SlotTable.elements_append]
  rfl

/-- Whatever was asked of an empty pool before, it holds no constant twice and counts its slots. A
slot that it gives holds the constant that was asked for, and whatever is asked later, the same
query gives the same slot again and leaves the pool as it is. No entry is changed or moved. -/
theorem after_interns (queries later : List Query) :
    let p := Pool.empty.after queries
    p.table.elements.Nodup ∧ p.Counted ∧
      (∀ query slot q, Query.change query p = (.ok slot, q) →
        query.Answered q.table slot ∧
          query.change (q.after later) = (.ok slot, q.after later)) ∧
      p.table.toList <+: (p.after later).table.toList ∧
      ∀ index c, p.table.constant? index = some c →
        (p.after later).table.constant? index = some c := by
  intro p
  have interned : p.Interned := interned_after queries
  have onward := (follows_after p later).leads interned.toValid
  have within := onward.within onward.valid.within
  refine ⟨interned.nodup_elements, counted_after queries, ?_, within.isPrefix, fun index c found =>
    within.constant? found⟩
  intro query slot q made
  have answered := answered_of_change interned.toValid made
  have step := steady_query query p
  rw [made] at step
  have afterwards := follows_after q later
  have still := (afterwards.leads (step.leads interned.toValid).valid)
  exact ⟨answered, (afterwards.interned (step.interned interned)).change_again
    (answered.within (still.within still.valid.within))⟩

theorem after_interns_class :
    ∃ slot q, (Query.request (.classRef "A")).change .empty = (.ok slot, q) ∧
      q.table.className? slot = some "A" ∧
      (Query.request (.classRef "A")).change (q.after [.request (.long 5), .request (.utf8 "B")]) =
        (.ok slot, q.after [.request (.long 5), .request (.utf8 "B")]) := by
  obtain ⟨slot, q, made, -, -⟩ := takes_classRef "A" .empty valid_empty (by decide)
  obtain ⟨-, -, again, -⟩ := after_interns [] [.request (.long 5), .request (.utf8 "B")]
  obtain ⟨answered, same⟩ := again (.request (.classRef "A")) slot q made
  exact ⟨slot, q, made, answered, same⟩

end Pool

end JavaSnippet.ClassFile
