import JavaSnippet.ClassFile.Pool
import JavaSnippet.Proofs.ClassFile.Reading
import JavaSnippet.Proofs.Fallible
/-!
What a pool promises. Recorded slots hold what they were recorded for, and a change only adds
constants at the end, so every answer that was given stays right.
-/
namespace JavaSnippet.ClassFile

open ExceptState

namespace ConstantTable

variable {t u : ConstantTable}

theorem constant?_of_isPrefix (h : t.IsPrefix u) (ascending : u.Ascending) {index : PoolIndex}
    {c : Constant} (found : t.constant? index = some c) : u.constant? index = some c :=
  SlotTable.get?_of_isPrefix h ascending found

theorem utf8?_eq_some {index : PoolIndex} {text : String} :
    t.utf8? index = some text ↔ t.constant? index = some (.utf8 text) := by
  unfold utf8?
  split
  · rename_i other found
    rw [found]
    simp
  · rename_i none
    simp only [reduceCtorEq, false_iff]
    exact none text

theorem className?_eq_some {index : PoolIndex} {text : String} :
    t.className? index = some text ↔
      ∃ name, t.constant? index = some (.classRef name) ∧ t.utf8? name = some text := by
  unfold className?
  split
  · rename_i name found
    rw [found]
    simp
  · rename_i none
    simp only [reduceCtorEq, false_iff]
    rintro ⟨name, found, -⟩
    exact none name found

theorem ascending_filled (cs : List Constant) :
    SlotTable.Ascending (ConstantTable.empty.append cs) :=
  (SlotTable.ascending_startingAt 1).append fun c _ => c.width_pos

theorem className?_of_mem (ascending : t.Ascending) {index : PoolIndex} (name : PoolIndex)
    {text : String} (isClass : (index.toNat, .classRef name) ∈ t.toList)
    (isText : (name.toNat, .utf8 text) ∈ t.toList) : t.className? index = some text :=
  className?_eq_some.mpr ⟨name, SlotTable.get?_of_mem ascending isClass,
    utf8?_eq_some.mpr (SlotTable.get?_of_mem ascending isText)⟩

theorem utf8?_of_isPrefix (h : t.IsPrefix u) (ascending : u.Ascending) {index : PoolIndex}
    {text : String} (found : t.utf8? index = some text) : u.utf8? index = some text :=
  utf8?_eq_some.mpr (constant?_of_isPrefix h ascending (utf8?_eq_some.mp found))

theorem className?_of_isPrefix (h : t.IsPrefix u) (ascending : u.Ascending) {index : PoolIndex}
    {text : String} (found : t.className? index = some text) :
    u.className? index = some text := by
  obtain ⟨name, isClass, named⟩ := className?_eq_some.mp found
  exact className?_eq_some.mpr
    ⟨name, constant?_of_isPrefix h ascending isClass, utf8?_of_isPrefix h ascending named⟩

end ConstantTable

namespace Pool

/-- What was recorded is in the table, which can still be counted with sixteen bits. -/
structure Valid (p : Pool) : Prop where
  ascending : p.table.Ascending
  bounded : p.table.next < 65536
  recorded : ∀ c index, p.recorded[c]? = some index → p.table.constant? index = some c
  classes : ∀ name index, p.classes[name]? = some index → p.table.className? index = some name

/-- The second pool is valid, and its table is that of the first with more constants. -/
structure Grows (p : Pool) (added : List Constant) (q : Pool) : Prop where
  valid : q.Valid
  table : q.table = p.table.append added

theorem Valid.grows {p : Pool} (h : p.Valid) : p.Grows [] p := ⟨h, rfl⟩

theorem Grows.trans {p q r : Pool} {front back : List Constant} (h : p.Grows front q)
    (g : q.Grows back r) : p.Grows (front ++ back) r :=
  ⟨g.valid, by rw [g.table, h.table, SlotTable.append_append]⟩

theorem Grows.isPrefix {p q : Pool} {added : List Constant} (h : p.Grows added q) :
    p.table.IsPrefix q.table := by
  rw [h.table]
  exact SlotTable.isPrefix_append p.table added

theorem Grows.utf8? {p q : Pool} {added : List Constant} (h : p.Grows added q)
    {index : PoolIndex} {text : String} (found : p.table.utf8? index = some text) :
    q.table.utf8? index = some text :=
  ConstantTable.utf8?_of_isPrefix h.isPrefix h.valid.ascending found

theorem valid_empty : Valid .empty where
  ascending := SlotTable.ascending_startingAt 1
  bounded := by decide
  recorded := by simp [empty]
  classes := by simp [empty]

theorem Valid.next_toNat {p : Pool} (h : p.Valid) : p.slotCount.toNat = p.table.next :=
  Text.Utf16.toNat_toUInt16 h.bounded

theorem add_ok {c : Constant} {p q : Pool} {slot : PoolIndex} (valid : p.Valid)
    (h : add c p = (.ok slot, q)) :
    slot = p.slotCount ∧ q = { p with table := p.table.push c } ∧
      p.Grows [c] q ∧ q.table.constant? slot = some c := by
  unfold add at h
  simp only [valid.next_toNat] at h
  split at h
  · rename_i room
    obtain ⟨same, rfl⟩ := Prod.mk.inj h
    obtain rfl := Except.ok.inj same
    have ascending := valid.ascending.push c.width_pos
    have old : p.table.IsPrefix (p.table.push c) := SlotTable.isPrefix_push p.table c
    refine ⟨rfl, rfl, ⟨⟨ascending, room, ?_, ?_⟩, rfl⟩, ?_⟩
    · intro d index found
      exact ConstantTable.constant?_of_isPrefix old ascending (valid.recorded d index found)
    · intro name index found
      exact ConstantTable.className?_of_isPrefix old ascending (valid.classes name index found)
    · rw [ConstantTable.constant?, valid.next_toNat]
      exact SlotTable.get?_push_next valid.ascending c.width_pos
  · cases h

/-- A constant is found again, or added and recorded. -/
theorem intern_ok {c : Constant} {p q : Pool} {slot : PoolIndex} (valid : p.Valid)
    (h : intern c p = (.ok slot, q)) :
    q.table.constant? slot = some c ∧
      (p.recorded[c]? = some slot ∧ p.Grows [] q ∨ p.recorded[c]? = none ∧ p.Grows [c] q) := by
  obtain ⟨now, same, isNow, h⟩ := bind_eq_ok.mp h
  cases isNow
  cases known : p.recorded[c]? with
  | some found =>
    simp only [known] at h
    obtain ⟨result, rfl⟩ := Prod.mk.inj h
    obtain rfl := Except.ok.inj result
    exact ⟨valid.recorded c found known, .inl ⟨rfl, valid.grows⟩⟩
  | none =>
    simp only [known] at h
    obtain ⟨added, middle, isAdded, h⟩ := bind_eq_ok.mp h
    obtain ⟨rfl, rfl, grows, found⟩ := add_ok valid isAdded
    obtain ⟨result, rfl⟩ := Prod.mk.inj h
    obtain rfl := Except.ok.inj result
    refine ⟨found, .inr ⟨rfl, ⟨⟨grows.valid.ascending, grows.valid.bounded, ?_,
      grows.valid.classes⟩, grows.table⟩⟩⟩
    intro d index recorded
    rw [Std.HashMap.getElem?_insert] at recorded
    split at recorded
    · rename_i same
      obtain rfl := Option.some.inj recorded
      rw [← eq_of_beq same]
      exact found
    · exact grows.valid.recorded d index recorded

theorem utf8_ok {text : String} {p q : Pool} {slot : PoolIndex} (valid : p.Valid)
    (h : utf8 text p = (.ok slot, q)) :
    q.table.utf8? slot = some text ∧
      (p.recorded[Constant.utf8 text]? = some slot ∧ p.Grows [] q ∨
        p.recorded[Constant.utf8 text]? = none ∧ p.Grows [.utf8 text] q) := by
  obtain ⟨found, grown⟩ := intern_ok valid h
  exact ⟨ConstantTable.utf8?_eq_some.mpr found, grown⟩

/-- A class is found again, or added after its name, which may have been there already. -/
theorem classRef_ok {name : String} {p q : Pool} {slot : PoolIndex} (valid : p.Valid)
    (h : classRef name p = (.ok slot, q)) :
    q.table.className? slot = some name ∧
      (p.classes[name]? = some slot ∧ p.Grows [] q ∨
        p.classes[name]? = none ∧ ∃ text, q.table.utf8? text = some name ∧
          (p.recorded[Constant.utf8 name]? = some text ∧ p.Grows [.classRef text] q ∨
            p.recorded[Constant.utf8 name]? = none ∧
              p.Grows [.utf8 name, .classRef text] q)) := by
  obtain ⟨now, same, isNow, h⟩ := bind_eq_ok.mp h
  cases isNow
  cases known : p.classes[name]? with
  | some found =>
    simp only [known] at h
    obtain ⟨result, rfl⟩ := Prod.mk.inj h
    obtain rfl := Except.ok.inj result
    exact ⟨valid.classes name found known, .inl ⟨rfl, valid.grows⟩⟩
  | none =>
    simp only [known] at h
    obtain ⟨text, named, isText, h⟩ := bind_eq_ok.mp h
    obtain ⟨added, middle, isAdded, h⟩ := bind_eq_ok.mp h
    obtain ⟨result, rfl⟩ := Prod.mk.inj h
    obtain rfl := Except.ok.inj result
    obtain ⟨isName, grown⟩ := utf8_ok valid isText
    have validText : named.Valid := by
      rcases grown with ⟨-, grown⟩ | ⟨-, grown⟩
      · exact grown.valid
      · exact grown.valid
    obtain ⟨rfl, rfl, grows, found⟩ := add_ok validText isAdded
    have isClass : ConstantTable.className? (named.table.push (.classRef text)) named.slotCount =
        some name :=
      ConstantTable.className?_eq_some.mpr ⟨text, found, grows.utf8? isName⟩
    have last : named.Grows [.classRef text]
        { named with
          table := named.table.push (.classRef text)
          classes := named.classes.insert name named.slotCount } := by
      refine ⟨⟨grows.valid.ascending, grows.valid.bounded, grows.valid.recorded, ?_⟩, rfl⟩
      intro other index recorded
      rw [Std.HashMap.getElem?_insert] at recorded
      split at recorded
      · rename_i same
        obtain rfl := Option.some.inj recorded
        rw [← eq_of_beq same]
        exact isClass
      · exact grows.valid.classes other index recorded
    refine ⟨isClass, .inr ⟨rfl, text, last.utf8? isName, ?_⟩⟩
    rcases grown with ⟨old, grown⟩ | ⟨new, grown⟩
    · exact .inl ⟨old, grown.trans last⟩
    · exact .inr ⟨new, grown.trans last⟩

theorem add_total {p : Pool} (valid : p.Valid) {c : Constant}
    (room : p.table.next + width c < 65536) :
    add c p = (.ok p.slotCount, { p with table := p.table.push c }) := by
  unfold add
  simp only [valid.next_toNat]
  rw [if_pos room]

/-- The change succeeds as long as the table has room for so many slots more. -/
def Takes {α : Type} (change : Change α) (slots : Nat) : Prop :=
  ∀ p : Pool, p.Valid → p.table.next + slots < 65536 →
    ∃ a q, change p = (.ok a, q) ∧ q.Valid ∧ q.table.next ≤ p.table.next + slots

theorem Takes.bind {α β : Type} {change : Change α} {f : α → Change β} {m n : Nat}
    (first : Takes change m) (next : ∀ a, Takes (f a) n) : Takes (change >>= f) (m + n) := by
  intro p valid room
  obtain ⟨a, q, made, validNext, grown⟩ := first p valid (by omega)
  obtain ⟨b, r, last, validLast, further⟩ := next a q validNext (by omega)
  exact ⟨b, r, bind_eq_ok.mpr ⟨a, q, made, last⟩, validLast, by omega⟩

theorem takes_intern (c : Constant) : Takes (intern c) (width c) := by
  intro p valid room
  cases known : p.recorded[c]? with
  | some slot =>
    refine ⟨slot, p, ?_, valid, Nat.le_add_right _ _⟩
    refine bind_eq_ok.mpr ⟨p, p, rfl, ?_⟩
    simp only [known]
    rfl
  | none =>
    have added := add_total valid room
    have run : intern c p = (.ok p.slotCount, { p with
        table := p.table.push c, recorded := p.recorded.insert c p.slotCount }) := by
      refine bind_eq_ok.mpr ⟨p, p, rfl, ?_⟩
      simp only [known]
      exact bind_eq_ok.mpr ⟨p.slotCount, _, added, rfl⟩
    obtain ⟨-, ⟨old, -⟩ | ⟨-, grown⟩⟩ := intern_ok valid run
    · rw [known] at old
      cases old
    · exact ⟨_, _, run, grown.valid, Nat.le_refl _⟩

theorem takes_utf8 (text : String) : Takes (utf8 text) 1 := takes_intern (.utf8 text)

theorem takes_classRef (name : String) : Takes (classRef name) 2 := by
  intro p valid room
  cases known : p.classes[name]? with
  | some slot =>
    refine ⟨slot, p, bind_eq_ok.mpr ⟨p, p, rfl, ?_⟩, valid, Nat.le_add_right _ _⟩
    simp only [known]
    rfl
  | none =>
    obtain ⟨text, q, isText, validText, grown⟩ := takes_utf8 name p valid (by omega)
    have one : width (Constant.classRef text) = 1 := rfl
    have added := add_total validText (c := .classRef text) (by omega)
    have run : classRef name p = (.ok q.slotCount, { q with
        table := q.table.push (.classRef text)
        classes := q.classes.insert name q.slotCount }) := by
      refine bind_eq_ok.mpr ⟨p, p, rfl, ?_⟩
      simp only [known]
      refine bind_eq_ok.mpr ⟨text, q, isText, ?_⟩
      exact bind_eq_ok.mpr ⟨_, _, added, rfl⟩
    obtain ⟨-, ⟨old, -⟩ | ⟨-, other, -, ⟨-, grows⟩ | ⟨-, grows⟩⟩⟩ := classRef_ok valid run
    · rw [known] at old
      cases old
    · refine ⟨_, _, run, grows.valid, ?_⟩
      simp only [SlotTable.next_push]
      omega
    · refine ⟨_, _, run, grows.valid, ?_⟩
      simp only [SlotTable.next_push]
      omega

theorem takes_methodRef (owner : ClassName) (name : String) (type : MethodType)
    (ofInterface : Bool) : Takes (methodRef owner name type ofInterface) 6 := by
  change Takes _ (2 + (1 + (1 + (1 + 1))))
  apply (takes_classRef owner.text).bind
  intro ownerIndex
  apply (takes_utf8 name).bind
  intro nameIndex
  apply (takes_utf8 type.render).bind
  intro descriptor
  apply Takes.bind
  · exact takes_intern (.nameAndType nameIndex descriptor)
  · intro member
    exact takes_intern (.methodRef ownerIndex member ofInterface)

/-- The second pool is valid and starts with the table of the first. -/
def Leads (p q : Pool) : Prop := ∃ added, p.Grows added q

theorem Leads.trans {p q r : Pool} (h : p.Leads q) (g : q.Leads r) : p.Leads r := by
  obtain ⟨front, first⟩ := h
  obtain ⟨back, second⟩ := g
  exact ⟨front ++ back, first.trans second⟩

theorem intern_leads {c : Constant} {p q : Pool} {slot : PoolIndex} (valid : p.Valid)
    (h : intern c p = (.ok slot, q)) : p.Leads q ∧ q.table.constant? slot = some c := by
  obtain ⟨found, ⟨-, grown⟩ | ⟨-, grown⟩⟩ := intern_ok valid h
  · exact ⟨⟨_, grown⟩, found⟩
  · exact ⟨⟨_, grown⟩, found⟩

theorem utf8_leads {text : String} {p q : Pool} {slot : PoolIndex} (valid : p.Valid)
    (h : utf8 text p = (.ok slot, q)) : p.Leads q ∧ q.table.utf8? slot = some text := by
  obtain ⟨grown, found⟩ := intern_leads valid h
  exact ⟨grown, ConstantTable.utf8?_eq_some.mpr found⟩

theorem classRef_leads {name : String} {p q : Pool} {slot : PoolIndex} (valid : p.Valid)
    (h : classRef name p = (.ok slot, q)) : p.Leads q ∧ q.table.className? slot = some name := by
  obtain ⟨found, ⟨-, grown⟩ | ⟨-, text, -, ⟨-, grown⟩ | ⟨-, grown⟩⟩⟩ := classRef_ok valid h
  · exact ⟨⟨_, grown⟩, found⟩
  · exact ⟨⟨_, grown⟩, found⟩
  · exact ⟨⟨_, grown⟩, found⟩

theorem slot_of_mem {t : ConstantTable} (ascending : t.Ascending) (bounded : t.next < 65536)
    {entry : Nat × Constant} (here : entry ∈ t.toList) :
    entry.1.toUInt16.toNat = entry.1 ∧ t.constant? entry.1.toUInt16 = some entry.2 := by
  have below := ascending.below entry here
  have slot : entry.1.toUInt16.toNat = entry.1 := Text.Utf16.toNat_toUInt16 (by omega)
  refine ⟨slot, ?_⟩
  rw [ConstantTable.constant?, slot]
  exact SlotTable.get?_of_mem ascending here

/-- A record is made of what an entry of the table holds, and makes no other change. -/
structure Records (p q : Pool) : Prop where
  table : q.table = p.table
  valid : p.Valid → q.Valid
  texts : ∀ c : Constant, (p.recorded[c]?).isSome → (q.recorded[c]?).isSome
  names : ∀ name : String, (p.classes[name]?).isSome → (q.classes[name]?).isSome

theorem records_refl (p : Pool) : p.Records p := ⟨rfl, id, fun _ h => h, fun _ h => h⟩

theorem Records.trans {p q r : Pool} (h : p.Records q) (g : q.Records r) : p.Records r where
  table := by rw [g.table, h.table]
  valid := fun start => g.valid (h.valid start)
  texts := fun c known => g.texts c (h.texts c known)
  names := fun name known => g.names name (h.names name known)

theorem records_recordText {p : Pool} {entry : Nat × Constant} (here : entry ∈ p.table.toList) :
    p.Records (recordText p entry) := by
  unfold recordText
  split
  · rename_i text isText
    refine ⟨rfl, fun valid => ⟨valid.ascending, valid.bounded, ?_, valid.classes⟩, ?_, fun _ h => h⟩
    · intro c index known
      rw [Std.HashMap.getElem?_insertIfNew] at known
      split at known
      · rename_i same
        obtain rfl := Option.some.inj known
        rw [← eq_of_beq same.1]
        exact (slot_of_mem valid.ascending valid.bounded here).2
      · exact valid.recorded c index known
    · intro c known
      rw [Std.HashMap.getElem?_insertIfNew]
      split
      · rfl
      · exact known
  · exact records_refl p

theorem records_recordClass {p : Pool} (entry : Nat × Constant) :
    p.Records (recordClass p entry) := by
  unfold recordClass
  split
  · rename_i name isClass
    refine ⟨rfl, fun valid => ⟨valid.ascending, valid.bounded, valid.recorded, ?_⟩,
      fun _ h => h, ?_⟩
    · intro other index known
      rw [Std.HashMap.getElem?_insertIfNew] at known
      split at known
      · rename_i same
        obtain rfl := Option.some.inj known
        rw [← eq_of_beq same.1]
        exact isClass
      · exact valid.classes other index known
    · intro other known
      rw [Std.HashMap.getElem?_insertIfNew]
      split
      · rfl
      · exact known
  · exact records_refl p

theorem recordText_known {p : Pool} {slot : Nat} {text : String} :
    ((recordText p (slot, .utf8 text)).recorded[Constant.utf8 text]?).isSome := by
  simp only [recordText, Std.HashMap.getElem?_insertIfNew]
  split
  · rfl
  · rename_i known
    rw [← Std.HashMap.mem_iff_isSome_getElem?]
    simpa using known

theorem recordClass_known {p : Pool} {entry : Nat × Constant} {name : String}
    (isClass : p.table.className? entry.1.toUInt16 = some name) :
    ((recordClass p entry).classes[name]?).isSome := by
  simp only [recordClass, isClass, Std.HashMap.getElem?_insertIfNew]
  split
  · rfl
  · rename_i known
    rw [← Std.HashMap.mem_iff_isSome_getElem?]
    simpa using known

theorem foldl_recordText {p : Pool} {entries : List (Nat × Constant)}
    (here : ∀ entry ∈ entries, entry ∈ p.table.toList) :
    p.Records (entries.foldl recordText p) ∧
      ∀ slot text, (slot, .utf8 text) ∈ entries →
        ((entries.foldl recordText p).recorded[Constant.utf8 text]?).isSome := by
  induction entries generalizing p with
  | nil => exact ⟨records_refl p, by simp⟩
  | cons entry entries ih =>
    have first := records_recordText (here entry List.mem_cons_self)
    obtain ⟨others, known⟩ := ih (p := recordText p entry) fun other mem => by
      rw [first.table]
      exact here other (List.mem_cons_of_mem entry mem)
    refine ⟨first.trans others, ?_⟩
    intro slot text mem
    rcases List.mem_cons.mp mem with rfl | later
    · exact others.texts _ recordText_known
    · exact known slot text later

theorem foldl_recordClass {p : Pool} {entries : List (Nat × Constant)} :
    p.Records (entries.foldl recordClass p) ∧
      ∀ entry ∈ entries, ∀ name, p.table.className? entry.1.toUInt16 = some name →
        ((entries.foldl recordClass p).classes[name]?).isSome := by
  induction entries generalizing p with
  | nil => exact ⟨records_refl p, by simp⟩
  | cons entry entries ih =>
    have first : p.Records (recordClass p entry) := records_recordClass entry
    obtain ⟨others, known⟩ := ih (p := recordClass p entry)
    refine ⟨first.trans others, ?_⟩
    intro other mem name isClass
    rcases List.mem_cons.mp mem with rfl | later
    · exact others.names _ (recordClass_known isClass)
    · exact known other later name (by rwa [first.table])

theorem ofTable_table (t : ConstantTable) : (ofTable t).table = t := by
  rw [ofTable, foldl_recordClass.1.table, (foldl_recordText fun _ mem => mem).1.table]

theorem valid_ofTable {t : ConstantTable} (ascending : t.Ascending) (bounded : t.next < 65536) :
    (ofTable t).Valid :=
  foldl_recordClass.1.valid <| (foldl_recordText fun _ mem => mem).1.valid
    ⟨ascending, bounded, by simp, by simp⟩

/-- A text that is not recorded is not in the table. -/
theorem utf8?_of_ofTable_none {t : ConstantTable} {text : String}
    (unknown : (ofTable t).recorded[Constant.utf8 text]? = none) (index : PoolIndex) :
    t.utf8? index ≠ some text := by
  intro found
  have here := SlotTable.mem_of_get? (ConstantTable.utf8?_eq_some.mp found)
  have known := (foldl_recordText (p := ⟨t, ∅, ∅⟩) fun _ mem => mem).2 _ _ here
  have still : ((ofTable t).recorded[Constant.utf8 text]?).isSome :=
    foldl_recordClass.1.texts _ known
  rw [unknown] at still
  cases still

/-- A class name that is not recorded is not the name of a class in the table. -/
theorem className?_of_ofTable_none {t : ConstantTable} {name : String}
    (unknown : (ofTable t).classes[name]? = none) (index : PoolIndex) :
    t.className? index ≠ some name := by
  intro found
  obtain ⟨text, isClass, -⟩ := ConstantTable.className?_eq_some.mp found
  have here := SlotTable.mem_of_get? isClass
  have texts : (⟨t, ∅, ∅⟩ : Pool).Records (t.toList.foldl recordText ⟨t, ∅, ∅⟩) :=
    (foldl_recordText fun _ mem => mem).1
  have known := (foldl_recordClass (p := t.toList.foldl recordText ⟨t, ∅, ∅⟩)).2 _ here name (by
    rw [texts.table]
    simpa using found)
  rw [← ofTable, unknown] at known
  cases known

end Pool

end JavaSnippet.ClassFile
