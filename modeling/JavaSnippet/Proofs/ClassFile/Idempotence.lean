import JavaSnippet.Proofs.ClassFile.Superclass
import JavaSnippet.Proofs.Name
/-!
A change of super class made twice. The class that the first change leaves has another super class,
so the second one does not apply to it. Only when a class is put in its own place do both apply, and
then both look up the same name in the same constants, so they choose the same slot.
-/
namespace JavaSnippet.ClassFile

namespace Pool

/-- A recorded class is found without a change. -/
theorem classRef_of_recorded {p : Pool} {name : String} {slot : PoolIndex}
    (known : p.classes[name]? = some slot) : classRef name p = (.ok slot, p) := by
  refine ExceptState.bind_eq_ok.mpr ⟨p, p, rfl, ?_⟩
  simp only [known]
  rfl

/-- Every name that a class of a table has is recorded, with the slot of one such class. -/
theorem recorded_of_className? {t : ConstantTable} (ascending : t.Ascending)
    (bounded : t.next < 65536) {index : PoolIndex} {name : String}
    (found : t.className? index = some name) :
    ∃ slot, (ofTable t).classes[name]? = some slot ∧ t.className? slot = some name := by
  cases known : (ofTable t).classes[name]? with
  | none => exact absurd found (className?_of_ofTable_none known index)
  | some slot =>
    have named := (valid_ofTable ascending bounded).classes name slot known
    rw [ofTable_table] at named
    exact ⟨slot, rfl, named⟩

end Pool

theorem superName?_eq_some {c : ClassFile} {name : ClassName} (h : c.superName? = some name) :
    c.constants.className? c.superClass = some name.text ∧
      ClassName.ofString name.text = .ok name := by
  unfold superName? at h
  split at h
  · cases h
  · unfold namedClass? at h
    obtain ⟨text, found, read⟩ := Option.bind_eq_some_iff.mp h
    cases isName : ClassName.ofString text with
    | error fault =>
      rw [isName] at read
      cases read
    | ok other =>
      rw [isName] at read
      obtain rfl := Option.some.inj read
      obtain rfl := ClassName.eq_of_ofString isName
      exact ⟨found, isName⟩

section Twice

variable {s : Sections} {c : ClassFile} {name : ClassName}

theorem Sections.Spell.withSuper (h : s.Spell c) (index : PoolIndex) :
    s.Spell { c with superClass := index } :=
  ⟨h.bounded, h.pool, h.flags, h.interfaces, h.fields, h.methods, h.attributes, h.named⟩

/-- A super class that is put in its own place gets the slot that is recorded for its name. -/
theorem replaceSuper_itself (h : s.Spell c) (isClass : c.isInterface = false)
    (isSuper : c.superName? = some name) {slot : PoolIndex}
    (known : (Pool.ofTable c.constants).classes[name.text]? = some slot) :
    replaceSuper (s.bytes c) name name =
      .ok (.changed (s.bytes { c with superClass := slot })) := by
  have ascending := ascending_constants h
  have table : (Pool.ofTable c.constants).table = c.constants.append [] :=
    Pool.ofTable_table c.constants
  have nothing := constantsFrom_ofTable ascending h.bounded table
  have spliced := s.splice_eq c (Pool.valid_ofTable ascending h.bounded) table slot
  have sameSections : s.withConstants [] = s := by
    rw [Sections.withConstants, List.flatMap_nil, List.append_nil]
  rw [sameSections] at spliced
  rw [replaceSuper_of_decode (Sections.decodeWithLayout_bytes h), isClass, isSuper,
    Pool.classRef_of_recorded known]
  simp only [Bool.false_or, bne_self_eq_false, Bool.false_eq_true, if_false, nothing]
  rw [spliced]
  rfl

/-- The slot that is chosen for the name of the super class is chosen again. -/
theorem replaceSuper_itself_twice {bytes output : List UInt8}
    (h : replaceSuper bytes name name = .ok (.changed output)) :
    replaceSuper output name name = .ok (.changed output) := by
  obtain ⟨s, c, -, -, spell, rfl, isClass, isSuper, -⟩ := replaceSuper_eq_changed h
  obtain ⟨named, valid⟩ := superName?_eq_some isSuper
  obtain ⟨slot, known, isName⟩ :=
    Pool.recorded_of_className? (ascending_constants spell) spell.bounded named
  have first := replaceSuper_itself spell isClass isSuper known
  obtain rfl : output = s.bytes { c with superClass := slot } :=
    Patch.changed.inj (Except.ok.inj (h.symm.trans first))
  have spellAfter := spell.withSuper slot
  have isSuperAfter : ClassFile.superName? { c with superClass := slot } = some name :=
    superName?_of_className? valid (index_ne_zero spell isName) isName
  exact replaceSuper_itself spellAfter isClass isSuperAfter known

/-- A class that got another super class is not one of those to change any more. -/
theorem replaceSuper_after_changed {bytes output : List UInt8} {source replacement : ClassName}
    (short : (Text.ModifiedUtf8.encode replacement.text).length ≤ 65535)
    (h : replaceSuper bytes source replacement = .ok (.changed output))
    (other : source ≠ replacement) : replaceSuper output source replacement = .ok .unchanged := by
  obtain ⟨s, c, index, added, spell, -, -, -, naming, ascending, bounded, isClass, rfl⟩ :=
    replaceSuper_eq_changed h
  have spellAfter := spell.withConstants (naming.fits (by omega)) bounded ascending index
  refine replaceSuper_eq_unchanged.mpr
    ⟨_, decode_eq_ok.mpr ⟨_, Sections.decodeWithLayout_bytes spellAfter⟩, .inr fun isSource => ?_⟩
  obtain ⟨found, -⟩ := superName?_eq_some isSource
  exact other (congrArg ClassName.mk (Option.some.inj (found.symm.trans isClass)))

end Twice

/-- Whatever a change of super class gives, the same change of it succeeds and gives the same bytes.
It leaves the class as it is unless the first one put the super class in its own place. -/
theorem replaceSuper_idempotent {bytes : List UInt8} {source replacement : ClassName}
    {patch : Patch} (short : (Text.ModifiedUtf8.encode replacement.text).length ≤ 65535)
    (h : replaceSuper bytes source replacement = .ok patch) :
    ∃ again, replaceSuper (patch.bytes bytes) source replacement = .ok again ∧
      again.bytes (patch.bytes bytes) = patch.bytes bytes ∧
      (again = .unchanged ↔ patch = .unchanged ∨ source ≠ replacement) := by
  cases patch with
  | unchanged => exact ⟨.unchanged, h, rfl, by simp⟩
  | changed output =>
    by_cases same : source = replacement
    · subst same
      exact ⟨.changed output, replaceSuper_itself_twice h, rfl, by simp⟩
    · exact ⟨.unchanged, replaceSuper_after_changed short h same, rfl, by simp [same]⟩

/-- A class without members whose last constant names a slot that is not there. -/
def danglingClass : ClassFile :=
  { bareClass with constants := bareClass.constants.push (.classRef 6) }

theorem decode_danglingClass :
    decode danglingClass.encode = .ok danglingClass ∧ danglingClass.superName? = some .object := by
  have ascending : danglingClass.constants.Ascending :=
    ConstantTable.ascending_filled
      [.utf8 "A", .classRef 1, .utf8 "java/lang/Object", .classRef 3, .classRef 6]
  have named : ConstantTable.className? danglingClass.constants 2 = some "A" :=
    ConstantTable.className?_of_mem ascending 1 (by decide) (by decide)
  have above : ConstantTable.className? danglingClass.constants 4 = some ClassName.object.text :=
    ConstantTable.className?_of_mem ascending 3 (by decide) (by decide)
  refine ⟨?_, superName?_of_className? rfl (by decide) above⟩
  have regular : Regular danglingClass := by
    refine ⟨⟨bareClass.constants.elements ++ [.classRef 6], rfl⟩, by decide, by decide, by decide,
      by decide, ?_, ?_, by decide, ?_, ?_⟩
    · exact fun m here => absurd here List.not_mem_nil
    · exact fun m here => absurd here List.not_mem_nil
    · exact fun a here => absurd here List.not_mem_nil
    · exact Option.isSome_of_eq_some named
  refine (decode_encode_iff regular).mpr ⟨?_, by decide⟩
  have texts : (Text.ModifiedUtf8.encode "A").length < 65536 ∧
      (Text.ModifiedUtf8.encode "java/lang/Object").length < 65536 := by decide
  intro c here
  have listed : c ∈ [.utf8 "A", .classRef 1, .utf8 "java/lang/Object", .classRef 3,
    .classRef 6] := here
  simp only [List.mem_cons, List.not_mem_nil, or_false] at listed
  rcases listed with rfl | rfl | rfl | rfl | rfl
  · exact texts.1
  · trivial
  · exact texts.2
  · trivial
  · trivial

/-- The name of the new super class goes to the slot that was missing. Put in its own place, the
super class is written twice. -/
theorem replaceSuper_idempotent_dangling :
    (∃ output,
      replaceSuper danglingClass.encode .object .magicAccessor = .ok (.changed output) ∧
        replaceSuper output .object .magicAccessor = .ok .unchanged) ∧
      ∃ output, replaceSuper danglingClass.encode .object .object = .ok (.changed output) ∧
        replaceSuper output .object .object = .ok (.changed output) := by
  have shortOther : (Text.ModifiedUtf8.encode ClassName.magicAccessor.text).length ≤ 65535 := by
    decide
  have shortSame : (Text.ModifiedUtf8.encode ClassName.object.text).length ≤ 65535 := by decide
  obtain ⟨decoded, isSource⟩ := decode_danglingClass
  have changes := replaceSuper_changes decoded (by decide) isSource (by decide)
  constructor
  · obtain ⟨output, changed⟩ := changes .magicAccessor
    obtain ⟨again, second, -, stays⟩ := replaceSuper_idempotent shortOther changed
    obtain rfl := stays.mpr (.inr (by decide))
    exact ⟨output, changed, second⟩
  · obtain ⟨output, changed⟩ := changes .object
    obtain ⟨again, second, kept, stays⟩ := replaceSuper_idempotent shortSame changed
    cases again with
    | unchanged => simp at stays
    | changed bytes =>
      obtain rfl : bytes = output := kept
      exact ⟨bytes, changed, second⟩

end JavaSnippet.ClassFile
