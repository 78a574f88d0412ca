import JavaSnippet.Descriptor.Text
import JavaSnippet.Proofs.Fallible
import JavaSnippet.Proofs.Name
/-!
Descriptors that are read back. The text of a type ends where the type does, so it is read from the
front of any text; class names only have to be valid. What is read stood there as it would be
written, so no type has a second text.
-/
namespace JavaSnippet

def ElementType.IsValid : ElementType → Prop
  | base _ => True
  | object name => name.IsValid

def FieldType.IsValid (t : FieldType) : Prop := t.element.IsValid

structure MethodType.IsValid (m : MethodType) : Prop where
  parameters : ∀ t ∈ m.parameters, t.IsValid
  result : ∀ t, m.result = some t → t.IsValid

namespace Descriptor

open StateExcept

/-- The scan takes these characters off the front of any text. -/
def Scans {α : Type} (scan : Scan α) (chars : List Char) (a : α) : Prop :=
  ∀ rest position, ∃ after, scan ⟨chars ++ rest, position⟩ = .ok (a, ⟨rest, after⟩)

section Rules

variable {α β : Type} {a : α} {b : β} {front back : List Char}

theorem scans_pure : Scans (pure a) [] a := fun _ position => ⟨position, rfl⟩

theorem Scans.bind {x : Scan α} {f : α → Scan β} (first : Scans x front a)
    (second : Scans (f a) back b) : Scans (x >>= f) (front ++ back) b := by
  intro rest position
  obtain ⟨middle, isFirst⟩ := first (back ++ rest) position
  obtain ⟨after, isSecond⟩ := second rest middle
  refine ⟨after, ?_⟩
  rw [bind_apply, List.append_assoc, isFirst]
  exact isSecond

theorem Scans.bind_last {x : Scan α} {f : α → Scan β} (first : Scans x front a)
    (second : Scans (f a) [] b) : Scans (x >>= f) front b := by
  have both := first.bind second
  rwa [List.append_nil] at both

end Rules

theorem scans_bump (c : Char) : Scans bump [c] (some c) :=
  fun _ position => ⟨position + c.utf8Size, rfl⟩

theorem scans_expect (c : Char) : Scans (expect c) [c] () := by
  refine (scans_bump c).bind_last ?_
  simp only [if_true]
  exact scans_pure

theorem scans_takeUntil {terminator : Char} {chars : List Char} (free : terminator ∉ chars) :
    Scans (takeUntil terminator) (chars ++ [terminator]) chars := by
  intro rest position
  have other : ∀ c ∈ chars, (c != terminator) = true := fun c here => by
    simpa using fun same : c = terminator => free (same ▸ here)
  have taken : ((chars ++ [terminator]) ++ rest).takeWhile (· != terminator) = chars := by
    rw [List.append_assoc, List.takeWhile_append_of_pos other]
    simp
  have left : ((chars ++ [terminator]) ++ rest).dropWhile (· != terminator) =
      terminator :: rest := by
    rw [List.append_assoc, List.dropWhile_append_of_pos other]
    simp
  refine ⟨position + byteCount chars + terminator.utf8Size, ?_⟩
  simp only [takeUntil, taken, left]

theorem scans_className {name : ClassName} (valid : name.IsValid) :
    Scans className ('L' :: (name.text.toList ++ [';'])) name := by
  have free : ';' ∉ name.text.toList := fun here => by
    have := valid.legal here
    revert this
    decide
  have named : ClassName.ofString (String.ofList name.text.toList) = .ok name := by
    rw [String.ofList_toList]
    exact valid.ofString
  refine (scans_expect 'L').bind ((scans_takeUntil free).bind_last ?_)
  rw [named]
  exact scans_pure

theorem scans_baseType (t : BaseType) : Scans baseType [t.letter] t := by
  refine (scans_bump t.letter).bind_last ?_
  simp only [BaseType.ofLetter?_letter]
  exact scans_pure

/-- Which form an element type has is decided by its first character. -/
theorem scans_elementType {t : ElementType} (valid : t.IsValid) :
    Scans elementType t.render t := by
  intro rest position
  cases t with
  | base t =>
    obtain ⟨after, read⟩ := scans_baseType t rest position
    refine ⟨after, ?_⟩
    have other : some t.letter ≠ some 'L' := by cases t <;> decide
    show (if some t.letter = some 'L' then _ else _ : Scan ElementType) _ = _
    rw [if_neg other, bind_apply]
    rw [ElementType.render, read]
    rfl
  | object name =>
    obtain ⟨after, read⟩ := scans_className valid rest position
    refine ⟨after, ?_⟩
    show (className >>= fun name => pure (ElementType.object name) : Scan ElementType)
      ⟨'L' :: (name.text.toList ++ [';']) ++ rest, position⟩ = _
    rw [bind_apply, read]
    rfl

theorem head_render (t : ElementType) : ∃ c tail, t.render = c :: tail ∧ c ∉ ['[', ')', 'V'] := by
  cases t with
  | base t => exact ⟨t.letter, [], rfl, by cases t <;> decide⟩
  | object name => exact ⟨'L', _, rfl, by decide⟩

/-- The brackets in front are all taken, and an element type has none. -/
theorem scans_fieldType {t : FieldType} (valid : t.IsValid) : Scans fieldType t.renderChars t := by
  intro rest position
  obtain ⟨c, tail, isElement, other⟩ := head_render t.element
  have noBracket : (c == '[') = false := by
    simp only [List.mem_cons, not_or] at other
    simpa using other.1
  have counted : ((List.replicate t.dimensions '[' ++ t.element.render) ++ rest).takeWhile
      (· == '[') = List.replicate t.dimensions '[' := by
    rw [List.append_assoc, isElement, List.takeWhile_append_of_pos (by simp)]
    simp [noBracket]
  have left : ((List.replicate t.dimensions '[' ++ t.element.render) ++ rest).drop t.dimensions =
      t.element.render ++ rest := by
    rw [List.append_assoc, List.drop_left' List.length_replicate]
  obtain ⟨after, read⟩ := scans_elementType valid rest (position + t.dimensions)
  refine ⟨after, ?_⟩
  unfold fieldType FieldType.renderChars
  rw [bind_apply]
  simp only [brackets, counted, List.length_replicate, left]
  rw [bind_apply, read]
  rfl

theorem head_renderChars (t : FieldType) :
    ∃ c tail, t.renderChars = c :: tail ∧ c ≠ ')' ∧ c ≠ 'V' := by
  unfold FieldType.renderChars
  cases t.dimensions with
  | zero =>
    obtain ⟨c, tail, isElement, other⟩ := head_render t.element
    simp only [List.mem_cons, List.not_mem_nil, or_false, not_or] at other
    exact ⟨c, tail, isElement, other.2⟩
  | succ n => exact ⟨'[', _, rfl, by decide, by decide⟩

/-- Parameters are read up to the parenthesis, each with room for it in the budget. -/
theorem parameters_ok {types : List FieldType} (valid : ∀ t ∈ types, t.IsValid)
    {budget : List Char} (room : types.length ≤ budget.length) (found : List FieldType)
    (rest : List Char) (position : Nat) :
    ∃ after, parameters budget found
        ⟨types.flatMap FieldType.renderChars ++ ')' :: rest, position⟩ =
      .ok (found.reverse ++ types, ⟨')' :: rest, after⟩) := by
  induction types generalizing budget found position with
  | nil =>
    refine ⟨position, ?_⟩
    unfold parameters
    rw [bind_apply, List.append_nil]
    rfl
  | cons t types ih =>
    obtain ⟨isValid, others⟩ := List.forall_mem_cons.mp valid
    cases budget with
    | nil => cases room
    | cons b budget =>
      obtain ⟨middle, first⟩ :=
        scans_fieldType isValid (types.flatMap FieldType.renderChars ++ ')' :: rest) position
      obtain ⟨after, later⟩ := ih others (Nat.le_of_succ_le_succ room) (t :: found) middle
      refine ⟨after, ?_⟩
      obtain ⟨c, tail, isType, other, -⟩ := head_renderChars t
      unfold parameters
      rw [List.flatMap_cons, List.append_assoc, bind_apply]
      have peeked : peek ⟨t.renderChars ++
          (types.flatMap FieldType.renderChars ++ ')' :: rest), position⟩ =
          .ok (some c, ⟨t.renderChars ++
            (types.flatMap FieldType.renderChars ++ ')' :: rest), position⟩) := by
        rw [isType]
        rfl
      rw [peeked]
      simp only
      rw [bind_apply, first]
      rw [List.reverse_cons, List.append_assoc] at later
      exact later

/-- What stands behind the parameters. -/
def resultChars (result : Option FieldType) : List Char :=
  match result with
  | none => ['V']
  | some t => t.renderChars

theorem scans_result (types : List FieldType) {result : Option FieldType}
    (valid : ∀ t, result = some t → t.IsValid) :
    Scans (do
      if (← peek) = some 'V' then
        let _ ← bump
        return MethodType.mk types none
      else return MethodType.mk types (some (← fieldType)))
      (resultChars result) ⟨types, result⟩ := by
  intro rest position
  cases result with
  | none => exact ⟨position + 'V'.utf8Size, rfl⟩
  | some t =>
    obtain ⟨after, read⟩ := scans_fieldType (valid t rfl) rest position
    obtain ⟨c, tail, isType, -, other⟩ := head_renderChars t
    refine ⟨after, ?_⟩
    have peeked : peek ⟨resultChars (some t) ++ rest, position⟩ =
        .ok (some c, ⟨t.renderChars ++ rest, position⟩) := by
      rw [resultChars, isType]
      rfl
    rw [bind_apply, peeked]
    simp only [Option.some.injEq, if_neg other]
    rw [bind_apply, read]
    rfl

theorem length_le_flatMap_renderChars (types : List FieldType) :
    types.length ≤ (types.flatMap FieldType.renderChars).length := by
  induction types with
  | nil => exact Nat.le_refl 0
  | cons t types ih =>
    obtain ⟨c, tail, isType, -⟩ := head_renderChars t
    rw [List.flatMap_cons, isType, List.length_append, List.length_cons, List.length_cons]
    omega

theorem scans_methodType {m : MethodType} (valid : m.IsValid) :
    Scans methodType m.renderChars m := by
  obtain ⟨types, result⟩ := m
  intro rest position
  have behind : (⟨types, result⟩ : MethodType).renderChars ++ rest =
      ['('] ++ (types.flatMap FieldType.renderChars ++ ')' :: (resultChars result ++ rest)) := by
    simp only [MethodType.renderChars, List.cons_append, List.append_assoc, List.nil_append]
    rfl
  have room : types.length ≤
      (types.flatMap FieldType.renderChars ++ ')' :: (resultChars result ++ rest)).length := by
    have := length_le_flatMap_renderChars types
    rw [List.length_append]
    omega
  obtain ⟨first, opened⟩ := scans_expect '('
    (types.flatMap FieldType.renderChars ++ ')' :: (resultChars result ++ rest)) position
  obtain ⟨second, read⟩ :=
    parameters_ok valid.parameters room [] (resultChars result ++ rest) first
  obtain ⟨third, closed⟩ := scans_expect ')' (resultChars result ++ rest) second
  obtain ⟨after, finished⟩ := scans_result types valid.result rest third
  refine ⟨after, ?_⟩
  unfold methodType
  rw [behind, bind_apply, opened]
  simp only
  rw [bind_apply]
  show (parameters _ [] >>= _) _ = _
  rw [bind_apply, read]
  simp only
  rw [bind_apply]
  have same : expect ')' ⟨')' :: (resultChars result ++ rest), second⟩ =
      .ok ((), ⟨resultChars result ++ rest, third⟩) := closed
  rw [same]
  exact finished

/-- What the scan reads is valid, and stood at the front of the text as it would be written. -/
def Takes {α : Type} (scan : Scan α) (IsValid : α → Prop) (chars : α → List Char) : Prop :=
  ∀ {before after a}, scan before = .ok (a, after) →
    IsValid a ∧ before.rest = chars a ++ after.rest

section Taking

variable {before after : Cursor}

theorem head_of_peek {next : Option Char} (h : peek before = .ok (next, after)) :
    after = before ∧ before.rest.head? = next := by
  obtain ⟨rfl, rfl⟩ := Prod.mk.inj (Except.ok.inj h)
  exact ⟨rfl, rfl⟩

theorem rest_of_bump {next : Option Char} (h : bump before = .ok (next, after)) :
    before.rest.head? = next ∧ before.rest = next.toList ++ after.rest := by
  unfold bump at h
  split at h
  · rename_i empty
    obtain ⟨rfl, rfl⟩ := Prod.mk.inj (Except.ok.inj h)
    rw [empty]
    exact ⟨rfl, rfl⟩
  · rename_i c rest found
    obtain ⟨rfl, rfl⟩ := Prod.mk.inj (Except.ok.inj h)
    rw [found]
    exact ⟨rfl, rfl⟩

theorem rest_of_expect {c : Char} (h : expect c before = .ok ((), after)) :
    before.rest = c :: after.rest := by
  obtain ⟨next, passed, bumped, last⟩ := bind_eq_ok.mp h
  obtain ⟨-, front⟩ := rest_of_bump bumped
  cases next with
  | none => cases last
  | some found =>
    simp only at last
    split at last
    · rename_i same
      obtain ⟨-, rfl⟩ := pure_eq_ok.mp last
      rwa [same] at front
    · cases last

theorem rest_of_takeUntil {terminator : Char} {chars : List Char}
    (h : takeUntil terminator before = .ok (chars, after)) :
    before.rest = chars ++ terminator :: after.rest := by
  simp only [takeUntil] at h
  split at h
  · cases h
  · rename_i c rest left
    obtain ⟨rfl, rfl⟩ := Prod.mk.inj (Except.ok.inj h)
    have some : before.rest.dropWhile (· != terminator) ≠ [] := by simp [left]
    have stops := List.head_dropWhile_not (· != terminator) some
    obtain rfl : c = terminator := by simpa [left] using stops
    rw [← left, List.takeWhile_append_dropWhile]

theorem rest_of_brackets {count : Nat} (h : brackets before = .ok (count, after)) :
    before.rest = List.replicate count '[' ++ after.rest := by
  obtain ⟨rfl, rfl⟩ := Prod.mk.inj (Except.ok.inj h)
  obtain ⟨left, whole⟩ := List.takeWhile_prefix (· == '[') (l := before.rest)
  have each := List.all_eq_true.mp (List.all_takeWhile (p := (· == '[')) (l := before.rest))
  simp only
  generalize before.rest.takeWhile (· == '[') = taken at *
  have only : taken = List.replicate taken.length '[' :=
    List.eq_replicate_of_mem fun c here => eq_of_beq (each c here)
  rw [← whole, List.drop_left, ← only]

theorem takes_className :
    Takes className ClassName.IsValid fun name => 'L' :: (name.text.toList ++ [';']) := by
  intro before after name h
  obtain ⟨⟨⟩, opened, letter, h⟩ := bind_eq_ok.mp h
  obtain ⟨text, taken, isText, last⟩ := bind_eq_ok.mp h
  cases named : ClassName.ofString (String.ofList text) with
  | error fault =>
    rw [named] at last
    cases last
  | ok other =>
    rw [named] at last
    obtain ⟨rfl, rfl⟩ := pure_eq_ok.mp last
    refine ⟨ClassName.isValid_of_ofString named, ?_⟩
    rw [rest_of_expect letter, rest_of_takeUntil isText, ClassName.eq_of_ofString named]
    simp

theorem takes_baseType : Takes baseType (fun _ => True) fun t => [t.letter] := by
  intro before after t h
  obtain ⟨next, passed, bumped, last⟩ := bind_eq_ok.mp h
  obtain ⟨-, front⟩ := rest_of_bump bumped
  cases next with
  | none => cases last
  | some c =>
    cases isBase : BaseType.ofLetter? c with
    | none =>
      simp only [isBase] at last
      cases last
    | some base =>
      simp only [isBase] at last
      obtain ⟨rfl, rfl⟩ := pure_eq_ok.mp last
      rw [← BaseType.letter_of_ofLetter? isBase] at front
      exact ⟨trivial, front⟩

theorem takes_elementType : Takes elementType ElementType.IsValid ElementType.render := by
  intro before after t h
  obtain ⟨next, same, peeked, chosen⟩ := bind_eq_ok.mp h
  obtain ⟨rfl, -⟩ := head_of_peek peeked
  split at chosen
  · obtain ⟨name, read, isName, last⟩ := bind_eq_ok.mp chosen
    obtain ⟨rfl, rfl⟩ := pure_eq_ok.mp last
    exact takes_className isName
  · obtain ⟨base, read, isBase, last⟩ := bind_eq_ok.mp chosen
    obtain ⟨rfl, rfl⟩ := pure_eq_ok.mp last
    exact takes_baseType isBase

theorem takes_fieldType : Takes fieldType FieldType.IsValid FieldType.renderChars := by
  intro before after t h
  obtain ⟨dimensions, opened, isOpened, h⟩ := bind_eq_ok.mp h
  obtain ⟨element, read, isElement, last⟩ := bind_eq_ok.mp h
  obtain ⟨rfl, rfl⟩ := pure_eq_ok.mp last
  obtain ⟨valid, front⟩ := takes_elementType isElement
  refine ⟨valid, ?_⟩
  rw [rest_of_brackets isOpened, front, FieldType.renderChars, List.append_assoc]

/-- The parameters behind those already found, whatever is left of the budget. -/
theorem taken_parameters {budget : List Char} {found types : List FieldType}
    (h : parameters budget found before = .ok (types, after)) :
    ∃ more, types = found.reverse ++ more ∧ (∀ t ∈ more, t.IsValid) ∧
      before.rest = more.flatMap FieldType.renderChars ++ after.rest := by
  induction budget generalizing found before with
  | nil =>
    unfold parameters at h
    obtain ⟨next, same, peeked, step⟩ := bind_eq_ok.mp h
    obtain ⟨rfl, -⟩ := head_of_peek peeked
    split at step
    · obtain ⟨rfl, rfl⟩ := pure_eq_ok.mp step
      exact ⟨[], by simp, by simp, rfl⟩
    · cases step
    · cases step
  | cons c budget ih =>
    unfold parameters at h
    obtain ⟨next, same, peeked, step⟩ := bind_eq_ok.mp h
    obtain ⟨rfl, -⟩ := head_of_peek peeked
    split at step
    · obtain ⟨rfl, rfl⟩ := pure_eq_ok.mp step
      exact ⟨[], by simp, by simp, rfl⟩
    · cases step
    · obtain ⟨t, read, isType, rest⟩ := bind_eq_ok.mp step
      obtain ⟨valid, front⟩ := takes_fieldType isType
      obtain ⟨more, typesAre, others, left⟩ := ih rest
      refine ⟨t :: more, by simp [typesAre], List.forall_mem_cons.mpr ⟨valid, others⟩, ?_⟩
      rw [front, left, List.flatMap_cons, List.append_assoc]

theorem takes_methodType : Takes methodType MethodType.IsValid MethodType.renderChars := by
  intro before after m h
  obtain ⟨⟨⟩, first, opened, h⟩ := bind_eq_ok.mp h
  obtain ⟨cursor, same, got, h⟩ := bind_eq_ok.mp h
  obtain ⟨types, second, areTypes, h⟩ := bind_eq_ok.mp h
  obtain ⟨⟨⟩, third, closed, h⟩ := bind_eq_ok.mp h
  obtain ⟨next, fourth, peeked, chosen⟩ := bind_eq_ok.mp h
  obtain ⟨-, rfl⟩ := Prod.mk.inj (Except.ok.inj got)
  obtain ⟨rfl, head⟩ := head_of_peek peeked
  obtain ⟨more, rfl, valid, front⟩ := taken_parameters areTypes
  have whole : before.rest =
      '(' :: (types.flatMap FieldType.renderChars ++ ')' :: fourth.rest) := by
    rw [rest_of_expect opened, front, rest_of_expect closed]
  split at chosen
  · rename_i isVoid
    obtain ⟨letter, fifth, passed, last⟩ := bind_eq_ok.mp chosen
    obtain ⟨rfl, rfl⟩ := pure_eq_ok.mp last
    obtain ⟨isLetter, left⟩ := rest_of_bump passed
    rw [← isLetter, head, isVoid] at left
    refine ⟨⟨valid, nofun⟩, ?_⟩
    rw [whole, left]
    simp [MethodType.renderChars]
  · obtain ⟨t, fifth, isResult, last⟩ := bind_eq_ok.mp chosen
    obtain ⟨rfl, rfl⟩ := pure_eq_ok.mp last
    obtain ⟨validResult, left⟩ := takes_fieldType isResult
    refine ⟨⟨valid, fun other same => Option.some.inj same ▸ validResult⟩, ?_⟩
    rw [whole, left]
    simp [MethodType.renderChars]

end Taking

/-- A text is read as a value if the value is valid and the text is its own. -/
theorem parseAll_eq_ok_iff {α : Type} {scan : Scan α} {IsValid : α → Prop} {chars : α → List Char}
    (scans : ∀ {a}, IsValid a → Scans scan (chars a) a) (takes : Takes scan IsValid chars)
    {text : String} {a : α} :
    parseAll scan text = .ok a ↔ IsValid a ∧ String.ofList (chars a) = text := by
  constructor
  · intro h
    unfold parseAll at h
    split at h
    · cases h
    · rename_i value cursor read
      split at h
      · rename_i finished
        obtain rfl := Except.ok.inj h
        obtain ⟨valid, front⟩ := takes read
        rw [finished, List.append_nil] at front
        exact ⟨valid, by rw [← front, String.ofList_toList]⟩
      · cases h
  · rintro ⟨valid, rfl⟩
    obtain ⟨after, read⟩ := scans valid [] 0
    rw [List.append_nil] at read
    rw [parseAll, String.toList_ofList, read]

end Descriptor

theorem FieldType.parse_eq_ok_iff {text : String} {t : FieldType} :
    FieldType.parse text = .ok t ↔ t.IsValid ∧ t.render = text :=
  Descriptor.parseAll_eq_ok_iff Descriptor.scans_fieldType Descriptor.takes_fieldType

theorem MethodType.parse_eq_ok_iff {text : String} {m : MethodType} :
    MethodType.parse text = .ok m ↔ m.IsValid ∧ m.render = text :=
  Descriptor.parseAll_eq_ok_iff Descriptor.scans_methodType Descriptor.takes_methodType

/-- A type that is read from a text only has names that pass their check. -/
theorem MethodType.isValid_of_parse {text : String} {m : MethodType}
    (h : MethodType.parse text = .ok m) : m.IsValid :=
  (parse_eq_ok_iff.mp h).1

theorem MethodType.parse_render {m : MethodType} (valid : m.IsValid) :
    MethodType.parse m.render = .ok m :=
  parse_eq_ok_iff.mpr ⟨valid, rfl⟩

/-- Just the texts of types whose class names pass their check are read, each as the type that it is
the text of. -/
theorem Descriptor.parse_eq_ok_iff_render (text : String) :
    (∀ t, FieldType.parse text = .ok t ↔ t.IsValid ∧ t.render = text) ∧
      ∀ m, MethodType.parse text = .ok m ↔ m.IsValid ∧ m.render = text :=
  ⟨fun _ => FieldType.parse_eq_ok_iff, fun _ => MethodType.parse_eq_ok_iff⟩

example : MethodType.parse "([ILa/B;)V" = .ok ⟨[⟨.base .int, 1⟩, .object ⟨"a/B"⟩], none⟩ := by
  cbv

end JavaSnippet
