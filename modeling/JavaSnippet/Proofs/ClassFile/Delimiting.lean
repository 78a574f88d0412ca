import JavaSnippet.Proofs.ClassFile.RoundTrip
/-!
Class files end where their bytes say. Unless a reader runs out of input, it does the same with any
longer input, so of the bytes of a class file none can be left out at the end and none can be added.
-/
namespace JavaSnippet.ClassFile

variable {α β : Type}

namespace Input

/-- The input with more bytes at its end. -/
def extend (input : Input) (more : List UInt8) : Input := ⟨input.rest ++ more, input.offset⟩

/-- The offset at which the input ends. -/
def stop (input : Input) : Nat := input.offset + input.rest.length

end Input

/-- What is wrong is that the input ends too early. -/
def Malformation.IsTruncation : Malformation → Prop
  | .truncatedNumber _ | .truncatedBytes _ => True
  | _ => False

/-- The reader runs out of input, which it notices before the end or at it. -/
def RunsOut (read : Read α) (input : Input) : Prop :=
  ∃ place cause, read input = .error (.malformed place cause) ∧ cause.IsTruncation ∧
    place ≤ input.stop

/-- What a reader does with an input tells what it does with more bytes at the end. -/
inductive Foretells (read : Read α) (input : Input) (more : List UInt8) : Prop where
  | takes (a : α) (output : Input) (now : read input = .ok (a, output))
      (stop : output.stop = input.stop)
      (later : read (input.extend more) = .ok (a, output.extend more))
  | runsOut (short : RunsOut read input)
  | refuses (fault : Fault) (now : read input = .error fault)
      (later : read (input.extend more) = .error fault)

def Foresees (read : Read α) : Prop := ∀ input more, Foretells read input more

theorem RunsOut.bind {x : Read α} {input : Input} (h : RunsOut x input) (f : α → Read β) :
    RunsOut (x >>= f) input := by
  obtain ⟨place, cause, failed, truncation, within⟩ := h
  exact ⟨place, cause, by rw [StateExcept.bind_apply, failed], truncation, within⟩

theorem Foresees.bind {x : Read α} {f : α → Read β} (h : Foresees x) (g : ∀ a, Foresees (f a)) :
    Foresees (x >>= f) := by
  intro input more
  cases h input more with
  | takes a middle now stop later =>
    have first : (x >>= f) input = f a middle := by rw [StateExcept.bind_apply, now]
    have longer : (x >>= f) (input.extend more) = f a (middle.extend more) := by
      rw [StateExcept.bind_apply, later]
    cases g a middle more with
    | takes b output now' stop' later' =>
      exact .takes b output (first.trans now') (stop'.trans stop) (longer.trans later')
    | runsOut short =>
      obtain ⟨place, cause, failed, truncation, within⟩ := short
      exact .runsOut ⟨place, cause, first.trans failed, truncation, stop ▸ within⟩
    | refuses fault now' later' => exact .refuses fault (first.trans now') (longer.trans later')
  | runsOut short => exact .runsOut (short.bind f)
  | refuses fault now later =>
    refine .refuses fault ?_ ?_
    · rw [StateExcept.bind_apply, now]
    · rw [StateExcept.bind_apply, later]

theorem Foresees.pure (a : α) : Foresees (pure a) :=
  fun input _ => .takes a input rfl rfl rfl

theorem Foresees.map {x : Read α} (f : α → β) (h : Foresees x) :
    Foresees (do return f (← x)) :=
  h.bind fun a => Foresees.pure (f a)

theorem foresees_offset : Foresees Read.offset :=
  fun input _ => .takes input.offset input rfl rfl rfl

theorem foresees_refuse (cause : Malformation) : Foresees (Read.refuse cause : Read α) :=
  fun input _ => .refuses (.malformed input.offset cause) rfl rfl

theorem foresees_refuseAt (place : Nat) (cause : Malformation) :
    Foresees (Read.refuseAt place cause : Read α) :=
  fun _ _ => .refuses (.malformed place cause) rfl rfl

theorem split?_extend {n : Nat} {bytes front rest : List UInt8}
    (h : Bytes.split? n bytes = some (front, rest)) (more : List UInt8) :
    Bytes.split? n (bytes ++ more) = some (front, rest ++ more) := by
  obtain ⟨rfl, full⟩ := Bytes.eq_append_of_split? h
  rw [List.append_assoc]
  exact Bytes.split?_eq_some full

theorem stop_of_split? {n : Nat} {input : Input} {front rest : List UInt8}
    (h : Bytes.split? n input.rest = some (front, rest)) :
    Input.stop ⟨rest, input.offset + n⟩ = input.stop := by
  obtain ⟨whole, full⟩ := Bytes.eq_append_of_split? h
  simp only [Input.stop, whole, List.length_append]
  omega

theorem foresees_number (n : Nat) (form : String) : Foresees (Read.number n form) := by
  intro input more
  cases found : Bytes.split? n input.rest with
  | none =>
    refine .runsOut ⟨input.stop, .truncatedNumber form, ?_, trivial, Nat.le_refl _⟩
    simp only [Read.number, found, Input.stop]
  | some parts =>
    obtain ⟨front, rest⟩ := parts
    refine .takes (Bytes.toNat front) ⟨rest, input.offset + n⟩ ?_ (stop_of_split? found) ?_
    · simp only [Read.number, found]
    · simp only [Read.number, Input.extend, split?_extend found]

theorem foresees_bytes (n : Nat) : Foresees (Read.bytes n) := by
  intro input more
  cases found : Bytes.split? n input.rest with
  | none =>
    refine .runsOut ⟨input.offset, .truncatedBytes n, ?_, trivial, Nat.le_add_right _ _⟩
    simp only [Read.bytes, found]
  | some parts =>
    obtain ⟨front, rest⟩ := parts
    refine .takes front ⟨rest, input.offset + n⟩ ?_ (stop_of_split? found) ?_
    · simp only [Read.bytes, found]
    · simp only [Read.bytes, Input.extend, split?_extend found]

theorem foresees_u8 : Foresees Read.u8 := (foresees_number 1 "u1").map _

theorem foresees_u16 : Foresees Read.u16 := (foresees_number 2 "u2").map _

theorem foresees_two {f : UInt16 → UInt16 → α} :
    Foresees (do return f (← Read.u16) (← Read.u16)) :=
  foresees_u16.bind fun first => foresees_u16.map (f first)

theorem foresees_payload (start : Nat) (tag : UInt8) : Foresees (Read.payload start tag) := by
  unfold Read.payload
  split
  · refine foresees_u16.bind fun length => (foresees_bytes _).bind fun encoded => ?_
    split
    · exact Foresees.pure _
    · exact foresees_refuseAt _ _
  · exact ((foresees_number 4 "i4").map _).map _
  · exact ((foresees_number 4 "f4").map _).map _
  · exact ((foresees_number 8 "i8").map _).map _
  · exact ((foresees_number 8 "f8").map _).map _
  · exact foresees_u16.map _
  · exact foresees_u16.map _
  · exact foresees_two
  · exact foresees_two
  · exact foresees_two
  · exact foresees_two
  · exact foresees_u8.bind fun kind => foresees_u16.map _
  · exact foresees_u16.map _
  · exact foresees_two
  · exact foresees_two
  · exact foresees_u16.map _
  · exact foresees_u16.map _
  · exact foresees_refuseAt _ _

theorem foresees_constant : Foresees Read.constant :=
  foresees_offset.bind fun start => foresees_u8.bind fun tag => foresees_payload start tag

theorem foresees_constantsInto (slots : Nat) (t : ConstantTable) :
    Foresees (Read.constantsInto slots t) := by
  induction slots using Nat.strongRecOn generalizing t with
  | ind slots ih =>
    match slots with
    | 0 => exact Foresees.pure t
    | 1 =>
      rw [constantsInto_one]
      refine foresees_constant.bind fun c => ?_
      split
      · exact Foresees.pure _
      · exact foresees_refuse _
    | slots + 2 =>
      rw [constantsInto_two]
      refine foresees_constant.bind fun c => ?_
      split
      · exact ih (slots + 1) (by omega) _
      · exact ih slots (by omega) _

theorem foresees_constants : Foresees Read.constants := by
  refine foresees_u16.bind fun count => ?_
  split
  · exact foresees_refuse _
  · exact foresees_constantsInto _ _

theorem Foresees.times {item : Read α} (h : Foresees item) (n : Nat) (found : List α) :
    Foresees (Read.times item n found) := by
  induction n generalizing found with
  | zero => exact Foresees.pure _
  | succ n ih => exact h.bind fun a => ih (a :: found)

theorem Foresees.list {item : Read α} (h : Foresees item) : Foresees (Read.list item) :=
  foresees_u16.bind fun n => h.times n.toNat []

theorem foresees_flags {owner : FlagOwner} : Foresees (Read.flags : Read (Flags owner)) :=
  foresees_u16.map Flags.ofBits

theorem foresees_attributeInfo : Foresees Read.attributeInfo :=
  foresees_u16.bind fun name => (foresees_number 4 "u4").bind fun length =>
    (foresees_bytes length).map (Attribute.mk name)

theorem foresees_member {owner : FlagOwner} : Foresees (Read.member : Read (Member owner)) :=
  foresees_flags.bind fun flags => foresees_u16.bind fun name => foresees_u16.bind fun descriptor =>
    foresees_attributeInfo.list.map (Member.mk flags name descriptor)

/-- The reader takes its input to the end, and refuses it if bytes are left. -/
structure TakesAll (read : Read α) : Prop where
  short : ∀ {input missing result}, missing ≠ [] → read (input.extend missing) = .ok result →
    RunsOut read input
  long : ∀ {input more result}, more ≠ [] → read input = .ok result →
    read (input.extend more) = .error (.malformed input.stop .trailingBytes)

theorem takesAll_atEnd {f : Bool → Read α}
    (refused : ∀ input, f false input = .error (.malformed input.offset .trailingBytes)) :
    TakesAll (Read.atEnd >>= f) := by
  constructor
  · intro input missing result more done
    rw [Read.atEnd_step, List.isEmpty_eq_false_iff.mpr (by simp [Input.extend, more]), refused]
      at done
    cases done
  · intro input more result left done
    have ended : input.rest = [] := by
      by_cases ended : input.rest = []
      · exact ended
      · rw [Read.atEnd_step, List.isEmpty_eq_false_iff.mpr ended, refused] at done
        cases done
    rw [Read.atEnd_step, List.isEmpty_eq_false_iff.mpr (by simp [Input.extend, left]), refused]
    simp [Input.extend, Input.stop, ended]

theorem TakesAll.bind {x : Read α} {f : α → Read β} (h : Foresees x) (g : ∀ a, TakesAll (f a)) :
    TakesAll (x >>= f) := by
  constructor
  · intro input missing result more done
    cases h input missing with
    | takes a middle now stop later =>
      rw [StateExcept.bind_apply, later] at done
      obtain ⟨place, cause, failed, truncation, within⟩ := (g a).short more done
      refine ⟨place, cause, ?_, truncation, stop ▸ within⟩
      rw [StateExcept.bind_apply, now]
      exact failed
    | runsOut short => exact short.bind f
    | refuses fault now later =>
      rw [StateExcept.bind_apply, later] at done
      cases done
  · intro input more result left done
    cases h input more with
    | takes a middle now stop later =>
      rw [StateExcept.bind_apply, now] at done
      rw [StateExcept.bind_apply, later, ← stop]
      exact (g a).long left done
    | runsOut short =>
      obtain ⟨place, cause, failed, -, -⟩ := short.bind f
      rw [failed] at done
      cases done
    | refuses fault now later =>
      rw [StateExcept.bind_apply, now] at done
      cases done

theorem TakesAll.guard {p : Prop} [Decidable p] {x : Read Unit} {f : Unit → Read α}
    (h : Foresees x) (g : ∀ u, TakesAll (f u)) : TakesAll (if p then x >>= f else f ()) := by
  split
  · exact .bind h g
  · exact g ()

theorem takesAll_readClassFile : TakesAll readClassFile := by
  unfold readClassFile
  refine .bind (foresees_bytes 4) fun start => .guard (foresees_refuseAt _ _) fun _ => ?_
  refine .bind foresees_u16 fun minor => .bind foresees_u16 fun major => ?_
  refine .bind foresees_offset fun poolStart => .bind foresees_constants fun constants => ?_
  refine .bind foresees_offset fun poolEnd => .bind foresees_flags fun flags => ?_
  refine .bind foresees_u16 fun thisClass => .bind foresees_u16 fun superClass => ?_
  refine .bind foresees_u16.list fun interfaces => .bind foresees_member.list fun fields => ?_
  refine .bind foresees_member.list fun methods => ?_
  refine .bind foresees_attributeInfo.list fun attributes => ?_
  exact takesAll_atEnd fun input => rfl

/-- Of the bytes of a class file none can be left out at the end, since the reader runs out of input
then, and none can be added. -/
theorem decode_delimits {input : List UInt8} {c : ClassFile} (h : decode input = .ok c) :
    (∀ front missing, front ++ missing = input → missing ≠ [] →
      ∃ place cause, decode front = .error (.malformed place cause) ∧ cause.IsTruncation ∧
        place ≤ front.length) ∧
    ∀ more, more ≠ [] →
      decode (input ++ more) = .error (.malformed input.length .trailingBytes) := by
  obtain ⟨layout, read⟩ := decode_eq_ok.mp h
  obtain ⟨output, taken⟩ := Read.run_eq_ok.mp read
  constructor
  · rintro front missing rfl more
    have cut : readClassFile (Input.extend ⟨front, 0⟩ missing) = .ok ((c, layout), output) := taken
    obtain ⟨place, cause, failed, truncation, within⟩ := takesAll_readClassFile.short more cut
    refine ⟨place, cause, ?_, truncation, by simpa [Input.stop] using within⟩
    exact except_map_eq_error.mpr (except_map_eq_error.mpr failed)
  · intro more left
    have refused := takesAll_readClassFile.long left taken
    simp only [Input.extend, Input.stop, Nat.zero_add] at refused
    exact except_map_eq_error.mpr (except_map_eq_error.mpr refused)

theorem decode_delimits_sample :
    decode sampleClass.encode = .ok sampleClass ∧
      (∃ place cause, decode sampleClass.encode.dropLast = .error (.malformed place cause) ∧
        cause.IsTruncation ∧ place ≤ sampleClass.encode.dropLast.length) ∧
      decode (sampleClass.encode ++ [0]) =
        .error (.malformed sampleClass.encode.length .trailingBytes) := by
  have read : decode sampleClass.encode = .ok sampleClass :=
    (decode_encode_iff encodable_sampleClass.toRegular).mpr
      ⟨encodable_sampleClass.fits, Nat.lt_succ_of_le encodable_sampleClass.methodCount⟩
  have some : sampleClass.encode ≠ [] := List.cons_ne_nil _ _
  have ends := List.dropLast_concat_getLast some
  refine ⟨read, (decode_delimits read).1 _ _ ends ?_, (decode_delimits read).2 [0] ?_⟩
  · exact List.cons_ne_nil _ _
  · exact List.cons_ne_nil _ _

end JavaSnippet.ClassFile
