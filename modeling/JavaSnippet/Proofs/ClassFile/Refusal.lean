import JavaSnippet.Proofs.ClassFile.Building
/-!
What a refused instruction leaves behind. One that cannot be reached or finds too little on the
stack leaves the body as it was. One that makes the code too long is added all the same, and since
code never shrinks, the code of a finished body is too long just if an instruction was refused for
that.
-/
namespace JavaSnippet.ClassFile

open ExceptState

theorem Instruction.encode_ne_nil (i : Instruction) : i.encode ≠ [] := by
  cases i with
  | intConst value =>
    simp only [encode, encodeIntConst]
    split
    · exact List.cons_ne_nil _ _
    · split <;> exact List.cons_ne_nil _ _
  | ldc index =>
    simp only [encode]
    split <;> exact List.cons_ne_nil _ _
  | load kind slot | store kind slot =>
    simp only [encode, encodeLocal]
    split
    · exact List.cons_ne_nil _ _
    · split <;> exact List.cons_ne_nil _ _
  | invoke kind method type => cases kind <;> exact List.cons_ne_nil _ _
  | _ => exact List.cons_ne_nil _ _

namespace MethodBody

variable {i : Instruction} {b d : MethodBody} {fault : Fault}

theorem size_lt_extend (b : MethodBody) (i : Instruction) :
    b.code.size < (b.extend i).code.size := by
  have longer := List.length_pos_iff.mpr i.encode_ne_nil
  rw [size_extend]
  omega

/-- Everything that a refused push can do. -/
theorem push_error (h : push i b = (.error fault, d)) :
    fault = .unreachable i b.code.size ∧ b.reachable = false ∧ d = b ∨
      fault = .stackUnderflow i b.code.size ∧ b.depth < i.stackEffect.1 ∧ d = b ∨
      fault = .codeOverflow i b.code.size ∧ 65535 < d.code.size ∧ d = b.extend i := by
  unfold push at h
  simp only at h
  split at h
  · rename_i unreached
    obtain ⟨same, rfl⟩ := Prod.mk.inj h
    exact .inl ⟨(Except.error.inj same).symm, by simpa using unreached, rfl⟩
  split at h
  · rename_i missing
    obtain ⟨same, rfl⟩ := Prod.mk.inj h
    exact .inr (.inl ⟨(Except.error.inj same).symm, missing, rfl⟩)
  split at h
  · rename_i long
    obtain ⟨same, rfl⟩ := Prod.mk.inj h
    exact .inr (.inr ⟨(Except.error.inj same).symm, long, rfl⟩)
  split at h <;> cases h

/-- The step makes code that was not too long too long just if it is refused for that. -/
def Watches {α : Type} (x : Build α) : Prop :=
  ∀ b : MethodBody, (x b).2.code.size ≤ 65535 ↔
    b.code.size ≤ 65535 ∧ ∀ fault, (x b).1 = .error fault → ¬fault.TooLong

variable {α β : Type}

theorem Watches.bind {x : Build α} {f : α → Build β} (first : Watches x)
    (next : ∀ a, Watches (f a)) : Watches (x >>= f) := by
  intro b
  have step := first b
  rw [bind_apply]
  rcases made : x b with ⟨result, c⟩
  rw [made] at step
  cases result with
  | ok a =>
    have before : c.code.size ≤ 65535 ↔ b.code.size ≤ 65535 :=
      step.trans (and_iff_left fun fault none => by cases none)
    rw [next a c, before]
  | error fault => simpa using step

theorem ToPool.watches {x : Build α} (h : ToPool x) : Watches x := by
  intro b
  have code : (x b).2.code = b.code := by rw [(h.only b).rest]
  rw [code]
  exact (and_iff_left (h.short b)).symm

theorem watches_freshLocal (type : FieldType) : Watches (freshLocal type) := by
  intro b
  unfold freshLocal
  split
  · simp
  · simp [Fault.TooLong]

theorem watches_push (i : Instruction) : Watches (push i) := by
  intro b
  rcases pushed : push i b with ⟨result, d⟩
  cases result with
  | ok done =>
    obtain ⟨-, -, short, rfl⟩ := push_ok pushed
    have size : (if i.isTerminal then { b.extend i with reachable := false, depth := 0 }
        else b.extend i).code.size = (b.extend i).code.size := by
      split <;> rfl
    have before := Nat.le_trans (Nat.le_of_lt (size_lt_extend b i)) short
    simp [size, short, before]
  | error fault =>
    rcases push_error pushed with ⟨rfl, -, rfl⟩ | ⟨rfl, -, rfl⟩ | ⟨rfl, long, rfl⟩
    · simp [Fault.TooLong]
    · simp [Fault.TooLong]
    · -- The bytes are there already when their number is looked at.
      simp [Fault.TooLong, long]

theorem Action.watches_run (action : Action) : Watches action.run := by
  cases action with
  | emit e =>
    rw [Action.run, e.build_eq]
    exact (e.toPool_choose.watches.bind watches_push).bind fun _ => (toPool_pure _).watches
  | freshLocal type => exact (watches_freshLocal type).bind fun _ => (toPool_pure _).watches
  | ask query => exact ((toPool_query query).bind fun _ => toPool_pure _).watches

/-- Code that is too long once stays so, whatever comes after. -/
theorem attempt_short_iff (actions : List Action) (b : MethodBody) :
    (attempt b actions).code.size ≤ 65535 ↔
      b.code.size ≤ 65535 ∧ ∀ fault ∈ faults actions b, ¬fault.TooLong := by
  induction actions generalizing b with
  | nil => simp [attempt, faults]
  | cons action actions ih =>
    have step := action.watches_run b
    have rest := ih (action.run b).2
    rw [attempt, List.foldl_cons, ← attempt, rest, step, faults]
    rcases action.run b with ⟨result, d⟩
    cases result with
    | ok locals => simp
    | error fault => simp [and_assoc]

/-- What is true of a refused instruction in any state that building can reach. It leaves the locals
and the reachability alone, and it leaves the whole body as it was just if it is not refused for the
length of the code. Then it is added, and so the code of a finished body is short enough just if no
instruction was refused for that. -/
theorem finish_short_iff (pool : Pool) (slots : Nat) (actions : List Action) :
    let b := attempt (start pool slots) actions
    (∀ i fault d, push i b = (.error fault, d) →
      (fault = .unreachable i b.code.size ∨ fault = .stackUnderflow i b.code.size ∨
        fault = .codeOverflow i b.code.size) ∧
      d = { b with code := d.code, depth := d.depth, maxDepth := d.maxDepth } ∧
      (d = b ↔ ¬fault.TooLong) ∧ (d = b.extend i ↔ fault.TooLong)) ∧
    ∀ a d, finish b = (.ok a, d) → ∃ code : Code, a.info = code.encode ∧
      code.code = b.code.toList ∧
      (code.code.length ≤ 65535 ↔
        ∀ fault ∈ faults actions (start pool slots), ¬fault.TooLong) := by
  intro b
  constructor
  · intro i fault d refused
    have grown : b ≠ b.extend i := fun same =>
      Nat.ne_of_lt (size_lt_extend b i) (congrArg (·.code.size) same)
    rcases push_error refused with ⟨rfl, -, rfl⟩ | ⟨rfl, -, rfl⟩ | ⟨rfl, -, rfl⟩
    · simp [Fault.TooLong, grown]
    · simp [Fault.TooLong, grown]
    · refine ⟨.inr (.inr rfl), rfl, ?_⟩
      simp [Fault.TooLong, grown.symm]
  · intro a d finished
    obtain ⟨-, -, info⟩ := finish_written finished
    have short := attempt_short_iff actions (start pool slots)
    exact ⟨_, info, rfl, short.trans (and_iff_right (Nat.zero_le _))⟩

theorem attempt_append (b : MethodBody) (front back : List Action) :
    attempt b (front ++ back) = attempt (attempt b front) back := List.foldl_append

theorem faults_append (front back : List Action) (b : MethodBody) :
    faults (front ++ back) b = faults front b ++ faults back (attempt b front) := by
  induction front generalizing b with
  | nil => rfl
  | cons action front ih =>
    rw [List.cons_append, faults, faults, attempt, List.foldl_cons, ← attempt]
    rcases action.run b with ⟨result, d⟩
    cases result with
    | ok locals => exact ih d
    | error fault => exact congrArg (List.cons fault) (ih d)

/-- Three bytes that do nothing to the stack. -/
def idle : Instruction := .invoke .static 1 ⟨[], none⟩

theorem size_idle (b : MethodBody) : (b.extend idle).code.size = b.code.size + 3 :=
  size_extend b idle

theorem run_idle (reached : b.reachable = true) (room : b.code.size + 3 ≤ 65535) :
    (Action.emit (.push idle)).run b = (.ok [], b.extend idle) := by
  have added : push idle b = (.ok (), b.extend idle) :=
    push_of_room reached (Nat.zero_le _) room rfl
  rw [Action.run, Emission.build, bind_apply, added]
  rfl

theorem run_idle_refused (reached : b.reachable = true) (full : 65535 < b.code.size + 3) :
    (Action.emit (.push idle)).run b =
      (.error (.codeOverflow idle b.code.size), b.extend idle) := by
  have long : 65535 < (b.extend idle).code.size := by
    rw [size_idle]
    exact full
  have refused : push idle b = (.error (.codeOverflow idle b.code.size), b.extend idle) := by
    simp only [push, reached, long]
    rfl
  rw [Action.run, Emission.build, bind_apply, refused]

theorem attempt_idle {n : Nat} (reached : b.reachable = true) (empty : b.depth = 0)
    (room : b.code.size + 3 * n ≤ 65535) :
    ∃ code, attempt b (List.replicate n (.emit (.push idle))) = { b with code } ∧
      code.size = b.code.size + 3 * n := by
  induction n generalizing b with
  | zero => exact ⟨b.code, rfl, rfl⟩
  | succ n ih =>
    have size := size_idle b
    have once : b.extend idle = { b with code := (b.extend idle).code } := by
      simp [extend, idle, Instruction.stackEffect, MethodType.resultSlots, empty]
    obtain ⟨code, rest, counted⟩ := ih (b := b.extend idle) reached (by rw [once]; exact empty)
      (by omega)
    refine ⟨code, ?_, by omega⟩
    rw [List.replicate_succ, attempt, List.foldl_cons, run_idle reached (by omega), ← attempt, rest,
      once]

/-- There is room for all of these instructions but the last. -/
def brimming : List Action :=
  List.replicate 21845 (.emit (.push idle)) ++ [.emit (.push idle)]

theorem finish_short_iff_brimming :
    ∃ a d code, finish (attempt (start .empty 0) brimming) = (.ok a, d) ∧
      a.info = Code.encode code ∧ 65535 < code.code.length := by
  obtain ⟨code, filled, counted⟩ :=
    attempt_idle (n := 21845) (b := start .empty 0) rfl rfl (by decide)
  have full : 65535 < code.size + 3 := by rw [counted]; decide
  have last := run_idle_refused (b := { start .empty 0 with code }) rfl full
  have left : attempt (start .empty 0) brimming =
      MethodBody.extend { start .empty 0 with code } idle := by
    rw [brimming, attempt_append, filled]
    exact congrArg (·.2) last
  have refused : Fault.codeOverflow idle code.size ∈ faults brimming (start .empty 0) := by
    rw [brimming, faults_append, filled, faults, last]
    exact List.mem_append_right _ List.mem_cons_self
  obtain ⟨a, d, finished, -, -⟩ := finish_total
    (b := MethodBody.extend { start .empty 0 with code } idle) Pool.valid_empty
    (show 1 + 1 < 65536 by decide) (show 0 < 65536 by decide) (show 0 < 65536 by decide)
  rw [← left] at finished
  obtain ⟨written, info, -, short⟩ := (finish_short_iff .empty 0 brimming).2 a d finished
  refine ⟨a, d, written, finished, info, Nat.lt_of_not_le fun fits => ?_⟩
  exact short.mp fits _ refused ⟨_, _, rfl⟩

end MethodBody

end JavaSnippet.ClassFile
