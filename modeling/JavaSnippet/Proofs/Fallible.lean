/-!
Programs that may fail. State and failure are put together in two ways: where the failure is
outermost, what was done before it stays done; where the state is, it is lost.
-/
namespace JavaSnippet

variable {ε σ α β : Type}

theorem except_bind_eq_ok {x : Except ε α} {f : α → Except ε β} {b : β} :
    (x >>= f) = .ok b ↔ ∃ a, x = .ok a ∧ f a = .ok b := by
  cases x with
  | error e => exact ⟨fun h => (by cases h), by rintro ⟨a, h, -⟩; cases h⟩
  | ok a => exact ⟨fun h => ⟨a, rfl, h⟩, by rintro ⟨a, h, g⟩; cases h; exact g⟩

theorem except_eq_ok_of_toOption {x : Except ε α} {a : α} (h : x.toOption = some a) :
    x = .ok a := by
  cases x with
  | error e => cases h
  | ok b => rw [Option.some.inj h]

theorem except_map_eq_ok {x : Except ε α} {f : α → β} {b : β} :
    x.map f = .ok b ↔ ∃ a, x = .ok a ∧ f a = b := by
  cases x with
  | error e => exact ⟨fun h => (by cases h), by rintro ⟨a, h, -⟩; cases h⟩
  | ok a => exact ⟨fun h => ⟨a, rfl, Except.ok.inj h⟩, by rintro ⟨a, h, rfl⟩; cases h; rfl⟩

theorem except_map_eq_error {x : Except ε α} {f : α → β} {e : ε} :
    x.map f = .error e ↔ x = .error e := by
  cases x with
  | error other =>
    exact ⟨fun h => congrArg Except.error (Except.error.inj h),
      fun h => congrArg Except.error (Except.error.inj h)⟩
  | ok a => exact ⟨fun h => (by cases h), fun h => (by cases h)⟩

theorem except_mapError_eq_ok {ε' : Type} {f : ε → ε'} {x : Except ε α} {a : α} :
    x.mapError f = .ok a ↔ x = .ok a := by
  cases x with
  | error e => exact ⟨fun h => (by cases h), fun h => (by cases h)⟩
  | ok b => exact ⟨fun h => Except.ok.inj h ▸ rfl, fun h => Except.ok.inj h ▸ rfl⟩

theorem except_mapError_eq_error {ε' : Type} {f : ε → ε'} {x : Except ε α} {e : ε'} :
    x.mapError f = .error e ↔ ∃ cause, x = .error cause ∧ e = f cause := by
  cases x with
  | error cause =>
    exact ⟨fun h => ⟨cause, rfl, (Except.error.inj h).symm⟩,
      by rintro ⟨cause, h, rfl⟩; cases h; rfl⟩
  | ok a => exact ⟨fun h => (by cases h), by rintro ⟨cause, h, -⟩; cases h⟩

/-- A failure is that of some element. -/
theorem except_mapM_error {f : α → Except ε β} {as : List α} {e : ε}
    (h : as.mapM f = .error e) : ∃ a ∈ as, f a = .error e := by
  induction as with
  | nil => cases h
  | cons a as ih =>
    rw [List.mapM_cons] at h
    cases first : f a with
    | error cause =>
      rw [first] at h
      obtain rfl : cause = e := Except.error.inj h
      exact ⟨a, List.mem_cons_self, first⟩
    | ok b =>
      rw [first] at h
      cases rest : as.mapM f with
      | error cause =>
        rw [rest] at h
        obtain rfl : cause = e := Except.error.inj h
        obtain ⟨c, member, failed⟩ := ih rest
        exact ⟨c, List.mem_cons_of_mem a member, failed⟩
      | ok others =>
        rw [rest] at h
        cases h

/-- All results are right, and there is one for each element. -/
theorem except_mapM_ok {f : α → Except ε β} {as : List α} {bs : List β}
    (h : as.mapM f = .ok bs) : as.map f = bs.map .ok := by
  induction as generalizing bs with
  | nil =>
    rw [List.mapM_nil] at h
    obtain rfl := Except.ok.inj h
    rfl
  | cons a as ih =>
    rw [List.mapM_cons] at h
    obtain ⟨b, first, rest⟩ := except_bind_eq_ok.mp h
    obtain ⟨others, second, last⟩ := except_bind_eq_ok.mp rest
    obtain rfl := Except.ok.inj last
    rw [List.map_cons, List.map_cons, first, ih second]

theorem except_mapM_of_map {f : α → Except ε β} {as : List α} {bs : List β}
    (h : as.map f = bs.map .ok) : as.mapM f = .ok bs := by
  induction as generalizing bs with
  | nil =>
    obtain rfl := List.map_eq_nil_iff.mp h.symm
    exact List.mapM_nil
  | cons a as ih =>
    obtain ⟨b, others, rfl, first, rest⟩ := List.map_eq_cons_iff.mp h.symm
    rw [List.mapM_cons, ← first, ih rest.symm]
    rfl

namespace ExceptState

theorem bind_apply (x : ExceptT ε (StateM σ) α) (f : α → ExceptT ε (StateM σ) β) (s : σ) :
    (x >>= f) s =
      match x s with
      | (.ok a, t) => f a t
      | (.error e, t) => (.error e, t) := by
  simp only [bind, ExceptT.bind, ExceptT.mk, StateT.bind, ExceptT.bindCont]
  cases x s with
  | mk result t => cases result <;> rfl

theorem bind_eq_ok {x : ExceptT ε (StateM σ) α} {f : α → ExceptT ε (StateM σ) β} {s u : σ}
    {b : β} : (x >>= f) s = (.ok b, u) ↔ ∃ a t, x s = (.ok a, t) ∧ f a t = (.ok b, u) := by
  rw [bind_apply]
  cases x s with
  | mk result t =>
    cases result with
    | error e => exact ⟨fun h => (by cases h), by rintro ⟨a, t, h, -⟩; cases h⟩
    | ok a => exact ⟨fun h => ⟨a, t, rfl, h⟩, by rintro ⟨a, t, h, g⟩; cases h; exact g⟩

/-- Whatever its result, the program takes each state to a related one. -/
def Moves (R : σ → σ → Prop) (x : ExceptT ε (StateM σ) α) : Prop := ∀ s, R s (x s).2

theorem Moves.bind {R : σ → σ → Prop} {x : ExceptT ε (StateM σ) α}
    {f : α → ExceptT ε (StateM σ) β} (first : Moves R x)
    (trans : ∀ {s t u}, R s t → R t u → R s u) (next : ∀ a, Moves R (f a)) :
    Moves R (x >>= f) := by
  intro s
  have step := first s
  rw [bind_apply]
  rcases made : x s with ⟨result, t⟩
  rw [made] at step
  cases result with
  | ok a => exact trans step (next a t)
  | error e => exact step

end ExceptState

namespace StateExcept

theorem bind_apply (x : StateT σ (Except ε) α) (f : α → StateT σ (Except ε) β) (s : σ) :
    (x >>= f) s =
      match x s with
      | .ok (a, t) => f a t
      | .error e => .error e := by
  simp only [bind, StateT.bind, Except.bind]
  cases x s <;> rfl

theorem bind_eq_ok {x : StateT σ (Except ε) α} {f : α → StateT σ (Except ε) β} {s u : σ} {b : β} :
    (x >>= f) s = .ok (b, u) ↔ ∃ a t, x s = .ok (a, t) ∧ f a t = .ok (b, u) := by
  rw [bind_apply]
  cases x s with
  | error e => simp
  | ok result =>
    exact ⟨fun h => ⟨result.1, result.2, rfl, h⟩, by rintro ⟨a, t, h, g⟩; cases h; exact g⟩

theorem pure_eq_ok {a b : α} {s t : σ} :
    (pure a : StateT σ (Except ε) α) s = .ok (b, t) ↔ a = b ∧ s = t := by
  constructor
  · intro h
    exact Prod.mk.inj (Except.ok.inj h)
  · rintro ⟨rfl, rfl⟩
    rfl

end StateExcept

end JavaSnippet
