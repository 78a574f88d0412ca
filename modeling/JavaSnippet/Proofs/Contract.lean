import JavaSnippet.Proofs.Fallible
/-!
Contracts of programs that change a state and may fail. A contract says what holds of the state
afterwards, for a result and for a fault, and a program in steps meets what its steps meet. Where
a program leaves a trail of events, the contract is about the events that it adds.
-/
namespace JavaSnippet

universe u

variable {ε σ τ α β : Type}

/-- From a state that `pre` holds of, the program ends with `post` of its result and the state it
leaves, or with `fail` of its fault and that state. -/
def Meets (pre : σ → Prop) (x : ExceptT ε (StateM σ) α) (post : α → σ → Prop)
    (fail : ε → σ → Prop) : Prop :=
  ∀ s, pre s →
    match x s with
    | (.ok a, t) => post a t
    | (.error e, t) => fail e t

namespace Meets

variable {pre : σ → Prop} {x : ExceptT ε (StateM σ) α} {post : α → σ → Prop}
  {fail : ε → σ → Prop}

theorem pure {a : α} (h : ∀ s, pre s → post a s) :
    Meets pre (Pure.pure a : ExceptT ε (StateM σ) α) post fail :=
  h

theorem raise {e : ε} (h : ∀ s, pre s → fail e s) :
    Meets pre (throw e : ExceptT ε (StateM σ) α) post fail :=
  h

theorem bind {f : α → ExceptT ε (StateM σ) β} {last : β → σ → Prop} (first : Meets pre x post fail)
    (next : ∀ a, Meets (post a) (f a) last fail) : Meets pre (x >>= f) last fail := by
  intro s holds
  have step := first s holds
  rw [ExceptState.bind_apply]
  cases made : x s with
  | mk result t =>
    rw [made] at step
    cases result with
    | ok a => exact next a t step
    | error e => exact step

theorem mono {weak : σ → Prop} {strong : α → σ → Prop} {worse : ε → σ → Prop}
    (h : Meets weak x strong worse) (before : ∀ s, pre s → weak s)
    (after : ∀ a s, strong a s → post a s) (failed : ∀ e s, worse e s → fail e s) :
    Meets pre x post fail := by
  intro s holds
  have step := h s (before s holds)
  cases made : x s with
  | mk result t =>
    rw [made] at step
    cases result with
    | ok a => exact after a t step
    | error e => exact failed e t step

theorem and {pre' : σ → Prop} {post' : α → σ → Prop} {fail' : ε → σ → Prop}
    (left : Meets pre x post fail) (right : Meets pre' x post' fail') :
    Meets (fun s => pre s ∧ pre' s) x (fun a s => post a s ∧ post' a s)
      (fun e s => fail e s ∧ fail' e s) := by
  rintro s ⟨first, second⟩
  have one := left s first
  have other := right s second
  cases made : x s with
  | mk result t =>
    rw [made] at one other
    cases result with
    | ok a => exact ⟨one, other⟩
    | error e => exact ⟨one, other⟩

end Meets

/-- How one state leads to another by events, with none from a state to itself. -/
structure Trail (σ : Type) (γ : Type u) where
  leads : σ → List γ → σ → Prop
  rest : ∀ s, leads s [] s
  follow : ∀ {s t u front back}, leads s front t → leads t back u → leads s (front ++ back) u

/-- The events are what is appended to what `seen` shows of a state. What `frame` shows of it stays
as it is. -/
def Trail.appending {φ : Type} {γ : Type u} (frame : σ → φ) (seen : σ → List γ) : Trail σ γ where
  leads s new t := frame t = frame s ∧ seen t = seen s ++ new
  rest _ := ⟨rfl, (List.append_nil _).symm⟩
  follow := fun ⟨kept, noted⟩ ⟨still, more⟩ =>
    ⟨still.trans kept, by rw [more, noted, List.append_assoc]⟩

/-- The program leads along the trail by events that are related to its result by `post`, or to its
fault by `fail`. -/
structure Adds {γ : Type u} (trail : Trail σ γ) (x : ExceptT ε (StateM σ) α)
    (post : α → List γ → Prop) (fail : ε → List γ → Prop) : Prop where
  run : ∀ s, Meets (· = s) x (fun a t => ∃ new, trail.leads s new t ∧ post a new)
    (fun e t => ∃ new, trail.leads s new t ∧ fail e new)

namespace Adds

variable {γ : Type u} {trail : Trail σ γ} {x : ExceptT ε (StateM σ) α}
  {post : α → List γ → Prop} {fail : ε → List γ → Prop}

theorem pure {a : α} (h : post a []) :
    Adds trail (Pure.pure a : ExceptT ε (StateM σ) α) post fail :=
  ⟨fun _ => Meets.pure fun t same => same ▸ ⟨[], trail.rest t, h⟩⟩

theorem raise {e : ε} (h : fail e []) :
    Adds trail (throw e : ExceptT ε (StateM σ) α) post fail :=
  ⟨fun _ => Meets.raise fun t same => same ▸ ⟨[], trail.rest t, h⟩⟩

theorem mono {strong : α → List γ → Prop} {worse : ε → List γ → Prop}
    (h : Adds trail x strong worse) (after : ∀ a new, strong a new → post a new)
    (failed : ∀ e new, worse e new → fail e new) : Adds trail x post fail :=
  ⟨fun s => (h.run s).mono (fun _ same => same)
    (fun a _ ⟨new, added, holds⟩ => ⟨new, added, after a new holds⟩)
    fun e _ ⟨new, added, holds⟩ => ⟨new, added, failed e new holds⟩⟩

theorem meets {pre : σ → Prop} {after : α → σ → Prop} {failed : ε → σ → Prop}
    (h : Adds trail x post fail)
    (ends : ∀ s t a new, pre s → trail.leads s new t → post a new → after a t)
    (breaks : ∀ s t e new, pre s → trail.leads s new t → fail e new → failed e t) :
    Meets pre x after failed := by
  intro s holds
  exact (h.run s).mono (fun _ same => same)
    (fun a t ⟨new, added, made⟩ => ends s t a new holds added made)
    (fun e t ⟨new, added, made⟩ => breaks s t e new holds added made) s rfl

theorem bind {f : α → ExceptT ε (StateM σ) β} {more : α → β → List γ → Prop}
    {worse : α → ε → List γ → Prop} {last : β → List γ → Prop} {failed : ε → List γ → Prop}
    (first : Adds trail x post fail) (next : ∀ a, Adds trail (f a) (more a) (worse a))
    (ends : ∀ a b front back, post a front → more a b back → last b (front ++ back))
    (stops : ∀ e front, fail e front → failed e front)
    (breaks : ∀ a e front back, post a front → worse a e back → failed e (front ++ back)) :
    Adds trail (x >>= f) last failed := by
  refine ⟨fun s => ?_⟩
  refine ((first.run s).mono (fun _ same => same) (fun _ _ h => h) fun e t ⟨new, added, h⟩ =>
    ⟨new, added, stops e new h⟩).bind fun a t ⟨front, added, holds⟩ => ?_
  exact ((next a).run t).mono (fun _ h => h)
    (fun b u ⟨back, appended, h⟩ =>
      ⟨front ++ back, trail.follow added appended, ends a b front back holds h⟩)
    (fun e u ⟨back, appended, h⟩ =>
      ⟨front ++ back, trail.follow added appended, breaks a e front back holds h⟩) t rfl

/-- Whatever the result, the program leads to the state it leaves. -/
theorem leads {holds : List γ → Prop} (h : Adds trail x (fun _ => holds) fun _ => holds) (s : σ) :
    ∃ new, trail.leads s new (x s).2 ∧ holds new := by
  have step := h.run s s rfl
  cases done : x s with
  | mk result t =>
    rw [done] at step
    cases result with
    | ok a => exact step
    | error e => exact step

/-- What is given for the result adds nothing. -/
theorem give (h : Adds trail x post fail) (g : α → β) :
    Adds trail (x >>= fun a => Pure.pure (g a)) (fun b new => ∃ a, b = g a ∧ post a new)
      fail := by
  have given : ∀ a, Adds trail (Pure.pure (g a) : ExceptT ε (StateM σ) β)
      (fun b new => b = g a ∧ new = []) fun _ _ => False := fun a => Adds.pure ⟨rfl, rfl⟩
  refine h.bind given ?_ (fun _ _ failed => failed) (fun _ _ _ _ _ never => never.elim)
  rintro a b new _ made ⟨rfl, rfl⟩
  exact ⟨a, rfl, (List.append_nil new).symm ▸ made⟩

end Adds

/-- The first program does on the part of its state that `view` shows what the second does on a
state of that form alone. -/
def Mirrors (view : σ → τ) (x : ExceptT ε (StateM σ) α) (y : ExceptT ε (StateM τ) α) : Prop :=
  ∀ s, y (view s) = ((x s).1, view (x s).2)

namespace Mirrors

variable {view : σ → τ} {x : ExceptT ε (StateM σ) α} {y : ExceptT ε (StateM τ) α}

theorem pure (a : α) :
    Mirrors view (Pure.pure a : ExceptT ε (StateM σ) α) (Pure.pure a) :=
  fun _ => rfl

theorem raise (e : ε) :
    Mirrors view (throw e : ExceptT ε (StateM σ) α) (throw e) :=
  fun _ => rfl

theorem bind {f : α → ExceptT ε (StateM σ) β} {g : α → ExceptT ε (StateM τ) β}
    (first : Mirrors view x y) (next : ∀ a, Mirrors view (f a) (g a)) :
    Mirrors view (x >>= f) (y >>= g) := by
  intro s
  rw [ExceptState.bind_apply, ExceptState.bind_apply, first s]
  cases x s with
  | mk result t =>
    cases result with
    | ok a => exact next a t
    | error e => rfl

end Mirrors

end JavaSnippet
