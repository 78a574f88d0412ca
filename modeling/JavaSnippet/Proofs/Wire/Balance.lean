import JavaSnippet.Proofs.Wire.Operations
/-!
Temporary pins. What the target keeps from being collected for the sake of one operation may be
collected again when the operation is over, however that ends.
-/
namespace JavaSnippet.Wire

open Target

/-- A task that is not about pins lets go what it borrows. -/
theorem Task.borrows {task : Task} (other : task.isOfPins = false) (s : Session) :
    ∃ log, s.connection.Exchanges log (task.run s).connection ∧ Borrows [] log := by
  have leads : ∀ {α : Type} {x : Session.Act α}, Session.Borrowing [] x →
      ∃ log, s.connection.Exchanges log (x s).2.connection ∧ Borrows [] log := fun h =>
    Adds.leads (Adds.mono h (fun _ _ made => made.1) fun _ _ made => made) s
  cases task with
  | perform operation => exact leads (Session.borrowing_perform operation other)
  | render value => exact leads (Session.borrowing_render value)

/-- Every object that the target agrees to keep is let go later, and nothing is let go that was not
to be kept before. -/
structure Balanced (log : List Asked) : Prop where
  released : ∀ front id back, log = front ++ ⟨.disableCollection id, .ok ()⟩ :: back →
    ∃ freed, ⟨.enableCollection id, freed⟩ ∈ back
  acquired : ∀ front id freed back, log = front ++ ⟨.enableCollection id, freed⟩ :: back →
    ∃ kept, ⟨.disableCollection id, kept⟩ ∈ front

/-- Behind neutral requests and one more, any other request that is not neutral comes later. -/
theorem Neutral.split {inner log front back : List Asked} {a b : Asked} (neutral : Neutral inner)
    (marked : ¬ a.IsNeutral) (split : inner ++ b :: log = front ++ a :: back) :
    (a = b ∧ front = inner ∧ back = log) ∨
      ∃ later, front = inner ++ b :: later ∧ log = later ++ a :: back := by
  rcases List.append_eq_append_iff.mp split with ⟨more, rfl, rest⟩ | ⟨more, rfl, rest⟩
  · cases more with
    | nil =>
      obtain ⟨rfl, rfl⟩ := List.cons.inj rest
      exact .inl ⟨rfl, List.append_nil inner, rfl⟩
    | cons c later =>
      obtain ⟨rfl, rfl⟩ := List.cons.inj rest
      exact .inr ⟨later, rfl, rfl⟩
  · cases more with
    | nil =>
      obtain ⟨rfl, rfl⟩ := List.cons.inj rest
      exact .inl ⟨rfl, (List.append_nil front).symm, rfl⟩
    | cons c more =>
      obtain ⟨rfl, rfl⟩ := List.cons.inj rest
      exact absurd (neutral a (by simp)) marked

theorem Asked.not_isNeutral_disable (id : UInt64) (kept : Except Fault Unit) :
    ¬ IsNeutral ⟨.disableCollection id, kept⟩ :=
  fun neutral => nomatch neutral.keepsNone

theorem Asked.not_isNeutral_enable (id : UInt64) (freed : Except Fault Unit) :
    ¬ IsNeutral ⟨.enableCollection id, freed⟩ :=
  fun neutral => nomatch neutral.freesNone

namespace Borrows

variable {lent : List UInt64} {log front back : List Asked} {id : UInt64}

/-- What the target agrees to keep is let go later. -/
theorem released (h : Borrows lent log)
    (split : log = front ++ ⟨.disableCollection id, .ok ()⟩ :: back) :
    ∃ freed, ⟨.enableCollection id, freed⟩ ∈ back := by
  have marked := Asked.not_isNeutral_disable id (.ok ())
  induction h generalizing front with
  | done => simp at split
  | other neutral _ ih =>
    cases front with
    | nil => exact absurd ((List.cons.inj split).1 ▸ neutral) marked
    | cons _ front => exact ih (List.cons.inj split).2
  | refused _ _ ih =>
    cases front with
    | nil => cases (List.cons.inj split).1
    | cons _ front => exact ih (List.cons.inj split).2
  | @held _ own kept freed inner log _ neutral _ ih =>
    cases front with
    | nil =>
      obtain ⟨same, rfl⟩ := List.cons.inj split
      cases same
      exact ⟨freed, by simp⟩
    | cons _ front =>
      rcases neutral.split marked (List.cons.inj split).2 with ⟨same, -, -⟩ | ⟨later, -, rest⟩
      · cases same
      · exact ih rest

/-- What is let go was to be kept before. -/
theorem acquired {freed : Except Fault Unit} (h : Borrows lent log)
    (split : log = front ++ ⟨.enableCollection id, freed⟩ :: back) :
    ∃ kept, ⟨.disableCollection id, kept⟩ ∈ front := by
  have marked := Asked.not_isNeutral_enable id freed
  have further : ∀ {a : Asked} {front : List Asked},
      (∃ kept, ⟨.disableCollection id, kept⟩ ∈ front) →
        ∃ kept, (⟨.disableCollection id, kept⟩ : Asked) ∈ a :: front :=
    fun ⟨kept, member⟩ => ⟨kept, List.mem_cons_of_mem _ member⟩
  induction h generalizing front with
  | done => simp at split
  | other neutral _ ih =>
    cases front with
    | nil => exact absurd ((List.cons.inj split).1 ▸ neutral) marked
    | cons _ front => exact further (ih (List.cons.inj split).2)
  | refused _ _ ih =>
    cases front with
    | nil => cases (List.cons.inj split).1
    | cons _ front => exact further (ih (List.cons.inj split).2)
  | @held _ own kept freed inner log _ neutral _ ih =>
    cases front with
    | nil => cases (List.cons.inj split).1
    | cons _ front =>
      obtain ⟨rfl, tail⟩ := List.cons.inj split
      rcases neutral.split marked tail with ⟨same, -, -⟩ | ⟨later, rfl, rest⟩
      · cases same
        exact ⟨kept, List.mem_cons_self⟩
      · obtain ⟨kept, member⟩ := ih rest
        exact ⟨kept, by simp [member]⟩

end Borrows

end JavaSnippet.Wire
