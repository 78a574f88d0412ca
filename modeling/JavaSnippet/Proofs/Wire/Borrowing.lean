import JavaSnippet.Proofs.Wire.Exchange
/-!
Objects that a session keeps from being collected for its own use. These are the exceptions that it
describes and the names that it hands to a loader, and each is let go before the operation is over.
-/
namespace JavaSnippet.Wire

open Target

/-- Whether the request keeps an object from being collected or lets it go. -/
def Request.isOfCollection {α : Type} : Request α → Bool
  | .disableCollection _ | .enableCollection _ => true
  | _ => false

namespace Asked

/-- The object that is to be kept from being collected. -/
def kept? : Asked → Option UInt64
  | ⟨.disableCollection id, _⟩ => some id
  | _ => none

/-- The object that may be collected again. -/
def freed? : Asked → Option UInt64
  | ⟨.enableCollection id, _⟩ => some id
  | _ => none

/-- The object that the target lends to the session: a string it made, or an exception thrown by a
call. -/
def lent? : Asked → Option UInt64
  | ⟨.createString _, .ok id⟩ => some id
  | ⟨.invokeStatic _ _, .ok outcome⟩ | ⟨.invokeInstance _ _ _, .ok outcome⟩ =>
    outcome.exception.map (·.id)
  | ⟨.newInstance _ _, .ok outcome⟩ => outcome.exception.map (·.id)
  | _ => none

/-- The request is about neither. -/
structure IsNeutral (a : Asked) : Prop where
  keepsNone : a.kept? = none
  freesNone : a.freed? = none

/-- A request other than those that keep an object and let it go is about neither. -/
theorem isNeutral {α : Type} {request : Request α} (other : request.isOfCollection = false)
    (result : Except Fault α) : IsNeutral ⟨request, result⟩ := by
  cases request with
  | disableCollection _ | enableCollection _ => cases other
  | _ => exact ⟨rfl, rfl⟩

end Asked

/-- Requests that neither keep objects from being collected nor let them go. -/
def Neutral (log : List Asked) : Prop := ∀ a ∈ log, a.IsNeutral

def lents (log : List Asked) : List UInt64 := log.filterMap Asked.lent?

/-- Requests in which objects are kept for a while only. Such an object was lent in an earlier
request, or is among those given, and it is let go unless the target refused to keep it. -/
inductive Borrows : List UInt64 → List Asked → Prop where
  | done {lent : List UInt64} : Borrows lent []
  | other {lent : List UInt64} {a : Asked} {log : List Asked} (neutral : a.IsNeutral)
      (rest : Borrows (a.lent?.toList ++ lent) log) : Borrows lent (a :: log)
  | refused {lent : List UInt64} {id : UInt64} {fault : Fault} {log : List Asked}
      (borrowed : id ∈ lent) (rest : Borrows lent log) :
      Borrows lent (⟨.disableCollection id, .error fault⟩ :: log)
  | held {lent : List UInt64} {id : UInt64} {kept freed : Except Fault Unit}
      {inner log : List Asked} (borrowed : id ∈ lent) (neutral : Neutral inner)
      (rest : Borrows (lents inner ++ lent) log) :
      Borrows lent
        (⟨.disableCollection id, kept⟩ :: (inner ++ ⟨.enableCollection id, freed⟩ :: log))

theorem neutral_nil : Neutral [] := fun _ h => nomatch h

theorem neutral_append {front back : List Asked} :
    Neutral (front ++ back) ↔ Neutral front ∧ Neutral back :=
  List.forall_mem_append

theorem neutral_singleton {a : Asked} : Neutral [a] ↔ a.IsNeutral :=
  List.forall_mem_singleton

@[simp] theorem lents_append (front back : List Asked) :
    lents (front ++ back) = lents front ++ lents back :=
  List.filterMap_append

@[simp] theorem lents_cons (a : Asked) (log : List Asked) :
    lents (a :: log) = a.lent?.toList ++ lents log := by
  unfold lents
  rw [List.filterMap_cons]
  cases a.lent? <;> rfl

@[simp] theorem lents_held (id : UInt64) (kept freed : Except Fault Unit)
    (inner log : List Asked) :
    lents (⟨.disableCollection id, kept⟩ :: (inner ++ ⟨.enableCollection id, freed⟩ :: log)) =
      lents inner ++ lents log := by
  rw [lents_cons, lents_append, lents_cons]
  rfl

namespace Borrows

theorem weaken {lent more : List UInt64} {log : List Asked} (h : Borrows lent log)
    (sub : ∀ id ∈ lent, id ∈ more) : Borrows more log := by
  induction h generalizing more with
  | done => exact done
  | other neutral _ ih =>
    refine other neutral (ih fun id member => ?_)
    exact List.mem_append.mpr ((List.mem_append.mp member).imp_right (sub id))
  | refused borrowed _ ih => exact refused (sub _ borrowed) (ih sub)
  | held borrowed neutral _ ih =>
    refine held (sub _ borrowed) neutral (ih fun id member => ?_)
    exact List.mem_append.mpr ((List.mem_append.mp member).imp_right (sub id))

theorem of_neutral {lent : List UInt64} {log : List Asked} (h : Neutral log) :
    Borrows lent log := by
  induction log generalizing lent with
  | nil => exact done
  | cons a log ih =>
    obtain ⟨first, rest⟩ := List.forall_mem_cons.mp h
    exact other first (ih rest)

theorem append {lent : List UInt64} {front back : List Asked} (first : Borrows lent front)
    (next : Borrows (lents front ++ lent) back) : Borrows lent (front ++ back) := by
  induction first with
  | done => exact next
  | other neutral _ ih =>
    refine other neutral (ih (next.weaken fun id member => ?_))
    simpa only [lents_cons, List.mem_append, or_assoc, or_left_comm] using member
  | refused borrowed _ ih => exact refused borrowed (ih next)
  | held borrowed neutral _ ih =>
    rw [List.cons_append, List.append_assoc]
    refine held borrowed neutral (ih (next.weaken fun id member => ?_))
    simpa only [lents_held, List.mem_append, or_assoc, or_left_comm] using member

/-- An object is let go only after it was lent. -/
theorem lent_of_freed {lent : List UInt64} {log : List Asked} {id : UInt64}
    (h : Borrows lent log) (freed : ∃ a ∈ log, a.freed? = some id) :
    ∃ before freed after, log = before ++ ⟨.enableCollection id, freed⟩ :: after ∧
      id ∈ lents before ++ lent := by
  induction h with
  | done =>
    obtain ⟨a, member, -⟩ := freed
    cases member
  | @other lent a log neutral _ ih =>
    obtain ⟨b, member, same⟩ := freed
    rcases List.mem_cons.mp member with rfl | later
    · rw [neutral.freesNone] at same
      cases same
    · obtain ⟨before, freed, after, rfl, given⟩ := ih ⟨b, later, same⟩
      refine ⟨a :: before, freed, after, rfl, ?_⟩
      simpa only [lents_cons, List.mem_append, or_assoc, or_left_comm] using given
  | @refused lent kept fault log _ _ ih =>
    obtain ⟨b, member, same⟩ := freed
    rcases List.mem_cons.mp member with rfl | later
    · cases same
    · obtain ⟨before, freed, after, rfl, given⟩ := ih ⟨b, later, same⟩
      exact ⟨⟨.disableCollection kept, .error fault⟩ :: before, freed, after, rfl, given⟩
  | @held lent own kept let_go inner log borrowed neutral _ ih =>
    obtain ⟨b, member, same⟩ := freed
    rcases List.mem_cons.mp member with rfl | later
    · cases same
    rcases List.mem_append.mp later with inside | rest
    · rw [(neutral b inside).freesNone] at same
      cases same
    rcases List.mem_cons.mp rest with rfl | rest
    · obtain rfl : own = id := Option.some.inj same
      exact ⟨⟨.disableCollection own, kept⟩ :: inner, let_go, log, rfl,
        List.mem_append_right _ borrowed⟩
    · obtain ⟨before, freed, after, rfl, given⟩ := ih ⟨b, rest, same⟩
      refine ⟨⟨.disableCollection own, kept⟩ ::
        (inner ++ ⟨.enableCollection own, let_go⟩ :: before), freed, after, by simp, ?_⟩
      simpa only [lents_held, List.mem_append, or_assoc, or_left_comm] using given

end Borrows

end JavaSnippet.Wire
