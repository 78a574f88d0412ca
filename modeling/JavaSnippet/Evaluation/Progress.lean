import JavaSnippet.Evaluation.Fault
import JavaSnippet.Target.Suspension
/-!
The stages of an evaluation. A stage is entered only while the work is not cancelled, and whatever
fails leads to the last one.
-/
namespace JavaSnippet.Evaluation

open Target

inductive Stage where
  | idle | classLoaderReady | classesDefined | callResolved | completed | failed
  deriving DecidableEq, Repr, Inhabited

def Stage.name : Stage → String
  | idle => "Idle"
  | classLoaderReady => "ClassLoaderReady"
  | classesDefined => "ClassesDefined"
  | callResolved => "CallResolved"
  | completed => "Completed"
  | failed => "Failed"

/-- How far an evaluation has come. -/
structure Progress (σ : Type) where
  /-- The stages entered, in order. -/
  stages : List Stage
  suspension : Suspension σ

/-- Steps of an evaluation. What was done before a fault stays done. -/
abbrev Work (σ α : Type) := ExceptT Fault (StateM (Progress σ)) α

namespace Work

variable {σ α : Type}

/-- Works on the target. The faults of the target become faults of the evaluation. -/
def onTarget (classify : Target.Fault → Fault) (act : Suspension.Act σ α) : Work σ α :=
  fun p =>
    let (result, suspension) := act p.suspension
    (result.mapError classify, { p with suspension })

/-- A step that does not touch the target. -/
def ofExcept (result : Except Fault α) : Work σ α :=
  fun p => (result, p)

def checkActive : Work σ Unit :=
  fun p => (if p.suspension.cancelled then .error .cancelled else .ok (), p)

/-- Enters the next stage unless the work is cancelled. -/
def enter (stage : Stage) : Work σ Unit := do
  checkActive
  modify fun p => { p with stages := p.stages ++ [stage] }

end Work

/-- The outcome of an evaluation. -/
structure Outcome where
  result : Except Fault Value
  /-- The stages entered, in order. -/
  stages : List Stage

/-- Runs an evaluation from the first stage to one of the last two. -/
def Work.run {σ : Type} (work : Work σ Value) (suspension : Suspension σ) :
    Outcome × Suspension σ :=
  match work ⟨[.idle], suspension⟩ with
  | (.ok value, p) => (⟨.ok value, p.stages⟩, p.suspension)
  | (.error fault, p) => (⟨.error fault, p.stages ++ [.failed]⟩, p.suspension)

end JavaSnippet.Evaluation
