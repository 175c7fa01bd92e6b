import Mathlib.Logic.Relation
import Mathlib.Data.Nat.Notation
import Mathlib.Logic.Basic

/-!
# Progress by a measure

Runs of a relation counted by their steps.  If every step lowers a measure, a run is no longer than
the measure of its first state (`Steps.add_measure_le`), and it can be continued to a state in which
nothing moves any more (`exists_stuck`).  If every step raises a measure, a long run ends high
(`Steps.measure_add_le`).  Deadlock freedom turns the first into termination at a goal, and a bound
by what was achieved so far turns the second into a bounded delay.
-/

namespace Kafkax.Progress

open Relation

variable {S : Type*} {Step : S → S → Prop} {s t u : S} {n : ℕ}

/-- A run of `n` steps. -/
inductive Steps (Step : S → S → Prop) : ℕ → S → S → Prop where
  | refl (s : S) : Steps Step 0 s s
  | tail {n : ℕ} {s t u : S} (h : Steps Step n s t) (hstep : Step t u) : Steps Step (n + 1) s u

/-- Nothing moves. -/
def Stuck (Step : S → S → Prop) (s : S) : Prop := ∀ s', ¬ Step s s'

/-- **A lowered measure bounds the runs.** -/
theorem Steps.add_measure_le {μ : S → ℕ} (hlower : ∀ s t, Step s t → μ t < μ s)
    (h : Steps Step n s t) : n + μ t ≤ μ s := by
  induction h with
  | refl s => omega
  | tail _ hstep ih =>
    have hlt := hlower _ _ hstep
    omega

/-- **A lowered measure ends the runs.** -/
theorem exists_stuck {μ : S → ℕ} (hlower : ∀ s t, Step s t → μ t < μ s) (s : S) :
    ∃ t, ReflTransGen Step s t ∧ Stuck Step t := by
  induction hμ : μ s using Nat.strongRecOn generalizing s with
  | _ m ih =>
    by_cases hstuck : Stuck Step s
    · exact ⟨s, .refl, hstuck⟩
    · obtain ⟨t, hstep⟩ : ∃ t, Step s t := by
        rw [Stuck, not_forall_not] at hstuck
        exact hstuck
      obtain ⟨u, hrun, hend⟩ := ih (μ t) (hμ ▸ hlower s t hstep) t rfl
      exact ⟨u, .head hstep hrun, hend⟩

/-- **A raised measure**, of a relation that keeps an invariant. -/
theorem Steps.measure_add_le {μ : S → ℕ} {P : S → Prop} (hkeep : ∀ s t, P s → Step s t → P t)
    (hraise : ∀ s t, P s → Step s t → μ s < μ t) (h : Steps Step n s t) (hs : P s) :
    P t ∧ μ s + n ≤ μ t := by
  induction h with
  | refl s => exact ⟨hs, by omega⟩
  | tail _ hstep ih =>
    obtain ⟨ht, hle⟩ := ih hs
    have hlt := hraise _ _ ht hstep
    exact ⟨hkeep _ _ ht hstep, by omega⟩

end Kafkax.Progress
