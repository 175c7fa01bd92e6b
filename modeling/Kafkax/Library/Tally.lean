import Mathlib.Algebra.BigOperators.Group.Finset.Basic
import Mathlib.Algebra.BigOperators.Group.Finset.Piecewise
import Mathlib.Algebra.Order.BigOperators.Group.Finset
import Mathlib.Data.Fintype.Card
import Mathlib.Logic.Function.Basic

/-!
# Counting parties

Any number of parties, each in some local state.  `tally P f` is the number of them that are in a
state with the property `P`.  A step of one party changes the count by what it does to that
party: not at all (`tally_update_same`), up by one (`tally_update_gain`) or down by one
(`tally_update_loss`).  `total w f` adds up the weights of all parties; `total_update` is the same
for a weight.
-/

namespace Kafkax.Counting

variable {ι α : Type} [Fintype ι] [DecidableEq ι] (P : α → Prop) [DecidablePred P]

/-- The number of parties whose state has the property. -/
def tally (f : ι → α) : ℕ := (Finset.univ.filter fun i => P (f i)).card

variable {P} {f : ι → α} {i : ι} {a : α}

omit [DecidableEq ι] in
theorem tally_pos (h : P (f i)) : 0 < tally P f :=
  Finset.card_pos.mpr ⟨i, Finset.mem_filter.mpr ⟨Finset.mem_univ i, h⟩⟩

omit [DecidableEq ι] in
theorem exists_of_tally_pos (h : 0 < tally P f) : ∃ i, P (f i) := by
  obtain ⟨i, hi⟩ := Finset.card_pos.mp h
  exact ⟨i, (Finset.mem_filter.mp hi).2⟩

/-- The parties other than the one that moved. -/
theorem filter_update : (Finset.univ.filter fun j => P (Function.update f i a j)).erase i =
    (Finset.univ.filter fun j => P (f j)).erase i := by
  ext j
  simp only [Finset.mem_erase, Finset.mem_filter, Finset.mem_univ, true_and]
  refine and_congr_right fun hji => ?_
  rw [Function.update_of_ne hji]

theorem tally_update_same (h : P a ↔ P (f i)) : tally P (Function.update f i a) = tally P f := by
  refine congrArg Finset.card (Finset.filter_congr fun j _ => ?_)
  by_cases hji : j = i
  · rw [hji, Function.update_self]
    exact h
  · rw [Function.update_of_ne hji]

theorem tally_update_gain (ha : P a) (hi : ¬ P (f i)) :
    tally P (Function.update f i a) = tally P f + 1 := by
  have hmem : i ∈ Finset.univ.filter fun j => P (Function.update f i a j) := by
    rw [Finset.mem_filter, Function.update_self]
    exact ⟨Finset.mem_univ i, ha⟩
  have hnot : i ∉ Finset.univ.filter fun j => P (f j) := fun h => hi (Finset.mem_filter.mp h).2
  rw [tally, ← Finset.card_erase_add_one hmem, filter_update, Finset.erase_eq_of_notMem hnot, tally]

theorem tally_update_loss (ha : ¬ P a) (hi : P (f i)) :
    tally P (Function.update f i a) + 1 = tally P f := by
  have hmem : i ∈ Finset.univ.filter fun j => P (f j) :=
    Finset.mem_filter.mpr ⟨Finset.mem_univ i, hi⟩
  have hnot : i ∉ Finset.univ.filter fun j => P (Function.update f i a j) := by
    rw [Finset.mem_filter, Function.update_self]
    exact fun h => ha h.2
  rw [tally, tally, ← Finset.card_erase_add_one hmem, ← filter_update,
    Finset.erase_eq_of_notMem hnot]

/-- The sum of the weights of all parties. -/
def total (w : α → ℕ) (f : ι → α) : ℕ := ∑ i, w (f i)

theorem total_update (w : α → ℕ) (f : ι → α) (i : ι) (a : α) :
    total w (Function.update f i a) + w (f i) = total w f + w a := by
  have hrest : ∑ j ∈ Finset.univ.erase i, w (Function.update f i a j) =
      ∑ j ∈ Finset.univ.erase i, w (f j) := by
    refine Finset.sum_congr rfl fun j hj => ?_
    rw [Function.update_of_ne (Finset.ne_of_mem_erase hj)]
  have hnew := Finset.add_sum_erase Finset.univ (fun j => w (Function.update f i a j))
    (Finset.mem_univ i)
  have hold := Finset.add_sum_erase Finset.univ (fun j => w (f j)) (Finset.mem_univ i)
  rw [Function.update_self, hrest] at hnew
  rw [total, total, ← hnew, ← hold]
  omega

/-- A step of one party that adds to its weight. -/
theorem total_update_add {w : α → ℕ} {n : ℕ} (h : w a = w (f i) + n) :
    total w (Function.update f i a) = total w f + n := by
  have htotal := total_update w f i a
  omega

omit [DecidableEq ι] in
/-- A weight of at most one counts the parties that have it. -/
theorem total_eq_tally {w : α → ℕ} (h : ∀ i, w (f i) = if P (f i) then 1 else 0) :
    total w f = tally P f := by
  rw [total, tally, Finset.card_filter]
  exact Finset.sum_congr rfl fun i _ => h i

omit [DecidableEq ι] in
theorem tally_le_total {w : α → ℕ} (h : ∀ i, P (f i) → 1 ≤ w (f i)) : tally P f ≤ total w f := by
  rw [tally, total, Finset.card_filter]
  refine Finset.sum_le_sum fun i _ => ?_
  split_ifs with hi
  · exact h i hi
  · exact Nat.zero_le _

omit [DecidableEq ι] in
theorem total_le_tally {w : α → ℕ} (h : ∀ i, w (f i) ≤ if P (f i) then 1 else 0) :
    total w f ≤ tally P f := by
  rw [tally, total, Finset.card_filter]
  exact Finset.sum_le_sum fun i _ => h i

omit [DecidableEq ι] in
theorem total_add_le_total {v w u : α → ℕ} (h : ∀ i, v (f i) + w (f i) ≤ u (f i)) :
    total v f + total w f ≤ total u f := by
  rw [total, total, total, ← Finset.sum_add_distrib]
  exact Finset.sum_le_sum fun i _ => h i

end Kafkax.Counting
