import Mathlib.Data.List.Basic

/-!
# Ordered cascades

A cascade is a list of rules, each a test with a verdict.  The first rule whose test holds decides,
and if there is none a default does.

The order matters where rules with different verdicts hold at once.  A rule that holds secures a
property of the verdict exactly if the rules in front of it are harmless: the first of them that
holds, if there is one, has the property too (`firstMatch_iff_harmless`).
-/

namespace Kafkax.Cascades

variable {ρ α γ : Type} (test : ρ → α → Bool)

/-- The verdict of the first rule that holds. -/
def firstMatch (default : γ) : List (ρ × γ) → α → γ
  | [], _ => default
  | (rule, verdict) :: rest, a =>
    if test rule a then verdict else firstMatch default rest a

/-- The first rule that holds, if there is one, has the property. -/
def Harmless (P : γ → Prop) : List (ρ × γ) → α → Prop
  | [], _ => True
  | (rule, verdict) :: rest, a => if test rule a then P verdict else Harmless P rest a

variable {test} {default : γ} {P : γ → Prop} {a : α}

theorem firstMatch_cons_of_pos {rule : ρ} {verdict : γ} {rest : List (ρ × γ)}
    (h : test rule a = true) : firstMatch test default ((rule, verdict) :: rest) a = verdict :=
  if_pos h

theorem firstMatch_cons_of_neg {rule : ρ} {verdict : γ} {rest : List (ρ × γ)}
    (h : test rule a = false) :
    firstMatch test default ((rule, verdict) :: rest) a = firstMatch test default rest a :=
  if_neg (by rw [h]; exact Bool.false_ne_true)

/-- **A rule that holds and has the property** secures it exactly if the rules in front of it are
harmless. -/
theorem firstMatch_iff_harmless {front back : List (ρ × γ)} {rule : ρ} {verdict : γ}
    (hrule : test rule a = true) (hverdict : P verdict) :
    P (firstMatch test default (front ++ (rule, verdict) :: back) a) ↔ Harmless test P front a := by
  induction front with
  | nil =>
    rw [List.nil_append, firstMatch_cons_of_pos hrule]
    exact iff_of_true hverdict trivial
  | cons entry rest ih =>
    obtain ⟨other, verdict'⟩ := entry
    rw [List.cons_append, Harmless]
    cases hother : test other a with
    | true =>
      rw [firstMatch_cons_of_pos hother]
      exact Iff.rfl
    | false =>
      rw [firstMatch_cons_of_neg hother]
      exact ih

end Kafkax.Cascades
