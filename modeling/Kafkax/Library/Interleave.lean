import Mathlib.Logic.Relation
import Kafkax.Library.Program

/-!
# A program next to others

A program of calls that runs while its environment moves: between two calls, and before the first
and after the last one, the others may take any steps.  `interleaved_call` and `interleaved_ret`
read such a run from its front, call by call.  The calls of a program that only reads answer for
states between the first and the last one (`interleaved_read`).
-/

namespace Kafkax.Programs

open Relation

variable {C : Type} {R : C → Type} {ε α S : Type}

/-- A run of a program to its end, among steps of the environment. -/
inductive Interleaved (Env : S → S → Prop) (perform : (c : C) → S → R c × S) :
    Program C R ε α → S → Except ε α → S → Prop where
  | ret (result : Except ε α) (s : S) : Interleaved Env perform (.ret result) s result s
  | env {p : Program C R ε α} {s t u : S} {result : Except ε α} (hstep : Env s t)
      (hrest : Interleaved Env perform p t result u) : Interleaved Env perform p s result u
  | call {c : C} {k : R c → Program C R ε α} {s u : S} {result : Except ε α}
      (hrest : Interleaved Env perform (k (perform c s).1) (perform c s).2 result u) :
      Interleaved Env perform (.call c k) s result u

variable {Env : S → S → Prop} {perform : (c : C) → S → R c × S} {s u : S}
  {result : Except ε α}

/-- A program that has returned leaves the steps to the others. -/
theorem interleaved_ret {returned : Except ε α}
    (h : Interleaved Env perform (.ret returned) s result u) :
    result = returned ∧ ReflTransGen Env s u := by
  generalize hp : (Program.ret returned : Program C R ε α) = p at h
  induction h with
  | ret result s =>
    rw [Program.ret.injEq] at hp
    exact ⟨hp.symm, .refl⟩
  | env hstep hrest ih =>
    obtain ⟨heq, hrun⟩ := ih hp
    exact ⟨heq, .head hstep hrun⟩
  | call hrest ih => exact absurd hp (by simp)

/-- The first call of a program takes place after some steps of the others. -/
theorem interleaved_call {c : C} {k : R c → Program C R ε α}
    (h : Interleaved Env perform (.call c k) s result u) :
    ∃ t, ReflTransGen Env s t ∧
      Interleaved Env perform (k (perform c t).1) (perform c t).2 result u := by
  generalize hp : Program.call c k = p at h
  induction h with
  | ret result s => exact absurd hp (by simp)
  | env hstep hrest ih =>
    obtain ⟨t, hrun, hcall⟩ := ih hp
    exact ⟨t, .head hstep hrun, hcall⟩
  | call hrest ih =>
    injection hp with hc hk
    subst hc
    obtain rfl := eq_of_heq hk
    exact ⟨_, .refl, hrest⟩

/-! ### Programs that only read -/

/-- No call changes the state. -/
def ReadOnly (perform : (c : C) → S → R c × S) : Prop := ∀ c s, (perform c s).2 = s

/-- Around a program that only reads, the others go from the first state to the last one. -/
theorem interleaved_reads (hreads : ReadOnly perform) {p : Program C R ε α}
    (h : Interleaved Env perform p s result u) : ReflTransGen Env s u := by
  induction h with
  | ret result s => exact .refl
  | env hstep hrest ih => exact .head hstep ih
  | call hrest ih =>
    rw [hreads] at ih
    exact ih

/-- **A read** answers for a state between the first and the last one. -/
theorem interleaved_read (hreads : ReadOnly perform) {first : S} (hpast : ReflTransGen Env first s)
    {c : C} {k : R c → Program C R ε α} (h : Interleaved Env perform (.call c k) s result u) :
    ∃ t, ReflTransGen Env first t ∧ ReflTransGen Env t u ∧
      Interleaved Env perform (k (perform c t).1) t result u := by
  obtain ⟨t, hrun, hrest⟩ := interleaved_call h
  rw [hreads] at hrest
  exact ⟨t, hpast.trans hrun, interleaved_reads hreads hrest, hrest⟩

end Kafkax.Programs
