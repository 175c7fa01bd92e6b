import Mathlib.Order.MinMax
import Mathlib.Data.List.Basic
import Mathlib.Data.Set.Defs

/-!
# A register that only goes up

A register that is empty or holds a value of a linear order and is written by merging: a write
keeps the larger of the old and the new value.  `raise` is one write, `peak` the register after a
list of writes.

`peak_eq_some_iff` identifies the register with the maximum of everything that was in it or
written to it; that the order and the repetition of the writes do not matter (`peak_congr`), that
a write repeated has no effect (`raise_raise`) and that the register never goes back
(`le_peak_append`) are read off it.

Where the writes are known only as a set, `IsPeak` says the same of the register.
-/

namespace Kafkax.MaxRegister

variable {β : Type*} [LinearOrder β]

/-- One write: the larger of the old and the new value. -/
def raise (v : β) : Option β → Option β
  | none => some v
  | some old => some (max old v)

/-- The register after a list of writes. -/
def peak (init : Option β) (vs : List β) : Option β := vs.foldl (fun reg v => raise v reg) init

theorem option_le_refl (a : Option β) : a ≤ a := by
  cases a with
  | none => exact Option.none_le
  | some a => exact Option.some_le_some.mpr le_rfl

theorem option_le_trans {a b c : Option β} (hab : a ≤ b) (hbc : b ≤ c) : a ≤ c := by
  cases a with
  | none => exact Option.none_le
  | some a =>
    cases b with
    | none => exact absurd hab Option.not_some_le_none
    | some b =>
      cases c with
      | none => exact absurd hbc Option.not_some_le_none
      | some c =>
        exact Option.some_le_some.mpr
          ((Option.some_le_some.mp hab).trans (Option.some_le_some.mp hbc))

@[simp] theorem raise_none (v : β) : raise v none = some v := rfl

@[simp] theorem raise_some (v old : β) : raise v (some old) = some (max old v) := rfl

theorem le_raise (v : β) (a : Option β) : a ≤ raise v a := by
  cases a with
  | none => exact Option.none_le
  | some a => exact Option.some_le_some.mpr (le_max_left a v)

theorem some_le_raise (v : β) (a : Option β) : some v ≤ raise v a := by
  cases a with
  | none => exact option_le_refl _
  | some a => exact Option.some_le_some.mpr (le_max_right a v)

/-- A write of a value the register already reaches changes nothing. -/
theorem raise_eq_self {v : β} {a : Option β} (h : some v ≤ a) : raise v a = a := by
  cases a with
  | none => exact absurd h Option.not_some_le_none
  | some a => rw [raise_some, max_eq_left (Option.some_le_some.mp h)]

/-- A repeated write has no effect. -/
theorem raise_raise (v : β) (a : Option β) : raise v (raise v a) = raise v a :=
  raise_eq_self (some_le_raise v a)

@[simp] theorem peak_nil (init : Option β) : peak init [] = init := rfl

@[simp] theorem peak_cons (init : Option β) (v : β) (vs : List β) :
    peak init (v :: vs) = peak (raise v init) vs := rfl

theorem peak_append (init : Option β) (vs ws : List β) :
    peak init (vs ++ ws) = peak (peak init vs) ws := List.foldl_append

/-- The register is empty only if nothing was ever in it. -/
theorem peak_eq_none_iff {init : Option β} {vs : List β} :
    peak init vs = none ↔ init = none ∧ vs = [] := by
  induction vs generalizing init with
  | nil => simp
  | cons v vs ih =>
    rw [peak_cons, ih]
    cases init <;> simp

/-- **The register is the maximum** of its initial value and the values written. -/
theorem peak_eq_some_iff {init : Option β} {vs : List β} {x : β} :
    peak init vs = some x ↔
      (init = some x ∨ x ∈ vs) ∧ (∀ y, init = some y → y ≤ x) ∧ ∀ v ∈ vs, v ≤ x := by
  induction vs generalizing init with
  | nil =>
    rw [peak_nil]
    constructor
    · rintro rfl
      exact ⟨Or.inl rfl, fun y hy => (Option.some.inj hy).ge, fun v hv => absurd hv List.not_mem_nil⟩
    · rintro ⟨h | h, -, -⟩
      · exact h
      · exact absurd h List.not_mem_nil
  | cons v vs ih =>
    rw [peak_cons, ih]
    cases init with
    | none =>
      simp only [raise_none, Option.some.injEq, reduceCtorEq, false_or, List.mem_cons,
        forall_eq_or_imp, false_implies, implies_true, true_and, forall_eq']
      constructor
      · rintro ⟨h, hle, hall⟩
        exact ⟨h.imp_left Eq.symm, hle, hall⟩
      · rintro ⟨h, hle, hall⟩
        exact ⟨h.imp_left Eq.symm, hle, hall⟩
    | some a =>
      simp only [raise_some, Option.some.injEq, List.mem_cons, forall_eq_or_imp, forall_eq',
        max_le_iff]
      constructor
      · rintro ⟨h, ⟨ha, hv⟩, hall⟩
        refine ⟨?_, ha, hv, hall⟩
        rcases h with h | h
        · rcases max_choice a v with hmax | hmax
          · exact Or.inl (hmax ▸ h)
          · exact Or.inr (Or.inl (hmax ▸ h).symm)
        · exact Or.inr (Or.inr h)
      · rintro ⟨h, ha, hv, hall⟩
        refine ⟨?_, ⟨ha, hv⟩, hall⟩
        rcases h with rfl | rfl | h
        · exact Or.inl (max_eq_left hv)
        · exact Or.inl (max_eq_right ha)
        · exact Or.inr h

/-- **Order and repetition do not matter**: the register depends only on which values were
written. -/
theorem peak_congr {init : Option β} {vs ws : List β} (h : ∀ v, v ∈ vs ↔ v ∈ ws) :
    peak init vs = peak init ws := by
  cases hws : peak init ws with
  | none =>
    obtain ⟨hinit, rfl⟩ := peak_eq_none_iff.mp hws
    refine peak_eq_none_iff.mpr ⟨hinit, List.eq_nil_iff_forall_not_mem.mpr fun v hv => ?_⟩
    exact List.not_mem_nil ((h v).mp hv)
  | some x =>
    obtain ⟨hmem, hinit, hall⟩ := peak_eq_some_iff.mp hws
    exact peak_eq_some_iff.mpr
      ⟨hmem.imp_right (h x).mpr, hinit, fun v hv => hall v ((h v).mp hv)⟩

theorem le_peak (init : Option β) (vs : List β) : init ≤ peak init vs := by
  induction vs generalizing init with
  | nil => exact option_le_refl init
  | cons v vs ih => exact option_le_trans (le_raise v init) (ih (raise v init))

/-- **The register never goes back.** -/
theorem le_peak_append (init : Option β) (vs ws : List β) :
    peak init vs ≤ peak init (vs ++ ws) := by
  rw [peak_append]
  exact le_peak _ _

/-- A part of a state that every operation writes to at most once is a register, whose writes are
those of the operations made. -/
theorem foldl_eq_peak {σ γ : Type*} {reg : σ → Option β} {next : σ → γ → σ}
    {write : γ → Option β} (h : ∀ x g, reg (next x g) = peak (reg x) (write g).toList) (x : σ)
    (gs : List γ) : reg (gs.foldl next x) = peak (reg x) (gs.filterMap write) := by
  induction gs generalizing x with
  | nil => rfl
  | cons g gs ih =>
    rw [List.foldl_cons, ih, h, List.filterMap_cons]
    cases write g with
    | none => rfl
    | some v => rfl

/-! ### A set of writes -/

/-- The register is the maximum of its initial value and a set of written values. -/
structure IsPeak (init : Option β) (written : Set β) (reg : Option β) : Prop where
  init_le : init ≤ reg
  written_le : ∀ v ∈ written, some v ≤ reg
  attained : reg = init ∨ ∃ v ∈ written, reg = some v

/-- Either nothing written exceeds the initial value, or one of the writes alone accounts for the
register. -/
theorem IsPeak.eq_raise {init reg : Option β} {written : Set β} (h : IsPeak init written reg) :
    reg = init ∨ ∃ v ∈ written, reg = raise v init := by
  rcases h.attained with heq | ⟨v, hv, heq⟩
  · exact Or.inl heq
  · refine Or.inr ⟨v, hv, ?_⟩
    have hle := h.init_le
    rw [heq] at hle ⊢
    cases init with
    | none => rfl
    | some old => rw [raise_some, max_eq_right (Option.some_le_some.mp hle)]

/-- The register after a list of writes is the maximum of the set of them. -/
theorem isPeak_peak (init : Option β) (vs : List β) : IsPeak init {v | v ∈ vs} (peak init vs) := by
  refine ⟨le_peak init vs, fun v hv => ?_, ?_⟩
  · cases hreg : peak init vs with
    | none =>
      obtain ⟨-, rfl⟩ := peak_eq_none_iff.mp hreg
      exact absurd hv List.not_mem_nil
    | some x => exact Option.some_le_some.mpr ((peak_eq_some_iff.mp hreg).2.2 v hv)
  · cases hreg : peak init vs with
    | none => exact Or.inl (peak_eq_none_iff.mp hreg).1.symm
    | some x =>
      rcases (peak_eq_some_iff.mp hreg).1 with hinit | hmem
      · exact Or.inl hinit.symm
      · exact Or.inr ⟨x, hmem, rfl⟩

end Kafkax.MaxRegister
