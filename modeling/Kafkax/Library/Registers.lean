import Mathlib.Data.List.Induction
import Mathlib.Data.List.Sigma
import Mathlib.Logic.Function.Basic

/-!
# Records written field by field

A record is a bundle of registers, one for each key: `view` reads them all and tells records apart,
and a write changes the register of its key.  After a sequence of writes each register holds the
last value that was written to it (`view_assignAll`).  So two sequences with the same last writes
have the same result (`assignAll_congr`), and the order of writes to different keys makes no
difference (`assignAll_perm`).
-/

namespace Kafkax.Registers

variable {σ K : Type} {V : K → Type} [DecidableEq K]

/-- The registers of a record. -/
structure Bundle (view : σ → (k : K) → V k) (write : σ → (k : K) → V k → σ) : Prop where
  view_injective : Function.Injective view
  view_write : ∀ s k v, view (write s k v) = Function.update (view s) k v

/-- Writes, one after the other. -/
def assignAll (write : σ → (k : K) → V k → σ) (ws : List (Sigma V)) (s : σ) : σ :=
  ws.foldl (fun s w => write s w.1 w.2) s

variable {view : σ → (k : K) → V k} {write : σ → (k : K) → V k → σ}

omit [DecidableEq K] in
theorem assignAll_append (ws ws' : List (Sigma V)) (s : σ) :
    assignAll write (ws ++ ws') s = assignAll write ws' (assignAll write ws s) := List.foldl_append

/-- **Each register** holds the last value that was written to it. -/
theorem view_assignAll (h : Bundle view write) (ws : List (Sigma V)) (s : σ) (k : K) :
    view (assignAll write ws s) k = (ws.reverse.dlookup k).getD (view s k) := by
  induction ws using List.reverseRecOn with
  | nil => rfl
  | append_singleton ws w ih =>
    obtain ⟨k', v⟩ := w
    rw [assignAll_append, List.reverse_append]
    show view (write _ k' v) k = (List.dlookup k (⟨k', v⟩ :: ws.reverse)).getD _
    rw [h.view_write]
    by_cases hk : k = k'
    · subst hk
      rw [Function.update_self, List.dlookup_cons_eq, Option.getD_some]
    · rw [Function.update_of_ne hk, List.dlookup_cons_ne _ _ hk, ih]

/-- The last writes decide. -/
theorem assignAll_congr (h : Bundle view write) {ws ws' : List (Sigma V)}
    (hlast : ∀ k, ws.reverse.dlookup k = ws'.reverse.dlookup k) (s : σ) :
    assignAll write ws s = assignAll write ws' s := by
  refine h.view_injective (funext fun k => ?_)
  rw [view_assignAll h, view_assignAll h, hlast]

/-- **The order of writes** to different keys makes no difference. -/
theorem assignAll_perm (h : Bundle view write) {ws ws' : List (Sigma V)} (hnodup : ws.NodupKeys)
    (hperm : ws.Perm ws') (s : σ) : assignAll write ws s = assignAll write ws' s := by
  have hreverse : ws.reverse.Perm ws'.reverse :=
    (List.reverse_perm ws).trans (hperm.trans (List.reverse_perm ws').symm)
  have hkeys : ws.reverse.NodupKeys :=
    (List.perm_nodupKeys (List.reverse_perm ws)).mpr hnodup
  exact assignAll_congr h
    (fun k => List.perm_dlookup k hkeys hreverse) s

end Kafkax.Registers
