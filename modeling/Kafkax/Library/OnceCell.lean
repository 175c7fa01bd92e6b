import Mathlib.Logic.Relation

/-!
# A cell that is filled once

A cell shared by many parties, which the first of them fills and none changes after that.  What a
party saw in a filled cell is there for good (`eq_of_fills`), and after an attempt to fill the cell,
successful or not, it is filled (`exists_of_trySet`).
-/

namespace Kafkax.OnceCells

open Relation

variable {α : Type}

/-- Some party fills the cell. -/
inductive Fills : Option α → Option α → Prop where
  | fill (a : α) : Fills none (some a)

/-- An attempt to fill the cell, which gives the value back if the cell is filled already. -/
def trySet (a : α) : Option α → Except α Unit × Option α
  | none => (.ok (), some a)
  | some old => (.error a, some old)

/-- An attempt is a step of its party, or changes nothing. -/
theorem fills_trySet (a : α) (cell : Option α) : ReflTransGen Fills cell (trySet a cell).2 := by
  cases cell with
  | none => exact .single (.fill a)
  | some old => exact .refl

/-- After an attempt the cell is filled. -/
theorem exists_of_trySet (a : α) (cell : Option α) : ∃ b, (trySet a cell).2 = some b := by
  cases cell with
  | none => exact ⟨a, rfl⟩
  | some old => exact ⟨old, rfl⟩

/-- **A filled cell** keeps its value, whatever the parties do. -/
theorem eq_of_fills {a : α} {cell : Option α} (h : ReflTransGen Fills (some a) cell) :
    cell = some a := by
  induction h with
  | refl => rfl
  | tail _ hstep ih =>
    rw [ih] at hstep
    cases hstep

end Kafkax.OnceCells
