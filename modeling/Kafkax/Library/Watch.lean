import Mathlib.Data.Nat.Basic
import Mathlib.Tactic.Common

/-!
# A watch channel

A channel that holds one value.  Every send raises its version; a receiver remembers the version
it has seen, at its subscription or when it was last told of a change.  What it has not seen are
exactly the sends since then.
-/

namespace Kafkax.WatchChannel

/-- The sending side: the value and the number of sends. -/
structure Watch (α : Type) where
  value : α
  version : ℕ

namespace Watch

variable {α : Type}

/-- A new channel. -/
def new (value : α) : Watch α := ⟨value, 0⟩

/-- Replaces the value by a function of it, and notifies the receivers. -/
def sendModify (f : α → α) (self : Watch α) : Watch α := ⟨f self.value, self.version + 1⟩

/-- Replaces the value and notifies the receivers. -/
def sendReplace (value : α) (self : Watch α) : Watch α := ⟨value, self.version + 1⟩

/-- There was a send that a receiver has not seen. -/
def Unseen (self : Watch α) (seen : ℕ) : Prop := seen < self.version

instance (self : Watch α) (seen : ℕ) : Decidable (self.Unseen seen) :=
  inferInstanceAs (Decidable (seen < self.version))

/-- A send is unseen by every receiver there is. -/
theorem unseen_sendModify {self : Watch α} {seen : ℕ} (h : seen ≤ self.version) (f : α → α) :
    (self.sendModify f).Unseen seen :=
  Nat.lt_succ_of_le h

@[inherit_doc unseen_sendModify]
theorem unseen_sendReplace {self : Watch α} {seen : ℕ} (h : seen ≤ self.version) (value : α) :
    (self.sendReplace value).Unseen seen :=
  Nat.lt_succ_of_le h

theorem version_le_sendModify (self : Watch α) (f : α → α) :
    self.version ≤ (self.sendModify f).version :=
  Nat.le_succ _

theorem version_le_sendReplace (self : Watch α) (value : α) :
    self.version ≤ (self.sendReplace value).version :=
  Nat.le_succ _

end Watch

end Kafkax.WatchChannel
