import Mathlib.Data.List.Basic

/-!
# A bounded channel between a producer and a consumer

A producer polls a source, sends what it makes of it into a queue of bounded length, and stops
after the first error; a consumer takes from the front.  `Channel` carries its bound, `polled` is
what the source has yielded, and `cutAfterError` is what a producer that stops after an error may
send at most.
-/

namespace Kafkax.BoundedChannel

variable {α β ε : Type}

/-- A queue that never holds more than its capacity. -/
structure Channel (α : Type) (capacity : ℕ) where
  items : List α
  bounded : items.length ≤ capacity

namespace Channel

variable {capacity : ℕ}

/-- A new channel. -/
def empty : Channel α capacity := ⟨[], Nat.zero_le _⟩

/-- Sends an item, when there is room. -/
def push (a : α) (self : Channel α capacity) (h : self.items.length < capacity) :
    Channel α capacity :=
  ⟨self.items ++ [a], by rw [List.length_append, List.length_singleton]; omega⟩

/-- The channel without its front. -/
def pop (self : Channel α capacity) : Channel α capacity :=
  ⟨self.items.tail, by have := self.bounded; rw [List.length_tail]; omega⟩

@[simp] theorem items_push (a : α) (self : Channel α capacity)
    (h : self.items.length < capacity) : (self.push a h).items = self.items ++ [a] := rfl

@[simp] theorem items_pop (self : Channel α capacity) : self.pop.items = self.items.tail := rfl

end Channel

/-! ### A source -/

/-- What a source has yielded, up to its end, when it was polled `n` times from `start` on. -/
def polledFrom (source : ℕ → Option α) : ℕ → ℕ → List α
  | _, 0 => []
  | start, n + 1 =>
    match source start with
    | none => []
    | some a => a :: polledFrom source (start + 1) n

/-- What a source has yielded in its first `n` polls. -/
abbrev polled (source : ℕ → Option α) (n : ℕ) : List α := polledFrom source 0 n

theorem polledFrom_succ {source : ℕ → Option α} {start n : ℕ} {a : α}
    (hlive : ∀ k < n, source (start + k) ≠ none) (ha : source (start + n) = some a) :
    polledFrom source start (n + 1) = polledFrom source start n ++ [a] := by
  induction n generalizing start with
  | zero =>
    rw [Nat.add_zero] at ha
    simp [polledFrom, ha]
  | succ n ih =>
    cases hstart : source start with
    | none => exact absurd hstart (hlive 0 (by omega))
    | some b =>
      have hrest : polledFrom source (start + 1) (n + 1) =
          polledFrom source (start + 1) n ++ [a] := by
        refine ih (fun k hk => ?_) ?_
        · have hnext := hlive (k + 1) (by omega)
          rwa [show start + (k + 1) = start + 1 + k by omega] at hnext
        · rwa [show start + (n + 1) = start + 1 + n by omega] at ha
      rw [polledFrom, hstart]
      show b :: polledFrom source (start + 1) (n + 1) = _
      rw [hrest, polledFrom, hstart]
      rfl

theorem length_polledFrom {source : ℕ → Option α} {start n : ℕ}
    (hlive : ∀ k < n, source (start + k) ≠ none) : (polledFrom source start n).length = n := by
  induction n with
  | zero => rfl
  | succ n ih =>
    obtain ⟨a, ha⟩ := Option.ne_none_iff_exists'.mp (hlive n (Nat.lt_succ_self n))
    have hlive' : ∀ k < n, source (start + k) ≠ none := fun k hk => hlive k (Nat.lt_succ_of_lt hk)
    rw [polledFrom_succ hlive' ha, List.length_append, ih hlive', List.length_singleton]

theorem getElem?_polledFrom {source : ℕ → Option α} {start n k : ℕ} {a : α}
    (h : (polledFrom source start n)[k]? = some a) : source (start + k) = some a := by
  induction n generalizing start k with
  | zero => exact absurd h (by simp [polledFrom])
  | succ n ih =>
    rw [polledFrom] at h
    cases hstart : source start with
    | none =>
      rw [hstart] at h
      exact absurd h (by simp)
    | some b =>
      rw [hstart] at h
      cases k with
      | zero => exact hstart.trans h
      | succ k =>
        rw [show start + (k + 1) = start + 1 + k by omega]
        exact ih h

/-! ### Stopping after an error -/

/-- The results up to the first error, the error included. -/
def cutAfterError : List (Except ε α) → List (Except ε α)
  | [] => []
  | .ok a :: rest => .ok a :: cutAfterError rest
  | .error e :: _ => [.error e]

/-- No result is an error. -/
def AllOk (results : List (Except ε α)) : Prop := ∀ e, .error e ∉ results

theorem cutAfterError_append {results : List (Except ε α)} (h : AllOk results)
    (more : List (Except ε α)) :
    cutAfterError (results ++ more) = results ++ cutAfterError more := by
  induction results with
  | nil => rfl
  | cons r rest ih =>
    cases r with
    | error e => exact absurd List.mem_cons_self (h e)
    | ok a =>
      have hrest : AllOk rest := fun e he => h e (List.mem_cons_of_mem _ he)
      show .ok a :: cutAfterError (rest ++ more) = .ok a :: (rest ++ cutAfterError more)
      rw [ih hrest]

theorem cutAfterError_of_allOk {results : List (Except ε α)} (h : AllOk results) :
    cutAfterError results = results := by
  have happend := cutAfterError_append h []
  rw [List.append_nil] at happend
  rw [happend, cutAfterError, List.append_nil]

theorem isPrefix_cutAfterError (results : List (Except ε α)) :
    cutAfterError results <+: results := by
  induction results with
  | nil => exact List.prefix_rfl
  | cons r rest ih =>
    cases r with
    | ok a => exact List.cons_prefix_cons.mpr ⟨rfl, ih⟩
    | error e => exact ⟨rest, rfl⟩

/-- Nothing follows an error in what a producer sends that stops after it. -/
theorem eq_of_error_mem {sent longer results : List (Except ε α)} {e : ε}
    (he : .error e ∈ sent) (hsent : sent <+: longer) (hlonger : longer <+: cutAfterError results) :
    longer = sent := by
  induction results generalizing sent longer with
  | nil =>
    have hnil : longer = [] := List.prefix_nil.mp hlonger
    rw [hnil] at hsent
    rw [List.prefix_nil.mp hsent] at he
    exact absurd he List.not_mem_nil
  | cons r rest ih =>
    obtain ⟨more, hmore⟩ := hsent
    cases sent with
    | nil => exact absurd he List.not_mem_nil
    | cons first sent =>
      rw [← hmore] at hlonger ⊢
      cases r with
      | error e' =>
        have hrest : sent ++ more <+: [] := (List.cons_prefix_cons.mp hlonger).2
        have hnil := List.append_eq_nil_iff.mp (List.prefix_nil.mp hrest)
        rw [hnil.2, List.append_nil]
      | ok a =>
        obtain ⟨hfirst, hrest⟩ := List.cons_prefix_cons.mp hlonger
        have hmem : .error e ∈ sent := by
          rcases List.mem_cons.mp he with heq | hmem
          · exact absurd (heq.trans hfirst) (by simp)
          · exact hmem
        show first :: (sent ++ more) = first :: sent
        rw [ih hmem ⟨more, rfl⟩ hrest]

end Kafkax.BoundedChannel
