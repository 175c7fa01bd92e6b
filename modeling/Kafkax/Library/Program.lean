import Mathlib.Data.List.Basic

/-!
# Programs of calls

A sequential program that talks to its environment only through calls, and may fail.  `Program`
is the tree of its possible continuations: it has returned (a value or an error), or it waits for
the response to a call.  `bind` makes it a monad, so a program is written in `do` notation and
reads like the source it models.

The environment is a function `perform`: an outcome chosen from outside (does the call succeed,
how much does it do) and a state give the response and the next state.  Two views of a run are
kept side by side:

* `exec` performs one call for each outcome of a list, and so stops anywhere: a prefix of the
  list is a run that was interrupted;
* `run` follows an infinite supply of outcomes to the end.

`exec_of_run` says that they agree and `run_bind` is the rule of sequential composition.

Reasoning about all runs at once goes through `Always`: the weakest condition under which an
invariant holds wherever the program is interrupted and a postcondition holds of its result, for
every environment whose outcomes are allowed.  Its rules are
`always_bind` and `Always.mono`, and `Always.exec` and `Always.run` read it at the two views of a
run.
-/

namespace Kafkax.Programs

/-- A program: finished with a value or an error, or waiting for the response to a call. -/
inductive Program (C : Type) (R : C → Type) (ε α : Type) where
  | ret (result : Except ε α)
  | call (c : C) (k : R c → Program C R ε α)

variable {C : Type} {R : C → Type} {ε α β S O : Type}

namespace Program

/-- Sequential composition: the rest of the program is skipped when the first part fails. -/
def bind : Program C R ε α → (α → Program C R ε β) → Program C R ε β
  | .ret (.ok a), f => f a
  | .ret (.error e), _ => .ret (.error e)
  | .call c k, f => .call c fun r => (k r).bind f

instance : Monad (Program C R ε) where
  pure a := .ret (.ok a)
  bind := Program.bind

@[simp] theorem pure_eq (a : α) : (pure a : Program C R ε α) = .ret (.ok a) := rfl

@[simp] theorem ret_ok_bind (a : α) (f : α → Program C R ε β) :
    (Program.ret (.ok a) : Program C R ε α) >>= f = f a := rfl

@[simp] theorem ret_error_bind (e : ε) (f : α → Program C R ε β) :
    (Program.ret (.error e) : Program C R ε α) >>= f = .ret (.error e) := rfl

@[simp] theorem call_bind (c : C) (k : R c → Program C R ε α) (f : α → Program C R ε β) :
    Program.call c k >>= f = .call c fun r => k r >>= f := rfl

end Program

open Program

section

variable (perform : O → (c : C) → S → R c × S)

/-- One call of the program; a program that has returned does nothing. -/
def step (o : O) : Program C R ε α × S → Program C R ε α × S
  | (.ret r, s) => (.ret r, s)
  | (.call c k, s) => (k (perform o c s).1, (perform o c s).2)

/-- The program after one call for each outcome of the list. -/
def exec (os : List O) (x : Program C R ε α × S) : Program C R ε α × S :=
  os.foldl (fun x o => step perform o x) x

/-- The program followed to its end: the `n`-th call has the outcome `env n`.  The result comes
with the number of the next call and the final state. -/
def run (env : ℕ → O) : Program C R ε α → ℕ → S → Except ε α × ℕ × S
  | .ret r, n, s => (r, n, s)
  | .call c k, n, s => run env (k (perform (env n) c s).1) (n + 1) (perform (env n) c s).2

variable {perform}

@[simp] theorem exec_nil (x : Program C R ε α × S) : exec perform [] x = x := rfl

@[simp] theorem exec_cons (o : O) (os : List O) (x : Program C R ε α × S) :
    exec perform (o :: os) x = exec perform os (step perform o x) := rfl

theorem exec_append (os os' : List O) (x : Program C R ε α × S) :
    exec perform (os ++ os') x = exec perform os' (exec perform os x) := List.foldl_append

@[simp] theorem step_ret (o : O) (r : Except ε α) (s : S) :
    step perform o (.ret r, s) = ((.ret r : Program C R ε α), s) := rfl

theorem step_call (o : O) (c : C) (k : R c → Program C R ε α) (s : S) :
    step perform o (.call c k, s) = (k (perform o c s).1, (perform o c s).2) := rfl

@[simp] theorem run_ret (env : ℕ → O) (r : Except ε α) (n : ℕ) (s : S) :
    run perform env (.ret r : Program C R ε α) n s = (r, n, s) := rfl

theorem run_call (env : ℕ → O) (c : C) (k : R c → Program C R ε α) (n : ℕ) (s : S) :
    run perform env (.call c k) n s =
      run perform env (k (perform (env n) c s).1) (n + 1) (perform (env n) c s).2 := rfl

/-- **Sequential composition.**  A composed program runs its first part and then, if that returned
a value, the second one with the calls that follow. -/
theorem run_bind (env : ℕ → O) (p : Program C R ε α) (f : α → Program C R ε β) (n : ℕ) (s : S) :
    run perform env (p >>= f) n s =
      match run perform env p n s with
      | (.ok a, n', s') => run perform env (f a) n' s'
      | (.error e, n', s') => (.error e, n', s') := by
  induction p generalizing n s with
  | ret r =>
    cases r with
    | ok a => rfl
    | error e => rfl
  | call c k ih =>
    rw [call_bind, run_call, ih, run_call]

/-- **The two views agree.**  The end that `run` computes is reached by performing the calls one
by one. -/
theorem exec_of_run (env : ℕ → O) (p : Program C R ε α) (n : ℕ) (s : S) :
    ∃ count, exec perform ((List.range' n count).map env) (p, s) =
      (.ret (run perform env p n s).1, (run perform env p n s).2.2) := by
  induction p generalizing n s with
  | ret r => exact ⟨0, rfl⟩
  | call c k ih =>
    obtain ⟨count, hcount⟩ := ih (perform (env n) c s).1 (n + 1) (perform (env n) c s).2
    refine ⟨count + 1, ?_⟩
    rw [List.range'_succ, List.map_cons, exec_cons, step_call, hcount, run_call]

/-- A program that has returned stays as it is. -/
theorem exec_ret (os : List O) (r : Except ε α) (s : S) :
    exec perform os (.ret r, s) = ((.ret r : Program C R ε α), s) := by
  induction os with
  | nil => rfl
  | cons o os ih => exact ih

/-- The end is reached by performing at least one call. -/
theorem exec_succ_of_run (env : ℕ → O) (p : Program C R ε α) (n : ℕ) (s : S) :
    ∃ count, exec perform (env n :: (List.range' (n + 1) count).map env) (p, s) =
      (.ret (run perform env p n s).1, (run perform env p n s).2.2) := by
  cases p with
  | ret r => exact ⟨0, rfl⟩
  | call c k => exact exec_of_run env (k (perform (env n) c s).1) (n + 1) _

/-- The first part of a composed program, performed call by call up to the value it returns. -/
theorem exec_bind_of_run (env : ℕ → O) (p : Program C R ε α) (f : α → Program C R ε β) {n n' : ℕ}
    {s s' : S} {a : α} (h : run perform env p n s = (.ok a, n', s')) :
    ∃ count, exec perform ((List.range' n count).map env) (p >>= f, s) = (f a, s') := by
  induction p generalizing n s with
  | ret r =>
    rw [run_ret, Prod.mk.injEq, Prod.mk.injEq] at h
    obtain ⟨hr, -, hs⟩ := h
    exact ⟨0, by rw [hr, hs, ret_ok_bind]; rfl⟩
  | call c k ih =>
    rw [run_call] at h
    obtain ⟨count, hcount⟩ := ih (perform (env n) c s).1 h
    refine ⟨count + 1, ?_⟩
    rw [List.range'_succ, List.map_cons, exec_cons, call_bind, step_call, hcount]

end

/-! ### All runs at once -/

section

variable (perform : O → (c : C) → S → R c × S) (Allowed : O → Prop) (Inv : S → Prop)

/-- The invariant holds now and after every call, and the postcondition holds of the result, as
long as the environment picks allowed outcomes. -/
def Always (Post : Except ε α → S → Prop) : Program C R ε α → S → Prop
  | .ret r, s => Inv s ∧ Post r s
  | .call c k, s =>
    Inv s ∧ ∀ o, Allowed o → Always Post (k (perform o c s).1) (perform o c s).2

variable {perform Allowed Inv}

@[simp] theorem always_ret {Post : Except ε α → S → Prop} {r : Except ε α} {s : S} :
    Always perform Allowed Inv Post (.ret r) s ↔ Inv s ∧ Post r s := Iff.rfl

theorem always_call {Post : Except ε α → S → Prop} {c : C} {k : R c → Program C R ε α} {s : S} :
    Always perform Allowed Inv Post (.call c k) s ↔
      Inv s ∧ ∀ o, Allowed o →
        Always perform Allowed Inv Post (k (perform o c s).1) (perform o c s).2 := Iff.rfl

theorem Always.inv {Post : Except ε α → S → Prop} {p : Program C R ε α} {s : S}
    (h : Always perform Allowed Inv Post p s) : Inv s := by
  cases p with
  | ret r => exact h.1
  | call c k => exact h.1

/-- A weaker postcondition holds as well. -/
theorem Always.mono {Post Post' : Except ε α → S → Prop} {p : Program C R ε α} {s : S}
    (h : Always perform Allowed Inv Post p s) (hpost : ∀ r s, Inv s → Post r s → Post' r s) :
    Always perform Allowed Inv Post' p s := by
  induction p generalizing s with
  | ret r => exact ⟨h.1, hpost r s h.1 h.2⟩
  | call c k ih => exact ⟨h.1, fun o ho => ih _ (h.2 o ho)⟩

/-- The invariant may be kept for the end only. -/
theorem Always.forget {Post : Except ε α → S → Prop} {p : Program C R ε α} {s : S}
    (h : Always perform Allowed Inv Post p s) :
    Always perform Allowed (fun _ => True) (fun r s => Inv s ∧ Post r s) p s := by
  induction p generalizing s with
  | ret r => exact ⟨trivial, h⟩
  | call c k ih => exact ⟨trivial, fun o ho => ih _ (h.2 o ho)⟩

/-- **Sequential composition.**  A returned value is passed on, an error ends the program. -/
theorem always_bind {Post : Except ε β → S → Prop} {p : Program C R ε α}
    {f : α → Program C R ε β} {s : S} :
    Always perform Allowed Inv Post (p >>= f) s ↔
      Always perform Allowed Inv
        (fun r s => match r with
          | .ok a => Always perform Allowed Inv Post (f a) s
          | .error e => Post (.error e) s) p s := by
  induction p generalizing s with
  | ret r =>
    cases r with
    | ok a => exact ⟨fun h => ⟨h.inv, h⟩, fun h => h.2⟩
    | error e => exact Iff.rfl
  | call c k ih =>
    rw [call_bind, always_call, always_call]
    exact and_congr_right fun _ => forall₂_congr fun o _ => ih _

/-- The usual shape of a postcondition: of a returned value `Q` holds, and the program may fail
unless `strict` holds. -/
def Returns (strict : Prop) (Q : α → S → Prop) : Except ε α → S → Prop
  | .ok a, s => Q a s
  | .error _, _ => ¬ strict

theorem always_bind_returns {strict : Prop} {Q : β → S → Prop} {p : Program C R ε α}
    {f : α → Program C R ε β} {s : S}
    (h : Always perform Allowed Inv
      (Returns strict fun a s => Always perform Allowed Inv (Returns strict Q) (f a) s) p s) :
    Always perform Allowed Inv (Returns strict Q) (p >>= f) s := by
  refine always_bind.mpr (h.mono fun r s hinv hr => ?_)
  cases r with
  | ok a => exact hr
  | error e => exact hr

/-- One call of the program keeps the condition. -/
theorem Always.step {Post : Except ε α → S → Prop} {p : Program C R ε α} {s : S}
    (h : Always perform Allowed Inv Post p s) {o : O} (ho : Allowed o) :
    Always perform Allowed Inv Post (step perform o (p, s)).1 (Programs.step perform o (p, s)).2 := by
  cases p with
  | ret r => exact h
  | call c k => exact h.2 o ho

/-- Wherever the program is interrupted the invariant holds, and the postcondition holds if it has
returned. -/
theorem Always.exec {Post : Except ε α → S → Prop} {p : Program C R ε α} {s : S}
    (h : Always perform Allowed Inv Post p s) {os : List O} (hos : ∀ o ∈ os, Allowed o) :
    Inv (exec perform os (p, s)).2 ∧
      ∀ r, (Programs.exec perform os (p, s)).1 = .ret r →
        Post r (Programs.exec perform os (p, s)).2 := by
  induction os generalizing p s with
  | nil =>
    refine ⟨h.inv, fun r hr => ?_⟩
    rw [exec_nil] at hr ⊢
    rw [show p = .ret r from hr] at h
    exact h.2
  | cons o os ih =>
    have hrest : ∀ o ∈ os, Allowed o := fun o ho => hos o (List.mem_cons_of_mem _ ho)
    exact ih (h.step (hos o List.mem_cons_self)) hrest

/-- The program followed to its end keeps the invariant and meets the postcondition. -/
theorem Always.run {Post : Except ε α → S → Prop} {p : Program C R ε α} {s : S} {env : ℕ → O}
    (h : Always perform Allowed Inv Post p s) {n : ℕ} (henv : ∀ m, n ≤ m → Allowed (env m)) :
    Inv (run perform env p n s).2.2 ∧
      Post (Programs.run perform env p n s).1 (Programs.run perform env p n s).2.2 := by
  induction p generalizing n s with
  | ret r => exact h
  | call c k ih =>
    exact ih _ (h.2 _ (henv n (Nat.le_refl n))) fun m hm => henv m (Nat.le_of_succ_le hm)

end

end Kafkax.Programs
