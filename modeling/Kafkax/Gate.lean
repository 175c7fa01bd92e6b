import Mathlib.Data.Fintype.Basic
import Kafkax.Shutdown

/-!
# The lifecycle as a gate

What a `Lifecycle` is for, without its counter, its channels and its two checks: a gate that
operations pass, each in one action, until it is closed; from then on they are refused, and a
`close` returns `Ok` when nobody is inside.

`gate_step` is the refinement: each step of a lifecycle, in any interleaving, is an action of the
gate or does not show.  An operation passes the gate at the second check of `start_operation`,
and the gate is closed by the store of `closed`; the steps in between, in which the counter and the
flag disagree, do not show.  `lifecycle_refines_gate` is the simulation of whole runs, by which the
guarantees proved on the gate (`Gate.Sound`) hold of the lifecycle.
-/

namespace Kafkax

open Counting Relation

/-! ### The gate -/

/-- How far an operation is: not through yet, inside, gone, or turned away. -/
inductive Visit where
  | outside
  | inside
  | left
  | refused (error : KafkaError)

/-- A gate with its visitors, and the answers of the calls that close it. -/
structure Gate (ι κ : Type) where
  closed : Bool
  visit : ι → Visit
  verdict : κ → Option (KafkaResult Unit)

namespace Gate

variable {ι κ : Type} [DecidableEq ι] [DecidableEq κ]

/-- The open gate. -/
def new : Gate ι κ := ⟨false, fun _ => .outside, fun _ => none⟩

/-- One action. -/
inductive Step (g : Gate ι κ) : Gate ι κ → Prop where
  | enter (i : ι) (hi : g.visit i = .outside) (hopen : g.closed = false) :
      Step g { g with visit := Function.update g.visit i .inside }
  | refuse (i : ι) (error : KafkaError) (hi : g.visit i = .outside) (hclosed : g.closed = true) :
      Step g { g with visit := Function.update g.visit i (.refused error) }
  | leave (i : ι) (hi : g.visit i = .inside) :
      Step g { g with visit := Function.update g.visit i .left }
  | close : Step g { g with closed := true }
  | confirm (k : κ) (hk : g.verdict k = none) (hclosed : g.closed = true)
      (hempty : ∀ i, g.visit i ≠ .inside) :
      Step g { g with verdict := Function.update g.verdict k (some (.ok ())) }
  | giveUp (k : κ) (error : KafkaError) (hk : g.verdict k = none) (hclosed : g.closed = true) :
      Step g { g with verdict := Function.update g.verdict k (some (.error error)) }

/-- What holds of a gate: the verdicts are given after it was closed, `Ok` only when nobody is
inside, and nobody is turned away before. -/
structure Sound (g : Gate ι κ) : Prop where
  closed : ∀ k result, g.verdict k = some result → g.closed = true
  empty : ∀ k, g.verdict k = some (.ok ()) → ∀ i, g.visit i ≠ .inside
  refused : ∀ i error, g.visit i = .refused error → g.closed = true

variable {g g' : Gate ι κ}

omit [DecidableEq ι] [DecidableEq κ] in
theorem sound_new : Sound (new : Gate ι κ) :=
  ⟨fun _ _ h => absurd h (by simp [new]), fun _ h => absurd h (by simp [new]),
    fun _ _ h => absurd h (by simp [new])⟩

/-- **An action** keeps the gate sound. -/
theorem Sound.step (h : Sound g) (hstep : Step g g') : Sound g' := by
  cases hstep with
  | enter i hi hopen =>
    have hnone : ∀ k result, g.verdict k ≠ some result := by
      intro k result hk
      rw [h.closed k result hk] at hopen
      exact absurd hopen (by simp)
    refine ⟨fun k result hk => absurd hk (hnone k result), fun k hk => absurd hk (hnone k _), ?_⟩
    exact (Function.forall_update_iff g.visit
      fun _ visit => ∀ error, visit = .refused error → _).mpr
        ⟨fun _ heq => absurd heq (by simp), fun j _ => h.refused j⟩
  | refuse i error hi hclosed =>
    refine ⟨h.closed, fun k hk => ?_, fun _ _ _ => hclosed⟩
    exact (Function.forall_update_iff g.visit fun _ visit => visit ≠ .inside).mpr
      ⟨by simp, fun j _ => h.empty k hk j⟩
  | leave i hi =>
    refine ⟨h.closed, fun k hk => absurd hi (h.empty k hk i), ?_⟩
    exact (Function.forall_update_iff g.visit
      fun _ visit => ∀ error, visit = .refused error → _).mpr
        ⟨fun _ heq => absurd heq (by simp), fun j _ => h.refused j⟩
  | close => exact ⟨fun _ _ _ => rfl, h.empty, fun _ _ _ => rfl⟩
  | confirm k hk hclosed hempty => exact ⟨fun _ _ _ => hclosed, fun _ _ => hempty, h.refused⟩
  | giveUp k error hk hclosed =>
    refine ⟨fun _ _ _ => hclosed, ?_, h.refused⟩
    exact (Function.forall_update_iff g.verdict fun _ verdict => verdict = some (.ok ()) → _).mpr
      ⟨fun heq => absurd heq (by simp), fun j _ => h.empty j⟩

/-- **A run** of the gate. -/
theorem Sound.run (h : Sound g) (hrun : ReflTransGen Step g g') : Sound g' := by
  induction hrun with
  | refl => exact h
  | tail _ hstep ih => exact ih.step hstep

end Gate

/-! ### The lifecycle seen as a gate -/

/-- The visit of an operation: until the second check it is outside. -/
def Operation.visit : Operation → Visit
  | .idle | .opened | .added | .guarded => .outside
  | .refused => .refused (.closed "连接池正在关闭")
  | .working _ => .inside
  | .notifying (.ok ()) | .finished (.ok ()) => .left
  | .notifying (.error error) | .finished (.error error) => .refused error

theorem Operation.working_of_inside {operation : Operation} (h : operation.visit = .inside) :
    operation.Working := by
  cases operation with
  | working calling => exact trivial
  | notifying result => cases result <;> exact absurd h (by simp [visit])
  | finished result => cases result <;> exact absurd h (by simp [visit])
  | _ => exact absurd h (by simp [visit])

/-- The answer of a call of `close`. -/
def Closer.verdict : Closer → Option (KafkaResult Unit)
  | .returned result => some result
  | _ => none

namespace Lifecycle

variable {ι κ ω : Type}

/-- The gate of a lifecycle. -/
def gate (s : Lifecycle ι κ ω) : Gate ι κ where
  closed := s.closed
  visit i := (s.operation i).visit
  verdict k := (s.closer k).verdict

variable [DecidableEq ι] [DecidableEq κ] {s s' : Lifecycle ι κ ω}

/-- A step of an operation that does not show, or is an action of the gate. -/
theorem gate_operation {i : ι} {operation : Operation} (hclosed : s'.closed = s.closed)
    (hcloser : s'.closer = s.closer)
    (hoperation : s'.operation = Function.update s.operation i operation)
    (h : operation.visit = (s.operation i).visit ∨ Gate.Step s.gate
      { s.gate with visit := Function.update s.gate.visit i operation.visit }) :
    ReflGen Gate.Step s.gate s'.gate := by
  have hgate : s'.gate =
      { s.gate with visit := Function.update s.gate.visit i operation.visit } := by
    rw [gate, gate, hclosed, hcloser, hoperation]
    refine congrArg (fun visit => Gate.mk s.closed visit _) (funext fun j => ?_)
    exact Function.apply_update (fun _ => Operation.visit) s.operation i operation j
  rcases h with hsame | hstep
  · rw [hgate, hsame, show Function.update s.gate.visit i (s.operation i).visit = s.gate.visit from
      Function.update_eq_self i s.gate.visit]
  · rw [hgate]
    exact .single hstep

omit [DecidableEq ι] in
theorem gate_eq_of_closer (s s' : Lifecycle ι κ ω) {k : κ} {c : Closer}
    (hoperation : s'.operation = s.operation)
    (hcloser : s'.closer = Function.update s.closer k c) :
    s'.gate = ⟨s'.closed, s.gate.visit, Function.update s.gate.verdict k c.verdict⟩ := by
  rw [gate, hcloser, hoperation]
  refine congrArg (Gate.mk _ _) (funext fun j => ?_)
  exact Function.apply_update (fun _ => Closer.verdict) s.closer k c j

/-- A step of a call of `close` that does not show, or is an action of the gate. -/
theorem gate_closer {k : κ} {c : Closer} (hclosed : s'.closed = s.closed)
    (hoperation : s'.operation = s.operation)
    (hcloser : s'.closer = Function.update s.closer k c)
    (h : c.verdict = (s.closer k).verdict ∨ Gate.Step s.gate
      { s.gate with verdict := Function.update s.gate.verdict k c.verdict }) :
    ReflGen Gate.Step s.gate s'.gate := by
  rw [gate_eq_of_closer s s' hoperation hcloser, hclosed]
  rcases h with hsame | hstep
  · rw [hsame, show Function.update s.gate.verdict k (s.closer k).verdict = s.gate.verdict from
      Function.update_eq_self k s.gate.verdict]
    exact .refl
  · exact .single hstep

omit [DecidableEq ι] [DecidableEq κ] in
theorem gate_visit {i : ι} {operation : Operation} (hi : s.operation i = operation) :
    s.gate.visit i = operation.visit := congrArg Operation.visit hi

omit [DecidableEq ι] [DecidableEq κ] in
theorem gate_verdict {k : κ} {c : Closer} (hk : s.closer k = c) : s.gate.verdict k = c.verdict :=
  congrArg Closer.verdict hk

/-- **Refinement.**  A step of a lifecycle is an action of its gate, or does not show. -/
theorem gate_step [Fintype ι] [DecidableEq ω] {keeper : ω → Option ι} (h : Inv keeper s)
    (hstep : Step keeper s s') : ReflGen Gate.Step s.gate s'.gate := by
  have hwaiting : ∀ {k seen}, s.closer k = .waiting seen → s.gate.closed = true := by
    intro k seen hk
    have hinv := h.closers k
    rw [hk] at hinv
    exact hinv.2.1
  cases hstep with
  | ensureOpen i hpool hi =>
    refine gate_operation rfl rfl rfl ?_
    by_cases hclosed : s.closed = true
    · rw [show s.ensureOpen = .error (.closed "连接池已关闭") from if_pos hclosed]
      exact Or.inr (.refuse i _ (gate_visit hi) hclosed)
    · rw [show s.ensureOpen = .ok () from if_neg hclosed, hi]
      exact Or.inl rfl
  | recheck i hi =>
    refine gate_operation rfl rfl rfl (Or.inr ?_)
    by_cases hclosed : s.closed = true
    · rw [if_pos hclosed]
      exact .refuse i _ (gate_visit hi) hclosed
    · rw [if_neg hclosed]
      exact .enter i (gate_visit hi) (Bool.eq_false_of_not_eq_true hclosed)
  | dropGuard i hi hreceivers =>
    exact gate_operation rfl rfl rfl (Or.inr (.leave i (gate_visit hi)))
  | storeClosed k seen hk =>
    have hsame : Function.update s.gate.verdict k (Closer.stored seen).verdict =
        s.gate.verdict := by
      rw [show (Closer.stored seen).verdict = s.gate.verdict k from (gate_verdict hk).symm]
      exact Function.update_eq_self k s.gate.verdict
    have hgate : gate { s with
        closed := true
        closer := Function.update s.closer k (.stored seen) } =
        { s.gate with closed := true } := by
      have heq := gate_eq_of_closer s
        { s with closed := true, closer := Function.update s.closer k (.stored seen) } rfl rfl
      rw [heq, hsame]
    rw [hgate]
    exact .single .close
  | load k seen hk =>
    have hinv := h.closers k
    rw [hk] at hinv
    refine gate_closer rfl rfl rfl ?_
    by_cases hzero : s.active = 0
    · have hempty : ∀ i, s.gate.visit i ≠ .inside := by
        intro i hinside
        have hpos := tally_pos (Operation.working_of_inside hinside).counted
        rw [← h.active_eq, hzero] at hpos
        exact absurd hpos (Nat.lt_irrefl 0)
      rw [if_pos hzero]
      exact Or.inr (.confirm k (gate_verdict hk) hinv.2.1 hempty)
    · rw [if_neg hzero, hk]
      exact Or.inl rfl
  | activityGone k seen hk hgone =>
    exact gate_closer rfl rfl rfl (Or.inr (.giveUp k _ (gate_verdict hk) (hwaiting hk)))
  | timeout k seen hk =>
    exact gate_closer rfl rfl rfl (Or.inr (.giveUp k _ (gate_verdict hk) (hwaiting hk)))
  | fetchAdd i hi hroom => exact gate_operation rfl rfl rfl (Or.inl (by rw [hi]; rfl))
  | newGuard i hi => exact gate_operation rfl rfl rfl (Or.inl (by rw [hi]; rfl))
  | beginCall i hi => exact gate_operation rfl rfl rfl (Or.inl (by rw [hi]; rfl))
  | endCall i hi => exact gate_operation rfl rfl rfl (Or.inl (by rw [hi]; rfl))
  | rollBack i hi => exact gate_operation rfl rfl rfl (Or.inl (by rw [hi]; rfl))
  | notify i result hi =>
    refine gate_operation rfl rfl rfl (Or.inl ?_)
    rw [hi]
    cases result <;> rfl
  | subscribe k hpool hk => exact gate_closer rfl rfl rfl (Or.inl (by rw [hk]; rfl))
  | broadcast k seen hk => exact gate_closer rfl rfl rfl (Or.inl (by rw [hk]; rfl))
  | wake k seen hk hunseen => exact gate_closer rfl rfl rfl (Or.inl (by rw [hk]; rfl))
  | dropClose k seen hk => exact gate_closer rfl rfl rfl (Or.inl (by rw [hk]; rfl))
  | _ => exact .refl

/-- **A lifecycle is a gate.**  Seen through `gate`, a new lifecycle is the open gate, every step of
every interleaving is at most one action of the gate, and every run is a run of the gate.  So what
holds of gates holds of lifecycles: a `close` answers only after the pool was closed, `Ok` only when
no guard is in use, and an operation is refused only when the pool is closed. -/
theorem lifecycle_refines_gate [Fintype ι] [DecidableEq ω] {keeper : ω → Option ι}
    (h : Reachable keeper s) :
    ReflTransGen Gate.Step .new s.gate ∧
    (∀ s', Step keeper s s' → ReflGen Gate.Step s.gate s'.gate) ∧
    (∀ s', ReflTransGen (Step keeper) s s' → ReflTransGen Gate.Step s.gate s'.gate) ∧
    s.gate.Sound := by
  have hrun : ∀ {s s' : Lifecycle ι κ ω}, Inv keeper s → ReflTransGen (Step keeper) s s' →
      Inv keeper s' ∧ ReflTransGen Gate.Step s.gate s'.gate := by
    intro s s' hinv hrun
    induction hrun with
    | refl => exact ⟨hinv, .refl⟩
    | tail _ hstep ih => exact ⟨ih.1.step hstep, ih.2.trans (gate_step ih.1 hstep).to_reflTransGen⟩
  obtain ⟨hinv, hreached⟩ := hrun inv_new h
  exact ⟨hreached, fun s' hstep => gate_step hinv hstep, fun s' hs' => (hrun hinv hs').2,
    Gate.sound_new.run hreached⟩

theorem lifecycle_refines_gate_parked : ∃ g : Gate Bool Unit, ReflTransGen Gate.Step .new g ∧
    g.visit true = .left ∧ g.visit false = .refused (.closed "连接池正在关闭") ∧
    g.verdict () = some (.ok ()) ∧ g.closed = true := by
  obtain ⟨s, hreachable, -, hreturned, hleft, hrefused⟩ := closed_while_parked
  obtain ⟨hreached, -, -, hsound⟩ := lifecycle_refines_gate hreachable
  have hverdict : s.gate.verdict () = some (.ok ()) := gate_verdict hreturned
  exact ⟨s.gate, hreached, gate_visit hleft, gate_visit hrefused, hverdict,
    hsound.closed () _ hverdict⟩

end Lifecycle

end Kafkax
