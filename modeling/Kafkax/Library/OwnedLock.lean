import Mathlib.Logic.Function.Basic
import Mathlib.Logic.Relation
import Kafkax.Library.Program

/-!
# Calls under an owned lock

A shared state behind an asynchronous lock.  A call asks for the lock, moves the guard it is given
into a task of its own, and waits for that task; the guard is dropped once the task's program has
returned.  The caller may vanish wherever it waits: before it has the lock, with the lock granted
and the task not yet spawned, or while the task runs.  The task does not notice.

`Step` is one step of one of the calls, so a run of steps is any interleaving of any number of
them, and a program moves by one call to the environment at a time.

The object has a sequential specification: `next i x` is the answer to call `i` on the value `x`
and the value afterwards, and `Rep x s` says that the shared state holds `x`.  If every program,
run alone, meets the specification (`Meets`), then every interleaving does: `Linearised` is the
invariant, with a history of the completed calls in the order of their releases.

* `linearised_step` and `linearised_run` keep the invariant; the history only grows.
* `Linearised.exclusive`: at most one program is running.
-/

namespace Kafkax.OwnedLock

open Programs

/-- Where the caller of a call is. -/
inductive Caller (ε α : Type) where
  | idle
  | waiting
  | granted
  | awaiting
  | returned (answer : Except ε α)
  | dropped

/-- The caller has not spawned its task yet. -/
def Caller.Early {ε α : Type} : Caller ε α → Prop
  | .idle | .waiting | .granted => True
  | _ => False

/-- Where the task of a call is. -/
inductive Task (C : Type) (R : C → Type) (ε α : Type) where
  | absent
  | running (program : Program C R ε α)
  | finished (answer : Except ε α)

/-- The callers, the tasks, the call whose guard the lock has given out, and the shared state. -/
structure State (ι C : Type) (R : C → Type) (ε α S : Type) where
  caller : ι → Caller ε α
  task : ι → Task C R ε α
  lock : Option ι
  shared : S

variable {ι C : Type} {R : C → Type} {ε α S O : Type}

namespace State

/-- No call has begun. -/
def start (shared : S) : State ι C R ε α S := ⟨fun _ => .idle, fun _ => .absent, none, shared⟩

/-- The program of the call is running: its task holds the guard. -/
def Running (s : State ι C R ε α S) (i : ι) : Prop := ∃ program, s.task i = .running program

/-- The program of the call has returned and its guard is dropped. -/
def Completed (s : State ι C R ε α S) (i : ι) : Prop := ∃ answer, s.task i = .finished answer

end State

section

variable [DecidableEq ι] (perform : O → (c : C) → S → R c × S) (Allowed : O → Prop)
  (refusal : ι → Option ε) (body : ι → Program C R ε α)

/-- One step of one call. -/
inductive Step (s : State ι C R ε α S) : State ι C R ε α S → Prop where
  /-- The call fails before it asks for the lock. -/
  | refuse (i : ι) (e : ε) (hcaller : s.caller i = .idle) (hrefusal : refusal i = some e) :
      Step s { s with caller := Function.update s.caller i (.returned (.error e)) }
  | request (i : ι) (hcaller : s.caller i = .idle) (hrefusal : refusal i = none) :
      Step s { s with caller := Function.update s.caller i .waiting }
  | grant (i : ι) (hcaller : s.caller i = .waiting) (hlock : s.lock = none) :
      Step s { s with caller := Function.update s.caller i .granted, lock := some i }
  /-- The guard moves into the task. -/
  | spawn (i : ι) (hcaller : s.caller i = .granted) :
      Step s
        { s with
          caller := Function.update s.caller i .awaiting
          task := Function.update s.task i (.running (body i)) }
  | call (i : ι) (program : Program C R ε α) (o : O) (htask : s.task i = .running program)
      (ho : Allowed o) :
      Step s
        { s with
          task := Function.update s.task i (.running (step perform o (program, s.shared)).1)
          shared := (step perform o (program, s.shared)).2 }
  | release (i : ι) (answer : Except ε α) (htask : s.task i = .running (.ret answer)) :
      Step s { s with task := Function.update s.task i (.finished answer), lock := none }
  | deliver (i : ι) (answer : Except ε α) (hcaller : s.caller i = .awaiting)
      (htask : s.task i = .finished answer) :
      Step s { s with caller := Function.update s.caller i (.returned answer) }
  | dropWaiting (i : ι) (hcaller : s.caller i = .waiting) :
      Step s { s with caller := Function.update s.caller i .dropped }
  /-- A guard that was given out and not yet moved into the task is dropped with the caller. -/
  | dropGranted (i : ι) (hcaller : s.caller i = .granted) :
      Step s { s with caller := Function.update s.caller i .dropped, lock := none }
  | dropAwaiting (i : ι) (hcaller : s.caller i = .awaiting) :
      Step s { s with caller := Function.update s.caller i .dropped }

end

/-! ### The sequential specification -/

variable {σ : Type}

/-- The value after the calls of a history, one after the other. -/
def after (next : ι → σ → Except ε α × σ) (init : σ) (history : List ι) : σ :=
  history.foldl (fun x i => (next i x).2) init

theorem after_snoc (next : ι → σ → Except ε α × σ) (init : σ) (history : List ι) (i : ι) :
    after next init (history ++ [i]) = (next i (after next init history)).2 := by
  rw [after, List.foldl_append]
  rfl

/-- What a program still has to do, if the value was `x` when it began. -/
def Due (perform : O → (c : C) → S → R c × S) (Allowed : O → Prop)
    (next : ι → σ → Except ε α × σ) (Rep : σ → S → Prop) (i : ι) (x : σ)
    (program : Program C R ε α) (shared : S) : Prop :=
  Always perform Allowed (fun _ => True) (fun r s => r = (next i x).1 ∧ Rep (next i x).2 s)
    program shared

/-- Every program, run alone, meets the specification. -/
def Meets (perform : O → (c : C) → S → R c × S) (Allowed : O → Prop)
    (body : ι → Program C R ε α) (next : ι → σ → Except ε α × σ) (Rep : σ → S → Prop) : Prop :=
  ∀ i x shared, Rep x shared → Due perform Allowed next Rep i x (body i) shared

/-- The invariant of all interleavings. -/
structure Linearised (perform : O → (c : C) → S → R c × S) (Allowed : O → Prop)
    (next : ι → σ → Except ε α × σ) (Rep : σ → S → Prop) (init : σ) (history : List ι)
    (s : State ι C R ε α S) : Prop where
  lock_iff : ∀ i, s.lock = some i ↔ s.caller i = .granted ∨ s.Running i
  early : ∀ i, (s.caller i).Early → s.task i = .absent
  returned : ∀ i a, s.caller i = .returned (.ok a) → s.task i = .finished (.ok a)
  due : ∀ i program, s.task i = .running program →
    Due perform Allowed next Rep i (after next init history) program s.shared
  settled : (∀ i, ¬ s.Running i) → Rep (after next init history) s.shared
  completed : ∀ i, i ∈ history ↔ s.Completed i
  answered : ∀ i answer, s.task i = .finished answer → ∃ earlier later,
    history = earlier ++ i :: later ∧ answer = (next i (after next init earlier)).1

section

variable {perform : O → (c : C) → S → R c × S} {Allowed : O → Prop} {refusal : ι → Option ε}
  {body : ι → Program C R ε α} {next : ι → σ → Except ε α × σ} {Rep : σ → S → Prop} {init : σ}
  {history : List ι} {s s' : State ι C R ε α S}

theorem linearised_start {shared : S} (h : Rep init shared) :
    Linearised perform Allowed next Rep init [] (.start shared) where
  lock_iff i := by
    constructor
    · intro hlock
      exact absurd hlock (by simp [State.start])
    · rintro (hgranted | ⟨program, hrunning⟩)
      · exact absurd hgranted (by simp [State.start])
      · exact absurd hrunning (by simp [State.start])
  early _ _ := rfl
  returned i a hreturned := absurd hreturned (by simp [State.start])
  due i program hrunning := absurd hrunning (by simp [State.start])
  settled _ := h
  completed i := by
    constructor
    · intro hmem
      exact absurd hmem List.not_mem_nil
    · intro ⟨answer, hfinished⟩
      exact absurd hfinished (by simp [State.start])
  answered i answer hfinished := absurd hfinished (by simp [State.start])

/-- **Mutual exclusion.** -/
theorem Linearised.exclusive (h : Linearised perform Allowed next Rep init history s) {i j : ι}
    (hi : s.Running i) (hj : s.Running j) : i = j := by
  have hlock := (h.lock_iff i).mpr (Or.inr hi)
  rw [(h.lock_iff j).mpr (Or.inr hj)] at hlock
  exact (Option.some.inj hlock).symm

/-- A call that holds the lock is the only one that can be running. -/
theorem Linearised.not_running (h : Linearised perform Allowed next Rep init history s) {i : ι}
    (hcaller : s.caller i = .granted) (j : ι) : ¬ s.Running j := by
  intro hrunning
  have hlock := (h.lock_iff i).mpr (Or.inl hcaller)
  rw [(h.lock_iff j).mpr (Or.inr hrunning)] at hlock
  have habsent := h.early i (by rw [hcaller]; exact trivial)
  obtain ⟨program, htask⟩ := hrunning
  rw [Option.some.inj hlock, habsent] at htask
  exact absurd htask (by simp)

variable [DecidableEq ι]

/-- A step that moves only a caller and the lock. -/
theorem Linearised.of_caller (h : Linearised perform Allowed next Rep init history s) (i : ι)
    {c : Caller ε α} {lock : Option ι}
    (hlock : ∀ j, lock = some j ↔ Function.update s.caller i c j = .granted ∨ s.Running j)
    (hearly : c.Early → s.task i = .absent)
    (hreturned : ∀ a, c = .returned (.ok a) → s.task i = .finished (.ok a)) :
    Linearised perform Allowed next Rep init history
      { s with caller := Function.update s.caller i c, lock := lock } where
  lock_iff := hlock
  early j := by
    show (Function.update s.caller i c j).Early → s.task j = .absent
    by_cases hji : j = i
    · rw [hji, Function.update_self]
      exact hearly
    · rw [Function.update_of_ne hji]
      exact h.early j
  returned j a := by
    show Function.update s.caller i c j = .returned (.ok a) → s.task j = .finished (.ok a)
    by_cases hji : j = i
    · rw [hji, Function.update_self]
      exact hreturned a
    · rw [Function.update_of_ne hji]
      exact h.returned j a
  due := h.due
  settled := h.settled
  completed := h.completed
  answered := h.answered

/-- A step of a caller that neither takes nor gives up the guard. -/
theorem Linearised.move (h : Linearised perform Allowed next Rep init history s) (i : ι)
    {c : Caller ε α} (hnew : c ≠ .granted) (hold : s.caller i ≠ .granted)
    (hearly : c.Early → s.task i = .absent)
    (hreturned : ∀ a, c = .returned (.ok a) → s.task i = .finished (.ok a)) :
    Linearised perform Allowed next Rep init history
      { s with caller := Function.update s.caller i c } := by
  refine h.of_caller i (fun j => ?_) hearly hreturned
  rw [h.lock_iff j]
  refine or_congr_left ?_
  by_cases hji : j = i
  · rw [hji, Function.update_self]
    exact ⟨fun hg => absurd hg hold, fun hg => absurd hg hnew⟩
  · rw [Function.update_of_ne hji]

theorem Linearised.grant (h : Linearised perform Allowed next Rep init history s) {i : ι}
    (hcaller : s.caller i = .waiting) (hlock : s.lock = none) :
    Linearised perform Allowed next Rep init history
      { s with caller := Function.update s.caller i .granted, lock := some i } := by
  have hearly : s.task i = .absent := h.early i (by rw [hcaller]; exact trivial)
  refine h.of_caller i (fun j => ?_) (fun _ => hearly) (fun a heq => absurd heq (by simp))
  have hfree : ¬ (s.caller j = .granted ∨ s.Running j) := by
    rw [← h.lock_iff j, hlock]
    simp
  by_cases hji : j = i
  · rw [hji, Function.update_self]
    simp
  · rw [Function.update_of_ne hji]
    exact ⟨fun heq => absurd (Option.some.inj heq).symm hji, fun hg => absurd hg hfree⟩

theorem Linearised.dropGranted (h : Linearised perform Allowed next Rep init history s) {i : ι}
    (hcaller : s.caller i = .granted) :
    Linearised perform Allowed next Rep init history
      { s with caller := Function.update s.caller i .dropped, lock := none } := by
  have hlock : s.lock = some i := (h.lock_iff i).mpr (Or.inl hcaller)
  refine h.of_caller i (fun j => ?_) (fun hd => absurd hd id) (fun a heq => absurd heq (by simp))
  have hidle := h.not_running hcaller j
  by_cases hji : j = i
  · rw [hji, Function.update_self]
    simpa [hji] using hidle
  · rw [Function.update_of_ne hji, ← h.lock_iff j, hlock]
    simpa using Ne.symm hji

/-- The call that holds the lock comes to have a running program, or to have the next one. -/
theorem Linearised.of_running (h : Linearised perform Allowed next Rep init history s) {i : ι}
    {caller : ι → Caller ε α} {program : Program C R ε α} {shared : S} (hlock : s.lock = some i)
    (hnew : ¬ s.Completed i) (hother : ∀ j, j ≠ i → caller j = s.caller j)
    (hearly : ¬ (caller i).Early) (hreturned : ∀ a, caller i ≠ .returned (.ok a))
    (hdue : Due perform Allowed next Rep i (after next init history) program shared) :
    Linearised perform Allowed next Rep init history
      { s with
        caller := caller
        task := Function.update s.task i (.running program)
        shared := shared } := by
  have hself : Function.update s.task i (.running program) i = .running program :=
    Function.update_self ..
  have htask : ∀ j, j ≠ i → Function.update s.task i (.running program) j = s.task j :=
    fun j hji => Function.update_of_ne hji ..
  refine ⟨fun j => ?_, fun j => ?_, fun j a => ?_, fun j other hrunning => ?_, fun hidle => ?_,
    fun j => ?_, fun j answer hfinished => ?_⟩
  · by_cases hji : j = i
    · rw [hji]
      exact ⟨fun _ => Or.inr ⟨program, hself⟩, fun _ => hlock⟩
    · simp only [State.Running, hother j hji, htask j hji]
      exact h.lock_iff j
  · by_cases hji : j = i
    · rw [hji]
      exact fun hd => absurd hd hearly
    · simp only [hother j hji, htask j hji]
      exact h.early j
  · by_cases hji : j = i
    · rw [hji]
      exact fun heq => absurd heq (hreturned a)
    · simp only [hother j hji, htask j hji]
      exact h.returned j a
  · by_cases hji : j = i
    · subst hji
      rw [← Task.running.inj (hself.symm.trans hrunning)]
      exact hdue
    · have hholds := (h.lock_iff j).mpr (Or.inr ⟨other, (htask j hji).symm.trans hrunning⟩)
      rw [hlock] at hholds
      exact absurd (Option.some.inj hholds).symm hji
  · exact absurd ⟨program, hself⟩ (hidle i)
  · by_cases hji : j = i
    · rw [hji, h.completed i]
      simp [State.Completed, Function.update_self] at hnew ⊢
      exact hnew
    · simp only [State.Completed, htask j hji]
      exact h.completed j
  · by_cases hji : j = i
    · rw [hji] at hfinished
      exact absurd (hself.symm.trans hfinished) (by simp)
    · exact h.answered j answer ((htask j hji).symm.trans hfinished)

/-- The guard moves into the task, whose program has everything to do. -/
theorem Linearised.spawn (hmeets : Meets perform Allowed body next Rep)
    (h : Linearised perform Allowed next Rep init history s) {i : ι}
    (hcaller : s.caller i = .granted) :
    Linearised perform Allowed next Rep init history
      { s with
        caller := Function.update s.caller i .awaiting
        task := Function.update s.task i (.running (body i)) } := by
  have hlock : s.lock = some i := (h.lock_iff i).mpr (Or.inl hcaller)
  have habsent : s.task i = .absent := h.early i (by rw [hcaller]; exact trivial)
  have hself : Function.update s.caller i .awaiting i = .awaiting := Function.update_self ..
  refine h.of_running hlock ?_ (fun j hji => Function.update_of_ne hji ..) ?_ ?_ ?_
  · intro ⟨answer, hfinished⟩
    exact absurd (habsent.symm.trans hfinished) (by simp)
  · rw [hself]
    exact id
  · intro a
    rw [hself]
    simp
  · exact hmeets i _ _ (h.settled (h.not_running hcaller))

/-- A call of a running program. -/
theorem Linearised.call (h : Linearised perform Allowed next Rep init history s) {i : ι}
    {program : Program C R ε α} {o : O} (htask : s.task i = .running program) (ho : Allowed o) :
    Linearised perform Allowed next Rep init history
      { s with
        task := Function.update s.task i (.running (step perform o (program, s.shared)).1)
        shared := (step perform o (program, s.shared)).2 } := by
  have hlock : s.lock = some i := (h.lock_iff i).mpr (Or.inr ⟨program, htask⟩)
  refine h.of_running hlock ?_ (fun _ _ => rfl) ?_ ?_ ?_
  · intro ⟨answer, hfinished⟩
    exact absurd (htask.symm.trans hfinished) (by simp)
  · intro hearly
    exact absurd (htask.symm.trans (h.early i hearly)) (by simp)
  · intro a hreturned
    exact absurd (htask.symm.trans (h.returned i a hreturned)) (by simp)
  · exact Always.step (h.due i program htask) ho

/-- A program that has returned takes its place in the history, and its guard is dropped. -/
theorem Linearised.release (h : Linearised perform Allowed next Rep init history s) {i : ι}
    {answer : Except ε α} (hreturn : s.task i = .running (.ret answer)) :
    Linearised perform Allowed next Rep init (history ++ [i])
      { s with task := Function.update s.task i (.finished answer), lock := none } := by
  have hself : Function.update s.task i (.finished answer) i = .finished answer :=
    Function.update_self ..
  have htask : ∀ j, j ≠ i → Function.update s.task i (.finished answer) j = s.task j :=
    fun j hji => Function.update_of_ne hji ..
  have hlock : s.lock = some i := (h.lock_iff i).mpr (Or.inr ⟨_, hreturn⟩)
  have hidle : ∀ j, ¬ (s.caller j = .granted ∨ s.Running j) ∨ j = i := by
    intro j
    by_cases hji : j = i
    · exact Or.inr hji
    · refine Or.inl fun hholds => hji ?_
      rw [← h.lock_iff j, hlock] at hholds
      exact (Option.some.inj hholds).symm
  obtain ⟨-, hanswer, hrep⟩ := h.due i _ hreturn
  refine ⟨fun j => ?_, fun j hearly => ?_, fun j a hreturned => ?_, fun j program hrunning => ?_,
    fun _ => ?_, fun j => ?_, fun j other hfinished => ?_⟩
  · refine ⟨fun hnone => absurd hnone (by simp), fun hholds => ?_⟩
    rcases hidle j with hfree | rfl
    · by_cases hji : j = i
      · subst hji
        exact absurd (Or.inr ⟨_, hreturn⟩) hfree
      · simp only [State.Running, htask j hji] at hholds
        exact absurd hholds hfree
    · rcases hholds with hgranted | ⟨program, hrunning⟩
      · have habsent := h.early j (by rw [hgranted]; exact trivial)
        exact absurd (hreturn.symm.trans habsent) (by simp)
      · exact absurd (hself.symm.trans hrunning) (by simp)
  · have habsent := h.early j hearly
    by_cases hji : j = i
    · rw [hji] at habsent
      exact absurd (hreturn.symm.trans habsent) (by simp)
    · exact (htask j hji).trans habsent
  · have hfinished := h.returned j a hreturned
    by_cases hji : j = i
    · rw [hji] at hfinished
      exact absurd (hreturn.symm.trans hfinished) (by simp)
    · exact (htask j hji).trans hfinished
  · by_cases hji : j = i
    · rw [hji] at hrunning
      exact absurd (hself.symm.trans hrunning) (by simp)
    · rcases hidle j with hfree | heq
      · exact absurd (Or.inr ⟨program, (htask j hji).symm.trans hrunning⟩) hfree
      · exact absurd heq hji
  · rw [after_snoc]
    exact hrep
  · by_cases hji : j = i
    · rw [hji]
      exact ⟨fun _ => ⟨answer, hself⟩, fun _ => List.mem_append_right _ List.mem_cons_self⟩
    · simp only [State.Completed, htask j hji, List.mem_append, List.mem_singleton, hji, or_false]
      exact h.completed j
  · by_cases hji : j = i
    · subst hji
      refine ⟨history, [], rfl, ?_⟩
      rw [← Task.finished.inj (hself.symm.trans hfinished)]
      exact hanswer
    · obtain ⟨earlier, later, hsplit, heq⟩ :=
        h.answered j other ((htask j hji).symm.trans hfinished)
      refine ⟨earlier, later ++ [i], ?_, heq⟩
      rw [hsplit, List.append_assoc, List.cons_append]

/-! ### Steps and runs -/

omit [DecidableEq ι] in
/-- The history is kept. -/
theorem Linearised.kept (h : Linearised perform Allowed next Rep init history s) :
    ∃ more, Linearised perform Allowed next Rep init (history ++ more) s :=
  ⟨[], by rwa [List.append_nil]⟩

/-- **A step** keeps the invariant; the history is kept or grows by one call. -/
theorem linearised_step (hmeets : Meets perform Allowed body next Rep)
    (h : Linearised perform Allowed next Rep init history s)
    (hstep : Step perform Allowed refusal body s s') :
    ∃ more, Linearised perform Allowed next Rep init (history ++ more) s' := by
  cases hstep with
  | refuse i e hcaller hrefusal =>
    exact (h.move i (by simp) (by simp [hcaller]) (fun hearly => absurd hearly id)
      (fun a heq => absurd heq (by simp))).kept
  | request i hcaller hrefusal =>
    have habsent : s.task i = .absent := h.early i (by rw [hcaller]; exact trivial)
    exact (h.move i (by simp) (by simp [hcaller]) (fun _ => habsent)
      (fun a heq => absurd heq (by simp))).kept
  | grant i hcaller hlock => exact (h.grant hcaller hlock).kept
  | spawn i hcaller => exact (h.spawn hmeets hcaller).kept
  | call i program o htask ho => exact (h.call htask ho).kept
  | release i answer htask => exact ⟨[i], h.release htask⟩
  | deliver i answer hcaller htask =>
    refine (h.move i (by simp) (by simp [hcaller]) (fun hearly => absurd hearly id)
      (fun a heq => ?_)).kept
    rw [htask, Caller.returned.inj heq]
  | dropWaiting i hcaller =>
    exact (h.move i (by simp) (by simp [hcaller]) (fun hearly => absurd hearly id)
      (fun a heq => absurd heq (by simp))).kept
  | dropGranted i hcaller => exact (h.dropGranted hcaller).kept
  | dropAwaiting i hcaller =>
    exact (h.move i (by simp) (by simp [hcaller]) (fun hearly => absurd hearly id)
      (fun a heq => absurd heq (by simp))).kept

/-- **A run** keeps the invariant, and extends the history. -/
theorem linearised_run (hmeets : Meets perform Allowed body next Rep)
    (h : Linearised perform Allowed next Rep init history s)
    (hrun : Relation.ReflTransGen (Step perform Allowed refusal body) s s') :
    ∃ more, Linearised perform Allowed next Rep init (history ++ more) s' := by
  induction hrun with
  | refl => exact h.kept
  | tail _ hstep ih =>
    obtain ⟨more, hmid⟩ := ih
    obtain ⟨last, hlast⟩ := linearised_step hmeets hmid hstep
    exact ⟨more ++ last, by rwa [← List.append_assoc]⟩

end

end Kafkax.OwnedLock
