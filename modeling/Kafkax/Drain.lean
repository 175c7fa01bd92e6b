import Kafkax.Library.Progress
import Kafkax.Shutdown

/-!
# Closing a pool winds it down

`close_sound` and `no_lost_wakeup` say what cannot go wrong with a `close`.  Here is what goes
right: a `close` that is not given up returns `Ok`.

`Winds` is a step that winds the lifecycle down: no new party starts, no `close` runs into its
deadline or is dropped, no broker call begins, and no branch of a `select!` completes next to the
shutdown signal.  Every such step lowers `workLeft`, whatever the order of the steps
(`workLeft_winds`), so there are at most that many.  A state without one has no `close` in progress,
and once the shutdown was broadcast no guard and no waiting receiver (`closers_of_stuck`,
`operations_of_stuck`, `receivers_of_stuck`).  `close_drains` puts the two together.
-/

namespace Kafkax.Lifecycle

open Counting WatchChannel Relation Progress

/-! ### The work that is left -/

/-- The steps an operation has left, if it has started. -/
def operationWork : Operation → ℕ
  | .idle | .finished _ => 0
  | .opened => 6
  | .added => 5
  | .guarded => 4
  | .working true => 3
  | .working false | .refused => 2
  | .notifying _ => 1

/-- Whether an operation will notify. -/
def willNotify : Operation → ℕ
  | .idle | .finished _ => 0
  | _ => 1

/-- Whether a call of `close` will broadcast. -/
def willBroadcast : Closer → ℕ
  | .subscribed _ | .stored _ => 1
  | _ => 0

/-- The steps a call of `close` has left; it may be woken by every notification up to `last`. -/
def closerWork (last : ℕ) : Closer → ℕ
  | .idle | .returned _ | .dropped => 0
  | .subscribed seen => 2 * (last - seen) + 4
  | .stored seen => 2 * (last - seen) + 3
  | .checking seen => 2 * (last - seen) + 2
  | .waiting seen => 2 * (last - seen) + 1

/-- The steps a receiver has left; it may be woken by every broadcast up to `last`. -/
def receiverWork (last : ℕ) : Receiver → ℕ
  | .absent | .dropped => 0
  | .ready seen | .woken seen => 2 * (last - seen) + 4
  | .parked seen => 2 * (last - seen) + 3
  | .returned => 1

section

variable {ι κ ω : Type} [Fintype ι] [Fintype κ]

/-- The version of `activity` after the notifications to come. -/
def lastActivity (s : Lifecycle ι κ ω) : ℕ := s.activity.version + total willNotify s.operation

/-- The version of `shutdown` after the broadcasts to come. -/
def lastShutdown (s : Lifecycle ι κ ω) : ℕ := s.shutdown.version + total willBroadcast s.closer

/-- The steps left. -/
def workLeft [Fintype ω] (s : Lifecycle ι κ ω) : ℕ :=
  total operationWork s.operation + total (closerWork s.lastActivity) s.closer +
    total (receiverWork s.lastShutdown) s.receiver

end

/-! ### Winding down -/

variable {ι κ ω : Type} [DecidableEq ι] [DecidableEq κ] [DecidableEq ω] {keeper : ω → Option ι}
  {s s' : Lifecycle ι κ ω}

/-- A step that winds the lifecycle down. -/
structure Winds (keeper : ω → Option ι) (s s' : Lifecycle ι κ ω) : Prop where
  step : Step keeper s s'
  changes : s' ≠ s
  pool : s'.pool = s.pool
  started : ∀ i, s.operation i = .idle → s'.operation i = .idle
  calls : ∀ i, s.operation i = .working false → s'.operation i ≠ .working true
  called : ∀ k, s.closer k = .idle → s'.closer k = .idle
  patient : ∀ k, (s.closer k).Running → (s'.closer k).Running ∨ s'.closer k = .returned (.ok ())
  subscribed : ∀ w, s.receiver w = .absent → s'.receiver w = .absent
  selects : ∀ w seen seen', s.receiver w = .parked seen → s'.receiver w ≠ .ready seen'

section

variable [Fintype ι] [Fintype κ] [Fintype ω]

omit [DecidableEq κ] [DecidableEq ω] in
/-- A step of an operation that has less to do afterwards, and notifies if it was going to. -/
theorem workLeft_operation {i : ι} {before operation : Operation} {active : ℕ}
    {activity : Watch UInt64} (hi : s.operation i = before)
    (hwork : operationWork operation < operationWork before)
    (hnotify : activity.version + willNotify operation =
      s.activity.version + willNotify before) :
    workLeft { s with
      active := active
      activity := activity
      operation := Function.update s.operation i operation } < s.workLeft := by
  have hwill := total_update willNotify s.operation i operation
  rw [hi] at hwill
  have hlast : lastActivity { s with
      active := active
      activity := activity
      operation := Function.update s.operation i operation } = s.lastActivity := by
    show activity.version + total willNotify (Function.update s.operation i operation) =
      s.activity.version + total willNotify s.operation
    omega
  have htotal := total_update operationWork s.operation i operation
  rw [hi] at htotal
  rw [workLeft, workLeft, hlast]
  show total operationWork (Function.update s.operation i operation) +
    total (closerWork s.lastActivity) s.closer +
      total (receiverWork s.lastShutdown) s.receiver < _
  omega

omit [DecidableEq ι] [DecidableEq ω] in
/-- A step of a call of `close` that has less to do afterwards, and broadcasts if it was going
to. -/
theorem workLeft_closer {k : κ} {before c : Closer} {closed : Bool} {shutdown : Watch Bool}
    (hk : s.closer k = before)
    (hwork : closerWork s.lastActivity c < closerWork s.lastActivity before)
    (hbroadcast : shutdown.version + willBroadcast c =
      s.shutdown.version + willBroadcast before) :
    workLeft { s with
      closed := closed
      shutdown := shutdown
      closer := Function.update s.closer k c } < s.workLeft := by
  have hwill := total_update willBroadcast s.closer k c
  rw [hk] at hwill
  have hlast : lastShutdown { s with
      closed := closed
      shutdown := shutdown
      closer := Function.update s.closer k c } = s.lastShutdown := by
    show shutdown.version + total willBroadcast (Function.update s.closer k c) =
      s.shutdown.version + total willBroadcast s.closer
    omega
  have htotal := total_update (closerWork s.lastActivity) s.closer k c
  rw [hk] at htotal
  rw [workLeft, workLeft, hlast]
  show total operationWork s.operation +
    total (closerWork s.lastActivity) (Function.update s.closer k c) +
      total (receiverWork s.lastShutdown) s.receiver < _
  omega

omit [DecidableEq ι] [DecidableEq κ] in
/-- A step of a receiver that has less to do afterwards. -/
theorem workLeft_receiver {w : ω} {before r : Receiver} (hw : s.receiver w = before)
    (hwork : receiverWork s.lastShutdown r < receiverWork s.lastShutdown before) :
    workLeft { s with receiver := Function.update s.receiver w r } < s.workLeft := by
  have htotal := total_update (receiverWork s.lastShutdown) s.receiver w r
  rw [hw] at htotal
  rw [workLeft, workLeft]
  show total operationWork s.operation + total (closerWork s.lastActivity) s.closer +
    total (receiverWork s.lastShutdown) (Function.update s.receiver w r) < _
  omega

/-- **Every step that winds down** leaves less work. -/
theorem workLeft_winds (h : Winds keeper s s') : s'.workLeft < s.workLeft := by
  have hstarted := h.started
  have hcalls := h.calls
  have hcalled := h.called
  have hpatient := h.patient
  have hsubscribed := h.subscribed
  have hselects := h.selects
  -- a `close` that ends without `Ok` gives up
  have gives_up : ∀ (k : κ) {c : Closer}, ¬ c.Running → c ≠ .returned (.ok ()) →
      ¬ ((Function.update s.closer k c k).Running ∨
        Function.update s.closer k c k = .returned (.ok ())) := by
    intro k c hrunning hreturned
    rw [Function.update_self]
    exact not_or.mpr ⟨hrunning, hreturned⟩
  have hlast : s.activity.version ≤ s.lastActivity := Nat.le_add_right _ _
  have hlastShutdown : s.shutdown.version ≤ s.lastShutdown := Nat.le_add_right _ _
  cases h.step with
  | ensureOpen i hpool hi =>
    have hidle : Function.update s.operation i _ i = .idle := hstarted i hi
    rw [Function.update_self] at hidle
    revert hidle
    cases s.ensureOpen <;> exact fun hidle => absurd hidle (by simp)
  | fetchAdd i hi hroom => exact workLeft_operation hi (by simp [operationWork]) rfl
  | newGuard i hi => exact workLeft_operation hi (by simp [operationWork]) rfl
  | recheck i hi =>
    by_cases hclosed : s.closed = true
    · rw [if_pos hclosed]
      exact workLeft_operation hi (by simp [operationWork]) rfl
    · rw [if_neg hclosed]
      exact workLeft_operation hi (by simp [operationWork]) rfl
  | beginCall i hi =>
    exact absurd (Function.update_self ..) (hcalls i hi)
  | endCall i hi => exact workLeft_operation hi (by simp [operationWork]) rfl
  | rollBack i hi => exact workLeft_operation hi (by simp [operationWork]) rfl
  | dropGuard i hi hreceivers => exact workLeft_operation hi (by simp [operationWork]) rfl
  | notify i result hi => exact workLeft_operation hi (by simp [operationWork]) rfl
  | subscribe k hpool hk =>
    have hidle : Function.update s.closer k _ k = .idle := hcalled k hk
    rw [Function.update_self] at hidle
    exact absurd hidle (by simp)
  | storeClosed k seen hk => exact workLeft_closer hk (by simp [closerWork]) rfl
  | broadcast k seen hk => exact workLeft_closer hk (by simp [closerWork]) rfl
  | load k seen hk =>
    by_cases hzero : s.active = 0
    · rw [if_pos hzero]
      exact workLeft_closer hk (by simp [closerWork]) rfl
    · rw [if_neg hzero]
      exact workLeft_closer hk (by simp [closerWork]) rfl
  | wake k seen hk hunseen =>
    have hlt : seen < s.activity.version := hunseen
    refine workLeft_closer hk ?_ rfl
    rw [closerWork, closerWork]
    omega
  | activityGone k seen hk hgone =>
    exact absurd (hpatient k (by rw [hk]; exact trivial)) (gives_up k id (by simp))
  | timeout k seen hk =>
    exact absurd (hpatient k (by rw [hk]; exact trivial)) (gives_up k id (by simp))
  | dropClose k seen hk =>
    exact absurd (hpatient k (by rw [hk]; exact trivial)) (gives_up k id (by simp))
  | subscribeShutdown w hw hkept =>
    have habsent : Function.update s.receiver w _ w = .absent := hsubscribed w hw
    rw [Function.update_self] at habsent
    exact absurd habsent (by simp)
  | borrow w seen hw =>
    cases s.shutdown.value <;>
      exact workLeft_receiver hw (by simp [receiverWork])
  | changed w seen hw hunseen =>
    have hlt : seen < s.shutdown.version := hunseen
    refine workLeft_receiver hw ?_
    rw [receiverWork, receiverWork]
    omega
  | borrowAgain w seen hw =>
    cases s.shutdown.value <;>
      exact workLeft_receiver hw (by simp [receiverWork])
  | shutdownGone w seen hw hgone => exact workLeft_receiver hw (by simp [receiverWork])
  | cancel w seen hw =>
    exact absurd (Function.update_self ..) (hselects w seen seen hw)
  | dropReceiver w =>
    cases hw : s.receiver w with
    | absent =>
      have habsent : Function.update s.receiver w _ w = .absent := hsubscribed w hw
      rw [Function.update_self] at habsent
      exact absurd habsent (by simp)
    | dropped =>
      refine absurd ?_ h.changes
      rw [← hw, Function.update_eq_self]
    | _ => exact workLeft_receiver hw (by simp [receiverWork])
  | dropPool hstarting hclosers hreceivers =>
    refine absurd ?_ h.changes
    have hpool : false = s.pool := h.pool
    rw [hpool]

end

/-! ### Where nothing winds down any more -/

/-- A step of an operation winds down if the operation has started and begins no call. -/
theorem Winds.of_operation {i : ι} {operation : Operation} {active : ℕ} {activity : Watch UInt64}
    (hstep : Step keeper s { s with
      active := active
      activity := activity
      operation := Function.update s.operation i operation })
    (hne : operation ≠ s.operation i) (hstarted : s.operation i ≠ .idle)
    (hcall : operation ≠ .working true) :
    Winds keeper s { s with
      active := active
      activity := activity
      operation := Function.update s.operation i operation } where
  step := hstep
  changes heq := Function.update_ne_self_iff.mpr hne (congrArg Lifecycle.operation heq)
  pool := rfl
  started j hj := by
    have hji : j ≠ i := by
      rintro rfl
      exact hstarted hj
    show Function.update s.operation i operation j = .idle
    rw [Function.update_of_ne hji, hj]
  calls j hj := by
    show Function.update s.operation i operation j ≠ .working true
    by_cases hji : j = i
    · rw [hji, Function.update_self]
      exact hcall
    · rw [Function.update_of_ne hji, hj]
      simp
  called _ hk := hk
  patient _ hk := Or.inl hk
  subscribed _ hw := hw
  selects w seen seen' hw := by
    show s.receiver w ≠ _
    rw [hw]
    simp

/-- A step of a call of `close` winds down if the call is in progress and is not given up. -/
theorem Winds.of_closer {k : κ} {c : Closer} {closed : Bool} {shutdown : Watch Bool}
    (hstep : Step keeper s { s with
      closed := closed
      shutdown := shutdown
      closer := Function.update s.closer k c })
    (hne : c ≠ s.closer k) (hrunning : (s.closer k).Running)
    (hpatient : c.Running ∨ c = .returned (.ok ())) :
    Winds keeper s { s with
      closed := closed
      shutdown := shutdown
      closer := Function.update s.closer k c } where
  step := hstep
  changes heq := Function.update_ne_self_iff.mpr hne (congrArg Lifecycle.closer heq)
  pool := rfl
  started _ hi := hi
  calls i hi := by
    show s.operation i ≠ _
    rw [hi]
    simp
  called j hj := by
    have hjk : j ≠ k := by
      rintro rfl
      rw [hj] at hrunning
      exact hrunning
    show Function.update s.closer k c j = .idle
    rw [Function.update_of_ne hjk, hj]
  patient j hj := by
    show (Function.update s.closer k c j).Running ∨ Function.update s.closer k c j = _
    by_cases hjk : j = k
    · rw [hjk, Function.update_self]
      exact hpatient
    · rw [Function.update_of_ne hjk]
      exact Or.inl hj
  subscribed _ hw := hw
  selects w seen seen' hw := by
    show s.receiver w ≠ _
    rw [hw]
    simp

/-- A step of a receiver winds down if the receiver is there and its wait is not cut short. -/
theorem Winds.of_receiver {w : ω} {r : Receiver}
    (hstep : Step keeper s { s with receiver := Function.update s.receiver w r })
    (hne : r ≠ s.receiver w) (hthere : s.receiver w ≠ .absent) (hwait : ∀ seen, r ≠ .ready seen) :
    Winds keeper s { s with receiver := Function.update s.receiver w r } where
  step := hstep
  changes heq := Function.update_ne_self_iff.mpr hne (congrArg Lifecycle.receiver heq)
  pool := rfl
  started _ hi := hi
  calls i hi := by
    show s.operation i ≠ _
    rw [hi]
    simp
  called _ hk := hk
  patient _ hk := Or.inl hk
  subscribed v hv := by
    have hvw : v ≠ w := by
      rintro rfl
      exact hthere hv
    show Function.update s.receiver w r v = .absent
    rw [Function.update_of_ne hvw, hv]
  selects v seen seen' hv := by
    show Function.update s.receiver w r v ≠ _
    by_cases hvw : v = w
    · rw [hvw, Function.update_self]
      exact hwait seen'
    · rw [Function.update_of_ne hvw, hv]
      simp

section

variable [Fintype ι]

/-- Once the shutdown was broadcast, no receiver waits. -/
theorem receivers_of_stuck (h : Inv keeper s) (hstuck : Stuck (Winds keeper) s)
    (hvalue : s.shutdown.value = true) (w : ω) : ¬ (s.receiver w).Active := by
  intro hactive
  cases hw : s.receiver w with
  | ready seen =>
    exact hstuck _ (.of_receiver (borrow_returns hvalue (Or.inl hw)) (by simp [hw]) (by simp [hw])
      (by simp))
  | woken seen =>
    exact hstuck _ (.of_receiver (borrow_returns hvalue (Or.inr hw)) (by simp [hw]) (by simp [hw])
      (by simp))
  | parked seen =>
    have hreceiver := h.receivers w
    rw [hw] at hreceiver
    exact hstuck _ (.of_receiver (.changed w seen hw (hreceiver.2.2 hvalue)) (by simp [hw])
      (by simp [hw]) (by simp))
  | _ =>
    rw [hw] at hactive
    exact hactive

/-- Once the shutdown was broadcast, no operation has a guard or is about to get one. -/
theorem operations_of_stuck (h : Inv keeper s) (hstuck : Stuck (Winds keeper) s)
    (hvalue : s.shutdown.value = true) (i : ι) :
    s.operation i = .idle ∨ ∃ result, s.operation i = .finished result := by
  have hreceivers := receivers_of_stuck h hstuck hvalue
  -- an operation past its `fetch_add` can always go on
  have hregistered : ∀ j, ¬ (s.operation j).Counted := by
    intro j hcounted
    cases hj : s.operation j with
    | added =>
      exact hstuck _ (.of_operation (.newGuard j hj) (by simp [hj]) (by simp [hj]) (by simp))
    | guarded =>
      refine hstuck _ (.of_operation (.recheck j hj) ?_ (by simp [hj]) ?_)
      · rw [hj]
        split <;> simp
      · split <;> simp
    | refused =>
      exact hstuck _ (.of_operation (.rollBack j hj) (by simp [hj]) (by simp [hj]) (by simp))
    | working calling =>
      cases calling with
      | true =>
        exact hstuck _ (.of_operation (.endCall j hj) (by simp [hj]) (by simp [hj]) (by simp))
      | false =>
        exact hstuck _ (.of_operation (.dropGuard j hj fun w _ => hreceivers w) (by simp [hj])
          (by simp [hj]) (by simp))
    | _ =>
      rw [hj] at hcounted
      exact hcounted
  cases hi : s.operation i with
  | idle => exact Or.inl rfl
  | finished result => exact Or.inr ⟨result, rfl⟩
  | notifying result =>
    exact absurd (.of_operation (.notify i result hi) (by simp [hi]) (by simp [hi]) (by simp))
      (hstuck _)
  | opened =>
    have hzero : s.active = 0 := by
      by_contra hne
      obtain ⟨j, hj⟩ := exists_of_tally_pos (h.active_eq ▸ Nat.pos_of_ne_zero hne)
      exact hregistered j hj
    have hroom : s.active + 1 < usizeSize := by
      rw [hzero]
      decide
    exact absurd (.of_operation (.fetchAdd i hi hroom) (by simp [hi]) (by simp [hi]) (by simp))
      (hstuck _)
  | _ => exact absurd (by rw [hi]; exact trivial) (hregistered i)

/-- No `close` is in progress. -/
theorem closers_of_stuck (h : Inv keeper s) (hstuck : Stuck (Winds keeper) s) (k : κ) :
    ¬ (s.closer k).Running := by
  intro hrunning
  have hcloser := h.closers k
  cases hk : s.closer k with
  | subscribed seen =>
    exact hstuck _ (.of_closer (.storeClosed k seen hk) (by simp [hk]) hrunning (Or.inl trivial))
  | stored seen =>
    exact hstuck _ (.of_closer (.broadcast k seen hk) (by simp [hk]) hrunning (Or.inl trivial))
  | checking seen =>
    refine hstuck _ (.of_closer (.load k seen hk) ?_ hrunning ?_)
    · rw [hk]
      split <;> simp
    · split
      · exact Or.inr rfl
      · exact Or.inl trivial
  | waiting seen =>
    rw [hk] at hcloser
    obtain ⟨-, -, hvalue, hunseen | ⟨i, hi⟩⟩ := hcloser
    · exact hstuck _ (.of_closer (.wake k seen hk hunseen) (by simp [hk]) hrunning
        (Or.inl trivial))
    · rcases operations_of_stuck h hstuck hvalue i with hidle | ⟨result, hfinished⟩
      · rw [hidle] at hi
        exact hi.elim id id
      · rw [hfinished] at hi
        exact hi.elim id id
  | _ =>
    rw [hk] at hrunning
    exact hrunning

end

/-! ### The guarantee -/

/-- A `close` in progress stays in progress or returns `Ok`. -/
theorem patient_run (hrun : ReflTransGen (Winds keeper) s s') {k : κ} (hk : (s.closer k).Running) :
    (s'.closer k).Running ∨ s'.closer k = .returned (.ok ()) := by
  induction hrun with
  | refl => exact Or.inl hk
  | tail _ hwinds ih =>
    rcases ih with hrunning | hreturned
    · exact hwinds.patient k hrunning
    · exact Or.inr (returned_step hreturned hwinds.step)

theorem reachable_winds (h : Reachable keeper s) (hrun : ReflTransGen (Winds keeper) s s') :
    Reachable keeper s' := by
  induction hrun with
  | refl => exact h
  | tail _ hwinds ih => exact ih.tail hwinds.step

/-- **A `close` that is not given up returns `Ok`.**  From every state of every interleaving, the
steps that wind the lifecycle down end after at most `workLeft` of them, in whatever order they are
taken.  Wherever they end, every `close` that was in progress has returned `Ok`; and if there was
one, the counter is zero, every operation that had started is over and every receiver has left its
wait. -/
theorem close_drains [Fintype ι] [Fintype κ] [Fintype ω] (h : Reachable keeper s) :
    (∀ n s', Steps (Winds keeper) n s s' → n ≤ s.workLeft) ∧
    (∃ s', ReflTransGen (Winds keeper) s s' ∧ Stuck (Winds keeper) s') ∧
    ∀ s', ReflTransGen (Winds keeper) s s' → Stuck (Winds keeper) s' →
      ∀ k, (s.closer k).Running → s'.closer k = .returned (.ok ()) ∧ s'.active = 0 ∧
        (∀ i, s'.operation i = .idle ∨ ∃ result, s'.operation i = .finished result) ∧
        ∀ w, ¬ (s'.receiver w).Active := by
  have hlower : ∀ s s' : Lifecycle ι κ ω, Winds keeper s s' → s'.workLeft < s.workLeft :=
    fun _ _ => workLeft_winds
  refine ⟨fun n s' hsteps => ?_, exists_stuck hlower s, fun s' hrun hstuck k hk => ?_⟩
  · have hle := hsteps.add_measure_le hlower
    omega
  · have hinv := inv_of_reachable (reachable_winds h hrun)
    have hreturned := (patient_run hrun hk).resolve_left (closers_of_stuck hinv hstuck k)
    have hvalue : s'.shutdown.value = true :=
      value_of_broadcast hinv (by rw [hreturned]; exact trivial)
    have hover := operations_of_stuck hinv hstuck hvalue
    refine ⟨hreturned, ?_, hover, receivers_of_stuck hinv hstuck hvalue⟩
    by_contra hne
    obtain ⟨i, hi⟩ := exists_of_tally_pos (hinv.active_eq ▸ Nat.pos_of_ne_zero hne)
    rcases hover i with hidle | ⟨result, hfinished⟩
    · rw [hidle] at hi
      exact hi
    · rw [hfinished] at hi
      exact hi

/-- A `close` waits while an operation is in a broker call. -/
theorem waiting_while_calling : ∃ s : Lifecycle Unit Unit Unit, Reachable (fun _ => some ()) s ∧
    s.operation () = .working true ∧ s.closer () = .waiting 0 := by
  have hopened : Step (fun _ => some ()) (new : Lifecycle Unit Unit Unit) _ :=
    .ensureOpen () rfl rfl
  have hadded := (ReflTransGen.single hopened).tail (.fetchAdd () rfl (by decide))
  have hguarded := (hadded.tail (.newGuard () rfl)).tail (.recheck () rfl)
  have hcalling := hguarded.tail (.beginCall () rfl)
  have hclosing := (hcalling.tail (.subscribe () rfl rfl)).tail (.storeClosed () 0 rfl)
  have hbroadcast := hclosing.tail (.broadcast () 0 rfl)
  exact ⟨_, hbroadcast.tail (.load () 0 rfl), rfl, rfl⟩

theorem close_drains_calling : ∃ s s' : Lifecycle Unit Unit Unit,
    s.operation () = .working true ∧ s.closer () = .waiting 0 ∧
      ReflTransGen (Winds fun _ => some ()) s s' ∧ s'.closer () = .returned (.ok ()) := by
  obtain ⟨s, hreachable, hcalling, hwaiting⟩ := waiting_while_calling
  obtain ⟨-, ⟨s', hrun, hstuck⟩, hdrained⟩ := close_drains hreachable
  have hrunning : (s.closer ()).Running := by
    rw [hwaiting]
    exact trivial
  exact ⟨s, s', hcalling, hwaiting, hrun, (hdrained s' hrun hstuck () hrunning).1⟩

end Kafkax.Lifecycle
