import Kafkax.Lifecycle

/-!
# What closing a pool guarantees

Both results are read off the invariant of the lifecycle, in every state of every interleaving.

* `close_sound`: the counter is the number of registered guards; the lifecycle stays closed; and
  after a `close` that returned `Ok` no guard is in use and none is handed out again, so no
  operation is in a broker call.
* `no_lost_wakeup`: whoever waits is woken.  A `close` without an unseen notification waits for a
  guard that is still there; a receiver never sleeps through the shutdown, and `wait_for_shutdown`
  returns for no other reason.
-/

namespace Kafkax.Lifecycle

open Counting WatchChannel Relation

variable {ι κ ω : Type} [DecidableEq ι] [DecidableEq κ] [DecidableEq ω] {keeper : ω → Option ι}
  {s s' : Lifecycle ι κ ω}

/-! ### What is never undone -/

theorem closed_step (hclosed : s.closed = true) (hstep : Step keeper s s') : s'.closed = true := by
  cases hstep with
  | storeClosed k seen hk => rfl
  | _ => exact hclosed

/-- The lifecycle stays closed. -/
theorem closed_run (hclosed : s.closed = true) (hrun : ReflTransGen (Step keeper) s s') :
    s'.closed = true := by
  induction hrun with
  | refl => exact hclosed
  | tail _ hstep ih => exact closed_step ih hstep

omit [DecidableEq ι] [DecidableEq ω] in
/-- A call that has returned is not moved by the others. -/
theorem returned_update {k j : κ} {result : KafkaResult Unit} {c d : Closer}
    (hk : s.closer k = .returned result) (hj : s.closer j = c) (hne : c ≠ .returned result) :
    Function.update s.closer j d k = .returned result := by
  have hkj : k ≠ j := by
    rintro rfl
    exact hne (hj.symm.trans hk)
  rw [Function.update_of_ne hkj]
  exact hk

theorem returned_step {k : κ} {result : KafkaResult Unit} (hk : s.closer k = .returned result)
    (hstep : Step keeper s s') : s'.closer k = .returned result := by
  cases hstep with
  | subscribe j hpool hj => exact returned_update hk hj (by simp)
  | storeClosed j seen hj => exact returned_update hk hj (by simp)
  | broadcast j seen hj => exact returned_update hk hj (by simp)
  | load j seen hj => exact returned_update hk hj (by simp)
  | wake j seen hj hunseen => exact returned_update hk hj (by simp)
  | activityGone j seen hj hgone => exact returned_update hk hj (by simp)
  | timeout j seen hj => exact returned_update hk hj (by simp)
  | dropClose j seen hj => exact returned_update hk hj (by simp)
  | _ => exact hk

/-- A call of `close` returns once. -/
theorem returned_run {k : κ} {result : KafkaResult Unit} (hk : s.closer k = .returned result)
    (hrun : ReflTransGen (Step keeper) s s') : s'.closer k = .returned result := by
  induction hrun with
  | refl => exact hk
  | tail _ hstep ih => exact returned_step ih hstep

/-! ### Soundness -/

variable [Fintype ι]

/-- **Closing is sound.**  In every state of every interleaving: the counter is the number of the
guards past their `fetch_add` and not past their `fetch_sub`, and a `fetch_sub` takes one from it;
a `close` that returned, with whatever result, has closed the lifecycle, which stays closed; and
from a `close` that returned `Ok` on, no guard that `start_operation` handed out is alive, so no
operation is executing a broker call. -/
theorem close_sound (h : Reachable keeper s) :
    (s.active = tally Operation.Counted s.operation ∧
      ∀ i, (s.operation i).Counted → fetchSub s.active + 1 = s.active) ∧
    (∀ k result, s.closer k = .returned result → s.closed = true) ∧
    (∀ s', ReflTransGen (Step keeper) s s' → s.closed = true → s'.closed = true) ∧
    ∀ k, s.closer k = .returned (.ok ()) → ∀ s', ReflTransGen (Step keeper) s s' →
      ∀ i, ¬ (s'.operation i).Working ∧ s'.operation i ≠ .working true := by
  have hinv := inv_of_reachable h
  refine ⟨⟨hinv.active_eq, fun i hi => ?_⟩, fun k result hk => ?_,
    fun s' hrun hclosed => closed_run hclosed hrun, fun k hk s' hrun i => ?_⟩
  · have hpos : 0 < s.active := by
      rw [hinv.active_eq]
      exact tally_pos hi
    rw [fetchSub_eq hpos hinv.active_lt]
    omega
  · have hreturned := hinv.closers k
    rw [hk] at hreturned
    exact hreturned.1
  · have hreturned := (inv_of_reachable (h.trans hrun)).closers k
    rw [returned_run hk hrun] at hreturned
    have hquiet := hreturned.2.2 rfl i
    refine ⟨hquiet, fun hcalling => hquiet ?_⟩
    rw [hcalling]
    exact trivial

/-! ### Wake-ups -/

omit [DecidableEq ι] [DecidableEq κ] [DecidableEq ω] in
/-- A `close` that has broadcast has set the value. -/
theorem value_of_broadcast (h : Inv keeper s) {k : κ} (hk : (s.closer k).Broadcast) :
    s.shutdown.value = true := by
  have hinv := h.closers k
  cases hc : s.closer k with
  | checking seen =>
    rw [hc] at hinv
    exact hinv.2.2
  | waiting seen =>
    rw [hc] at hinv
    exact hinv.2.2.1
  | returned result =>
    rw [hc] at hinv
    exact hinv.2.1
  | dropped =>
    rw [hc] at hinv
    exact hinv.2
  | _ =>
    rw [hc] at hk
    exact absurd hk id

omit [Fintype ι] in
/-- Once the value is set, a receiver that is about to borrow it returns. -/
theorem borrow_returns (hvalue : s.shutdown.value = true) {w : ω} {seen : ℕ}
    (hw : s.receiver w = .ready seen ∨ s.receiver w = .woken seen) :
    Step keeper s { s with receiver := Function.update s.receiver w .returned } := by
  have hborrow : (if s.shutdown.value then .returned else .parked seen) = Receiver.returned :=
    if_pos hvalue
  rw [← hborrow]
  rcases hw with hw | hw
  · exact .borrow w seen hw
  · exact .borrowAgain w seen hw

/-- **No wake-up is lost.**  In every state of every interleaving:

* a `close` that waits and has seen every notification waits for a guard that is registered, or
  whose drop has yet to notify it;
* once a `close` has broadcast, a parked receiver has an unseen notification and can be woken, and
  every receiver that is in use can return from `wait_for_shutdown` by its own steps;
* `wait_for_shutdown` has returned only if the lifecycle is closed. -/
theorem no_lost_wakeup (h : Reachable keeper s) :
    (∀ k seen, s.closer k = .waiting seen → ¬ s.activity.Unseen seen →
      (∃ i, (s.operation i).Counted) ∨ ∃ i, (s.operation i).Notifying) ∧
    ((∃ k, (s.closer k).Broadcast) →
      (∀ w seen, s.receiver w = .parked seen → s.shutdown.Unseen seen ∧
        Step keeper s
          { s with receiver := Function.update s.receiver w (.woken s.shutdown.version) }) ∧
      ∀ w, (s.receiver w).Active → ReflTransGen (Step keeper) s
        { s with receiver := Function.update s.receiver w .returned }) ∧
    ∀ w, s.receiver w = .returned → s.closed = true := by
  have hinv := inv_of_reachable h
  refine ⟨fun k seen hk hseen => ?_, fun ⟨k, hk⟩ => ?_, fun w hw => ?_⟩
  · have hwaiting := hinv.closers k
    rw [hk] at hwaiting
    obtain ⟨i, hi⟩ := hwaiting.2.2.2.resolve_left hseen
    rcases hi with hcounted | hnotifying
    · exact Or.inl ⟨i, hcounted⟩
    · exact Or.inr ⟨i, hnotifying⟩
  · have hvalue := value_of_broadcast hinv hk
    have hparked : ∀ w seen, s.receiver w = .parked seen → s.shutdown.Unseen seen := by
      intro w seen hw
      have hreceiver := hinv.receivers w
      rw [hw] at hreceiver
      exact hreceiver.2.2 hvalue
    refine ⟨fun w seen hw => ⟨hparked w seen hw, .changed w seen hw (hparked w seen hw)⟩,
      fun w hactive => ?_⟩
    cases hw : s.receiver w with
    | ready seen => exact .single (borrow_returns hvalue (Or.inl hw))
    | woken seen => exact .single (borrow_returns hvalue (Or.inr hw))
    | parked seen =>
      have hwake : Step keeper s _ := .changed w seen hw (hparked w seen hw)
      have hwoken : (Function.update s.receiver w (.woken s.shutdown.version)) w = .woken _ :=
        Function.update_self ..
      have hreturn := @borrow_returns _ _ _ _ _ _ keeper
        { s with receiver := Function.update s.receiver w (.woken s.shutdown.version) } hvalue w _
        (Or.inr hwoken)
      rw [Function.update_idem] at hreturn
      exact .head hwake (.single hreturn)
    | _ =>
      rw [hw] at hactive
      exact absurd hactive id
  · have hreceiver := hinv.receivers w
    rw [hw] at hreceiver
    exact hreceiver

omit [Fintype ι] in
/-- A `close` that waits returns `Ok` once the last guard has gone and notified it. -/
theorem returns_of_unseen {k : κ} {seen : ℕ} (hk : s.closer k = .waiting seen)
    (hunseen : s.activity.Unseen seen) (hactive : s.active = 0) :
    ReflTransGen (Step keeper) s
      { s with closer := Function.update s.closer k (.returned (.ok ())) } := by
  have hwoken : Step keeper s _ := .wake k seen hk hunseen
  have hload : Step keeper
      { s with closer := Function.update s.closer k (.checking s.activity.version) } _ :=
    .load k s.activity.version (Function.update_self ..)
  simp only [Function.update_idem, if_pos hactive] at hload
  exact .head hwoken (.single hload)

/-- The pool is closed while the receiver is parked and two operations are under way: one has entered
before the close and leaves, so that the close has to wait; the other has passed `ensure_open`
before the close and registers after it, and is refused. -/
theorem closed_while_parked : ∃ s : Lifecycle Bool Unit Unit, Reachable (fun _ => none) s ∧
    s.receiver () = .parked 0 ∧ s.closer () = .returned (.ok ()) ∧
    s.operation true = .finished (.ok ()) ∧
    s.operation false = .finished (.error (.closed "连接池正在关闭")) := by
  have hsubscribe : Step (fun _ => none) (new : Lifecycle Bool Unit Unit) _ :=
    .subscribeShutdown () rfl rfl
  have hparked := (ReflTransGen.single hsubscribe).tail (.borrow () 0 rfl)
  have hentered := (((hparked.tail (.ensureOpen true rfl rfl)).tail
    (.fetchAdd true rfl (by decide))).tail (.newGuard true rfl)).tail (.recheck true rfl)
  have hcalling := (hentered.tail (.beginCall true rfl)).tail (.ensureOpen false rfl rfl)
  have hclosing := ((hcalling.tail (.subscribe () rfl rfl)).tail (.storeClosed () 0 rfl)).tail
    (.broadcast () 0 rfl)
  have hwaiting := hclosing.tail (.load () 0 rfl)
  have hrefused := ((hwaiting.tail (.fetchAdd false rfl (by decide))).tail
    (.newGuard false rfl)).tail (.recheck false rfl)
  have hrolledBack := (hrefused.tail (.rollBack false rfl)).tail (.notify false _ rfl)
  have hleft := ((hrolledBack.tail (.endCall true rfl)).tail
    (.dropGuard true rfl fun _ hkeeper => absurd hkeeper (by simp))).tail (.notify true _ rfl)
  have hempty : fetchSub (fetchSub (fetchAdd (fetchAdd 0))) = 0 := by decide
  obtain ⟨s, hs, hactive, hunseen, hreceiver, hwaits, htrue, hfalse⟩ :
      ∃ s : Lifecycle Bool Unit Unit, Reachable (fun _ => none) s ∧ s.active = 0 ∧
        s.activity.Unseen 0 ∧ s.receiver () = .parked 0 ∧ s.closer () = .waiting 0 ∧
        s.operation true = .finished (.ok ()) ∧
        s.operation false = .finished (.error (.closed "连接池正在关闭")) :=
    ⟨_, hleft, hempty, by decide, rfl, rfl, rfl, rfl⟩
  have hreturned := hs.trans (returns_of_unseen hwaits hunseen hactive)
  exact ⟨_, hreturned, hreceiver, rfl, htrue, hfalse⟩

theorem close_sound_parked : ∃ s : Lifecycle Bool Unit Unit, Reachable (fun _ => none) s ∧
    s.operation true = .finished (.ok ()) ∧
    s.operation false = .finished (.error (.closed "连接池正在关闭")) ∧
    s.closer () = .returned (.ok ()) ∧ s.closed = true ∧ ∀ i, ¬ (s.operation i).Working := by
  obtain ⟨s, hreachable, -, hreturned, hleft, hrefused⟩ := closed_while_parked
  obtain ⟨-, hclosed, -, hquiet⟩ := close_sound hreachable
  exact ⟨s, hreachable, hleft, hrefused, hreturned, hclosed () _ hreturned,
    fun i => (hquiet () hreturned s .refl i).1⟩

theorem no_lost_wakeup_parked : ∃ s : Lifecycle Bool Unit Unit, Reachable (fun _ => none) s ∧
    s.receiver () = .parked 0 ∧ s.shutdown.Unseen 0 := by
  obtain ⟨s, hreachable, hparked, hreturned, -⟩ := closed_while_parked
  have hbroadcast : (s.closer ()).Broadcast := by
    rw [hreturned]
    exact trivial
  exact ⟨s, hreachable, hparked,
    (((no_lost_wakeup hreachable).2.1 ⟨(), hbroadcast⟩).1 () 0 hparked).1⟩

end Kafkax.Lifecycle
