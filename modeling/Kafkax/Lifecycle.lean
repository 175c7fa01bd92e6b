import Mathlib.Data.UInt
import Mathlib.Logic.Relation
import Kafkax.Error
import Kafkax.Library.Tally
import Kafkax.Library.Watch

/-!
# The lifecycle of a connection pool

Three kinds of parties share a `Lifecycle`: operations, which register a guard by
`start_operation` and hold it while they talk to the broker; calls of `close`; and receivers of
the shutdown signal, on which an operation waits next to its broker call or its queue
(`wait_for_shutdown` and the other branch of a `select!`).  There may be any number of each.

`Step` is one atomic access, one watch send, or the creation or drop of one guard, handle or
future, by one party; runs of steps are all the interleavings.  The atomics are taken as
sequentially consistent.  A receiver lives in a borrow of the pool or in the scope of a guard, its
`keeper`, and is gone before that is.

`Inv` is the invariant of all runs: one predicate for each kind of party (`CloserInv`,
`ReceiverInv`), read against the shared part of the state, and the count of the guards.
-/

namespace Kafkax

open Counting WatchChannel

/-! ### Counters -/

/-- `usize::MAX + 1` -/
def usizeSize : ℕ := 2 ^ 64

/-- `AtomicUsize::fetch_add(1)`, which wraps. -/
def fetchAdd (n : ℕ) : ℕ := (n + 1) % usizeSize

/-- `AtomicUsize::fetch_sub(1)`, which wraps. -/
def fetchSub (n : ℕ) : ℕ := (n + (usizeSize - 1)) % usizeSize

theorem fetchAdd_eq {n : ℕ} (h : n + 1 < usizeSize) : fetchAdd n = n + 1 := Nat.mod_eq_of_lt h

theorem fetchSub_eq {n : ℕ} (hpos : 0 < n) (h : n < usizeSize) : fetchSub n = n - 1 := by
  have hsplit : n + (usizeSize - 1) = n - 1 + usizeSize := by omega
  rw [fetchSub, hsplit, Nat.add_mod_right, Nat.mod_eq_of_lt (by omega)]

/-! ### The parties -/

/-- An operation: `health_check`, `ensure_topic`, `delete_topic`, `partition_client`, the produce
part of `publish`, or the background task of a consumer.  All of them start by `start_operation`
and make their broker calls while they hold the guard. -/
inductive Operation where
  | idle
  /-- `ensure_open` has passed. -/
  | opened
  /-- The counter is raised and the guard not yet made. -/
  | added
  | guarded
  /-- The second check has failed; the guard is about to be dropped. -/
  | refused
  /-- `start_operation` has handed out the guard; `calling` while a broker call is executing. -/
  | working (calling : Bool)
  /-- The drop of the guard is between its `fetch_sub` and its `send_modify`. -/
  | notifying (result : KafkaResult Unit)
  /-- Refused, or over. -/
  | finished (result : KafkaResult Unit)

namespace Operation

/-- Registered: past the `fetch_add` and not past the `fetch_sub`. -/
def Counted : Operation → Prop
  | .added | .guarded | .refused | .working _ => True
  | _ => False

instance : DecidablePred Counted := fun operation =>
  match operation with
  | .added | .guarded | .refused | .working _ => isTrue trivial
  | .idle | .opened | .notifying _ | .finished _ => isFalse id

/-- A guard that `start_operation` handed out is alive. -/
def Working : Operation → Prop
  | .working _ => True
  | _ => False

theorem Working.counted {operation : Operation} (h : operation.Working) : operation.Counted := by
  cases operation with
  | working calling => exact trivial
  | _ => exact absurd h id

/-- Between the two steps of the drop of a guard. -/
def Notifying : Operation → Prop
  | .notifying _ => True
  | _ => False

/-- The guard holds its handle to the shared state. -/
def HoldsHandle : Operation → Prop
  | .guarded | .refused | .working _ | .notifying _ => True
  | _ => False

/-- `start_operation` is in progress, in a borrow of the pool. -/
def Starting : Operation → Prop
  | .opened | .added | .guarded | .refused => True
  | _ => False

end Operation

/-- A call of `close`; `seen` is the version of `activity` it has seen. -/
inductive Closer where
  | idle
  | subscribed (seen : ℕ)
  | stored (seen : ℕ)
  /-- The shutdown is broadcast; the next step is the load of `active`. -/
  | checking (seen : ℕ)
  /-- In `activity.changed().await`, after a load that was not zero. -/
  | waiting (seen : ℕ)
  | returned (result : KafkaResult Unit)
  | dropped

/-- The call is in progress, in a borrow of the pool. -/
def Closer.Running : Closer → Prop
  | .subscribed _ | .stored _ | .checking _ | .waiting _ => True
  | _ => False

/-- The call has broadcast the shutdown. -/
def Closer.Broadcast : Closer → Prop
  | .checking _ | .waiting _ | .returned _ | .dropped => True
  | _ => False

/-- A receiver of the shutdown signal; `seen` is the version of `shutdown` it has seen. -/
inductive Receiver where
  | absent
  /-- Not waiting, or about to borrow the value for the first time. -/
  | ready (seen : ℕ)
  /-- In `shutdown.changed().await`. -/
  | parked (seen : ℕ)
  /-- `changed` has returned; about to borrow the value again. -/
  | woken (seen : ℕ)
  /-- `wait_for_shutdown` has returned. -/
  | returned
  | dropped

/-- The receiver is in use. -/
def Receiver.Active : Receiver → Prop
  | .ready _ | .parked _ | .woken _ => True
  | _ => False

/-! ### The state -/

/-- `LifecycleInner`, whether the pool still exists, and the parties. -/
structure Lifecycle (ι κ ω : Type) where
  closed : Bool
  active : ℕ
  shutdown : Watch Bool
  activity : Watch UInt64
  pool : Bool
  operation : ι → Operation
  closer : κ → Closer
  receiver : ω → Receiver

namespace Lifecycle

variable {ι κ ω : Type}

/-- `Lifecycle::new` -/
def new : Lifecycle ι κ ω where
  closed := false
  active := 0
  shutdown := .new false
  activity := .new 0
  pool := true
  operation _ := .idle
  closer _ := .idle
  receiver _ := .absent

/-- `Lifecycle::ensure_open` -/
def ensureOpen (self : Lifecycle ι κ ω) : KafkaResult Unit :=
  if self.closed then .error (.closed "连接池已关闭") else .ok ()

/-- The shared state, and with it the senders, exist as long as the pool or a guard does. -/
def SendersAlive (self : Lifecycle ι κ ω) : Prop :=
  self.pool = true ∨ ∃ i, (self.operation i).HoldsHandle

/-- What the receiver borrows from is there: the pool, or a guard that was handed out. -/
def Kept (self : Lifecycle ι κ ω) : Option ι → Prop
  | none => self.pool = true
  | some i => (self.operation i).Working

section

variable [DecidableEq ι] [DecidableEq κ] [DecidableEq ω] (keeper : ω → Option ι)

/-- One step of one party. -/
inductive Step (s : Lifecycle ι κ ω) : Lifecycle ι κ ω → Prop where
  /-- `self.ensure_open()?` -/
  | ensureOpen (i : ι) (hpool : s.pool = true) (hi : s.operation i = .idle) :
      Step s { s with
        operation := Function.update s.operation i
          (match s.ensureOpen with
            | .ok () => .opened
            | .error e => .finished (.error e)) }
  /-- `active.fetch_add(1)`; every guard holds a handle to the shared state, and the process is
  aborted long before there are `usize::MAX` of them. -/
  | fetchAdd (i : ι) (hi : s.operation i = .opened) (hroom : s.active + 1 < usizeSize) :
      Step s { s with
        active := Kafkax.fetchAdd s.active
        operation := Function.update s.operation i .added }
  | newGuard (i : ι) (hi : s.operation i = .added) :
      Step s { s with operation := Function.update s.operation i .guarded }
  /-- `if self.is_closed()`, after the registration. -/
  | recheck (i : ι) (hi : s.operation i = .guarded) :
      Step s { s with
        operation := Function.update s.operation i
          (if s.closed then .refused else .working false) }
  | beginCall (i : ι) (hi : s.operation i = .working false) :
      Step s { s with operation := Function.update s.operation i (.working true) }
  /-- The broker call returns, or its future is dropped. -/
  | endCall (i : ι) (hi : s.operation i = .working true) :
      Step s { s with operation := Function.update s.operation i (.working false) }
  /-- `active.fetch_sub(1)` in the drop of a guard that was refused. -/
  | rollBack (i : ι) (hi : s.operation i = .refused) :
      Step s { s with
        active := fetchSub s.active
        operation := Function.update s.operation i
          (.notifying (.error (.closed "连接池正在关闭"))) }
  /-- `active.fetch_sub(1)` in the drop of a guard that was handed out, when its receivers are
  gone. -/
  | dropGuard (i : ι) (hi : s.operation i = .working false)
      (hreceivers : ∀ w, keeper w = some i → ¬ (s.receiver w).Active) :
      Step s { s with
        active := fetchSub s.active
        operation := Function.update s.operation i (.notifying (.ok ())) }
  /-- `activity.send_modify(..)` -/
  | notify (i : ι) (result : KafkaResult Unit) (hi : s.operation i = .notifying result) :
      Step s { s with
        activity := s.activity.sendModify (· + 1)
        operation := Function.update s.operation i (.finished result) }
  | subscribe (k : κ) (hpool : s.pool = true) (hk : s.closer k = .idle) :
      Step s { s with closer := Function.update s.closer k (.subscribed s.activity.version) }
  /-- `closed.store(true)` -/
  | storeClosed (k : κ) (seen : ℕ) (hk : s.closer k = .subscribed seen) :
      Step s { s with closed := true, closer := Function.update s.closer k (.stored seen) }
  /-- `shutdown.send_replace(true)` -/
  | broadcast (k : κ) (seen : ℕ) (hk : s.closer k = .stored seen) :
      Step s { s with
        shutdown := s.shutdown.sendReplace true
        closer := Function.update s.closer k (.checking seen) }
  /-- `while active.load() != 0` -/
  | load (k : κ) (seen : ℕ) (hk : s.closer k = .checking seen) :
      Step s { s with
        closer := Function.update s.closer k
          (if s.active = 0 then .returned (.ok ()) else .waiting seen) }
  /-- `activity.changed()` returns. -/
  | wake (k : κ) (seen : ℕ) (hk : s.closer k = .waiting seen) (hunseen : s.activity.Unseen seen) :
      Step s { s with closer := Function.update s.closer k (.checking s.activity.version) }
  /-- `activity.changed()` fails. -/
  | activityGone (k : κ) (seen : ℕ) (hk : s.closer k = .waiting seen) (hgone : ¬ s.SendersAlive) :
      Step s { s with
        closer := Function.update s.closer k
          (.returned (.error (.closed "生命周期通知通道已关闭"))) }
  /-- The deadline passes while the call waits. -/
  | timeout (k : κ) (seen : ℕ) (hk : s.closer k = .waiting seen) :
      Step s { s with
        closer := Function.update s.closer k
          (.returned (.error (.timeout "close 等待在途操作超时"))) }
  | dropClose (k : κ) (seen : ℕ) (hk : s.closer k = .waiting seen) :
      Step s { s with closer := Function.update s.closer k .dropped }
  /-- `subscribe_shutdown` -/
  | subscribeShutdown (w : ω) (hw : s.receiver w = .absent) (hkept : s.Kept (keeper w)) :
      Step s { s with receiver := Function.update s.receiver w (.ready s.shutdown.version) }
  /-- `if *shutdown.borrow()` -/
  | borrow (w : ω) (seen : ℕ) (hw : s.receiver w = .ready seen) :
      Step s { s with
        receiver := Function.update s.receiver w
          (if s.shutdown.value then .returned else .parked seen) }
  /-- `shutdown.changed()` returns. -/
  | changed (w : ω) (seen : ℕ) (hw : s.receiver w = .parked seen)
      (hunseen : s.shutdown.Unseen seen) :
      Step s { s with receiver := Function.update s.receiver w (.woken s.shutdown.version) }
  /-- `if *shutdown.borrow()`, in the loop. -/
  | borrowAgain (w : ω) (seen : ℕ) (hw : s.receiver w = .woken seen) :
      Step s { s with
        receiver := Function.update s.receiver w
          (if s.shutdown.value then .returned else .parked seen) }
  /-- `shutdown.changed()` fails, which ends the wait. -/
  | shutdownGone (w : ω) (seen : ℕ) (hw : s.receiver w = .parked seen)
      (hgone : ¬ s.SendersAlive) :
      Step s { s with receiver := Function.update s.receiver w .returned }
  /-- The other branch of the `select!` completes: the broker call, or the send to the queue. -/
  | cancel (w : ω) (seen : ℕ) (hw : s.receiver w = .parked seen) :
      Step s { s with receiver := Function.update s.receiver w (.ready seen) }
  | dropReceiver (w : ω) :
      Step s { s with receiver := Function.update s.receiver w .dropped }
  /-- The last handle of the pool is dropped, when nothing borrows it. -/
  | dropPool (hstarting : ∀ i, ¬ (s.operation i).Starting) (hclosers : ∀ k, ¬ (s.closer k).Running)
      (hreceivers : ∀ w, keeper w = none → ¬ (s.receiver w).Active) :
      Step s { s with pool := false }

/-- The states of the runs of a new lifecycle. -/
def Reachable (s : Lifecycle ι κ ω) : Prop :=
  Relation.ReflTransGen (Step keeper) (new : Lifecycle ι κ ω) s

end

/-! ### The invariant -/

/-- A guard is registered, or about to notify. -/
def Pending (self : Lifecycle ι κ ω) : Prop :=
  ∃ i, (self.operation i).Counted ∨ (self.operation i).Notifying

/-- What holds of a call of `close`. -/
def CloserInv (s : Lifecycle ι κ ω) : Closer → Prop
  | .idle => True
  | .subscribed seen => seen ≤ s.activity.version
  | .stored seen => seen ≤ s.activity.version ∧ s.closed = true
  | .checking seen => seen ≤ s.activity.version ∧ s.closed = true ∧ s.shutdown.value = true
  | .waiting seen => seen ≤ s.activity.version ∧ s.closed = true ∧ s.shutdown.value = true ∧
      (s.activity.Unseen seen ∨ s.Pending)
  | .returned result => s.closed = true ∧ s.shutdown.value = true ∧
      (result = .ok () → ∀ i, ¬ (s.operation i).Working)
  | .dropped => s.closed = true ∧ s.shutdown.value = true

/-- What holds of a receiver. -/
def ReceiverInv (s : Lifecycle ι κ ω) (kept : Option ι) : Receiver → Prop
  | .absent | .dropped => True
  | .ready seen | .woken seen => seen ≤ s.shutdown.version ∧ s.Kept kept
  | .parked seen => seen ≤ s.shutdown.version ∧ s.Kept kept ∧
      (s.shutdown.value = true → s.shutdown.Unseen seen)
  | .returned => s.closed = true

/-- The invariant of all runs. -/
structure Inv [Fintype ι] (keeper : ω → Option ι) (s : Lifecycle ι κ ω) : Prop where
  active_eq : s.active = tally Operation.Counted s.operation
  active_lt : s.active < usizeSize
  closed_of_value : s.shutdown.value = true → s.closed = true
  closers : ∀ k, CloserInv s (s.closer k)
  receivers : ∀ w, ReceiverInv s (keeper w) (s.receiver w)

/-- What a step of one party leaves to the others. -/
structure Advances (s s' : Lifecycle ι κ ω) : Prop where
  closed : s.closed = true → s'.closed = true
  value : s.shutdown.value = true → s'.shutdown.value = true
  activity : s.activity.version ≤ s'.activity.version
  shutdown : s.shutdown.version ≤ s'.shutdown.version
  quiet : s.closed = true → (∀ i, ¬ (s.operation i).Working) → ∀ i, ¬ (s'.operation i).Working
  pending : s.Pending → s'.Pending ∨ ∀ seen ≤ s.activity.version, s'.activity.Unseen seen
  unseen : s'.shutdown.value = s.shutdown.value ∨
    ∀ seen ≤ s.shutdown.version, s'.shutdown.Unseen seen

variable {s s' : Lifecycle ι κ ω}

theorem CloserInv.advance (h : Advances s s') {c : Closer} (hc : CloserInv s c) :
    CloserInv s' c := by
  cases c with
  | idle => exact trivial
  | subscribed seen => exact hc.trans h.activity
  | stored seen => exact ⟨hc.1.trans h.activity, h.closed hc.2⟩
  | checking seen => exact ⟨hc.1.trans h.activity, h.closed hc.2.1, h.value hc.2.2⟩
  | waiting seen =>
    obtain ⟨hseen, hclosed, hvalue, hwake⟩ := hc
    refine ⟨hseen.trans h.activity, h.closed hclosed, h.value hvalue, ?_⟩
    rcases hwake with hunseen | hpending
    · exact Or.inl (Nat.lt_of_lt_of_le hunseen h.activity)
    · rcases h.pending hpending with hpending | hunseen
      · exact Or.inr hpending
      · exact Or.inl (hunseen seen hseen)
  | returned result =>
    exact ⟨h.closed hc.1, h.value hc.2.1, fun hok => h.quiet hc.1 (hc.2.2 hok)⟩
  | dropped => exact ⟨h.closed hc.1, h.value hc.2⟩

theorem ReceiverInv.advance (h : Advances s s') {kept : Option ι} {r : Receiver}
    (hkept : r.Active → s.Kept kept → s'.Kept kept) (hr : ReceiverInv s kept r) :
    ReceiverInv s' kept r := by
  cases r with
  | absent => exact trivial
  | dropped => exact trivial
  | ready seen => exact ⟨hr.1.trans h.shutdown, hkept trivial hr.2⟩
  | woken seen => exact ⟨hr.1.trans h.shutdown, hkept trivial hr.2⟩
  | parked seen =>
    obtain ⟨hseen, hkeeper, hparked⟩ := hr
    refine ⟨hseen.trans h.shutdown, hkept trivial hkeeper, fun hvalue => ?_⟩
    rcases h.unseen with hsame | hunseen
    · exact Nat.lt_of_lt_of_le (hparked (hsame ▸ hvalue)) h.shutdown
    · exact hunseen seen hseen
  | returned => exact h.closed hr

/-- Whoever is kept keeps the senders alive. -/
theorem sendersAlive_of_kept {kept : Option ι} (h : s.Kept kept) : s.SendersAlive := by
  cases kept with
  | none => exact Or.inl h
  | some i =>
    refine Or.inr ⟨i, ?_⟩
    have hworking : (s.operation i).Working := h
    cases hi : s.operation i with
    | working calling => exact trivial
    | _ =>
      rw [hi] at hworking
      exact absurd hworking id

/-- No step changes nothing for the others. -/
theorem Advances.refl (s : Lifecycle ι κ ω) : Advances s s :=
  ⟨id, id, le_rfl, le_rfl, fun _ => id, Or.inl, Or.inl rfl⟩

section

variable [Fintype ι] {keeper : ω → Option ι}

theorem inv_new : Inv keeper (new : Lifecycle ι κ ω) where
  active_eq := (Finset.card_eq_zero.mpr (Finset.filter_false_of_mem fun _ _ => id)).symm
  active_lt := show 0 < usizeSize by decide
  closed_of_value h := absurd h (by simp [new, Watch.new])
  closers _ := trivial
  receivers _ := trivial

/-! ### Steps of an operation -/

section

variable [DecidableEq ι]

/-- **A step of an operation** keeps the invariant if it accounts for the count, hands out no guard
once the lifecycle is closed, does not stop being pending without a notification, and gives up a
guard only when its receivers are gone. -/
theorem Inv.operation_step (h : Inv keeper s) {i : ι} {operation : Operation} {active : ℕ}
    {activity : Watch UInt64}
    (hactive : active = tally Operation.Counted (Function.update s.operation i operation))
    (hlt : active < usizeSize) (hversion : s.activity.version ≤ activity.version)
    (hworking : operation.Working → (s.operation i).Working ∨ s.closed = false)
    (hpending : (s.operation i).Counted ∨ (s.operation i).Notifying →
      (operation.Counted ∨ operation.Notifying) ∨ ∀ seen ≤ s.activity.version, activity.Unseen seen)
    (hkept : (s.operation i).Working → operation.Working ∨
      ∀ w, keeper w = some i → ¬ (s.receiver w).Active) :
    Inv keeper { s with
      active := active
      activity := activity
      operation := Function.update s.operation i operation } := by
  have hself : Function.update s.operation i operation i = operation := Function.update_self ..
  have hother : ∀ j, j ≠ i → Function.update s.operation i operation j = s.operation j :=
    fun j hji => Function.update_of_ne hji ..
  have hadvances : Advances s { s with
      active := active
      activity := activity
      operation := Function.update s.operation i operation } := by
    refine ⟨id, id, hversion, le_rfl, fun hclosed hquiet j hj => ?_, fun hpend => ?_, Or.inl rfl⟩
    · have hnew : (Function.update s.operation i operation j).Working := hj
      by_cases hji : j = i
      · rw [hji, hself] at hnew
        rcases hworking hnew with hold | hopen
        · exact hquiet i hold
        · rw [hclosed] at hopen
          exact absurd hopen (by simp)
      · rw [hother j hji] at hnew
        exact hquiet j hnew
    · obtain ⟨j, hj⟩ := hpend
      by_cases hji : j = i
      · rw [hji] at hj
        refine (hpending hj).imp_left fun hnew => ⟨i, ?_⟩
        show (Function.update s.operation i operation i).Counted ∨
          (Function.update s.operation i operation i).Notifying
        rw [hself]
        exact hnew
      · refine Or.inl ⟨j, ?_⟩
        show (Function.update s.operation i operation j).Counted ∨
          (Function.update s.operation i operation j).Notifying
        rw [hother j hji]
        exact hj
  refine ⟨hactive, hlt, h.closed_of_value, fun k => (h.closers k).advance hadvances, fun w => ?_⟩
  refine (h.receivers w).advance hadvances fun hreceiver hkeeper => ?_
  cases hw : keeper w with
  | none =>
    rw [hw] at hkeeper
    exact hkeeper
  | some j =>
    rw [hw] at hkeeper
    show (Function.update s.operation i operation j).Working
    by_cases hji : j = i
    · rw [hji] at hkeeper hw
      rw [hji, hself]
      exact (hkept hkeeper).resolve_right fun hgone => hgone w hw hreceiver
    · rw [hother j hji]
      exact hkeeper

/-- A step of an operation that stays registered, or is not registered before and after. -/
theorem Inv.operation_step_same (h : Inv keeper s) {i : ι} {operation : Operation}
    (hcounted : operation.Counted ↔ (s.operation i).Counted)
    (hnotifying : ¬ (s.operation i).Notifying)
    (hworking : operation.Working → (s.operation i).Working ∨ s.closed = false)
    (hkept : (s.operation i).Working → operation.Working) :
    Inv keeper { s with operation := Function.update s.operation i operation } := by
  have hactive : s.active = tally Operation.Counted (Function.update s.operation i operation) := by
    rw [tally_update_same hcounted]
    exact h.active_eq
  refine h.operation_step hactive h.active_lt le_rfl hworking (fun hpending => ?_)
    fun hold => Or.inl (hkept hold)
  exact Or.inl (Or.inl (hcounted.mpr (hpending.resolve_right hnotifying)))

/-- A broker call begins or ends while the guard is held. -/
theorem Inv.call_step (h : Inv keeper s) {i : ι} {calling : Bool}
    (hi : s.operation i = .working calling) (next : Bool) :
    Inv keeper { s with operation := Function.update s.operation i (.working next) } := by
  refine h.operation_step_same ?_ ?_ ?_ fun _ => trivial
  · rw [hi]
    exact Iff.rfl
  · rw [hi]
    exact id
  · rw [hi]
    exact fun _ => Or.inl trivial

/-- The `fetch_add` of a guard: the counter does not wrap. -/
theorem Inv.fetchAdd_step (h : Inv keeper s) {i : ι} (hi : s.operation i = .opened)
    (hroom : s.active + 1 < usizeSize) :
    Inv keeper { s with
      active := Kafkax.fetchAdd s.active
      operation := Function.update s.operation i .added } := by
  have hcount := tally_update_gain (P := Operation.Counted) (f := s.operation) (i := i)
    (a := .added) trivial (by rw [hi]; exact id)
  rw [fetchAdd_eq hroom]
  refine h.operation_step ?_ hroom le_rfl (fun hw => absurd hw id)
    (fun _ => Or.inl (Or.inl trivial)) (fun hw => ?_)
  · rw [hcount, h.active_eq]
  · rw [hi] at hw
    exact absurd hw id

/-- The `fetch_sub` of a guard: the counter does not wrap. -/
theorem Inv.drop_step (h : Inv keeper s) {i : ι}
    (hcounted : (s.operation i).Counted) (result : KafkaResult Unit)
    (hgone : (s.operation i).Working → ∀ w, keeper w = some i → ¬ (s.receiver w).Active) :
    Inv keeper { s with
      active := fetchSub s.active
      operation := Function.update s.operation i (.notifying result) } := by
  have hpos : 0 < s.active := by
    rw [h.active_eq]
    exact tally_pos hcounted
  have hcount := tally_update_loss (f := s.operation) (i := i) (a := .notifying result) id hcounted
  have hlt := h.active_lt
  have hsub : fetchSub s.active = s.active - 1 := fetchSub_eq hpos hlt
  rw [hsub]
  refine h.operation_step ?_ (by omega) le_rfl (fun hw => absurd hw id)
    (fun _ => Or.inl (Or.inr trivial)) fun hworking => Or.inr (hgone hworking)
  rw [h.active_eq]
  omega

/-- The `send_modify` of a guard wakes whoever waits for the count. -/
theorem Inv.notify_step (h : Inv keeper s) {i : ι} {result : KafkaResult Unit}
    (hi : s.operation i = .notifying result) :
    Inv keeper { s with
      activity := s.activity.sendModify (· + 1)
      operation := Function.update s.operation i (.finished result) } := by
  have hactive : s.active =
      tally Operation.Counted (Function.update s.operation i (.finished result)) := by
    rw [tally_update_same (by rw [hi]; exact Iff.rfl)]
    exact h.active_eq
  refine h.operation_step hactive h.active_lt (s.activity.version_le_sendModify _)
    (fun hw => absurd hw id) (fun _ => Or.inr fun seen hseen => ?_) fun hw => ?_
  · exact Watch.unseen_sendModify hseen _
  · rw [hi] at hw
    exact absurd hw id

end

/-! ### Steps of the other parties -/

/-- A step of a call of `close` on itself. -/
theorem Inv.closer_step [DecidableEq κ] (h : Inv keeper s) {k : κ} {c : Closer}
    (hc : CloserInv s c) : Inv keeper { s with closer := Function.update s.closer k c } where
  active_eq := h.active_eq
  active_lt := h.active_lt
  closed_of_value := h.closed_of_value
  closers := (Function.forall_update_iff s.closer fun _ => CloserInv s).mpr
    ⟨hc, fun j _ => h.closers j⟩
  receivers := h.receivers

/-- The load of the count: at zero nothing is registered any more, otherwise something is counted
and the call waits for it. -/
theorem Inv.load_step [DecidableEq κ] (h : Inv keeper s) {k : κ} {seen : ℕ}
    (hk : s.closer k = .checking seen) :
    Inv keeper { s with
      closer := Function.update s.closer k
        (if s.active = 0 then .returned (.ok ()) else .waiting seen) } := by
  have hinv := h.closers k
  rw [hk] at hinv
  obtain ⟨hseen, hclosed, hvalue⟩ := hinv
  refine h.closer_step ?_
  by_cases hzero : s.active = 0
  · rw [if_pos hzero]
    refine ⟨hclosed, hvalue, fun _ i hworking => ?_⟩
    have hpos := tally_pos hworking.counted
    rw [← h.active_eq, hzero] at hpos
    exact absurd hpos (Nat.lt_irrefl 0)
  · rw [if_neg hzero]
    refine ⟨hseen, hclosed, hvalue, Or.inr ?_⟩
    obtain ⟨i, hi⟩ := exists_of_tally_pos (h.active_eq ▸ Nat.pos_of_ne_zero hzero)
    exact ⟨i, Or.inl hi⟩

/-- A step of a receiver. -/
theorem Inv.receiver_step [DecidableEq ω] (h : Inv keeper s) {w : ω} {r : Receiver}
    (hr : ReceiverInv s (keeper w) r) :
    Inv keeper { s with receiver := Function.update s.receiver w r } where
  active_eq := h.active_eq
  active_lt := h.active_lt
  closed_of_value := h.closed_of_value
  closers := h.closers
  receivers := (Function.forall_update_iff s.receiver fun w => ReceiverInv s (keeper w)).mpr
    ⟨hr, fun v _ => h.receivers v⟩

omit [Fintype ι] in
/-- What a receiver finds when it borrows the value: the shutdown, or nothing it could miss. -/
theorem borrowed (hclosed : s.shutdown.value = true → s.closed = true) {seen : ℕ}
    {kept : Option ι} (hseen : seen ≤ s.shutdown.version) (hkept : s.Kept kept) :
    ReceiverInv s kept (if s.shutdown.value then .returned else .parked seen) := by
  by_cases hvalue : s.shutdown.value = true
  · rw [if_pos hvalue]
    exact hclosed hvalue
  · rw [if_neg hvalue]
    exact ⟨hseen, hkept, fun htrue => absurd htrue hvalue⟩

/-- A change of the shared state that no operation is part of. -/
theorem Inv.advance (h : Inv keeper s) (hadvances : Advances s s')
    (hactive : s'.active = s.active) (hoperation : s'.operation = s.operation)
    (hcloser : s'.closer = s.closer) (hreceiver : s'.receiver = s.receiver)
    (hpool : s'.pool = s.pool) (hclosed : s'.shutdown.value = true → s'.closed = true) :
    Inv keeper s' := by
  refine ⟨?_, ?_, hclosed, fun k => ?_, fun w => ?_⟩
  · rw [hactive, hoperation]
    exact h.active_eq
  · rw [hactive]
    exact h.active_lt
  · rw [hcloser]
    exact (h.closers k).advance hadvances
  · rw [hreceiver]
    refine (h.receivers w).advance hadvances fun _ hkept => ?_
    cases hw : keeper w with
    | none =>
      rw [hw] at hkept
      exact hpool.trans hkept
    | some i =>
      rw [hw] at hkept
      show (s'.operation i).Working
      rw [hoperation]
      exact hkept

theorem Inv.storeClosed_step [DecidableEq κ] (h : Inv keeper s) {k : κ} {seen : ℕ}
    (hk : s.closer k = .subscribed seen) :
    Inv keeper { s with closed := true, closer := Function.update s.closer k (.stored seen) } := by
  have hadvances : Advances s { s with closed := true } :=
    ⟨fun _ => rfl, id, le_rfl, le_rfl, fun hclosed hquiet => hquiet, Or.inl, Or.inl rfl⟩
  have hstored : Inv keeper { s with closed := true } :=
    h.advance hadvances rfl rfl rfl rfl rfl fun _ => rfl
  have hseen : seen ≤ s.activity.version := by
    have hinv := h.closers k
    rw [hk] at hinv
    exact hinv
  exact hstored.closer_step ⟨hseen, rfl⟩

theorem Inv.broadcast_step [DecidableEq κ] (h : Inv keeper s) {k : κ} {seen : ℕ}
    (hk : s.closer k = .stored seen) :
    Inv keeper { s with
      shutdown := s.shutdown.sendReplace true
      closer := Function.update s.closer k (.checking seen) } := by
  have hinv := h.closers k
  rw [hk] at hinv
  obtain ⟨hseen, hclosed⟩ := hinv
  have hadvances : Advances s { s with shutdown := s.shutdown.sendReplace true } :=
    ⟨id, fun _ => rfl, le_rfl, s.shutdown.version_le_sendReplace true, fun _ hquiet => hquiet,
      Or.inl, Or.inr fun _ hle => Watch.unseen_sendReplace hle true⟩
  have hsent : Inv keeper { s with shutdown := s.shutdown.sendReplace true } :=
    h.advance hadvances rfl rfl rfl rfl rfl fun _ => hclosed
  exact hsent.closer_step ⟨hseen, hclosed, rfl⟩

/-- The last handle of the pool goes when no receiver borrows it. -/
theorem Inv.dropPool_step (h : Inv keeper s)
    (hreceivers : ∀ w, keeper w = none → ¬ (s.receiver w).Active) :
    Inv keeper { s with pool := false } := by
  have hadvances : Advances s { s with pool := false } :=
    ⟨id, id, le_rfl, le_rfl, fun _ hquiet => hquiet, Or.inl, Or.inl rfl⟩
  refine ⟨h.active_eq, h.active_lt, h.closed_of_value, fun k => (h.closers k).advance hadvances,
    fun w => (h.receivers w).advance hadvances fun hactive hkept => ?_⟩
  cases hw : keeper w with
  | none => exact absurd hactive (hreceivers w hw)
  | some i =>
    rw [hw] at hkept
    exact hkept

/-! ### All steps -/

/-- **A step** keeps the invariant. -/
theorem Inv.step [DecidableEq ι] [DecidableEq κ] [DecidableEq ω] (h : Inv keeper s)
    (hstep : Step keeper s s') : Inv keeper s' := by
  have hcloser : ∀ k c, s.closer k = c → CloserInv s c := fun k c hk => hk ▸ h.closers k
  have hreceiver : ∀ w r, s.receiver w = r → ReceiverInv s (keeper w) r :=
    fun w r hw => hw ▸ h.receivers w
  cases hstep with
  | ensureOpen i hpool hi =>
    refine h.operation_step_same ?_ ?_ ?_ ?_
    · rw [hi]
      cases s.ensureOpen <;> exact Iff.rfl
    · rw [hi]
      exact id
    · cases s.ensureOpen <;> exact False.elim
    · rw [hi]
      exact False.elim
  | fetchAdd i hi hroom => exact h.fetchAdd_step hi hroom
  | newGuard i hi =>
    refine h.operation_step_same ?_ ?_ (fun hw => absurd hw id) ?_
    · rw [hi]
      exact Iff.rfl
    · rw [hi]
      exact id
    · rw [hi]
      exact False.elim
  | recheck i hi =>
    refine h.operation_step_same ?_ ?_ ?_ ?_
    · rw [hi]
      cases s.closed <;> exact Iff.rfl
    · rw [hi]
      exact id
    · cases s.closed with
      | false => exact fun _ => Or.inr rfl
      | true => exact False.elim
    · rw [hi]
      exact False.elim
  | beginCall i hi => exact h.call_step hi true
  | endCall i hi => exact h.call_step hi false
  | rollBack i hi =>
    refine h.drop_step (by rw [hi]; exact trivial) _ ?_
    rw [hi]
    exact False.elim
  | dropGuard i hi hreceivers =>
    exact h.drop_step (by rw [hi]; exact trivial) _ fun _ => hreceivers
  | notify i result hi => exact h.notify_step hi
  | subscribe k hpool hk => exact h.closer_step le_rfl
  | storeClosed k seen hk => exact h.storeClosed_step hk
  | broadcast k seen hk => exact h.broadcast_step hk
  | load k seen hk => exact h.load_step hk
  | wake k seen hk hunseen =>
    obtain ⟨hseen, hclosed, hvalue, -⟩ := hcloser k _ hk
    exact h.closer_step ⟨le_rfl, hclosed, hvalue⟩
  | activityGone k seen hk hgone =>
    obtain ⟨hseen, hclosed, hvalue, -⟩ := hcloser k _ hk
    exact h.closer_step ⟨hclosed, hvalue, fun hok => absurd hok (by simp)⟩
  | timeout k seen hk =>
    obtain ⟨hseen, hclosed, hvalue, -⟩ := hcloser k _ hk
    exact h.closer_step ⟨hclosed, hvalue, fun hok => absurd hok (by simp)⟩
  | dropClose k seen hk =>
    obtain ⟨hseen, hclosed, hvalue, -⟩ := hcloser k _ hk
    exact h.closer_step ⟨hclosed, hvalue⟩
  | subscribeShutdown w hw hkept => exact h.receiver_step ⟨le_rfl, hkept⟩
  | borrow w seen hw =>
    obtain ⟨hseen, hkept⟩ := hreceiver w _ hw
    exact h.receiver_step (borrowed h.closed_of_value hseen hkept)
  | changed w seen hw hunseen =>
    obtain ⟨hseen, hkept, -⟩ := hreceiver w _ hw
    exact h.receiver_step ⟨le_rfl, hkept⟩
  | borrowAgain w seen hw =>
    obtain ⟨hseen, hkept⟩ := hreceiver w _ hw
    exact h.receiver_step (borrowed h.closed_of_value hseen hkept)
  | shutdownGone w seen hw hgone =>
    obtain ⟨hseen, hkept, -⟩ := hreceiver w _ hw
    exact absurd (sendersAlive_of_kept hkept) hgone
  | cancel w seen hw =>
    obtain ⟨hseen, hkept, -⟩ := hreceiver w _ hw
    exact h.receiver_step ⟨hseen, hkept⟩
  | dropReceiver w => exact h.receiver_step trivial
  | dropPool hstarting hclosers hreceivers => exact h.dropPool_step hreceivers

/-- **A run** keeps the invariant. -/
theorem inv_of_reachable [DecidableEq ι] [DecidableEq κ] [DecidableEq ω]
    (h : Reachable keeper s) : Inv keeper s := by
  induction h with
  | refl => exact inv_new
  | tail _ hstep ih => exact ih.step hstep

end

end Lifecycle

end Kafkax
