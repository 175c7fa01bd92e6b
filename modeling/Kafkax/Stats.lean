import Kafkax.ControlPlane
import Kafkax.Library.Interleave

/-!
# The snapshot of the counters

`stats` loads the counters of a pool one by one, while the calls on the pool go on.  The values it
returns are those of different moments, and may add up to no state of the pool.

* `counted_publish`, `counted_topics`: at every moment a counter lies between the calls that have
  returned and the calls whose outcome is decided.
* `stats_between`: so does each field of a snapshot, for the calls that had returned before it and
  those that were decided after it.
-/

namespace Kafkax

open Counting Programs Relation

/-- `KafkaPoolStats` -/
structure KafkaPoolStats where
  published : UInt64
  publishFailed : UInt64
  publishTimeouts : UInt64
  publishCancelled : UInt64
  topicsEnsured : UInt64
  topicsDeleted : UInt64
  closed : Bool
deriving DecidableEq

/-- The field of a counter. -/
def KafkaPoolStats.counter (self : KafkaPoolStats) : Counter → UInt64
  | .published => self.published
  | .publishFailed => self.publishFailed
  | .publishTimeouts => self.publishTimeouts
  | .publishCancelled => self.publishCancelled
  | .topicsEnsured => self.topicsEnsured
  | .topicsDeleted => self.topicsDeleted

/-- A load of an atomic of the pool. -/
inductive Load where
  | counter (c : Counter)
  | closed

/-- What a load returns. -/
abbrev Load.Value : Load → Type
  | .counter _ => UInt64
  | .closed => Bool

/-- A program of loads. -/
abbrev LoadProgram (α : Type) := Program Load Load.Value Empty α

/-- One load. -/
def load (l : Load) : LoadProgram l.Value := .call l fun value => .ret (.ok value)

/-- `stats` -/
def stats : LoadProgram KafkaPoolStats := do
  let published ← load (.counter .published)
  let publishFailed ← load (.counter .publishFailed)
  let publishTimeouts ← load (.counter .publishTimeouts)
  let publishCancelled ← load (.counter .publishCancelled)
  let topicsEnsured ← load (.counter .topicsEnsured)
  let topicsDeleted ← load (.counter .topicsDeleted)
  let closed ← load .closed
  return ⟨published, publishFailed, publishTimeouts, publishCancelled, topicsEnsured,
    topicsDeleted, closed⟩

/-! ### The counters only grow -/

variable {display : RskafkaError → LineText.Text} {connected : Bool}

namespace PublishPool

variable {ι : Type} [DecidableEq ι] {publish : ι → PublishInput} {s s' : PublishPool ι}

/-- One call moves on, and keeps the increments it has made. -/
theorem made_update {i : ι} {next : Publishing} (h : (s.call i).made <+: next.made) (j : ι) :
    (s.call j).made <+: (Function.update s.call i next j).made :=
  (Function.forall_update_iff s.call fun j p => (s.call j).made <+: p.made).mpr
    ⟨h, fun _ _ => List.prefix_rfl⟩ j

theorem made_update_nil {i : ι} {p next : Publishing} (hi : s.call i = p) (hp : p.made = [])
    (j : ι) : (s.call j).made <+: (Function.update s.call i next j).made :=
  made_update (by rw [hi, hp]; exact List.nil_prefix) j

/-- **A step** makes increments and takes none back. -/
theorem Step.made (h : Step connected publish s s') (j : ι) :
    (s.call j).made <+: (s'.call j).made := by
  cases h with
  | storeClosed => exact List.prefix_rfl
  | broadcast hclosed => exact List.prefix_rfl
  | increment i made todo c result hi =>
    refine made_update ?_ j
    rw [hi]
    exact List.prefix_append made [c]
  | returns i made result hi =>
    refine made_update ?_ j
    rw [hi]
    exact List.prefix_rfl
  | begin i hi => exact made_update_nil hi rfl j
  | clientCheck i hi => exact made_update_nil hi rfl j
  | clientRecheck i hi => exact made_update_nil hi rfl j
  | noClient i hi => exact made_update_nil hi rfl j
  | clientShutdown i hi => exact made_update_nil hi rfl j
  | clientAnswer i hi => exact made_update_nil hi rfl j
  | produceCheck i hi => exact made_update_nil hi rfl j
  | produceRecheck i hi => exact made_update_nil hi rfl j
  | produced i outcome hi => exact made_update_nil hi rfl j

end PublishPool

namespace BusyPool

variable {ι κ : Type} [DecidableEq ι] [DecidableEq κ] {publish : ι → PublishInput}
  {control : κ → ControlInput} {s t u : BusyPool ι κ}

omit [DecidableEq ι] in
theorem made_control {k : κ} {next : Controlling} (h : (s.control k).made <+: next.made) (j : κ) :
    (s.control j).made <+: (Function.update s.control k next j).made :=
  (Function.forall_update_iff s.control fun j p => (s.control j).made <+: p.made).mpr
    ⟨h, fun _ _ => List.prefix_rfl⟩ j

theorem Step.made (h : Step display connected publish control s t) :
    (∀ i, (s.pool.call i).made <+: (t.pool.call i).made) ∧
    ∀ k, (s.control k).made <+: (t.control k).made := by
  cases h with
  | pool pool hstep => exact ⟨hstep.made, fun _ => List.prefix_rfl⟩
  | increment k made todo c result hk =>
    refine ⟨fun _ => List.prefix_rfl, made_control ?_⟩
    rw [hk]
    exact List.prefix_append made [c]
  | returns k made result hk =>
    refine ⟨fun _ => List.prefix_rfl, made_control ?_⟩
    rw [hk]
    exact List.prefix_rfl
  | begin k hk | recheck k hk | answered k cancelled hk =>
    refine ⟨fun _ => List.prefix_rfl, made_control ?_⟩
    rw [hk]
    exact List.nil_prefix

variable [Fintype ι] [Fintype κ]

/-- The number of increments of a counter, by all calls. -/
def counted (c : Counter) (s : BusyPool ι κ) : ℕ := s.pool.increments c + s.increments c

/-- Along a run the increments only grow, and `close` is for good. -/
theorem counted_mono (h : ReflTransGen (Step display connected publish control) s t) (c : Counter) :
    s.counted c ≤ t.counted c ∧ (s.pool.closed = true → t.pool.closed = true) := by
  induction h with
  | refl => exact ⟨le_refl _, id⟩
  | @tail t t' _ hstep ih =>
    obtain ⟨hcalls, hcontrols⟩ := hstep.made
    have hcounted : t.counted c ≤ t'.counted c :=
      Nat.add_le_add (Finset.sum_le_sum fun i _ => (hcalls i).sublist.count_le c)
        (Finset.sum_le_sum fun k _ => (hcontrols k).sublist.count_le c)
    refine ⟨ih.1.trans hcounted, fun hclosed => ?_⟩
    have ht := ih.2 hclosed
    cases hstep with
    | pool pool hstep => exact hstep.stays_closed ht
    | _ => exact ht

end BusyPool

/-! ### Between the returned and the decided calls -/

/-- The call once it has made all increments of its outcome, if that is decided. -/
def Publishing.settled : Publishing → Publishing
  | .recording made todo result => .finished (made ++ todo) result
  | p => p

theorem Publishing.finished_of_succeeded {p : Publishing} (h : p.succeeded = true) :
    ∃ made result, p = .finished made result := by
  cases p with
  | finished made result => exact ⟨made, result, rfl⟩
  | _ => exact nomatch h

theorem Publishing.finished_of_wasCancelled {p : Publishing} (h : p.wasCancelled = true) :
    ∃ made result, p = .finished made result := by
  cases p with
  | finished made result => exact ⟨made, result, rfl⟩
  | _ => exact nomatch h

/-- The call once it has made all increments of its outcome, if that is decided. -/
def Controlling.settled : Controlling → Controlling
  | .recording made todo result => .finished (made ++ todo) result
  | p => p

section

variable {closed : Bool} {c : Counter}

/-- A counter of the outcomes that a property tells has counted a call at the latest when it
returns, and not before its outcome is decided. -/
theorem count_publishing {input : PublishInput} {p : Publishing}
    (h : CallInv connected closed input p) {counted : Publishing → Bool}
    (hreturned : counted p = true → ∃ made result, p = .finished made result)
    (hends : ∀ made result, Ends connected closed input made result →
      made.count c = if counted (.finished made result) then 1 else 0) :
    (counted p = true → 1 ≤ p.made.count c) ∧
    p.made.count c ≤ if counted p.settled = true then 1 else 0 := by
  refine ⟨fun hcounted => ?_, ?_⟩
  · obtain ⟨made, result, rfl⟩ := hreturned hcounted
    rw [Publishing.made, hends made result h, hcounted]
    exact le_refl 1
  · cases p with
    | recording made todo result =>
      have hmade : made.count c ≤ (made ++ todo).count c :=
        (List.prefix_append made todo).sublist.count_le c
      exact hmade.trans (hends _ result h).le
    | finished made result => exact (hends made result h).le
    | _ => exact Nat.zero_le _

theorem count_controlling {call : ControlCall} {p : Controlling}
    (h : BusyPool.ControlInv closed call p) :
    (call.counter? = some c ∧ p.succeeded = true → 1 ≤ p.made.count c) ∧
    p.made.count c ≤ if call.counter? = some c ∧ p.settled.succeeded = true then 1 else 0 := by
  refine ⟨fun hcounted => ?_, ?_⟩
  · cases p with
    | finished made result =>
      rw [Controlling.made, BusyPool.count_settled h, if_pos hcounted]
    | _ => exact nomatch hcounted.2
  · cases p with
    | recording made todo result =>
      have hmade : made.count c ≤ (made ++ todo).count c :=
        (List.prefix_append made todo).sublist.count_le c
      exact hmade.trans (BusyPool.count_settled h c).le
    | finished made result => exact (BusyPool.count_settled h c).le
    | _ => exact Nat.zero_le _

end

namespace BusyPool

variable {ι κ : Type} [Fintype ι] [Fintype κ] {publish : ι → PublishInput}
  {control : κ → ControlInput} {s t u : BusyPool ι κ}

/-- The number of calls that are or will be counted by a counter, of those with an outcome. -/
def acceptances (control : κ → ControlInput) (c : Counter) (s : BusyPool ι κ) : ℕ :=
  tally (fun x : ControlInput × Controlling =>
    x.1.call.counter? = some c ∧ x.2.settled.succeeded = true) fun k => (control k, s.control k)

/-- The increments of a counter of the producers, whatever calls are in progress. -/
theorem counted_publish (h : BusyInv connected publish control s) {c : Counter}
    (hc : c ≠ .topicsEnsured ∧ c ≠ .topicsDeleted) {counted : Publishing → Bool}
    (hreturned : ∀ p, counted p = true → ∃ made result, p = .finished made result)
    (hends : ∀ i made result, Ends connected s.pool.closed (publish i) made result →
      made.count c = if counted (.finished made result) then 1 else 0) :
    tally (fun p => counted p = true) s.pool.call ≤ s.counted c ∧
    s.counted c ≤ tally (fun p : Publishing => counted p.settled = true) s.pool.call := by
  have hcall : ∀ i, CallInv connected s.pool.closed (publish i) (s.pool.call i) := by
    obtain ⟨own, hown, hpool⟩ := h.publishes
    rw [hpool]
    exact hown.calls
  have hcounted : s.counted c = s.pool.increments c := by
    rw [BusyPool.counted, increments_publish h hc, Nat.add_zero]
  rw [hcounted]
  exact ⟨tally_le_total fun i => (count_publishing (hcall i) (hreturned _) (hends i)).1,
    total_le_tally fun i => (count_publishing (hcall i) (hreturned _) (hends i)).2⟩

/-- The increments of a counter of the topics, whatever calls are in progress. -/
theorem counted_topics (h : BusyInv connected publish control s) {c : Counter}
    (hc : c = .topicsEnsured ∨ c = .topicsDeleted) :
    s.successes control c ≤ s.counted c ∧ s.counted c ≤ s.acceptances control c := by
  have hcounted : s.counted c =
      total (fun x : ControlInput × Controlling => x.2.made.count c)
        fun k => (control k, s.control k) := by
    rw [BusyPool.counted, pool_increments_topics h hc, Nat.zero_add]
    rfl
  rw [hcounted]
  exact ⟨tally_le_total fun k => (count_controlling (h.controls k)).1,
    total_le_tally fun k => (count_controlling (h.controls k)).2⟩

/-! ### The snapshot -/

/-- A load of the pool. -/
def loadAtomic : (l : Load) → BusyPool ι κ → l.Value × BusyPool ι κ
  | .counter c, s => (s.pool.counter c, s)
  | .closed, s => (s.pool.closed, s)

omit [Fintype ι] [Fintype κ] in
theorem readOnly_loadAtomic : ReadOnly (loadAtomic : (l : Load) → BusyPool ι κ → _) := by
  intro l s
  cases l <;> rfl

/-- A snapshot lies between two moments: each counter between its two values, and between the
calls that had returned at the first and those with an outcome at the second. -/
structure Between (control : κ → ControlInput) (s u : BusyPool ι κ) (snapshot : KafkaPoolStats) :
    Prop where
  counter : ∀ c, (s.pool.counter c).toNat ≤ (snapshot.counter c).toNat ∧
    (snapshot.counter c).toNat ≤ (u.pool.counter c).toNat
  published : tally (fun p => p.succeeded = true) s.pool.call ≤ snapshot.published.toNat ∧
    snapshot.published.toNat ≤ tally (fun p : Publishing => p.settled.succeeded = true) u.pool.call
  cancelled : tally (fun p => p.wasCancelled = true) s.pool.call ≤
      snapshot.publishCancelled.toNat ∧
    snapshot.publishCancelled.toNat ≤
      tally (fun p : Publishing => p.settled.wasCancelled = true) u.pool.call
  topics : ∀ c, c = .topicsEnsured ∨ c = .topicsDeleted →
    s.successes control c ≤ (snapshot.counter c).toNat ∧
    (snapshot.counter c).toNat ≤ u.acceptances control c
  closed_of_before : s.pool.closed = true → snapshot.closed = true
  closed_after : snapshot.closed = true → u.pool.closed = true

variable [DecidableEq ι] [DecidableEq κ]

/-- The value of a counter that has not wrapped. -/
theorem toNat_counter (h : Reachable display connected publish control s) {c : Counter}
    (hsmall : s.counted c < 2 ^ 64) : (s.pool.counter c).toNat = s.counted c := by
  rw [counter_of_busyInv (busyInv_of_reachable h), UInt64.toNat_ofNat']
  exact Nat.mod_eq_of_lt hsmall

/-- Loads at moments between two others. -/
theorem Between.of_loads (h : Reachable display connected publish control s)
    (hrun : ReflTransGen (Step display connected publish control) s u)
    (hsmall : ∀ c, u.counted c < 2 ^ 64) {snapshot : KafkaPoolStats}
    (hcounter : ∀ c, ∃ t, ReflTransGen (Step display connected publish control) s t ∧
      ReflTransGen (Step display connected publish control) t u ∧
      snapshot.counter c = t.pool.counter c)
    (hclosed : ∃ t, ReflTransGen (Step display connected publish control) s t ∧
      ReflTransGen (Step display connected publish control) t u ∧
      snapshot.closed = t.pool.closed) : Between control s u snapshot := by
  have hinv := busyInv_of_reachable h
  have hinv' : BusyInv connected publish control u := busyInv_of_reachable (h.trans hrun)
  have hloaded : ∀ c, s.counted c ≤ (snapshot.counter c).toNat ∧
      (snapshot.counter c).toNat ≤ u.counted c := by
    intro c
    obtain ⟨t, hs, hu, hload⟩ := hcounter c
    have hafter := (counted_mono hu c).1
    rw [hload, toNat_counter (h.trans hs) (hafter.trans_lt (hsmall c))]
    exact ⟨(counted_mono hs c).1, hafter⟩
  have hpublish : ∀ {c : Counter} {counted : Publishing → Bool},
      c ≠ .topicsEnsured ∧ c ≠ .topicsDeleted →
      (∀ p, counted p = true → ∃ made result, p = .finished made result) →
      (∀ closed i made result, Ends connected closed (publish i) made result →
        made.count c = if counted (.finished made result) then 1 else 0) →
      tally (fun p => counted p = true) s.pool.call ≤ (snapshot.counter c).toNat ∧
      (snapshot.counter c).toNat ≤
        tally (fun p : Publishing => counted p.settled = true) u.pool.call := by
    intro c counted hc hreturned hends
    have hbefore := (counted_publish hinv hc hreturned (hends _)).1
    have hafter := (counted_publish hinv' hc hreturned (hends _)).2
    exact ⟨hbefore.trans (hloaded c).1, (hloaded c).2.trans hafter⟩
  obtain ⟨t, hs, hu, hload⟩ := hclosed
  refine ⟨fun c => ?_, ?_, ?_, fun c hc => ?_, fun hs' => ?_, fun hu' => ?_⟩
  · have hbefore := (counted_mono hrun c).1
    rw [toNat_counter h (hbefore.trans_lt (hsmall c)), toNat_counter (h.trans hrun) (hsmall c)]
    exact hloaded c
  · exact hpublish (by decide) (fun _ => Publishing.finished_of_succeeded)
      fun _ _ _ _ hends => hends.count_published
  · exact hpublish (by decide) (fun _ => Publishing.finished_of_wasCancelled)
      fun _ _ _ _ hends => hends.count_publishCancelled
  · exact ⟨(counted_topics hinv hc).1.trans (hloaded c).1,
      (hloaded c).2.trans (counted_topics hinv' hc).2⟩
  · rw [hload]
    exact (counted_mono hs .published).2 hs'
  · rw [hload] at hu'
    exact (counted_mono hu .published).2 hu'

/-- **A snapshot** of the counters of a pool in use, taken load by load, lies between the moment
before its first load and the one after its last, whatever the calls on the pool do meanwhile, as
long as no counter has wrapped. -/
theorem stats_between {result : Except Empty KafkaPoolStats}
    (h : Reachable display connected publish control s)
    (hrun : Interleaved (Step display connected publish control) loadAtomic stats s result u)
    (hsmall : ∀ c, u.counted c < 2 ^ 64) :
    ∃ snapshot, result = .ok snapshot ∧ Between control s u snapshot := by
  have hread : ∀ {t : BusyPool ι κ} {l : Load} {k : l.Value → LoadProgram KafkaPoolStats},
      ReflTransGen (Step display connected publish control) s t →
      Interleaved (Step display connected publish control) loadAtomic (.call l k) t result u →
      ∃ t', ReflTransGen (Step display connected publish control) s t' ∧
        ReflTransGen (Step display connected publish control) t' u ∧
        Interleaved (Step display connected publish control) loadAtomic
          (k (loadAtomic l t').1) t' result u :=
    fun hs hrun => interleaved_read readOnly_loadAtomic hs hrun
  obtain ⟨t₁, hs₁, hu₁, hrun⟩ := hread .refl hrun
  obtain ⟨t₂, hs₂, hu₂, hrun⟩ := hread hs₁ hrun
  obtain ⟨t₃, hs₃, hu₃, hrun⟩ := hread hs₂ hrun
  obtain ⟨t₄, hs₄, hu₄, hrun⟩ := hread hs₃ hrun
  obtain ⟨t₅, hs₅, hu₅, hrun⟩ := hread hs₄ hrun
  obtain ⟨t₆, hs₆, hu₆, hrun⟩ := hread hs₅ hrun
  obtain ⟨t₇, hs₇, hu₇, hrun⟩ := hread hs₆ hrun
  obtain ⟨rfl, -⟩ := interleaved_ret hrun
  refine ⟨_, rfl, .of_loads h (hs₇.trans hu₇) hsmall (fun c => ?_) ⟨t₇, hs₇, hu₇, rfl⟩⟩
  cases c with
  | published => exact ⟨t₁, hs₁, hu₁, rfl⟩
  | publishFailed => exact ⟨t₂, hs₂, hu₂, rfl⟩
  | publishTimeouts => exact ⟨t₃, hs₃, hu₃, rfl⟩
  | publishCancelled => exact ⟨t₄, hs₄, hu₄, rfl⟩
  | topicsEnsured => exact ⟨t₅, hs₅, hu₅, rfl⟩
  | topicsDeleted => exact ⟨t₆, hs₆, hu₆, rfl⟩

/-- The pool of the calls that have ended, closed. -/
def closingPool : BusyPool Unit Unit :=
  { ensuredPool with pool := { ensuredPool.pool with closed := true } }

/-- A snapshot during which the pool is closed. -/
theorem stats_between_closing :
    Between (fun _ => ordersRequest) ensuredPool closingPool ⟨1, 0, 0, 0, 1, 0, true⟩ := by
  have hrun : Interleaved (Step quotedText.display true (fun _ => PublishPool.ordersInput)
      (fun _ => ordersRequest)) loadAtomic stats ensuredPool (.ok ⟨1, 0, 0, 0, 1, 0, true⟩)
      closingPool :=
    .call (.call (.call (.call (.call (.call (.env (.pool _ .storeClosed) (.call (.ret _ _))))))))
  have hsmall : ∀ c, closingPool.counted c < 2 ^ 64 := by
    intro c
    have hcounted : closingPool.counted c =
        [Counter.published].count c + [Counter.topicsEnsured].count c := rfl
    rw [hcounted, ← List.count_append]
    exact lt_of_le_of_lt List.count_le_length (by decide)
  obtain ⟨snapshot, hresult, hbetween⟩ := stats_between reachable_ensuredPool hrun hsmall
  rw [Except.ok.inj hresult]
  exact hbetween

end BusyPool

end Kafkax
