import Kafkax.Producer

/-!
# What the counters of a pool count

Every call that ends has made the increments of its outcome and no others (`Ends`), so the
counters of a pool without a call in progress are sums over the results of its calls.

* `success_and_cancellation`: `published` counts the calls that returned `Ok`, `publish_cancelled`
  those that returned `Closed`, and no call is counted twice.
* `failures_counted_iff`: `publish_failed` counts the calls that returned an error exactly if no
  call is refused its partition client, since that exit records nothing.
-/

namespace Kafkax

open Counting Relation

/-! ### The results of a call -/

namespace Publishing

/-- The call has returned `Ok`. -/
def succeeded : Publishing → Bool
  | .finished _ (.ok _) => true
  | _ => false

/-- The call has returned `Closed`. -/
def wasCancelled : Publishing → Bool
  | .finished _ (.error error) => error.isClosed
  | _ => false

/-- The call has returned an error, not for the shape of its record. -/
def failed (input : PublishInput) : Publishing → Bool
  | .finished _ (.error error) => decide (input.shape ≠ .error error)
  | _ => false

end Publishing

/-! ### The outcomes of a call -/

/-- The client of the partition cannot be had. -/
def ClientFails (connected : Bool) (input : PublishInput) : Prop :=
  connected = false ∨ input.partitionClient ≠ .ready (.ok ())

/-- The increments and the result of a call that ends. -/
inductive Ends (connected closed : Bool) (input : PublishInput) :
    List Counter → KafkaResult Delivery → Prop where
  | delivered (offset : I64) (hanswer : input.answer = .ready (.ok [offset])) :
      Ends connected closed input recordPublishOk (.ok ⟨input.call.record.partition, offset⟩)
  | cancelled (message : String) (hclosed : closed = true) :
      Ends connected closed input recordPublishCancelled (.error (.closed message))
  | illegal (error : KafkaError) (hshape : input.shape = .error error) :
      Ends connected closed input [] (.error error)
  /-- An error of `partition_client` other than `Closed`: nothing is recorded. -/
  | noClient (error : KafkaError) (hshape : input.shape = .ok ())
      (hfails : ClientFails connected input) (herror : error.isClosed = false) :
      Ends connected closed input [] (.error error)
  | timedOut (message : String) (hshape : input.shape = .ok ()) :
      Ends connected closed input recordPublishTimeout (.error (.timeout message))
  | refused (error : KafkaError) (hshape : input.shape = .ok ()) (herror : error.isClosed = false) :
      Ends connected closed input recordPublishErr (.error error)

/-- What holds of a call, wherever it is. -/
def CallInv (connected closed : Bool) (input : PublishInput) : Publishing → Prop
  | .idle => True
  | .recording made todo result => Ends connected closed input (made ++ todo) result
  | .finished made result => Ends connected closed input made result
  | _ => input.shape = .ok ()

variable {connected closed : Bool} {input : PublishInput}

theorem shape_eq_error {error : KafkaError} (h : input.shape = .error error) :
    error.isClosed = false := by
  rw [PublishInput.shape, checkShape] at h
  split at h
  · rw [← Except.error.inj h]
    rfl
  · split at h
    · rw [← Except.error.inj h]
      rfl
    · exact absurd h (by simp)

theorem mapKafkaError_isClosed (context : String) (error : RskafkaError) :
    (mapKafkaError context (.rskafka error)).isClosed = false := by
  rw [mapKafkaError]
  have hclosed : classify (.rskafka error) ≠ .closed := classifyRskafka_ne_closed error
  cases hclass : classify (.rskafka error) with
  | closed => exact absurd hclass hclosed
  | _ => rfl

/-- A call counts in `published` exactly if it returned `Ok`. -/
theorem Ends.count_published {made : List Counter} {result : KafkaResult Delivery}
    (h : Ends connected closed input made result) :
    made.count .published = if (Publishing.finished made result).succeeded then 1 else 0 := by
  cases h <;> rfl

/-- A call counts in `publish_cancelled` exactly if it returned `Closed`. -/
theorem Ends.count_publishCancelled {made : List Counter} {result : KafkaResult Delivery}
    (h : Ends connected closed input made result) :
    made.count .publishCancelled =
      if (Publishing.finished made result).wasCancelled then 1 else 0 := by
  cases h with
  | delivered offset hanswer => rfl
  | cancelled message hclosed => rfl
  | timedOut message hshape => rfl
  | illegal error hshape => rw [Publishing.wasCancelled, shape_eq_error hshape]; rfl
  | noClient error hshape hfails herror => rw [Publishing.wasCancelled, herror]; rfl
  | refused error hshape herror => rw [Publishing.wasCancelled, herror]; rfl

/-- No call counts twice. -/
theorem Ends.count_le_one {made : List Counter} {result : KafkaResult Delivery}
    (h : Ends connected closed input made result) :
    made.count .published + made.count .publishFailed ≤ 1 := by
  cases h <;> decide

/-- Timeouts and cancellations count as failures. -/
theorem Ends.count_publishFailed_ge {made : List Counter} {result : KafkaResult Delivery}
    (h : Ends connected closed input made result) :
    made.count .publishTimeouts + made.count .publishCancelled ≤ made.count .publishFailed := by
  cases h <;> decide

/-- A call that gets the client of its partition counts in `publish_failed` exactly if it failed. -/
theorem Ends.count_publishFailed {made : List Counter} {result : KafkaResult Delivery}
    (h : Ends connected closed input made result)
    (hclient : input.shape = .ok () → ¬ ClientFails connected input) :
    made.count .publishFailed =
      if (Publishing.finished made result).failed input then 1 else 0 := by
  cases h with
  | delivered offset hanswer => rfl
  | cancelled message hclosed =>
    have hfailed : input.shape ≠ .error (.closed message) := fun hshape =>
      absurd (shape_eq_error hshape) (by simp [KafkaError.isClosed])
    rw [Publishing.failed, decide_eq_true hfailed]
    rfl
  | illegal error hshape =>
    rw [Publishing.failed, hshape, decide_eq_false (not_not_intro rfl)]
    rfl
  | noClient error hshape hfails herror => exact absurd hfails (hclient hshape)
  | timedOut message hshape =>
    rw [Publishing.failed, hshape]
    rfl
  | refused error hshape herror =>
    rw [Publishing.failed, hshape]
    rfl

theorem Ends.mono {closed' : Bool} {made : List Counter} {result : KafkaResult Delivery}
    (h : Ends connected closed input made result) (hclosed : closed = true → closed' = true) :
    Ends connected closed' input made result := by
  cases h with
  | delivered offset hanswer => exact .delivered offset hanswer
  | cancelled message hc => exact .cancelled message (hclosed hc)
  | illegal error hshape => exact .illegal error hshape
  | noClient error hshape hfails herror => exact .noClient error hshape hfails herror
  | timedOut message hshape => exact .timedOut message hshape
  | refused error hshape herror => exact .refused error hshape herror

theorem CallInv.mono {closed' : Bool} {p : Publishing} (h : CallInv connected closed input p)
    (hclosed : closed = true → closed' = true) : CallInv connected closed' input p := by
  cases p with
  | recording made todo result => exact Ends.mono h hclosed
  | finished made result => exact Ends.mono h hclosed
  | _ => exact h

/-- An exit with `Closed` is recorded as a cancellation. -/
theorem CallInv.fail_closed (message : String) (hclosed : closed = true) :
    CallInv connected closed input (.fail (.closed message)) :=
  Ends.cancelled message hclosed

/-- An exit with another error than `Closed` is not recorded. -/
theorem CallInv.fail_noClient {error : KafkaError} (hshape : input.shape = .ok ())
    (hfails : ClientFails connected input) (herror : error.isClosed = false) :
    CallInv connected closed input (.fail error) := by
  rw [Publishing.fail, recordIfClosed, herror]
  exact Ends.noClient error hshape hfails herror

/-- The exits with the outcome of the produce call. -/
theorem CallInv.apply {outcome : LimitedProduceAwait (List I64) RskafkaError}
    (hshape : input.shape = .ok ())
    (houtcome : outcome = .cancelled ∧ closed = true ∨ outcome = input.answer.await) :
    CallInv connected closed input (.apply input.call.record.partition outcome) := by
  rcases houtcome with ⟨rfl, hclosed⟩ | houtcome
  · exact Ends.cancelled _ hclosed
  · cases hanswer : input.answer with
    | timedOut =>
      rw [houtcome, hanswer]
      exact Ends.timedOut _ hshape
    | ready result =>
      rw [houtcome, hanswer]
      cases result with
      | error e => exact Ends.refused _ hshape (mapKafkaError_isClosed _ e)
      | ok offsets =>
        cases offsets with
        | nil => exact Ends.refused _ hshape rfl
        | cons offset rest =>
          cases rest with
          | nil => exact Ends.delivered offset hanswer
          | cons second more => exact Ends.refused _ hshape rfl

namespace PublishPool

variable {ι : Type} [Fintype ι]

/-! ### The invariant -/

/-- The number of times the calls have incremented a counter. -/
def increments (c : Counter) (s : PublishPool ι) : ℕ :=
  total (fun p : Publishing => p.made.count c) s.call

/-- The invariant of all runs. -/
structure CountInv (connected : Bool) (input : ι → PublishInput) (s : PublishPool ι) : Prop where
  counters : ∀ c, s.counter c = UInt64.ofNat (s.increments c)
  calls : ∀ i, CallInv connected s.closed (input i) (s.call i)
  closed_of_shutdown : s.shutdown = true → s.closed = true

variable {input : ι → PublishInput} {s s' : PublishPool ι}

theorem countInv_new : CountInv connected input (new : PublishPool ι) where
  counters c := by
    have hzero : (new : PublishPool ι).increments c = 0 := Finset.sum_eq_zero fun _ _ => rfl
    rw [hzero]
    rfl
  calls _ := trivial
  closed_of_shutdown h := h

variable [DecidableEq ι]

/-- A step of a call that increments nothing. -/
theorem CountInv.move (h : CountInv connected input s) {i : ι} {next : Publishing}
    (hmade : next.made = (s.call i).made) (hnext : CallInv connected s.closed (input i) next) :
    CountInv connected input (s.move i next) where
  counters c := by
    have htotal := total_update (fun p : Publishing => p.made.count c) s.call i next
    have hsame : (s.move i next).increments c = s.increments c := by
      show total _ (Function.update s.call i next) = total _ s.call
      simp only [hmade] at htotal
      omega
    rw [hsame]
    exact h.counters c
  calls := (Function.forall_update_iff s.call fun j => CallInv connected s.closed (input j)).mpr
    ⟨hnext, fun j _ => h.calls j⟩
  closed_of_shutdown := h.closed_of_shutdown

/-- A step through a check of `start_operation`. -/
theorem CountInv.guarded (h : CountInv connected input s) {i : ι} {next : Publishing}
    (message : String) (hi : (s.call i).made = []) (hmade : next.made = [])
    (hnext : CallInv connected s.closed (input i) next) :
    CountInv connected input (s.move i (if s.closed then .fail (.closed message) else next)) := by
  cases hclosed : s.closed with
  | true => exact h.move (by rw [hi]; rfl) (.fail_closed _ hclosed)
  | false => exact h.move (by rw [hi, ← hmade]; rfl) hnext

/-- The first check of `start_operation`. -/
theorem CountInv.ensureOpen (h : CountInv connected input s) {i : ι} {next : Publishing}
    (hi : (s.call i).made = []) (hmade : next.made = [])
    (hnext : CallInv connected s.closed (input i) next) :
    CountInv connected input (s.move i (s.ensureOpen next)) := h.guarded _ hi hmade hnext

/-- The second check of `start_operation`. -/
theorem CountInv.recheck (h : CountInv connected input s) {i : ι} {next : Publishing}
    (hi : (s.call i).made = []) (hmade : next.made = [])
    (hnext : CallInv connected s.closed (input i) next) :
    CountInv connected input (s.move i (s.recheck next)) := h.guarded _ hi hmade hnext

/-- One increment of one call. -/
theorem CountInv.increment (h : CountInv connected input s) {i : ι} {made todo : List Counter}
    {c : Counter} {result : KafkaResult Delivery}
    (hi : s.call i = .recording made (c :: todo) result) :
    CountInv connected input { s with
      counter := Function.update s.counter c (s.counter c + 1)
      call := Function.update s.call i (.recording (made ++ [c]) todo result) } where
  counters d := by
    have htotal := total_update (fun p : Publishing => p.made.count d) s.call i
      (.recording (made ++ [c]) todo result)
    rw [hi] at htotal
    have hcount : (Publishing.recording (made ++ [c]) todo result).made.count d =
        made.count d + [c].count d := List.count_append
    have hold : (Publishing.recording made (c :: todo) result).made.count d = made.count d := rfl
    simp only [hcount, hold] at htotal
    show Function.update s.counter c (s.counter c + 1) d = UInt64.ofNat
      (total _ (Function.update s.call i (.recording (made ++ [c]) todo result)))
    by_cases hd : d = c
    · rw [hd] at htotal ⊢
      rw [Function.update_self, h.counters c, increments]
      rw [List.count_singleton_self] at htotal
      have hnew : total (fun p : Publishing => p.made.count c)
          (Function.update s.call i (.recording (made ++ [c]) todo result)) =
          total (fun p : Publishing => p.made.count c) s.call + 1 := by omega
      rw [hnew, UInt64.ofNat_add]
      rfl
    · have hzero : [c].count d = 0 := List.count_eq_zero_of_not_mem (by simpa using hd)
      rw [hzero] at htotal
      have hsame : total (fun p : Publishing => p.made.count d)
          (Function.update s.call i (.recording (made ++ [c]) todo result)) =
          total (fun p : Publishing => p.made.count d) s.call := by omega
      rw [Function.update_of_ne hd, h.counters d, increments, hsame]
  calls := by
    have hcall := h.calls i
    rw [hi] at hcall
    refine (Function.forall_update_iff s.call fun j => CallInv connected s.closed (input j)).mpr
      ⟨?_, fun j _ => h.calls j⟩
    show Ends connected s.closed (input i) ((made ++ [c]) ++ todo) result
    rw [List.append_assoc]
    exact hcall
  closed_of_shutdown := h.closed_of_shutdown

/-- **A step** keeps the invariant. -/
theorem CountInv.step (h : CountInv connected input s) (hstep : Step connected input s s') :
    CountInv connected input s' := by
  have hcall : ∀ i p, s.call i = p → CallInv connected s.closed (input i) p :=
    fun i p hi => hi ▸ h.calls i
  cases hstep with
  | storeClosed => exact ⟨h.counters, fun i => (h.calls i).mono fun _ => rfl, fun _ => rfl⟩
  | broadcast hclosed => exact ⟨h.counters, h.calls, fun _ => hclosed⟩
  | begin i hi =>
    refine h.ensureOpen (by rw [hi]; rfl) ?_ ?_
    · cases (input i).shape <;> rfl
    · cases hshape : (input i).shape with
      | ok u => exact hshape
      | error e => exact Ends.illegal e hshape
  | clientCheck i hi =>
    have hshape : (input i).shape = .ok () := hcall i _ hi
    rw [hshape]
    exact h.ensureOpen (by rw [hi]; rfl) rfl hshape
  | clientRecheck i hi =>
    have hshape : (input i).shape = .ok () := hcall i _ hi
    exact h.recheck (by rw [hi]; rfl) rfl hshape
  | noClient i hi hconnected =>
    exact h.move (by rw [hi]; rfl) (.fail_noClient (hcall i _ hi) (Or.inl hconnected) rfl)
  | clientShutdown i hi hconnected hshutdown =>
    exact h.move (by rw [hi]; rfl) (.fail_closed _ (h.closed_of_shutdown hshutdown))
  | clientAnswer i hi hconnected =>
    have hshape : (input i).shape = .ok () := hcall i _ hi
    have hmade : (s.call i).made = [] := by
      rw [hi]
      rfl
    cases hanswer : (input i).partitionClient with
    | timedOut =>
      have hfails : ClientFails connected (input i) := Or.inr (by rw [hanswer]; simp)
      exact h.move (by rw [hmade]; rfl) (.fail_noClient hshape hfails rfl)
    | ready result =>
      cases result with
      | error e =>
        have hfails : ClientFails connected (input i) := Or.inr (by rw [hanswer]; simp)
        exact h.move (by rw [hmade]; rfl)
          (.fail_noClient hshape hfails (mapKafkaError_isClosed _ e))
      | ok u => exact h.move (by rw [hmade]; rfl) hshape
  | produceCheck i hi =>
    have hshape : (input i).shape = .ok () := hcall i _ hi
    exact h.ensureOpen (by rw [hi]; rfl) rfl hshape
  | produceRecheck i hi =>
    have hshape : (input i).shape = .ok () := hcall i _ hi
    exact h.recheck (by rw [hi]; rfl) rfl hshape
  | produced i outcome hi houtcome =>
    refine h.move (by rw [hi]; rfl) (.apply (hcall i _ hi) ?_)
    exact houtcome.imp_left fun hcancelled =>
      ⟨hcancelled.1, h.closed_of_shutdown hcancelled.2⟩
  | increment i made todo c result hi => exact h.increment hi
  | returns i made result hi =>
    refine h.move (by rw [hi]; rfl) ?_
    have hends : Ends connected s.closed (input i) (made ++ []) result := hcall i _ hi
    rwa [List.append_nil] at hends

/-- **A run** keeps the invariant. -/
theorem countInv_of_reachable (h : Reachable connected input s) : CountInv connected input s := by
  induction h with
  | refl => exact countInv_new
  | tail _ hstep ih => exact ih.step hstep

omit [Fintype ι] [DecidableEq ι] in
/-- Between the calls every call has made the increments of its outcome, or has not begun. -/
theorem idle_or_ends (hquiet : s.Quiescent)
    (hcall : ∀ i, CallInv connected s.closed (input i) (s.call i)) (i : ι) :
    s.call i = .idle ∨ ∃ made result, s.call i = .finished made result ∧
      Ends connected s.closed (input i) made result := by
  have hi := hquiet i
  have hends := hcall i
  cases hp : s.call i with
  | idle => exact Or.inl rfl
  | finished made result =>
    rw [hp] at hends
    exact Or.inr ⟨made, result, rfl, hends⟩
  | _ =>
    rw [hp] at hi
    exact absurd hi id

/-! ### Every failure is counted once -/

/-- The number of calls that failed. -/
def failures (input : ι → PublishInput) (s : PublishPool ι) : ℕ :=
  tally (fun x : PublishInput × Publishing => x.2.failed x.1 = true) fun i => (input i, s.call i)

omit [DecidableEq ι] in
/-- The failures of a run in which every call gets the client of its partition. -/
theorem increments_publishFailed (hquiet : s.Quiescent)
    (hcall : ∀ i, CallInv connected s.closed (input i) (s.call i))
    (hclient : ∀ i, (input i).shape = .ok () → ¬ ClientFails connected (input i)) :
    s.increments .publishFailed = failures input s := by
  show total (fun x : PublishInput × Publishing => x.2.made.count .publishFailed)
    (fun i => (input i, s.call i)) = _
  refine total_eq_tally fun i => ?_
  show (s.call i).made.count .publishFailed = if (s.call i).failed (input i) then 1 else 0
  rcases idle_or_ends hquiet hcall i with hidle | ⟨made, result, hfinished, hends⟩
  · rw [hidle]
    rfl
  · rw [hfinished]
    exact hends.count_publishFailed (hclient i)

/-! ### The way of a call -/

omit [Fintype ι] in
theorem move_move (s : PublishPool ι) (i : ι) (p q : Publishing) :
    (s.move i p).move i q = s.move i q := by
  rw [move, move, move, Function.update_idem]

omit [Fintype ι] in
theorem call_move (s : PublishPool ι) (i : ι) (p : Publishing) : (s.move i p).call i = p :=
  Function.update_self _ _ _

omit [Fintype ι] in
/-- A run in which one call goes one step further. -/
theorem runs_move {i : ι} {p q : Publishing}
    (h : ReflTransGen (Step connected input) s (s.move i p))
    (hstep : Step connected input (s.move i p) ((s.move i p).move i q)) :
    ReflTransGen (Step connected input) s (s.move i q) := by
  rw [move_move] at hstep
  exact h.tail hstep

omit [Fintype ι] [DecidableEq ι] in
theorem ensureOpen_of_open (hopen : s.closed = false) (next : Publishing) :
    s.ensureOpen next = next := by
  rw [ensureOpen, hopen]
  rfl

omit [Fintype ι] [DecidableEq ι] in
theorem recheck_of_open (hopen : s.closed = false) (next : Publishing) : s.recheck next = next := by
  rw [recheck, hopen]
  rfl

omit [Fintype ι] in
/-- On an open pool a call with a legal record reaches the client of the pool. -/
theorem runs_clientGuarded (hopen : s.closed = false) {i : ι} (hidle : s.call i = .idle)
    (hshape : (input i).shape = .ok ()) :
    ReflTransGen (Step connected input) s (s.move i .clientGuarded) := by
  have hbegun : ReflTransGen (Step connected input) s (s.move i .opened) := by
    have hstep := @Step.begin ι _ connected input s i hidle
    rw [hshape, ensureOpen_of_open hopen] at hstep
    exact ReflTransGen.single hstep
  have hchecked : ReflTransGen (Step connected input) s (s.move i .clientOpened) := by
    have hstep := @Step.clientCheck ι _ connected input (s.move i .opened) i (call_move s i _)
    rw [hshape] at hstep
    have hnext : (s.move i .opened).ensureOpen .clientOpened = .clientOpened :=
      ensureOpen_of_open hopen _
    simp only [hnext] at hstep
    exact runs_move hbegun hstep
  have hstep := @Step.clientRecheck ι _ connected input (s.move i .clientOpened) i (call_move s i _)
  have hnext : (s.move i .clientOpened).recheck .clientGuarded = .clientGuarded :=
    recheck_of_open hopen _
  rw [hnext] at hstep
  exact runs_move hchecked hstep

omit [Fintype ι] in
/-- With the client of its partition it reaches the broker. -/
theorem runs_producing (hopen : s.closed = false) {i : ι} (hidle : s.call i = .idle)
    (hshape : (input i).shape = .ok ()) (hclient : (input i).partitionClient = .ready (.ok ())) :
    ReflTransGen (Step true input) s (s.move i .producing) := by
  have hconnected : ReflTransGen (Step true input) s (s.move i .connected) := by
    have hstep := @Step.clientAnswer ι _ true input (s.move i .clientGuarded) i
      (call_move s i _) rfl
    rw [hclient] at hstep
    exact runs_move (runs_clientGuarded hopen hidle hshape) hstep
  have hchecked : ReflTransGen (Step true input) s (s.move i .produceOpened) := by
    have hstep := @Step.produceCheck ι _ true input (s.move i .connected) i (call_move s i _)
    have hnext : (s.move i .connected).ensureOpen .produceOpened = .produceOpened :=
      ensureOpen_of_open hopen _
    rw [hnext] at hstep
    exact runs_move hconnected hstep
  have hstep := @Step.produceRecheck ι _ true input (s.move i .produceOpened) i (call_move s i _)
  have hnext : (s.move i .produceOpened).recheck .producing = .producing := recheck_of_open hopen _
  rw [hnext] at hstep
  exact runs_move hchecked hstep

omit [Fintype ι] in
/-- A call whose result is decided makes its increments and returns. -/
theorem runs_finished {i : ι} {made todo : List Counter} {result : KafkaResult Delivery}
    (hi : s.call i = .recording made todo result) :
    ∃ s', ReflTransGen (Step connected input) s s' ∧ s'.closed = s.closed ∧
      s'.call = Function.update s.call i (.finished (made ++ todo) result) := by
  induction todo generalizing s made with
  | nil =>
    refine ⟨_, ReflTransGen.single (.returns i made result hi), rfl, ?_⟩
    rw [List.append_nil]
    rfl
  | cons c rest ih =>
    obtain ⟨s', hrun, hclosed, hcall⟩ := @ih
      { s with
        counter := Function.update s.counter c (s.counter c + 1)
        call := Function.update s.call i (.recording (made ++ [c]) rest result) }
      (made ++ [c]) (Function.update_self _ _ _)
    refine ⟨s', ReflTransGen.head (.increment i made rest c result hi) hrun, hclosed, ?_⟩
    rw [hcall, Function.update_idem, List.append_assoc]
    rfl

/-! ### A call of its own -/

/-- A new pool with one call under way. -/
def only (i : ι) (p : Publishing) : PublishPool ι := new.move i p

omit [Fintype ι] in
theorem call_only (i : ι) (p : Publishing) : (only i p).call i = p := call_move new i p

omit [Fintype ι] in
theorem call_only_of_ne {i j : ι} (p : Publishing) (hji : j ≠ i) : (only i p).call j = .idle :=
  Function.update_of_ne hji _ _

omit [Fintype ι] in
/-- A step of the one call. -/
theorem reachable_only {i : ι} {p q : Publishing} (h : Reachable connected input (only i p))
    (hstep : Step connected input (only i p) ((only i p).move i q)) :
    Reachable connected input (only i q) := runs_move h hstep

omit [Fintype ι] in
/-- A call that is refused its client returns an error and has recorded nothing. -/
theorem reachable_refused {i : ι} (hshape : (input i).shape = .ok ())
    (hfails : ClientFails connected (input i)) :
    ∃ error, Reachable connected input (only i (.finished [] (.error error))) := by
  have hguarded : Reachable connected input (only i .clientGuarded) :=
    runs_clientGuarded rfl rfl hshape
  have hfail : ∃ error : KafkaError, error.isClosed = false ∧
      Reachable connected input (only i (.fail error)) := by
    cases hconnected : connected with
    | false =>
      rw [hconnected] at hguarded
      exact ⟨_, rfl, reachable_only hguarded (.noClient i (call_only i _) rfl)⟩
    | true =>
      rw [hconnected] at hguarded
      have hstep := @Step.clientAnswer ι _ true input (only i .clientGuarded) i (call_only i _) rfl
      cases hanswer : (input i).partitionClient with
      | timedOut =>
        rw [hanswer] at hstep
        exact ⟨_, rfl, reachable_only hguarded hstep⟩
      | ready result =>
        rw [hanswer] at hstep
        cases result with
        | error e => exact ⟨_, mapKafkaError_isClosed _ e, reachable_only hguarded hstep⟩
        | ok u =>
          rcases hfails with hnone | hanswered
          · exact absurd (hconnected.symm.trans hnone) (by simp)
          · exact absurd hanswer hanswered
  obtain ⟨error, herror, hrun⟩ := hfail
  rw [Publishing.fail, recordIfClosed, herror] at hrun
  exact ⟨error, reachable_only hrun (.returns i [] _ (call_only i _))⟩

omit [Fintype ι] in
theorem quiescent_only (i : ι) (made : List Counter) (result : KafkaResult Delivery) :
    (only i (.finished made result)).Quiescent :=
  (Function.forall_update_iff _ fun _ => Publishing.Quiet).mpr ⟨trivial, fun _ _ => trivial⟩

/-- One failed call is one failure. -/
theorem failures_only {i : ι} (hshape : (input i).shape = .ok ()) (made : List Counter)
    (error : KafkaError) : failures input (only i (.finished made (.error error))) = 1 := by
  rw [failures, tally, Finset.card_eq_one]
  refine ⟨i, Finset.ext fun j => ?_⟩
  rw [Finset.mem_filter, Finset.mem_singleton]
  constructor
  · intro h
    by_contra hji
    have hfailed : ((only i (.finished made (.error error))).call j).failed (input j) = true := h.2
    rw [call_only_of_ne _ hji] at hfailed
    exact absurd hfailed (by simp [Publishing.failed])
  · intro h
    rw [h]
    refine ⟨Finset.mem_univ i, ?_⟩
    show ((only i (.finished made (.error error))).call i).failed (input i) = true
    rw [call_only, Publishing.failed, hshape]
    rfl

/-- A call that is refused its client is not counted. -/
theorem refused_not_counted {i : ι} (hshape : (input i).shape = .ok ())
    (hfails : ClientFails connected (input i)) :
    ∃ s, Reachable connected input s ∧ s.Quiescent ∧
      s.counter .publishFailed ≠ UInt64.ofNat (failures input s) := by
  obtain ⟨error, hrun⟩ := reachable_refused hshape hfails
  refine ⟨_, hrun, quiescent_only i _ _, ?_⟩
  rw [failures_only hshape]
  show (0 : UInt64) ≠ UInt64.ofNat 1
  decide

/-- **`publish_failed` counts the failed calls** of every run, at every moment without a call in
progress, exactly if the pool is connected and the driver hands out the client of the partition to
every call with a legal record.  The exit of a call that is refused its client records only
`Closed`. -/
theorem failures_counted_iff (connected : Bool) (input : ι → PublishInput) :
    (∀ s : PublishPool ι, Reachable connected input s → s.Quiescent →
      s.counter .publishFailed = UInt64.ofNat (failures input s)) ↔
    ∀ i, (input i).shape = .ok () →
      connected = true ∧ (input i).partitionClient = .ready (.ok ()) := by
  constructor
  · intro h i hshape
    by_contra hclient
    have hfails : ClientFails connected (input i) := by
      rw [not_and_or, Bool.not_eq_true] at hclient
      exact hclient
    obtain ⟨s, hrun, hquiet, hne⟩ := refused_not_counted hshape hfails
    exact hne (h s hrun hquiet)
  · intro h s hrun hquiet
    have hinv := countInv_of_reachable hrun
    have hclient : ∀ i, (input i).shape = .ok () → ¬ ClientFails connected (input i) := by
      intro i hshape hfails
      obtain ⟨hconnected, hanswer⟩ := h i hshape
      rcases hfails with hnone | hanswered
      · rw [hconnected] at hnone
        exact absurd hnone (by simp)
      · exact hanswered hanswer
    rw [hinv.counters, increments_publishFailed hquiet hinv.calls hclient]

/-- A record for partition 0 of `orders`, and a broker that accepts it at offset 7. -/
def ordersInput : PublishInput where
  call := .publishToPartition "orders" 0 []
  now := 0
  partitionClient := .ready (.ok ())
  produce _ := .ready (.ok [.of 7])

/-- A publish on a pool that was never connected fails and is not counted. -/
theorem unconnected_not_counted : ¬ ∀ s : PublishPool Unit,
    Reachable false (fun _ => ordersInput) s → s.Quiescent →
      s.counter .publishFailed = UInt64.ofNat (failures (fun _ => ordersInput) s) := by
  intro h
  have hshape : ordersInput.shape = .ok () := by decide
  obtain ⟨s, hrun, hquiet, hne⟩ := @refused_not_counted false Unit _ (fun _ => ordersInput) _ ()
    hshape (Or.inl rfl)
  exact hne (h s hrun hquiet)

/-! ### Successes and cancellations -/

omit [Fintype ι] [DecidableEq ι] in
/-- What a returned call tells. -/
theorem returned_of_callInv (hcall : ∀ i, CallInv connected s.closed (input i) (s.call i)) {i : ι}
    {made : List Counter} {result : KafkaResult Delivery}
    (hfinished : s.call i = .finished made result) :
    made.count .published + made.count .publishFailed ≤ 1 ∧
    (∀ message, result = .error (.closed message) → s.closed = true) ∧
    ∀ delivery, result = .ok delivery → delivery.partition = (input i).call.record.partition ∧
      (input i).answer = .ready (.ok [delivery.offset]) := by
  have hends := hcall i
  rw [hfinished] at hends
  have hends : Ends connected s.closed (input i) made result := hends
  refine ⟨hends.count_le_one, fun message hresult => ?_, fun delivery hresult => ?_⟩
  · rw [hresult] at hends
    cases hends with
    | cancelled _ hclosed => exact hclosed
    | illegal _ hshape => exact absurd (shape_eq_error hshape) (by simp [KafkaError.isClosed])
    | noClient _ _ _ herror => exact absurd herror (by simp [KafkaError.isClosed])
    | refused _ _ herror => exact absurd herror (by simp [KafkaError.isClosed])
  · rw [hresult] at hends
    cases hends with
    | delivered offset hanswer => exact ⟨rfl, hanswer⟩

omit [DecidableEq ι] in
/-- A counter of the outcomes that a property tells counts the calls with the property. -/
theorem increments_eq_tally (hquiet : s.Quiescent)
    (hcall : ∀ i, CallInv connected s.closed (input i) (s.call i)) {c : Counter}
    {counted : Publishing → Bool} (hidle : counted .idle = false)
    (hends : ∀ i made result, Ends connected s.closed (input i) made result →
      made.count c = if counted (.finished made result) then 1 else 0) :
    s.increments c = tally (fun p => counted p = true) s.call := by
  refine total_eq_tally fun i => ?_
  rcases idle_or_ends hquiet hcall i with hi | ⟨made, result, hi, hended⟩
  · rw [hi, hidle]
    rfl
  · rw [hi]
    exact hends i made result hended

omit [DecidableEq ι] in
theorem increments_timeouts_cancelled (hquiet : s.Quiescent)
    (hcall : ∀ i, CallInv connected s.closed (input i) (s.call i)) :
    s.increments .publishTimeouts + s.increments .publishCancelled ≤
      s.increments .publishFailed := by
  refine total_add_le_total fun i => ?_
  rcases idle_or_ends hquiet hcall i with hi | ⟨made, result, hi, hended⟩
  · rw [hi]
    exact le_refl 0
  · rw [hi]
    exact hended.count_publishFailed_ge

omit [DecidableEq ι] in
theorem CountInv.toNat_counter (h : CountInv connected input s)
    (hsmall : ∀ c, s.increments c < 2 ^ 64) (c : Counter) :
    (s.counter c).toNat = s.increments c := by
  rw [h.counters, UInt64.toNat_ofNat']
  exact Nat.mod_eq_of_lt (hsmall c)

/-- **Successes and cancellations.**  A returned call has counted at most once in `published` and
`publish_failed` together, returns `Closed` only on a closed pool, and returns a delivery only for
its own partition and the one offset that the broker answered.  With no call in progress and
counters that have not wrapped, `published` and `publish_cancelled` are the numbers of calls that
returned `Ok` and `Closed`, and `publish_failed` includes the timeouts and the cancellations. -/
theorem success_and_cancellation (h : Reachable connected input s) :
    (∀ i made result, s.call i = .finished made result →
      made.count .published + made.count .publishFailed ≤ 1 ∧
      (∀ message, result = .error (.closed message) → s.closed = true) ∧
      ∀ delivery, result = .ok delivery → delivery.partition = (input i).call.record.partition ∧
        (input i).answer = .ready (.ok [delivery.offset])) ∧
    (s.Quiescent → (∀ c, s.increments c < 2 ^ 64) →
      (s.counter .published).toNat = tally (fun p => p.succeeded = true) s.call ∧
      (s.counter .publishCancelled).toNat = tally (fun p => p.wasCancelled = true) s.call ∧
      (s.counter .publishTimeouts).toNat + (s.counter .publishCancelled).toNat ≤
        (s.counter .publishFailed).toNat) := by
  have hinv := countInv_of_reachable h
  refine ⟨fun i made result hi => returned_of_callInv hinv.calls hi, fun hquiet hsmall => ?_⟩
  simp only [hinv.toNat_counter hsmall]
  refine ⟨?_, ?_, increments_timeouts_cancelled hquiet hinv.calls⟩
  · exact increments_eq_tally hquiet hinv.calls rfl fun _ _ _ hends => hends.count_published
  · exact increments_eq_tally hquiet hinv.calls rfl fun _ _ _ hends => hends.count_publishCancelled

/-- The pool after the record of `ordersInput` was delivered. -/
def deliveredPool : PublishPool Unit where
  closed := false
  shutdown := false
  counter := Function.update (fun _ => 0) .published 1
  call _ := .finished [.published] (.ok ⟨0, .of 7⟩)

theorem reachable_deliveredPool : Reachable true (fun _ => ordersInput) deliveredPool := by
  have hproducing : Reachable true (fun _ => ordersInput) (only () .producing) :=
    runs_producing rfl rfl (by decide) rfl
  have hrecording : Reachable true (fun _ => ordersInput)
      (only () (.recording [] [.published] (.ok ⟨0, .of 7⟩))) :=
    reachable_only hproducing (.produced () (.ready (.ok [.of 7])) (call_only () _) (Or.inr rfl))
  have hcounted := hrecording.tail (.increment () [] [] .published _ (call_only () _))
  have hreturned := hcounted.tail (.returns () [.published] (.ok ⟨0, .of 7⟩) rfl)
  refine Eq.mp (congrArg (Reachable true fun _ => ordersInput) ?_) hreturned
  exact congrArg (PublishPool.mk false false _) (funext fun _ => rfl)

/-- Two calls with the record of `ordersInput`: one is delivered, and `close` begins while the other
waits for the broker. -/
theorem exists_delivered_cancelled : ∃ s : PublishPool Bool,
    Reachable true (fun _ => ordersInput) s ∧
    s.call = fun i => if i
      then .finished recordPublishOk (.ok ⟨0, .of 7⟩)
      else .finished recordPublishCancelled (.error (.closed "produce 因连接池关闭而取消")) := by
  have hdelivered : ∃ s : PublishPool Bool, Reachable true (fun _ => ordersInput) s ∧
      s.closed = false ∧ s.call false = .idle ∧
      s.call true = .finished recordPublishOk (.ok ⟨0, .of 7⟩) := by
    have hproducing : Reachable true (fun _ => ordersInput) (only true .producing) :=
      runs_producing rfl rfl (by decide) rfl
    have hrecording := hproducing.tail
      (.produced true (.ready (.ok [.of 7])) (call_only true _) (Or.inr rfl))
    obtain ⟨s, hrun, hopen, hcall⟩ := runs_finished (call_move (only true .producing) true _)
    refine ⟨s, hrecording.trans hrun, hopen, ?_, ?_⟩
    · rw [hcall]
      rfl
    · rw [hcall]
      rfl
  obtain ⟨s, hrun, hopen, hidle, htrue⟩ := hdelivered
  have hproducing := hrun.trans (runs_producing hopen hidle (by decide) rfl)
  have hclosed := (hproducing.tail .storeClosed).tail (.broadcast rfl)
  have hcancelled := hclosed.tail (.produced false .cancelled (call_move s false _)
    (Or.inl ⟨rfl, rfl⟩))
  obtain ⟨s', hrun', hclosed', hcall⟩ := runs_finished (call_move _ false _)
  refine ⟨s', hcancelled.trans hrun', ?_⟩
  rw [hcall]
  funext i
  cases i with
  | true => exact htrue
  | false => exact Function.update_self _ _ _

/-- One delivery and one cancellation are counted once each. -/
theorem success_and_cancellation_delivered : ∃ s : PublishPool Bool,
    Reachable true (fun _ => ordersInput) s ∧ s.closed = true ∧
    (s.counter .published).toNat = 1 ∧ (s.counter .publishCancelled).toNat = 1 := by
  obtain ⟨s, hrun, hcall⟩ := exists_delivered_cancelled
  have hsound := success_and_cancellation hrun
  have hclosed : s.closed = true := (hsound.1 false _ _ (congrFun hcall false)).2.1 _ rfl
  have hquiet : s.Quiescent := by
    intro i
    rw [hcall]
    cases i <;> trivial
  have hsmall : ∀ c, s.increments c < 2 ^ 64 := by
    intro c
    rw [increments, hcall]
    cases c <;> decide
  have hcounted := hsound.2 hquiet hsmall
  rw [hcall] at hcounted
  exact ⟨s, hrun, hclosed, hcounted.1, hcounted.2.1⟩

end PublishPool

end Kafkax
