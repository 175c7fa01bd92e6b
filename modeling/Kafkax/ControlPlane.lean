import Kafkax.PublishCounters
import Kafkax.Topic

/-!
# The calls of a pool that publish nothing

`ensure_topic`, `delete_topic`, `health_check`, `health` and `ping` run next to the publishing calls
and the `close` calls of one pool, and increment counters of their own.  `BusyPool` is the pool with
all of them.

A pool step does not read the counters, so a publishing call of a busy pool is one of a pool on
which nothing else counts (`Step.of_plus`): `BusyInv` is the invariant of the publishing calls, with
the increments of the others taken away, next to one for each of the others (`Settles`).
`control_plane_counted` reads off it what every counter counts.
-/

namespace Kafkax

open Counting LineText Relation

/-! ### Health -/

/-- `KafkaHealth` -/
structure KafkaHealth where
  ready : Bool
  detail : String
deriving DecidableEq

/-- `health_check`; the arguments are the result of `start_operation`, whether the pool has a
client, and the answer to `list_topics`, which is `none` if `wait_for_shutdown` wins. -/
def healthCheck (operation : KafkaResult Unit) (connected : Bool)
    (answer : Option (DriverAnswer (List String))) : KafkaResult KafkaHealth :=
  match operation with
  | .error error => .error error
  | .ok () =>
    if connected then
      match answer with
      | none => .error (.closed "list_topics 因连接池关闭而取消")
      | some .timedOut => .error (.timeout "list_topics 超时")
      | some (.ready (.error error)) =>
        .error (mapKafkaError "kafkax list_topics" (.rskafka error))
      | some (.ready (.ok topics)) => .ok ⟨true, s!"topics={topics.length}"⟩
    else .error (.connection "连接未建立：请使用 KafkaPool::connect 或 connect_from_env")

/-- `health`, from the result of `health_check`. -/
def health : KafkaResult KafkaHealth → KafkaResult KafkaHealth
  | .ok health => .ok health
  | .error error =>
    if error.isClosed then .error error else .ok ⟨false, s!"{error.kind}: {error.display}"⟩

/-- `ping`, from the result of `health_check`. -/
def ping (result : KafkaResult KafkaHealth) : KafkaResult Unit := result.map fun _ => ()

/-! ### One call -/

/-- The calls that publish nothing. -/
inductive ControlCall where
  | ensureTopic (topic : String) (partitions : I32) (replication : I16)
  | deleteTopic (topic : String)
  | healthCheck
  | health
  | ping
deriving DecidableEq

/-- What they return. -/
inductive ControlValue where
  | done
  | health (health : KafkaHealth)
deriving DecidableEq

/-- A call, and what the driver and the broker answer to it. -/
structure ControlInput where
  call : ControlCall
  controllerClient : Except RskafkaError Unit
  answer : DriverAnswer Unit
  topics : DriverAnswer (List String)

/-- The check of the request before `start_operation`. -/
def ControlCall.shape : ControlCall → KafkaResult Unit
  | .ensureTopic topic partitions replication => validateTopicRequest topic partitions replication
  | .deleteTopic topic =>
    if (trim topic.toList).isEmpty then .error (.config "topic 不能为空") else .ok ()
  | _ => .ok ()

/-- The counter of a call that succeeds. -/
def ControlCall.counter? : ControlCall → Option Counter
  | .ensureTopic _ _ _ => some .topicsEnsured
  | .deleteTopic _ => some .topicsDeleted
  | _ => none

/-- The increments and the result of a call: `operation` is the result of `start_operation`, and
`cancelled` tells whether `wait_for_shutdown` wins. -/
def ControlInput.respond (display : RskafkaError → Text) (connected : Bool) (input : ControlInput)
    (operation : KafkaResult Unit) (cancelled : Bool) :
    List Counter × KafkaResult ControlValue :=
  let run : ControllerRun :=
    ⟨operation, connected, input.controllerClient, if cancelled then none else some input.answer⟩
  let checked := healthCheck operation connected (if cancelled then none else some input.topics)
  match input.call with
  | .ensureTopic topic partitions replication =>
    let (made, result) := ensureTopic display run topic partitions replication
    (made, result.map fun _ => .done)
  | .deleteTopic topic =>
    let (made, result) := deleteTopic display run topic
    (made, result.map fun _ => .done)
  | .healthCheck => ([], checked.map .health)
  | .health => ([], (health checked).map .health)
  | .ping => ([], (ping checked).map fun _ => .done)

/-- Where a call is. -/
inductive Controlling where
  | idle
  /-- The request is legal and the first check of `start_operation` has passed. -/
  | opened
  /-- With the guard, waiting for the driver or the shutdown. -/
  | guarded
  /-- The result is decided; increments were made and are to be made. -/
  | recording (made todo : List Counter) (result : KafkaResult ControlValue)
  | finished (made : List Counter) (result : KafkaResult ControlValue)

namespace Controlling

/-- The increments a call has made. -/
def made : Controlling → List Counter
  | .recording made _ _ | .finished made _ => made
  | _ => []

/-- The call is not in progress. -/
def Quiet : Controlling → Prop
  | .idle | .finished _ _ => True
  | _ => False

/-- The call has returned a value. -/
def succeeded : Controlling → Bool
  | .finished _ (.ok _) => true
  | _ => false

end Controlling

/-! ### The pool and all its calls -/

/-- A pool with the calls on its producers and its other calls. -/
structure BusyPool (ι κ : Type) where
  pool : PublishPool ι
  control : κ → Controlling

namespace BusyPool

variable {ι κ : Type} [DecidableEq ι] [DecidableEq κ]

/-- A new pool. -/
def new : BusyPool ι κ := ⟨.new, fun _ => .idle⟩

/-- A call that publishes nothing moves on. -/
def move (s : BusyPool ι κ) (k : κ) (next : Controlling) : BusyPool ι κ :=
  { s with control := Function.update s.control k next }

/-- One step of one call, or of a `close`. -/
inductive Step (display : RskafkaError → Text) (connected : Bool) (publish : ι → PublishInput)
    (control : κ → ControlInput) (s : BusyPool ι κ) : BusyPool ι κ → Prop where
  /-- A step of a `close` or of a publishing call. -/
  | pool (pool : PublishPool ι) (hstep : PublishPool.Step connected publish s.pool pool) :
      Step display connected publish control s { s with pool := pool }
  /-- The check of the request, then the first check of `start_operation`. -/
  | begin (k : κ) (hk : s.control k = .idle) :
      Step display connected publish control s (s.move k
        (if s.pool.closed then
          let (todo, result) :=
            (control k).respond display connected (.error (.closed "连接池已关闭")) false
          .recording [] todo result
        else
          match (control k).call.shape with
          | .ok () => .opened
          | .error error => .recording [] [] (.error error)))
  /-- The second check of `start_operation`. -/
  | recheck (k : κ) (hk : s.control k = .opened) :
      Step display connected publish control s (s.move k
        (if s.pool.closed then
          let (todo, result) :=
            (control k).respond display connected (.error (.closed "连接池正在关闭")) false
          .recording [] todo result
        else .guarded))
  /-- The driver answers, the deadline passes, or `wait_for_shutdown` wins. -/
  | answered (k : κ) (cancelled : Bool) (hk : s.control k = .guarded)
      (hcancelled : cancelled = true → s.pool.shutdown = true) :
      Step display connected publish control s (s.move k
        (let (todo, result) := (control k).respond display connected (.ok ()) cancelled
        .recording [] todo result))
  /-- `fetch_add(1)` -/
  | increment (k : κ) (made todo : List Counter) (c : Counter) (result : KafkaResult ControlValue)
      (hk : s.control k = .recording made (c :: todo) result) :
      Step display connected publish control s
        { pool := { s.pool with counter := Function.update s.pool.counter c (s.pool.counter c + 1) }
          control := Function.update s.control k (.recording (made ++ [c]) todo result) }
  | returns (k : κ) (made : List Counter) (result : KafkaResult ControlValue)
      (hk : s.control k = .recording made [] result) :
      Step display connected publish control s (s.move k (.finished made result))

/-- The states of the runs of a new pool. -/
def Reachable (display : RskafkaError → Text) (connected : Bool) (publish : ι → PublishInput)
    (control : κ → ControlInput) (s : BusyPool ι κ) : Prop :=
  ReflTransGen (Step display connected publish control) new s

end BusyPool

/-! ### What a call that ends has done -/

/-- The increments and the result of a call that ends: it counts exactly if it succeeds, it returns
`Closed` only on a closed pool, and `health` returns no other error. -/
structure Settles (closed : Bool) (call : ControlCall) (made : List Counter)
    (result : KafkaResult ControlValue) : Prop where
  made_eq : made = if result.isOk then call.counter?.toList else []
  closed : ∀ message, result = .error (.closed message) → closed = true
  health : call = .health → ∀ error, result = .error error → error.isClosed = true

variable {display : RskafkaError → Text} {connected closed : Bool} {input : ControlInput}

theorem Settles.mono {closed' : Bool} {call : ControlCall} {made : List Counter}
    {result : KafkaResult ControlValue} (h : Settles closed call made result)
    (hclosed : closed = true → closed' = true) : Settles closed' call made result :=
  { h with closed := fun message hresult => hclosed (h.closed message hresult) }

/-- A call that ends with an error other than `Closed`, or on a closed pool. -/
theorem settles_error {call : ControlCall} {error : KafkaError}
    (hclosed : error.isClosed = true → closed = true)
    (hhealth : call = .health → error.isClosed = true) :
    Settles closed call [] (.error error) where
  made_eq := rfl
  closed message h := hclosed (by rw [Except.error.inj h]; rfl)
  health hcall error' h := by
    rw [← Except.error.inj h]
    exact hhealth hcall

/-- A call that succeeds counts. -/
theorem settles_ok (call : ControlCall) (value : ControlValue) :
    Settles closed call call.counter?.toList (.ok value) where
  made_eq := rfl
  closed _ h := nomatch h
  health _ _ h := nomatch h

/-- An error other than `Closed`. -/
theorem settles_other {call : ControlCall} {error : KafkaError} (herror : error.isClosed = false)
    (hcall : call ≠ .health) : Settles closed call [] (.error error) :=
  settles_error (fun h => absurd (herror.symm.trans h) Bool.false_ne_true) fun h => absurd h hcall

/-- The broker's answer, with an error that may be taken for a success. -/
theorem settles_answer {call : ControlCall} (hcall : call ≠ .health) (swallowed : Bool)
    (context : String) (error : RskafkaError) :
    let answered : List Counter × KafkaResult Unit :=
      if swallowed then (call.counter?.toList, .ok ())
      else ([], .error (mapKafkaError context (.rskafka error)))
    Settles closed call answered.1 (answered.2.map fun _ => .done) := by
  cases swallowed with
  | true => exact settles_ok call .done
  | false => exact settles_other (mapKafkaError_isClosed context error) hcall

theorem validateTopicRequest_isClosed {topic : String} {partitions : I32} {replication : I16}
    {error : KafkaError} (h : validateTopicRequest topic partitions replication = .error error) :
    error.isClosed = false := by
  rw [validateTopicRequest] at h
  split_ifs at h
  all_goals
    rw [← Except.error.inj h]
    rfl

/-! ### The outcomes of a call -/

section

variable {operation : KafkaResult Unit} {cancelled : Bool}

/-- The result of `start_operation` is `Closed` only on a closed pool. -/
def Admits (closed : Bool) (operation : KafkaResult Unit) : Prop :=
  ∀ error, operation = .error error → closed = true ∧ error.isClosed = true

/-- The calls on the controller: `finish` tells what the answer of the broker leads to. -/
theorem settles_request {call : ControlCall} {run : ControllerRun} (hcall : call ≠ .health)
    (hoperation : Admits closed run.operation) (hanswer : run.answer = none → closed = true)
    (cancelledText timedOut : String)
    {finish : Except RskafkaError Unit → List Counter × KafkaResult Unit}
    (hfinish : ∀ answer,
      Settles closed call (finish answer).1 ((finish answer).2.map fun _ => .done)) :
    Settles closed call (run.request cancelledText timedOut finish).1
      ((run.request cancelledText timedOut finish).2.map fun _ => .done) := by
  rw [ControllerRun.request]
  cases hop : run.operation with
  | error error =>
    exact settles_error (fun _ => (hoperation error hop).1) fun h => absurd h hcall
  | ok u =>
    cases run.connected with
    | false => exact settles_other rfl hcall
    | true =>
      cases run.controllerClient with
      | error error => exact settles_other (mapKafkaError_isClosed _ error) hcall
      | ok u =>
        cases hrun : run.answer with
        | none => exact settles_error (fun _ => hanswer hrun) fun h => absurd h hcall
        | some answer =>
          cases answer with
          | timedOut => exact settles_other rfl hcall
          | ready result => exact hfinish result

/-- `health_check` returns `Closed` only on a closed pool. -/
theorem healthCheck_isClosed {answer : Option (DriverAnswer (List String))}
    (hoperation : Admits closed operation) (hanswer : answer = none → closed = true)
    {error : KafkaError} (h : healthCheck operation connected answer = .error error)
    (herror : error.isClosed = true) : closed = true := by
  unfold healthCheck at h
  cases hop : operation with
  | error e => exact (hoperation e hop).1
  | ok u =>
    rw [hop] at h
    cases connected with
    | false =>
      rw [← Except.error.inj h] at herror
      exact absurd herror Bool.false_ne_true
    | true =>
      cases answer with
      | none => exact hanswer rfl
      | some answer =>
        cases answer with
        | timedOut =>
          rw [← Except.error.inj h] at herror
          exact absurd herror Bool.false_ne_true
        | ready result =>
          cases result with
          | ok topics => exact nomatch h
          | error e =>
            rw [← Except.error.inj h, mapKafkaError_isClosed] at herror
            exact absurd herror Bool.false_ne_true

/-- The calls that return what `health_check` returns, without counting. -/
theorem settles_checked {α : Type} {call : ControlCall} {checked : KafkaResult α}
    (value : α → ControlValue) (hcounter : call.counter? = none) (hcall : call ≠ .health)
    (hclosed : ∀ error, checked = .error error → error.isClosed = true → closed = true) :
    Settles closed call [] (checked.map value) := by
  cases checked with
  | error error => exact settles_error (hclosed error rfl) fun h => absurd h hcall
  | ok checked =>
    have hok := @settles_ok closed call (value checked)
    rwa [hcounter] at hok

/-- `health` keeps only `Closed` of the errors. -/
theorem settles_health {checked : KafkaResult KafkaHealth}
    (hclosed : ∀ error, checked = .error error → error.isClosed = true → closed = true) :
    Settles closed .health [] ((health checked).map .health) := by
  cases checked with
  | ok checked => exact settles_ok .health (.health checked)
  | error error =>
    rw [health]
    cases herror : error.isClosed with
    | true => exact settles_error (hclosed error rfl) fun _ => herror
    | false => exact settles_ok .health (.health _)

/-- **The outcome of a call**, whatever `start_operation`, the driver and the broker answer. -/
theorem respond_settles (hoperation : Admits closed operation)
    (hcancelled : cancelled = true → closed = true) :
    Settles closed input.call (input.respond display connected operation cancelled).1
      (input.respond display connected operation cancelled).2 := by
  have hnone : ∀ {α : Type} {answer : α},
      (if cancelled then none else some answer) = none → closed = true := by
    intro α answer h
    cases cancelled with
    | true => exact hcancelled rfl
    | false => exact nomatch h
  have hchecked : ∀ error, healthCheck operation connected
      (if cancelled then none else some input.topics) = .error error →
      error.isClosed = true → closed = true := fun error =>
    healthCheck_isClosed hoperation hnone
  rw [ControlInput.respond]
  cases hcall : input.call with
  | healthCheck => exact settles_checked .health rfl (by simp) hchecked
  | health => exact settles_health hchecked
  | ping =>
    have hping : ∀ checked : KafkaResult KafkaHealth,
        (ping checked).map (fun _ => ControlValue.done) = checked.map fun _ => .done := by
      intro checked
      cases checked <;> rfl
    show Settles closed _ [] ((ping _).map fun _ => .done)
    rw [hping]
    exact settles_checked _ rfl (by simp) hchecked
  | ensureTopic topic partitions replication =>
    show Settles closed _ (ensureTopic display _ topic partitions replication).1
      ((ensureTopic display _ topic partitions replication).2.map fun _ => .done)
    rw [ensureTopic]
    cases hrequest : validateTopicRequest topic partitions replication with
    | error error => exact settles_other (validateTopicRequest_isClosed hrequest) (by simp)
    | ok u =>
      refine settles_request (by simp) hoperation hnone _ _ fun answer => ?_
      cases answer with
      | ok u => exact settles_ok (.ensureTopic topic partitions replication) .done
      | error error =>
        exact settles_answer (by simp) (isTopicAlreadyExistsError (display error)) _ error
  | deleteTopic topic =>
    show Settles closed _ (deleteTopic display _ topic).1
      ((deleteTopic display _ topic).2.map fun _ => .done)
    rw [deleteTopic]
    cases (trim topic.toList).isEmpty with
    | true => exact settles_other rfl (by simp)
    | false =>
      refine settles_request (by simp) hoperation hnone _ _ fun answer => ?_
      cases answer with
      | ok u => exact settles_ok (.deleteTopic topic) .done
      | error error => exact settles_answer (by simp) (isTopicMissingError (display error)) _ error

end

/-! ### A pool on which others count -/

/-- A counter after one increment. -/
theorem update_counter (counter : Counter → UInt64) (c d : Counter) :
    Function.update counter c (counter c + 1) d =
      counter d + UInt64.ofNat ([c].count d) := by
  by_cases hd : d = c
  · rw [hd, Function.update_self, List.count_singleton_self]
    rfl
  · rw [Function.update_of_ne hd, List.count_eq_zero_of_not_mem (by simpa using hd)]
    exact (UInt64.add_zero _).symm

namespace PublishPool

variable {ι : Type} {publish : ι → PublishInput}

/-- The pool with other increments next to its own. -/
def plus (s : PublishPool ι) (others : Counter → UInt64) : PublishPool ι :=
  { s with counter := fun c => s.counter c + others c }

variable [DecidableEq ι] {s pool : PublishPool ι} {others : Counter → UInt64}

/-- **The frame of a pool step**: it does not read the counters, and adds to them. -/
theorem Step.of_plus (h : Step connected publish (s.plus others) pool) :
    ∃ s', Step connected publish s s' ∧ pool = s'.plus others := by
  cases h with
  | storeClosed => exact ⟨_, .storeClosed, rfl⟩
  | broadcast hclosed => exact ⟨_, .broadcast hclosed, rfl⟩
  | begin i hi => exact ⟨_, .begin i hi, rfl⟩
  | clientCheck i hi => exact ⟨_, .clientCheck i hi, rfl⟩
  | clientRecheck i hi => exact ⟨_, .clientRecheck i hi, rfl⟩
  | noClient i hi hconnected => exact ⟨_, .noClient i hi hconnected, rfl⟩
  | clientShutdown i hi hconnected hshutdown =>
    exact ⟨_, .clientShutdown i hi hconnected hshutdown, rfl⟩
  | clientAnswer i hi hconnected => exact ⟨_, .clientAnswer i hi hconnected, rfl⟩
  | produceCheck i hi => exact ⟨_, .produceCheck i hi, rfl⟩
  | produceRecheck i hi => exact ⟨_, .produceRecheck i hi, rfl⟩
  | produced i outcome hi houtcome => exact ⟨_, .produced i outcome hi houtcome, rfl⟩
  | increment i made todo c result hi =>
    refine ⟨_, .increment i made todo c result hi, congrArg (PublishPool.mk _ _ · _) ?_⟩
    funext d
    show Function.update (s.plus others).counter c ((s.plus others).counter c + 1) d =
      Function.update s.counter c (s.counter c + 1) d + others d
    rw [update_counter, update_counter]
    show s.counter d + others d + _ = _
    ac_rfl
  | returns i made result hi => exact ⟨_, .returns i made result hi, rfl⟩

/-- `close` is for good. -/
theorem Step.stays_closed {s' : PublishPool ι} (h : Step connected publish s s')
    (hclosed : s.closed = true) : s'.closed = true := by
  cases h with
  | storeClosed => rfl
  | _ => exact hclosed

/-- A call on a producer does not count topics. -/
theorem count_topic_of_callInv {closed : Bool} {input : PublishInput} {p : Publishing}
    (h : CallInv connected closed input p) {c : Counter}
    (hc : c = .topicsEnsured ∨ c = .topicsDeleted) : p.made.count c = 0 := by
  have hends : ∀ {made : List Counter} {result : KafkaResult Delivery},
      Ends connected closed input made result → made.count c = 0 := by
    intro made result hended
    cases hended <;> rcases hc with rfl | rfl <;> rfl
  cases p with
  | recording made todo result =>
    have hcount := hends h
    rw [List.count_append] at hcount
    exact Nat.eq_zero_of_add_eq_zero_right hcount
  | finished made result => exact hends h
  | _ => exact List.count_nil

end PublishPool

/-! ### The invariant -/

namespace BusyPool

variable {ι κ : Type} {publish : ι → PublishInput} {control : κ → ControlInput}

/-- What holds of a call, wherever it is. -/
def ControlInv (closed : Bool) (call : ControlCall) : Controlling → Prop
  | .recording made todo result => Settles closed call (made ++ todo) result
  | .finished made result => Settles closed call made result
  | _ => True

theorem ControlInv.mono {closed' : Bool} {call : ControlCall} {p : Controlling}
    (h : ControlInv closed call p) (hclosed : closed = true → closed' = true) :
    ControlInv closed' call p := by
  cases p with
  | recording made todo result => exact Settles.mono h hclosed
  | finished made result => exact Settles.mono h hclosed
  | _ => trivial

variable [Fintype ι] [Fintype κ]

/-- The number of times the calls that publish nothing have incremented a counter. -/
def increments (c : Counter) (s : BusyPool ι κ) : ℕ :=
  total (fun p : Controlling => p.made.count c) s.control

/-- The invariant of all runs: apart from the increments of the other calls, the pool is one on
which only the producers count. -/
structure BusyInv (connected : Bool) (publish : ι → PublishInput) (control : κ → ControlInput)
    (s : BusyPool ι κ) : Prop where
  publishes : ∃ own, PublishPool.CountInv connected publish own ∧
    s.pool = own.plus fun c => UInt64.ofNat (s.increments c)
  controls : ∀ k, ControlInv s.pool.closed (control k).call (s.control k)

variable {s s' : BusyPool ι κ}

theorem busyInv_new : BusyInv connected publish control (new : BusyPool ι κ) where
  publishes := by
    refine ⟨.new, PublishPool.countInv_new, ?_⟩
    have hzero : ∀ c, (new : BusyPool ι κ).increments c = 0 :=
      fun c => Finset.sum_eq_zero fun _ _ => rfl
    simp only [hzero]
    rfl
  controls _ := trivial

variable [DecidableEq ι] [DecidableEq κ]

omit [DecidableEq ι] in
/-- A step of a call that increments nothing. -/
theorem BusyInv.move (h : BusyInv connected publish control s) {k : κ} {next : Controlling}
    (hmade : next.made = (s.control k).made)
    (hnext : ControlInv s.pool.closed (control k).call next) :
    BusyInv connected publish control (s.move k next) where
  publishes := by
    obtain ⟨own, hown, hpool⟩ := h.publishes
    refine ⟨own, hown, hpool.trans (congrArg own.plus (funext fun c => ?_))⟩
    have htotal := total_update (fun p : Controlling => p.made.count c) s.control k next
    simp only [hmade] at htotal
    have hsame : (s.move k next).increments c = s.increments c := Nat.add_right_cancel htotal
    rw [hsame]
  controls := (Function.forall_update_iff s.control fun j =>
    ControlInv s.pool.closed (control j).call).mpr ⟨hnext, fun j _ => h.controls j⟩

omit [DecidableEq ι] in
/-- One increment of one call. -/
theorem BusyInv.increment (h : BusyInv connected publish control s) {k : κ}
    {made todo : List Counter} {c : Counter} {result : KafkaResult ControlValue}
    (hk : s.control k = .recording made (c :: todo) result) :
    BusyInv connected publish control
      { pool := { s.pool with counter := Function.update s.pool.counter c (s.pool.counter c + 1) }
        control := Function.update s.control k (.recording (made ++ [c]) todo result) } where
  publishes := by
    obtain ⟨own, hown, hpool⟩ := h.publishes
    refine ⟨own, hown, ?_⟩
    have hincrements : ∀ d,
        total (fun p : Controlling => p.made.count d)
          (Function.update s.control k (.recording (made ++ [c]) todo result)) =
        s.increments d + [c].count d := fun d =>
      total_update_add (by rw [hk]; exact List.count_append)
    show { s.pool with counter := Function.update s.pool.counter c (s.pool.counter c + 1) } = _
    rw [hpool]
    refine congrArg (PublishPool.mk _ _ · _) (funext fun d => ?_)
    rw [update_counter]
    show own.counter d + UInt64.ofNat (s.increments d) + _ =
      own.counter d + UInt64.ofNat (total (fun p : Controlling => p.made.count d)
        (Function.update s.control k (.recording (made ++ [c]) todo result)))
    rw [hincrements, UInt64.ofNat_add, UInt64.add_assoc]
  controls := by
    have hcall := h.controls k
    rw [hk] at hcall
    refine (Function.forall_update_iff s.control fun j =>
      ControlInv s.pool.closed (control j).call).mpr ⟨?_, fun j _ => h.controls j⟩
    show Settles s.pool.closed (control k).call ((made ++ [c]) ++ todo) result
    rw [List.append_assoc]
    exact hcall

omit [DecidableEq κ] in
/-- A step of a `close` or of a publishing call. -/
theorem BusyInv.pool (h : BusyInv connected publish control s) {pool : PublishPool ι}
    (hstep : PublishPool.Step connected publish s.pool pool) :
    BusyInv connected publish control { s with pool := pool } where
  publishes := by
    obtain ⟨own, hown, hpool⟩ := h.publishes
    rw [hpool] at hstep
    obtain ⟨own', hown', rfl⟩ := hstep.of_plus
    exact ⟨own', hown.step hown', rfl⟩
  controls k := (h.controls k).mono hstep.stays_closed

omit [DecidableEq ι] in
/-- A call whose result is decided. -/
theorem BusyInv.respond (h : BusyInv connected publish control s) {k : κ}
    {operation : KafkaResult Unit} {cancelled : Bool} (hk : (s.control k).made = [])
    (hoperation : Admits s.pool.closed operation)
    (hcancelled : cancelled = true → s.pool.closed = true) :
    BusyInv connected publish control (s.move k
      (let (todo, result) := (control k).respond display connected operation cancelled
      .recording [] todo result)) :=
  h.move hk.symm (respond_settles hoperation hcancelled)

/-- `Closed` on a closed pool. -/
theorem admits_closed {closed : Bool} (hclosed : closed = true) (message : String) :
    Admits closed (.error (.closed message)) := fun error h => by
  rw [← Except.error.inj h]
  exact ⟨hclosed, rfl⟩

theorem shape_isClosed {call : ControlCall} {error : KafkaError} (h : call.shape = .error error) :
    error.isClosed = false := by
  cases call with
  | ensureTopic topic partitions replication => exact validateTopicRequest_isClosed h
  | deleteTopic topic =>
    rw [ControlCall.shape] at h
    split_ifs at h
    rw [← Except.error.inj h]
    rfl
  | _ => exact nomatch h

theorem shape_health {error : KafkaError} : ControlCall.health.shape ≠ .error error :=
  fun h => nomatch h

/-- **A step** keeps the invariant. -/
theorem BusyInv.step (h : BusyInv connected publish control s)
    (hstep : Step display connected publish control s s') :
    BusyInv connected publish control s' := by
  have hshutdown : s.pool.shutdown = true → s.pool.closed = true := by
    obtain ⟨own, hown, hpool⟩ := h.publishes
    rw [hpool]
    exact hown.closed_of_shutdown
  cases hstep with
  | pool pool hstep => exact h.pool hstep
  | begin k hk =>
    cases hclosed : s.pool.closed with
    | true => exact h.respond (by rw [hk]; rfl) (admits_closed hclosed _) fun h => nomatch h
    | false =>
      cases hshape : (control k).call.shape with
      | ok u => exact h.move (by rw [hk]; rfl) trivial
      | error error =>
        refine h.move (by rw [hk]; rfl) (settles_other (shape_isClosed hshape) fun hcall => ?_)
        rw [hcall] at hshape
        exact shape_health hshape
  | recheck k hk =>
    cases hclosed : s.pool.closed with
    | true => exact h.respond (by rw [hk]; rfl) (admits_closed hclosed _) fun h => nomatch h
    | false => exact h.move (by rw [hk]; rfl) trivial
  | answered k cancelled hk hcancelled =>
    exact h.respond (by rw [hk]; rfl) (fun _ h => nomatch h) fun hc => hshutdown (hcancelled hc)
  | increment k made todo c result hk => exact h.increment hk
  | returns k made result hk =>
    refine h.move (by rw [hk]; rfl) ?_
    have hsettles := h.controls k
    rw [hk] at hsettles
    have hsettles : Settles s.pool.closed (control k).call (made ++ []) result := hsettles
    rwa [List.append_nil] at hsettles

/-- **A run** keeps the invariant. -/
theorem busyInv_of_reachable (h : Reachable display connected publish control s) :
    BusyInv connected publish control s := by
  induction h with
  | refl => exact busyInv_new
  | tail _ hstep ih => exact ih.step hstep

/-! ### What the counters count -/

/-- The number of calls that have succeeded and are counted by a counter. -/
def successes (control : κ → ControlInput) (c : Counter) (s : BusyPool ι κ) : ℕ :=
  tally (fun x : ControlInput × Controlling => x.1.call.counter? = some c ∧ x.2.succeeded = true)
    fun k => (control k, s.control k)

/-- A call that ends counts exactly if it succeeds. -/
theorem count_settled {closed : Bool} {call : ControlCall} {made : List Counter}
    {result : KafkaResult ControlValue} (h : Settles closed call made result) (c : Counter) :
    made.count c =
      if call.counter? = some c ∧ (Controlling.finished made result).succeeded = true then 1
      else 0 := by
  cases result with
  | error error =>
    have hmade : made = [] := h.made_eq
    have hfailed : ¬ (call.counter? = some c ∧
        (Controlling.finished made (.error error)).succeeded = true) := fun hc => nomatch hc.2
    rw [if_neg hfailed, hmade, List.count_nil]
  | ok value =>
    rw [h.made_eq]
    show call.counter?.toList.count c = if call.counter? = some c ∧ true = true then 1 else 0
    cases hcounter : call.counter? with
    | none =>
      rw [if_neg fun hc => nomatch hc.1]
      rfl
    | some d =>
      by_cases hd : d = c
      · rw [hd, if_pos ⟨rfl, rfl⟩]
        exact List.count_singleton_self
      · rw [if_neg fun hc => hd (Option.some.inj hc.1)]
        exact List.count_eq_zero_of_not_mem fun hmem => hd (List.mem_singleton.mp hmem).symm

theorem count_controlInv {closed : Bool} {call : ControlCall} {p : Controlling}
    (h : ControlInv closed call p) {c : Counter} (hc : call.counter? ≠ some c) :
    p.made.count c = 0 := by
  have hsettled : ∀ {made : List Counter} {result : KafkaResult ControlValue},
      Settles closed call made result → made.count c = 0 := fun hsettles => by
    rw [count_settled hsettles, if_neg fun h => hc h.1]
  cases p with
  | recording made todo result =>
    have hcount := hsettled h
    rw [List.count_append] at hcount
    exact Nat.eq_zero_of_add_eq_zero_right hcount
  | finished made result => exact hsettled h
  | _ => exact List.count_nil

theorem counter?_publish (call : ControlCall) {c : Counter}
    (hc : c ≠ .topicsEnsured ∧ c ≠ .topicsDeleted) : call.counter? ≠ some c := by
  cases call with
  | ensureTopic => exact fun h => hc.1 (Option.some.inj h).symm
  | deleteTopic => exact fun h => hc.2 (Option.some.inj h).symm
  | _ => exact fun h => nomatch h

omit [DecidableEq ι] [DecidableEq κ] in
/-- With no call in progress a counter of topics counts the calls that succeeded. -/
theorem increments_topics (h : BusyInv connected publish control s)
    (hquiet : ∀ k, (s.control k).Quiet) (c : Counter) :
    s.increments c = s.successes control c := by
  show total (fun x : ControlInput × Controlling => x.2.made.count c)
    (fun k => (control k, s.control k)) = _
  refine total_eq_tally fun k => ?_
  have hk := hquiet k
  have hinv := h.controls k
  show (s.control k).made.count c =
    if (control k).call.counter? = some c ∧ (s.control k).succeeded = true then 1 else 0
  cases hp : s.control k with
  | idle =>
    rw [if_neg fun hc => Bool.false_ne_true hc.2]
    rfl
  | finished made result =>
    rw [hp] at hinv
    exact count_settled hinv c
  | _ =>
    rw [hp] at hk
    exact absurd hk id

omit [DecidableEq ι] [DecidableEq κ] in
/-- The calls that publish nothing leave the counters of the producers. -/
theorem increments_publish (h : BusyInv connected publish control s) {c : Counter}
    (hc : c ≠ .topicsEnsured ∧ c ≠ .topicsDeleted) : s.increments c = 0 :=
  Finset.sum_eq_zero fun k _ => count_controlInv (h.controls k) (counter?_publish _ hc)

omit [DecidableEq ι] [DecidableEq κ] in
/-- The producers leave the counters of the topics. -/
theorem pool_increments_topics (h : BusyInv connected publish control s) {c : Counter}
    (hc : c = .topicsEnsured ∨ c = .topicsDeleted) : s.pool.increments c = 0 := by
  obtain ⟨own, hown, hpool⟩ := h.publishes
  rw [hpool]
  exact Finset.sum_eq_zero fun i _ => PublishPool.count_topic_of_callInv (hown.calls i) hc

omit [DecidableEq ι] [DecidableEq κ] in
theorem counter_of_busyInv (h : BusyInv connected publish control s) (c : Counter) :
    s.pool.counter c = UInt64.ofNat (s.pool.increments c + s.increments c) := by
  obtain ⟨own, hown, hpool⟩ := h.publishes
  have hincrements : s.pool.increments c = own.increments c := by
    rw [hpool]
    rfl
  rw [hincrements, UInt64.ofNat_add, ← hown.counters c, hpool]
  rfl

/-- **What the counters count, next to all calls.**  A call that publishes nothing returns `Closed`
only on a closed pool, and `health` returns no other error.  As long as no counter has wrapped:
when no such call is in progress, `topics_ensured` and `topics_deleted` are the numbers of calls
that succeeded, whatever the producers are doing; and when no producer is publishing, the counters
of the producers are those of their own calls, whatever the other calls are doing. -/
theorem control_plane_counted (h : Reachable display connected publish control s) :
    (∀ k made result, s.control k = .finished made result →
      (∀ message, result = .error (.closed message) → s.pool.closed = true) ∧
      ((control k).call = .health → ∀ error, result = .error error → error.isClosed = true)) ∧
    ((∀ c, s.pool.increments c + s.increments c < 2 ^ 64) →
      ((∀ k, (s.control k).Quiet) →
        (s.pool.counter .topicsEnsured).toNat = s.successes control .topicsEnsured ∧
        (s.pool.counter .topicsDeleted).toNat = s.successes control .topicsDeleted) ∧
      (s.pool.Quiescent →
        (s.pool.counter .published).toNat = tally (fun p => p.succeeded = true) s.pool.call ∧
        (s.pool.counter .publishCancelled).toNat =
          tally (fun p => p.wasCancelled = true) s.pool.call ∧
        (s.pool.counter .publishTimeouts).toNat + (s.pool.counter .publishCancelled).toNat ≤
          (s.pool.counter .publishFailed).toNat)) := by
  have hinv := busyInv_of_reachable h
  refine ⟨fun k made result hk => ?_, fun hsmall => ?_⟩
  · have hsettles := hinv.controls k
    rw [hk] at hsettles
    exact ⟨Settles.closed hsettles, Settles.health hsettles⟩
  have hcounter : ∀ c, (s.pool.counter c).toNat = s.pool.increments c + s.increments c := by
    intro c
    rw [counter_of_busyInv hinv, UInt64.toNat_ofNat']
    exact Nat.mod_eq_of_lt (hsmall c)
  refine ⟨fun hquiet => ?_, fun hquiet => ?_⟩
  · have htopics : ∀ c, c = .topicsEnsured ∨ c = .topicsDeleted →
        (s.pool.counter c).toNat = s.successes control c := by
      intro c hc
      rw [hcounter, pool_increments_topics hinv hc, Nat.zero_add, increments_topics hinv hquiet]
    exact ⟨htopics _ (Or.inl rfl), htopics _ (Or.inr rfl)⟩
  · have hpublish : ∀ c, c ≠ .topicsEnsured ∧ c ≠ .topicsDeleted →
        (s.pool.counter c).toNat = s.pool.increments c := by
      intro c hc
      rw [hcounter, increments_publish hinv hc, Nat.add_zero]
    have hcalls : ∀ i, CallInv connected s.pool.closed (publish i) (s.pool.call i) := by
      obtain ⟨own, hown, hpool⟩ := hinv.publishes
      rw [hpool]
      exact hown.calls
    rw [hpublish _ (by decide), hpublish _ (by decide), hpublish _ (by decide),
      hpublish _ (by decide)]
    exact ⟨PublishPool.increments_eq_tally hquiet hcalls rfl fun _ _ _ hends =>
        hends.count_published,
      PublishPool.increments_eq_tally hquiet hcalls rfl fun _ _ _ hends =>
        hends.count_publishCancelled,
      PublishPool.increments_timeouts_cancelled hquiet hcalls⟩

omit [Fintype ι] [Fintype κ] in
/-- A run of the producers is one of the pool. -/
theorem reachable_pool {pool : PublishPool ι} (h : PublishPool.Reachable connected publish pool) :
    Reachable display connected publish control ⟨pool, fun _ => .idle⟩ := by
  induction h with
  | refl => exact ReflTransGen.refl
  | tail _ hstep ih => exact ih.tail (.pool _ hstep)

omit [Fintype ι] [DecidableEq ι] in
/-- A move of the only call. -/
theorem move_single (pool : PublishPool ι) (p q : Controlling) :
    (BusyPool.mk pool fun _ : Unit => p).move () q = ⟨pool, fun _ => q⟩ :=
  congrArg (BusyPool.mk _) (funext fun _ => rfl)

/-- The creation of `orders`, which the broker confirms. -/
def ordersRequest : ControlInput where
  call := .ensureTopic "orders" (.of 1) ⟨1, by decide, by decide⟩
  controllerClient := .ok ()
  answer := .ready (.ok ())
  topics := .timedOut

/-- The pool after a record was delivered and the topic `orders` created. -/
def ensuredPool : BusyPool Unit Unit where
  pool := { PublishPool.deliveredPool with
    counter := Function.update PublishPool.deliveredPool.counter .topicsEnsured 1 }
  control _ := .finished [.topicsEnsured] (.ok .done)

theorem reachable_ensuredPool :
    Reachable quotedText.display true (fun _ => PublishPool.ordersInput) (fun _ => ordersRequest)
      ensuredPool := by
  have hdelivered : Reachable quotedText.display true (fun _ => PublishPool.ordersInput)
      (fun _ => ordersRequest) ⟨PublishPool.deliveredPool, fun _ : Unit => .idle⟩ :=
    reachable_pool PublishPool.reachable_deliveredPool
  have hopened := hdelivered.tail (.begin () rfl)
  rw [move_single] at hopened
  have hguarded := hopened.tail (.recheck () rfl)
  rw [move_single] at hguarded
  have hanswered := hguarded.tail (.answered () false rfl fun h => nomatch h)
  rw [move_single] at hanswered
  have hcounted := hanswered.tail (.increment () [] [] .topicsEnsured (.ok .done) rfl)
  have hreturned := hcounted.tail (.returns () [.topicsEnsured] (.ok .done) rfl)
  exact Eq.mp (congrArg (Reachable _ _ _ _) (congrArg (BusyPool.mk _) (funext fun _ => rfl)))
    hreturned

/-- One delivery and one creation are counted once each. -/
theorem control_plane_counted_orders :
    (ensuredPool.pool.counter .topicsEnsured).toNat =
      ensuredPool.successes (fun _ => ordersRequest) .topicsEnsured ∧
    (ensuredPool.pool.counter .published).toNat =
      tally (fun p => p.succeeded = true) ensuredPool.pool.call := by
  have hsmall : ∀ c, ensuredPool.pool.increments c + ensuredPool.increments c < 2 ^ 64 := by
    intro c
    have hincrements : ensuredPool.pool.increments c + ensuredPool.increments c =
        [Counter.published].count c + [Counter.topicsEnsured].count c := rfl
    rw [hincrements, ← List.count_append]
    exact lt_of_le_of_lt List.count_le_length (by decide)
  have hcounted := (control_plane_counted reachable_ensuredPool).2 hsmall
  exact ⟨(hcounted.1 fun _ => trivial).1, (hcounted.2 fun _ => trivial).1⟩

end BusyPool

end Kafkax
