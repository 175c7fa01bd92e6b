import Mathlib.Data.UInt
import Mathlib.Logic.Relation
import Kafkax.ErrorMap
import Kafkax.Library.Tally
import Kafkax.Message

/-!
# Publishing

Any number of `publish`, `publish_to_partition` and `publish_with_key` calls run on clones of one
pool, next to any number of `close` calls.  A call checks that the pool is open and that its record
has a legal shape, gets the client of the partition, registers as an operation, and waits for the
produce call, its deadline or the shutdown.  Each exit records what happened by separate atomic
increments of the counters of the pool.

`Step` is one load, one store or one increment of one call; runs of steps are all the
interleavings.  A call keeps the list of the increments it has made, and of those it has still to
make.  `CountInv` is the invariant of all runs: the counters are the sums of these lists, and a
call that ends has made the increments of its outcome (`Ends`).
-/

namespace Kafkax

open LineText BoundedIntegers Counting Relation

/-! ### Counters -/

/-- The counters of a pool. -/
inductive Counter where
  | published
  | publishFailed
  | publishTimeouts
  | publishCancelled
  | topicsEnsured
  | topicsDeleted
deriving DecidableEq

/-- `record_publish_ok` -/
def recordPublishOk : List Counter := [.published]

/-- `record_publish_err` -/
def recordPublishErr : List Counter := [.publishFailed]

/-- `record_publish_timeout` -/
def recordPublishTimeout : List Counter := [.publishTimeouts, .publishFailed]

/-- `record_publish_cancelled` -/
def recordPublishCancelled : List Counter := [.publishCancelled, .publishFailed]

/-- `matches!(error, KafkaError::Closed(_))` -/
def KafkaError.isClosed : KafkaError → Bool
  | .closed _ => true
  | _ => false

/-- `record_if_closed` -/
def recordIfClosed (error : KafkaError) : List Counter :=
  if error.isClosed then recordPublishCancelled else []

/-! ### One call -/

/-- The shape checks of `publish`, which `partition_client` repeats. -/
def checkShape (topic : String) (partition : I32) : KafkaResult Unit :=
  if (trim topic.toList).isEmpty then .error (.config "topic 不能为空")
  else if partition.val < 0 then .error (.config "partition 不能为负")
  else .ok ()

/-- What the driver answers to a call within its deadline. -/
inductive DriverAnswer (α : Type) where
  | ready (result : Except RskafkaError α)
  | timedOut

/-- `LimitedProduceAwait` -/
inductive LimitedProduceAwait (α ε : Type) where
  | cancelled
  | timedOut
  | ready (result : Except ε α)

/-- `limited_produce_await` when the shutdown does not win. -/
def DriverAnswer.await {α : Type} : DriverAnswer α → LimitedProduceAwait α RskafkaError
  | .ready result => .ready result
  | .timedOut => .timedOut

/-- `apply_limited_produce_outcome`: the increments and the result. -/
def applyLimitedProduceOutcome {ε : Type} (partition : I32)
    (outcome : LimitedProduceAwait (List I64) ε) (mapErr : ε → KafkaError) :
    List Counter × KafkaResult Delivery :=
  match outcome with
  | .cancelled => (recordPublishCancelled, .error (.closed "produce 因连接池关闭而取消"))
  | .timedOut => (recordPublishTimeout, .error (.timeout "produce 等待 broker 确认超时"))
  | .ready (.ok [offset]) => (recordPublishOk, .ok ⟨partition, offset⟩)
  | .ready (.ok other) => (recordPublishErr, .error (.backend
      s!"producer 已收到 broker 确认，但 offset 数量异常（期望 1，实际 {other.length}，分区 {partition.val}）"))
  | .ready (.error error) => (recordPublishErr, .error (mapErr error))

/-- The calls of a producer. -/
inductive PublishCall where
  | publish (record : PublishRecord)
  | publishToPartition (topic : String) (partition : I32) (payload : List UInt8)
  | publishWithKey (topic : String) (partition : I32) (key payload : List UInt8)

/-- The record that a call publishes. -/
def PublishCall.record : PublishCall → PublishRecord
  | .publish record => record
  | .publishToPartition topic partition payload => .ofPayload topic partition payload
  | .publishWithKey topic partition key payload =>
    (PublishRecord.ofPayload topic partition payload).withKey key

/-- A call with its clock, and what the driver and the broker answer to it. -/
structure PublishInput where
  call : PublishCall
  now : ℤ
  partitionClient : DriverAnswer Unit
  produce : Record → DriverAnswer (List I64)

namespace PublishInput

/-- The shape checks on the record of the call. -/
def shape (self : PublishInput) : KafkaResult Unit :=
  checkShape self.call.record.topic self.call.record.partition

/-- The answer to the produce call of the record. -/
def answer (self : PublishInput) : DriverAnswer (List I64) :=
  self.produce (self.call.record.wire self.now)

end PublishInput

/-- Where a call is. -/
inductive Publishing where
  | idle
  /-- Past `ensure_open` and the shape checks. -/
  | opened
  /-- In `partition_client`, past the first check of its `start_operation`. -/
  | clientOpened
  /-- In `partition_client`, with its guard. -/
  | clientGuarded
  /-- `partition_client` has returned the client. -/
  | connected
  /-- Past the first check of the second `start_operation`. -/
  | produceOpened
  /-- In `limited_produce_await`, with the guard. -/
  | producing
  /-- The result is decided; increments were made and are to be made. -/
  | recording (made todo : List Counter) (result : KafkaResult Delivery)
  | finished (made : List Counter) (result : KafkaResult Delivery)

namespace Publishing

/-- An exit with an error through `record_if_closed`. -/
def fail (error : KafkaError) : Publishing := .recording [] (recordIfClosed error) (.error error)

/-- The exit with the outcome of the produce call. -/
def apply (partition : I32) (outcome : LimitedProduceAwait (List I64) RskafkaError) : Publishing :=
  let (todo, result) := applyLimitedProduceOutcome partition outcome fun error =>
    mapKafkaError "kafkax produce" (.rskafka error)
  .recording [] todo result

/-- The increments a call has made. -/
def made : Publishing → List Counter
  | .recording made _ _ | .finished made _ => made
  | _ => []

/-- The result of a call that has returned. -/
def result? : Publishing → Option (KafkaResult Delivery)
  | .finished _ result => some result
  | _ => none

/-- The call is not in progress. -/
def Quiet : Publishing → Prop
  | .idle | .finished _ _ => True
  | _ => False

end Publishing

/-! ### The pool and its calls -/

/-- The flags and the counters of a pool, and the calls on its producers. -/
structure PublishPool (ι : Type) where
  closed : Bool
  shutdown : Bool
  counter : Counter → UInt64
  call : ι → Publishing

namespace PublishPool

variable {ι : Type}

/-- A new pool. -/
def new : PublishPool ι where
  closed := false
  shutdown := false
  counter _ := 0
  call _ := .idle

section

variable [DecidableEq ι]

/-- A call moves on. -/
def move (s : PublishPool ι) (i : ι) (next : Publishing) : PublishPool ι :=
  { s with call := Function.update s.call i next }

/-- `start_operation` up to its first check. -/
def ensureOpen (s : PublishPool ι) (next : Publishing) : Publishing :=
  if s.closed then .fail (.closed "连接池已关闭") else next

/-- The second check of `start_operation`. -/
def recheck (s : PublishPool ι) (next : Publishing) : Publishing :=
  if s.closed then .fail (.closed "连接池正在关闭") else next

/-- One step of one call, or of a `close`; `connected` tells whether the pool has a client. -/
inductive Step (connected : Bool) (input : ι → PublishInput) (s : PublishPool ι) :
    PublishPool ι → Prop where
  /-- `closed.store(true)` in `close` -/
  | storeClosed : Step connected input s { s with closed := true }
  /-- `shutdown.send_replace(true)` in `close` -/
  | broadcast (hclosed : s.closed = true) : Step connected input s { s with shutdown := true }
  /-- `ensure_open`, then the shape checks. -/
  | begin (i : ι) (hi : s.call i = .idle) :
      Step connected input s (s.move i (s.ensureOpen
        (match (input i).shape with
          | .ok () => .opened
          | .error error => .finished [] (.error error))))
  /-- The shape checks of `partition_client`, then the first check of `start_operation`. -/
  | clientCheck (i : ι) (hi : s.call i = .opened) :
      Step connected input s (s.move i
        (match (input i).shape with
          | .ok () => s.ensureOpen .clientOpened
          | .error error => .fail error))
  | clientRecheck (i : ι) (hi : s.call i = .clientOpened) :
      Step connected input s (s.move i (s.recheck .clientGuarded))
  /-- `self.client()?` of a pool that was never connected -/
  | noClient (i : ι) (hi : s.call i = .clientGuarded) (hconnected : connected = false) :
      Step connected input s (s.move i (.fail
        (.connection "连接未建立：请使用 KafkaPool::connect 或 connect_from_env")))
  /-- `wait_for_shutdown` wins in `partition_client`. -/
  | clientShutdown (i : ι) (hi : s.call i = .clientGuarded) (hconnected : connected = true)
      (hshutdown : s.shutdown = true) :
      Step connected input s (s.move i (.fail (.closed "partition_client 因连接池关闭而取消")))
  /-- The driver answers in `partition_client`, or its deadline passes. -/
  | clientAnswer (i : ι) (hi : s.call i = .clientGuarded) (hconnected : connected = true) :
      Step connected input s (s.move i
        (match (input i).partitionClient with
          | .timedOut => .fail (.timeout "partition_client 超时")
          | .ready (.error error) =>
            .fail (mapKafkaError "kafkax partition_client" (.rskafka error))
          | .ready (.ok ()) => .connected))
  | produceCheck (i : ι) (hi : s.call i = .connected) :
      Step connected input s (s.move i (s.ensureOpen .produceOpened))
  | produceRecheck (i : ι) (hi : s.call i = .produceOpened) :
      Step connected input s (s.move i (s.recheck .producing))
  /-- `limited_produce_await` is over. -/
  | produced (i : ι) (outcome : LimitedProduceAwait (List I64) RskafkaError)
      (hi : s.call i = .producing)
      (houtcome : outcome = .cancelled ∧ s.shutdown = true ∨ outcome = (input i).answer.await) :
      Step connected input s (s.move i (.apply (input i).call.record.partition outcome))
  /-- `fetch_add(1)` -/
  | increment (i : ι) (made todo : List Counter) (c : Counter) (result : KafkaResult Delivery)
      (hi : s.call i = .recording made (c :: todo) result) :
      Step connected input s { s with
        counter := Function.update s.counter c (s.counter c + 1)
        call := Function.update s.call i (.recording (made ++ [c]) todo result) }
  | returns (i : ι) (made : List Counter) (result : KafkaResult Delivery)
      (hi : s.call i = .recording made [] result) :
      Step connected input s (s.move i (.finished made result))

/-- The states of the runs of a new pool. -/
def Reachable (connected : Bool) (input : ι → PublishInput) (s : PublishPool ι) : Prop :=
  ReflTransGen (Step connected input) new s

end

/-- No call is in progress. -/
def Quiescent (s : PublishPool ι) : Prop := ∀ i, (s.call i).Quiet

end PublishPool

end Kafkax
