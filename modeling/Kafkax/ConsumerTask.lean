import Mathlib.Logic.Relation
import Kafkax.Consumer
import Kafkax.ErrorMap
import Kafkax.Library.Channel
import Kafkax.Message

/-!
# The background task of a consumer

`KafkaConsumer::connect` spawns a task that polls the `rskafka` stream and sends what it yields,
mapped to messages and errors, into a bounded queue, until the stream ends, an error was sent, the
pool is closed or the receiver is gone.  `recv` and `recv_timeout` take from the queue.

`Step` is one step of the task, of a `close` of the pool, or of the caller; runs of steps are all
the interleavings.  `PipelineInv` says where every item of the stream is: answered to the caller,
in the queue, or in the task's hand.  `consumer_faithful` reads off it that the caller gets a
prefix of the stream, and `answers_replayed` that the answers are those of the `KafkaConsumer` of
the sessions.
-/

namespace Kafkax

open BoundedChannel Relation

/-! ### What the stream yields -/

/-- `rskafka`'s `RecordAndOffset` -/
structure RecordAndOffset where
  record : Record
  offset : I64

/-- An item of the stream: a record with the high watermark, or an error. -/
abbrev StreamItem := Except RskafkaError (RecordAndOffset × I64)

/-- The body of the loop up to the send: a `None` value stays `None`. -/
def output (config : ConsumerConfig) : StreamItem → KafkaResult KafkaMessage
  | .ok (recordOffset, _highWatermark) =>
    .ok {
      topic := config.topic
      partition := config.partition
      offset := recordOffset.offset
      payload := recordOffset.record.value
      key := recordOffset.record.key
      headers := recordOffset.record.headers
      timestamp := some recordOffset.record.timestamp }
  | .error error => .error (mapKafkaError "kafkax fetch" (.rskafka error))

/-- `CONSUMER_BUFFER_CAPACITY` -/
def consumerBufferCapacity : ℕ := 64

/-! ### Answers -/

/-- The answer of `ensure_open` on a closed pool. -/
def poolClosed : KafkaError := .closed "连接池已关闭"

/-- The answer of a `recv_timeout` whose time is up. -/
def recvTimedOut : KafkaError := .timeout "consumer recv 超时"

/-- An answer of a call to the caller. -/
inductive Answer where
  | recv (result : Option (KafkaResult KafkaMessage))
  | recvTimeout (result : KafkaResult (Option KafkaMessage))

/-- An error that the call makes itself is no item of the stream. -/
def errorItem? (error : KafkaError) : Option (KafkaResult KafkaMessage) :=
  if error = poolClosed ∨ error = recvTimedOut then none else some (.error error)

/-- The message or fetch error an answer returns; the end of the stream, a closed pool and a
timeout return none. -/
def Answer.item? : Answer → Option (KafkaResult KafkaMessage)
  | .recv none | .recvTimeout (.ok none) => none
  | .recv (some (.ok message)) | .recvTimeout (.ok (some message)) => some (.ok message)
  | .recv (some (.error error)) | .recvTimeout (.error error) => errorItem? error

/-- The items returned to the caller. -/
def delivered (answers : List Answer) : List (KafkaResult KafkaMessage) :=
  answers.filterMap Answer.item?

/-! ### The state -/

/-- The background task. -/
inductive FetchTask where
  /-- In the first `select!`. -/
  | polling
  /-- In `send_or_shutdown`, with the output in hand. -/
  | sending (result : KafkaResult KafkaMessage)
  /-- The loop is left, or the task was aborted; the sender is dropped. -/
  | finished

/-- The call of the caller; a call past its `ensure_open` waits for the queue. -/
inductive Call where
  | idle
  | recv
  | recvTimeout
deriving DecidableEq

/-- What a call that waits answers when the queue yields a result or the end. -/
def Call.answer : Call → Option (KafkaResult KafkaMessage) → Answer
  | .recvTimeout, some (.ok message) => .recvTimeout (.ok (some message))
  | .recvTimeout, some (.error error) => .recvTimeout (.error error)
  | .recvTimeout, none => .recvTimeout (.ok none)
  | _, result => .recv result

/-- A `KafkaConsumer` with its task, and the flags of its pool. -/
structure Pipeline where
  closed : Bool
  shutdown : Bool
  dropped : Bool
  polls : ℕ
  task : FetchTask
  queue : Channel (KafkaResult KafkaMessage) consumerBufferCapacity
  call : Call
  answers : List Answer

namespace Pipeline

/-- The state after `connect`. -/
def connected : Pipeline where
  closed := false
  shutdown := false
  dropped := false
  polls := 0
  task := .polling
  queue := .empty
  call := .idle
  answers := []

/-- One step of one party. -/
inductive Step (config : ConsumerConfig) (stream : ℕ → Option StreamItem) (s : Pipeline) :
    Pipeline → Prop where
  /-- `wait_for_shutdown` wins the first `select!`. -/
  | breakPolling (htask : s.task = .polling) (hshutdown : s.shutdown = true) :
      Step config stream s { s with task := .finished }
  | next (item : StreamItem) (htask : s.task = .polling) (hitem : stream s.polls = some item) :
      Step config stream s { s with polls := s.polls + 1, task := .sending (output config item) }
  | streamEnd (htask : s.task = .polling) (hend : stream s.polls = none) :
      Step config stream s { s with task := .finished }
  /-- `wait_for_shutdown` wins in `send_or_shutdown`. -/
  | breakSending (result : KafkaResult KafkaMessage) (htask : s.task = .sending result)
      (hshutdown : s.shutdown = true) :
      Step config stream s { s with task := .finished }
  /-- The send goes through; an error ends the loop. -/
  | send (result : KafkaResult KafkaMessage) (htask : s.task = .sending result)
      (hroom : s.queue.items.length < consumerBufferCapacity) (hreceiver : s.dropped = false) :
      Step config stream s { s with
        queue := s.queue.push result hroom
        task := match result with
          | .ok _ => .polling
          | .error _ => .finished }
  /-- The receiver is gone. -/
  | sendFails (result : KafkaResult KafkaMessage) (htask : s.task = .sending result)
      (hdropped : s.dropped = true) :
      Step config stream s { s with task := .finished }
  /-- The abort of the drop takes effect. -/
  | abort (hdropped : s.dropped = true) :
      Step config stream s { s with task := .finished }
  /-- `closed.store(true)` in `close` -/
  | storeClosed : Step config stream s { s with closed := true }
  /-- `shutdown.send_replace(true)` in `close` -/
  | broadcast (hclosed : s.closed = true) : Step config stream s { s with shutdown := true }
  /-- `ensure_open` of a `recv` -/
  | recv (hidle : s.call = .idle) (hreceiver : s.dropped = false) :
      Step config stream s (if s.closed
        then { s with answers := s.answers ++ [.recv (some (.error poolClosed))] }
        else { s with call := .recv })
  /-- `ensure_open` of a `recv_timeout` -/
  | recvTimeout (hidle : s.call = .idle) (hreceiver : s.dropped = false) :
      Step config stream s (if s.closed
        then { s with answers := s.answers ++ [.recvTimeout (.error poolClosed)] }
        else { s with call := .recvTimeout })
  /-- `rx.recv()` takes the front of the queue. -/
  | receive (result : KafkaResult KafkaMessage) (hcall : s.call ≠ .idle)
      (hfront : s.queue.items.head? = some result) :
      Step config stream s { s with
        queue := s.queue.pop
        call := .idle
        answers := s.answers ++ [s.call.answer (some result)] }
  /-- `rx.recv()` on an empty queue without a sender. -/
  | receiveEnd (hcall : s.call ≠ .idle) (hempty : s.queue.items = [])
      (htask : s.task = .finished) :
      Step config stream s { s with
        call := .idle
        answers := s.answers ++ [s.call.answer none] }
  | timeout (hcall : s.call = .recvTimeout) :
      Step config stream s { s with
        call := .idle
        answers := s.answers ++ [.recvTimeout (.error recvTimedOut)] }
  /-- The future of the call is dropped. -/
  | dropCall : Step config stream s { s with call := .idle }
  /-- The `KafkaConsumer` is dropped. -/
  | drop (hidle : s.call = .idle) : Step config stream s { s with dropped := true }

/-- The states of the runs of a new consumer. -/
def Reachable (config : ConsumerConfig) (stream : ℕ → Option StreamItem) (s : Pipeline) : Prop :=
  ReflTransGen (Step config stream) connected s

end Pipeline

/-! ### What the answers keep of the items -/

theorem delivered_snoc_of_none {answers : List Answer} {answer : Answer} (h : answer.item? = none) :
    delivered (answers ++ [answer]) = delivered answers := by
  rw [delivered, List.filterMap_append, List.filterMap_cons_none h, List.filterMap_nil,
    List.append_nil, delivered]

theorem delivered_snoc_of_some {answers : List Answer} {answer : Answer}
    {result : KafkaResult KafkaMessage} (h : answer.item? = some result) :
    delivered (answers ++ [answer]) = delivered answers ++ [result] := by
  rw [delivered, List.filterMap_append, List.filterMap_cons_some h, List.filterMap_nil, delivered]

theorem errorItem?_poolClosed : errorItem? poolClosed = none := if_pos (Or.inl rfl)

theorem errorItem?_recvTimedOut : errorItem? recvTimedOut = none := if_pos (Or.inr rfl)

/-- A fetch error is none of the errors the calls make themselves. -/
theorem errorItem?_fetch (error : RskafkaError) :
    errorItem? (mapKafkaError "kafkax fetch" (.rskafka error)) =
      some (.error (mapKafkaError "kafkax fetch" (.rskafka error))) := by
  refine if_neg ?_
  rw [mapKafkaError]
  have hclosed : classify (.rskafka error) ≠ .closed := classifyRskafka_ne_closed error
  cases hclass : classify (.rskafka error) with
  | closed => exact absurd hclass hclosed
  | _ => decide

/-- A call that waits hands an output of the task on as it is. -/
theorem item?_answer (call : Call) (config : ConsumerConfig) (item : StreamItem) :
    (call.answer (some (output config item))).item? = some (output config item) := by
  cases item with
  | ok record => cases call <;> rfl
  | error e => cases call <;> exact errorItem?_fetch e

theorem item?_answer_none (call : Call) : (call.answer none).item? = none := by
  cases call <;> rfl

namespace Pipeline

/-! ### The invariant -/

/-- The outputs of what the stream has yielded in `n` polls. -/
def produced (config : ConsumerConfig) (stream : ℕ → Option StreamItem) (n : ℕ) :
    List (KafkaResult KafkaMessage) :=
  (polled stream n).map (output config)

/-- What was sent so far, against what the stream has yielded. -/
def TaskInv (sent produced : List (KafkaResult KafkaMessage)) : FetchTask → Prop
  | .polling => sent = produced ∧ AllOk produced
  | .sending result => sent ++ [result] = produced ∧ AllOk sent
  | .finished => sent <+: cutAfterError produced

/-- The invariant of all runs: every output is answered, in the queue, or in the task's hand. -/
structure PipelineInv (config : ConsumerConfig) (stream : ℕ → Option StreamItem) (s : Pipeline) :
    Prop where
  live : ∀ k < s.polls, stream k ≠ none
  task : TaskInv (delivered s.answers ++ s.queue.items) (produced config stream s.polls) s.task

theorem TaskInv.sent_prefix {sent produced : List (KafkaResult KafkaMessage)} {task : FetchTask}
    (h : TaskInv sent produced task) : sent <+: cutAfterError produced := by
  cases task with
  | polling =>
    obtain ⟨hsent, hok⟩ := h
    rw [cutAfterError_of_allOk hok, hsent]
  | sending result =>
    obtain ⟨hsent, hok⟩ := h
    rw [← hsent, cutAfterError_append hok]
    exact List.prefix_append _ _
  | finished => exact h

variable {config : ConsumerConfig} {stream : ℕ → Option StreamItem} {s s' : Pipeline}

theorem produced_succ (hlive : ∀ k < s.polls, stream k ≠ none) {item : StreamItem}
    (hitem : stream s.polls = some item) :
    produced config stream (s.polls + 1) =
      produced config stream s.polls ++ [output config item] := by
  have hpolled : polled stream (s.polls + 1) = polled stream s.polls ++ [item] := by
    refine polledFrom_succ (fun k hk => ?_) ?_
    · rw [Nat.zero_add]
      exact hlive k hk
    · rw [Nat.zero_add]
      exact hitem
  rw [produced, hpolled, List.map_append, produced]
  rfl

/-- Whatever was sent is an output. -/
theorem PipelineInv.sent_output (h : PipelineInv config stream s)
    {result : KafkaResult KafkaMessage} (hresult : result ∈ delivered s.answers ++ s.queue.items) :
    ∃ item, result = output config item := by
  have hproduced := ((h.task.sent_prefix).trans (isPrefix_cutAfterError _)).subset hresult
  obtain ⟨item, -, hitem⟩ := List.mem_map.mp hproduced
  exact ⟨item, hitem.symm⟩

theorem pipelineInv_connected : PipelineInv config stream connected where
  live k hk := absurd hk (Nat.not_lt_zero k)
  task := ⟨rfl, fun _ he => absurd he List.not_mem_nil⟩

/-- A step that moves no item. -/
theorem PipelineInv.of_same (h : PipelineInv config stream s) (hpolls : s'.polls = s.polls)
    (htask : s'.task = s.task) (hqueue : s'.queue = s.queue)
    (hanswers : delivered s'.answers = delivered s.answers) : PipelineInv config stream s' := by
  refine ⟨?_, ?_⟩
  · rw [hpolls]
    exact h.live
  · rw [hpolls, htask, hqueue, hanswers]
    exact h.task

/-- A step that ends the task, whatever it has in hand. -/
theorem PipelineInv.finish (h : PipelineInv config stream s) :
    PipelineInv config stream { s with task := .finished } :=
  ⟨h.live, h.task.sent_prefix⟩

/-- **A step** keeps the invariant. -/
theorem PipelineInv.step (h : PipelineInv config stream s) (hstep : Step config stream s s') :
    PipelineInv config stream s' := by
  cases hstep with
  | breakPolling htask hshutdown => exact h.finish
  | next item htask hitem =>
    have hinv := h.task
    rw [htask] at hinv
    obtain ⟨hsent, hok⟩ := hinv
    refine ⟨fun k hk => ?_, ?_⟩
    · rcases Nat.lt_succ_iff_lt_or_eq.mp hk with hlt | heq
      · exact h.live k hlt
      · rw [heq, hitem]
        exact Option.some_ne_none item
    · show _ ++ [output config item] = _ ∧ _
      rw [produced_succ h.live hitem, hsent]
      exact ⟨rfl, hok⟩
  | streamEnd htask hend => exact h.finish
  | breakSending result htask hshutdown => exact h.finish
  | send result htask hroom hreceiver =>
    have hinv := h.task
    rw [htask] at hinv
    obtain ⟨hsent, hok⟩ := hinv
    have hqueue : delivered s.answers ++ (s.queue.push result hroom).items =
        produced config stream s.polls := by
      rw [← hsent, Channel.items_push, List.append_assoc]
    refine ⟨h.live, ?_⟩
    cases result with
    | ok message =>
      refine ⟨hqueue, ?_⟩
      rw [← hsent]
      intro e he
      rcases List.mem_append.mp he with he | he
      · exact hok e he
      · exact absurd (List.mem_singleton.mp he) (by simp)
    | error e =>
      show delivered s.answers ++ _ <+: _
      rw [hqueue, ← hsent, cutAfterError_append hok]
      exact List.prefix_rfl
  | sendFails result htask hdropped => exact h.finish
  | abort hdropped => exact h.finish
  | storeClosed => exact h.of_same rfl rfl rfl rfl
  | broadcast hclosed => exact h.of_same rfl rfl rfl rfl
  | recv hidle hreceiver =>
    split
    · exact h.of_same rfl rfl rfl (delivered_snoc_of_none errorItem?_poolClosed)
    · exact h.of_same rfl rfl rfl rfl
  | recvTimeout hidle hreceiver =>
    split
    · exact h.of_same rfl rfl rfl (delivered_snoc_of_none errorItem?_poolClosed)
    · exact h.of_same rfl rfl rfl rfl
  | receive result hcall hfront =>
    obtain ⟨rest, hitems⟩ := List.head?_eq_some_iff.mp hfront
    have hmem : result ∈ delivered s.answers ++ s.queue.items := by
      rw [hitems]
      exact List.mem_append_right _ List.mem_cons_self
    obtain ⟨item, hitem⟩ := h.sent_output hmem
    have hanswer : (s.call.answer (some result)).item? = some result := by
      rw [hitem]
      exact item?_answer s.call config item
    have hmoved : delivered (s.answers ++ [s.call.answer (some result)]) ++ s.queue.pop.items =
        delivered s.answers ++ s.queue.items := by
      rw [delivered_snoc_of_some hanswer, Channel.items_pop, hitems, List.append_assoc]
      rfl
    refine ⟨h.live, ?_⟩
    show TaskInv (delivered (s.answers ++ [s.call.answer (some result)]) ++ s.queue.pop.items) _ _
    rw [hmoved]
    exact h.task
  | receiveEnd hcall hempty htask =>
    exact h.of_same rfl rfl rfl (delivered_snoc_of_none (item?_answer_none s.call))
  | timeout hcall =>
    exact h.of_same rfl rfl rfl (delivered_snoc_of_none errorItem?_recvTimedOut)
  | dropCall => exact h.of_same rfl rfl rfl rfl
  | drop hidle => exact h.of_same rfl rfl rfl rfl

/-- **A run** keeps the invariant. -/
theorem pipelineInv_of_reachable (h : Reachable config stream s) : PipelineInv config stream s := by
  induction h with
  | refl => exact pipelineInv_connected
  | tail _ hstep ih => exact ih.step hstep

/-! ### The guarantee -/

/-- An answer is never taken back. -/
theorem answers_step (hstep : Step config stream s s') : s.answers <+: s'.answers := by
  cases hstep with
  | recv hidle hreceiver =>
    split
    · exact List.prefix_append _ _
    · exact List.prefix_rfl
  | recvTimeout hidle hreceiver =>
    split
    · exact List.prefix_append _ _
    · exact List.prefix_rfl
  | receive result hcall hfront => exact List.prefix_append _ _
  | receiveEnd hcall hempty htask => exact List.prefix_append _ _
  | timeout hcall => exact List.prefix_append _ _
  | _ => exact List.prefix_rfl

theorem answers_run (hrun : ReflTransGen (Step config stream) s s') : s.answers <+: s'.answers := by
  induction hrun with
  | refl => exact List.prefix_rfl
  | tail _ hstep ih => exact ih.trans (answers_step hstep)

/-- What was delivered is a prefix of the outputs up to the first error. -/
theorem PipelineInv.isPrefix_delivered (h : PipelineInv config stream s) :
    delivered s.answers <+: cutAfterError (produced config stream s.polls) :=
  (List.prefix_append _ _).trans h.task.sent_prefix

/-- The `k`-th item delivered is the output of the `k`-th item of the stream. -/
theorem PipelineInv.getElem?_delivered (h : PipelineInv config stream s) {k : ℕ}
    {result : KafkaResult KafkaMessage} (hk : (delivered s.answers)[k]? = some result) :
    ∃ item, stream k = some item ∧ output config item = result := by
  obtain ⟨rest, hrest⟩ := h.isPrefix_delivered.trans (isPrefix_cutAfterError _)
  have hproduced : (produced config stream s.polls)[k]? = some result := by
    rw [← hrest, List.getElem?_append_left (List.getElem?_eq_some_iff.mp hk).1]
    exact hk
  rw [produced, List.getElem?_map] at hproduced
  obtain ⟨item, hitem, houtput⟩ := Option.map_eq_some_iff.mp hproduced
  have hstream := getElem?_polledFrom hitem
  rw [Nat.zero_add] at hstream
  exact ⟨item, hstream, houtput⟩

/-- An error is the last item delivered. -/
theorem PipelineInv.error_last (h : PipelineInv config stream s) {k : ℕ} {e : KafkaError}
    (hk : (delivered s.answers)[k]? = some (.error e)) : k + 1 = (delivered s.answers).length := by
  have hlt := (List.getElem?_eq_some_iff.mp hk).1
  have hmem : .error e ∈ (delivered s.answers).take (k + 1) := by
    refine List.mem_of_getElem? (i := k) ?_
    rw [List.getElem?_take_of_lt (Nat.lt_succ_self k)]
    exact hk
  have heq := eq_of_error_mem hmem (List.take_prefix _ _) h.isPrefix_delivered
  have hlength := congrArg List.length heq
  rw [List.length_take] at hlength
  omega

end Pipeline

open Pipeline in
/-- **The consumer is a faithful prefix of the stream.**  In every state of every interleaving the
messages and fetch errors returned to the caller are, in order and each once, the outputs of the
first items of the stream, up to its first error: a message has the offset, key, value, headers
and timestamp of its record and the configured topic and partition, and an error is the last item
returned, whatever is still called.  The queue stays within its capacity. -/
theorem consumer_faithful (config : ConsumerConfig) (stream : ℕ → Option StreamItem)
    (s : Pipeline) (h : Reachable config stream s) :
    (∃ n, delivered s.answers <+: cutAfterError ((polled stream n).map (output config))) ∧
    (∀ (k : ℕ) (result : KafkaResult KafkaMessage), (delivered s.answers)[k]? = some result →
      (∃ r highWatermark, stream k = some (.ok (r, highWatermark)) ∧ result = .ok
        { topic := config.topic, partition := config.partition, offset := r.offset,
          payload := r.record.value, key := r.record.key, headers := r.record.headers,
          timestamp := some r.record.timestamp }) ∨
      ∃ e, stream k = some (.error e) ∧
        result = .error (mapKafkaError "kafkax fetch" (.rskafka e)) ∧
        k + 1 = (delivered s.answers).length) ∧
    (∀ s', ReflTransGen (Step config stream) s s' → (∃ e, .error e ∈ delivered s.answers) →
      delivered s'.answers = delivered s.answers) ∧
    s.queue.items.length ≤ consumerBufferCapacity := by
  have hinv := pipelineInv_of_reachable h
  refine ⟨⟨s.polls, hinv.isPrefix_delivered⟩, fun k result hk => ?_, fun s' hrun herror => ?_,
    s.queue.bounded⟩
  · obtain ⟨item, hitem, houtput⟩ := hinv.getElem?_delivered hk
    cases item with
    | ok record => exact Or.inl ⟨record.1, record.2, hitem, houtput.symm⟩
    | error e =>
      have herror : .error (mapKafkaError "kafkax fetch" (.rskafka e)) = result := houtput
      rw [← herror] at hk
      exact Or.inr ⟨e, hitem, herror.symm, hinv.error_last hk⟩
  · obtain ⟨e, he⟩ := herror
    have hgrow : delivered s.answers <+: delivered s'.answers := (answers_run hrun).filterMap _
    exact eq_of_error_mem he hgrow (pipelineInv_of_reachable (h.trans hrun)).isPrefix_delivered

/-- A stream of one record. -/
def oneRecord : ℕ → Option StreamItem
  | 0 => some (.ok (⟨⟨none, some [], [], 7⟩, .of 41⟩, .of 42))
  | _ => none

open Pipeline in
/-- The record goes through the task and the queue to the caller; then the stream ends. -/
theorem record_received : ∃ s, Reachable (.subscribe "orders") oneRecord s ∧
    delivered s.answers =
      [output (.subscribe "orders") (.ok (⟨⟨none, some [], [], 7⟩, .of 41⟩, .of 42))] := by
  have hnext : Step (.subscribe "orders") oneRecord connected _ := .next _ rfl rfl
  have hsent := (ReflTransGen.single hnext).tail (.send _ rfl (by decide) rfl)
  have hended := hsent.tail (.streamEnd rfl rfl)
  have hcalled := hended.tail (.recv rfl rfl)
  exact ⟨_, hcalled.tail (.receive _ (by decide) rfl), rfl⟩

open Pipeline in
theorem consumer_faithful_oneRecord : ∃ s, Reachable (.subscribe "orders") oneRecord s ∧
    (delivered s.answers).length = 1 ∧
    ∃ n, delivered s.answers <+:
      cutAfterError ((polled oneRecord n).map (output (.subscribe "orders"))) := by
  obtain ⟨s, hreachable, hdelivered⟩ := record_received
  refine ⟨s, hreachable, ?_, (consumer_faithful (.subscribe "orders") oneRecord s hreachable).1⟩
  rw [hdelivered, List.length_singleton]

/-! ### The consumer of the sessions -/

/-- An answer as an item of a queue. -/
def Answer.toItem : Answer → Item
  | .recv (some (.ok message)) | .recvTimeout (.ok (some message)) => .message message
  | .recv (some (.error error)) => .error error
  | .recvTimeout (.error error) => if error = recvTimedOut then .timeout else .error error
  | .recv none | .recvTimeout (.ok none) => .ended

/-- The consumer gives these answers, one call after the other. -/
def Replays {topic : String} {partition : I32} :
    KafkaConsumer topic partition → List Answer → Prop
  | _, [] => True
  | c, .recv result :: rest => c.recv.1 = result ∧ Replays c.recv.2 rest
  | c, .recvTimeout result :: rest => c.recvTimeout.1 = result ∧ Replays c.recvTimeout.2 rest

theorem replays_of_items {topic : String} {partition : I32} {answers : List Answer}
    {c : KafkaConsumer topic partition} (h : c.items = answers.map Answer.toItem) :
    Replays c answers := by
  induction answers generalizing c with
  | nil => trivial
  | cons answer rest ih =>
    rw [List.map_cons] at h
    cases answer with
    | recv result =>
      have hnext : nextItem c.items = (result, rest.map Answer.toItem) := by
        rw [h]
        cases result with
        | none => rfl
        | some result => cases result <;> rfl
      exact ⟨congrArg Prod.fst hnext, ih (congrArg Prod.snd hnext)⟩
    | recvTimeout result =>
      have hnext : nextItemTimeout c.items = (result, rest.map Answer.toItem) := by
        rw [h]
        cases result with
        | ok message => cases message <;> rfl
        | error e =>
          show nextItemTimeout ((if e = recvTimedOut then .timeout else .error e) :: _) = _
          by_cases he : e = recvTimedOut
          · rw [if_pos he, he]
            rfl
          · rw [if_neg he]
            rfl
      exact ⟨congrArg Prod.fst hnext, ih (congrArg Prod.snd hnext)⟩

/-- The message of a result, if it is one. -/
def okMessage? : KafkaResult KafkaMessage → Option KafkaMessage
  | .ok message => some message
  | .error _ => none

theorem okMessage?_eq_some {result : KafkaResult KafkaMessage} {m : KafkaMessage} :
    okMessage? result = some m ↔ result = .ok m := by
  cases result <;> simp [okMessage?]

theorem messages_toItem (answers : List Answer) :
    messages (answers.map Answer.toItem) = (delivered answers).filterMap okMessage? := by
  rw [messages, delivered, List.filterMap_map, List.filterMap_filterMap]
  congr 1
  funext answer
  have herror : ∀ e, (errorItem? e).bind okMessage? = none := by
    intro e
    rw [errorItem?]
    split <;> rfl
  cases answer with
  | recv result =>
    cases result with
    | none => rfl
    | some result =>
      cases result with
      | ok message => rfl
      | error e => exact (herror e).symm
  | recvTimeout result =>
    cases result with
    | ok message => cases message <;> rfl
    | error e =>
      refine Eq.trans ?_ (herror e).symm
      show Item.message? (if e = recvTimedOut then .timeout else .error e) = none
      split <;> rfl

namespace Pipeline

/-- The messages returned to the caller. -/
def received (s : Pipeline) : List KafkaMessage := (delivered s.answers).filterMap okMessage?

variable {config : ConsumerConfig} {stream : ℕ → Option StreamItem} {s : Pipeline}

/-- The message at a place of the answers is the record at that place of the stream. -/
theorem PipelineInv.record_of_delivered (h : PipelineInv config stream s) {k : ℕ} {m : KafkaMessage}
    (hk : (delivered s.answers)[k]? = some (.ok m)) :
    ∃ r, stream k = some (.ok r) ∧ output config (.ok r) = .ok m := by
  obtain ⟨item, hitem, houtput⟩ := h.getElem?_delivered hk
  cases item with
  | ok r => exact ⟨r, hitem, houtput⟩
  | error e => exact absurd houtput (by simp [output])

theorem mem_received {m : KafkaMessage} :
    m ∈ s.received ↔ ∃ k : ℕ, (delivered s.answers)[k]? = some (.ok m) := by
  rw [received, List.mem_filterMap, ← List.mem_iff_getElem?]
  constructor
  · rintro ⟨result, hresult, hmessage⟩
    rw [okMessage?_eq_some.mp hmessage] at hresult
    exact hresult
  · exact fun hm => ⟨.ok m, hm, rfl⟩

/-- Messages of a stream in the order of its offsets come in that order. -/
theorem PipelineInv.increasing_received (h : PipelineInv config stream s)
    (hincreasing : ∀ i j a b, i < j → stream i = some (.ok a) → stream j = some (.ok b) →
      a.1.offset < b.1.offset) : Increasing s.received := by
  rw [received, Increasing, List.pairwise_filterMap, List.pairwise_iff_getElem]
  intro i j hi hj hij m hm m' hm'
  have hith := List.getElem?_eq_getElem hi
  have hjth := List.getElem?_eq_getElem hj
  rw [okMessage?_eq_some.mp hm] at hith
  rw [okMessage?_eq_some.mp hm'] at hjth
  obtain ⟨r, hr, houtput⟩ := h.record_of_delivered hith
  obtain ⟨r', hr', houtput'⟩ := h.record_of_delivered hjth
  rw [← Except.ok.inj houtput, ← Except.ok.inj houtput']
  exact hincreasing i j r r' hij hr hr'

/-- Every message answered is one of the configured topic and partition. -/
theorem PipelineInv.own_received (h : PipelineInv config stream s) {m : KafkaMessage}
    (hm : m ∈ s.received) : m.topic = config.topic ∧ m.partition = config.partition := by
  obtain ⟨k, hk⟩ := mem_received.mp hm
  obtain ⟨r, -, houtput⟩ := h.record_of_delivered hk
  rw [← Except.ok.inj houtput]
  exact ⟨rfl, rfl⟩

/-- The answers are the items of a consumer of the configured topic and partition. -/
theorem PipelineInv.exists_consumer (h : PipelineInv config stream s)
    (hincreasing : ∀ i j a b, i < j → stream i = some (.ok a) → stream j = some (.ok b) →
      a.1.offset < b.1.offset) :
    ∃ c : KafkaConsumer config.topic config.partition, c.items = s.answers.map Answer.toItem := by
  refine ⟨⟨s.answers.map Answer.toItem, ?_, ?_⟩, rfl⟩
  · intro m hm
    rw [messages_toItem] at hm
    exact h.own_received hm
  · rw [messages_toItem]
    exact h.increasing_received hincreasing

end Pipeline

open Pipeline in
/-- **The task refines the consumer of the sessions.**  If the stream yields records in the order
of their offsets, then in every state of every interleaving the calls were answered as a
`KafkaConsumer` of the configured topic and partition answers them. -/
theorem answers_replayed {config : ConsumerConfig} {stream : ℕ → Option StreamItem} {s : Pipeline}
    (h : Reachable config stream s)
    (hincreasing : ∀ i j a b, i < j → stream i = some (.ok a) → stream j = some (.ok b) →
      a.1.offset < b.1.offset) :
    ∃ c : KafkaConsumer config.topic config.partition, Replays c s.answers := by
  obtain ⟨c, hc⟩ := (pipelineInv_of_reachable h).exists_consumer hincreasing
  exact ⟨c, replays_of_items hc⟩

end Kafkax
