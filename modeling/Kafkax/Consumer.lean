import Mathlib.Data.List.Nodup
import Kafkax.Library.Text
import Kafkax.OffsetStore

/-!
# Consuming a partition

A consumer reads one partition from an explicit position on; there is no consumer group.
`KafkaConsumer` is modelled by what its queue will still yield to the calls made on it: the
messages of its partition in the order of their offsets, fetch errors, and the end of the stream.
Between any two of them a call with a deadline may time out.
-/

namespace Kafkax

open LineText BoundedIntegers

/-- `KafkaMessage` -/
structure KafkaMessage where
  topic : String
  partition : I32
  offset : I64
  payload : Option (List UInt8)
  key : Option (List UInt8)
  headers : List (String × List UInt8)
  timestamp : Option ℤ
deriving DecidableEq

/-! ### Configuration -/

/-- `ConsumerConfig` -/
structure ConsumerConfig where
  topic : String
  partition : I32
  fromBeginning : Bool
  startOffset : Option I64
deriving DecidableEq

/-- `rskafka`'s start of a stream. -/
inductive StartOffset where
  | earliest
  | latest
  | at (offset : I64)
deriving DecidableEq

namespace ConsumerConfig

/-- Partition 0 of a topic, from the beginning. -/
def subscribe (topic : String) : ConsumerConfig := ⟨topic, 0, true, none⟩

/-- A partition of a topic, from the beginning. -/
def assign (topic : String) (partition : I32) : ConsumerConfig := ⟨topic, partition, true, none⟩

/-- `ConsumerConfig::with_start_offset` -/
def withStartOffset (offset : I64) (self : ConsumerConfig) : ConsumerConfig :=
  { self with startOffset := some offset, fromBeginning := false }

/-- `ConsumerConfig::resolve_start_offset` -/
def resolveStartOffset (self : ConsumerConfig) : StartOffset :=
  match self.startOffset with
  | some offset => .at offset
  | none => if self.fromBeginning then .earliest else .latest

end ConsumerConfig

/-- `validate_consumer_config` -/
def validateConsumerConfig (config : ConsumerConfig) : KafkaResult Unit :=
  if (trim config.topic.toList).isEmpty then .error (.config "consumer topic 不能为空")
  else if config.partition.val < 0 then .error (.config "consumer partition 不能为负")
  else .ok ()

/-! ### The queue -/

/-- What the queue of a consumer yields next. -/
inductive Item where
  | message (message : KafkaMessage)
  | error (error : KafkaError)
  | timeout
  | ended

/-- The message of an item, if it is one. -/
def Item.message? : Item → Option KafkaMessage
  | .message m => some m
  | _ => none

/-- The messages among the items. -/
def messages (items : List Item) : List KafkaMessage := items.filterMap Item.message?

theorem messages_append (items more : List Item) :
    messages (items ++ more) = messages items ++ messages more := List.filterMap_append

/-- In the order of their offsets. -/
abbrev Increasing (ms : List KafkaMessage) : Prop := ms.Pairwise fun m m' => m.offset < m'.offset

/-- An offset names one message. -/
theorem Increasing.eq_of_offset_eq {ms : List KafkaMessage} (h : Increasing ms)
    {m m' : KafkaMessage} (hm : m ∈ ms) (hm' : m' ∈ ms) (heq : m.offset = m'.offset) : m = m' := by
  have hnodup : (ms.map KafkaMessage.offset).Nodup :=
    List.pairwise_map.mpr (h.imp fun hlt => hlt.ne)
  exact List.inj_on_of_nodup_map hnodup hm hm' heq

/-- `KafkaConsumer`: what the queue will yield, all of it of the consumer's own partition. -/
structure KafkaConsumer (topic : String) (partition : I32) where
  items : List Item
  own : ∀ m ∈ messages items, m.topic = topic ∧ m.partition = partition
  increasing : Increasing (messages items)

/-- The answer to a call without a deadline: it waits as long as nothing is there. -/
def nextItem : List Item → Option (KafkaResult KafkaMessage) × List Item
  | [] => (none, [])
  | .message m :: rest => (some (.ok m), rest)
  | .error e :: rest => (some (.error e), rest)
  | .timeout :: rest => nextItem rest
  | .ended :: rest => (none, rest)

/-- The answer to a call with a deadline. -/
def nextItemTimeout : List Item → KafkaResult (Option KafkaMessage) × List Item
  | [] => (.ok none, [])
  | .message m :: rest => (.ok (some m), rest)
  | .error e :: rest => (.error e, rest)
  | .timeout :: rest => (.error (.timeout "consumer recv 超时"), rest)
  | .ended :: rest => (.ok none, rest)

/-- A call takes the items up to its answer, among them no message but the one it answers. -/
theorem nextItem_taken (items : List Item) : ∃ taken, items = taken ++ (nextItem items).2 ∧
    messages taken = match (nextItem items).1 with
      | some (.ok m) => [m]
      | _ => [] := by
  induction items with
  | nil => exact ⟨[], rfl, rfl⟩
  | cons item rest ih =>
    cases item with
    | message m => exact ⟨[.message m], rfl, rfl⟩
    | error e => exact ⟨[.error e], rfl, rfl⟩
    | ended => exact ⟨[.ended], rfl, rfl⟩
    | timeout =>
      obtain ⟨taken, hsplit, hmessages⟩ := ih
      refine ⟨.timeout :: taken, ?_, hmessages⟩
      show .timeout :: rest = .timeout :: (taken ++ (nextItem rest).2)
      rw [← hsplit]

theorem nextItemTimeout_taken (items : List Item) :
    ∃ taken, items = taken ++ (nextItemTimeout items).2 ∧
      messages taken = match (nextItemTimeout items).1 with
        | .ok (some m) => [m]
        | _ => [] := by
  cases items with
  | nil => exact ⟨[], rfl, rfl⟩
  | cons item rest =>
    cases item with
    | message m => exact ⟨[.message m], rfl, rfl⟩
    | error e => exact ⟨[.error e], rfl, rfl⟩
    | timeout => exact ⟨[.timeout], rfl, rfl⟩
    | ended => exact ⟨[.ended], rfl, rfl⟩

namespace KafkaConsumer

variable {topic : String} {partition : I32}

/-- The consumer after items were taken. -/
def rest (self : KafkaConsumer topic partition) (items : List Item)
    (h : ∃ taken, self.items = taken ++ items) : KafkaConsumer topic partition where
  items := items
  own := by
    obtain ⟨taken, hsplit⟩ := h
    intro m hm
    refine self.own m ?_
    rw [hsplit, messages_append]
    exact List.mem_append_right _ hm
  increasing := by
    obtain ⟨taken, hsplit⟩ := h
    have hall := self.increasing
    rw [hsplit, messages_append] at hall
    exact (List.pairwise_append.mp hall).2.1

/-- `KafkaConsumer::recv` -/
def recv (self : KafkaConsumer topic partition) :
    Option (KafkaResult KafkaMessage) × KafkaConsumer topic partition :=
  ((nextItem self.items).1,
    self.rest (nextItem self.items).2 ((nextItem_taken self.items).imp fun _ h => h.1))

/-- `KafkaConsumer::recv_timeout` -/
def recvTimeout (self : KafkaConsumer topic partition) :
    KafkaResult (Option KafkaMessage) × KafkaConsumer topic partition :=
  ((nextItemTimeout self.items).1,
    self.rest (nextItemTimeout self.items).2
      ((nextItemTimeout_taken self.items).imp fun _ h => h.1))

end KafkaConsumer

end Kafkax
