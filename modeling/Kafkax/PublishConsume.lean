import Mathlib.Data.String.Basic
import Kafkax.ConsumerTask
import Kafkax.Library.SortedMap
import Kafkax.PublishCounters

/-!
# From a publish to the consumer of its partition

A record is built from its payload, a key and headers, and published to a partition.  The broker
keeps it in the log of the partition and answers with its offset; a consumer of the partition reads
the log from some position on.  The broker is no part of this code: `Acknowledges` and `ReadsLog`
state what it promises.

* `builtRecord_last_writes`: a record is its payload with the last key and the last header of each
  name, in whatever order they were given.
* `published_is_consumed`: a publish that returned `Ok` names its record by topic, partition and
  offset.  The message with this `bus_id` is the record as it was built; the consumer of the
  partition does not pass it over, and no consumer of another partition gets it.
-/

namespace Kafkax

open BoundedIntegers LineText Relation SortedMaps

/-! ### Records and messages -/

/-- `PublishRecord::header` -/
def PublishRecord.header (name : String) (value : List UInt8) (self : PublishRecord) :
    PublishRecord :=
  { self with headers := put name value self.headers }

/-- A call of a method that builds a `PublishRecord`. -/
inductive RecordCall where
  | withKey (key : List UInt8)
  | header (name : String) (value : List UInt8)

/-- What the method does to the record. -/
def RecordCall.apply (record : PublishRecord) : RecordCall → PublishRecord
  | .withKey key => record.withKey key
  | .header name value => record.header name value

/-- `PublishRecord::payload` and some calls. -/
def builtRecord (topic : String) (partition : I32) (payload : List UInt8)
    (calls : List RecordCall) : PublishRecord :=
  calls.foldl RecordCall.apply (.ofPayload topic partition payload)

/-- `partition_for_key`, with the 64-bit hash of a byte string. -/
def partitionForKey (hash : List UInt8 → UInt64) (key : List UInt8) (partitions : I32) : I32 :=
  if h : partitions.val ≤ 1 then 0
  else
    have hlt := Nat.mod_lt (hash key).toNat (show 0 < partitions.val.toNat by omega)
    have hle := partitions.le_hi
    ⟨((hash key).toNat % partitions.val.toNat : ℕ), by omega, by omega⟩

namespace KafkaMessage

/-- `KafkaMessage::bus_id` -/
def busId (self : KafkaMessage) : String := encodeBusId self.topic self.partition self.offset

/-- `KafkaMessage::header` -/
def header (self : KafkaMessage) (name : String) : Option (List UInt8) := self.headers.lookup name

/-- `KafkaMessage::payload_bytes` -/
def payloadBytes (self : KafkaMessage) : List UInt8 :=
  match self.payload with
  | some payload => payload
  | none => []

end KafkaMessage

/-! ### The last writes -/

/-- The key that a call gives. -/
def RecordCall.key? : RecordCall → Option (List UInt8)
  | .withKey key => some key
  | .header _ _ => none

/-- The value that a call gives to a header. -/
def RecordCall.value? (name : String) : RecordCall → Option (List UInt8)
  | .withKey _ => none
  | .header name' value => if name = name' then some value else none

/-- The last key given. -/
def lastKey (calls : List RecordCall) : Option (List UInt8) :=
  (calls.filterMap RecordCall.key?).getLast?

/-- The last value given to a header. -/
def lastHeader (calls : List RecordCall) (name : String) : Option (List UInt8) :=
  (calls.filterMap (RecordCall.value? name)).getLast?

variable {topic : String} {partition : I32} {payload : List UInt8}

theorem builtRecord_snoc (calls : List RecordCall) (call : RecordCall) :
    builtRecord topic partition payload (calls ++ [call]) =
      call.apply (builtRecord topic partition payload calls) := by
  rw [builtRecord, List.foldl_append]
  rfl

/-- The call keeps where the record goes and what it carries. -/
theorem RecordCall.apply_target (record : PublishRecord) (call : RecordCall) :
    (call.apply record).topic = record.topic ∧ (call.apply record).partition = record.partition ∧
      (call.apply record).payload = record.payload := by
  cases call <;> exact ⟨rfl, rfl, rfl⟩

theorem builtRecord_target (calls : List RecordCall) :
    (builtRecord topic partition payload calls).topic = topic ∧
      (builtRecord topic partition payload calls).partition = partition ∧
      (builtRecord topic partition payload calls).payload = payload := by
  induction calls using List.reverseRecOn with
  | nil => exact ⟨rfl, rfl, rfl⟩
  | append_singleton calls call ih =>
    rw [builtRecord_snoc]
    obtain ⟨htopic, hpartition, hpayload⟩ :=
      call.apply_target (builtRecord topic partition payload calls)
    exact ⟨htopic.trans ih.1, hpartition.trans ih.2.1, hpayload.trans ih.2.2⟩

theorem getLast?_filterMap_snoc {α β : Type} (f : α → Option β) (as : List α) (a : α) :
    ((as ++ [a]).filterMap f).getLast? = (f a).or (as.filterMap f).getLast? := by
  rw [List.filterMap_append, List.getLast?_append]
  cases h : f a with
  | none => rw [List.filterMap_cons_none h, List.filterMap_nil, List.getLast?_nil]
  | some b => rw [List.filterMap_cons_some h, List.filterMap_nil, List.getLast?_singleton]

theorem key_builtRecord (calls : List RecordCall) :
    (builtRecord topic partition payload calls).key = lastKey calls := by
  induction calls using List.reverseRecOn with
  | nil => rfl
  | append_singleton calls call ih =>
    rw [builtRecord_snoc, lastKey, getLast?_filterMap_snoc]
    cases call with
    | withKey key => rfl
    | header name value => exact ih

theorem sorted_builtRecord (calls : List RecordCall) :
    Sorted (builtRecord topic partition payload calls).headers := by
  induction calls using List.reverseRecOn with
  | nil => exact List.Pairwise.nil
  | append_singleton calls call ih =>
    rw [builtRecord_snoc]
    cases call with
    | withKey key => exact ih
    | header name value => exact sorted_put name value ih

theorem lookup_builtRecord (calls : List RecordCall) (name : String) :
    (builtRecord topic partition payload calls).headers.lookup name = lastHeader calls name := by
  induction calls using List.reverseRecOn with
  | nil => rfl
  | append_singleton calls call ih =>
    rw [builtRecord_snoc, lastHeader, getLast?_filterMap_snoc]
    cases call with
    | withKey key => exact ih
    | header name' value =>
      show (put name' value _).lookup name = _
      rw [lookup_put, RecordCall.value?]
      by_cases hname : name = name'
      · rw [if_pos hname, if_pos hname]
        rfl
      · rw [if_neg hname, if_neg hname]
        exact ih

/-- **The last writes decide**: calls with the same last key and the same last value of every
header, in whatever order and however many, build the same record. -/
theorem builtRecord_last_writes (topic : String) (partition : I32) (payload : List UInt8)
    {calls calls' : List RecordCall} (hkey : lastKey calls = lastKey calls')
    (hheaders : ∀ name, lastHeader calls name = lastHeader calls' name) :
    builtRecord topic partition payload calls = builtRecord topic partition payload calls' := by
  have heq : (builtRecord topic partition payload calls).headers =
      (builtRecord topic partition payload calls').headers := by
    refine eq_of_lookup (sorted_builtRecord calls) (sorted_builtRecord calls') fun name => ?_
    rw [lookup_builtRecord, lookup_builtRecord, hheaders]
  have hkeys : (builtRecord topic partition payload calls).key =
      (builtRecord topic partition payload calls').key := by
    rw [key_builtRecord, key_builtRecord, hkey]
  obtain ⟨htopic, hpartition, hpayload⟩ :=
    @builtRecord_target topic partition payload calls
  obtain ⟨htopic', hpartition', hpayload'⟩ :=
    @builtRecord_target topic partition payload calls'
  cases hrecord : builtRecord topic partition payload calls
  cases hrecord' : builtRecord topic partition payload calls'
  rw [hrecord] at heq hkeys htopic hpartition hpayload
  rw [hrecord'] at heq hkeys htopic' hpartition' hpayload'
  rw [PublishRecord.mk.injEq]
  exact ⟨htopic.trans htopic'.symm, hpartition.trans hpartition'.symm,
    hpayload.trans hpayload'.symm, hkeys, heq⟩

/-! ### Routing by key -/

theorem partitionForKey_bounds (hash : List UInt8 → UInt64) (key : List UInt8) (partitions : I32) :
    0 ≤ (partitionForKey hash key partitions).val ∧
      (partitionForKey hash key partitions).val < max 1 partitions.val := by
  rw [partitionForKey]
  split
  · exact ⟨le_rfl, lt_of_lt_of_le (by decide) (le_max_left _ _)⟩
  · have hlt := Nat.mod_lt (hash key).toNat (show 0 < partitions.val.toNat by omega)
    dsimp only
    exact ⟨by omega, by omega⟩

/-- A record that is routed by its key passes the shape checks. -/
theorem checkShape_partitionForKey {topic : String} (htopic : trim topic.toList ≠ [])
    (hash : List UInt8 → UInt64) (key : List UInt8) (partitions : I32) :
    checkShape topic (partitionForKey hash key partitions) = .ok () := by
  have hempty : (trim topic.toList).isEmpty = false := List.isEmpty_eq_false_iff.mpr htopic
  rw [checkShape, hempty, if_neg Bool.false_ne_true,
    if_neg (not_lt.mpr (partitionForKey_bounds hash key partitions).1)]

/-! ### Locations -/

theorem topic_ne_empty {config : ConsumerConfig} (h : validateConsumerConfig config = .ok ()) :
    config.topic ≠ "" := by
  intro hempty
  rw [validateConsumerConfig, hempty] at h
  cases h

/-- Under the topics of consumers, an id names one location. -/
theorem location_of_busId {config config' : ConsumerConfig}
    (h : validateConsumerConfig config = .ok ()) (h' : validateConsumerConfig config' = .ok ())
    {offset offset' : I64} (hid : encodeBusId config.topic config.partition offset =
      encodeBusId config'.topic config'.partition offset') :
    config.topic = config'.topic ∧ config.partition = config'.partition ∧ offset = offset' := by
  have hparse := congrArg parseBusId hid
  rw [parseBusId_encodeBusId, parseBusId_encodeBusId, if_neg (topic_ne_empty h),
    if_neg (topic_ne_empty h')] at hparse
  have hlocation := Prod.mk.inj (Option.some.inj hparse)
  exact ⟨hlocation.1, Prod.mk.inj hlocation.2⟩

/-! ### The broker -/

/-- The records in the logs of the partitions, at their offsets. -/
abbrev BrokerLogs := Key → I64 → Option Record

/-- What the broker answers with an offset is in the log there. -/
def Acknowledges (logs : BrokerLogs) (input : PublishInput) : Prop :=
  ∀ offset, input.answer = .ready (.ok [offset]) →
    logs (input.call.record.topic, input.call.record.partition) offset =
      some (input.call.record.wire input.now)

/-- The stream has the records of a log from a position on, in their order and each of them. -/
structure ReadsLog (log : I64 → Option Record) (start : I64) (stream : ℕ → Option StreamItem) :
    Prop where
  record : ∀ k r, stream k = some (.ok r) → log r.1.offset = some r.1.record
  increasing : ∀ i j a b, i < j → stream i = some (.ok a) → stream j = some (.ok b) →
    a.1.offset < b.1.offset
  gapless : ∀ k r offset, stream k = some (.ok r) → start ≤ offset → offset ≤ r.1.offset →
    log offset ≠ none → ∃ j ≤ k, ∃ r', stream j = some (.ok r') ∧ r'.1.offset = offset

/-! ### From the publish to the consumer -/

variable {connected : Bool} {logs : BrokerLogs} {config : ConsumerConfig} {start : I64}
  {stream : ℕ → Option StreamItem} {s : Pipeline}

/-- A call that returned `Ok` has its record in the log, at the offset it returned. -/
theorem logged_of_ok {closed : Bool} {input : PublishInput} {p : Publishing} {delivery : Delivery}
    (h : CallInv connected closed input p) (hack : Acknowledges logs input)
    (hok : p.result? = some (.ok delivery)) :
    delivery.partition = input.call.record.partition ∧
      logs (input.call.record.topic, input.call.record.partition) delivery.offset =
        some (input.call.record.wire input.now) := by
  cases p with
  | finished made result =>
    rw [Option.some.inj hok] at h
    cases h with
    | delivered offset hanswer => exact ⟨rfl, hack offset hanswer⟩
  | _ => cases hok

namespace Pipeline

/-- A message is the record that the log has at its offset. -/
theorem PipelineInv.log_of_received (h : PipelineInv config stream s) {log : I64 → Option Record}
    (hstream : ReadsLog log start stream) {m : KafkaMessage} (hm : m ∈ s.received) :
    m.topic = config.topic ∧ m.partition = config.partition ∧
      ∃ record, log m.offset = some record ∧ m.payload = record.value ∧ m.key = record.key ∧
        m.headers = record.headers ∧ m.timestamp = some record.timestamp := by
  obtain ⟨k, hk⟩ := mem_received.mp hm
  obtain ⟨r, hr, houtput⟩ := h.record_of_delivered hk
  rw [← Except.ok.inj houtput]
  exact ⟨rfl, rfl, r.1.record, hstream.record k r hr, rfl, rfl, rfl, rfl⟩

/-- The consumer passes over no record from its start on. -/
theorem PipelineInv.not_passed_over (h : PipelineInv config stream s) {log : I64 → Option Record}
    (hstream : ReadsLog log start stream) {offset : I64} (hlog : log offset ≠ none)
    (hstart : start ≤ offset) {m : KafkaMessage} (hm : m ∈ s.received) (hle : offset ≤ m.offset) :
    ∃ m' ∈ s.received, m'.offset = offset := by
  obtain ⟨k, hk⟩ := mem_received.mp hm
  obtain ⟨r, hr, houtput⟩ := h.record_of_delivered hk
  rw [← Except.ok.inj houtput] at hle
  obtain ⟨j, hjk, r', hr', hoffset⟩ := hstream.gapless k r offset hr hstart hle hlog
  have hlt : j < (delivered s.answers).length :=
    lt_of_le_of_lt hjk (List.getElem?_eq_some_iff.mp hk).1
  have hj := List.getElem?_eq_getElem hlt
  obtain ⟨item, hitem, hresult⟩ := h.getElem?_delivered hj
  rw [hr'] at hitem
  rw [← hresult, ← Option.some.inj hitem] at hj
  exact ⟨_, mem_received.mpr ⟨j, hj⟩, hoffset⟩

end Pipeline

open Pipeline in
/-- **What is published is consumed.**  A publish returned `Ok`; its id is the `bus_id` of the
location it returned.  In every state of every run of the consumer of its partition, the messages
received so far are in the order of their offsets, and the one with the id is the record as it was
built.  If a message at or past the location was received, that one was received too, unless the
consumer started behind it.  A consumer of another partition receives no message with the id. -/
theorem published_is_consumed {ι : Type} [Fintype ι] [DecidableEq ι] {input : ι → PublishInput}
    {pool : PublishPool ι} {i : ι} {delivery : Delivery}
    (hlog : Acknowledges logs (input i)) (hconfig : validateConsumerConfig config = .ok ())
    (hstream : ReadsLog (logs (config.topic, config.partition)) start stream)
    (hpool : PublishPool.Reachable connected input pool) (hs : Reachable config stream s)
    (hok : (pool.call i).result? = some (.ok delivery))
    (htopic : (input i).call.record.topic = config.topic)
    (hpartition : delivery.partition = config.partition) :
    let record := (input i).call.record
    let id := encodeBusId record.topic delivery.partition delivery.offset
    Increasing s.received ∧
    (∀ m ∈ s.received, m.busId = id → m.payload = some record.payload ∧
      m.payloadBytes = record.payload ∧ m.key = record.key ∧
      m.timestamp = some (input i).now ∧ m.headers = record.headers ∧
      ∀ topic partition payload calls, record = builtRecord topic partition payload calls →
        ∀ name, m.header name = lastHeader calls name) ∧
    (start ≤ delivery.offset → (∃ m ∈ s.received, delivery.offset ≤ m.offset) →
      ∃ m ∈ s.received, m.busId = id) ∧
    ∀ config' stream' s', validateConsumerConfig config' = .ok () →
      Reachable config' stream' s' → (∃ m ∈ s'.received, m.busId = id) →
        config'.topic = config.topic ∧ config'.partition = config.partition := by
  intro record id
  have hinv := pipelineInv_of_reachable hs
  obtain ⟨hown, hlogged⟩ := logged_of_ok
    ((PublishPool.countInv_of_reachable hpool).calls i) hlog hok
  have hrecord : logs (config.topic, config.partition) delivery.offset =
      some (record.wire (input i).now) := by
    rw [← htopic, ← hpartition, hown]
    exact hlogged
  have hid : id = encodeBusId config.topic config.partition delivery.offset := by
    show encodeBusId record.topic _ _ = _
    rw [htopic, hpartition]
  refine ⟨hinv.increasing_received hstream.increasing, fun m hm hbus => ?_, fun hstart hlater => ?_,
    fun config' stream' s' hconfig' hs' hshared => ?_⟩
  · obtain ⟨hmtopic, hmpartition, logged, hat, hpayload, hkey, hheaders, htime⟩ :=
      hinv.log_of_received hstream hm
    rw [KafkaMessage.busId, hmtopic, hmpartition, hid] at hbus
    have hoffset := (location_of_busId hconfig hconfig hbus).2.2
    rw [hoffset, hrecord] at hat
    rw [← Option.some.inj hat] at hpayload hkey hheaders htime
    refine ⟨hpayload, ?_, hkey, htime, hheaders,
      fun topic partition payload calls hbuilt name => ?_⟩
    · rw [KafkaMessage.payloadBytes, hpayload]
      rfl
    · rw [KafkaMessage.header, hheaders]
      show record.headers.lookup name = _
      rw [hbuilt, lookup_builtRecord]
  · obtain ⟨m, hm, hle⟩ := hlater
    have hsome : logs (config.topic, config.partition) delivery.offset ≠ none := by
      rw [hrecord]
      exact Option.some_ne_none _
    obtain ⟨m', hm', hoffset⟩ := hinv.not_passed_over hstream hsome hstart hm hle
    obtain ⟨hmtopic, hmpartition, -⟩ := hinv.log_of_received hstream hm'
    refine ⟨m', hm', ?_⟩
    rw [KafkaMessage.busId, hmtopic, hmpartition, hoffset, hid]
  · obtain ⟨m, hm, hbus⟩ := hshared
    obtain ⟨k, hk⟩ := mem_received.mp hm
    obtain ⟨r, -, houtput⟩ := (pipelineInv_of_reachable hs').record_of_delivered hk
    rw [← Except.ok.inj houtput, hid] at hbus
    obtain ⟨heqtopic, heqpartition, -⟩ := location_of_busId hconfig' hconfig hbus
    exact ⟨heqtopic, heqpartition⟩

/-- The record of a publish to `orders`, as the broker keeps it. -/
def ordersRecord : Record := PublishPool.ordersInput.call.record.wire PublishPool.ordersInput.now

variable (recordOffset highWatermark : I64)

/-- The logs of a broker that has this record only. -/
def ordersLogs : BrokerLogs := fun key offset =>
  if key = ordersKey ∧ offset = recordOffset then some ordersRecord else none

/-- The stream of its partition. -/
def ordersStream : ℕ → Option StreamItem
  | 0 => some (.ok (⟨ordersRecord, recordOffset⟩, highWatermark))
  | _ => none

variable {recordOffset highWatermark}

theorem ordersStream_eq_some {k : ℕ} {item : StreamItem}
    (h : ordersStream recordOffset highWatermark k = some item) :
    k = 0 ∧ item = .ok (⟨ordersRecord, recordOffset⟩, highWatermark) := by
  cases k with
  | zero => exact ⟨rfl, (Option.some.inj h).symm⟩
  | succ k => cases h

theorem readsLog_ordersStream :
    ReadsLog (ordersLogs recordOffset ordersKey) recordOffset
      (ordersStream recordOffset highWatermark) where
  record k r h := by
    rw [Except.ok.inj (ordersStream_eq_some h).2]
    exact if_pos ⟨rfl, rfl⟩
  increasing i j a b hij ha hb := by
    rw [(ordersStream_eq_some ha).1, (ordersStream_eq_some hb).1] at hij
    exact absurd hij (lt_irrefl 0)
  gapless k r offset h _ _ hlog := by
    refine ⟨k, le_rfl, r, h, ?_⟩
    rw [Except.ok.inj (ordersStream_eq_some h).2]
    by_cases hoffset : offset = recordOffset
    · exact hoffset.symm
    · exact absurd (if_neg fun hboth => hoffset hboth.2) hlog

theorem acknowledges_ordersInput : Acknowledges (ordersLogs (.of 7)) PublishPool.ordersInput := by
  intro offset hanswer
  have hoffset : I64.of 7 = offset :=
    (List.cons.inj (Except.ok.inj (DriverAnswer.ready.inj hanswer))).1
  exact if_pos ⟨rfl, hoffset.symm⟩

/-- The consumer that starts at the record. -/
def ordersConfig (start : I64) : ConsumerConfig :=
  (ConsumerConfig.assign "orders" 0).withStartOffset start

open Pipeline in
/-- The record goes from the producer to the caller of `recv`. -/
theorem published_is_consumed_orders : ∃ s,
    Reachable (ordersConfig (.of 7)) (ordersStream (.of 7) (.of 8)) s ∧
      ∃ m ∈ s.received,
        m.busId = "orders/0/7" ∧ m.payload = some [] ∧ m.header "trace" = none := by
  have hnext : Step (ordersConfig (.of 7)) (ordersStream (.of 7) (.of 8)) connected _ :=
    .next _ rfl rfl
  have hsent := (ReflTransGen.single hnext).tail (.send _ rfl (by decide) rfl)
  have hcalled := hsent.tail (.recv rfl rfl)
  have hreceived := hcalled.tail (.receive _ (by decide) rfl)
  have hid : encodeBusId "orders" 0 (.of 7) = "orders/0/7" := by decide
  obtain ⟨-, hsame, hnot, -⟩ := @published_is_consumed true (ordersLogs (.of 7))
    (ordersConfig (.of 7)) (.of 7) (ordersStream (.of 7) (.of 8)) _ Unit _ _
    (fun _ => PublishPool.ordersInput) PublishPool.deliveredPool () ⟨0, .of 7⟩
    acknowledges_ordersInput (by decide) readsLog_ordersStream
    PublishPool.reachable_deliveredPool hreceived rfl rfl rfl
  obtain ⟨m, hm, hbus⟩ := hnot le_rfl ⟨_, List.mem_singleton.mpr rfl, le_rfl⟩
  obtain ⟨hpayload, -, -, -, -, hheaders⟩ := hsame m hm hbus
  exact ⟨_, hreceived, m, hm, hbus.trans hid, hpayload, hheaders "orders" 0 [] [] rfl "trace"⟩

end Kafkax
