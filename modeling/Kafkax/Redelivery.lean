import Kafkax.AtLeastOnce

/-!
# Redelivery across sessions

Sessions follow each other on one partition, each connected with the same configuration and the
same store, and ended anywhere.  A new session reads from the stored position if there is one, and
else from where the configuration says.  Between and during the sessions the log of the partition
grows.

At-least-once delivery needs the next session to start at or before every message that was
delivered and not committed (`Redelivers`).  An explicit offset and the beginning of the log do not
move, and a stored position only moves past committed messages; the end of the log moves whenever a
record is appended.  So the sessions redeliver if and only if they are `Anchored`: a configuration
that starts at the end of the log loses what was delivered before the first commit
(`redelivers_iff`).
-/

namespace Kafkax

open LineText BoundedIntegers MaxRegister

/-! ### The log -/

/-- The log of a partition: the offsets at which it begins and ends, and the records between. -/
structure PartitionLog (topic : String) (partition : I32) where
  first : I64
  next : I64
  records : List KafkaMessage
  own : ∀ m ∈ records, m.topic = topic ∧ m.partition = partition
  increasing : Increasing records
  bounds : ∀ m ∈ records, first ≤ m.offset ∧ m.offset < next

variable {topic : String} {partition : I32}

/-- The log has grown: records were appended. -/
structure PartitionLog.Grows (log log' : PartitionLog topic partition) : Prop where
  first_eq : log'.first = log.first
  next_le : log.next ≤ log'.next
  records : ∃ more, log'.records = log.records ++ more ∧ ∀ m ∈ more, log.next ≤ m.offset

theorem PartitionLog.Grows.refl (log : PartitionLog topic partition) : log.Grows log :=
  ⟨rfl, le_rfl, [], (List.append_nil _).symm, fun _ hm => absurd hm List.not_mem_nil⟩

theorem PartitionLog.Grows.subset {log log' : PartitionLog topic partition} (h : log.Grows log')
    {m : KafkaMessage} (hm : m ∈ log.records) : m ∈ log'.records := by
  obtain ⟨more, heq, -⟩ := h.records
  rw [heq]
  exact List.mem_append_left _ hm

/-- Where a stream begins that is opened on this log. -/
def PartitionLog.position (log : PartitionLog topic partition) : StartOffset → I64
  | .earliest => log.first
  | .latest => log.next
  | .at offset => offset

/-- The records from a position on. -/
def PartitionLog.from (log : PartitionLog topic partition) (position : I64) : List KafkaMessage :=
  log.records.filter fun m => position ≤ m.offset

theorem PartitionLog.mem_from {log : PartitionLog topic partition} {position : I64}
    {m : KafkaMessage} : m ∈ log.from position ↔ m ∈ log.records ∧ position ≤ m.offset := by
  rw [PartitionLog.from, List.mem_filter, decide_eq_true_iff]

/-! ### Sessions -/

/-- The position a session starts from: the stored one, or that of the configuration. -/
def startPosition (config : ConsumerConfig) (store : OffsetMap)
    (log : PartitionLog config.topic config.partition) : I64 :=
  match store.lookup (config.topic, config.partition) with
  | some next => next
  | none => log.position config.resolveStartOffset

/-- A session: the log when it connects and when it ends, the consumer it is given, and the calls
made before it ends.  Of `rskafka` it is assumed that a stream yields records of the log, in order
and without a gap, from the position its start offset has on the log at the time of connecting. -/
structure Session (config : ConsumerConfig) (log : PartitionLog config.topic config.partition)
    (store : OffsetMap) where
  connecting : PartitionLog config.topic config.partition
  ending : PartitionLog config.topic config.partition
  grows_connecting : log.Grows connecting
  grows_ending : connecting.Grows ending
  consumer : (config : ConsumerConfig) → KafkaResult (KafkaConsumer config.topic config.partition)
  reads : ∀ used inner, used.topic = config.topic → used.partition = config.partition →
    consumer used = .ok inner →
      messages inner.items <+: ending.from (connecting.position used.resolveStartOffset)
  opened : AtLeastOnceConsumer config.topic config.partition
  connected : .ok opened = AtLeastOnceConsumer.connect config store
    (.ok (store.lookup (config.topic, config.partition))) consumer
  calls : List SessionCall

namespace Session

variable {config : ConsumerConfig} {log : PartitionLog config.topic config.partition}
  {store : OffsetMap}

/-- The messages the session delivers. -/
def delivered (self : Session config log store) : List KafkaMessage :=
  self.opened.observed AtLeastOnceConsumer.freshBy self.calls

/-- The messages whose commit takes effect in the session. -/
def written (self : Session config log store) : List KafkaMessage :=
  self.opened.observed AtLeastOnceConsumer.writtenBy self.calls

/-- What the session leaves in the store. -/
def stored (self : Session config log store) : OffsetMap :=
  (self.opened.afterAll self.calls).store

end Session

/-- A run of sessions, with the messages delivered and those whose commit took effect. -/
inductive Run (config : ConsumerConfig) (log₀ : PartitionLog config.topic config.partition)
    (store₀ : OffsetMap) :
    (delivered written : List KafkaMessage) → PartitionLog config.topic config.partition →
      OffsetMap → Prop where
  | start : Run config log₀ store₀ [] [] log₀ store₀
  | session {delivered written : List KafkaMessage}
      {log : PartitionLog config.topic config.partition} {store : OffsetMap}
      (h : Run config log₀ store₀ delivered written log store) (s : Session config log store) :
      Run config log₀ store₀ (delivered ++ s.delivered) (written ++ s.written) s.ending s.stored

/-- What at-least-once delivery promises of the sessions of a configuration on a store: wherever a
run ends, a message that was delivered and whose commit did not take effect is not behind the
position of the next session, which delivers it again before any later one; and the stored position
has not passed it. -/
def Redelivers (config : ConsumerConfig) (store₀ : OffsetMap) : Prop :=
  ∀ log₀ delivered written log store, Run config log₀ store₀ delivered written log store →
    ∀ m ∈ delivered, m ∉ written →
      (∀ s : Session config log store, startPosition config store s.connecting ≤ m.offset ∧
        ∀ earlier m' later, s.delivered = earlier ++ m' :: later → m.offset < m'.offset →
          m ∈ earlier) ∧
      ∀ next, store.lookup (config.topic, config.partition) = some next → next ≤ m.offset

/-- The sessions start at a place that does not move with the end of the log. -/
def Anchored (config : ConsumerConfig) (store : OffsetMap) : Prop :=
  config.startOffset.isSome ∨ config.fromBeginning ∨
    (store.lookup (config.topic, config.partition)).isSome

/-! ### One session -/

/-- In a log the records before a given one are those with smaller offsets. -/
theorem Increasing.mem_before {ms earlier later : List KafkaMessage} {m m' : KafkaMessage}
    (h : Increasing ms) (hsplit : ms = earlier ++ m' :: later) (hm : m ∈ ms)
    (hlt : m.offset < m'.offset) : m ∈ earlier := by
  rw [hsplit] at h hm
  obtain ⟨-, hlater, -⟩ := List.pairwise_append.mp h
  rcases List.mem_append.mp hm with hm | hm
  · exact hm
  · rcases List.mem_cons.mp hm with rfl | hm
    · exact absurd hlt (lt_irrefl _)
    · exact absurd ((List.pairwise_cons.mp hlater).1 m hm) hlt.asymm

namespace Session

variable {config : ConsumerConfig} {log : PartitionLog config.topic config.partition}
  {store : OffsetMap} (s : Session config log store)

/-- A session starts on a consumer that reads from the start position. -/
theorem opened_eq : ∃ inner : KafkaConsumer config.topic config.partition,
    s.opened = .opened inner store ∧
      messages inner.items <+: s.ending.from (startPosition config store s.connecting) := by
  obtain ⟨inner, hopened, hnone, hsome⟩ := AtLeastOnceConsumer.connect_eq_ok s.connected.symm
  refine ⟨inner, hopened, ?_⟩
  rw [startPosition]
  cases hstored : store.lookup (config.topic, config.partition) with
  | none => exact s.reads config inner rfl rfl (hnone hstored)
  | some next =>
    exact s.reads { config with startOffset := some next, fromBeginning := false } inner rfl rfl
      (hsome next hstored)

/-- The invariant of the session, read against the log: what it delivers is what the log has from
the start position on, as far as it went. -/
theorem sessionInvariant : SessionInvariant s.opened (s.opened.afterAll s.calls) s.delivered
    (s.opened.observed AtLeastOnceConsumer.ackedBy s.calls) s.written
    (s.opened.observed AtLeastOnceConsumer.confirmedBy s.calls) ∧
    s.opened.store = store ∧
    s.delivered <+: s.ending.from (startPosition config store s.connecting) := by
  obtain ⟨inner, hopened, hreads⟩ := s.opened_eq
  have h := Kafkax.sessionInvariant inner store s.calls
  rw [← hopened] at h
  refine ⟨h, by rw [hopened]; rfl, ?_⟩
  obtain ⟨items, hsplit, hhanded⟩ := h.taken
  have hpref : s.delivered <+: messages s.opened.inner.items := by
    rw [hsplit, messages_append]
    exact ⟨_, congrArg (· ++ _) hhanded⟩
  rw [hopened] at hpref
  exact hpref.trans hreads

/-- A later message is only delivered after every earlier one from the start position on. -/
theorem delivered_before {earlier later : List KafkaMessage} {m m' : KafkaMessage}
    (hm : m ∈ s.ending.from (startPosition config store s.connecting))
    (hsplit : s.delivered = earlier ++ m' :: later) (hlt : m.offset < m'.offset) :
    m ∈ earlier := by
  obtain ⟨rest, hrest⟩ := s.sessionInvariant.2.2
  rw [hsplit, List.append_assoc, List.cons_append] at hrest
  have hincreasing : Increasing (s.ending.from (startPosition config store s.connecting)) :=
    s.ending.increasing.filter _
  exact hincreasing.mem_before hrest.symm hm hlt

/-- A commit that takes effect is for a message before every other one from the start position on
whose commit does not. -/
theorem written_lt {m m' : KafkaMessage}
    (hm : m ∈ s.ending.from (startPosition config store s.connecting)) (hopen : m ∉ s.written)
    (hm' : m' ∈ s.written) : m'.offset < m.offset := by
  obtain ⟨h, -, hpref⟩ := s.sessionInvariant
  by_contra hle
  have hdelivered' : m' ∈ s.delivered := h.acked_handed m' (h.written_acked m' hm')
  have hincreasing : Increasing (s.ending.from (startPosition config store s.connecting)) :=
    s.ending.increasing.filter _
  rcases (not_lt.mp hle).eq_or_lt with heq | hlt
  · have hsame := hincreasing.eq_of_offset_eq hm (hpref.subset hdelivered') heq
    exact hopen (hsame ▸ hm')
  · obtain ⟨earlier, later, hsplit⟩ := List.append_of_mem hdelivered'
    have hdelivered : m ∈ s.delivered := by
      rw [hsplit]
      exact List.mem_append_left _ (s.delivered_before hm hsplit hlt)
    exact hle (h.lt_of_not_written hdelivered hopen hm')

end Session

/-! ### Runs -/

section

variable {config : ConsumerConfig} {log : PartitionLog config.topic config.partition}
  {store : OffsetMap}

/-- An anchored start position does not move when the log grows. -/
theorem startPosition_of_grows (h : Anchored config store)
    {log' : PartitionLog config.topic config.partition} (hgrows : log.Grows log') :
    startPosition config store log' = startPosition config store log := by
  rw [startPosition, startPosition]
  cases hstored : store.lookup (config.topic, config.partition) with
  | some next => rfl
  | none =>
    rw [Anchored, hstored] at h
    simp only [ConsumerConfig.resolveStartOffset]
    cases hstart : config.startOffset with
    | some offset => rfl
    | none =>
      rw [hstart] at h
      rcases h with h | h | h
      · exact absurd h (by simp)
      · rw [if_pos h]
        exact hgrows.first_eq
      · exact absurd h (by simp)

/-- The start position depends on the store by the stored position only. -/
theorem startPosition_congr {store' : OffsetMap}
    (h : store'.lookup (config.topic, config.partition) =
      store.lookup (config.topic, config.partition)) :
    startPosition config store' log = startPosition config store log := by
  rw [startPosition, startPosition, h]

theorem startPosition_of_some {next : I64}
    (h : store.lookup (config.topic, config.partition) = some next) :
    startPosition config store log = next := by
  rw [startPosition, h]

/-- A session leaves an anchored store anchored. -/
theorem anchored_stored (h : Anchored config store) (s : Session config log store) :
    Anchored config s.stored := by
  obtain ⟨hinv, hstore, -⟩ := s.sessionInvariant
  have hle := hinv.isPeak.init_le
  rw [hstore] at hle
  refine h.imp_right (Or.imp_right fun hsome => ?_)
  obtain ⟨next, hnext⟩ := Option.isSome_iff_exists.mp hsome
  rw [hnext] at hle
  cases hafter : s.stored.lookup (config.topic, config.partition) with
  | none =>
    rw [show (s.opened.afterAll s.calls).store.lookup (config.topic, config.partition) = none
      from hafter] at hle
    exact absurd hle Option.not_some_le_none
  | some _ => rfl

/-- The position does not pass an open message. -/
structure RunInvariant (config : ConsumerConfig) (delivered written : List KafkaMessage)
    (log : PartitionLog config.topic config.partition) (store : OffsetMap) : Prop where
  anchored : Anchored config store
  logged : ∀ m ∈ delivered, m ∈ log.records
  open_after : ∀ m ∈ delivered, m ∉ written → startPosition config store log ≤ m.offset

/-- A message that the position has not passed is read by the next session. -/
theorem mem_from_of_open (h : Anchored config store) (s : Session config log store)
    {m : KafkaMessage} (hm : m ∈ log.records) (hle : startPosition config store log ≤ m.offset) :
    m ∈ s.ending.from (startPosition config store s.connecting) := by
  refine PartitionLog.mem_from.mpr ⟨s.grows_ending.subset (s.grows_connecting.subset hm), ?_⟩
  rw [startPosition_of_grows h s.grows_connecting]
  exact hle

/-- **A session** keeps the position from passing an open message. -/
theorem RunInvariant.session {delivered written : List KafkaMessage}
    (h : RunInvariant config delivered written log store) (s : Session config log store) :
    RunInvariant config (delivered ++ s.delivered) (written ++ s.written) s.ending s.stored := by
  obtain ⟨hinv, hstore, hpref⟩ := s.sessionInvariant
  have hreads : ∀ m ∈ delivered ++ s.delivered, m ∉ written ++ s.written →
      m ∈ s.ending.from (startPosition config store s.connecting) := by
    intro m hm hopen
    rcases List.mem_append.mp hm with hm | hm
    · exact mem_from_of_open h.anchored s (h.logged m hm)
        (h.open_after m hm fun hw => hopen (List.mem_append_left _ hw))
    · exact hpref.subset hm
  refine ⟨anchored_stored h.anchored s, fun m hm => ?_, fun m hm hopen => ?_⟩
  · rcases List.mem_append.mp hm with hm | hm
    · exact s.grows_ending.subset (s.grows_connecting.subset (h.logged m hm))
    · exact (PartitionLog.mem_from.mp (hpref.subset hm)).1
  · have hread := hreads m hm hopen
    have hstart : startPosition config store s.connecting ≤ m.offset :=
      (PartitionLog.mem_from.mp hread).2
    have hposition : s.stored.lookup (config.topic, config.partition) =
          store.lookup (config.topic, config.partition) ∨
        s.stored.lookup (config.topic, config.partition) ≤ some m.offset := by
      have hlast := hinv.position_le fun m' hm' =>
        s.written_lt hread (fun hw => hopen (List.mem_append_right _ hw)) hm'
      rw [hstore] at hlast
      exact hlast
    rcases hposition with hsame | hle
    · rw [startPosition_congr hsame, startPosition_of_grows h.anchored s.grows_ending]
      exact hstart
    · cases hnext : s.stored.lookup (config.topic, config.partition) with
      | some next =>
        rw [startPosition_of_some hnext]
        rw [hnext] at hle
        exact Option.some_le_some.mp hle
      | none =>
        -- nothing is stored, so nothing was
        have hsame : s.stored.lookup (config.topic, config.partition) =
            store.lookup (config.topic, config.partition) := by
          have hinit := hinv.isPeak.init_le
          rw [hstore, show (s.opened.afterAll s.calls).store.lookup
            (config.topic, config.partition) = none from hnext] at hinit
          rw [hnext]
          cases hbefore : store.lookup (config.topic, config.partition) with
          | none => rfl
          | some old =>
            rw [hbefore] at hinit
            exact absurd hinit Option.not_some_le_none
        rw [startPosition_congr hsame, startPosition_of_grows h.anchored s.grows_ending]
        exact hstart

/-- **A run** keeps the position from passing an open message. -/
theorem runInvariant {log₀ : PartitionLog config.topic config.partition} {store₀ : OffsetMap}
    (h : Anchored config store₀) {delivered written : List KafkaMessage}
    (hrun : Run config log₀ store₀ delivered written log store) :
    RunInvariant config delivered written log store := by
  induction hrun with
  | start =>
    exact ⟨h, fun _ hm => absurd hm List.not_mem_nil, fun _ hm => absurd hm List.not_mem_nil⟩
  | session hrun s ih => exact ih.session s

/-- Anchored sessions redeliver. -/
theorem redelivers_of_anchored {store₀ : OffsetMap} (h : Anchored config store₀) :
    Redelivers config store₀ := by
  intro log₀ delivered written log store hrun m hm hopen
  have hinv := runInvariant h hrun
  have hle := hinv.open_after m hm hopen
  refine ⟨fun s => ⟨?_, fun earlier m' later hsplit hlt => ?_⟩, fun next hnext => ?_⟩
  · rw [startPosition_of_grows hinv.anchored s.grows_connecting]
    exact hle
  · exact s.delivered_before (mem_from_of_open hinv.anchored s (hinv.logged m hm) hle) hsplit hlt
  · rw [startPosition_of_some hnext] at hle
    exact hle

end

/-! ### Sessions that start at the end of the log -/

/-- The configurations that `connect` accepts. -/
def Accepted (config : ConsumerConfig) : Prop :=
  (trim config.topic.toList).isEmpty = false ∧ 0 ≤ config.partition.val

/-- The record with offset 0. -/
def firstRecord (topic : String) (partition : I32) : KafkaMessage :=
  ⟨topic, partition, .of 0, none, none, [], none⟩

/-- The empty log. -/
def emptyLog (topic : String) (partition : I32) : PartitionLog topic partition where
  first := .of 0
  next := .of 0
  records := []
  own _ hm := absurd hm List.not_mem_nil
  increasing := List.Pairwise.nil
  bounds _ hm := absurd hm List.not_mem_nil

/-- The log with one record. -/
def oneRecordLog (topic : String) (partition : I32) : PartitionLog topic partition where
  first := .of 0
  next := .of 1
  records := [firstRecord topic partition]
  own m hm := by
    rw [List.mem_singleton.mp hm]
    exact ⟨rfl, rfl⟩
  increasing := List.pairwise_singleton _ _
  bounds m hm := by
    rw [List.mem_singleton.mp hm]
    exact ⟨le_refl (I64.of 0), show I64.of 0 < .of 1 by decide⟩

theorem emptyLog_grows (topic : String) (partition : I32) :
    (emptyLog topic partition).Grows (oneRecordLog topic partition) := by
  refine ⟨rfl, show I64.of 0 ≤ .of 1 by decide, [firstRecord topic partition], rfl, ?_⟩
  intro m hm
  rw [List.mem_singleton.mp hm]
  exact le_refl (I64.of 0)

/-- A consumer that yields the record. -/
def oneRecordConsumer (topic : String) (partition : I32) : KafkaConsumer topic partition where
  items := [.message (firstRecord topic partition)]
  own := (oneRecordLog topic partition).own
  increasing := (oneRecordLog topic partition).increasing

/-- A consumer that yields nothing. -/
def emptyConsumer (topic : String) (partition : I32) : KafkaConsumer topic partition where
  items := []
  own _ hm := absurd hm List.not_mem_nil
  increasing := List.Pairwise.nil

/-- The pool that serves one configuration only. -/
def serve (config : ConsumerConfig)
    (inner : (topic : String) → (partition : I32) → KafkaConsumer topic partition)
    (used : ConsumerConfig) : KafkaResult (KafkaConsumer used.topic used.partition) :=
  if used = config then .ok (inner used.topic used.partition) else .error (.closed "连接池已关闭")

section

variable {config : ConsumerConfig} {store : OffsetMap}

/-- Without a stored position, a session is opened on the consumer of the configuration. -/
theorem connect_of_none (haccepted : Accepted config)
    (hnone : store.lookup (config.topic, config.partition) = none)
    (inner : (topic : String) → (partition : I32) → KafkaConsumer topic partition) :
    AtLeastOnceConsumer.connect config store
        (.ok (store.lookup (config.topic, config.partition))) (serve config inner) =
      .ok (.opened (inner config.topic config.partition) store) := by
  have htopic : ¬ (trim config.topic.toList).isEmpty = true := by
    rw [haccepted.1]
    exact Bool.false_ne_true
  rw [hnone, AtLeastOnceConsumer.connect, if_neg htopic, if_neg haccepted.2.not_gt]
  show (serve config inner config >>= fun inner =>
    Except.ok (AtLeastOnceConsumer.opened inner store)) = _
  rw [serve, if_pos rfl]
  rfl

/-- The session that starts at the end of the empty log, delivers the record appended to it, and
ends. -/
def losingSession (haccepted : Accepted config)
    (hnone : store.lookup (config.topic, config.partition) = none)
    (hlatest : config.resolveStartOffset = .latest) :
    Session config (emptyLog config.topic config.partition) store where
  connecting := emptyLog config.topic config.partition
  ending := oneRecordLog config.topic config.partition
  grows_connecting := .refl _
  grows_ending := emptyLog_grows _ _
  consumer := serve config oneRecordConsumer
  reads used inner _ _ hinner := by
    rw [serve] at hinner
    by_cases hused : used = config
    · subst hused
      rw [if_pos rfl] at hinner
      rw [← Except.ok.inj hinner, hlatest]
      exact List.prefix_rfl
    · rw [if_neg hused] at hinner
      exact absurd hinner (by simp)
  opened := .opened (oneRecordConsumer config.topic config.partition) store
  connected := (connect_of_none haccepted hnone oneRecordConsumer).symm
  calls := [.recv]

/-- A session on any log that yields nothing. -/
def quietSession (haccepted : Accepted config)
    (hnone : store.lookup (config.topic, config.partition) = none)
    (log : PartitionLog config.topic config.partition) : Session config log store where
  connecting := log
  ending := log
  grows_connecting := .refl _
  grows_ending := .refl _
  consumer := serve config emptyConsumer
  reads used inner _ _ hinner := by
    rw [serve] at hinner
    by_cases hused : used = config
    · rw [if_pos hused] at hinner
      rw [← Except.ok.inj hinner]
      exact List.nil_prefix
    · rw [if_neg hused] at hinner
      exact absurd hinner (by simp)
  opened := .opened (emptyConsumer config.topic config.partition) store
  connected := (connect_of_none haccepted hnone emptyConsumer).symm
  calls := []

/-- Sessions that are not anchored lose the record. -/
theorem anchored_of_redelivers (haccepted : Accepted config) (h : Redelivers config store) :
    Anchored config store := by
  by_contra hnot
  have hnone : store.lookup (config.topic, config.partition) = none := by
    cases hstored : store.lookup (config.topic, config.partition) with
    | none => rfl
    | some next => exact absurd (Or.inr (Or.inr (by rw [hstored]; rfl))) hnot
  have hlatest : config.resolveStartOffset = .latest := by
    rw [ConsumerConfig.resolveStartOffset]
    cases hstart : config.startOffset with
    | some offset => exact absurd (Or.inl (by rw [hstart]; rfl)) hnot
    | none => exact if_neg fun hbeginning => hnot (Or.inr (Or.inl hbeginning))
  obtain ⟨s, hs⟩ : ∃ s, losingSession haccepted hnone hlatest = s := ⟨_, rfl⟩
  have hdelivered : firstRecord config.topic config.partition ∈ [] ++ s.delivered := by
    rw [← hs]
    exact List.mem_singleton.mpr rfl
  have hwritten : firstRecord config.topic config.partition ∉ [] ++ s.written := by
    rw [← hs]
    exact List.not_mem_nil
  have hstored : s.stored = store := by
    rw [← hs]
    rfl
  have hpromise := h _ _ _ _ _ (Run.start.session s) _ hdelivered hwritten
  rw [hstored] at hpromise
  have hle := (hpromise.1 (quietSession haccepted hnone _)).1
  rw [startPosition, hnone, hlatest, ← hs] at hle
  exact absurd hle (show ¬ I64.of 1 ≤ .of 0 by decide)

/-- **When sessions redeliver.**  For a configuration that `connect` accepts and any first content
of the store: in every run of sessions on every log, every message that is delivered and not
committed is delivered again, if and only if the configuration has a start offset or starts at the
beginning, or the store has a position. -/
theorem redelivers_iff (haccepted : Accepted config) :
    Redelivers config store ↔ Anchored config store :=
  ⟨anchored_of_redelivers haccepted, redelivers_of_anchored⟩

end

theorem redelivers_iff_subscribe : Redelivers (.subscribe "orders") ∅ ↔
    Anchored (.subscribe "orders") ∅ :=
  redelivers_iff ⟨by decide, by decide⟩

/-- Starting at the end of the log with nothing stored loses a message. -/
theorem latest_not_redelivers :
    Accepted ⟨"orders", .of 0, false, none⟩ ∧ ¬ Redelivers ⟨"orders", .of 0, false, none⟩ ∅ := by
  have haccepted : Accepted ⟨"orders", .of 0, false, none⟩ := ⟨by decide, by decide⟩
  refine ⟨haccepted, fun h => ?_⟩
  rcases anchored_of_redelivers haccepted h with hstart | hbeginning | hstored
  · exact absurd hstart (by decide)
  · exact absurd hbeginning (by decide)
  · exact absurd hstored (by decide)

end Kafkax
