import Kafkax.AtLeastOnce
import Kafkax.PublishConsume

/-!
# At-least-once over the background task

An `AtLeastOnceConsumer` on a live `KafkaConsumer`: the background task, the queue, the closes of
the pool and the calls of the session run side by side.  A `recv` of the session returns the
pending message at once, or else goes to the queue, where it waits, and where its future may be
dropped.  The answer of the queue is what `AtLeastOnceConsumer::recv` works on: it runs on an inner
consumer that yields this answer.

`LiveInv` is the invariant of all runs: the messages that the session handed out are those that the
queue answered, and the session is one of those of `SessionInvariant`.  `live_at_least_once` reads
off it what the stored position says of the log of the partition: every record between the position
the session started at and the stored position was handed out and acknowledged.
-/

namespace Kafkax

open BoundedIntegers LineText MaxRegister Relation

/-! ### The inner consumer -/

/-- The call that an answer answers. -/
def Answer.sessionCall : Answer → SessionCall
  | .recv _ => .recv
  | .recvTimeout _ => .recvTimeout

variable {topic : String} {partition : I32}

/-- The message of an item is one of the partition. -/
def Item.Own (topic : String) (partition : I32) (item : Item) : Prop :=
  ∀ m, item.message? = some m → m.topic = topic ∧ m.partition = partition

theorem own_nil (topic : String) (partition : I32) :
    ∀ m ∈ messages [], m.topic = topic ∧ m.partition = partition :=
  fun _ hm => absurd hm List.not_mem_nil

theorem increasing_nil : Increasing (messages []) := List.Pairwise.nil

namespace KafkaConsumer

/-- A consumer that yields nothing more. -/
def nothing : KafkaConsumer topic partition := ⟨[], own_nil topic partition, increasing_nil⟩

/-- A consumer that yields one more item. -/
def yields (item : Item) (h : item.Own topic partition) : KafkaConsumer topic partition where
  items := [item]
  own m hm := by
    obtain ⟨item', hitem', hmessage⟩ := List.mem_filterMap.mp hm
    rw [List.mem_singleton.mp hitem'] at hmessage
    exact h m hmessage
  increasing := by
    have hlength : (messages [item]).length ≤ 1 := List.length_filterMap_le _ _
    cases hmessages : messages [item] with
    | nil => exact List.Pairwise.nil
    | cons m rest =>
      rw [hmessages, List.length_cons] at hlength
      rw [List.length_eq_zero_iff.mp (by omega : rest.length = 0)]
      exact List.pairwise_singleton _ _

end KafkaConsumer

/-! ### The session and the task -/

/-- An `AtLeastOnceConsumer` on a live consumer, with what its calls have made of the messages. -/
structure LiveSession (topic : String) (partition : I32) where
  pipe : Pipeline
  session : AtLeastOnceConsumer topic partition
  handed : List KafkaMessage
  acked : List KafkaMessage
  written : List KafkaMessage
  confirmed : List KafkaMessage

namespace LiveSession

/-- The state after `connect`. -/
def connected (store : OffsetMap) : LiveSession topic partition :=
  ⟨.connected, .opened .nothing store, [], [], [], []⟩

/-- The state after a call of the session. -/
def after (s : LiveSession topic partition) (session : AtLeastOnceConsumer topic partition)
    (call : SessionCall) (pipe : Pipeline) : LiveSession topic partition where
  pipe := pipe
  session := session.after call
  handed := s.handed ++ (session.freshBy call).toList
  acked := s.acked ++ (session.ackedBy call).toList
  written := s.written ++ (session.writtenBy call).toList
  confirmed := s.confirmed ++ (session.confirmedBy call).toList

/-- `ensure_active` passes and nothing is pending: a `recv` goes to the queue. -/
def Asks (s : LiveSession topic partition) : Prop :=
  s.session.terminated = false ∧ s.session.pending = none

/-- The call does not go to the queue. -/
def Local (s : LiveSession topic partition) : SessionCall → Prop
  | .recv | .recvTimeout => ¬ s.Asks
  | _ => True

/-- One step of one party. -/
inductive Step (config : ConsumerConfig) (stream : ℕ → Option StreamItem)
    (s : LiveSession config.topic config.partition) :
    LiveSession config.topic config.partition → Prop where
  /-- A step of the task or of a `close`, or of a call that goes to the queue, waits there or is
  given up. -/
  | pipe (p : Pipeline) (hstep : Pipeline.Step config stream s.pipe p)
      (hanswers : p.answers = s.pipe.answers)
      (hasks : s.pipe.call = .idle → p.call ≠ .idle → s.Asks) :
      Step config stream s { s with pipe := p }
  /-- A call that goes to the queue, or waits there, is answered. -/
  | answer (p : Pipeline) (answer : Answer) (hstep : Pipeline.Step config stream s.pipe p)
      (hanswers : p.answers = s.pipe.answers ++ [answer]) (hasks : s.pipe.call = .idle → s.Asks)
      (hown : answer.toItem.Own config.topic config.partition) :
      Step config stream s
        (s.after { s.session with inner := .yields answer.toItem hown } answer.sessionCall p)
  /-- Any other call; an `ack` whose future is dropped has one of the outcomes that leave its
  message pending. -/
  | own (call : SessionCall) (hidle : s.pipe.call = .idle) (hreceiver : s.pipe.dropped = false)
      (hlocal : s.Local call) :
      Step config stream s (s.after s.session call s.pipe)

/-- The states of the runs of a new session. -/
def Reachable (config : ConsumerConfig) (stream : ℕ → Option StreamItem) (store : OffsetMap)
    (s : LiveSession config.topic config.partition) : Prop :=
  ReflTransGen (Step config stream) (connected store) s

end LiveSession

/-! ### One step -/

section

variable {config : ConsumerConfig} {stream : ℕ → Option StreamItem}

/-- An answer ends the call. -/
theorem Pipeline.Step.idle_of_answer {s p : Pipeline} (hstep : Pipeline.Step config stream s p)
    {answer : Answer} (hanswers : p.answers = s.answers ++ [answer]) : p.call = .idle := by
  have hsame : p.answers ≠ s.answers := by
    intro hsame
    rw [hsame] at hanswers
    exact absurd (List.self_eq_append_right.mp hanswers) (List.cons_ne_nil _ _)
  cases hstep with
  | recv hidle hreceiver =>
    split
    · exact hidle
    · next hopen =>
      rw [if_neg hopen] at hsame
      exact absurd rfl hsame
  | recvTimeout hidle hreceiver =>
    split
    · exact hidle
    · next hopen =>
      rw [if_neg hopen] at hsame
      exact absurd rfl hsame
  | receive result hcall hfront => rfl
  | receiveEnd hcall hempty htask => rfl
  | timeout hcall => rfl
  | dropCall => rfl
  | _ => exact absurd rfl hsame

/-- Every answer of a consumer can be taken by the session. -/
theorem Pipeline.PipelineInv.own_of_mem {s : Pipeline} (h : PipelineInv config stream s)
    {answer : Answer} (hanswer : answer ∈ s.answers) :
    answer.toItem.Own config.topic config.partition := by
  intro m hm
  have hreceived : m ∈ s.received := by
    rw [Pipeline.received, ← messages_toItem]
    exact List.mem_filterMap.mpr ⟨_, List.mem_map_of_mem hanswer, hm⟩
  exact h.own_received hreceived

end

namespace AtLeastOnceConsumer

theorem recv_items (inner : KafkaConsumer topic partition) (store : OffsetMap) :
    (recv ⟨inner, store, none, false⟩).2.inner.items = (nextItem inner.items).2 := by
  rw [recv, ensureActive, KafkaConsumer.recv]
  cases (nextItem inner.items).1 with
  | none => rfl
  | some result => cases result <;> rfl

theorem recvTimeout_items (inner : KafkaConsumer topic partition) (store : OffsetMap) :
    (recvTimeout ⟨inner, store, none, false⟩).2.inner.items = (nextItemTimeout inner.items).2 := by
  rw [recvTimeout, ensureActive, KafkaConsumer.recvTimeout]
  cases (nextItemTimeout inner.items).1 with
  | error e => rfl
  | ok message => cases message <;> rfl

/-- A call that goes to the queue takes the item that it yields. -/
theorem after_yields {c : AtLeastOnceConsumer topic partition} (hactive : c.terminated = false)
    (hpending : c.pending = none) (answer : Answer) (hown : answer.toItem.Own topic partition) :
    (({ c with inner := .yields answer.toItem hown } : AtLeastOnceConsumer topic partition).after
      answer.sessionCall).inner.items = [] := by
  obtain ⟨inner, store, pending, terminated⟩ := c
  dsimp only at hactive hpending
  subst hactive hpending
  cases answer with
  | recv result =>
    refine (recv_items _ store).trans ?_
    cases result with
    | none => rfl
    | some result => cases result <;> rfl
  | recvTimeout result =>
    refine (recvTimeout_items _ store).trans ?_
    show (nextItemTimeout [Answer.toItem (.recvTimeout result)]).2 = []
    cases Answer.toItem (.recvTimeout result) <;> rfl

/-- Where nothing is left to take, nothing is left after a call. -/
theorem after_drained {c : AtLeastOnceConsumer topic partition} (h : c.inner.items = [])
    (call : SessionCall) : (c.after call).inner.items = [] := by
  have heffect := c.effect call
  generalize c.after call = next at heffect ⊢
  generalize c.freshBy call = fresh at heffect
  generalize c.ackedBy call = ackOn at heffect
  generalize c.writtenBy call = writeOn at heffect
  generalize c.confirmedBy call = confirmOn at heffect
  cases heffect with
  | quiet inner taken hsplit htaken hkept =>
    rw [h] at hsplit
    exact (List.append_eq_nil_iff.mp hsplit.symm).2
  | fetched inner taken m hsplit htaken hpending hactive =>
    rw [h] at hsplit
    exact (List.append_eq_nil_iff.mp hsplit.symm).2
  | acked m outcome hpending hactive => exact h
  | dropped => exact h

end AtLeastOnceConsumer

/-! ### All runs -/

/-- The queue has answered one more item, which the session is about to take. -/
theorem SessionInvariant.answered {inner inner' : KafkaConsumer topic partition}
    {store : OffsetMap} {c : AtLeastOnceConsumer topic partition}
    {handed acked written confirmed : List KafkaMessage}
    (h : SessionInvariant (.opened inner store) c handed acked written confirmed)
    (hdrained : c.inner.items = []) {item : Item} (hitems : inner'.items = inner.items ++ [item])
    (hown : item.Own topic partition) :
    SessionInvariant (.opened inner' store) { c with inner := .yields item hown } handed acked
      written confirmed := by
  obtain ⟨items, htaken, hhanded⟩ := h.taken
  rw [hdrained, List.append_nil] at htaken
  refine ⟨⟨items, ?_, hhanded⟩, h.last, h.acked_handed, h.written_acked, h.written_ok,
    h.confirmed_written, h.stored, h.elsewhere⟩
  rw [← htaken]
  exact hitems

namespace LiveSession

variable {config : ConsumerConfig} {stream : ℕ → Option StreamItem} {store : OffsetMap}
  {s s' : LiveSession config.topic config.partition}

/-- The invariant of all runs. -/
structure LiveInv (config : ConsumerConfig) (stream : ℕ → Option StreamItem) (store : OffsetMap)
    (s : LiveSession config.topic config.partition) : Prop where
  pipe : Pipeline.Reachable config stream s.pipe
  waits : s.pipe.call ≠ .idle → s.Asks
  drained : s.session.inner.items = []
  /-- The messages taken are those of all answers. -/
  session : ∀ inner : KafkaConsumer config.topic config.partition,
    inner.items = s.pipe.answers.map Answer.toItem →
      SessionInvariant (.opened inner store) s.session s.handed s.acked s.written s.confirmed

theorem liveInv_connected : LiveInv config stream store (connected store) where
  pipe := .refl
  waits h := absurd rfl h
  drained := rfl
  session inner hitems := by
    have hnothing := sessionInvariant_opened inner store
    refine ⟨⟨[], hitems, rfl⟩, hnothing.last, hnothing.acked_handed, hnothing.written_acked,
      hnothing.written_ok, hnothing.confirmed_written, hnothing.stored, hnothing.elsewhere⟩

/-- **One step** keeps the invariant. -/
theorem LiveInv.step (h : LiveInv config stream store s)
    (hincreasing : ∀ i j a b, i < j → stream i = some (.ok a) → stream j = some (.ok b) →
      a.1.offset < b.1.offset)
    (hstep : Step config stream s s') : LiveInv config stream store s' := by
  cases hstep with
  | pipe p hstep hanswers hasks =>
    refine ⟨h.pipe.tail hstep, fun hcall => ?_, h.drained, fun inner hitems => ?_⟩
    · by_cases hidle : s.pipe.call = .idle
      · exact hasks hidle hcall
      · exact h.waits hidle
    · dsimp only at hitems
      rw [hanswers] at hitems
      exact h.session inner hitems
  | answer p answer hstep hanswers hasks hown =>
    have hask : s.Asks := by
      by_cases hidle : s.pipe.call = .idle
      · exact hasks hidle
      · exact h.waits hidle
    refine ⟨h.pipe.tail hstep, fun hcall => absurd (hstep.idle_of_answer hanswers) hcall,
      AtLeastOnceConsumer.after_yields hask.1 hask.2 answer hown, fun inner' hitems' => ?_⟩
    obtain ⟨inner, hitems⟩ :=
      (Pipeline.pipelineInv_of_reachable h.pipe).exists_consumer hincreasing
    have hmore : inner'.items = inner.items ++ [answer.toItem] := by
      refine hitems'.trans ?_
      show p.answers.map Answer.toItem = _
      rw [hanswers, List.map_append, hitems]
      rfl
    exact ((h.session inner hitems).answered h.drained hmore hown).step
      (AtLeastOnceConsumer.effect _ answer.sessionCall)
  | own call hidle hreceiver hlocal =>
    refine ⟨h.pipe, fun hcall => absurd hidle hcall,
      AtLeastOnceConsumer.after_drained h.drained call, fun inner hitems => ?_⟩
    exact (h.session inner hitems).step (s.session.effect call)

theorem liveInv_of_reachable
    (hincreasing : ∀ i j a b, i < j → stream i = some (.ok a) → stream j = some (.ok b) →
      a.1.offset < b.1.offset)
    (h : Reachable config stream store s) : LiveInv config stream store s := by
  induction h with
  | refl => exact liveInv_connected
  | tail _ hstep ih => exact ih.step hincreasing hstep

/-- The session takes every answer of the consumer: the condition on it excludes none. -/
theorem LiveInv.exists_answer (h : LiveInv config stream store s) {p : Pipeline} {answer : Answer}
    (hstep : Pipeline.Step config stream s.pipe p)
    (hanswers : p.answers = s.pipe.answers ++ [answer]) (hasks : s.pipe.call = .idle → s.Asks) :
    ∃ hown, Step config stream s
      (s.after { s.session with inner := .yields answer.toItem hown } answer.sessionCall p) := by
  have hmem : answer ∈ p.answers := by
    rw [hanswers]
    exact List.mem_append_right _ (List.mem_singleton.mpr rfl)
  have hown := (Pipeline.pipelineInv_of_reachable (h.pipe.tail hstep)).own_of_mem hmem
  exact ⟨hown, .answer p answer hstep hanswers hasks hown⟩

/-- What was answered was handed out, in order and each message once. -/
theorem LiveInv.handed_eq (h : LiveInv config stream store s)
    {inner : KafkaConsumer config.topic config.partition}
    (hitems : inner.items = s.pipe.answers.map Answer.toItem) : s.handed = s.pipe.received := by
  obtain ⟨items, htaken, hhanded⟩ := (h.session inner hitems).taken
  rw [h.drained, List.append_nil] at htaken
  have hall : s.pipe.answers.map Answer.toItem = items := hitems.symm.trans htaken
  rw [hhanded, ← hall, messages_toItem, Pipeline.received]

end LiveSession

open LiveSession in
/-- **At-least-once, over the background task.**  A session starts at the stored position, if there
is one.  In every state of every interleaving of its calls with the task, the closes of the pool and
the drops of futures:

* the messages handed out are those that the consumer answered, records of the log in its order, and
  each is pending, confirmed, or given up with the session;
* the stored position does not go back, and has passed every confirmed message;
* every record of the log between the start and the stored position was handed out and
  acknowledged. -/
theorem live_at_least_once {config : ConsumerConfig} {stream : ℕ → Option StreamItem}
    {store : OffsetMap} {log : I64 → Option Record} {start : I64}
    {s : LiveSession config.topic config.partition} (hstream : ReadsLog log start stream)
    (hstart : ∀ next, store.lookup (config.topic, config.partition) = some next → start = next)
    (h : Reachable config stream store s) :
    let before := store.lookup (config.topic, config.partition)
    let now := s.session.store.lookup (config.topic, config.partition)
    (s.handed = s.pipe.received ∧ Increasing s.handed ∧
      ∀ m ∈ s.handed, (∃ record, log m.offset = some record ∧ m.payload = record.value ∧
        m.key = record.key ∧ m.headers = record.headers) ∧
        (s.session.pending = some m ∨ m ∈ s.confirmed ∨ s.session.terminated = true)) ∧
    (before ≤ now ∧
      ∀ m ∈ s.confirmed, ∃ next : I64, next.val = m.offset.val + 1 ∧ some next ≤ now) ∧
    ∀ position offset, now = some position → start ≤ offset → offset < position →
      log offset ≠ none → ∃ m ∈ s.handed, m ∈ s.acked ∧ m.offset = offset := by
  intro before now
  have hlive := liveInv_of_reachable hstream.increasing h
  have hpipe := Pipeline.pipelineInv_of_reachable hlive.pipe
  obtain ⟨inner, hitems⟩ := hpipe.exists_consumer hstream.increasing
  have hsession := hlive.session inner hitems
  have hhanded := hlive.handed_eq hitems
  refine ⟨⟨hhanded, hsession.own.2, fun m hm => ⟨?_, hsession.pending_or_confirmed hm⟩⟩,
    ⟨hsession.isPeak.init_le, fun m hm => ?_⟩, fun position offset hnow hle hlt hlog => ?_⟩
  · rw [hhanded] at hm
    obtain ⟨-, -, record, hrecord, hpayload, hkey, hheaders, -⟩ :=
      hpipe.log_of_received hstream hm
    exact ⟨record, hrecord, hpayload, hkey, hheaders⟩
  · obtain ⟨next, hnext⟩ := hsession.written_ok m (hsession.confirmed_written m hm)
    exact ⟨next, (nextOffsetOf_eq_ok.mp hnext).2,
      hsession.isPeak.written_le next ⟨m, hsession.confirmed_written m hm, hnext⟩⟩
  · -- the position was written after a message at or past the record
    have hpast : ∃ m ∈ s.written, offset ≤ m.offset := by
      rcases hsession.isPeak.attained with hsame | ⟨next, ⟨m, hm, hnext⟩, heq⟩
      · have hposition := hstart position (hsame.symm.trans hnow)
        rw [hposition] at hle
        exact absurd hlt (not_lt.mpr hle)
      · refine ⟨m, hm, ?_⟩
        have hposition : next = position := Option.some.inj (heq.symm.trans hnow)
        have hval := (nextOffsetOf_eq_ok.mp hnext).2
        rw [← hposition, lt_iff_val_lt] at hlt
        rw [le_iff_val_le]
        omega
    obtain ⟨m, hm, hmle⟩ := hpast
    have hmhanded := hsession.acked_handed m (hsession.written_acked m hm)
    rw [hhanded] at hmhanded
    obtain ⟨m', hm', hoffset⟩ := hpipe.not_passed_over hstream hlog hle hmhanded hmle
    rw [← hhanded] at hm'
    -- a message whose commit did not take effect lies after all that were written
    have hwritten : m' ∈ s.written := by
      by_contra hopen
      have hmlt := hsession.lt_of_not_written hm' hopen hm
      rw [hoffset] at hmlt
      exact absurd hmle (not_le.mpr hmlt)
    exact ⟨m', hm', hsession.written_acked m' hwritten, hoffset⟩

open LiveSession in
/-- The one record of a log is received and acknowledged, and the stored position passes it. -/
theorem live_at_least_once_orders : ∃ s : LiveSession "orders" 0,
    Reachable (ordersConfig (.of 7)) (ordersStream (.of 7) (.of 8)) ∅ s ∧
      s.session.store.lookup ordersKey = some (.of 8) ∧
        ∃ m ∈ s.handed, m ∈ s.acked ∧ m.offset = .of 7 := by
  have hnext : Step (ordersConfig (.of 7)) (ordersStream (.of 7) (.of 8)) (connected ∅) _ :=
    .pipe _ (.next _ rfl rfl) rfl fun _ hcall => absurd rfl hcall
  have hsent := (ReflTransGen.single hnext).tail
    (.pipe _ (.send _ rfl (by decide) rfl) rfl fun _ hcall => absurd rfl hcall)
  have hasked := hsent.tail (.pipe _ (.recv rfl rfl) rfl fun _ _ => ⟨rfl, rfl⟩)
  obtain ⟨hown, hanswer⟩ := (liveInv_of_reachable readsLog_ordersStream.increasing
    hasked).exists_answer (.receive _ (by decide) rfl) rfl fun _ => ⟨rfl, rfl⟩
  have hacked := (hasked.tail hanswer).tail (.own (.ack .ok) rfl rfl trivial)
  refine ⟨_, hacked, rfl, ?_⟩
  have hlive := @live_at_least_once (ordersConfig (.of 7)) (ordersStream (.of 7) (.of 8)) ∅
    (ordersLogs (.of 7) ordersKey) (.of 7) _ readsLog_ordersStream
    (fun next hnext => by cases hnext) hacked
  exact hlive.2.2 (.of 8) (.of 7) rfl le_rfl (by decide) (by decide)

end Kafkax
