import Kafkax.Consumer

/-!
# At-least-once consumption

A message that was handed out stays *pending* until it is acknowledged: `ack` commits its offset,
and clears it only if the commit returned `Ok`.  `drop_pending_unacked` gives the message up and
ends the session.

A session is a list of calls.  `observed` collects what the calls made of the messages: which ones
were handed out for the first time, on which ones `ack` was called, whose commit took effect, whose
commit returned `Ok`.  `SessionInvariant` relates these lists to the state:

* the messages handed out are those that were taken from the consumer, in order;
* all of them but the last are confirmed, and the last is confirmed, pending or given up;
* the stored position is the maximum of the first one and those whose commit took effect.

`at_least_once` reads the guarantees of a session off it.
-/

namespace Kafkax

open LineText BoundedIntegers MaxRegister

/-! ### The consumer -/

/-- `AtLeastOnceConsumer`, with the table of its store. -/
structure AtLeastOnceConsumer (topic : String) (partition : I32) where
  inner : KafkaConsumer topic partition
  store : OffsetMap
  pending : Option KafkaMessage
  terminated : Bool

namespace AtLeastOnceConsumer

variable {topic : String} {partition : I32}

/-- A new session. -/
def opened (inner : KafkaConsumer topic partition) (store : OffsetMap) :
    AtLeastOnceConsumer topic partition :=
  ⟨inner, store, none, false⟩

/-- `AtLeastOnceConsumer::connect`: `committed` is the answer of the store, `consumer` that of
`KafkaPool::consumer`. -/
def connect (config : ConsumerConfig) (store : OffsetMap) (committed : KafkaResult (Option I64))
    (consumer : (config : ConsumerConfig) →
      KafkaResult (KafkaConsumer config.topic config.partition)) :
    KafkaResult (AtLeastOnceConsumer config.topic config.partition) :=
  if (trim config.topic.toList).isEmpty then .error (.config "at-least-once topic 不能为空")
  else if config.partition.val < 0 then .error (.config "at-least-once partition 不能为负")
  else do
    match ← committed with
    | some next =>
      let inner ← consumer { config with startOffset := some next, fromBeginning := false }
      return .opened inner store
    | none =>
      let inner ← consumer config
      return .opened inner store

/-- A connection that succeeds opens a session on the consumer it was given, which was asked for
with the stored position as its start offset if there is one. -/
theorem connect_eq_ok {config : ConsumerConfig} {store : OffsetMap} {committed : Option I64}
    {consumer : (config : ConsumerConfig) →
      KafkaResult (KafkaConsumer config.topic config.partition)}
    {c : AtLeastOnceConsumer config.topic config.partition}
    (h : connect config store (.ok committed) consumer = .ok c) :
    ∃ inner : KafkaConsumer config.topic config.partition, c = .opened inner store ∧
      (committed = none → consumer config = .ok inner) ∧
      ∀ next, committed = some next →
        consumer { config with startOffset := some next, fromBeginning := false } = .ok inner := by
  rw [connect] at h
  by_cases htopic : (trim config.topic.toList).isEmpty
  · rw [if_pos htopic] at h
    exact absurd h (by simp)
  by_cases hpartition : config.partition.val < 0
  · rw [if_neg htopic, if_pos hpartition] at h
    exact absurd h (by simp)
  rw [if_neg htopic, if_neg hpartition] at h
  cases committed with
  | none =>
    change (consumer config >>= fun inner => .ok (.opened inner store)) = .ok c at h
    cases hinner : consumer config with
    | error e =>
      rw [hinner] at h
      exact absurd h (by simp [bind, Except.bind])
    | ok inner =>
      rw [hinner] at h
      exact ⟨inner, (Except.ok.inj h).symm, fun _ => rfl, fun _ heq => absurd heq (by simp)⟩
  | some next =>
    change (consumer { config with startOffset := some next, fromBeginning := false } >>=
      fun inner => .ok (.opened inner store)) = .ok c at h
    cases hinner : consumer { config with startOffset := some next, fromBeginning := false } with
    | error e =>
      rw [hinner] at h
      exact absurd h (by simp [bind, Except.bind])
    | ok inner =>
      rw [hinner] at h
      refine ⟨inner, (Except.ok.inj h).symm, fun heq => absurd heq (by simp), ?_⟩
      intro next' heq
      rw [← Option.some.inj heq]
      exact hinner

/-- `AtLeastOnceConsumer::ensure_active` -/
def ensureActive (self : AtLeastOnceConsumer topic partition) : KafkaResult Unit :=
  if self.terminated then
    .error (.closed "at-least-once 会话已因 drop_pending_unacked 终止；请重连")
  else .ok ()

/-- `AtLeastOnceConsumer::recv` -/
def recv (self : AtLeastOnceConsumer topic partition) :
    Option (KafkaResult KafkaMessage) × AtLeastOnceConsumer topic partition :=
  match self.ensureActive with
  | .error e => (some (.error e), self)
  | .ok () =>
    match self.pending with
    | some m => (some (.ok m), self)
    | none =>
      match self.inner.recv with
      | (some (.ok m), inner) => (some (.ok m), { self with inner := inner, pending := some m })
      | (some (.error e), inner) => (some (.error e), { self with inner := inner })
      | (none, inner) => (none, { self with inner := inner })

/-- `AtLeastOnceConsumer::recv_timeout` -/
def recvTimeout (self : AtLeastOnceConsumer topic partition) :
    KafkaResult (Option KafkaMessage) × AtLeastOnceConsumer topic partition :=
  match self.ensureActive with
  | .error e => (.error e, self)
  | .ok () =>
    match self.pending with
    | some m => (.ok (some m), self)
    | none =>
      match self.inner.recvTimeout with
      | (.error e, inner) => (.error e, { self with inner := inner })
      | (.ok (some m), inner) => (.ok (some m), { self with inner := inner, pending := some m })
      | (.ok none, inner) => (.ok none, { self with inner := inner })

/-- `AtLeastOnceConsumer::ack` -/
def ack (self : AtLeastOnceConsumer topic partition) (outcome : CommitOutcome) :
    KafkaResult Unit × AtLeastOnceConsumer topic partition :=
  match self.ensureActive with
  | .error e => (.error e, self)
  | .ok () =>
    match self.pending with
    | none => (.error (.config "无 pending 消息可 ack"), self)
    | some m =>
      match self.store.commit m.topic m.partition m.offset outcome with
      | (.error e, store) => (.error e, { self with store := store })
      | (.ok (), store) => (.ok (), { self with store := store, pending := none })

/-- `AtLeastOnceConsumer::nack_keep_pending` -/
def nackKeepPending (self : AtLeastOnceConsumer topic partition) :
    AtLeastOnceConsumer topic partition := self

/-- `AtLeastOnceConsumer::drop_pending_unacked` -/
def dropPendingUnacked (self : AtLeastOnceConsumer topic partition) :
    AtLeastOnceConsumer topic partition :=
  { self with pending := none, terminated := true }

end AtLeastOnceConsumer

/-! ### Sessions -/

/-- The calls of a session. -/
inductive SessionCall where
  | recv
  | recvTimeout
  | ack (outcome : CommitOutcome)
  | nackKeepPending
  | dropPendingUnacked

namespace AtLeastOnceConsumer

variable {topic : String} {partition : I32}

/-- The consumer after a call. -/
def after (self : AtLeastOnceConsumer topic partition) :
    SessionCall → AtLeastOnceConsumer topic partition
  | .recv => self.recv.2
  | .recvTimeout => self.recvTimeout.2
  | .ack outcome => (self.ack outcome).2
  | .nackKeepPending => self.nackKeepPending
  | .dropPendingUnacked => self.dropPendingUnacked

/-- The message a call hands out. -/
def handedBy (self : AtLeastOnceConsumer topic partition) : SessionCall → Option KafkaMessage
  | .recv =>
    match self.recv.1 with
    | some (.ok m) => some m
    | _ => none
  | .recvTimeout =>
    match self.recvTimeout.1 with
    | .ok m => m
    | .error _ => none
  | _ => none

/-- The message a call hands out for the first time: nothing was pending. -/
def freshBy (self : AtLeastOnceConsumer topic partition) (call : SessionCall) :
    Option KafkaMessage :=
  if self.pending.isSome then none else self.handedBy call

/-- The message `ack` is called on. -/
def ackedBy (self : AtLeastOnceConsumer topic partition) : SessionCall → Option KafkaMessage
  | .ack _ => if self.terminated then none else self.pending
  | _ => none

/-- The message whose commit takes effect. -/
def writtenBy (self : AtLeastOnceConsumer topic partition) : SessionCall → Option KafkaMessage
  | .ack outcome =>
    (self.ackedBy (.ack outcome)).filter fun m => outcome.writes && (nextOffsetOf m.offset).isOk
  | _ => none

/-- The message whose own commit returns `Ok`. -/
def confirmedBy (self : AtLeastOnceConsumer topic partition) : SessionCall → Option KafkaMessage
  | .ack outcome => (self.ackedBy (.ack outcome)).filter fun m =>
      (self.store.commit m.topic m.partition m.offset outcome).1.isOk
  | _ => none

/-- The consumer after a list of calls. -/
def afterAll (self : AtLeastOnceConsumer topic partition) (calls : List SessionCall) :
    AtLeastOnceConsumer topic partition :=
  calls.foldl after self

/-- What `f` makes of the calls of a list, in order. -/
def observed (f : AtLeastOnceConsumer topic partition → SessionCall → Option KafkaMessage)
    (self : AtLeastOnceConsumer topic partition) : List SessionCall → List KafkaMessage
  | [] => []
  | call :: calls => (f self call).toList ++ observed f (self.after call) calls

theorem afterAll_snoc (self : AtLeastOnceConsumer topic partition) (calls : List SessionCall)
    (call : SessionCall) : self.afterAll (calls ++ [call]) = (self.afterAll calls).after call := by
  rw [afterAll, List.foldl_append]
  rfl

theorem observed_snoc
    (f : AtLeastOnceConsumer topic partition → SessionCall → Option KafkaMessage)
    (self : AtLeastOnceConsumer topic partition) (calls : List SessionCall) (call : SessionCall) :
    observed f self (calls ++ [call]) =
      observed f self calls ++ (f (self.afterAll calls) call).toList := by
  induction calls generalizing self with
  | nil => exact List.append_nil _
  | cons first calls ih =>
    show (f self first).toList ++ observed f (self.after first) (calls ++ [call]) = _
    rw [ih, ← List.append_assoc]
    rfl

/-! ### What a call does -/

/-- What a call makes of the consumer and of the messages: nothing that matters, a message fetched,
a commit, or the end of the session. -/
inductive Effect (self : AtLeastOnceConsumer topic partition) :
    AtLeastOnceConsumer topic partition → (fresh acked written confirmed : Option KafkaMessage) →
      Prop where
  | quiet (inner : KafkaConsumer topic partition) (taken : List Item)
      (hsplit : self.inner.items = taken ++ inner.items) (htaken : messages taken = [])
      (hkept : self.pending.isSome → inner = self.inner) :
      Effect self { self with inner := inner } none none none none
  | fetched (inner : KafkaConsumer topic partition) (taken : List Item) (m : KafkaMessage)
      (hsplit : self.inner.items = taken ++ inner.items) (htaken : messages taken = [m])
      (hpending : self.pending = none) (hactive : self.terminated = false) :
      Effect self { self with inner := inner, pending := some m } (some m) none none none
  | acked (m : KafkaMessage) (outcome : CommitOutcome) (hpending : self.pending = some m)
      (hactive : self.terminated = false) :
      Effect self
        { self with
          store := (self.store.commit m.topic m.partition m.offset outcome).2
          pending :=
            if (self.store.commit m.topic m.partition m.offset outcome).1.isOk then none
            else some m }
        none (some m)
        ((some m).filter fun m => outcome.writes && (nextOffsetOf m.offset).isOk)
        ((some m).filter fun m =>
          (self.store.commit m.topic m.partition m.offset outcome).1.isOk)
  | dropped : Effect self self.dropPendingUnacked none none none none

theorem effect_self (self : AtLeastOnceConsumer topic partition) :
    Effect self self none none none none :=
  .quiet self.inner [] rfl rfl fun _ => rfl

theorem effect_recv (self : AtLeastOnceConsumer topic partition) :
    Effect self self.recv.2 (self.freshBy .recv) none none none := by
  obtain ⟨inner, store, pending, terminated⟩ := self
  cases terminated with
  | true => cases pending <;> exact effect_self _
  | false =>
    cases pending with
    | some m => exact effect_self _
    | none =>
      obtain ⟨taken, hsplit, htaken⟩ := nextItem_taken inner.items
      have hkept : (none : Option KafkaMessage).isSome → inner.recv.2 = inner :=
        fun h => absurd h (by simp)
      rw [freshBy, handedBy, recv, KafkaConsumer.recv]
      cases hanswer : (nextItem inner.items).1 with
      | none =>
        rw [hanswer] at htaken
        exact .quiet _ taken hsplit htaken hkept
      | some result =>
        cases result with
        | error e =>
          rw [hanswer] at htaken
          exact .quiet _ taken hsplit htaken hkept
        | ok m =>
          rw [hanswer] at htaken
          exact .fetched _ taken m hsplit htaken rfl rfl

theorem effect_recvTimeout (self : AtLeastOnceConsumer topic partition) :
    Effect self self.recvTimeout.2 (self.freshBy .recvTimeout) none none none := by
  obtain ⟨inner, store, pending, terminated⟩ := self
  cases terminated with
  | true => cases pending <;> exact effect_self _
  | false =>
    cases pending with
    | some m => exact effect_self _
    | none =>
      obtain ⟨taken, hsplit, htaken⟩ := nextItemTimeout_taken inner.items
      have hkept : (none : Option KafkaMessage).isSome → inner.recvTimeout.2 = inner :=
        fun h => absurd h (by simp)
      rw [freshBy, handedBy, recvTimeout, KafkaConsumer.recvTimeout]
      cases hanswer : (nextItemTimeout inner.items).1 with
      | error e =>
        rw [hanswer] at htaken
        exact .quiet _ taken hsplit htaken hkept
      | ok result =>
        cases result with
        | none =>
          rw [hanswer] at htaken
          exact .quiet _ taken hsplit htaken hkept
        | some m =>
          rw [hanswer] at htaken
          exact .fetched _ taken m hsplit htaken rfl rfl

theorem effect_ack (self : AtLeastOnceConsumer topic partition) (outcome : CommitOutcome) :
    Effect self (self.ack outcome).2 (self.freshBy (.ack outcome)) (self.ackedBy (.ack outcome))
      (self.writtenBy (.ack outcome)) (self.confirmedBy (.ack outcome)) := by
  have hfresh : self.freshBy (.ack outcome) = none := ite_self none
  rw [hfresh]
  obtain ⟨inner, store, pending, terminated⟩ := self
  cases terminated with
  | true => exact effect_self _
  | false =>
    cases pending with
    | none => exact effect_self _
    | some m =>
      have hacked := @Effect.acked _ _ ⟨inner, store, some m, false⟩ m outcome rfl rfl
      rw [ack]
      simp only [ensureActive, Bool.false_eq_true, if_false]
      cases hcommit : store.commit m.topic m.partition m.offset outcome with
      | mk result table =>
        rw [hcommit] at hacked
        cases result with
        | error e => exact hacked
        | ok u => exact hacked

/-- **What a call does**, whatever the queue yields and however a commit ends. -/
theorem effect (self : AtLeastOnceConsumer topic partition) (call : SessionCall) :
    Effect self (self.after call) (self.freshBy call) (self.ackedBy call) (self.writtenBy call)
      (self.confirmedBy call) := by
  cases call with
  | recv => exact self.effect_recv
  | recvTimeout => exact self.effect_recvTimeout
  | ack outcome => exact self.effect_ack outcome
  | nackKeepPending =>
    rw [show self.freshBy .nackKeepPending = none from ite_self none]
    exact self.effect_self
  | dropPendingUnacked =>
    rw [show self.freshBy .dropPendingUnacked = none from ite_self none]
    exact .dropped

end AtLeastOnceConsumer

/-! ### Commits on the table -/

/-- The position a commit of the message writes. -/
def nextAfter (m : KafkaMessage) : Option I64 := (nextOffsetOf m.offset).toOption

theorem nextAfter_eq_some {m : KafkaMessage} {next : I64} (h : nextAfter m = some next) :
    nextOffsetOf m.offset = .ok next := by
  rw [nextAfter] at h
  cases hnext : nextOffsetOf m.offset with
  | error e =>
    rw [hnext] at h
    exact absurd h (by simp [Except.toOption])
  | ok n =>
    rw [hnext] at h
    exact congrArg Except.ok (Option.some.inj h)

section

variable (table : OffsetMap) (topic : String) (partition : I32) (m : KafkaMessage)
  (outcome : CommitOutcome)

/-- A commit writes the position after the message under its key, or nothing. -/
theorem lookup_commit : (table.commit topic partition m.offset outcome).2.lookup (topic, partition) =
    peak (table.lookup (topic, partition)) ((((some m).filter fun m =>
      outcome.writes && (nextOffsetOf m.offset).isOk).toList).filterMap nextAfter) := by
  rw [OffsetMap.commit]
  cases hnext : nextOffsetOf m.offset with
  | error e =>
    rw [Option.filter_some, hnext, Except.isOk, Except.toBool, Bool.and_false]
    rfl
  | ok next =>
    have hafter : [m].filterMap nextAfter = [next] := by
      rw [List.filterMap_cons, nextAfter, hnext]
      rfl
    rw [Option.filter_some, hnext, Except.isOk, Except.toBool, Bool.and_true]
    cases outcome with
    | lost e => rfl
    | ok =>
      show (table.raise (topic, partition) next).lookup (topic, partition) =
        peak _ ([m].filterMap nextAfter)
      rw [hafter, lookup_raise_self, peak_cons, peak_nil]
    | written e =>
      show (table.raise (topic, partition) next).lookup (topic, partition) =
        peak _ ([m].filterMap nextAfter)
      rw [hafter, lookup_raise_self, peak_cons, peak_nil]

/-- A commit leaves the other keys alone. -/
theorem lookup_commit_of_ne {key : Key} (hkey : key ≠ (topic, partition)) :
    (table.commit topic partition m.offset outcome).2.lookup key = table.lookup key := by
  rw [OffsetMap.commit]
  cases nextOffsetOf m.offset with
  | error e => rfl
  | ok next =>
    cases outcome with
    | lost e => rfl
    | ok => exact lookup_raise_of_ne table next hkey
    | written e => exact lookup_raise_of_ne table next hkey

/-- A commit that returned `Ok` has written. -/
theorem writes_of_commit_isOk (h : (table.commit topic partition m.offset outcome).1.isOk) :
    outcome.writes && (nextOffsetOf m.offset).isOk := by
  rw [OffsetMap.commit] at h
  cases hnext : nextOffsetOf m.offset with
  | error e =>
    rw [hnext] at h
    exact absurd h (by simp [Except.isOk, Except.toBool])
  | ok next =>
    rw [hnext] at h
    cases outcome with
    | ok => rfl
    | lost e => exact absurd h (by simp [Except.isOk, Except.toBool])
    | written e => exact absurd h (by simp [Except.isOk, Except.toBool])

end

/-! ### The invariant of a session -/

section

variable {topic : String} {partition : I32}

/-- The state of a session and what its calls have made of the messages. -/
structure SessionInvariant (start c : AtLeastOnceConsumer topic partition)
    (handed acked written confirmed : List KafkaMessage) : Prop where
  taken : ∃ items, start.inner.items = items ++ c.inner.items ∧ handed = messages items
  last : ∃ (done : List KafkaMessage) (last : Option KafkaMessage),
    handed = done ++ last.toList ∧ (∀ m ∈ done, m ∈ confirmed) ∧
      (c.pending = last ∨ c.pending = none ∧ c.terminated = true)
  acked_handed : ∀ m ∈ acked, m ∈ handed
  written_acked : ∀ m ∈ written, m ∈ acked
  written_ok : ∀ m ∈ written, ∃ next, nextOffsetOf m.offset = .ok next
  confirmed_written : ∀ m ∈ confirmed, m ∈ written
  stored : c.store.lookup (topic, partition) =
    peak (start.store.lookup (topic, partition)) (written.filterMap nextAfter)
  elsewhere : ∀ key, key ≠ (topic, partition) → c.store.lookup key = start.store.lookup key

variable {start c next : AtLeastOnceConsumer topic partition}
  {handed acked written confirmed : List KafkaMessage}

theorem sessionInvariant_opened (inner : KafkaConsumer topic partition) (store : OffsetMap) :
    SessionInvariant (.opened inner store) (.opened inner store) [] [] [] [] where
  taken := ⟨[], rfl, rfl⟩
  last := ⟨[], none, rfl, fun _ hm => absurd hm List.not_mem_nil, Or.inl rfl⟩
  acked_handed _ hm := hm
  written_acked _ hm := hm
  written_ok _ hm := absurd hm List.not_mem_nil
  confirmed_written _ hm := hm
  stored := rfl
  elsewhere _ _ := rfl

/-- A pending message was handed out. -/
theorem SessionInvariant.pending_handed
    (h : SessionInvariant start c handed acked written confirmed) {m : KafkaMessage}
    (hm : c.pending = some m) : m ∈ handed := by
  obtain ⟨done, last, hsplit, -, hlast⟩ := h.last
  rcases hlast with hlast | ⟨hnone, -⟩
  · rw [hsplit, ← hlast, hm]
    exact List.mem_append_right _ (List.mem_singleton.mpr rfl)
  · rw [hnone] at hm
    exact absurd hm (by simp)

/-- What is handed out is of the consumer's own partition, in the order of the offsets. -/
theorem SessionInvariant.own (h : SessionInvariant start c handed acked written confirmed) :
    (∀ m ∈ handed, m.topic = topic ∧ m.partition = partition) ∧ Increasing handed := by
  obtain ⟨items, hsplit, rfl⟩ := h.taken
  have hmessages : messages start.inner.items = messages items ++ messages c.inner.items := by
    rw [hsplit, messages_append]
  refine ⟨fun m hm => start.inner.own m ?_, ?_⟩
  · rw [hmessages]
    exact List.mem_append_left _ hm
  · have hall := start.inner.increasing
    rw [hmessages] at hall
    exact (List.pairwise_append.mp hall).1

/-- While the session is active, the last message is the pending one. -/
theorem last_eq_pending {last : Option KafkaMessage}
    (hlast : c.pending = last ∨ c.pending = none ∧ c.terminated = true)
    (hactive : c.terminated = false) : last = c.pending := by
  rcases hlast with hlast | ⟨-, hterminated⟩
  · exact hlast.symm
  · rw [hactive] at hterminated
    exact absurd hterminated (by simp)

theorem mem_filter_some {m m' : KafkaMessage} {p : KafkaMessage → Bool}
    (h : m' ∈ ((some m).filter p).toList) : m' = m ∧ p m = true := by
  rw [Option.mem_toList, Option.filter_eq_some_iff] at h
  exact ⟨(Option.some.inj h.1).symm, Option.some.inj h.1 ▸ h.2⟩

theorem exists_of_isOk {ε α : Type} {r : Except ε α} (h : r.isOk = true) : ∃ a, r = .ok a := by
  cases r with
  | error e => exact absurd h (by simp [Except.isOk, Except.toBool])
  | ok a => exact ⟨a, rfl⟩

/-- **A call** keeps the invariant. -/
theorem SessionInvariant.step {fresh ackOn writeOn confirmOn : Option KafkaMessage}
    (h : SessionInvariant start c handed acked written confirmed)
    (heffect : c.Effect next fresh ackOn writeOn confirmOn) :
    SessionInvariant start next (handed ++ fresh.toList) (acked ++ ackOn.toList)
      (written ++ writeOn.toList) (confirmed ++ confirmOn.toList) := by
  obtain ⟨items, hitems, hhanded⟩ := h.taken
  obtain ⟨done, last, hsplit, hdone, hlast⟩ := h.last
  cases heffect with
  | quiet inner taken htaken hnone hkept =>
    simp only [Option.toList_none, List.append_nil]
    refine { h with taken := ⟨items ++ taken, ?_, ?_⟩ }
    · rw [hitems, htaken, List.append_assoc]
    · rw [hhanded, messages_append, hnone, List.append_nil]
  | dropped =>
    simp only [Option.toList_none, List.append_nil]
    exact { h with last := ⟨done, last, hsplit, hdone, Or.inr ⟨rfl, rfl⟩⟩ }
  | fetched inner taken m htaken hone hpending hactive =>
    simp only [Option.toList_none, List.append_nil, Option.toList_some]
    -- nothing was pending and the session is active, so everything handed out is confirmed
    have hnothing : last = none := (last_eq_pending hlast hactive).trans hpending
    rw [hnothing, Option.toList_none, List.append_nil] at hsplit
    refine { h with
      taken := ⟨items ++ taken, ?_, ?_⟩
      last := ⟨done, some m, ?_, hdone, Or.inl rfl⟩
      acked_handed := fun m' hm' => List.mem_append_left _ (h.acked_handed m' hm') }
    · rw [hitems, htaken, List.append_assoc]
    · rw [hhanded, messages_append, hone]
    · rw [hsplit, Option.toList_some]
  | acked m outcome hpending hactive =>
    simp only [Option.toList_none, List.append_nil, Option.toList_some]
    have hmem : m ∈ handed := h.pending_handed hpending
    obtain ⟨htopic, hpartition⟩ := h.own.1 m hmem
    have hlastm : last = some m := (last_eq_pending hlast hactive).trans hpending
    refine ⟨⟨items, hitems, hhanded⟩, ?_, ?_, ?_, ?_, ?_, ?_, ?_⟩
    · by_cases hok : (c.store.commit m.topic m.partition m.offset outcome).1.isOk
      · refine ⟨done ++ [m], none, ?_, fun m' hm' => ?_, Or.inl (if_pos hok)⟩
        · rw [hsplit, hlastm, Option.toList_some, Option.toList_none, List.append_nil]
        · rcases List.mem_append.mp hm' with hm' | hm'
          · exact List.mem_append_left _ (hdone m' hm')
          · rw [List.mem_singleton.mp hm', Option.filter_some, if_pos hok]
            exact List.mem_append_right _ (List.mem_singleton.mpr rfl)
      · refine ⟨done, some m, ?_, fun m' hm' => ?_, Or.inl (if_neg hok)⟩
        · rw [hsplit, hlastm]
        · exact List.mem_append_left _ (hdone m' hm')
    · intro m' hm'
      rcases List.mem_append.mp hm' with hm' | hm'
      · exact h.acked_handed m' hm'
      · exact List.mem_singleton.mp hm' ▸ hmem
    · intro m' hm'
      rcases List.mem_append.mp hm' with hm' | hm'
      · exact List.mem_append_left _ (h.written_acked m' hm')
      · exact List.mem_append_right _ (List.mem_singleton.mpr (mem_filter_some hm').1)
    · intro m' hm'
      rcases List.mem_append.mp hm' with hm' | hm'
      · exact h.written_ok m' hm'
      · obtain ⟨rfl, hwrites⟩ := mem_filter_some hm'
        exact exists_of_isOk (Bool.and_eq_true_iff.mp hwrites).2
    · intro m' hm'
      rcases List.mem_append.mp hm' with hm' | hm'
      · exact List.mem_append_left _ (h.confirmed_written m' hm')
      · obtain ⟨rfl, hok⟩ := mem_filter_some hm'
        have hwrites := writes_of_commit_isOk _ _ _ _ _ hok
        rw [Option.filter_some, if_pos hwrites]
        exact List.mem_append_right _ (List.mem_singleton.mpr rfl)
    · show (c.store.commit m.topic m.partition m.offset outcome).2.lookup (topic, partition) = _
      rw [htopic, hpartition, lookup_commit, h.stored, List.filterMap_append, peak_append]
    · intro key hkey
      show (c.store.commit m.topic m.partition m.offset outcome).2.lookup key = _
      rw [htopic, hpartition, lookup_commit_of_ne _ _ _ _ _ hkey]
      exact h.elsewhere key hkey

/-- **A session** keeps the invariant. -/
theorem sessionInvariant (inner : KafkaConsumer topic partition) (store : OffsetMap)
    (calls : List SessionCall) :
    let start := AtLeastOnceConsumer.opened inner store
    SessionInvariant start (start.afterAll calls) (start.observed AtLeastOnceConsumer.freshBy calls)
      (start.observed AtLeastOnceConsumer.ackedBy calls)
      (start.observed AtLeastOnceConsumer.writtenBy calls)
      (start.observed AtLeastOnceConsumer.confirmedBy calls) := by
  intro start
  induction calls using List.reverseRecOn with
  | nil => exact sessionInvariant_opened inner store
  | append_singleton calls call ih =>
    rw [start.afterAll_snoc, start.observed_snoc, start.observed_snoc, start.observed_snoc,
      start.observed_snoc]
    exact ih.step ((start.afterAll calls).effect call)

/-! ### What the invariant says -/

/-- Only the last message handed out can be unconfirmed. -/
theorem SessionInvariant.le_of_not_confirmed
    (h : SessionInvariant start c handed acked written confirmed) {m m' : KafkaMessage}
    (hm : m ∈ handed) (hopen : m ∉ confirmed) (hm' : m' ∈ handed) : m'.offset ≤ m.offset := by
  obtain ⟨done, last, hsplit, hdone, -⟩ := h.last
  have hincreasing := h.own.2
  rw [hsplit] at hm hm' hincreasing
  rcases List.mem_append.mp hm with hm | hm
  · exact absurd (hdone m hm) hopen
  · rcases List.mem_append.mp hm' with hm' | hm'
    · exact ((List.pairwise_append.mp hincreasing).2.2 m' hm' m hm).le
    · rw [Option.mem_toList] at hm hm'
      exact (congrArg KafkaMessage.offset (Option.some.inj (hm'.symm.trans hm))).le

/-- A message that was handed out is pending, or confirmed, or was given up. -/
theorem SessionInvariant.pending_or_confirmed
    (h : SessionInvariant start c handed acked written confirmed) {m : KafkaMessage}
    (hm : m ∈ handed) : c.pending = some m ∨ m ∈ confirmed ∨ c.terminated = true := by
  obtain ⟨done, last, hsplit, hdone, hlast⟩ := h.last
  rw [hsplit] at hm
  rcases List.mem_append.mp hm with hm | hm
  · exact Or.inr (Or.inl (hdone m hm))
  · rcases hlast with hlast | ⟨-, hterminated⟩
    · exact Or.inl (hlast.trans (Option.mem_toList.mp hm))
    · exact Or.inr (Or.inr hterminated)

/-- A message whose commit did not take effect lies after all those whose commit did. -/
theorem SessionInvariant.lt_of_not_written
    (h : SessionInvariant start c handed acked written confirmed) {m m' : KafkaMessage}
    (hm : m ∈ handed) (hopen : m ∉ written) (hm' : m' ∈ written) : m'.offset < m.offset := by
  have hhanded : m' ∈ handed := h.acked_handed m' (h.written_acked m' hm')
  have hle := h.le_of_not_confirmed hm (fun hc => hopen (h.confirmed_written m hc)) hhanded
  refine lt_of_le_of_ne hle fun heq => hopen ?_
  exact h.own.2.eq_of_offset_eq hhanded hm heq ▸ hm'

/-- The stored position is the maximum of the first one and the commits that took effect. -/
theorem SessionInvariant.isPeak (h : SessionInvariant start c handed acked written confirmed) :
    IsPeak (start.store.lookup (topic, partition))
      {next | ∃ m ∈ written, nextOffsetOf m.offset = .ok next}
      (c.store.lookup (topic, partition)) := by
  have hset : {next | ∃ m ∈ written, nextOffsetOf m.offset = .ok next} =
      {next | next ∈ written.filterMap nextAfter} := by
    ext next
    rw [Set.mem_ofPred_eq, Set.mem_ofPred_eq, List.mem_filterMap]
    refine exists_congr fun m => and_congr_right fun _ => ⟨fun hnext => ?_, nextAfter_eq_some⟩
    rw [nextAfter, hnext]
    rfl
  rw [hset, h.stored]
  exact isPeak_peak _ _

/-- The stored position does not pass a message that lies after all those whose commit took
effect. -/
theorem SessionInvariant.position_le
    (h : SessionInvariant start c handed acked written confirmed) {m : KafkaMessage}
    (hm : ∀ m' ∈ written, m'.offset < m.offset) :
    c.store.lookup (topic, partition) = start.store.lookup (topic, partition) ∨
      c.store.lookup (topic, partition) ≤ some m.offset := by
  rcases h.isPeak.attained with hsame | ⟨next, ⟨m', hm', hnext⟩, heq⟩
  · exact Or.inl hsame
  · refine Or.inr ?_
    have hlt := hm m' hm'
    have hval := (nextOffsetOf_eq_ok.mp hnext).2
    rw [heq, Option.some_le_some, le_iff_val_le]
    rw [lt_iff_val_lt] at hlt
    omega

/-- A pending message stays until its own commit returns `Ok` or the session is ended, and while
it does nothing is taken from the consumer. -/
theorem pending_step {call : SessionCall} {m : KafkaMessage} (hm : c.pending = some m) :
    (c.after call).inner = c.inner ∧
      ((c.after call).pending = some m ∨ c.confirmedBy call = some m ∨
        (c.after call).terminated = true) := by
  have heffect := c.effect call
  generalize c.after call = next at heffect ⊢
  generalize c.freshBy call = fresh at heffect
  generalize c.ackedBy call = ackOn at heffect
  generalize c.writtenBy call = writeOn at heffect
  generalize c.confirmedBy call = confirmOn at heffect ⊢
  cases heffect with
  | quiet inner taken htaken hnone hkept => exact ⟨hkept (by rw [hm]; rfl), Or.inl hm⟩
  | fetched inner taken m' htaken hone hpending hactive =>
    rw [hm] at hpending
    exact absurd hpending (by simp)
  | acked m' outcome hpending hactive =>
    obtain rfl : m = m' := Option.some.inj (hm.symm.trans hpending)
    refine ⟨rfl, ?_⟩
    by_cases hok : (c.store.commit m.topic m.partition m.offset outcome).1.isOk
    · refine Or.inr (Or.inl ?_)
      rw [Option.filter_some, if_pos hok]
    · exact Or.inl (if_neg hok)
  | dropped => exact ⟨rfl, Or.inr (Or.inr rfl)⟩

/-- **At-least-once sessions.**  After any calls on a new session, whatever its consumer yields and
however the commits end:

* a pending message stays until its own commit returns `Ok` or the session is ended, nothing is
  taken from the consumer meanwhile, and what was handed out is pending, confirmed or given up;
* the messages handed out are those taken from the consumer, in order and each once, and a
  repeated call returns the pending one;
* the stored position is the first one, or the larger of it and the position after a message `ack`
  was called on; it does not go back, it has passed every confirmed message, and it does not pass
  one whose commit did not take effect. -/
theorem at_least_once (inner : KafkaConsumer topic partition) (store : OffsetMap)
    (calls : List SessionCall) :
    let start := AtLeastOnceConsumer.opened inner store
    let c := start.afterAll calls
    let handed := start.observed AtLeastOnceConsumer.freshBy calls
    let acked := start.observed AtLeastOnceConsumer.ackedBy calls
    let written := start.observed AtLeastOnceConsumer.writtenBy calls
    let confirmed := start.observed AtLeastOnceConsumer.confirmedBy calls
    let before := store.lookup (topic, partition)
    let now := c.store.lookup (topic, partition)
    ((∀ call m, c.pending = some m → (c.after call).inner = c.inner ∧
        ((c.after call).pending = some m ∨ c.confirmedBy call = some m ∨
          (c.after call).terminated = true)) ∧
      ∀ m ∈ handed, c.pending = some m ∨ m ∈ confirmed ∨ c.terminated = true) ∧
    ((∃ items, inner.items = items ++ c.inner.items ∧ handed = messages items) ∧
      Increasing handed ∧
      ∀ m, c.pending = some m → c.terminated = false →
        c.recv.1 = some (.ok m) ∧ c.recvTimeout.1 = .ok (some m)) ∧
    ((now = before ∨ ∃ m ∈ acked, ∃ next : I64, next.val = m.offset.val + 1 ∧
        now = raise next before) ∧
      before ≤ now ∧
      (∀ m ∈ confirmed, ∃ next : I64, next.val = m.offset.val + 1 ∧ some next ≤ now) ∧
      ∀ m ∈ handed, m ∉ written → now = before ∨ now ≤ some m.offset) := by
  intro start c handed acked written confirmed before now
  have h : SessionInvariant start c handed acked written confirmed :=
    sessionInvariant inner store calls
  refine ⟨⟨fun call m hm => pending_step hm, fun m hm => h.pending_or_confirmed hm⟩,
    ⟨h.taken, h.own.2, fun m hm hactive => ?_⟩, ?_, h.isPeak.init_le, fun m hm => ?_,
    fun m hm hopen => h.position_le fun m' hm' => h.lt_of_not_written hm hopen hm'⟩
  · rw [AtLeastOnceConsumer.recv, AtLeastOnceConsumer.recvTimeout,
      AtLeastOnceConsumer.ensureActive, hactive, hm]
    exact ⟨rfl, rfl⟩
  · refine h.isPeak.eq_raise.imp_right fun ⟨next, ⟨m, hm, hnext⟩, heq⟩ => ?_
    exact ⟨m, h.written_acked m hm, next, (nextOffsetOf_eq_ok.mp hnext).2, heq⟩
  · obtain ⟨next, hnext⟩ := h.written_ok m (h.confirmed_written m hm)
    exact ⟨next, (nextOffsetOf_eq_ok.mp hnext).2,
      h.isPeak.written_le next ⟨m, h.confirmed_written m hm, hnext⟩⟩

end

end Kafkax
