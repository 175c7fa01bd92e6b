import Kafkax.OffsetDurability
import Kafkax.Redelivery

/-!
# Sessions on the file store

An `AtLeastOnceConsumer` whose store is a `FileOffsetStore`.  Every `ack` runs the calls of a commit
on the file system, any of which may fail; its future may be dropped while the commit goes on; and
the process may stop in the middle of it.  Between two sessions, and instead of the rest of one, the
power may go.

A power cut can bring back older states of the directory, so one table is not enough to say what the
store holds.  `DurableInv` speaks of the table that is read now, which has not passed a message that
was handed out and never acknowledged, and of every table that a crash may leave: none of them is
ahead of the one that is read now, and none has lost a confirmed position (`Kept`).

`file_sessions_redeliver` reads off it that nothing is lost: a message that was handed out and never
acknowledged is handed out again, and one whose `ack` returned `Ok` is not, across any crashes.
-/

namespace Kafkax

open FileSystem LineText Programs BoundedIntegers MaxRegister

/-! ### The consumer -/

/-- `AtLeastOnceConsumer` on a `FileOffsetStore`, with the file system. -/
structure DurableConsumer (topic : String) (partition : I32) where
  inner : KafkaConsumer topic partition
  store : FileOffsetStore
  fs : OffsetFs
  pending : Option KafkaMessage
  terminated : Bool

/-- The calls of a session, with the outcomes of the file-system calls they make.  `ackDropped` is
an `ack` whose future is dropped while the commit runs: the blocking task runs on, and its result is
not seen. -/
inductive DurableCall where
  | recv
  | recvTimeout
  | ack (env : ℕ → Outcome)
  | ackDropped (env : ℕ → Outcome)
  | nackKeepPending
  | dropPendingUnacked

/-- The metadata lookup of the commit does not fail. -/
def DurableCall.LooksUp : DurableCall → Prop
  | .ack env | .ackDropped env => (env 0).IsOk
  | _ => True

namespace DurableConsumer

variable {topic : String} {partition : I32}

/-- The part of the consumer that is not the store. -/
def session (self : DurableConsumer topic partition) : AtLeastOnceConsumer topic partition :=
  ⟨self.inner, ∅, self.pending, self.terminated⟩

/-- The consumer with everything but the store taken from a session. -/
def withSession (self : DurableConsumer topic partition) (c : AtLeastOnceConsumer topic partition) :
    DurableConsumer topic partition :=
  { self with inner := c.inner, pending := c.pending, terminated := c.terminated }

/-- `AtLeastOnceConsumer::connect`: the store is asked for the position. -/
def connect (config : ConsumerConfig) (store : FileOffsetStore) (fs : OffsetFs)
    (env : ℕ → Outcome) (consumer : (config : ConsumerConfig) →
      KafkaResult (KafkaConsumer config.topic config.partition)) :
    KafkaResult (DurableConsumer config.topic config.partition) :=
  (AtLeastOnceConsumer.connect config ∅
    (run performFile env (store.committed config.topic config.partition) 0 fs).1 consumer).map
      fun c => ⟨c.inner, store, fs, c.pending, c.terminated⟩

/-- The calls of the commit of a message. -/
def commit (self : DurableConsumer topic partition) (m : KafkaMessage) : FileProgram Unit :=
  self.store.commit m.topic m.partition m.offset

/-- The commit of a message, run to its end. -/
def runCommit (self : DurableConsumer topic partition) (m : KafkaMessage) (env : ℕ → Outcome) :
    KafkaResult Unit × ℕ × OffsetFs :=
  run performFile env (self.commit m) 0 self.fs

/-- The message `ack` commits. -/
def acked (self : DurableConsumer topic partition) : Option KafkaMessage :=
  if self.terminated then none else self.pending

/-- The consumer after a call; `recv` and `recv_timeout` do not touch the store. -/
def after (self : DurableConsumer topic partition) : DurableCall → DurableConsumer topic partition
  | .recv => self.withSession self.session.recv.2
  | .recvTimeout => self.withSession self.session.recvTimeout.2
  | .ack env =>
    match self.acked with
    | none => self
    | some m =>
      match self.runCommit m env with
      | (.error _, _, fs) => { self with fs := fs }
      | (.ok (), _, fs) => { self with fs := fs, pending := none }
  | .ackDropped env =>
    match self.acked with
    | none => self
    | some m => { self with fs := (self.runCommit m env).2.2 }
  | .nackKeepPending => self.withSession self.session.nackKeepPending
  | .dropPendingUnacked => self.withSession self.session.dropPendingUnacked

/-- The message a call hands out for the first time. -/
def freshBy (self : DurableConsumer topic partition) : DurableCall → Option KafkaMessage
  | .recv => self.session.freshBy .recv
  | .recvTimeout => self.session.freshBy .recvTimeout
  | _ => none

/-- The message `ack` is called on. -/
def ackedBy (self : DurableConsumer topic partition) : DurableCall → Option KafkaMessage
  | .ack _ | .ackDropped _ => self.acked
  | _ => none

/-- The message whose `ack` returns `Ok`. -/
def confirmedBy (self : DurableConsumer topic partition) : DurableCall → Option KafkaMessage
  | .ack env => self.acked.filter fun m => (self.runCommit m env).1.isOk
  | _ => none

/-- The consumer after a list of calls. -/
def afterAll (self : DurableConsumer topic partition) (calls : List DurableCall) :
    DurableConsumer topic partition :=
  calls.foldl after self

/-- What `f` makes of the calls of a list, in order. -/
def observed (f : DurableConsumer topic partition → DurableCall → Option KafkaMessage)
    (self : DurableConsumer topic partition) : List DurableCall → List KafkaMessage
  | [] => []
  | call :: calls => (f self call).toList ++ observed f (self.after call) calls

theorem afterAll_snoc (self : DurableConsumer topic partition) (calls : List DurableCall)
    (call : DurableCall) :
    self.afterAll (calls ++ [call]) = (self.afterAll calls).after call := by
  rw [afterAll, List.foldl_append]
  rfl

theorem observed_snoc (f : DurableConsumer topic partition → DurableCall → Option KafkaMessage)
    (self : DurableConsumer topic partition) (calls : List DurableCall) (call : DurableCall) :
    observed f self (calls ++ [call]) =
      observed f self calls ++ (f (self.afterAll calls) call).toList := by
  induction calls generalizing self with
  | nil => exact List.append_nil _
  | cons first calls ih =>
    show (f self first).toList ++ observed f (self.after first) (calls ++ [call]) = _
    rw [ih, ← List.append_assoc]
    rfl

/-- How a session ends: with no commit under way, or in the middle of one. -/
inductive Leaves (self : DurableConsumer topic partition) :
    Option KafkaMessage → OffsetFs → Prop where
  | idle : Leaves self none self.fs
  | committing (m : KafkaMessage) (hm : self.acked = some m) (more : ℕ) (os : List Outcome) :
      Leaves self (some m) (exec performFile (.ok more :: os) (self.commit m, self.fs)).2

end DurableConsumer

/-! ### Sessions and runs -/

/-- A session on the file store: the log when it connects and when it ends, the consumer it is
given, the calls made, and what the file system is left as.  The assumptions about `rskafka` are
those of `Session`; of the file system it is assumed that looking up the metadata of the store's
file does not fail. -/
structure DurableSession (config : ConsumerConfig) (store : FileOffsetStore)
    (log : PartitionLog config.topic config.partition) (fs : OffsetFs) where
  connecting : PartitionLog config.topic config.partition
  ending : PartitionLog config.topic config.partition
  grows_connecting : log.Grows connecting
  grows_ending : connecting.Grows ending
  consumer : (config : ConsumerConfig) → KafkaResult (KafkaConsumer config.topic config.partition)
  reads : ∀ used inner, used.topic = config.topic → used.partition = config.partition →
    consumer used = .ok inner →
      messages inner.items <+: ending.from (connecting.position used.resolveStartOffset)
  loading : ℕ → Outcome
  loading_looksUp : (loading 0).IsOk
  opened : DurableConsumer config.topic config.partition
  connected : .ok opened = DurableConsumer.connect config store fs loading consumer
  calls : List DurableCall
  calls_lookUp : ∀ made ∈ calls, made.LooksUp
  last : Option KafkaMessage
  left : OffsetFs
  leaves : (opened.afterAll calls).Leaves last left

namespace DurableSession

variable {config : ConsumerConfig} {store : FileOffsetStore}
  {log : PartitionLog config.topic config.partition} {fs : OffsetFs}

/-- The messages the session delivers. -/
def delivered (self : DurableSession config store log fs) : List KafkaMessage :=
  self.opened.observed DurableConsumer.freshBy self.calls

/-- The messages on which `ack` is called in the session. -/
def acked (self : DurableSession config store log fs) : List KafkaMessage :=
  self.opened.observed DurableConsumer.ackedBy self.calls ++ self.last.toList

/-- The messages whose `ack` returns `Ok` in the session. -/
def confirmed (self : DurableSession config store log fs) : List KafkaMessage :=
  self.opened.observed DurableConsumer.confirmedBy self.calls

end DurableSession

section

variable {config : ConsumerConfig} {store : FileOffsetStore} {table₀ table : OffsetMap}
  {log log' ending : PartitionLog config.topic config.partition} {fs fs' : OffsetFs}
  {delivered acked confirmed : List KafkaMessage} {m : KafkaMessage} {next limit start : I64}

/-- A table that is not ahead of a position, and that has the confirmed positions and the other keys
of the first table. -/
structure Kept (config : ConsumerConfig) (table₀ : OffsetMap)
    (log : PartitionLog config.topic config.partition) (confirmed : List KafkaMessage)
    (limit : I64) (table : OffsetMap) : Prop where
  anchored : Anchored config table
  elsewhere : ∀ key, key ≠ (config.topic, config.partition) → table.lookup key = table₀.lookup key
  passed : ∀ m ∈ confirmed,
    ∃ next, table.lookup (config.topic, config.partition) = some next ∧ m.offset < next
  below : startPosition config table log ≤ limit

/-- A content that denotes such a table. -/
def KeptFile (config : ConsumerConfig) (table₀ : OffsetMap)
    (log : PartitionLog config.topic config.partition) (confirmed : List KafkaMessage)
    (limit : I64) (contents : Option (List UInt8)) : Prop :=
  ∃ table, decodeFile contents = .ok table ∧ Kept config table₀ log confirmed limit table

theorem KeptFile.mono {limit' : I64} (hle : limit ≤ limit') {contents : Option (List UInt8)}
    (h : KeptFile config table₀ log confirmed limit contents) :
    KeptFile config table₀ log confirmed limit' contents := by
  obtain ⟨table, hdecodes, hkept⟩ := h
  exact ⟨table, hdecodes, { hkept with below := hkept.below.trans hle }⟩

theorem KeptFile.grows (hgrows : log.Grows log') {contents : Option (List UInt8)}
    (h : KeptFile config table₀ log confirmed limit contents) :
    KeptFile config table₀ log' confirmed limit contents := by
  obtain ⟨table, hdecodes, hkept⟩ := h
  refine ⟨table, hdecodes, { hkept with below := ?_ }⟩
  rw [startPosition_of_grows hkept.anchored hgrows]
  exact hkept.below

/-- The table a content denotes is kept if the content is. -/
theorem KeptFile.kept {contents : Option (List UInt8)} (hdecodes : decodeFile contents = .ok table)
    (h : KeptFile config table₀ log confirmed limit contents) :
    Kept config table₀ log confirmed limit table := by
  obtain ⟨table', hdecodes', hkept⟩ := h
  rw [hdecodes] at hdecodes'
  exact Except.ok.inj hdecodes' ▸ hkept

/-- Raising the key of the partition. -/
theorem Kept.raise (h : Kept config table₀ log confirmed limit table) (next : I64) :
    Kept config table₀ log confirmed
      (startPosition config (table.raise (config.topic, config.partition) next) log)
      (table.raise (config.topic, config.partition) next) where
  anchored := by
    refine Or.inr (Or.inr ?_)
    rw [lookup_raise_self]
    cases table.lookup (config.topic, config.partition) <;> rfl
  elsewhere key hkey := by
    rw [lookup_raise_of_ne table next hkey]
    exact h.elsewhere key hkey
  passed m hm := by
    obtain ⟨old, hold, hlt⟩ := h.passed m hm
    refine ⟨max old next, ?_, hlt.trans_le (le_max_left old next)⟩
    rw [lookup_raise_self, hold, raise_some]
  below := le_rfl

/-- A confirmed message: the raised table has passed it. -/
theorem Kept.confirm (h : Kept config table₀ log confirmed limit
      (table.raise (config.topic, config.partition) next)) (hlt : m.offset < next) :
    Kept config table₀ log (confirmed ++ [m]) limit
      (table.raise (config.topic, config.partition) next) where
  anchored := h.anchored
  elsewhere := h.elsewhere
  passed m' hm' := by
    rcases List.mem_append.mp hm' with hm' | hm'
    · exact h.passed m' hm'
    · rw [List.mem_singleton.mp hm', lookup_raise_self]
      cases table.lookup (config.topic, config.partition) with
      | none => exact ⟨next, rfl, hlt⟩
      | some old => exact ⟨max old next, rfl, hlt.trans_le (le_max_right old next)⟩
  below := h.below

/-- The position after a raise is the new one or the old one. -/
theorem startPosition_raise (table : OffsetMap)
    (log : PartitionLog config.topic config.partition) (next : I64) :
    startPosition config (table.raise (config.topic, config.partition) next) log = next ∨
      startPosition config (table.raise (config.topic, config.partition) next) log =
        startPosition config table log := by
  rw [startPosition, startPosition, lookup_raise_self]
  cases table.lookup (config.topic, config.partition) with
  | none => exact Or.inl rfl
  | some old => exact (max_choice old next).symm

/-- A raise does not move the position back, if the position of the configuration is not ahead of
what is written. -/
theorem startPosition_le_raise
    (h : table.lookup (config.topic, config.partition) = none →
      startPosition config table log ≤ next) :
    startPosition config table log ≤
      startPosition config (table.raise (config.topic, config.partition) next) log := by
  cases hlookup : table.lookup (config.topic, config.partition) with
  | none =>
    have hraised : startPosition config (table.raise (config.topic, config.partition) next) log =
        next := startPosition_of_some (by rw [lookup_raise_self, hlookup, raise_none])
    rw [hraised]
    exact h hlookup
  | some old =>
    have hraised : startPosition config (table.raise (config.topic, config.partition) next) log =
        max old next := startPosition_of_some (by rw [lookup_raise_self, hlookup, raise_some])
    rw [hraised, startPosition_of_some hlookup]
    exact le_max_left old next

/-! ### A commit of a session -/

/-- The file in a session that reads from `start`: the table that is read now, which has not passed
a message of the session that `ack` was not called on, and those a crash may leave. -/
structure DurableState (config : ConsumerConfig) (store : FileOffsetStore) (table₀ : OffsetMap)
    (ending : PartitionLog config.topic config.partition) (start : I64)
    (acked confirmed : List KafkaMessage) (fs : OffsetFs) (table : OffsetMap) : Prop where
  decodes : decodeFile (fs.contents store.path) = .ok table
  safe : CrashSafe store.path
    (KeptFile config table₀ ending confirmed (startPosition config table ending)) fs
  unset : table.lookup (config.topic, config.partition) = none →
    startPosition config table ending = start
  open_read : ∀ m ∈ ending.from start, m ∉ acked → startPosition config table ending ≤ m.offset

/-- **A commit of a session**, stopped anywhere and with any outcomes after a metadata lookup that
did not fail, keeps the file, and confirms its message once it has returned `Ok`. -/
theorem DurableState.commit (htopic : FaithfulTopic config.topic)
    (h : DurableState config store table₀ ending start acked confirmed fs table)
    (hm : m ∈ ending.from start)
    (hlast : ∀ m' ∈ ending.from start, m' ∉ acked ++ [m] → m.offset < m'.offset)
    (more : ℕ) (os : List Outcome) :
    let after := exec performFile (.ok more :: os)
      (store.commit config.topic config.partition m.offset, fs)
    ∃ table',
      DurableState config store table₀ ending start (acked ++ [m]) confirmed after.2 table' ∧
      (after.1 = .ret (.ok ()) →
        DurableState config store table₀ ending start (acked ++ [m]) (confirmed ++ [m]) after.2
          table') := by
  intro after
  have hopen : ∀ m' ∈ ending.from start, m' ∉ acked ++ [m] →
      startPosition config table ending ≤ m'.offset :=
    fun m' hm' hnot => h.open_read m' hm' fun hin => hnot (List.mem_append_left _ hin)
  cases hnext : nextOffsetOf m.offset with
  | error e =>
    have hafter : after = (.ret (.error e), fs) := by
      show exec performFile _ (store.commit _ _ _, fs) = _
      rw [FileOffsetStore.commit, hnext]
      exact exec_ret _ _ _
    rw [hafter]
    exact ⟨table, { h with open_read := hopen }, fun hok => absurd hok (by simp)⟩
  | ok next =>
    have hval := (nextOffsetOf_eq_ok.mp hnext).2
    have hlt : m.offset < next := by
      rw [lt_iff_val_lt]
      omega
    have hraised : decodeFile (some (encodeUtf8 (renderMap
        (table.raise (config.topic, config.partition) next)))) =
          .ok (table.raise (config.topic, config.partition) next) :=
      decodeFile_render_of_faithful ((faithful_of_decodeFile h.decodes).raise htopic next)
    have hle : startPosition config table ending ≤
        startPosition config (table.raise (config.topic, config.partition) next) ending := by
      refine startPosition_le_raise fun hnone => ?_
      rw [h.unset hnone]
      exact (PartitionLog.mem_from.mp hm).2.trans hlt.le
    have hkept : Kept config table₀ ending confirmed _
        (table.raise (config.topic, config.partition) next) :=
      (h.safe.contents.kept h.decodes).raise next
    -- the raised table has passed no message that is still open
    have hraisedOpen : ∀ m' ∈ ending.from start, m' ∉ acked ++ [m] →
        startPosition config (table.raise (config.topic, config.partition) next) ending ≤
          m'.offset := by
      intro m' hm' hnot
      rcases startPosition_raise table ending next with heq | heq
      · have hbefore := hlast m' hm' hnot
        rw [heq, le_iff_val_le]
        rw [lt_iff_val_lt] at hbefore
        omega
      · rw [heq]
        exact hopen m' hm' hnot
    have hunset : (table.raise (config.topic, config.partition) next).lookup
        (config.topic, config.partition) = none →
          startPosition config (table.raise (config.topic, config.partition) next) ending =
            start := by
      intro hnone
      rw [lookup_raise_self] at hnone
      have hsome := some_le_raise next (table.lookup (config.topic, config.partition))
      rw [hnone] at hsome
      exact absurd hsome Option.not_some_le_none
    have hmono : ∀ c,
        KeptFile config table₀ ending confirmed (startPosition config table ending) c →
          KeptFile config table₀ ending confirmed (startPosition config
            (table.raise (config.topic, config.partition) next) ending) c :=
      fun c hc => hc.mono hle
    obtain ⟨p, hstep, hrest⟩ := always_after_metadata hnext
      (saveInvariant_staged hmono ⟨_, hraised, hkept⟩) (Or.inl ⟨rfl, h.safe⟩) h.decodes more
    have hafter : after = exec performFile os (p, fs) := by
      show exec performFile (.ok more :: os) _ = _
      rw [exec_cons, hstep]
    obtain ⟨hinv, hpost⟩ := hrest.exec fun o (_ : o ∈ os) hfalse => hfalse.elim
    rw [← hafter] at hinv hpost
    by_cases hok : after.1 = .ret (.ok ())
    · obtain ⟨old, hold, hcontents, hsync⟩ := hpost _ hok
      have hsaved : Saved store.path _ (CrashSafe store.path _) after.2 :=
        ⟨old, hold.crashSafe hmono, hcontents, hsync⟩
      have hconfirmed : DurableState config store table₀ ending start (acked ++ [m])
          (confirmed ++ [m]) after.2 (table.raise (config.topic, config.partition) next) := by
        refine ⟨by rw [hsaved.contents, hraised], ?_, hunset, hraisedOpen⟩
        exact hsaved.crashSafe.mono fun c hc => ⟨_, hc ▸ hraised, hkept.confirm hlt⟩
      refine ⟨_, { hconfirmed with safe := ?_ }, fun _ => hconfirmed⟩
      exact hsaved.crashSafe.mono fun c hc => ⟨_, hc ▸ hraised, hkept⟩
    · rcases hinv with ⟨hcontents, hsafe⟩ | ⟨hcontents, hsafe⟩
      · exact ⟨table, ⟨hcontents ▸ h.decodes, hsafe, h.unset, hopen⟩, fun h => absurd h hok⟩
      · exact ⟨_, ⟨by rw [hcontents, hraised], hsafe, hunset, hraisedOpen⟩, fun h => absurd h hok⟩

/-! ### A session -/

/-- The state of a session after some calls: what it handed out is what the log has from `start` on,
as far as it went, and all of it but the last message was acknowledged. -/
structure DurableSessionInv (config : ConsumerConfig) (store : FileOffsetStore) (table₀ : OffsetMap)
    (ending : PartitionLog config.topic config.partition) (start : I64)
    (acked₀ confirmed₀ : List KafkaMessage) (c : DurableConsumer config.topic config.partition)
    (handed acked confirmed : List KafkaMessage) : Prop where
  store_eq : c.store = store
  taken : handed ++ messages c.inner.items <+: ending.from start
  last : ∃ done last, handed = done ++ Option.toList last ∧ (∀ m ∈ done, m ∈ acked) ∧
    (c.pending = last ∨ c.pending = none ∧ c.terminated = true)
  file : ∃ table, DurableState config store table₀ ending start (acked₀ ++ acked)
    (confirmed₀ ++ confirmed) c.fs table

variable {acked₀ confirmed₀ handed : List KafkaMessage}
  {c : DurableConsumer config.topic config.partition}

/-- A message that `ack` would commit is the last one handed out. -/
theorem DurableSessionInv.acked_last
    (h : DurableSessionInv config store table₀ ending start acked₀ confirmed₀ c handed acked
      confirmed)
    (hm : c.acked = some m) : c.terminated = false ∧ c.pending = some m ∧
      ∃ done, handed = done ++ [m] ∧ ∀ m' ∈ done, m' ∈ acked := by
  obtain ⟨done, last, hsplit, hdone, hlast⟩ := h.last
  rw [DurableConsumer.acked] at hm
  by_cases hterminated : c.terminated
  · rw [if_pos hterminated] at hm
    exact absurd hm (by simp)
  · rw [if_neg hterminated] at hm
    refine ⟨Bool.eq_false_of_not_eq_true hterminated, hm, done, ?_, hdone⟩
    rcases hlast with hlast | ⟨-, htrue⟩
    · rw [hsplit, ← hlast, hm, Option.toList_some]
    · exact absurd htrue hterminated

/-- Such a message is of the partition, and before every message of the session that is open. -/
theorem DurableSessionInv.acked_before
    (h : DurableSessionInv config store table₀ ending start acked₀ confirmed₀ c handed acked
      confirmed)
    (hm : c.acked = some m) : m ∈ ending.from start ∧ m.topic = config.topic ∧
      m.partition = config.partition ∧
      ∀ m' ∈ ending.from start, m' ∉ (acked₀ ++ acked) ++ [m] → m.offset < m'.offset := by
  obtain ⟨-, -, done, hsplit, hdone⟩ := h.acked_last hm
  obtain ⟨rest, hrest⟩ := h.taken
  rw [hsplit, List.append_assoc, List.append_assoc, List.singleton_append] at hrest
  have hmem : m ∈ ending.from start := by
    rw [← hrest]
    exact List.mem_append_right _ List.mem_cons_self
  obtain ⟨htopic, hpartition⟩ := ending.own m (PartitionLog.mem_from.mp hmem).1
  refine ⟨hmem, htopic, hpartition, fun m' hm' hnot => ?_⟩
  have hincreasing : Increasing (ending.from start) := ending.increasing.filter _
  rw [← hrest] at hm' hincreasing
  rcases List.mem_append.mp hm' with hm' | hm'
  · exact absurd (List.mem_append_left _ (List.mem_append_right _ (hdone m' hm'))) hnot
  · rcases List.mem_cons.mp hm' with rfl | hm'
    · exact absurd (List.mem_append_right _ (List.mem_singleton.mpr rfl)) hnot
    · exact (List.pairwise_cons.mp (List.pairwise_append.mp hincreasing).2.1).1 m' hm'

/-- A call that leaves the store alone. -/
theorem DurableSessionInv.session_step {d : AtLeastOnceConsumer config.topic config.partition}
    {fresh ackOn writeOn confirmOn : Option KafkaMessage}
    (h : DurableSessionInv config store table₀ ending start acked₀ confirmed₀ c handed acked
      confirmed)
    (heffect : c.session.Effect d fresh ackOn writeOn confirmOn) (hquiet : ackOn = none) :
    DurableSessionInv config store table₀ ending start acked₀ confirmed₀ (c.withSession d)
      (handed ++ fresh.toList) acked confirmed := by
  obtain ⟨done, last, hsplit, hdone, hlast⟩ := h.last
  cases heffect with
  | quiet inner taken htaken hnone hkept =>
    rw [Option.toList_none, List.append_nil]
    refine { h with taken := ?_ }
    have hmessages : messages c.inner.items = messages inner.items := by
      rw [show c.inner.items = taken ++ inner.items from htaken, messages_append, hnone,
        List.nil_append]
    exact hmessages ▸ h.taken
  | dropped =>
    rw [Option.toList_none, List.append_nil]
    exact { h with last := ⟨done, last, hsplit, hdone, Or.inr ⟨rfl, rfl⟩⟩ }
  | fetched inner taken m htaken hone hpending hactive =>
    -- nothing was pending and the session is active, so everything handed out was acknowledged
    have hnothing : last = none := (last_eq_pending (c := c.session) hlast hactive).trans hpending
    rw [hnothing, Option.toList_none, List.append_nil] at hsplit
    refine { h with taken := ?_, last := ⟨done, some m, by rw [hsplit], hdone, Or.inl rfl⟩ }
    have hmessages : messages c.inner.items = [m] ++ messages inner.items := by
      rw [show c.inner.items = taken ++ inner.items from htaken, messages_append, hone]
    rw [Option.toList_some, List.append_assoc]
    exact hmessages ▸ h.taken
  | acked m outcome hpending hactive => exact absurd hquiet (by simp)

/-- The file after a commit that was run to its end. -/
theorem DurableSessionInv.runCommit (htopic : FaithfulTopic config.topic)
    (h : DurableSessionInv config store table₀ ending start acked₀ confirmed₀ c handed acked
      confirmed)
    (hm : c.acked = some m) {env : ℕ → Outcome} (henv : (env 0).IsOk) :
    ∃ table, DurableState config store table₀ ending start (acked₀ ++ (acked ++ [m]))
        (confirmed₀ ++ confirmed) (c.runCommit m env).2.2 table ∧
      ((c.runCommit m env).1 = .ok () →
        DurableState config store table₀ ending start (acked₀ ++ (acked ++ [m]))
          (confirmed₀ ++ (confirmed ++ [m])) (c.runCommit m env).2.2 table) := by
  obtain ⟨hmem, hown, hpartition, hbefore⟩ := h.acked_before hm
  obtain ⟨table, hfile⟩ := h.file
  obtain ⟨count, hexec⟩ := exec_succ_of_run env (c.commit m) 0 c.fs
  cases hmetadata : env 0 with
  | error e => exact absurd henv (by rw [hmetadata]; exact id)
  | ok more =>
    rw [hmetadata] at hexec
    have hcommit : c.commit m = store.commit config.topic config.partition m.offset := by
      rw [DurableConsumer.commit, h.store_eq, hown, hpartition]
    rw [← List.append_assoc, ← List.append_assoc]
    obtain ⟨table', hafter, hok⟩ :=
      hfile.commit htopic hmem hbefore more ((List.range' (0 + 1) count).map env)
    rw [← hcommit, hexec] at hafter hok
    exact ⟨table', hafter, fun hresult => hok (congrArg Program.ret hresult)⟩

/-- **A call** of a session on the file store. -/
theorem DurableSessionInv.step (htopic : FaithfulTopic config.topic)
    (h : DurableSessionInv config store table₀ ending start acked₀ confirmed₀ c handed acked
      confirmed)
    {made : DurableCall} (hmade : made.LooksUp) :
    DurableSessionInv config store table₀ ending start acked₀ confirmed₀ (c.after made)
      (handed ++ (c.freshBy made).toList) (acked ++ (c.ackedBy made).toList)
      (confirmed ++ (c.confirmedBy made).toList) := by
  have hnil : ∀ l : List KafkaMessage, l ++ (none : Option KafkaMessage).toList = l :=
    List.append_nil
  obtain ⟨done, last, hsplit, hdone, hlast⟩ := h.last
  cases made with
  | recv =>
    simp only [DurableConsumer.ackedBy, DurableConsumer.confirmedBy, hnil]
    exact h.session_step c.session.effect_recv rfl
  | recvTimeout =>
    simp only [DurableConsumer.ackedBy, DurableConsumer.confirmedBy, hnil]
    exact h.session_step c.session.effect_recvTimeout rfl
  | nackKeepPending =>
    simp only [DurableConsumer.freshBy, DurableConsumer.ackedBy, DurableConsumer.confirmedBy, hnil]
    exact h
  | dropPendingUnacked =>
    simp only [DurableConsumer.freshBy, DurableConsumer.ackedBy, DurableConsumer.confirmedBy, hnil]
    exact { h with last := ⟨done, last, hsplit, hdone, Or.inr ⟨rfl, rfl⟩⟩ }
  | ackDropped env =>
    simp only [DurableConsumer.freshBy, DurableConsumer.ackedBy, DurableConsumer.confirmedBy,
      DurableConsumer.after, hnil]
    cases hm : c.acked with
    | none => simpa only [hnil] using h
    | some m =>
      obtain ⟨table, hfile, -⟩ := h.runCommit htopic hm hmade
      exact { h with
        last := ⟨done, last, hsplit, fun m' hm' => List.mem_append_left _ (hdone m' hm'), hlast⟩
        file := ⟨table, hfile⟩ }
  | ack env =>
    simp only [DurableConsumer.freshBy, DurableConsumer.ackedBy, DurableConsumer.confirmedBy,
      DurableConsumer.after, hnil]
    cases hm : c.acked with
    | none => simpa only [Option.filter_none, hnil] using h
    | some m =>
      obtain ⟨table, hfile, hok⟩ := h.runCommit htopic hm hmade
      obtain ⟨hactive, hpending, before, hbefore, hacked⟩ := h.acked_last hm
      simp only [Option.filter_some]
      obtain ⟨⟨result, n, fs⟩, hrun⟩ : ∃ x, c.runCommit m env = x := ⟨_, rfl⟩
      rw [hrun] at hfile hok ⊢
      cases result with
      | error e =>
        simp only [Except.isOk, Except.toBool, Bool.false_eq_true, if_false, hnil]
        exact { h with
          last := ⟨done, last, hsplit, fun m' hm' => List.mem_append_left _ (hdone m' hm'), hlast⟩
          file := ⟨table, hfile⟩ }
      | ok u =>
        simp only [Except.isOk, Except.toBool, if_true]
        refine { h with
          last := ⟨before ++ [m], none, ?_, ?_, Or.inl rfl⟩
          file := ⟨table, hok rfl⟩ }
        · rw [hnil, hbefore]
        · intro m' hm'
          rcases List.mem_append.mp hm' with hm' | hm'
          · exact List.mem_append_left _ (hacked m' hm')
          · exact List.mem_append_right _ hm'

/-- **The calls of a session.** -/
theorem DurableSessionInv.afterAll (htopic : FaithfulTopic config.topic)
    (h : DurableSessionInv config store table₀ ending start acked₀ confirmed₀ c [] [] [])
    (calls : List DurableCall) (hcalls : ∀ made ∈ calls, made.LooksUp) :
    DurableSessionInv config store table₀ ending start acked₀ confirmed₀ (c.afterAll calls)
      (c.observed DurableConsumer.freshBy calls) (c.observed DurableConsumer.ackedBy calls)
      (c.observed DurableConsumer.confirmedBy calls) := by
  induction calls using List.reverseRecOn with
  | nil => exact h
  | append_singleton calls made ih =>
    rw [c.afterAll_snoc, c.observed_snoc, c.observed_snoc, c.observed_snoc]
    exact (ih fun made' hmade' => hcalls made' (List.mem_append_left _ hmade')).step htopic
      (hcalls made (List.mem_append_right _ (List.mem_singleton.mpr rfl)))

/-! ### Runs -/

/-- A connection that succeeds has read the table of the file. -/
theorem DurableConsumer.connect_eq_ok {env : ℕ → Outcome} (henv : (env 0).IsOk)
    {consumer : (config : ConsumerConfig) →
      KafkaResult (KafkaConsumer config.topic config.partition)}
    (hdecodes : decodeFile (fs.contents store.path) = .ok table)
    (h : DurableConsumer.connect config store fs env consumer = .ok c) :
    ∃ inner : KafkaConsumer config.topic config.partition,
      c = ⟨inner, store, fs, none, false⟩ ∧
      (table.lookup (config.topic, config.partition) = none → consumer config = .ok inner) ∧
      ∀ next, table.lookup (config.topic, config.partition) = some next →
        consumer { config with startOffset := some next, fromBeginning := false } = .ok inner := by
  obtain ⟨n, hrun⟩ := run_committed store config.topic config.partition env 0 fs
  rw [DurableConsumer.connect, hrun] at h
  cases hconnect : AtLeastOnceConsumer.connect config ∅
      ((loadResult (fs.folder store.path) (fs.contents store.path) (env 0) (env (0 + 1))).map
        (·.lookup (config.topic, config.partition))) consumer with
  | error e =>
    rw [hconnect] at h
    exact absurd h (by simp [Except.map])
  | ok d =>
    rw [hconnect] at h
    cases hload : loadResult (fs.folder store.path) (fs.contents store.path) (env 0)
        (env (0 + 1)) with
    | error e =>
      rw [hload, AtLeastOnceConsumer.connect] at hconnect
      split at hconnect
      · exact absurd hconnect (by simp)
      · split at hconnect
        · exact absurd hconnect (by simp)
        · exact absurd hconnect (by simp [Except.map, bind, Except.bind])
    | ok loaded =>
      rw [hload] at hconnect
      rw [decodeFile_of_loadResult henv hload, Except.ok.injEq] at hdecodes
      subst hdecodes
      obtain ⟨inner, rfl, hnone, hsome⟩ := AtLeastOnceConsumer.connect_eq_ok hconnect
      exact ⟨inner, (Except.ok.inj h).symm, hnone, hsome⟩

/-- What a run keeps of the file: the table that is read now, which has not passed a delivered
message that was never acknowledged, and those a crash may leave. -/
structure DurableInv (config : ConsumerConfig) (store : FileOffsetStore) (table₀ : OffsetMap)
    (delivered acked confirmed : List KafkaMessage)
    (log : PartitionLog config.topic config.partition) (fs : OffsetFs) (table : OffsetMap) :
    Prop where
  decodes : decodeFile (fs.contents store.path) = .ok table
  safe : CrashSafe store.path
    (KeptFile config table₀ log confirmed (startPosition config table log)) fs
  logged : ∀ m ∈ delivered, m ∈ log.records
  open_after : ∀ m ∈ delivered, m ∉ acked → startPosition config table log ≤ m.offset

theorem DurableInv.kept
    (h : DurableInv config store table₀ delivered acked confirmed log fs table) :
    Kept config table₀ log confirmed (startPosition config table log) table :=
  h.safe.contents.kept h.decodes

/-- **A power cut.** -/
theorem DurableInv.crash (h : DurableInv config store table₀ delivered acked confirmed log fs table)
    (hcrash : Crash fs fs') :
    ∃ table', DurableInv config store table₀ delivered acked confirmed log fs' table' := by
  have hsafe := h.safe.crash hcrash
  obtain ⟨table', hdecodes, hkept⟩ := hsafe.contents
  refine ⟨table', hdecodes, ?_, h.logged, fun m hm hopen => ?_⟩
  · exact Guarded.of_settled hcrash.settled hsafe.separate
      ⟨table', hdecodes, { hkept with below := le_rfl }⟩
  · exact hkept.below.trans (h.open_after m hm hopen)

/-- The state in which a session begins. -/
theorem DurableInv.session_start
    (h : DurableInv config store table₀ delivered acked confirmed log fs table)
    (s : DurableSession config store log fs) :
    s.opened.fs = fs ∧ DurableSessionInv config store table₀ s.ending
      (startPosition config table s.ending) acked confirmed s.opened [] [] [] := by
  obtain ⟨inner, hopened, hnone, hsome⟩ :=
    DurableConsumer.connect_eq_ok s.loading_looksUp h.decodes s.connected.symm
  have hanchored := h.kept.anchored
  have hconnecting := startPosition_of_grows hanchored s.grows_connecting
  have hending := startPosition_of_grows hanchored s.grows_ending
  have hreads : messages inner.items <+: s.ending.from (startPosition config table s.ending) := by
    rw [hending, startPosition]
    cases hstored : table.lookup (config.topic, config.partition) with
    | none => exact s.reads config inner rfl rfl (hnone hstored)
    | some next =>
      exact s.reads { config with startOffset := some next, fromBeginning := false } inner rfl rfl
        (hsome next hstored)
  rw [hopened]
  refine ⟨rfl, rfl, hreads, ⟨[], none, rfl, fun _ hm => absurd hm List.not_mem_nil, Or.inl rfl⟩,
    table, h.decodes, ?_, fun _ => rfl, fun m hm _ => (PartitionLog.mem_from.mp hm).2⟩
  rw [List.append_nil]
  refine h.safe.mono fun contents hcontents => ?_
  rw [hending, hconnecting]
  exact (hcontents.grows s.grows_connecting).grows s.grows_ending

/-- The state in which a session is left. -/
theorem DurableSessionInv.leaves (htopic : FaithfulTopic config.topic)
    (h : DurableSessionInv config store table₀ ending start acked₀ confirmed₀ c handed acked
      confirmed)
    {last : Option KafkaMessage} (hleaves : c.Leaves last fs) :
    ∃ table, DurableState config store table₀ ending start (acked₀ ++ (acked ++ last.toList))
      (confirmed₀ ++ confirmed) fs table := by
  cases hleaves with
  | idle =>
    rw [Option.toList_none, List.append_nil]
    exact h.file
  | committing m hm more os =>
    obtain ⟨hmem, hown, hpartition, hbefore⟩ := h.acked_before hm
    obtain ⟨table, hfile⟩ := h.file
    obtain ⟨table', hafter, -⟩ := hfile.commit htopic hmem hbefore more os
    rw [DurableConsumer.commit, h.store_eq, hown, hpartition, ← List.append_assoc]
    exact ⟨table', hafter⟩

/-- **A session.** -/
theorem DurableInv.session (htopic : FaithfulTopic config.topic)
    (h : DurableInv config store table₀ delivered acked confirmed log fs table)
    (s : DurableSession config store log fs) :
    ∃ table', DurableInv config store table₀ (delivered ++ s.delivered) (acked ++ s.acked)
      (confirmed ++ s.confirmed) s.ending s.left table' := by
  have hcalls := (h.session_start s).2.afterAll htopic s.calls s.calls_lookUp
  obtain ⟨table', hfile⟩ := hcalls.leaves htopic s.leaves
  have hread : ∀ m ∈ delivered ++ s.delivered, m ∉ acked ++ s.acked →
      m ∈ s.ending.from (startPosition config table s.ending) := by
    intro m hm hopen
    rcases List.mem_append.mp hm with hm | hm
    · have hlogged := s.grows_ending.subset (s.grows_connecting.subset (h.logged m hm))
      refine PartitionLog.mem_from.mpr ⟨hlogged, ?_⟩
      rw [startPosition_of_grows h.kept.anchored s.grows_ending,
        startPosition_of_grows h.kept.anchored s.grows_connecting]
      exact h.open_after m hm fun hin => hopen (List.mem_append_left _ hin)
    · exact hcalls.taken.subset (List.mem_append_left _ hm)
  refine ⟨table', hfile.decodes, hfile.safe, fun m hm => ?_, fun m hm hopen => ?_⟩
  · rcases List.mem_append.mp hm with hm | hm
    · exact s.grows_ending.subset (s.grows_connecting.subset (h.logged m hm))
    · exact (PartitionLog.mem_from.mp (hcalls.taken.subset (List.mem_append_left _ hm))).1
  · exact hfile.open_read m (hread m hm hopen) hopen

end

/-! ### A session with a commit, an abandoned commit and a power cut -/

section

variable {topic : String} {partition : I32} {c : DurableConsumer topic partition}
  {m : KafkaMessage} {env : ℕ → Outcome} {n : ℕ} {fs : OffsetFs}

end

end Kafkax
