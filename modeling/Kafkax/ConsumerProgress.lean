import Kafkax.ConsumerTask
import Kafkax.Library.Progress

/-!
# A caller that keeps calling gets the stream

`consumer_faithful` says that a caller gets nothing but the stream.  Here is that it gets all of it.

`Serves` is a step of the background task, or of a caller who calls `recv` or `recv_timeout` and
waits, while the pool is open.  Every such step raises `served`, which is bounded by what was
delivered because the queue is (`served_le`): in `n` steps about `n / 4` items are delivered.  And
if none is possible the stream is over, the last call can be answered with the end, and everything
up to the first error was delivered.
-/

namespace Kafkax.Pipeline

open BoundedChannel Relation Progress

variable {config : ConsumerConfig} {stream : ℕ → Option StreamItem} {s s' : Pipeline}

/-- The items sent to the queue. -/
def sent (s : Pipeline) : List (KafkaResult KafkaMessage) := delivered s.answers ++ s.queue.items

/-- A step while the pool stays open and the consumer in use, in which no call is given up. -/
structure Serves (config : ConsumerConfig) (stream : ℕ → Option StreamItem) (s s' : Pipeline) :
    Prop where
  step : Step config stream s s'
  changes : s' ≠ s
  opened : s.closed = false ∧ s'.closed = false
  used : s.dropped = false ∧ s'.dropped = false
  patient : s.call ≠ .idle →
    s'.call ≠ .idle ∨ (delivered s.answers).length < (delivered s'.answers).length

/-- The steps that were taken: polls and the end of the task, sends, calls and answers. -/
def served (s : Pipeline) : ℕ :=
  s.polls + (match s.task with | .finished => 1 | _ => 0) + s.sent.length +
    2 * (delivered s.answers).length + (if s.call = .idle then 0 else 1)

/-! ### The task of an open pool -/

/-- What the task has done while the pool was open: it sent what it polled, and it has ended only
with the stream or after an error. -/
structure OpenInv (config : ConsumerConfig) (stream : ℕ → Option StreamItem) (s : Pipeline) :
    Prop where
  closed_of_shutdown : s.shutdown = true → s.closed = true
  finished : s.task = .finished → s.closed = false → s.dropped = false →
    s.sent = produced config stream s.polls ∧
      (stream s.polls = none ∨ ∃ e, .error e ∈ s.sent)

theorem openInv_connected : OpenInv config stream connected :=
  ⟨fun h => absurd h (by simp [connected]), fun h => absurd h (by simp [connected])⟩

/-- A step of the caller or of a `close`: no item is sent. -/
theorem OpenInv.of_same (h : OpenInv config stream s)
    (hshutdown : s'.shutdown = true → s'.closed = true) (hpolls : s'.polls = s.polls)
    (htask : s'.task = s.task) (hsent : s'.sent = s.sent)
    (hclosed : s'.closed = false → s.closed = false)
    (hdropped : s'.dropped = false → s.dropped = false) : OpenInv config stream s' := by
  refine ⟨hshutdown, fun hfinished hopened hused => ?_⟩
  rw [hsent, hpolls]
  exact h.finished (htask ▸ hfinished) (hclosed hopened) (hdropped hused)

theorem sent_receive (h : PipelineInv config stream s) {result : KafkaResult KafkaMessage}
    (hfront : s.queue.items.head? = some result) :
    delivered (s.answers ++ [s.call.answer (some result)]) = delivered s.answers ++ [result] ∧
      delivered s.answers ++ [result] ++ s.queue.pop.items = s.sent := by
  obtain ⟨rest, hitems⟩ := List.head?_eq_some_iff.mp hfront
  have hmem : result ∈ s.sent := by
    rw [sent, hitems]
    exact List.mem_append_right _ List.mem_cons_self
  obtain ⟨item, hitem⟩ := h.sent_output hmem
  have hanswer : (s.call.answer (some result)).item? = some result := by
    rw [hitem]
    exact item?_answer s.call config item
  refine ⟨delivered_snoc_of_some hanswer, ?_⟩
  rw [sent, Channel.items_pop, hitems, List.append_assoc]
  rfl

/-- **A step** keeps what the task has done. -/
theorem OpenInv.step (h : OpenInv config stream s) (hinv : PipelineInv config stream s)
    (hstep : Step config stream s s') : OpenInv config stream s' := by
  have hpolling : s.task = .polling → s.sent = produced config stream s.polls := by
    intro htask
    have htaskInv := hinv.task
    rw [htask] at htaskInv
    exact htaskInv.1
  cases hstep with
  | breakPolling htask hshutdown =>
    refine ⟨h.closed_of_shutdown, fun _ hopened => ?_⟩
    rw [show s.closed = true from h.closed_of_shutdown hshutdown] at hopened
    exact absurd hopened (by simp)
  | breakSending result htask hshutdown =>
    refine ⟨h.closed_of_shutdown, fun _ hopened => ?_⟩
    rw [show s.closed = true from h.closed_of_shutdown hshutdown] at hopened
    exact absurd hopened (by simp)
  | sendFails result htask hdropped =>
    refine ⟨h.closed_of_shutdown, fun _ _ hused => ?_⟩
    rw [show s.dropped = true from hdropped] at hused
    exact absurd hused (by simp)
  | abort hdropped =>
    refine ⟨h.closed_of_shutdown, fun _ _ hused => ?_⟩
    rw [show s.dropped = true from hdropped] at hused
    exact absurd hused (by simp)
  | next item htask hitem =>
    exact ⟨h.closed_of_shutdown, fun hfinished => absurd hfinished (by simp)⟩
  | streamEnd htask hend => exact ⟨h.closed_of_shutdown, fun _ _ _ => ⟨hpolling htask, Or.inl hend⟩⟩
  | send result htask hroom hreceiver =>
    have htaskInv := hinv.task
    rw [htask] at htaskInv
    refine ⟨h.closed_of_shutdown, fun hfinished _ _ => ?_⟩
    cases result with
    | ok message => exact absurd hfinished (by simp)
    | error e =>
      have hsent : delivered s.answers ++ (s.queue.push (.error e) hroom).items =
          produced config stream s.polls := by
        rw [← htaskInv.1, Channel.items_push, List.append_assoc]
      refine ⟨hsent, Or.inr ⟨e, ?_⟩⟩
      show .error e ∈ delivered s.answers ++ (s.queue.items ++ [.error e])
      rw [← List.append_assoc]
      exact List.mem_append_right _ (List.mem_singleton.mpr rfl)
  | storeClosed => exact ⟨fun _ => rfl, fun _ hopened => absurd hopened (by simp)⟩
  | broadcast hclosed => exact h.of_same (fun _ => hclosed) rfl rfl rfl id id
  | recv hidle hreceiver =>
    split
    · refine h.of_same h.closed_of_shutdown rfl rfl ?_ id id
      exact congrArg (· ++ s.queue.items) (delivered_snoc_of_none errorItem?_poolClosed)
    · exact h.of_same h.closed_of_shutdown rfl rfl rfl id id
  | recvTimeout hidle hreceiver =>
    split
    · refine h.of_same h.closed_of_shutdown rfl rfl ?_ id id
      exact congrArg (· ++ s.queue.items) (delivered_snoc_of_none errorItem?_poolClosed)
    · exact h.of_same h.closed_of_shutdown rfl rfl rfl id id
  | receive result hcall hfront =>
    obtain ⟨hdelivered, hsent⟩ := sent_receive hinv hfront
    refine h.of_same h.closed_of_shutdown rfl rfl ?_ id id
    exact (congrArg (· ++ s.queue.pop.items) hdelivered).trans hsent
  | receiveEnd hcall hempty htask =>
    refine h.of_same h.closed_of_shutdown rfl rfl ?_ id id
    exact congrArg (· ++ s.queue.items) (delivered_snoc_of_none (item?_answer_none s.call))
  | timeout hcall =>
    refine h.of_same h.closed_of_shutdown rfl rfl ?_ id id
    exact congrArg (· ++ s.queue.items) (delivered_snoc_of_none errorItem?_recvTimedOut)
  | dropCall => exact h.of_same h.closed_of_shutdown rfl rfl rfl id id
  | drop hidle =>
    exact h.of_same h.closed_of_shutdown rfl rfl rfl id fun hused => absurd hused (by simp)

/-- **A run** keeps both invariants. -/
theorem openInv_of_reachable (h : Reachable config stream s) :
    PipelineInv config stream s ∧ OpenInv config stream s := by
  induction h with
  | refl => exact ⟨pipelineInv_connected, openInv_connected⟩
  | tail _ hstep ih => exact ⟨ih.1.step hstep, ih.2.step ih.1 hstep⟩

/-! ### Bounded delay -/

/-- **Every step that serves** raises the number of steps taken. -/
theorem served_lt (hinv : PipelineInv config stream s) (hopen : OpenInv config stream s)
    (h : Serves config stream s s') : s.served < s'.served := by
  obtain ⟨hclosed, hclosed'⟩ := h.opened
  obtain ⟨hused, hused'⟩ := h.used
  have hpatient := h.patient
  have hshutdown : s.shutdown ≠ true := by
    intro hshutdown
    rw [hopen.closed_of_shutdown hshutdown] at hclosed
    exact absurd hclosed (by simp)
  -- a call that is given up delivers nothing
  have gives_up : ∀ {answer : Answer}, answer.item? = none → s.call ≠ .idle →
      ¬ ((Call.idle ≠ .idle) ∨
        (delivered s.answers).length < (delivered (s.answers ++ [answer])).length) := by
    intro answer hnone hcall
    rw [delivered_snoc_of_none hnone]
    exact not_or.mpr ⟨fun hne => hne rfl, lt_irrefl _⟩
  cases h.step with
  | breakPolling htask hshut => exact absurd hshut hshutdown
  | breakSending result htask hshut => exact absurd hshut hshutdown
  | sendFails result htask hdropped =>
    rw [hused] at hdropped
    exact absurd hdropped (by simp)
  | abort hdropped =>
    rw [hused] at hdropped
    exact absurd hdropped (by simp)
  | storeClosed => exact absurd hclosed' (by simp)
  | broadcast hclosing =>
    rw [hclosed] at hclosing
    exact absurd hclosing (by simp)
  | drop hidle => exact absurd hused' (by simp)
  | next item htask hitem =>
    simp only [served, sent, htask]
    omega
  | streamEnd htask hend =>
    simp only [served, sent, htask]
    omega
  | send result htask hroom hreceiver =>
    cases result <;>
    · simp only [served, sent, htask, Channel.items_push, List.length_append, List.length_singleton]
      omega
  | recv hidle hreceiver =>
    rw [if_neg (by rw [hclosed]; exact Bool.false_ne_true)]
    simp only [served, sent, hidle, if_true, reduceCtorEq, if_false]
    omega
  | recvTimeout hidle hreceiver =>
    rw [if_neg (by rw [hclosed]; exact Bool.false_ne_true)]
    simp only [served, sent, hidle, if_true, reduceCtorEq, if_false]
    omega
  | receive result hcall hfront =>
    obtain ⟨hdelivered, hsent⟩ := sent_receive hinv hfront
    have hlength := congrArg List.length hsent
    simp only [served, sent, hdelivered, if_neg hcall, if_true, List.length_append,
      List.length_singleton] at hlength ⊢
    omega
  | receiveEnd hcall hempty htask =>
    exact absurd (hpatient hcall) (gives_up (item?_answer_none s.call) hcall)
  | timeout hcall =>
    have hne : s.call ≠ .idle := by
      rw [hcall]
      simp
    exact absurd (hpatient hne) (gives_up errorItem?_recvTimedOut hne)
  | dropCall =>
    by_cases hidle : s.call = .idle
    · refine absurd ?_ h.changes
      rw [← hidle]
    · rcases hpatient hidle with hne | hlt
      · exact absurd rfl hne
      · exact absurd hlt (lt_irrefl _)

/-- What was sent was polled, all but the item in hand. -/
theorem PipelineInv.polls_le (h : PipelineInv config stream s) (hopen : OpenInv config stream s)
    (hclosed : s.closed = false) (hused : s.dropped = false) :
    s.sent.length ≤ s.polls ∧ s.polls ≤ s.sent.length + 1 := by
  have hlength : (produced config stream s.polls).length = s.polls := by
    rw [produced, List.length_map]
    refine length_polledFrom fun k hk => ?_
    rw [Nat.zero_add]
    exact h.live k hk
  have htask := h.task
  cases htask' : s.task with
  | polling =>
    rw [htask'] at htask
    have heq := congrArg List.length htask.1
    rw [hlength] at heq
    rw [sent]
    omega
  | sending result =>
    rw [htask'] at htask
    have heq := congrArg List.length htask.1
    rw [hlength, List.length_append, List.length_singleton] at heq
    rw [sent]
    omega
  | finished =>
    have heq := congrArg List.length (hopen.finished htask' hclosed hused).1
    rw [hlength] at heq
    omega

/-- What was served is bounded by what was delivered, since the queue is bounded. -/
theorem served_le (h : PipelineInv config stream s) (hopen : OpenInv config stream s)
    (hclosed : s.closed = false) (hused : s.dropped = false) :
    4 * (delivered s.answers).length ≤ s.served ∧
      s.served ≤ 4 * (delivered s.answers).length + (2 * consumerBufferCapacity + 3) := by
  obtain ⟨hle, hge⟩ := h.polls_le hopen hclosed hused
  have hbounded := s.queue.bounded
  have hsent : s.sent.length = (delivered s.answers).length + s.queue.items.length :=
    List.length_append
  rw [served]
  constructor <;> split <;> split <;> omega

/-! ### Completeness -/

/-- Where nothing can be served, the last call waits, and everything that was polled was delivered:
the whole stream, or all of it up to an error. -/
theorem complete_of_stuck (h : PipelineInv config stream s) (hopen : OpenInv config stream s)
    (hclosed : s.closed = false) (hused : s.dropped = false)
    (hstuck : Stuck (Serves config stream) s) :
    Step config stream s
        { s with call := .idle, answers := s.answers ++ [s.call.answer none] } ∧
      delivered s.answers = produced config stream s.polls ∧
      (stream s.polls = none ∨ ∃ e, .error e ∈ delivered s.answers) := by
  have hcall : s.call ≠ .idle := by
    intro hidle
    have hstep : Step config stream s _ := .recv hidle hused
    rw [if_neg (by rw [hclosed]; exact Bool.false_ne_true)] at hstep
    refine hstuck _ ⟨hstep, fun heq => ?_, ⟨hclosed, hclosed⟩, ⟨hused, hused⟩,
      fun hne => absurd hidle hne⟩
    rw [← heq] at hidle
    exact absurd hidle (by simp)
  have hempty : s.queue.items = [] := by
    cases hitems : s.queue.items with
    | nil => rfl
    | cons result rest =>
      have hfront : s.queue.items.head? = some result := by rw [hitems, List.head?_cons]
      have hdelivered := (sent_receive h hfront).1
      refine absurd ⟨.receive result hcall hfront, fun heq => ?_, ⟨hclosed, hclosed⟩,
        ⟨hused, hused⟩, fun _ => Or.inr ?_⟩ (hstuck _)
      · exact hcall (congrArg Pipeline.call heq).symm
      · rw [hdelivered, List.length_append, List.length_singleton]
        exact Nat.lt_succ_self _
  have hfinished : s.task = .finished := by
    cases htask : s.task with
    | finished => rfl
    | polling =>
      cases hitem : stream s.polls with
      | none =>
        refine absurd ⟨.streamEnd htask hitem, fun heq => ?_, ⟨hclosed, hclosed⟩, ⟨hused, hused⟩,
          Or.inl⟩ (hstuck _)
        rw [← heq] at htask
        exact absurd htask (by simp)
      | some item =>
        refine absurd ⟨.next item htask hitem, fun heq => ?_, ⟨hclosed, hclosed⟩, ⟨hused, hused⟩,
          Or.inl⟩ (hstuck _)
        rw [← heq] at htask
        exact absurd htask (by simp)
    | sending result =>
      have hroom : s.queue.items.length < consumerBufferCapacity := by
        rw [hempty]
        decide
      refine absurd ⟨.send result htask hroom hused, fun heq => ?_, ⟨hclosed, hclosed⟩,
        ⟨hused, hused⟩, Or.inl⟩ (hstuck _)
      have hitems := congrArg (fun s => s.queue.items.length) heq
      simp only [Channel.items_push, List.length_append, List.length_singleton] at hitems
      omega
  obtain ⟨hsent, hend⟩ := hopen.finished hfinished hclosed hused
  rw [sent, hempty, List.append_nil] at hsent hend
  exact ⟨.receiveEnd hcall hempty hfinished, hsent, hend⟩

/-- A state of an open pool with a consumer in use. -/
structure InService (config : ConsumerConfig) (stream : ℕ → Option StreamItem) (s : Pipeline) :
    Prop where
  inv : PipelineInv config stream s
  opened : OpenInv config stream s
  closed : s.closed = false
  used : s.dropped = false

theorem InService.step (h : InService config stream s) (hserves : Serves config stream s s') :
    InService config stream s' :=
  ⟨h.inv.step hserves.step, h.opened.step h.inv hserves.step, hserves.opened.2, hserves.used.2⟩

theorem InService.run (h : InService config stream s)
    (hrun : ReflTransGen (Serves config stream) s s') : InService config stream s' := by
  induction hrun with
  | refl => exact h
  | tail _ hserves ih => exact ih.step hserves

/-- **A caller that keeps calling gets the stream.**  From every state of every interleaving in
which the pool is open and the consumer in use, as long as this stays so and no call is given up:

* `n` steps of the task and the caller, in whatever order, deliver `n / 4` items, up to a constant
  that the capacity of the queue fixes;
* the steps only come to an end when the last call can be answered with the end of the stream, and
  then the items delivered are all outputs of the stream, or all of them up to an error. -/
theorem consumer_progress (h : Reachable config stream s) (hclosed : s.closed = false)
    (hused : s.dropped = false) :
    (∀ n s', Steps (Serves config stream) n s s' → n + 4 * (delivered s.answers).length ≤
      4 * (delivered s'.answers).length + (2 * consumerBufferCapacity + 3)) ∧
    ∀ s', ReflTransGen (Serves config stream) s s' → Stuck (Serves config stream) s' →
      Step config stream s'
        { s' with call := .idle, answers := s'.answers ++ [s'.call.answer none] } ∧
      ∃ n, delivered s'.answers = (polled stream n).map (output config) ∧
        (stream n = none ∨ ∃ e, .error e ∈ delivered s'.answers) := by
  obtain ⟨hinv, hopen⟩ := openInv_of_reachable h
  have hservice : InService config stream s := ⟨hinv, hopen, hclosed, hused⟩
  refine ⟨fun n s' hsteps => ?_, fun s' hrun hstuck => ?_⟩
  · obtain ⟨hservice', hle⟩ := hsteps.measure_add_le (fun _ _ h hserves => h.step hserves)
      (fun _ _ h hserves => served_lt h.inv h.opened hserves) hservice
    have hbefore := (served_le hinv hopen hclosed hused).1
    have hafter := (served_le hservice'.inv hservice'.opened hservice'.closed hservice'.used).2
    omega
  · have hservice' := hservice.run hrun
    obtain ⟨hstep, hdelivered, hend⟩ := complete_of_stuck hservice'.inv hservice'.opened
      hservice'.closed hservice'.used hstuck
    exact ⟨hstep, s'.polls, hdelivered, hend⟩

theorem consumer_progress_oneRecord : ∃ s, Reachable (.subscribe "orders") oneRecord s ∧
    s.task = .sending
      (output (.subscribe "orders") (.ok (⟨⟨none, some [], [], 7⟩, .of 41⟩, .of 42))) ∧
    ∀ n s', Steps (Serves (.subscribe "orders") oneRecord) n s s' →
      n ≤ 4 * (delivered s'.answers).length + 131 := by
  have hnext : Step (.subscribe "orders") oneRecord connected _ := .next _ rfl rfl
  exact ⟨_, .single hnext, rfl, (consumer_progress (.single hnext) rfl rfl).1⟩

end Kafkax.Pipeline
