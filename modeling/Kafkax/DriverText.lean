import Kafkax.ConsumerTask
import Kafkax.ControlPlane

/-!
# What the callers learn of a driver error

A driver error carries texts: hosts, accounts, the broker's message, the request it answers.
`map_kafka_error` keeps its classification only, and no call hands the error itself on.  So the
runs of a pool, and those of a consumer, are the same for driver errors of the same classification,
state by state: the results, the texts of `health` and the counters.

`ensure_topic` and `delete_topic` do read the text, for one bit: whether they take the error for a
success (`Reported`).  `driver_text_confined` states what is left.
-/

namespace Kafkax

open LineText Relation

/-! ### Answers that differ in their errors -/

/-- Two results that agree, up to errors in the relation. -/
inductive ResultsUpTo {α ε : Type} (R : ε → ε → Prop) : Except ε α → Except ε α → Prop where
  | ok (a : α) : ResultsUpTo R (.ok a) (.ok a)
  | error {e e' : ε} (h : R e e') : ResultsUpTo R (.error e) (.error e')

/-- Two answers of the driver that agree, up to errors in the relation. -/
inductive AnswersUpTo {α : Type} (R : RskafkaError → RskafkaError → Prop) :
    DriverAnswer α → DriverAnswer α → Prop where
  | ready {result result' : Except RskafkaError α} (h : ResultsUpTo R result result') :
      AnswersUpTo R (.ready result) (.ready result')
  | timedOut : AnswersUpTo R .timedOut .timedOut

/-- Two errors of one classification. -/
def RskafkaError.Alike (error error' : RskafkaError) : Prop :=
  classifyRskafka error = classifyRskafka error'

/-- The text search by which a call takes an error for a success. -/
def ControlCall.swallows : ControlCall → Text → Bool
  | .ensureTopic _ _ _ => isTopicAlreadyExistsError
  | .deleteTopic _ => isTopicMissingError
  | _ => fun _ => false

/-- Two errors that a call takes both for a success, or neither, and then of one classification. -/
def Reported (display : RskafkaError → Text) (call : ControlCall)
    (error error' : RskafkaError) : Prop :=
  call.swallows (display error) = call.swallows (display error') ∧
    (call.swallows (display error) = false → error.Alike error')

/-- The public errors of two driver errors are the same exactly if their classifications are. -/
theorem mapKafkaError_eq_iff {context : String} {error error' : RskafkaError} :
    mapKafkaError context (.rskafka error) = mapKafkaError context (.rskafka error') ↔
      error.Alike error' := by
  constructor
  · intro h
    rw [mapKafkaError, mapKafkaError, classify, classify] at h
    rw [RskafkaError.Alike]
    cases hclass : classifyRskafka error <;> cases hclass' : classifyRskafka error' <;>
      rw [hclass, hclass'] at h <;> first | rfl | cases h
  · intro h
    rw [mapKafkaError, mapKafkaError, classify, classify, h]

/-- The same call, with answers that differ in their errors. -/
structure PublishInput.Alike (input input' : PublishInput) : Prop where
  call : input'.call = input.call
  now : input'.now = input.now
  partitionClient : AnswersUpTo RskafkaError.Alike input.partitionClient input'.partitionClient
  produce : ∀ record, AnswersUpTo RskafkaError.Alike (input.produce record) (input'.produce record)

/-- The same call, with answers that differ in their errors. -/
structure ControlInput.Alike (display : RskafkaError → Text) (input input' : ControlInput) :
    Prop where
  call : input'.call = input.call
  controllerClient : ResultsUpTo RskafkaError.Alike input.controllerClient input'.controllerClient
  answer : AnswersUpTo (Reported display input.call) input.answer input'.answer
  topics : AnswersUpTo RskafkaError.Alike input.topics input'.topics

theorem ResultsUpTo.symm {α ε : Type} {R R' : ε → ε → Prop} {result result' : Except ε α}
    (h : ResultsUpTo R result result') (hR : ∀ e e', R e e' → R' e' e) :
    ResultsUpTo R' result' result := by
  cases h with
  | ok a => exact .ok a
  | error h => exact .error (hR _ _ h)

theorem AnswersUpTo.symm {α : Type} {R R' : RskafkaError → RskafkaError → Prop}
    {answer answer' : DriverAnswer α} (h : AnswersUpTo R answer answer')
    (hR : ∀ e e', R e e' → R' e' e) : AnswersUpTo R' answer' answer := by
  cases h with
  | ready h => exact .ready (h.symm hR)
  | timedOut => exact .timedOut

theorem RskafkaError.Alike.symm (error error' : RskafkaError) (h : error.Alike error') :
    error'.Alike error := Eq.symm h

theorem PublishInput.Alike.symm {input input' : PublishInput} (h : input.Alike input') :
    input'.Alike input where
  call := h.call.symm
  now := h.now.symm
  partitionClient := h.partitionClient.symm RskafkaError.Alike.symm
  produce record := (h.produce record).symm RskafkaError.Alike.symm

theorem ControlInput.Alike.symm {display : RskafkaError → Text} {input input' : ControlInput}
    (h : input.Alike display input') : input'.Alike display input where
  call := h.call.symm
  controllerClient := h.controllerClient.symm RskafkaError.Alike.symm
  answer := by
    refine h.answer.symm fun e e' he => ?_
    rw [h.call]
    exact ⟨he.1.symm, fun hnone => RskafkaError.Alike.symm _ _ (he.2 (he.1.trans hnone))⟩
  topics := h.topics.symm RskafkaError.Alike.symm

/-! ### One call -/

variable {input input' : PublishInput} {control control' : ControlInput}
  {display : RskafkaError → Text}

/-- The outcome of `limited_produce_await` is applied alike. -/
theorem apply_await (partition : I32) {answer answer' : DriverAnswer (List I64)}
    (h : AnswersUpTo RskafkaError.Alike answer answer') :
    Publishing.apply partition answer'.await = Publishing.apply partition answer.await := by
  cases h with
  | timedOut => rfl
  | ready hresult =>
    cases hresult with
    | ok offsets => rfl
    | error herror =>
      show Publishing.recording [] recordPublishErr (.error (mapKafkaError _ _)) =
        Publishing.recording [] recordPublishErr (.error (mapKafkaError _ _))
      rw [mapKafkaError_eq_iff.mpr herror]

/-- `health_check` answers alike. -/
theorem healthCheck_upTo (operation : KafkaResult Unit) (connected cancelled : Bool)
    {topics topics' : DriverAnswer (List String)}
    (h : AnswersUpTo RskafkaError.Alike topics topics') :
    healthCheck operation connected (if cancelled then none else some topics') =
      healthCheck operation connected (if cancelled then none else some topics) := by
  cases cancelled with
  | true => rfl
  | false =>
    cases h with
    | timedOut => rfl
    | ready hresult =>
      cases hresult with
      | ok topics => rfl
      | error herror =>
        cases operation with
        | error error => rfl
        | ok u =>
          cases connected with
          | false => rfl
          | true => exact congrArg Except.error (mapKafkaError_eq_iff.mpr herror).symm

/-- The part that `ensure_topic` and `delete_topic` share answers alike, if its end does. -/
theorem request_upTo (operation : KafkaResult Unit) (connected cancelled : Bool)
    {controller controller' : Except RskafkaError Unit} {answer answer' : DriverAnswer Unit}
    {R : RskafkaError → RskafkaError → Prop} (whenCancelled whenTimedOut : String)
    {finish : Except RskafkaError Unit → List Counter × KafkaResult Unit}
    (hcontroller : ResultsUpTo RskafkaError.Alike controller controller')
    (hanswer : AnswersUpTo R answer answer')
    (hfinish : ∀ e e', R e e' → finish (.error e) = finish (.error e')) :
    ControllerRun.request
        ⟨operation, connected, controller', if cancelled then none else some answer'⟩
        whenCancelled whenTimedOut finish =
      ControllerRun.request
        ⟨operation, connected, controller, if cancelled then none else some answer⟩
        whenCancelled whenTimedOut finish := by
  cases operation with
  | error error => rfl
  | ok u =>
    cases connected with
    | false => rfl
    | true =>
      cases hcontroller with
      | error herror =>
        show (([], .error (mapKafkaError _ _)) : List Counter × KafkaResult Unit) =
          ([], .error (mapKafkaError _ _))
        rw [mapKafkaError_eq_iff.mpr herror]
      | ok u =>
        cases cancelled with
        | true => rfl
        | false =>
          cases hanswer with
          | timedOut => rfl
          | ready hresult =>
            cases hresult with
            | ok u => rfl
            | error herror => exact (hfinish _ _ herror).symm

/-- **One call** that publishes nothing makes the same increments and returns the same result. -/
theorem respond_upTo (h : control.Alike display control') (connected cancelled : Bool)
    (operation : KafkaResult Unit) :
    control'.respond display connected operation cancelled =
      control.respond display connected operation cancelled := by
  have hanswer := h.answer
  have hhealth := healthCheck_upTo operation connected cancelled h.topics
  rw [ControlInput.respond, ControlInput.respond, h.call]
  cases hcall : control.call with
  | ensureTopic topic partitions replication =>
    rw [hcall] at hanswer
    dsimp only
    rw [ensureTopic, ensureTopic]
    cases validateTopicRequest topic partitions replication with
    | error error => rfl
    | ok u =>
      dsimp only
      rw [request_upTo operation connected cancelled _ _ h.controllerClient hanswer]
      intro e e' he
      obtain ⟨hsame, halike⟩ := he
      rw [ControlCall.swallows] at hsame halike
      dsimp only
      rw [← hsame]
      cases hfound : isTopicAlreadyExistsError (display e) with
      | true => rfl
      | false => rw [mapKafkaError_eq_iff.mpr (halike hfound)]
  | deleteTopic topic =>
    rw [hcall] at hanswer
    dsimp only
    rw [deleteTopic, deleteTopic]
    cases (trim topic.toList).isEmpty with
    | true => rfl
    | false =>
      simp only [Bool.false_eq_true, if_false]
      rw [request_upTo operation connected cancelled _ _ h.controllerClient hanswer]
      intro e e' he
      obtain ⟨hsame, halike⟩ := he
      rw [ControlCall.swallows] at hsame halike
      dsimp only
      rw [← hsame]
      cases hfound : isTopicMissingError (display e) with
      | true => rfl
      | false => rw [mapKafkaError_eq_iff.mpr (halike hfound)]
  | healthCheck => rw [hhealth]
  | health => rw [hhealth]
  | ping => rw [hhealth]

/-! ### Steps -/

section

variable {ι κ : Type} [DecidableEq ι] [DecidableEq κ] {connected : Bool}
  {publish publish' : ι → PublishInput} {controls controls' : κ → ControlInput}

/-- A step of a publishing call is one for the other errors. -/
theorem PublishPool.Step.upTo (h : ∀ i, (publish i).Alike (publish' i)) {s t : PublishPool ι}
    (hstep : PublishPool.Step connected publish s t) :
    PublishPool.Step connected publish' s t := by
  have hshape : ∀ i, (publish' i).shape = (publish i).shape := fun i => by
    rw [PublishInput.shape, PublishInput.shape, (h i).call]
  cases hstep with
  | storeClosed => exact .storeClosed
  | broadcast hclosed => exact .broadcast hclosed
  | begin i hi =>
    rw [← hshape i]
    exact .begin i hi
  | clientCheck i hi =>
    rw [← hshape i]
    exact .clientCheck i hi
  | clientRecheck i hi => exact .clientRecheck i hi
  | noClient i hi hconnected => exact .noClient i hi hconnected
  | clientShutdown i hi hconnected hshutdown => exact .clientShutdown i hi hconnected hshutdown
  | clientAnswer i hi hconnected =>
    have hstep' : PublishPool.Step connected publish' s _ := .clientAnswer i hi hconnected
    have hclient := (h i).partitionClient
    generalize (publish i).partitionClient = answer at hclient ⊢
    generalize (publish' i).partitionClient = answer' at hclient hstep'
    cases hclient with
    | timedOut => exact hstep'
    | ready hresult =>
      cases hresult with
      | ok u => exact hstep'
      | error herror =>
        dsimp only at hstep' ⊢
        rw [mapKafkaError_eq_iff.mpr herror]
        exact hstep'
  | produceCheck i hi => exact .produceCheck i hi
  | produceRecheck i hi => exact .produceRecheck i hi
  | produced i outcome hi houtcome =>
    rw [← (h i).call]
    rcases houtcome with hcancelled | hanswered
    · exact .produced i outcome hi (Or.inl hcancelled)
    · have hanswer : AnswersUpTo RskafkaError.Alike (publish i).answer (publish' i).answer := by
        rw [PublishInput.answer, PublishInput.answer, (h i).call, (h i).now]
        exact (h i).produce _
      rw [hanswered, ← apply_await _ hanswer]
      exact .produced i _ hi (Or.inr rfl)
  | increment i made todo c result hi => exact .increment i made todo c result hi
  | returns i made result hi => exact .returns i made result hi

/-- A step of a busy pool is one for the other errors. -/
theorem BusyPool.Step.upTo (hpublish : ∀ i, (publish i).Alike (publish' i))
    (hcontrol : ∀ k, (controls k).Alike display (controls' k)) {s t : BusyPool ι κ}
    (hstep : BusyPool.Step display connected publish controls s t) :
    BusyPool.Step display connected publish' controls' s t := by
  cases hstep with
  | pool pool hpool => exact .pool pool (hpool.upTo hpublish)
  | begin k hk =>
    rw [← respond_upTo (hcontrol k), ← (hcontrol k).call]
    exact .begin k hk
  | recheck k hk =>
    rw [← respond_upTo (hcontrol k)]
    exact .recheck k hk
  | answered k cancelled hk hcancelled =>
    rw [← respond_upTo (hcontrol k)]
    exact .answered k cancelled hk hcancelled
  | increment k made todo c result hk => exact .increment k made todo c result hk
  | returns k made result hk => exact .returns k made result hk

end

/-- The streams agree, up to errors of one classification. -/
def StreamsUpTo (stream stream' : ℕ → Option StreamItem) : Prop :=
  ∀ n, Option.Rel (ResultsUpTo RskafkaError.Alike) (stream n) (stream' n)

theorem output_upTo (config : ConsumerConfig) {item item' : StreamItem}
    (h : ResultsUpTo RskafkaError.Alike item item') : output config item' = output config item := by
  cases h with
  | ok record => rfl
  | error herror => exact congrArg Except.error (mapKafkaError_eq_iff.mpr herror).symm

/-- A step of a consumer is one for the other errors. -/
theorem Pipeline.Step.upTo {config : ConsumerConfig} {stream stream' : ℕ → Option StreamItem}
    (h : StreamsUpTo stream stream') {s t : Pipeline} (hstep : Pipeline.Step config stream s t) :
    Pipeline.Step config stream' s t := by
  have hpoll := h s.polls
  cases hstep with
  | next item htask hitem =>
    rw [hitem] at hpoll
    cases hitem' : stream' s.polls with
    | none =>
      rw [hitem'] at hpoll
      cases hpoll
    | some item' =>
      rw [hitem'] at hpoll
      cases hpoll with
      | some hresult =>
        rw [← output_upTo config hresult]
        exact .next item' htask hitem'
  | streamEnd htask hend =>
    rw [hend] at hpoll
    cases hend' : stream' s.polls with
    | none => exact .streamEnd htask hend'
    | some item' =>
      rw [hend'] at hpoll
      cases hpoll
  | breakPolling htask hshutdown => exact .breakPolling htask hshutdown
  | breakSending result htask hshutdown => exact .breakSending result htask hshutdown
  | send result htask hroom hreceiver => exact .send result htask hroom hreceiver
  | sendFails result htask hdropped => exact .sendFails result htask hdropped
  | abort hdropped => exact .abort hdropped
  | storeClosed => exact .storeClosed
  | broadcast hclosed => exact .broadcast hclosed
  | recv hidle hreceiver => exact .recv hidle hreceiver
  | recvTimeout hidle hreceiver => exact .recvTimeout hidle hreceiver
  | receive result hcall hfront => exact .receive result hcall hfront
  | receiveEnd hcall hempty htask => exact .receiveEnd hcall hempty htask
  | timeout hcall => exact .timeout hcall
  | dropCall => exact .dropCall
  | drop hidle => exact .drop hidle

theorem StreamsUpTo.symm {stream stream' : ℕ → Option StreamItem} (h : StreamsUpTo stream stream') :
    StreamsUpTo stream' stream := by
  intro n
  have hn := h n
  generalize stream n = item at hn ⊢
  generalize stream' n = item' at hn ⊢
  cases hn with
  | none => exact .none
  | some hresult => exact .some (hresult.symm RskafkaError.Alike.symm)

/-! ### Runs -/

section

variable {ι κ : Type} [DecidableEq ι] [DecidableEq κ]

/-- **The driver's texts reach nobody.**  Let the driver fail all calls on a pool and the stream of
a consumer with other errors, of the same classifications, and the requests of `ensure_topic` and
`delete_topic` with errors that are also taken for a success as before.  Then the pool and the
consumer have the same runs, state by state: no result, no text and no counter differs.  The
classification is all that the public error of a driver error tells. -/
theorem driver_text_confined {display : RskafkaError → Text} {connected : Bool}
    {publish publish' : ι → PublishInput} {controls controls' : κ → ControlInput}
    {config : ConsumerConfig} {stream stream' : ℕ → Option StreamItem}
    (hpublish : ∀ i, (publish i).Alike (publish' i))
    (hcontrol : ∀ k, (controls k).Alike display (controls' k))
    (hstream : StreamsUpTo stream stream') :
    (∀ s t : BusyPool ι κ,
      ReflTransGen (BusyPool.Step display connected publish controls) s t ↔
        ReflTransGen (BusyPool.Step display connected publish' controls') s t) ∧
    (∀ s t : Pipeline, ReflTransGen (Pipeline.Step config stream) s t ↔
      ReflTransGen (Pipeline.Step config stream') s t) ∧
    ∀ context error error', mapKafkaError context (.rskafka error) =
      mapKafkaError context (.rskafka error') ↔ error.Alike error' := by
  refine ⟨fun s t => ⟨?_, ?_⟩, fun s t => ⟨?_, ?_⟩, fun _ _ _ => mapKafkaError_eq_iff⟩
  · intro hrun
    exact hrun.lift id fun _ _ hstep => BusyPool.Step.upTo hpublish hcontrol hstep
  · intro hrun
    exact hrun.lift id fun _ _ hstep =>
      BusyPool.Step.upTo (fun i => (hpublish i).symm) (fun k => (hcontrol k).symm) hstep
  · intro hrun
    exact hrun.lift id fun _ _ hstep => Pipeline.Step.upTo hstream hstep
  · intro hrun
    exact hrun.lift id fun _ _ hstep => Pipeline.Step.upTo hstream.symm hstep

end

/-- A `publish` whose broker cannot be reached; the driver names the host. -/
def unreachable (host : String) : PublishInput where
  call := .publishToPartition "orders" 0 []
  now := 0
  partitionClient := .ready (.error (.connection host.toList))
  produce _ := .timedOut

/-- A `health` whose broker cannot be reached; the driver names the host. -/
def unhealthy (host : String) : ControlInput where
  call := .health
  controllerClient := .ok ()
  answer := .timedOut
  topics := .ready (.error (.connection host.toList))

theorem unreachable_alike (host host' : String) : (unreachable host).Alike (unreachable host') :=
  ⟨rfl, rfl, .ready (.error rfl), fun _ => .timedOut⟩

theorem unhealthy_alike (display : RskafkaError → Text) (host host' : String) :
    (unhealthy host).Alike display (unhealthy host') :=
  ⟨rfl, .ok (), .timedOut, .ready (.error rfl)⟩

/-- What `health` reports of it. -/
def unreachableReport : KafkaHealth :=
  let error := mapKafkaError "kafkax list_topics" (.rskafka (.connection []))
  ⟨false, s!"{error.kind}: {error.display}"⟩

/-- The pool after the `health` call has returned. -/
def unhealthyPool : BusyPool Unit Unit :=
  ⟨.new, fun _ => .finished [] (.ok (.health unreachableReport))⟩

theorem reachable_unhealthyPool (host : String) :
    ReflTransGen (BusyPool.Step (fun _ => []) true (fun _ => unreachable host) fun _ =>
      unhealthy host) .new unhealthyPool := by
  have hopened : ReflTransGen (BusyPool.Step (fun _ => []) true (fun _ : Unit => unreachable host)
      fun _ : Unit => unhealthy host) .new ⟨.new, fun _ => .opened⟩ := by
    rw [← BusyPool.move_single .new .idle]
    exact ReflTransGen.single (.begin () rfl)
  have hguarded := hopened.tail (.recheck () rfl)
  rw [BusyPool.move_single] at hguarded
  have hanswered := hguarded.tail (.answered () false rfl fun h => absurd h Bool.false_ne_true)
  rw [BusyPool.move_single] at hanswered
  have hreturned := hanswered.tail (.returns () [] (.ok (.health unreachableReport)) rfl)
  rw [BusyPool.move_single] at hreturned
  exact hreturned

/-- A run in which the driver names one host is one in which it names another. -/
theorem driver_text_confined_health :
    ReflTransGen (BusyPool.Step (fun _ => []) true (fun _ => unreachable "10.0.0.2:9093")
      fun _ => unhealthy "10.0.0.2:9093") .new unhealthyPool := by
  have hconfined := @driver_text_confined Unit Unit _ _ (fun _ => []) true
    (fun _ => unreachable "10.0.0.1:9092") (fun _ => unreachable "10.0.0.2:9093")
    (fun _ => unhealthy "10.0.0.1:9092") (fun _ => unhealthy "10.0.0.2:9093")
    (.subscribe "orders") (fun _ => none) (fun _ => none)
    (fun _ => unreachable_alike _ _) (fun _ => unhealthy_alike _ _ _) (fun _ => .none)
  exact (hconfined.1 _ _).mp (reachable_unhealthyPool _)

end Kafkax
