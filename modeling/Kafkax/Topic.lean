import Kafkax.ErrorMap
import Kafkax.Producer

/-!
# Creating and deleting topics

`ensure_topic` takes the driver's report that the topic exists for a success, and `delete_topic`
its report that the topic is missing.  Both recognise the report by words in the text of the
driver's error.  That text quotes the broker's message and the name of the topic, so a word may be
found that reports nothing.

* `containsAny_errorText`: a text of quoted pieces contains a word exactly if one of them does.
* `swallows_only_reported_iff`: only reports are swallowed, whatever the name of the topic, exactly
  if the words occur only in reports and the name brings none of its own.
-/

namespace Kafkax

open BoundedIntegers LineText

/-! ### The functions of the source -/

/-- `i16` -/
abbrev I16 := BoundedInt (-32768) 32767

/-- `record_topic_ensured` -/
def recordTopicEnsured : List Counter := [.topicsEnsured]

/-- `record_topic_deleted` -/
def recordTopicDeleted : List Counter := [.topicsDeleted]

/-- `validate_topic_request` -/
def validateTopicRequest (topic : String) (partitions : I32) (replication : I16) :
    KafkaResult Unit :=
  if (trim topic.toList).isEmpty then .error (.config "topic 不能为空")
  else if partitions.val ≤ 0 then .error (.config "partitions 必须大于零")
  else if replication.val ≤ 0 then .error (.config "replication 必须大于零")
  else .ok ()

/-- The words that tell that the topic exists. -/
def existsWords : List String := ["exist", "already", "topic_already"]

/-- The words that tell that the topic is missing. -/
def missingWords : List String :=
  ["unknown_topic", "unknown topic", "does not exist", "not_exist", "unknowntopic"]

/-- `is_topic_already_exists_error` -/
def isTopicAlreadyExistsError (message : Text) : Bool :=
  containsAny existsWords (toAsciiLowercase message)

/-- `is_topic_missing_error` -/
def isTopicMissingError (message : Text) : Bool :=
  containsAny missingWords (toAsciiLowercase message)

/-- What the pool and the driver answer to a call on a topic. -/
structure ControllerRun where
  /-- The result of `start_operation`. -/
  operation : KafkaResult Unit
  /-- The pool has a client. -/
  connected : Bool
  controllerClient : Except RskafkaError Unit
  /-- The answer to the request; `none` if `wait_for_shutdown` wins. -/
  answer : Option (DriverAnswer Unit)

/-- The part that `ensure_topic` and `delete_topic` share: the increments and the result. -/
def ControllerRun.request (run : ControllerRun) (cancelled timedOut : String)
    (finish : Except RskafkaError Unit → List Counter × KafkaResult Unit) :
    List Counter × KafkaResult Unit :=
  match run.operation with
  | .error error => ([], .error error)
  | .ok () =>
    if run.connected then
      match run.controllerClient with
      | .error error => ([], .error (mapKafkaError "kafkax controller" (.rskafka error)))
      | .ok () =>
        match run.answer with
        | none => ([], .error (.closed cancelled))
        | some .timedOut => ([], .error (.timeout timedOut))
        | some (.ready result) => finish result
    else ([], .error (.connection "连接未建立：请使用 KafkaPool::connect 或 connect_from_env"))

/-- `ensure_topic`; `display` is the driver's `Display`. -/
def ensureTopic (display : RskafkaError → Text) (run : ControllerRun) (topic : String)
    (partitions : I32) (replication : I16) : List Counter × KafkaResult Unit :=
  match validateTopicRequest topic partitions replication with
  | .error error => ([], .error error)
  | .ok () =>
    run.request "create_topic 因连接池关闭而取消" "create_topic 超时" fun
      | .ok () => (recordTopicEnsured, .ok ())
      | .error error =>
        if isTopicAlreadyExistsError (display error) then (recordTopicEnsured, .ok ())
        else ([], .error (mapKafkaError "kafkax create_topic" (.rskafka error)))

/-- `delete_topic` -/
def deleteTopic (display : RskafkaError → Text) (run : ControllerRun) (topic : String) :
    List Counter × KafkaResult Unit :=
  if (trim topic.toList).isEmpty then ([], .error (.config "topic 不能为空"))
  else
    run.request "delete_topic 因连接池关闭而取消" "delete_topic 超时" fun
      | .ok () => (recordTopicDeleted, .ok ())
      | .error error =>
        if isTopicMissingError (display error) then (recordTopicDeleted, .ok ())
        else ([], .error (mapKafkaError "kafkax delete_topic" (.rskafka error)))

/-- The driver answers the request with an error. -/
def ControllerRun.refused (error : RskafkaError) : ControllerRun where
  operation := .ok ()
  connected := true
  controllerClient := .ok ()
  answer := some (.ready (.error error))

/-- `ensure_topic` turns the driver's error into `Ok`, and counts it, on an already-exists text. -/
theorem ensureTopic_refused (display : RskafkaError → Text) (error : RskafkaError) {topic : String}
    {partitions : I32} {replication : I16}
    (hrequest : validateTopicRequest topic partitions replication = .ok ()) :
    ensureTopic display (.refused error) topic partitions replication =
      if isTopicAlreadyExistsError (display error) then (recordTopicEnsured, .ok ())
      else ([], .error (mapKafkaError "kafkax create_topic" (.rskafka error))) := by
  rw [ensureTopic, hrequest]
  rfl

theorem trim_of_validateTopicRequest {topic : String} {partitions : I32} {replication : I16}
    (hrequest : validateTopicRequest topic partitions replication = .ok ()) :
    (trim topic.toList).isEmpty = false := by
  rw [validateTopicRequest] at hrequest
  by_contra hblank
  rw [if_pos (Bool.not_eq_false _ ▸ hblank)] at hrequest
  exact absurd hrequest (by simp)

/-- A request with the legal name `t` in place of its own. -/
theorem plain_request {topic : String} {partitions : I32} {replication : I16}
    (hrequest : validateTopicRequest topic partitions replication = .ok ()) :
    validateTopicRequest "t" partitions replication = .ok () := by
  have hplain : (trim "t".toList).isEmpty = false := by decide
  have htopic := trim_of_validateTopicRequest hrequest
  rw [validateTopicRequest, htopic] at hrequest
  rw [validateTopicRequest, hplain]
  exact hrequest

/-- `delete_topic` turns the driver's error into `Ok`, and counts it, on a missing text. -/
theorem deleteTopic_refused (display : RskafkaError → Text) (error : RskafkaError) {topic : String}
    (htopic : (trim topic.toList).isEmpty = false) :
    deleteTopic display (.refused error) topic =
      if isTopicMissingError (display error) then (recordTopicDeleted, .ok ())
      else ([], .error (mapKafkaError "kafkax delete_topic" (.rskafka error))) := by
  rw [deleteTopic, htopic]
  rfl

/-- The texts of the second family that contain a word of the first are taken for both. -/
theorem missing_taken_for_existing {message : Text}
    (h : containsAny ["does not exist", "not_exist"] (toAsciiLowercase message) = true) :
    isTopicMissingError message = true ∧ isTopicAlreadyExistsError message = true := by
  obtain ⟨word, hword, hfound⟩ := List.any_eq_true.mp h
  rw [contains_iff] at hfound
  have hwords : ∀ word ∈ ["does not exist", "not_exist"],
      word ∈ missingWords ∧ "exist".toList <:+: word.toList := by decide
  obtain ⟨hmissing, hexist⟩ := hwords word hword
  exact ⟨List.any_eq_true.mpr ⟨word, hmissing, contains_iff.mpr hfound⟩,
    List.any_eq_true.mpr ⟨"exist", List.mem_cons_self, contains_iff.mpr (hexist.trans hfound)⟩⟩

/-! ### The text of an error about a topic -/

/-- The text of a server error in the driver: quotes stand between the protocol error, the broker's
message, the request's own wording, the name of the topic and the rest. -/
structure DriverText where
  /-- `Display` of `rskafka`'s error -/
  display : RskafkaError → Text
  /-- The request context of a topic. -/
  request : Text → Text
  headline : ProtocolError → Text
  message : Option Text → Text
  wording : Text
  /-- The name as the request context shows it. -/
  name : Text → Text
  rest : Text
  display_server : ∀ protocolError brokerMessage topic,
    display (.serverError protocolError brokerMessage (request topic)) = List.intercalate ['"']
      [headline protocolError, message brokerMessage, wording, name topic, rest]
  name_alphanum : ∀ topic : Text, (∀ c ∈ topic, c.isAlphanum = true) → name topic = topic

/-- An error of the driver to a request about a topic. -/
inductive ControllerFailure where
  /-- The broker's answer. -/
  | server (protocolError : ProtocolError) (message : Option Text)
  /-- An error of the driver itself, which knows no topic. -/
  | driver (error : RskafkaError) (hdriver : ∀ code message request,
      error ≠ .serverError code message request)

namespace ControllerFailure

/-- The broker reported that the topic exists. -/
def reportsExists : ControllerFailure → Bool
  | .server .topicAlreadyExists _ => true
  | _ => false

/-- The broker reported that the topic is missing. -/
def reportsMissing : ControllerFailure → Bool
  | .server .unknownTopicOrPartition _ | .server .unknownTopicId _ => true
  | _ => false

theorem reportsMissing_of_reportsExists {failure : ControllerFailure}
    (h : failure.reportsExists = true) : failure.reportsMissing = false := by
  rw [reportsExists.eq_def] at h
  split at h
  · rfl
  · exact absurd h (by simp)

end ControllerFailure

/-- One of the words occurs in one of the texts, in any letter case. -/
def speaks (words : List String) (pieces : List Text) : Bool :=
  pieces.any fun piece => containsAny words (toAsciiLowercase piece)

/-- A text of quoted pieces says what its pieces say. -/
theorem containsAny_quoted {words : List String}
    (hwords : ∀ word ∈ words, word.toList ≠ [] ∧ '"' ∉ word.toList) (pieces : List Text) :
    containsAny words (toAsciiLowercase (List.intercalate ['"'] pieces)) = speaks words pieces := by
  rw [toAsciiLowercase_intercalate (by decide), Bool.eq_iff_iff]
  constructor
  · intro h
    obtain ⟨word, hword, hfound⟩ := List.any_eq_true.mp h
    rw [contains_intercalate (hwords word hword).1 (hwords word hword).2, List.any_map] at hfound
    obtain ⟨piece, hpiece, hin⟩ := List.any_eq_true.mp hfound
    exact List.any_eq_true.mpr ⟨piece, hpiece, List.any_eq_true.mpr ⟨word, hword, hin⟩⟩
  · intro h
    obtain ⟨piece, hpiece, hspeaks⟩ := List.any_eq_true.mp h
    obtain ⟨word, hword, hin⟩ := List.any_eq_true.mp hspeaks
    refine List.any_eq_true.mpr ⟨word, hword, ?_⟩
    rw [contains_intercalate (hwords word hword).1 (hwords word hword).2, List.any_map]
    exact List.any_eq_true.mpr ⟨piece, hpiece, hin⟩

namespace DriverText

/-- The driver's error to a request about the topic. -/
def error (driver : DriverText) (topic : String) : ControllerFailure → RskafkaError
  | .server protocolError message =>
    .serverError protocolError message (driver.request topic.toList)
  | .driver error _ => error

/-- What the text of an error says apart from the name of the topic. -/
def pieces (driver : DriverText) : ControllerFailure → List Text
  | .server protocolError message =>
    [driver.headline protocolError, driver.message message, driver.wording, driver.rest]
  | .driver error _ => [driver.display error]

/-- The name of the topic, where the text shows it. -/
def shown (driver : DriverText) (topic : String) : ControllerFailure → List Text
  | .server _ _ => [driver.name topic.toList]
  | .driver _ _ => []

/-- The text of an error says what its pieces and the name of the topic say. -/
theorem containsAny_errorText (driver : DriverText) {words : List String}
    (hwords : ∀ word ∈ words, word.toList ≠ [] ∧ '"' ∉ word.toList) (topic : String)
    (failure : ControllerFailure) :
    containsAny words (toAsciiLowercase (driver.display (driver.error topic failure))) =
      (speaks words (driver.pieces failure) || speaks words (driver.shown topic failure)) := by
  cases failure with
  | server protocolError message =>
    rw [error, driver.display_server, containsAny_quoted hwords]
    simp only [speaks, pieces, shown, List.any_cons, List.any_nil, Bool.or_false]
    ac_rfl
  | driver e hdriver =>
    simp only [speaks, error, pieces, shown, List.any_cons, List.any_nil, Bool.or_false]

theorem exists_errorText (driver : DriverText) (topic : String) (failure : ControllerFailure) :
    isTopicAlreadyExistsError (driver.display (driver.error topic failure)) =
      (speaks existsWords (driver.pieces failure) ||
        speaks existsWords (driver.shown topic failure)) :=
  driver.containsAny_errorText (by decide) topic failure

theorem missing_errorText (driver : DriverText) (topic : String) (failure : ControllerFailure) :
    isTopicMissingError (driver.display (driver.error topic failure)) =
      (speaks missingWords (driver.pieces failure) ||
        speaks missingWords (driver.shown topic failure)) :=
  driver.containsAny_errorText (by decide) topic failure

end DriverText

/-! ### Only reports are swallowed -/

/-- `ensure_topic` and `delete_topic` swallow the error only if it is the broker's report, no text
is taken for both reports, and the name of the topic makes no difference: the error is taken as
for every name that contains none of the words. -/
structure SwallowsOnlyReported (driver : DriverText) (topic : String) (partitions : I32)
    (replication : I16) (failure : ControllerFailure) : Prop where
  ensured : ensureTopic driver.display (.refused (driver.error topic failure)) topic partitions
    replication = (recordTopicEnsured, .ok ()) → failure.reportsExists = true
  deleted : deleteTopic driver.display (.refused (driver.error topic failure)) topic =
    (recordTopicDeleted, .ok ()) → failure.reportsMissing = true
  exclusive : ¬ (isTopicAlreadyExistsError (driver.display (driver.error topic failure)) = true ∧
    isTopicMissingError (driver.display (driver.error topic failure)) = true)
  nameless : ∀ other, validateTopicRequest other partitions replication = .ok () →
    speaks (existsWords ++ missingWords) (driver.shown other failure) = false →
    isTopicAlreadyExistsError (driver.display (driver.error topic failure)) =
      isTopicAlreadyExistsError (driver.display (driver.error other failure)) ∧
    isTopicMissingError (driver.display (driver.error topic failure)) =
      isTopicMissingError (driver.display (driver.error other failure))

section

variable {driver : DriverText} {topic : String} {partitions : I32} {replication : I16}
  {failure : ControllerFailure}

/-- An error that is swallowed by `ensure_topic`. -/
theorem ensured_iff (hrequest : validateTopicRequest topic partitions replication = .ok ()) :
    ensureTopic driver.display (.refused (driver.error topic failure)) topic partitions
        replication = (recordTopicEnsured, .ok ()) ↔
      isTopicAlreadyExistsError (driver.display (driver.error topic failure)) = true := by
  rw [ensureTopic_refused _ _ hrequest]
  cases isTopicAlreadyExistsError (driver.display (driver.error topic failure)) with
  | true => exact iff_of_true rfl rfl
  | false =>
    refine iff_of_false (fun h => ?_) Bool.false_ne_true
    exact absurd (congrArg Prod.fst h) (by simp [recordTopicEnsured])

/-- An error that is swallowed by `delete_topic`. -/
theorem deleted_iff (htopic : (trim topic.toList).isEmpty = false) :
    deleteTopic driver.display (.refused (driver.error topic failure)) topic =
        (recordTopicDeleted, .ok ()) ↔
      isTopicMissingError (driver.display (driver.error topic failure)) = true := by
  rw [deleteTopic_refused _ _ htopic]
  cases isTopicMissingError (driver.display (driver.error topic failure)) with
  | true => exact iff_of_true rfl rfl
  | false =>
    refine iff_of_false (fun h => ?_) Bool.false_ne_true
    exact absurd (congrArg Prod.fst h) (by simp [recordTopicDeleted])

theorem speaks_append (words more : List String) (pieces : List Text) :
    speaks (words ++ more) pieces = (speaks words pieces || speaks more pieces) := by
  induction pieces with
  | nil => rfl
  | cons piece rest ih =>
    have hpiece : ∀ text, containsAny (words ++ more) text =
        (containsAny words text || containsAny more text) := fun text => List.any_append
    simp only [speaks, List.any_cons] at ih ⊢
    rw [ih, hpiece]
    ac_rfl

/-- The name `t` shows none of the words. -/
theorem shown_plain (driver : DriverText) (failure : ControllerFailure) :
    speaks (existsWords ++ missingWords) (driver.shown "t" failure) = false := by
  cases failure with
  | server protocolError message =>
    have halphanum : ∀ c ∈ "t".toList, c.isAlphanum = true := by
      intro c hc
      rw [List.mem_singleton.mp hc]
      rfl
    rw [DriverText.shown, driver.name_alphanum _ halphanum]
    decide
  | driver e hdriver => rfl

/-- **Idempotent topic management swallows only reports**, for a legal request and every error of
the driver, exactly if the wording, the protocol error and the broker's message contain the words
of a list only in a report of that kind, and the name of the topic contains a word of a list only
where they do too. -/
theorem swallows_only_reported_iff
    (hrequest : validateTopicRequest topic partitions replication = .ok ()) :
    SwallowsOnlyReported driver topic partitions replication failure ↔
      (speaks existsWords (driver.pieces failure) = true → failure.reportsExists = true) ∧
      (speaks missingWords (driver.pieces failure) = true → failure.reportsMissing = true) ∧
      (speaks existsWords (driver.shown topic failure) = true →
        speaks existsWords (driver.pieces failure) = true) ∧
      (speaks missingWords (driver.shown topic failure) = true →
        speaks missingWords (driver.pieces failure) = true) := by
  have htopic := trim_of_validateTopicRequest hrequest
  constructor
  · intro h
    have hensured := h.ensured
    have hdeleted := h.deleted
    rw [ensured_iff hrequest, driver.exists_errorText] at hensured
    rw [deleted_iff htopic, driver.missing_errorText] at hdeleted
    have hplain := shown_plain driver failure
    obtain ⟨hexists, hmissing⟩ := h.nameless "t" (plain_request hrequest) hplain
    rw [speaks_append, Bool.or_eq_false_iff] at hplain
    rw [driver.exists_errorText, driver.exists_errorText, hplain.1, Bool.or_false] at hexists
    rw [driver.missing_errorText, driver.missing_errorText, hplain.2, Bool.or_false] at hmissing
    refine ⟨fun hspeaks => hensured (by rw [hspeaks, Bool.true_or]),
      fun hspeaks => hdeleted (by rw [hspeaks, Bool.true_or]), fun hname => ?_, fun hname => ?_⟩
    · rw [← hexists, hname, Bool.or_true]
    · rw [← hmissing, hname, Bool.or_true]
  · rintro ⟨hexists, hmissing, hnameExists, hnameMissing⟩
    have hdropExists : isTopicAlreadyExistsError (driver.display (driver.error topic failure)) =
        speaks existsWords (driver.pieces failure) := by
      rw [driver.exists_errorText, Bool.or_eq_left_iff_imp]
      exact hnameExists
    have hdropMissing : isTopicMissingError (driver.display (driver.error topic failure)) =
        speaks missingWords (driver.pieces failure) := by
      rw [driver.missing_errorText, Bool.or_eq_left_iff_imp]
      exact hnameMissing
    refine ⟨fun h => ?_, fun h => ?_, fun h => ?_, fun other hother hplain => ?_⟩
    · rw [ensured_iff hrequest, hdropExists] at h
      exact hexists h
    · rw [deleted_iff htopic, hdropMissing] at h
      exact hmissing h
    · rw [hdropExists, hdropMissing] at h
      have hnot := ControllerFailure.reportsMissing_of_reportsExists (hexists h.1)
      exact absurd (hmissing h.2) (by rw [hnot]; exact Bool.false_ne_true)
    · rw [speaks_append, Bool.or_eq_false_iff] at hplain
      rw [hdropExists, hdropMissing, driver.exists_errorText, driver.missing_errorText, hplain.1,
        hplain.2, Bool.or_false, Bool.or_false]
      exact ⟨rfl, rfl⟩

end

/-- A driver's text, with the names of the codes that the runs below use. -/
def quotedText : DriverText where
  display
    | .serverError code message request =>
      List.intercalate ['"'] [headline code, (message.getD "n/a".toList), request]
    | .connection detail | .request detail | .retryFailed detail | .invalidResponse detail
    | .other detail => detail
    | .timeout => "Timeout".toList
  request topic := List.intercalate ['"']
    [", request: Topic(".toList, topic, "), response: None, virtual: false".toList]
  headline := headline
  message message := message.getD "n/a".toList
  wording := ", request: Topic(".toList
  name topic := topic
  rest := "), response: None, virtual: false".toList
  display_server _ _ _ := by simp [List.intercalate]
  name_alphanum _ _ := rfl
where
  headline : ProtocolError → Text
    | .topicAlreadyExists => "Server error TopicAlreadyExists with message ".toList
    | .topicAuthorizationFailed => "Server error TopicAuthorizationFailed with message ".toList
    | _ => "Server error with message ".toList

/-- The report that `orders` exists is the only error that is swallowed for it. -/
theorem swallows_only_reported_orders : SwallowsOnlyReported quotedText "orders" (.of 1)
    ⟨1, by decide, by decide⟩ (.server .topicAlreadyExists none) :=
  (swallows_only_reported_iff (by decide)).mpr
    ⟨fun _ => rfl, by decide, by decide, by decide⟩

/-- A refused authorization is taken for a success because of the name `existing-orders`. -/
theorem existing_orders_swallowed : ¬ SwallowsOnlyReported quotedText "existing-orders" (.of 1)
    ⟨1, by decide, by decide⟩ (.server .topicAuthorizationFailed none) := by
  intro h
  have hensured := h.ensured
  rw [ensured_iff (by decide), quotedText.exists_errorText] at hensured
  exact absurd (hensured (by decide)) (by decide)

end Kafkax
