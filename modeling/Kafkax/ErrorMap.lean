import Kafkax.Error
import Kafkax.Library.Search

/-!
# From driver errors to the crate's errors

An `rskafka` error is classified by its structure, down to the protocol code of a server error.
Any other error is classified by its text, by an ordered cascade of substring searches.  The
public error keeps the classification and the context, never the text of the driver.
-/

namespace Kafkax

open LineText

/-- The codes of `rskafka`'s `ProtocolError` that `classify_protocol` lists, and the rest. -/
inductive ProtocolError where
  | unknownServerError | leaderNotAvailable | notLeaderOrFollower | requestTimedOut
  | brokerNotAvailable | replicaNotAvailable | networkException | kafkaStorageError
  | notEnoughReplicas | notEnoughReplicasAfterAppend | staleControllerEpoch | notController
  | unknownTopicOrPartition | unknownLeaderEpoch | fencedLeaderEpoch | staleBrokerEpoch
  | preferredLeaderNotAvailable | eligibleLeadersNotAvailable | unstableOffsetCommit
  | throttlingQuotaExceeded | concurrentTransactions | outOfOrderSequenceNumber
  | duplicateSequenceNumber | reassignmentInProgress | invalidProducerEpoch | unknownProducerId
  | messageTooLarge | recordListTooLarge | offsetMetadataTooLarge | invalidTopicException
  | unknownTopicId | resourceNotFound | topicAlreadyExists | invalidPartitions
  | invalidReplicationFactor | invalidReplicaAssignment | invalidConfig | invalidRequest
  | invalidRecord | corruptMessage | invalidFetchSize | invalidTimestamp
  | unsupportedForMessageFormat | unsupportedVersion | unsupportedCompressionType
  | policyViolation | topicAuthorizationFailed | groupAuthorizationFailed
  | clusterAuthorizationFailed | transactionalIdAuthorizationFailed | saslAuthenticationFailed
  | unsupportedSaslMechanism | illegalSaslState | unacceptableCredential | securityDisabled
  | topicDeletionDisabled | listenerNotFound | offsetOutOfRange | positionOutOfRange
  | invalidPrincipalType
  | other (code : ℤ)
deriving DecidableEq

/-- `rskafka`'s error; a server error carries the broker's message and the request it answers. -/
inductive RskafkaError where
  | connection (detail : Text)
  | request (detail : Text)
  | retryFailed (detail : Text)
  | timeout
  | invalidResponse (detail : Text)
  | serverError (protocolError : ProtocolError) (message : Option Text) (request : Text)
  | other (detail : Text)
deriving DecidableEq

/-- The argument of `map_kafka_error`: an `rskafka` error, or any other with its text. -/
inductive DriverError where
  | rskafka (error : RskafkaError)
  | foreign (message : Text)

/-- `Classified` -/
inductive Classified where
  | connection
  | backend
  | transient
  | timeout
  | closed
deriving DecidableEq

/-- `classify_protocol` -/
def classifyProtocol : ProtocolError → Classified
  | .unknownServerError | .leaderNotAvailable | .notLeaderOrFollower | .requestTimedOut
  | .brokerNotAvailable | .replicaNotAvailable | .networkException | .kafkaStorageError
  | .notEnoughReplicas | .notEnoughReplicasAfterAppend | .staleControllerEpoch | .notController
  | .unknownTopicOrPartition | .unknownLeaderEpoch | .fencedLeaderEpoch | .staleBrokerEpoch
  | .preferredLeaderNotAvailable | .eligibleLeadersNotAvailable | .unstableOffsetCommit
  | .throttlingQuotaExceeded | .concurrentTransactions | .outOfOrderSequenceNumber
  | .duplicateSequenceNumber | .reassignmentInProgress | .invalidProducerEpoch
  | .unknownProducerId => .transient
  | _ => .backend

/-- `classify_rskafka` -/
def classifyRskafka : RskafkaError → Classified
  | .connection _ | .request _ => .connection
  | .retryFailed _ => .transient
  | .timeout => .timeout
  | .invalidResponse _ => .backend
  | .serverError protocolError _ _ => classifyProtocol protocolError
  | .other _ => .backend

/-- One of the words occurs in the text. -/
def containsAny (words : List String) (text : Text) : Bool :=
  words.any fun word => contains word.toList text

/-- `classify_message`: the order of the searches matters. -/
def classifyMessage (message : Text) : Classified :=
  let text := toAsciiLowercase message
  if containsAny ["too large", "toolarge", "too_large", "message_size", "record_too_large",
      "unknown_topic_id", "unknown topic id", "invalid topic", "does not exist", "not_exist",
      "not found", "already exists"] text then .backend
  else if containsAny ["timeout", "timed out"] text then .timeout
  else if containsAny ["cancel"] text then .closed
  else if containsAny ["unknown_topic", "unknown topic", "not leader", "leader", "retriable",
      "rebalance", "network", "coordinator"] text then .transient
  else if containsAny ["auth", "sasl", "ssl", "tls", "permission", "invalid", "unsupported"] text
    then .backend
  else .connection

/-- The classification of a driver error. -/
def classify : DriverError → Classified
  | .rskafka error => classifyRskafka error
  | .foreign message => classifyMessage message

/-- The public error of a classification. -/
def Classified.toError (context : String) : Classified → KafkaError
  | .connection => .connection s!"{context}: 驱动连接失败"
  | .backend => .backend s!"{context}: 驱动拒绝请求"
  | .transient => .transient s!"{context}: 驱动报告可重试故障"
  | .timeout => .timeout s!"{context}: 驱动请求超时"
  | .closed => .closed s!"{context}: 驱动请求已取消"

/-- `map_kafka_error` -/
def mapKafkaError (context : String) (error : DriverError) : KafkaError :=
  (classify error).toError context

/-- An error of the driver itself is never taken for a cancellation. -/
theorem classifyRskafka_ne_closed (error : RskafkaError) : classifyRskafka error ≠ .closed := by
  cases error with
  | serverError protocolError message request =>
    show classifyProtocol protocolError ≠ .closed
    rw [classifyProtocol.eq_def]
    split <;> simp
  | _ => simp [classifyRskafka]

end Kafkax
