import Kafkax.ErrorMap
import Kafkax.Library.Cascade

/-!
# Failures that may be repeated

`classify_message` is a cascade of five groups of words.  The first and the last group stand for
failures that no repetition mends, and the last names the failures of authentication.  Between them
stand the groups for timeouts, cancellations and passing failures, of short and common words.

* `retryable_foreign_iff`: what the text of any error has to say for the error to be retryable.
* `auth_failure_permanent_iff`: a text that reports a failed authentication is taken for permanent
  exactly if no word of a timeout or a passing failure is found before a permanent one.
-/

namespace Kafkax

open Cascades LineText

/-! ### The cascade -/

/-- The first group: the request cannot succeed. -/
def permanentWords : List String :=
  ["too large", "toolarge", "too_large", "message_size", "record_too_large", "unknown_topic_id",
    "unknown topic id", "invalid topic", "does not exist", "not_exist", "not found",
    "already exists"]

/-- The second group: a timeout. -/
def timeoutWords : List String := ["timeout", "timed out"]

/-- The third group: a cancellation. -/
def cancelWords : List String := ["cancel"]

/-- The fourth group: a passing failure. -/
def transientWords : List String :=
  ["unknown_topic", "unknown topic", "not leader", "leader", "retriable", "rebalance", "network",
    "coordinator"]

/-- The last group: the request was refused. -/
def refusedWords : List String :=
  ["auth", "sasl", "ssl", "tls", "permission", "invalid", "unsupported"]

/-- The groups in front of the last. -/
def earlierGroups : List (List String × Classified) :=
  [(permanentWords, .backend), (timeoutWords, .timeout), (cancelWords, .closed),
    (transientWords, .transient)]

/-- `classify_message` is the cascade of the groups. -/
theorem classifyMessage_eq (message : Text) :
    classifyMessage message = firstMatch containsAny .connection
      (earlierGroups ++ [(refusedWords, .backend)]) (toAsciiLowercase message) := rfl

/-! ### Retryable classifications -/

/-- The classifications whose errors may be repeated. -/
def Classified.isRetryable : Classified → Bool
  | .connection | .transient | .timeout => true
  | .backend | .closed => false

/-- A classification whose error may not be repeated. -/
def Classified.Permanent (self : Classified) : Prop := self.isRetryable = false

theorem isRetryable_toError (context : String) (classified : Classified) :
    (classified.toError context).isRetryable = classified.isRetryable := by
  cases classified <;> rfl

theorem isRetryable_foreign (context : String) (message : Text) :
    (mapKafkaError context (.foreign message)).isRetryable =
      (classifyMessage message).isRetryable := isRetryable_toError context _

/-- The groups in front of the last let a permanent failure through. -/
theorem harmless_earlierGroups_iff (text : Text) :
    Harmless containsAny Classified.Permanent earlierGroups text ↔
      containsAny permanentWords text = true ∨
        containsAny timeoutWords text = false ∧
          (containsAny cancelWords text = true ∨ containsAny transientWords text = false) := by
  simp only [earlierGroups, Harmless, Classified.Permanent, Classified.isRetryable]
  cases containsAny permanentWords text <;> cases containsAny timeoutWords text <;>
    cases containsAny cancelWords text <;> cases containsAny transientWords text <;> simp

/-- **When an error is retryable by its text**: it names no permanent failure, and it names a
timeout, or no cancellation and either a passing failure or nothing known. -/
theorem retryable_foreign_iff (context : String) (message : Text) :
    let text := toAsciiLowercase message
    (mapKafkaError context (.foreign message)).isRetryable = true ↔
      containsAny permanentWords text = false ∧ (containsAny timeoutWords text = true ∨
        containsAny cancelWords text = false ∧
          (containsAny transientWords text = true ∨ containsAny refusedWords text = false)) := by
  intro text
  have hcascade : classifyMessage message = firstMatch containsAny .connection
      ((permanentWords, .backend) :: (timeoutWords, .timeout) :: (cancelWords, .closed) ::
        (transientWords, .transient) :: [(refusedWords, .backend)]) text :=
    classifyMessage_eq message
  rw [isRetryable_foreign, hcascade]
  cases hpermanent : containsAny permanentWords text with
  | true =>
    rw [firstMatch_cons_of_pos hpermanent]
    simp [Classified.isRetryable]
  | false =>
    rw [firstMatch_cons_of_neg hpermanent]
    cases htimeout : containsAny timeoutWords text with
    | true =>
      rw [firstMatch_cons_of_pos htimeout]
      simp [Classified.isRetryable]
    | false =>
      rw [firstMatch_cons_of_neg htimeout]
      cases hcancel : containsAny cancelWords text with
      | true =>
        rw [firstMatch_cons_of_pos hcancel]
        simp [Classified.isRetryable]
      | false =>
        rw [firstMatch_cons_of_neg hcancel]
        cases htransient : containsAny transientWords text with
        | true =>
          rw [firstMatch_cons_of_pos htransient]
          simp [Classified.isRetryable]
        | false =>
          rw [firstMatch_cons_of_neg htransient]
          cases hrefused : containsAny refusedWords text with
          | true =>
            rw [firstMatch_cons_of_pos hrefused]
            simp [Classified.isRetryable]
          | false =>
            rw [firstMatch_cons_of_neg hrefused]
            simp [firstMatch, Classified.isRetryable]

/-! ### Failed authentication -/

/-- The texts of a failed authentication. -/
def authFailures : List String := ["authentication failed", "authorization failed"]

/-- The last group holds for a failed authentication. -/
theorem refused_of_authFailure {text : Text} (h : containsAny authFailures text = true) :
    containsAny refusedWords text = true := by
  obtain ⟨phrase, hphrase, hfound⟩ := List.any_eq_true.mp h
  rw [contains_iff] at hfound
  have hphrases : ∀ phrase ∈ authFailures, "auth".toList <:+: phrase.toList := by decide
  refine List.any_eq_true.mpr ⟨"auth", List.mem_cons_self, ?_⟩
  exact contains_iff.mpr ((hphrases phrase hphrase).trans hfound)

/-- **A failed authentication is permanent**, in any letter case and with any text around it,
exactly if the text also names another permanent failure, or no timeout and either a cancellation
or no passing failure. -/
theorem auth_failure_permanent_iff (context : String) (message : Text)
    (h : containsAny authFailures (toAsciiLowercase message) = true) :
    (mapKafkaError context (.foreign message)).isRetryable = false ↔
      containsAny permanentWords (toAsciiLowercase message) = true ∨
        containsAny timeoutWords (toAsciiLowercase message) = false ∧
          (containsAny cancelWords (toAsciiLowercase message) = true ∨
            containsAny transientWords (toAsciiLowercase message) = false) := by
  rw [isRetryable_foreign, classifyMessage_eq, ← harmless_earlierGroups_iff]
  have hbackend : Classified.Permanent .backend := rfl
  exact firstMatch_iff_harmless (refused_of_authFailure h) hbackend

/-- The sentence of the test. -/
theorem sasl_failure_permanent :
    (mapKafkaError "ctx" (.foreign "SASL authentication failed".toList)).isRetryable = false :=
  (auth_failure_permanent_iff "ctx" _ (by decide)).mpr (Or.inr ⟨by decide, Or.inr (by decide)⟩)

/-- A failed authentication with a timeout in its text is taken for a timeout. -/
theorem auth_failure_timed_out :
    containsAny authFailures (toAsciiLowercase
      "SASL authentication failed: broker timed out checking the credentials".toList) = true ∧
    (mapKafkaError "kafkax connect" (.foreign
      "SASL authentication failed: broker timed out checking the credentials".toList)).isRetryable =
        true := by
  constructor
  · decide
  · decide

end Kafkax
