import Kafkax.Error
import Kafkax.Library.DebugText

/-!
# The configuration of a client

`KafkaConfig` with its defaults, and its `Debug`, which hides the credentials: the user name and
the password as a whole, and every broker entry with an `@` in it.
-/

namespace Kafkax

open DebugText LineText

/-- `std::time::Duration` -/
structure Duration where
  secs : ℕ
  nanos : ℕ
  secs_lt : secs < 18446744073709551616
  nanos_lt : nanos < 1000000000
deriving DecidableEq

/-- A number of seconds. -/
abbrev Duration.ofSecs (secs : ℕ) (h : secs < 18446744073709551616 := by decide) : Duration :=
  ⟨secs, 0, h, by decide⟩

/-- `PathBuf`, written as text -/
abbrev PathBuf := String

/-- `DEFAULT_BROKERS` -/
def defaultBrokers : String := "127.0.0.1:9092"

/-- `DEFAULT_SASL_MECHANISM` -/
def defaultSaslMechanism : String := "PLAIN"

/-- `KafkaConfig` -/
structure KafkaConfig where
  brokers : String
  clientId : String
  saslMechanism : Option String
  saslUsername : Option String
  saslPassword : Option String
  tls : Bool
  tlsCaFile : Option PathBuf
  deliveryTimeout : Duration
  connectTimeout : Duration
  operationTimeout : Duration
deriving DecidableEq

/-- `Default for KafkaConfig` -/
instance : Inhabited KafkaConfig where
  default :=
    { brokers := defaultBrokers
      clientId := "kafkax"
      saslMechanism := none
      saslUsername := none
      saslPassword := none
      tls := false
      tlsCaFile := none
      deliveryTimeout := .ofSecs 30
      connectTimeout := .ofSecs 10
      operationTimeout := .ofSecs 10 }

/-! ### Debug -/

/-- The text that stands for a broker entry with userinfo. -/
def redactedUserinfo : Text := "<redacted-userinfo>".toList

/-- `redact_brokers` for one entry. -/
def redactBroker (broker : Text) : Text :=
  if '@' ∈ broker then redactedUserinfo else trim broker

/-- `redact_brokers` -/
def redactBrokers (brokers : Text) : Text :=
  [','].intercalate ((brokers.splitOn ',').map redactBroker)

/-- The decimals of a fraction of `10 ^ width`, without trailing zeros. -/
def fractionDigits : ℕ → ℕ → Text
  | _, 0 => []
  | 0, _ => []
  | width + 1, fraction =>
    (fraction / 10 ^ width).digitChar :: fractionDigits width (fraction % 10 ^ width)

/-- A number with decimals, followed by a unit. -/
def debugDecimal (whole width fraction : ℕ) (unit : String) : Text :=
  let digits := fractionDigits width fraction
  Nat.toDigits 10 whole ++ (if digits.isEmpty then [] else '.' :: digits) ++ unit.toList

/-- `Debug` of a duration -/
def Duration.debug (self : Duration) : Text :=
  if 0 < self.secs then debugDecimal self.secs 9 self.nanos "s"
  else if 1000000 ≤ self.nanos then
    debugDecimal (self.nanos / 1000000) 6 (self.nanos % 1000000) "ms"
  else if 1000 ≤ self.nanos then debugDecimal (self.nanos / 1000) 3 (self.nanos % 1000) "µs"
  else debugDecimal self.nanos 0 0 "ns"

namespace KafkaConfig

/-- `Debug` of a configuration; `escaped` tells the characters that are not printable, `alternate`
is the flag of `{:#?}`. -/
def debug (escaped : Char → Bool) (alternate : Bool) (self : KafkaConfig) : Text :=
  let str (s : String) : Text := debugStr escaped s.toList
  debugStruct alternate "KafkaConfig"
    [("brokers", debugStr escaped (redactBrokers self.brokers.toList)),
      ("client_id", str self.clientId),
      ("sasl_mechanism", debugOption alternate (self.saslMechanism.map str)),
      ("sasl_username", debugOption alternate (self.saslUsername.map fun _ => str "***")),
      ("sasl_password", debugOption alternate (self.saslPassword.map fun _ => str "***")),
      ("tls", if self.tls then "true".toList else "false".toList),
      ("tls_ca_file", debugOption alternate (self.tlsCaFile.map str)),
      ("delivery_timeout", self.deliveryTimeout.debug),
      ("connect_timeout", self.connectTimeout.debug),
      ("operation_timeout", self.operationTimeout.debug)]

/-- The text of a configuration with both credentials determines its redacted brokers, and is
determined by them and the fields that are not secret. -/
theorem debug_eq_iff (escaped : Char → Bool) (alternate : Bool) (config : KafkaConfig)
    (brokers brokers' username username' password password' : String) :
    { config with
      brokers := brokers, saslUsername := some username, saslPassword := some password
      : KafkaConfig }.debug escaped alternate =
      { config with
        brokers := brokers', saslUsername := some username', saslPassword := some password'
        : KafkaConfig }.debug escaped alternate ↔
    redactBrokers brokers.toList = redactBrokers brokers'.toList := by
  constructor
  · intro h
    exact debugStr_injective escaped (debugStruct_cons_inj h)
  · intro h
    simp only [debug, h]
    rfl

end KafkaConfig

example : (Duration.debug ⟨1, 500000000, by decide, by decide⟩) = "1.5s".toList := by decide

end Kafkax
