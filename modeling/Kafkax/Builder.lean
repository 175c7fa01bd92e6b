import Kafkax.EnvVars
import Kafkax.Library.Registers

/-!
# The builder of a configuration

`KafkaConfigBuilder` starts with the defaults, each of its methods writes fields, and `build` checks
the result.  The fields of a configuration are registers (`configBundle`) and a method is a list of
writes to them.

* `build_last_writes`: the last write to each field decides what is built.
* `build_range`: what can be built, and what `build` never complains about.
-/

namespace Kafkax

open Registers

/-! ### The functions of the source -/

/-- A call of a method of `KafkaConfigBuilder`. -/
inductive BuilderCall where
  | brokers (brokers : String)
  | clientId (clientId : String)
  | saslPlain (username password : String)
  | noSasl
  | tls (enable : Bool)
  | tlsCaFile (path : PathBuf)
  | deliveryTimeout (timeout : Duration)
  | connectTimeout (timeout : Duration)
  | operationTimeout (timeout : Duration)

/-- What a method does to the configuration inside. -/
def BuilderCall.apply (inner : KafkaConfig) : BuilderCall → KafkaConfig
  | .brokers servers => { inner with brokers := servers }
  | .clientId id => { inner with clientId := id }
  | .saslPlain username password =>
    { inner with
      saslMechanism := some defaultSaslMechanism
      saslUsername := some username
      saslPassword := some password }
  | .noSasl =>
    { inner with saslMechanism := none, saslUsername := none, saslPassword := none }
  | .tls enable => { inner with tls := enable }
  | .tlsCaFile path => { inner with tlsCaFile := some path }
  | .deliveryTimeout timeout => { inner with deliveryTimeout := timeout }
  | .connectTimeout timeout => { inner with connectTimeout := timeout }
  | .operationTimeout timeout => { inner with operationTimeout := timeout }

/-- The configuration inside after `KafkaConfigBuilder::new` and some calls. -/
def builderInner (calls : List BuilderCall) : KafkaConfig := calls.foldl BuilderCall.apply default

/-- `KafkaConfigBuilder::new`, some calls, and `build`. -/
def build (parser : UrlParser) (calls : List BuilderCall) : KafkaResult KafkaConfig := do
  let inner := builderInner calls
  inner.validate parser
  return inner

/-! ### The last write decides -/

/-- The writes of a method. -/
def BuilderCall.writes : BuilderCall → List (Sigma ConfigField.Value)
  | .brokers servers => [⟨.brokers, servers⟩]
  | .clientId id => [⟨.clientId, id⟩]
  | .saslPlain username password =>
    [⟨.saslMechanism, some defaultSaslMechanism⟩, ⟨.saslUsername, some username⟩,
      ⟨.saslPassword, some password⟩]
  | .noSasl => [⟨.saslMechanism, none⟩, ⟨.saslUsername, none⟩, ⟨.saslPassword, none⟩]
  | .tls enable => [⟨.tls, enable⟩]
  | .tlsCaFile path => [⟨.tlsCaFile, some path⟩]
  | .deliveryTimeout timeout => [⟨.deliveryTimeout, timeout⟩]
  | .connectTimeout timeout => [⟨.connectTimeout, timeout⟩]
  | .operationTimeout timeout => [⟨.operationTimeout, timeout⟩]

/-- The last value that the calls write to a field. -/
def lastWrite (calls : List BuilderCall) (field : ConfigField) : Option field.Value :=
  (calls.flatMap BuilderCall.writes).reverse.dlookup field

theorem apply_eq_writes (inner : KafkaConfig) (call : BuilderCall) :
    call.apply inner = assignAll KafkaConfig.set call.writes inner := by
  cases call <;> rfl

theorem builderInner_eq_writes (calls : List BuilderCall) :
    builderInner calls =
      assignAll KafkaConfig.set (calls.flatMap BuilderCall.writes) default := by
  induction calls using List.reverseRecOn with
  | nil => rfl
  | append_singleton calls call ih =>
    rw [builderInner, List.foldl_append, ← builderInner, ih, List.flatMap_append,
      assignAll_append, List.flatMap_singleton]
    exact apply_eq_writes _ call

/-- **The last write decides**: calls with the same last write to every field, in whatever order
and however many, build the same configuration or fail with the same error. -/
theorem build_last_writes (parser : UrlParser) {calls calls' : List BuilderCall}
    (h : ∀ field, lastWrite calls field = lastWrite calls' field) :
    build parser calls = build parser calls' := by
  have hinner : builderInner calls = builderInner calls' := by
    rw [builderInner_eq_writes, builderInner_eq_writes]
    exact assignAll_congr KafkaConfig.configBundle h default
  rw [build, build, hinner]

/-- Credentials that are taken back leave no trace, wherever the other calls stand. -/
theorem build_last_writes_no_sasl :
    build plainParser [.saslPlain "app" "secret", .clientId "orders", .tls true, .noSasl] =
      build plainParser [.tls false, .noSasl, .tls true, .clientId "orders"] :=
  build_last_writes plainParser fun field => by cases field <;> rfl

/-! ### What can be built -/

/-- SASL as the methods leave it: off, or `PLAIN` with both credentials. -/
inductive BuilderSasl : Option String → Option String → Option String → Prop where
  | off : BuilderSasl none none none
  | plain (username password : String) :
      BuilderSasl (some defaultSaslMechanism) (some username) (some password)

theorem BuilderSasl.mechanism {mechanism username password : Option String}
    (h : BuilderSasl mechanism username password) {name : String}
    (hname : mechanism = some name) : name = defaultSaslMechanism := by
  cases h with
  | off => cases hname
  | plain username password => exact (Option.some.inj hname).symm

/-- **A call** of a method keeps SASL so. -/
theorem BuilderSasl.apply {inner : KafkaConfig}
    (h : BuilderSasl inner.saslMechanism inner.saslUsername inner.saslPassword)
    (call : BuilderCall) :
    BuilderSasl (call.apply inner).saslMechanism (call.apply inner).saslUsername
      (call.apply inner).saslPassword := by
  cases call with
  | saslPlain username password => exact .plain username password
  | noSasl => exact .off
  | _ => exact h

/-- **All calls** keep SASL so. -/
theorem builderSasl (calls : List BuilderCall) :
    BuilderSasl (builderInner calls).saslMechanism (builderInner calls).saslUsername
      (builderInner calls).saslPassword := by
  induction calls using List.reverseRecOn with
  | nil => exact .off
  | append_singleton calls call ih =>
    rw [builderInner, List.foldl_append]
    exact ih.apply call

/-- The faults of the SASL fields. -/
def ConfigFault.ofSasl : ConfigFault → Bool
  | .unsupportedMechanism _ | .noUsername | .noPassword | .credentialsWithoutMechanism => true
  | _ => false

theorem brokers_ofSasl {parser : UrlParser} {tls : Bool} {entries : List LineText.Text}
    {fault : ConfigFault} (h : checkBrokers parser tls entries = .error fault) :
    fault.ofSasl = false := by
  obtain ⟨before, broker, after, -, -, hrefused⟩ := checkBrokers_eq_error h
  rcases hrefused with hfault | ⟨host, -, -, -, rfl⟩
  · rcases brokerHost_eq_error hfault with ⟨error, rfl⟩ | rfl | rfl <;> rfl
  · rfl

/-- A fault of the SASL fields is one of their checks. -/
theorem checkSasl_of_check {parser : UrlParser} {config : KafkaConfig} {fault : ConfigFault}
    (h : config.check parser = .error fault) (hsasl : fault.ofSasl = true) :
    checkSasl config.saslMechanism config.saslUsername config.saslPassword = .error fault := by
  have hother : ∀ {found : ConfigFault}, found.ofSasl = false →
      (Except.error found : Except ConfigFault Unit) ≠ .error fault := by
    intro found hfound heq
    rw [Except.error.inj heq, hsasl] at hfound
    exact absurd hfound (by decide)
  rw [KafkaConfig.check] at h
  split at h
  · exact absurd h (hother rfl)
  · split at h
    · exact absurd h (hother rfl)
    · split at h
      · exact absurd h (hother rfl)
      · split at h
        · exact absurd h (hother rfl)
        · split at h
          · rename_i found hfound
            exact absurd h (hother (brokers_ofSasl hfound))
          · split at h
            · rename_i found hfound
              rw [← Except.error.inj h]
              exact hfound
            · split at h
              · exact absurd h (hother rfl)
              · cases h

/-- The credentials may be empty, and nothing else is wrong with the SASL that the methods write. -/
theorem BuilderSasl.checkSasl_eq_error {mechanism username password : Option String}
    (h : BuilderSasl mechanism username password) {fault : ConfigFault}
    (herror : checkSasl mechanism username password = .error fault) :
    fault = .noUsername ∨ fault = .noPassword := by
  cases h with
  | off => cases herror
  | plain username password =>
    rw [checkSasl, if_neg (not_not.mpr rfl)] at herror
    split_ifs at herror
    · exact Or.inl (Except.error.inj herror).symm
    · exact Or.inr (Except.error.inj herror).symm

/-- Calls that build a configuration. -/
def KafkaConfig.builderCalls (config : KafkaConfig) : List BuilderCall :=
  [.brokers config.brokers, .clientId config.clientId] ++
    (config.saslCredentials.map fun credentials =>
      BuilderCall.saslPlain credentials.1 credentials.2).toList ++
    [.tls config.tls] ++ (config.tlsCaFile.map BuilderCall.tlsCaFile).toList ++
    [.deliveryTimeout config.deliveryTimeout, .connectTimeout config.connectTimeout,
      .operationTimeout config.operationTimeout]

theorem builderInner_builderCalls {config : KafkaConfig}
    (h : BuilderSasl config.saslMechanism config.saslUsername config.saslPassword) :
    builderInner config.builderCalls = config := by
  obtain ⟨brokers, clientId, mechanism, username, password, tls, caFile, delivery, connect,
    operation⟩ := config
  have hsasl : BuilderSasl mechanism username password := h
  cases hsasl <;> cases caFile <;> rfl

theorem builderSasl_of_checked {mechanism username password : Option String}
    (h : SaslChecked mechanism username password)
    (hplain : ∀ name, mechanism = some name → name = defaultSaslMechanism) :
    BuilderSasl mechanism username password := by
  cases h with
  | off => exact .off
  | plain mechanism username password =>
    rw [hplain mechanism rfl]
    exact .plain username password

/-- `build` returns the configuration inside, if it passes the check. -/
theorem build_eq_ok {parser : UrlParser} {calls : List BuilderCall} {config : KafkaConfig} :
    build parser calls = .ok config ↔
      builderInner calls = config ∧ config.Checked parser := by
  rw [build, bind_eq_ok]
  constructor
  · rintro ⟨u, hvalid, hconfig⟩
    obtain rfl := Except.ok.inj hconfig
    exact ⟨rfl, validate_eq_ok_iff.mp hvalid⟩
  · rintro ⟨rfl, hchecked⟩
    exact ⟨(), validate_eq_ok_iff.mpr hchecked, rfl⟩

/-- **What can be built**: exactly the checked configurations whose mechanism, if any, is spelled
`PLAIN`.  Of the faults of the SASL fields, calls can only lead to an empty credential. -/
theorem build_range (parser : UrlParser) :
    (∀ config, (∃ calls, build parser calls = .ok config) ↔
      config.Checked parser ∧
        ∀ name, config.saslMechanism = some name → name = defaultSaslMechanism) ∧
    ∀ calls fault, (builderInner calls).check parser = .error fault → fault.ofSasl = true →
      fault = .noUsername ∨ fault = .noPassword := by
  refine ⟨fun config => ⟨?_, ?_⟩, fun calls fault h hsasl => ?_⟩
  · rintro ⟨calls, h⟩
    obtain ⟨rfl, hchecked⟩ := build_eq_ok.mp h
    exact ⟨hchecked, fun name hname => (builderSasl calls).mechanism hname⟩
  · rintro ⟨hchecked, hplain⟩
    have hsasl := builderSasl_of_checked hchecked.sasl hplain
    exact ⟨config.builderCalls, build_eq_ok.mpr ⟨builderInner_builderCalls hsasl, hchecked⟩⟩
  · exact (builderSasl calls).checkSasl_eq_error (checkSasl_of_check h hsasl)

end Kafkax
