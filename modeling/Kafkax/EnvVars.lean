import Kafkax.Connect
import Kafkax.Library.Unsigned
import Kafkax.TomlFile

/-!
# The configuration from the environment

`from_env` overlays the defaults with the environment variables, one after the other, and checks
the result.

* `applyEnvOverlay_eq`: the overlay, field by field.
* `fromEnv_range`: the configurations that an environment can say, and an environment for each.
* `credentials_confined`: nothing but the credentials depends on the values of the credentials.
-/

namespace Kafkax

open BoundedIntegers LineText

/-! ### The functions of the source -/

/-- The environment variables. -/
inductive EnvVar where
  | brokers
  | clientId
  | saslMechanism
  | saslUsername
  | saslPassword
  | tls
  | tlsCaFile
  | connectTimeoutMs
  | operationTimeoutMs
  | deliveryTimeoutMs
deriving DecidableEq

/-- `ENV_BROKERS` and the others -/
def EnvVar.name : EnvVar → String
  | .brokers => "FOUNDATIONX_KAFKAX_BROKERS"
  | .clientId => "FOUNDATIONX_KAFKAX_CLIENT_ID"
  | .saslMechanism => "FOUNDATIONX_KAFKAX_SASL_MECHANISM"
  | .saslUsername => "FOUNDATIONX_KAFKAX_SASL_USERNAME"
  | .saslPassword => "FOUNDATIONX_KAFKAX_SASL_PASSWORD"
  | .tls => "FOUNDATIONX_KAFKAX_TLS"
  | .tlsCaFile => "FOUNDATIONX_KAFKAX_TLS_CA_FILE"
  | .connectTimeoutMs => "FOUNDATIONX_KAFKAX_CONNECT_TIMEOUT_MS"
  | .operationTimeoutMs => "FOUNDATIONX_KAFKAX_OPERATION_TIMEOUT_MS"
  | .deliveryTimeoutMs => "FOUNDATIONX_KAFKAX_DELIVERY_TIMEOUT_MS"

/-- A text without the character that ends it in the environment. -/
def NulFree (s : String) : Prop := '\x00' ∉ s.toList

instance (s : String) : Decidable (NulFree s) := inferInstanceAs (Decidable ('\x00' ∉ s.toList))

/-- A value of the environment that is Unicode. -/
structure EnvValue where
  text : String
  nul_free : NulFree text

/-- `std::env::var`; `none` for a variable that is not set or not Unicode. -/
abbrev Environment := EnvVar → Option EnvValue

/-- `parse_bool` -/
def parseBool (value : String) (var : EnvVar) : KafkaResult Bool :=
  let text := toAsciiLowercase (trim value.toList)
  if text ∈ ["1", "true", "yes", "on"].map String.toList then .ok true
  else if text ∈ ["0", "false", "no", "off"].map String.toList then .ok false
  else .error (.config s!"{var.name} 非法: {value}")

/-- `parse_millis` -/
def parseMillis (value : String) (var : EnvVar) : KafkaResult Duration :=
  match parseUnsigned 18446744073709551616 (trim value.toList) with
  | .ok millis => .ok (.fromMillis millis)
  | .error error => .error (.config s!"{var.name} 非法: {error.display}")

/-- A trimmed credential; nothing for a blank one. -/
def credential (value : String) : Option String :=
  let text := trim value.toList
  if text.isEmpty then none else some (String.ofList text)

/-- The mechanism turns SASL off. -/
def isOff (mechanism : Text) : Bool :=
  mechanism.isEmpty || toAsciiLowercase mechanism == "none".toList

/-- What the value of a variable changes. -/
def EnvVar.overlay (value : String) (self : KafkaConfig) : EnvVar → KafkaResult KafkaConfig
  | .brokers => .ok (if (trim value.toList).isEmpty then self else { self with brokers := value })
  | .clientId => .ok (if (trim value.toList).isEmpty then self else { self with clientId := value })
  | .saslMechanism =>
    let mechanism := trim value.toList
    .ok (if isOff mechanism then
        { self with saslMechanism := none, saslUsername := none, saslPassword := none }
      else { self with saslMechanism := some (String.ofList mechanism) })
  | .saslUsername => .ok { self with saslUsername := credential value }
  | .saslPassword => .ok { self with saslPassword := credential value }
  | .tls => (parseBool value .tls).map fun tls => { self with tls := tls }
  | .tlsCaFile =>
    .ok (if (trim value.toList).isEmpty then self else { self with tlsCaFile := some value })
  | .connectTimeoutMs =>
    (parseMillis value .connectTimeoutMs).map fun timeout => { self with connectTimeout := timeout }
  | .operationTimeoutMs =>
    (parseMillis value .operationTimeoutMs).map fun timeout =>
      { self with operationTimeout := timeout }
  | .deliveryTimeoutMs =>
    (parseMillis value .deliveryTimeoutMs).map fun timeout =>
      { self with deliveryTimeout := timeout }

namespace Environment

/-- `if let Ok(value) = std::env::var(name)` -/
def overlay (env : Environment) (var : EnvVar) (self : KafkaConfig) : KafkaResult KafkaConfig :=
  match env var with
  | some value => var.overlay value.text self
  | none => .ok self

end Environment

/-- `apply_env_overlay` -/
def applyEnvOverlay (env : Environment) (self : KafkaConfig) : KafkaResult KafkaConfig := do
  let self ← env.overlay .brokers self
  let self ← env.overlay .clientId self
  let self ← env.overlay .saslMechanism self
  let self ← env.overlay .saslUsername self
  let self ← env.overlay .saslPassword self
  let self ← env.overlay .tls self
  let self ← env.overlay .tlsCaFile self
  let self ← env.overlay .connectTimeoutMs self
  let self ← env.overlay .operationTimeoutMs self
  env.overlay .deliveryTimeoutMs self

/-- `from_env` -/
def fromEnv (parser : UrlParser) (env : Environment) : KafkaResult KafkaConfig := do
  let config ← applyEnvOverlay env default
  config.validate parser
  return config

/-- `connect_from_env` -/
def connectFromEnv {κ : Type} (parser : UrlParser) (world : TlsWorld)
    (build : ClientBuilder → Except RskafkaError κ) (inTime : Bool) (env : Environment) :
    KafkaResult (KafkaPool κ) := do
  let config ← fromEnv parser env
  KafkaPool.connect parser world build inTime config

/-! ### The overlay, field by field -/

namespace Environment

/-- A text: the value unless it is blank. -/
def filled (env : Environment) (var : EnvVar) : Option String :=
  (env var).bind fun value =>
    if (trim value.text.toList).isEmpty then none else some value.text

/-- The mechanism: nothing without the variable, and `some none` for `none` or a blank value. -/
def mechanism (env : Environment) : Option (Option String) :=
  (env .saslMechanism).map fun value =>
    let mechanism := trim value.text.toList
    if isOff mechanism then none else some (String.ofList mechanism)

/-- A credential, which a variable that is set replaces and a blank one takes away. -/
def credentialOr (env : Environment) (var : EnvVar) (old : Option String) : Option String :=
  match env var with
  | some value => credential value.text
  | none => old

/-- A credential of before, which the end of SASL takes away. -/
def kept (env : Environment) (old : Option String) : Option String :=
  match env.mechanism with
  | some none => none
  | _ => old

/-- `tls` -/
def flag (env : Environment) (old : Bool) : KafkaResult Bool :=
  match env .tls with
  | some value => parseBool value.text .tls
  | none => .ok old

/-- A timeout -/
def timeout (env : Environment) (var : EnvVar) (old : Duration) : KafkaResult Duration :=
  match env var with
  | some value => parseMillis value.text var
  | none => .ok old

end Environment

namespace Environment

variable (env : Environment) (self : KafkaConfig)

/-- A text that a variable replaces unless it is blank. -/
theorem overlay_filled (var : EnvVar) (get : KafkaConfig → String)
    (set : String → KafkaConfig → KafkaConfig)
    (hvar : ∀ value self, var.overlay value self =
      .ok (if (trim value.toList).isEmpty then self else set value self))
    (hget : ∀ self, set (get self) self = self) :
    env.overlay var self = .ok (set ((env.filled var).getD (get self)) self) := by
  rw [overlay, filled]
  cases env var with
  | none => exact congrArg Except.ok (hget self).symm
  | some value =>
    dsimp only [Option.bind_some]
    rw [hvar]
    split_ifs
    · exact congrArg Except.ok (hget self).symm
    · rfl

theorem overlay_tlsCaFile : env.overlay .tlsCaFile self =
    .ok { self with tlsCaFile := (env.filled .tlsCaFile).or self.tlsCaFile } := by
  rw [overlay, filled]
  cases env .tlsCaFile with
  | none => rfl
  | some value =>
    show Except.ok (ite ..) = Except.ok { self with tlsCaFile := Option.or (ite ..) _ }
    split_ifs <;> rfl

theorem overlay_saslMechanism : env.overlay .saslMechanism self =
    .ok { self with
      saslMechanism := env.mechanism.getD self.saslMechanism
      saslUsername := env.kept self.saslUsername
      saslPassword := env.kept self.saslPassword } := by
  rw [overlay, kept, kept, mechanism]
  cases env .saslMechanism with
  | none => rfl
  | some value =>
    by_cases hoff : isOff (trim value.text.toList) = true
    · simp only [EnvVar.overlay, Option.map_some, if_pos hoff]
      rfl
    · simp only [EnvVar.overlay, Option.map_some, if_neg hoff]
      rfl

/-- A credential that a variable replaces, or takes away if it is blank. -/
theorem overlay_credential (var : EnvVar) (get : KafkaConfig → Option String)
    (set : Option String → KafkaConfig → KafkaConfig)
    (hvar : ∀ value self, var.overlay value self = .ok (set (credential value) self))
    (hget : ∀ self, set (get self) self = self) :
    env.overlay var self = .ok (set (env.credentialOr var (get self)) self) := by
  rw [overlay, credentialOr]
  cases env var with
  | none => exact congrArg Except.ok (hget self).symm
  | some value => exact hvar value.text self

theorem overlay_tls : env.overlay .tls self =
    (env.flag self.tls).map fun tls => { self with tls := tls } := by
  rw [overlay, flag]
  cases env .tls <;> rfl

/-- A timeout that a variable replaces if it can be read. -/
theorem overlay_timeout (var : EnvVar) (get : KafkaConfig → Duration)
    (set : Duration → KafkaConfig → KafkaConfig)
    (hvar : ∀ value self, var.overlay value self =
      (parseMillis value var).map fun timeout => set timeout self)
    (hget : ∀ self, set (get self) self = self) :
    env.overlay var self = (env.timeout var (get self)).map fun timeout => set timeout self := by
  rw [overlay, timeout]
  cases env var with
  | none => exact congrArg Except.ok (hget self).symm
  | some value => exact hvar value.text self

end Environment

/-- **The overlay**, field by field: the first variable that cannot be read decides the error. -/
theorem applyEnvOverlay_eq (env : Environment) (self : KafkaConfig) :
    applyEnvOverlay env self = do
      let tls ← env.flag self.tls
      let connectTimeout ← env.timeout .connectTimeoutMs self.connectTimeout
      let operationTimeout ← env.timeout .operationTimeoutMs self.operationTimeout
      let deliveryTimeout ← env.timeout .deliveryTimeoutMs self.deliveryTimeout
      return {
        brokers := (env.filled .brokers).getD self.brokers
        clientId := (env.filled .clientId).getD self.clientId
        saslMechanism := env.mechanism.getD self.saslMechanism
        saslUsername := env.credentialOr .saslUsername (env.kept self.saslUsername)
        saslPassword := env.credentialOr .saslPassword (env.kept self.saslPassword)
        tls
        tlsCaFile := (env.filled .tlsCaFile).or self.tlsCaFile
        deliveryTimeout
        connectTimeout
        operationTimeout } := by
  have hok : ∀ (config : KafkaConfig) (next : KafkaConfig → KafkaResult KafkaConfig),
      (Except.ok config : KafkaResult KafkaConfig) >>= next = next config := fun _ _ => rfl
  have hmap : ∀ {α : Type} (read : KafkaResult α) (update : α → KafkaConfig)
      (next : KafkaConfig → KafkaResult KafkaConfig),
      read.map update >>= next = read >>= fun value => next (update value) := by
    intro α read update next
    cases read <;> rfl
  rw [applyEnvOverlay,
    env.overlay_filled _ .brokers (·.brokers)
      (fun brokers config => { config with brokers := brokers }) (fun _ _ => rfl) fun _ => rfl, hok,
    env.overlay_filled _ .clientId (·.clientId)
      (fun clientId config => { config with clientId := clientId }) (fun _ _ => rfl) fun _ => rfl,
    hok]
  dsimp only
  rw [env.overlay_saslMechanism, hok,
    env.overlay_credential _ .saslUsername (·.saslUsername)
      (fun username config => { config with saslUsername := username }) (fun _ _ => rfl)
      fun _ => rfl, hok,
    env.overlay_credential _ .saslPassword (·.saslPassword)
      (fun password config => { config with saslPassword := password }) (fun _ _ => rfl)
      fun _ => rfl, hok]
  dsimp only
  rw [env.overlay_tls, hmap]
  refine bind_congr fun tls => ?_
  rw [env.overlay_tlsCaFile, hok,
    env.overlay_timeout _ .connectTimeoutMs (·.connectTimeout)
      (fun timeout config => { config with connectTimeout := timeout }) (fun _ _ => rfl)
      fun _ => rfl, hmap]
  refine bind_congr fun connectTimeout => ?_
  rw [env.overlay_timeout _ .operationTimeoutMs (·.operationTimeout)
    (fun timeout config => { config with operationTimeout := timeout }) (fun _ _ => rfl)
    fun _ => rfl, hmap]
  refine bind_congr fun operationTimeout => ?_
  rw [env.overlay_timeout _ .deliveryTimeoutMs (·.deliveryTimeout)
    (fun timeout config => { config with deliveryTimeout := timeout }) (fun _ _ => rfl)
    fun _ => rfl]
  dsimp only
  cases env.timeout .deliveryTimeoutMs self.deliveryTimeout <;> rfl

/-- A configuration with an environment over it. -/
structure Overlaid (env : Environment) (old config : KafkaConfig) : Prop where
  brokers : config.brokers = (env.filled .brokers).getD old.brokers
  clientId : config.clientId = (env.filled .clientId).getD old.clientId
  saslMechanism : config.saslMechanism = env.mechanism.getD old.saslMechanism
  saslUsername : config.saslUsername = env.credentialOr .saslUsername (env.kept old.saslUsername)
  saslPassword : config.saslPassword = env.credentialOr .saslPassword (env.kept old.saslPassword)
  tls : env.flag old.tls = .ok config.tls
  tlsCaFile : config.tlsCaFile = (env.filled .tlsCaFile).or old.tlsCaFile
  connectTimeout : env.timeout .connectTimeoutMs old.connectTimeout = .ok config.connectTimeout
  operationTimeout :
    env.timeout .operationTimeoutMs old.operationTimeout = .ok config.operationTimeout
  deliveryTimeout :
    env.timeout .deliveryTimeoutMs old.deliveryTimeout = .ok config.deliveryTimeout

/-- A first part that returns a value. -/
theorem bind_eq_ok {α β : Type} {read : KafkaResult α} {next : α → KafkaResult β} {b : β} :
    read >>= next = .ok b ↔ ∃ a, read = .ok a ∧ next a = .ok b := by
  cases read with
  | error error =>
    refine iff_of_false (fun h => by cases h) ?_
    rintro ⟨_, h, _⟩
    cases h
  | ok a => exact ⟨fun h => ⟨a, rfl, h⟩, fun ⟨a', ha, h⟩ => Except.ok.inj ha ▸ h⟩

theorem applyEnvOverlay_eq_ok {env : Environment} {self config : KafkaConfig} :
    applyEnvOverlay env self = .ok config ↔ Overlaid env self config := by
  rw [applyEnvOverlay_eq]
  simp only [bind_eq_ok]
  constructor
  · rintro ⟨tls, htls, connect, hconnect, operation, hoperation, delivery, hdelivery, hconfig⟩
    rw [← Except.ok.inj hconfig]
    exact ⟨rfl, rfl, rfl, rfl, rfl, htls, rfl, hconnect, hoperation, hdelivery⟩
  · intro h
    refine ⟨_, h.tls, _, h.connectTimeout, _, h.operationTimeout, _, h.deliveryTimeout, ?_⟩
    refine congrArg Except.ok ?_
    rw [← h.brokers, ← h.clientId, ← h.saslMechanism, ← h.saslUsername, ← h.saslPassword,
      ← h.tlsCaFile]

/-- **`from_env` returns** the defaults with the environment over them, if they pass the check. -/
theorem fromEnv_eq_ok {parser : UrlParser} {env : Environment} {config : KafkaConfig} :
    fromEnv parser env = .ok config ↔ Overlaid env default config ∧ config.Checked parser := by
  rw [fromEnv, bind_eq_ok, ← applyEnvOverlay_eq_ok]
  constructor
  · rintro ⟨config', hoverlay, hvalid⟩
    obtain ⟨u, hchecked, hconfig⟩ := bind_eq_ok.mp hvalid
    obtain rfl := Except.ok.inj hconfig
    exact ⟨hoverlay, validate_eq_ok_iff.mp hchecked⟩
  · rintro ⟨hoverlay, hchecked⟩
    exact ⟨config, hoverlay, bind_eq_ok.mpr ⟨(), validate_eq_ok_iff.mpr hchecked, rfl⟩⟩

/-! ### What an environment can say -/

/-- The texts are those of environment variables, the credentials are trimmed, and the timeouts are
whole milliseconds. -/
structure KafkaConfig.EnvWritable (config : KafkaConfig) : Prop where
  brokers : NulFree config.brokers
  clientId : NulFree config.clientId
  saslUsername : ∀ username, config.saslUsername = some username →
    NulFree username ∧ trim username.toList = username.toList
  saslPassword : ∀ password, config.saslPassword = some password →
    NulFree password ∧ trim password.toList = password.toList
  tlsCaFile : ∀ path, config.tlsCaFile = some path →
    NulFree path ∧ (trim path.toList).isEmpty = false
  deliveryTimeout : ∃ millis, config.deliveryTimeout = .fromMillis millis
  connectTimeout : ∃ millis, config.connectTimeout = .fromMillis millis
  operationTimeout : ∃ millis, config.operationTimeout = .fromMillis millis

/-- A value for a variable, if the environment can hold it. -/
def EnvValue.of? (s : String) : Option EnvValue := if h : NulFree s then some ⟨s, h⟩ else none

/-- The milliseconds of a timeout. -/
def millisText (timeout : Duration) : String :=
  String.ofList (Nat.toDigits 10 (timeout.secs * 1000 + timeout.nanos / 1000000))

/-- The environment of a configuration. -/
def KafkaConfig.environment (config : KafkaConfig) : Environment
  | .brokers => EnvValue.of? config.brokers
  | .clientId => EnvValue.of? config.clientId
  | .saslMechanism => EnvValue.of? (config.saslMechanism.getD "")
  | .saslUsername => EnvValue.of? (config.saslUsername.getD "")
  | .saslPassword => EnvValue.of? (config.saslPassword.getD "")
  | .tls => EnvValue.of? (if config.tls then "true" else "false")
  | .tlsCaFile => config.tlsCaFile.bind EnvValue.of?
  | .connectTimeoutMs => EnvValue.of? (millisText config.connectTimeout)
  | .operationTimeoutMs => EnvValue.of? (millisText config.operationTimeout)
  | .deliveryTimeoutMs => EnvValue.of? (millisText config.deliveryTimeout)

theorem of?_of_nulFree {s : String} (h : NulFree s) : EnvValue.of? s = some ⟨s, h⟩ := dif_pos h

/-- A timeout of whole milliseconds is read back. -/
theorem parseMillis_millisText (millis : U64) (var : EnvVar) :
    parseMillis (millisText (.fromMillis millis)) var = .ok (.fromMillis millis) := by
  have hmillis : (Duration.fromMillis millis).secs * 1000 +
      (Duration.fromMillis millis).nanos / 1000000 = millis.val := by
    show millis.val / 1000 * 1000 + millis.val % 1000 * 1000000 / 1000000 = millis.val
    omega
  have htrim : trim (Nat.toDigits 10 millis.val) = Nat.toDigits 10 millis.val :=
    trim_eq_self
      (fun c hc => isWhitespace_of_isDigit (isDigit_of_mem_toDigits (List.mem_of_mem_head? hc)))
      fun c hc => isWhitespace_of_isDigit
        (isDigit_of_mem_toDigits (List.mem_of_mem_getLast? hc))
  rw [parseMillis, millisText, hmillis, String.toList_ofList, htrim, parseUnsigned_toDigits]

theorem nulFree_millisText (timeout : Duration) : NulFree (millisText timeout) := by
  rw [NulFree, millisText, String.toList_ofList]
  exact fun h => absurd (isDigit_of_mem_toDigits h) (by decide)

/-! What an environment says. -/

section

variable {env : Environment} {var : EnvVar} {s : String}

theorem filled_eq_some (h : env.filled var = some s) :
    NulFree s ∧ (trim s.toList).isEmpty = false := by
  obtain ⟨value, -, hvalue⟩ := Option.bind_eq_some_iff.mp h
  split_ifs at hvalue with hblank
  rw [← Option.some.inj hvalue]
  exact ⟨value.nul_free, Bool.not_eq_true _ ▸ hblank⟩

theorem nulFree_filled {old : String} (hold : NulFree old) :
    NulFree ((env.filled var).getD old) := by
  cases hfilled : env.filled var with
  | none => exact hold
  | some s => exact (filled_eq_some hfilled).1

/-- A credential of the environment is trimmed. -/
theorem credentialOr_eq_some (h : env.credentialOr var none = some s) :
    NulFree s ∧ trim s.toList = s.toList := by
  rw [Environment.credentialOr] at h
  cases hvalue : env var with
  | none =>
    rw [hvalue] at h
    cases h
  | some value =>
    rw [hvalue] at h
    have hcredential : credential value.text = some s := h
    rw [credential] at hcredential
    split_ifs at hcredential
    rw [← Option.some.inj hcredential, NulFree, String.toList_ofList]
    exact ⟨fun hnul => value.nul_free (mem_of_mem_trim hnul), trim_trim _⟩

theorem kept_none : env.kept none = none := by
  rw [Environment.kept]
  split <;> rfl

/-- A timeout of the environment is whole milliseconds. -/
theorem timeout_eq_ok {old timeout : Duration} (hold : ∃ millis, old = .fromMillis millis)
    (h : env.timeout var old = .ok timeout) : ∃ millis, timeout = .fromMillis millis := by
  rw [Environment.timeout] at h
  cases hvalue : env var with
  | none =>
    rw [hvalue] at h
    exact Except.ok.inj h ▸ hold
  | some value =>
    rw [hvalue] at h
    have hparsed : parseMillis value.text var = .ok timeout := h
    rw [parseMillis] at hparsed
    split at hparsed
    · exact ⟨_, (Except.ok.inj hparsed).symm⟩
    · cases hparsed

end

/-- The configurations of environments. -/
theorem envWritable_of_overlaid {env : Environment} {config : KafkaConfig}
    (h : Overlaid env default config) : config.EnvWritable where
  brokers := h.brokers ▸ nulFree_filled (by decide)
  clientId := h.clientId ▸ nulFree_filled (by decide)
  saslUsername username husername := by
    have hkept : env.kept (default : KafkaConfig).saslUsername = none := kept_none
    rw [h.saslUsername, hkept] at husername
    exact credentialOr_eq_some husername
  saslPassword password hpassword := by
    have hkept : env.kept (default : KafkaConfig).saslPassword = none := kept_none
    rw [h.saslPassword, hkept] at hpassword
    exact credentialOr_eq_some hpassword
  tlsCaFile path hpath := by
    have hor : (env.filled .tlsCaFile).or (default : KafkaConfig).tlsCaFile =
        env.filled .tlsCaFile := Option.or_none
    rw [h.tlsCaFile, hor] at hpath
    exact filled_eq_some hpath
  deliveryTimeout := timeout_eq_ok ⟨30000, by decide⟩ h.deliveryTimeout
  connectTimeout := timeout_eq_ok ⟨10000, by decide⟩ h.connectTimeout
  operationTimeout := timeout_eq_ok ⟨10000, by decide⟩ h.operationTimeout

/-! An environment for a configuration. -/

theorem toLower_of_isWhitespace {c : Char} (h : isWhitespace c = true) : c.toLower = c := by
  refine dif_neg fun hupper => ?_
  have hlow : 65 ≤ c.toNat := UInt32.le_iff_toNat_le.mp hupper.1
  have hhigh : c.toNat ≤ 90 := UInt32.le_iff_toNat_le.mp hupper.2
  simp only [isWhitespace, Bool.or_eq_true, Bool.and_eq_true, beq_iff_eq, decide_eq_true_eq] at h
  omega

/-- The mechanism of a checked configuration is trimmed. -/
theorem plain_trimmed {mechanism : Text}
    (h : toAsciiLowercase mechanism = toAsciiLowercase defaultSaslMechanism.toList) :
    trim mechanism = mechanism ∧ isOff mechanism = false := by
  have hplain : ∀ c ∈ mechanism, isWhitespace c = false := by
    intro c hc
    rw [Bool.eq_false_iff]
    intro hspace
    have hlower : c.toLower ∈ toAsciiLowercase mechanism := List.mem_map_of_mem hc
    rw [h, toLower_of_isWhitespace hspace] at hlower
    have hall : (toAsciiLowercase defaultSaslMechanism.toList).all (fun d => !isWhitespace d) =
        true := by decide
    have hnot := List.all_eq_true.mp hall c hlower
    rw [hspace] at hnot
    exact absurd hnot (by decide)
  refine ⟨trim_eq_self (fun c hc => hplain c (List.mem_of_mem_head? hc))
    fun c hc => hplain c (List.mem_of_mem_getLast? hc), ?_⟩
  have hne : mechanism.isEmpty = false := by
    cases mechanism with
    | nil => exact absurd h (by decide)
    | cons c cs => rfl
  rw [isOff, hne, h]
  decide

theorem nulFree_of_plain {mechanism : String}
    (h : toAsciiLowercase mechanism.toList = toAsciiLowercase defaultSaslMechanism.toList) :
    NulFree mechanism := fun hnul => by
  have hlower : '\x00'.toLower ∈ toAsciiLowercase mechanism.toList := List.mem_map_of_mem hnul
  rw [h] at hlower
  exact absurd hlower (by decide)

/-- The mechanism of a checked configuration: none, or a spelling of `PLAIN`. -/
theorem SaslChecked.mechanism {mechanism username password : Option String}
    (h : SaslChecked mechanism username password) :
    mechanism = none ∨ ∃ name, mechanism = some name ∧
      toAsciiLowercase name.toList = toAsciiLowercase defaultSaslMechanism.toList := by
  cases h with
  | off => exact Or.inl rfl
  | plain mechanism username password hmechanism => exact Or.inr ⟨mechanism, rfl, hmechanism⟩

/-- The credentials of a checked configuration are not empty. -/
theorem SaslChecked.credentials_ne {mechanism username password : Option String}
    (h : SaslChecked mechanism username password) :
    (∀ s, username = some s → s ≠ "") ∧ ∀ s, password = some s → s ≠ "" := by
  cases h with
  | off => exact ⟨(fun _ h => by cases h), fun _ h => by cases h⟩
  | plain mechanism username password hmechanism husername hpassword =>
    exact ⟨fun _ h => Option.some.inj h ▸ husername, fun _ h => Option.some.inj h ▸ hpassword⟩

theorem filled_of_value {env : Environment} {var : EnvVar} {value : EnvValue}
    (hvalue : env var = some value) (hfilled : (trim value.text.toList).isEmpty = false) :
    env.filled var = some value.text := by
  rw [Environment.filled, hvalue, Option.bind_some, hfilled]
  rfl

theorem credential_of_trimmed {s : String} (hne : s ≠ "") (htrim : trim s.toList = s.toList) :
    credential s = some s := by
  have hempty : (trim s.toList).isEmpty = false := by
    rw [htrim, List.isEmpty_eq_false_iff]
    exact fun hnil => hne (String.toList_eq_nil_iff.mp hnil)
  rw [credential, hempty, htrim, String.ofList_toList]
  rfl

/-- A credential is read back, and so is its absence. -/
theorem credentialOr_of_value {env : Environment} {var : EnvVar} {secret : Option String}
    (hvalue : env var = EnvValue.of? (secret.getD ""))
    (hsecret : ∀ s, secret = some s → s ≠ "" ∧ NulFree s ∧ trim s.toList = s.toList) :
    env.credentialOr var none = secret := by
  rw [Environment.credentialOr, hvalue]
  cases secret with
  | none => rfl
  | some s =>
    obtain ⟨hne, hnul, htrim⟩ := hsecret s rfl
    rw [Option.getD_some, of?_of_nulFree hnul]
    exact credential_of_trimmed hne htrim

theorem timeout_of_value {env : Environment} {var : EnvVar} {old timeout : Duration}
    (hvalue : env var = EnvValue.of? (millisText timeout))
    (htimeout : ∃ millis, timeout = .fromMillis millis) :
    env.timeout var old = .ok timeout := by
  obtain ⟨millis, rfl⟩ := htimeout
  rw [Environment.timeout, hvalue, of?_of_nulFree (nulFree_millisText _)]
  exact parseMillis_millisText millis var

/-- The environment of a configuration says the configuration. -/
theorem overlaid_environment {parser : UrlParser} {config : KafkaConfig}
    (hchecked : config.Checked parser) (h : config.EnvWritable) :
    Overlaid config.environment default config where
  brokers := by
    have hvalue : config.environment .brokers = some ⟨config.brokers, h.brokers⟩ :=
      of?_of_nulFree h.brokers
    rw [filled_of_value hvalue hchecked.brokers_filled, Option.getD_some]
  clientId := by
    have hvalue : config.environment .clientId = some ⟨config.clientId, h.clientId⟩ :=
      of?_of_nulFree h.clientId
    rw [filled_of_value hvalue hchecked.clientId_filled, Option.getD_some]
  saslMechanism := by
    have hvalue : config.environment .saslMechanism =
      EnvValue.of? (config.saslMechanism.getD "") := rfl
    rw [Environment.mechanism, hvalue]
    cases hchecked.sasl.mechanism with
    | inl hoff =>
      rw [hoff]
      rfl
    | inr hplain =>
      obtain ⟨mechanism, hsome, hname⟩ := hplain
      obtain ⟨htrim, hon⟩ := plain_trimmed hname
      have hnul : NulFree mechanism := nulFree_of_plain hname
      rw [hsome, Option.getD_some, of?_of_nulFree hnul, Option.map_some, Option.getD_some]
      simp only [htrim, hon, String.ofList_toList]
      rfl
  saslUsername := by
    have hvalue :
        config.environment .saslUsername = EnvValue.of? (config.saslUsername.getD "") := rfl
    have hkept : config.environment.kept (default : KafkaConfig).saslUsername = none := kept_none
    rw [hkept]
    refine (credentialOr_of_value hvalue fun s hs => ?_).symm
    exact ⟨hchecked.sasl.credentials_ne.1 s hs, h.saslUsername s hs⟩
  saslPassword := by
    have hvalue :
        config.environment .saslPassword = EnvValue.of? (config.saslPassword.getD "") := rfl
    have hkept : config.environment.kept (default : KafkaConfig).saslPassword = none := kept_none
    rw [hkept]
    refine (credentialOr_of_value hvalue fun s hs => ?_).symm
    exact ⟨hchecked.sasl.credentials_ne.2 s hs, h.saslPassword s hs⟩
  tls := by
    rw [Environment.flag, KafkaConfig.environment]
    cases config.tls <;> decide
  tlsCaFile := by
    have hor : (config.environment.filled .tlsCaFile).or (default : KafkaConfig).tlsCaFile =
        config.environment.filled .tlsCaFile := Option.or_none
    rw [hor]
    cases hpath : config.tlsCaFile with
    | none =>
      have hvalue : config.environment .tlsCaFile = none := by
        rw [KafkaConfig.environment, hpath]
        rfl
      rw [Environment.filled, hvalue]
      rfl
    | some path =>
      obtain ⟨hnul, hfilled⟩ := h.tlsCaFile path hpath
      have hvalue : config.environment .tlsCaFile = some ⟨path, hnul⟩ := by
        rw [KafkaConfig.environment, hpath]
        exact of?_of_nulFree hnul
      rw [filled_of_value hvalue hfilled]
  connectTimeout := by
    have hvalue : config.environment .connectTimeoutMs =
      EnvValue.of? (millisText config.connectTimeout) := rfl
    exact timeout_of_value hvalue h.connectTimeout
  operationTimeout := by
    have hvalue : config.environment .operationTimeoutMs =
      EnvValue.of? (millisText config.operationTimeout) := rfl
    exact timeout_of_value hvalue h.operationTimeout
  deliveryTimeout := by
    have hvalue : config.environment .deliveryTimeoutMs =
      EnvValue.of? (millisText config.deliveryTimeout) := rfl
    exact timeout_of_value hvalue h.deliveryTimeout

/-- **What an environment can say**: `from_env` returns exactly the checked configurations with
texts of environment variables, trimmed credentials and timeouts of whole milliseconds, and returns
each of them for the environment that spells it out. -/
theorem fromEnv_range (parser : UrlParser) (config : KafkaConfig) :
    ((∃ env, fromEnv parser env = .ok config) ↔
      config.Checked parser ∧ config.EnvWritable) ∧
    (config.Checked parser ∧ config.EnvWritable ↔
      fromEnv parser config.environment = .ok config) := by
  have hsaid : ∀ env, fromEnv parser env = .ok config →
      config.Checked parser ∧ config.EnvWritable := by
    intro env h
    obtain ⟨hoverlaid, hchecked⟩ := fromEnv_eq_ok.mp h
    exact ⟨hchecked, envWritable_of_overlaid hoverlaid⟩
  have hread : config.Checked parser ∧ config.EnvWritable →
      fromEnv parser config.environment = .ok config := fun ⟨hchecked, hwritable⟩ =>
    fromEnv_eq_ok.mpr ⟨overlaid_environment hchecked hwritable, hchecked⟩
  exact ⟨⟨fun ⟨env, h⟩ => hsaid env h, fun h => ⟨_, hread h⟩⟩, ⟨hread, hsaid _⟩⟩

/-! ### Where the credentials go -/

/-- The configuration with other credentials. -/
def KafkaConfig.withCredentials (config : KafkaConfig) (username password : Option String) :
    KafkaConfig :=
  { config with saslUsername := username, saslPassword := password }

/-- Both are there and not empty, or neither is there. -/
def Alike (a b : Option String) : Prop := a.isSome = b.isSome ∧ a ≠ some "" ∧ b ≠ some ""

theorem Alike.isEmpty {a b : Option String} (h : Alike a b) :
    (a.getD "").isEmpty = (b.getD "").isEmpty := by
  obtain ⟨hsome, ha, hb⟩ := h
  cases a with
  | none =>
    cases b with
    | none => rfl
    | some b => exact absurd hsome (by simp)
  | some a =>
    cases b with
    | none => exact absurd hsome (by simp)
    | some b =>
      have hfilled : ∀ {s : String}, some s ≠ some "" → s.isEmpty = false := fun hs =>
        Bool.eq_false_iff.mpr fun hempty => hs (congrArg some (String.isEmpty_iff.mp hempty))
      rw [Option.getD_some, Option.getD_some, hfilled ha, hfilled hb]

section

variable {config : KafkaConfig} {username password : Option String}
  (husername : Alike config.saslUsername username) (hpassword : Alike config.saslPassword password)

include husername hpassword

/-- `validate` tells credentials apart only by their absence. -/
theorem validate_withCredentials (parser : UrlParser) :
    (config.withCredentials username password).validate parser = config.validate parser := by
  have hsasl : checkSasl config.saslMechanism username password =
      checkSasl config.saslMechanism config.saslUsername config.saslPassword := by
    rw [checkSasl.eq_def, checkSasl.eq_def, husername.isEmpty, hpassword.isEmpty, husername.1,
      hpassword.1]
  have hcheck : (config.withCredentials username password).check parser = config.check parser := by
    rw [KafkaConfig.check, KafkaConfig.check, ← hsasl]
    rfl
  rw [KafkaConfig.validate, KafkaConfig.validate, hcheck]

theorem debug_withCredentials (escaped : Char → Bool) (alternate : Bool) :
    (config.withCredentials username password).debug escaped alternate =
      config.debug escaped alternate := by
  have hmap : ∀ {a b : Option String} (text : Text), Alike a b →
      b.map (fun _ => text) = a.map fun _ => text := by
    intro a b text h
    cases a <;> cases b <;> first | rfl | exact absurd h.1 (by simp)
  simp only [KafkaConfig.debug, KafkaConfig.withCredentials, hmap _ husername, hmap _ hpassword]
  rfl

theorem isSome_saslCredentials :
    (config.withCredentials username password).saslCredentials.isSome =
      config.saslCredentials.isSome := by
  have hboth : ∀ self : KafkaConfig,
      self.saslCredentials.isSome = (self.saslUsername.isSome && self.saslPassword.isSome) := by
    intro self
    rw [KafkaConfig.saslCredentials]
    cases self.saslUsername <;> cases self.saslPassword <;> rfl
  rw [hboth, hboth, husername.1, hpassword.1]
  rfl

/-- The SASL part of a builder that has none yet. -/
theorem attachSasl_withCredentials {builder : ClientBuilder} (hnone : builder.saslConfig = none) :
    attachSasl (config.withCredentials username password) builder =
      (attachSasl config builder).map fun builder => { builder with
        saslConfig := (config.withCredentials username password).saslCredentials.map
          fun credentials => .plain ⟨credentials.1, credentials.2⟩ } := by
  have hsome := isSome_saslCredentials husername hpassword
  rw [attachSasl, attachSasl]
  cases hold : config.saslCredentials with
  | none =>
    rw [hold] at hsome
    have hnew := Option.not_isSome_iff_eq_none.mp (Bool.eq_false_iff.mp hsome)
    rw [hnew]
    show (if config.saslMechanism.isSome then _ else _) = _
    cases config.saslMechanism.isSome with
    | true => rfl
    | false =>
      show Except.ok builder = Except.ok { builder with saslConfig := none }
      rw [← hnone]
  | some credentials =>
    rw [hold] at hsome
    obtain ⟨credentials', hnew⟩ := Option.isSome_iff_exists.mp hsome
    rw [hnew]
    rfl

/-- The builder is the same, but for the credentials in it. -/
theorem clientBuilder_withCredentials (world : TlsWorld) :
    clientBuilder world (config.withCredentials username password) =
      (clientBuilder world config).map fun builder => { builder with
        saslConfig := (config.withCredentials username password).saslCredentials.map
          fun credentials => .plain ⟨credentials.1, credentials.2⟩ } := by
  have htls : ∀ {new builder : ClientBuilder}, attachTls world config new = .ok builder →
      builder.saslConfig = new.saslConfig := by
    intro new builder h
    rw [attachTls] at h
    split_ifs at h
    · split at h
      · cases h
      · rw [← Except.ok.inj h]
    · rw [← Except.ok.inj h]
  let config' := config.withCredentials username password
  have hsame : attachTls world config' { ClientBuilder.new (connectBrokers config'.brokers) with
      clientId := some config'.clientId } =
    attachTls world config { ClientBuilder.new (connectBrokers config.brokers) with
      clientId := some config.clientId } := rfl
  rw [clientBuilder, clientBuilder, hsame]
  cases hbuilder : attachTls world config { ClientBuilder.new (connectBrokers config.brokers) with
      clientId := some config.clientId } with
  | error fault => rfl
  | ok builder => exact attachSasl_withCredentials husername hpassword (htls hbuilder)

end

/-- Two environments that say the same, except for the values of credentials that both have, or
that both lack. -/
structure SameButCredentials (env env' : Environment) : Prop where
  others : ∀ var, var ≠ .saslUsername → var ≠ .saslPassword → env' var = env var
  username : (env.credentialOr .saslUsername none).isSome =
    (env'.credentialOr .saslUsername none).isSome
  password : (env.credentialOr .saslPassword none).isSome =
    (env'.credentialOr .saslPassword none).isSome

/-- A credential of the environment is not empty. -/
theorem credentialOr_ne_empty (env : Environment) (var : EnvVar) :
    env.credentialOr var none ≠ some "" := by
  intro h
  rw [Environment.credentialOr] at h
  cases hvalue : env var with
  | none =>
    rw [hvalue] at h
    cases h
  | some value =>
    rw [hvalue] at h
    have hcredential : credential value.text = some "" := h
    rw [credential] at hcredential
    split_ifs at hcredential with hblank
    have hempty := String.ofList_eq_empty_iff.mp (Option.some.inj hcredential)
    exact hblank (List.isEmpty_iff.mpr hempty)

section

variable {env env' : Environment} (h : SameButCredentials env env')

include h

theorem SameButCredentials.alike {config : KafkaConfig} (hconfig : Overlaid env default config) :
    Alike config.saslUsername (env'.credentialOr .saslUsername none) ∧
    Alike config.saslPassword (env'.credentialOr .saslPassword none) := by
  have huser : env.kept (default : KafkaConfig).saslUsername = none := kept_none
  have hpass : env.kept (default : KafkaConfig).saslPassword = none := kept_none
  rw [hconfig.saslUsername, hconfig.saslPassword, huser, hpass]
  exact ⟨⟨h.username, credentialOr_ne_empty _ _, credentialOr_ne_empty _ _⟩,
    h.password, credentialOr_ne_empty _ _, credentialOr_ne_empty _ _⟩

theorem applyEnvOverlay_credentials :
    applyEnvOverlay env' default = (applyEnvOverlay env default).map fun config =>
      config.withCredentials (env'.credentialOr .saslUsername none)
        (env'.credentialOr .saslPassword none) := by
  have hfilled : ∀ var, var ≠ .saslUsername → var ≠ .saslPassword →
      env'.filled var = env.filled var := fun var huser hpass => by
    rw [Environment.filled, h.others var huser hpass, Environment.filled]
  have htimeout : ∀ var old, var ≠ .saslUsername → var ≠ .saslPassword →
      env'.timeout var old = env.timeout var old := fun var old huser hpass => by
    rw [Environment.timeout, h.others var huser hpass, Environment.timeout]
  have hmechanism : env'.mechanism = env.mechanism := by
    rw [Environment.mechanism, h.others _ (by decide) (by decide), Environment.mechanism]
  have hflag : env'.flag (default : KafkaConfig).tls = env.flag (default : KafkaConfig).tls := by
    rw [Environment.flag, h.others _ (by decide) (by decide), Environment.flag]
  rw [applyEnvOverlay_eq, applyEnvOverlay_eq, hflag, htimeout _ _ (by decide) (by decide),
    htimeout _ _ (by decide) (by decide), htimeout _ _ (by decide) (by decide), hmechanism,
    hfilled _ (by decide) (by decide), hfilled _ (by decide) (by decide),
    hfilled _ (by decide) (by decide)]
  have huser : env'.kept (default : KafkaConfig).saslUsername = none := kept_none
  have hpass : env'.kept (default : KafkaConfig).saslPassword = none := kept_none
  rw [huser, hpass]
  cases env.flag (default : KafkaConfig).tls with
  | error error => rfl
  | ok tls =>
    cases env.timeout .connectTimeoutMs (default : KafkaConfig).connectTimeout with
    | error error => rfl
    | ok connectTimeout =>
      cases env.timeout .operationTimeoutMs (default : KafkaConfig).operationTimeout with
      | error error => rfl
      | ok operationTimeout =>
        cases env.timeout .deliveryTimeoutMs (default : KafkaConfig).deliveryTimeout <;> rfl

/-- **Credentials stay where they belong.**  For two environments that say the same, except for the
values of credentials, `from_env` fails with the same error or returns the same configuration,
except for the credentials; then the `Debug` text and the security protocol are the same, and
`connect_inner` fails with the same fault before it calls the driver, or hands it the same builder,
except for the credentials. -/
theorem credentials_confined (parser : UrlParser) (world : TlsWorld) :
    (fromEnv parser env' = (fromEnv parser env).map fun config =>
      config.withCredentials (env'.credentialOr .saslUsername none)
        (env'.credentialOr .saslPassword none)) ∧
    ∀ config config', fromEnv parser env = .ok config → fromEnv parser env' = .ok config' →
      (∀ escaped alternate, config'.debug escaped alternate = config.debug escaped alternate) ∧
      config'.securityProtocol = config.securityProtocol ∧
      clientBuilder world config' = (clientBuilder world config).map fun builder => { builder with
        saslConfig := config'.saslCredentials.map fun credentials =>
          .plain ⟨credentials.1, credentials.2⟩ } := by
  have hsame : fromEnv parser env' = (fromEnv parser env).map fun config =>
      config.withCredentials (env'.credentialOr .saslUsername none)
        (env'.credentialOr .saslPassword none) := by
    rw [fromEnv, fromEnv, applyEnvOverlay_credentials h]
    cases hoverlay : applyEnvOverlay env default with
    | error error => rfl
    | ok config =>
      obtain ⟨huser, hpass⟩ := h.alike (applyEnvOverlay_eq_ok.mp hoverlay)
      let update := fun config : KafkaConfig =>
        config.withCredentials (env'.credentialOr .saslUsername none)
          (env'.credentialOr .saslPassword none)
      show ((update config).validate parser >>= fun _ => Except.ok (update config)) =
        (config.validate parser >>= fun _ => Except.ok config).map update
      rw [validate_withCredentials huser hpass]
      cases config.validate parser <;> rfl
  refine ⟨hsame, fun config config' hconfig hconfig' => ?_⟩
  obtain ⟨huser, hpass⟩ := h.alike (fromEnv_eq_ok.mp hconfig).1
  rw [hsame, hconfig] at hconfig'
  obtain rfl := Except.ok.inj hconfig'
  exact ⟨debug_withCredentials huser hpass, rfl, clientBuilder_withCredentials huser hpass world⟩

end

/-- An environment with credentials. -/
def saslEnvironment (username password : EnvValue) : Environment
  | .saslMechanism => EnvValue.of? "plain"
  | .saslUsername => some username
  | .saslPassword => some password
  | _ => none

/-- The configuration of this environment. -/
def saslConfig (username password : String) : KafkaConfig :=
  { (default : KafkaConfig) with
    saslMechanism := some "plain", saslUsername := some username, saslPassword := some password }

/-- Other credentials give another configuration with the same text. -/
theorem credentials_confined_sasl :
    (saslConfig "bob" "builder").debug (fun _ => false) true =
      (saslConfig "alice" "wonder").debug (fun _ => false) true := by
  have hsame : SameButCredentials
      (saslEnvironment ⟨"alice", by decide⟩ ⟨"wonder", by decide⟩)
      (saslEnvironment ⟨"bob", by decide⟩ ⟨"builder", by decide⟩) := by
    refine ⟨fun var huser hpass => ?_, by decide, by decide⟩
    cases var with
    | saslUsername => exact absurd rfl huser
    | saslPassword => exact absurd rfl hpass
    | _ => rfl
  have hconfined := (credentials_confined hsame plainParser publicWorld).2
  exact (hconfined _ _ (by decide) (by decide)).1 _ _

end Kafkax
