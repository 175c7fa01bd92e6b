import Kafkax.ErrorMap
import Kafkax.Validate

/-!
# Connecting

`connect` checks the configuration and hands it to the client builder of the driver.  Whether there
is SASL is decided three times: `validate` looks at the mechanism and at what is empty,
`connect_inner` at the presence of both credentials, `security_protocol` at the mechanism alone.
The list of brokers is cut twice.

`ConnectionPlan` is what a checked configuration asks the driver for: at least one broker, TLS with
or without a certificate file, and credentials that are not empty or none.  Nothing else can be
written down in it.

* `clientBuilder_eq_plan`: on a checked configuration `connect_inner` carries out its plan.
* `set_up_as_validated`: the three functions agree, for every configuration that `validate`
  accepts.
-/

namespace Kafkax

open LineText

/-! ### The TLS configuration -/

/-- The bytes of a certificate. -/
abbrev Certificate := List UInt8

/-- `std::fs::Metadata`, as far as it is read. -/
structure FileMetadata where
  isFile : Bool
  len : ℕ

/-- What `build_tls_config` finds around it. -/
structure TlsWorld where
  /-- The answer of `install_default`. -/
  installDefault : Except Text Unit
  /-- `get_default` finds a provider. -/
  hasDefault : Bool
  /-- `webpki_roots::TLS_SERVER_ROOTS` -/
  serverRoots : List Certificate
  metadata : PathBuf → Except Text FileMetadata
  openFile : PathBuf → Except Text Unit
  /-- The items of the PEM reader over a file. -/
  certs : PathBuf → List (Except Text Certificate)
  /-- The answer of `RootCertStore::add`. -/
  add : Certificate → Except Text Unit
  /-- The error of the blocking task, if it does not come to its end. -/
  joinError : Option Text

/-- `rustls::ClientConfig` without client authentication: its root certificates. -/
structure TlsConfig where
  roots : List Certificate
deriving DecidableEq

/-- A failed call whose text goes into a `Config` error. -/
def orConfig {α : Type} (context : String) (result : Except Text α) : KafkaResult α :=
  result.mapError fun error => .config (context ++ String.ofList error)

/-- The certificates of a PEM file, up to the first that cannot be read. -/
def collectCerts : List (Except Text Certificate) → Except Text (List Certificate)
  | [] => .ok []
  | .error error :: _ => .error error
  | .ok certificate :: rest => (collectCerts rest).map (certificate :: ·)

/-- The certificates of the CA file. -/
def readCaFile (world : TlsWorld) (path : PathBuf) : KafkaResult (List Certificate) :=
  match orConfig "无法检查 TLS CA 文件: " (world.metadata path) with
  | .error error => .error error
  | .ok metadata =>
    if !metadata.isFile then .error (.config "TLS CA 路径必须是普通文件")
    else if 1024 * 1024 < metadata.len then .error (.config "TLS CA 文件不得超过 1 MiB")
    else
      match orConfig "无法读取 TLS CA 文件: " (world.openFile path) with
      | .error error => .error error
      | .ok () =>
        match orConfig "TLS CA PEM 解析失败: " (collectCerts (world.certs path)) with
        | .error error => .error error
        | .ok certificates =>
          if certificates.isEmpty then .error (.config "TLS CA 文件中没有证书")
          else .ok certificates

/-- The certificates are added to the roots one by one. -/
def addRoots (world : TlsWorld) (roots : List Certificate) :
    List Certificate → KafkaResult (List Certificate)
  | [] => .ok roots
  | certificate :: rest =>
    match orConfig "TLS CA 证书无效: " (world.add certificate) with
    | .error error => .error error
    | .ok () => addRoots world (roots ++ [certificate]) rest

/-- The root certificates: the public ones, then those of the CA file. -/
def rootStore (world : TlsWorld) : Option PathBuf → KafkaResult (List Certificate)
  | none => .ok world.serverRoots
  | some path =>
    match readCaFile world path with
    | .error error => .error error
    | .ok certificates => addRoots world world.serverRoots certificates

/-- `build_tls_config` -/
def buildTlsConfig (world : TlsWorld) (caFile : Option PathBuf) : KafkaResult TlsConfig :=
  match world.joinError with
  | some error => .error (.connection ("TLS 配置任务失败: " ++ String.ofList error))
  | none =>
    match world.installDefault, world.hasDefault with
    | .error installed, false =>
      .error (.config ("TLS crypto provider 安装失败: " ++ String.ofList installed))
    | _, _ => (rootStore world caFile).map TlsConfig.mk

/-! ### The client builder -/

/-- `rskafka`'s `Credentials` -/
structure Credentials where
  username : String
  password : String
deriving DecidableEq

/-- `rskafka`'s `SaslConfig`, as far as it is used. -/
inductive SaslConfig where
  | plain (credentials : Credentials)
deriving DecidableEq

/-- `rskafka`'s `ClientBuilder`: what was set. -/
structure ClientBuilder where
  bootstrapBrokers : List String
  clientId : Option String
  tlsConfig : Option TlsConfig
  saslConfig : Option SaslConfig
deriving DecidableEq

/-- `ClientBuilder::new` -/
def ClientBuilder.new (brokers : List String) : ClientBuilder where
  bootstrapBrokers := brokers
  clientId := none
  tlsConfig := none
  saslConfig := none

namespace KafkaConfig

/-- `security_protocol` -/
def securityProtocol (self : KafkaConfig) : String :=
  match self.tls, self.saslMechanism.isSome with
  | true, true => "SASL_SSL"
  | true, false => "SSL"
  | false, true => "SASL_PLAINTEXT"
  | false, false => "PLAINTEXT"

/-- `sasl_credentials` -/
def saslCredentials (self : KafkaConfig) : Option (String × String) :=
  match self.saslUsername, self.saslPassword with
  | some username, some password => some (username, password)
  | _, _ => none

end KafkaConfig

/-- The list that `connect_inner` cuts out of `brokers`. -/
def connectBrokers (brokers : String) : List String :=
  ((brokers.toList.splitOn ',').map fun broker => String.ofList (trim broker)).filter
    fun broker => !broker.isEmpty

/-- Why `connect_inner` fails. -/
inductive ConnectFault where
  | tls (error : KafkaError)
  | missingCredentials
  | build (error : RskafkaError)
deriving DecidableEq

/-- The error of a fault. -/
def ConnectFault.toError : ConnectFault → KafkaError
  | .tls error => error
  | .missingCredentials => .config "SASL 机制已设置但缺少 username/password"
  | .build error => mapKafkaError "kafkax connect" (.rskafka error)

/-- The TLS branch of `connect_inner`. -/
def attachTls (world : TlsWorld) (config : KafkaConfig) (builder : ClientBuilder) :
    Except ConnectFault ClientBuilder :=
  if config.tls then
    match buildTlsConfig world config.tlsCaFile with
    | .error error => .error (.tls error)
    | .ok tls => .ok { builder with tlsConfig := some tls }
  else .ok builder

/-- The SASL branches of `connect_inner`. -/
def attachSasl (config : KafkaConfig) (builder : ClientBuilder) :
    Except ConnectFault ClientBuilder :=
  match config.saslCredentials with
  | some (username, password) =>
    .ok { builder with saslConfig := some (.plain ⟨username, password⟩) }
  | none => if config.saslMechanism.isSome then .error .missingCredentials else .ok builder

/-- `connect_inner` up to `build`. -/
def clientBuilder (world : TlsWorld) (config : KafkaConfig) : Except ConnectFault ClientBuilder :=
  match attachTls world config { ClientBuilder.new (connectBrokers config.brokers) with
      clientId := some config.clientId } with
  | .error fault => .error fault
  | .ok builder => attachSasl config builder

/-! ### The pool -/

/-- `KafkaPool`, as far as `connect` decides it. -/
structure KafkaPool (κ : Type) where
  config : KafkaConfig
  client : Option κ

namespace KafkaPool

variable {κ : Type}

/-- `connect_inner` -/
def connectInner (world : TlsWorld) (build : ClientBuilder → Except RskafkaError κ)
    (config : KafkaConfig) : Except ConnectFault (KafkaPool κ) :=
  match clientBuilder world config with
  | .error fault => .error fault
  | .ok builder =>
    match build builder with
    | .error error => .error (.build error)
    | .ok client => .ok ⟨config, some client⟩

/-- `connect`; `inTime` tells whether `connect_inner` ends before the deadline. -/
def connect (parser : UrlParser) (world : TlsWorld)
    (build : ClientBuilder → Except RskafkaError κ) (inTime : Bool) (config : KafkaConfig) :
    KafkaResult (KafkaPool κ) :=
  match config.validate parser with
  | .error error => .error error
  | .ok () =>
    if inTime then (connectInner world build config).mapError ConnectFault.toError
    else .error (.timeout "kafkax connect 超时")

/-- A pool that `connect` returns is connected, by the builder of its checked configuration. -/
theorem connect_eq_ok {parser : UrlParser} {world : TlsWorld}
    {build : ClientBuilder → Except RskafkaError κ} {inTime : Bool} {config : KafkaConfig}
    {pool : KafkaPool κ} (h : connect parser world build inTime config = .ok pool) :
    config.validate parser = .ok () ∧ pool.config = config ∧ ∃ builder client,
      clientBuilder world config = .ok builder ∧ build builder = .ok client ∧
        pool.client = some client := by
  rw [connect] at h
  cases hvalid : config.validate parser with
  | error error =>
    rw [hvalid] at h
    exact absurd h (by simp)
  | ok u =>
    simp only [hvalid] at h
    cases inTime with
    | false => exact absurd h (by simp)
    | true =>
      refine ⟨rfl, ?_⟩
      simp only [if_true, connectInner] at h
      cases hbuilder : clientBuilder world config with
      | error fault =>
        rw [hbuilder] at h
        exact absurd h (by simp [Except.mapError])
      | ok builder =>
        simp only [hbuilder] at h
        cases hclient : build builder with
        | error error =>
          rw [hclient] at h
          exact absurd h (by simp [Except.mapError])
        | ok client =>
          rw [hclient] at h
          rw [← Except.ok.inj h]
          exact ⟨rfl, builder, client, rfl, hclient, rfl⟩

end KafkaPool

/-! ### The trusted certificates -/

/-- The roots that were there stay in front. -/
theorem addRoots_eq_ok {world : TlsWorld} {roots certificates result : List Certificate}
    (h : addRoots world roots certificates = .ok result) : result = roots ++ certificates := by
  induction certificates generalizing roots with
  | nil =>
    rw [List.append_nil]
    exact (Except.ok.inj h).symm
  | cons certificate rest ih =>
    rw [addRoots] at h
    split at h
    · exact absurd h (by simp)
    · rw [ih h, List.append_assoc, List.singleton_append]

/-- A CA file without a certificate is refused. -/
theorem readCaFile_ne_nil {world : TlsWorld} {path : PathBuf} {certificates : List Certificate}
    (h : readCaFile world path = .ok certificates) : certificates ≠ [] := by
  rw [readCaFile] at h
  split at h
  · exact absurd h (by simp)
  · split at h
    · exact absurd h (by simp)
    · split at h
      · exact absurd h (by simp)
      · split at h
        · exact absurd h (by simp)
        · split at h
          · exact absurd h (by simp)
          · split at h
            · exact absurd h (by simp)
            · rename_i hfilled
              rw [← Except.ok.inj h]
              exact fun hnil => hfilled (List.isEmpty_iff.mpr hnil)

/-- **A CA file adds to the public roots** and replaces none of them. -/
theorem rootStore_eq_ok {world : TlsWorld} {caFile : Option PathBuf} {roots : List Certificate}
    (h : rootStore world caFile = .ok roots) :
    ∃ added, roots = world.serverRoots ++ added ∧ (added = [] ↔ caFile = none) := by
  cases caFile with
  | none => exact ⟨[], by rw [List.append_nil]; exact (Except.ok.inj h).symm, iff_of_true rfl rfl⟩
  | some path =>
    rw [rootStore] at h
    cases hread : readCaFile world path with
    | error error =>
      rw [hread] at h
      exact absurd h (by simp)
    | ok certificates =>
      rw [hread] at h
      exact ⟨certificates, addRoots_eq_ok h, iff_of_false (readCaFile_ne_nil hread) (by simp)⟩

theorem buildTlsConfig_eq_ok {world : TlsWorld} {caFile : Option PathBuf} {tls : TlsConfig}
    (h : buildTlsConfig world caFile = .ok tls) : rootStore world caFile = .ok tls.roots := by
  rw [buildTlsConfig] at h
  split at h
  · exact absurd h (by simp)
  · split at h
    · exact absurd h (by simp)
    · cases hroots : rootStore world caFile with
      | error error =>
        rw [hroots] at h
        exact absurd h (by simp [Except.map])
      | ok roots =>
        rw [hroots] at h
        rw [← Except.ok.inj h]

/-! ### What a checked configuration asks for -/

/-- The protection of a connection. -/
structure Protection where
  tls : Bool
  sasl : Bool
deriving DecidableEq

/-- The name of a protection. -/
def Protection.name : Protection → String
  | ⟨true, true⟩ => "SASL_SSL"
  | ⟨true, false⟩ => "SSL"
  | ⟨false, true⟩ => "SASL_PLAINTEXT"
  | ⟨false, false⟩ => "PLAINTEXT"

theorem Protection.name_injective : Function.Injective Protection.name := by
  rintro ⟨tls, sasl⟩ ⟨tls', sasl'⟩ h
  revert h
  cases tls <;> cases sasl <;> cases tls' <;> cases sasl' <;> decide

/-- The protection of the connections of a builder. -/
def ClientBuilder.protection (self : ClientBuilder) : Protection :=
  ⟨self.tlsConfig.isSome, self.saslConfig.isSome⟩

/-- What the driver is asked for. -/
structure ConnectionPlan where
  brokers : List String
  brokers_ne : brokers ≠ []
  clientId : String
  /-- TLS, with or without a CA file. -/
  tls : Option (Option PathBuf)
  sasl : Option Credentials
  sasl_filled : ∀ credentials, sasl = some credentials →
    credentials.username ≠ "" ∧ credentials.password ≠ ""

namespace ConnectionPlan

/-- The builder of a plan; only its TLS configuration can fail. -/
def builder (world : TlsWorld) (self : ConnectionPlan) : KafkaResult ClientBuilder :=
  match self.tls with
  | none => .ok ⟨self.brokers, some self.clientId, none, self.sasl.map .plain⟩
  | some caFile => (buildTlsConfig world caFile).map fun tls =>
    ⟨self.brokers, some self.clientId, some tls, self.sasl.map .plain⟩

/-- The protection that is asked for. -/
def protection (self : ConnectionPlan) : Protection := ⟨self.tls.isSome, self.sasl.isSome⟩

end ConnectionPlan

/-- `connect_inner` cuts out the entries that `validate` checks, in the same order. -/
theorem toList_connectBrokers (brokers : String) :
    (connectBrokers brokers).map String.toList = brokerEntries brokers := by
  have hempty : ∀ s : Text, (String.ofList s).isEmpty = s.isEmpty := by
    intro s
    rw [Bool.eq_iff_iff, String.isEmpty_iff, List.isEmpty_iff, ← String.toList_eq_nil_iff,
      String.toList_ofList]
  rw [connectBrokers, brokerEntries, List.filter_map, List.filter_map, List.map_map]
  have hfilter : ((fun broker : String => !broker.isEmpty) ∘
      fun broker => String.ofList (trim broker)) = (fun broker : Text => !broker.isEmpty) ∘ trim :=
    funext fun broker => congrArg not (hempty (trim broker))
  have hmap : String.toList ∘ (fun broker : Text => String.ofList (trim broker)) = trim :=
    funext fun broker => String.toList_ofList
  rw [hfilter, hmap]

theorem connectBrokers_ne {brokers : String} (h : brokerEntries brokers ≠ []) :
    connectBrokers brokers ≠ [] := by
  intro hnil
  rw [← toList_connectBrokers, hnil] at h
  exact h rfl

section

variable {parser : UrlParser} {config : KafkaConfig}

/-- Checked SASL fields have credentials exactly where there is a mechanism, and none of them is
empty. -/
theorem saslCredentials_of_checked (h : config.Checked parser) :
    (config.saslMechanism = none ∧ config.saslUsername = none ∧ config.saslPassword = none ∧
      config.saslCredentials = none) ∨
    ∃ mechanism username password, config.saslMechanism = some mechanism ∧
      config.saslUsername = some username ∧ config.saslPassword = some password ∧
      config.saslCredentials = some (username, password) ∧ username ≠ "" ∧ password ≠ "" := by
  have hsasl := h.sasl
  rw [KafkaConfig.saslCredentials]
  generalize config.saslMechanism = m at hsasl
  generalize config.saslUsername = u at hsasl
  generalize config.saslPassword = p at hsasl
  cases hsasl with
  | off => exact Or.inl ⟨rfl, rfl, rfl, rfl⟩
  | plain mechanism username password _ husername hpassword =>
    exact Or.inr ⟨mechanism, username, password, rfl, rfl, rfl, rfl, husername, hpassword⟩

/-- The credentials, as the driver takes them. -/
def KafkaConfig.credentials (self : KafkaConfig) : Option Credentials :=
  self.saslCredentials.map fun credentials => ⟨credentials.1, credentials.2⟩

/-- Checked credentials are there exactly if there is a mechanism. -/
theorem isSome_credentials (h : config.Checked parser) :
    config.credentials.isSome = config.saslMechanism.isSome := by
  rw [KafkaConfig.credentials]
  rcases saslCredentials_of_checked h with ⟨hmechanism, -, -, hnone⟩ | hfilled
  · rw [hnone, hmechanism]
    rfl
  · obtain ⟨_, _, _, hmechanism, -, -, hcredentials, -, -⟩ := hfilled
    rw [hcredentials, hmechanism]
    rfl

/-- Checked credentials are the two fields, and they are not empty. -/
theorem credentials_eq_some (h : config.Checked parser) {credentials : Credentials}
    (hsome : config.credentials = some credentials) :
    config.saslUsername = some credentials.username ∧
      config.saslPassword = some credentials.password ∧
      credentials.username ≠ "" ∧ credentials.password ≠ "" := by
  rw [KafkaConfig.credentials] at hsome
  rcases saslCredentials_of_checked h with ⟨-, -, -, hnone⟩ | hfilled
  · rw [hnone] at hsome
    exact absurd hsome (by simp)
  · obtain ⟨_, username, password, -, huser, hpass, hcredentials, husername, hpassword⟩ := hfilled
    rw [hcredentials] at hsome
    rw [← Option.some.inj hsome]
    exact ⟨huser, hpass, husername, hpassword⟩

/-- The plan of a checked configuration. -/
def KafkaConfig.plan (config : KafkaConfig) (h : config.Checked parser) : ConnectionPlan where
  brokers := connectBrokers config.brokers
  brokers_ne := connectBrokers_ne h.entries_ne
  clientId := config.clientId
  tls := if config.tls then some config.tlsCaFile else none
  sasl := config.credentials
  sasl_filled _ hsome := (credentials_eq_some h hsome).2.2

theorem plan_tls (h : config.Checked parser) :
    (config.plan h).tls = if config.tls then some config.tlsCaFile else none := rfl

theorem plan_sasl (h : config.Checked parser) : (config.plan h).sasl = config.credentials := rfl

/-- The SASL branches of `connect_inner` on a checked configuration: the credentials are attached
where there are any, and the branch without them is not reached. -/
theorem attachSasl_of_checked (h : config.Checked parser) {builder : ClientBuilder}
    (hunset : builder.saslConfig = none) :
    attachSasl config builder =
      .ok { builder with saslConfig := config.credentials.map .plain } := by
  rw [attachSasl, KafkaConfig.credentials]
  rcases saslCredentials_of_checked h with ⟨hmechanism, -, -, hnone⟩ | hfilled
  · rw [hnone, hmechanism, Option.map_none, Option.map_none, ← hunset]
    rfl
  · obtain ⟨_, username, password, -, -, -, hcredentials, -, -⟩ := hfilled
    rw [hcredentials]
    rfl

/-- **`connect_inner` carries out the plan** of a checked configuration. -/
theorem clientBuilder_eq_plan (world : TlsWorld) (h : config.Checked parser) :
    clientBuilder world config = ((config.plan h).builder world).mapError .tls := by
  rw [clientBuilder, attachTls, ConnectionPlan.builder, plan_tls]
  cases config.tls with
  | false => exact attachSasl_of_checked h rfl
  | true =>
    cases hbuild : buildTlsConfig world config.tlsCaFile with
    | error error =>
      simp only [if_true, hbuild]
      rfl
    | ok tls =>
      simp only [if_true, hbuild]
      exact attachSasl_of_checked h rfl

/-- A builder of a checked configuration is the one of its plan. -/
theorem plan_builder_of_ok {world : TlsWorld} {builder : ClientBuilder} (h : config.Checked parser)
    (hbuilder : clientBuilder world config = .ok builder) :
    (config.plan h).builder world = .ok builder := by
  rw [clientBuilder_eq_plan world h] at hbuilder
  cases hplan : (config.plan h).builder world with
  | error error =>
    rw [hplan] at hbuilder
    exact absurd hbuilder (by simp [Except.mapError])
  | ok found =>
    rw [hplan] at hbuilder
    exact congrArg _ (Except.ok.inj hbuilder)

/-- A fault on a checked configuration is one of its TLS configuration. -/
theorem tls_fault_of_error {world : TlsWorld} {fault : ConnectFault} (h : config.Checked parser)
    (hfault : clientBuilder world config = .error fault) :
    config.tls = true ∧ ∃ error, buildTlsConfig world config.tlsCaFile = .error error ∧
      fault = .tls error := by
  rw [clientBuilder_eq_plan world h, ConnectionPlan.builder, plan_tls] at hfault
  cases htls : config.tls with
  | false =>
    rw [htls] at hfault
    exact absurd hfault (by simp [Except.mapError])
  | true =>
    refine ⟨rfl, ?_⟩
    rw [htls] at hfault
    cases hbuild : buildTlsConfig world config.tlsCaFile with
    | ok tls =>
      simp only [if_true, hbuild] at hfault
      exact absurd hfault (by simp [Except.map, Except.mapError])
    | error error =>
      simp only [if_true, hbuild] at hfault
      exact ⟨error, rfl, (Except.error.inj hfault).symm⟩

/-- `security_protocol` names the protection of the plan. -/
theorem securityProtocol_eq_plan (h : config.Checked parser) :
    config.securityProtocol = (config.plan h).protection.name := by
  have htls : (config.plan h).tls.isSome = config.tls := by
    rw [plan_tls]
    cases config.tls <;> rfl
  rw [ConnectionPlan.protection, htls, plan_sasl, isSome_credentials h,
    KafkaConfig.securityProtocol]
  cases config.tls <;> cases config.saslMechanism.isSome <;> rfl

/-! ### What is set up -/

/-- A builder holds what `validate` has checked. -/
structure BuiltAsValidated (world : TlsWorld) (config : KafkaConfig) (builder : ClientBuilder) :
    Prop where
  brokers : builder.bootstrapBrokers = connectBrokers config.brokers
  /-- SASL is attached exactly if there is a mechanism. -/
  sasl : builder.saslConfig.isSome = config.saslMechanism.isSome
  credentials : ∀ credentials, builder.saslConfig = some (.plain credentials) →
    config.saslUsername = some credentials.username ∧
      config.saslPassword = some credentials.password ∧
      credentials.username ≠ "" ∧ credentials.password ≠ ""
  noCredentials : builder.saslConfig = none →
    config.saslUsername = none ∧ config.saslPassword = none
  /-- TLS is attached exactly if `tls` is set. -/
  tls : builder.tlsConfig.isSome = config.tls
  /-- The certificates of the CA file are used with TLS, and only if there is a CA file. -/
  roots : ∀ tls, builder.tlsConfig = some tls →
    ∃ added, tls.roots = world.serverRoots ++ added ∧ (added = [] ↔ config.tlsCaFile = none)
  /-- `security_protocol` names the protection of the connection and no other. -/
  protocol : ∀ protection : Protection,
    config.securityProtocol = protection.name ↔ builder.protection = protection

/-- `connect_inner` sets up what `validate` has checked. -/
structure SetUpAsValidated (parser : UrlParser) (world : TlsWorld) (config : KafkaConfig) :
    Prop where
  brokers_ne : connectBrokers config.brokers ≠ []
  /-- The brokers are the entries that `validate` went through, in the same order. -/
  brokers : (connectBrokers config.brokers).map String.toList = brokerEntries config.brokers
  checked : ∀ broker ∈ connectBrokers config.brokers, ∃ host,
    brokerHost parser broker.toList = .ok host ∧ (config.tls = false → hostIsLoopback host = true)
  /-- The branch for a mechanism without credentials is not reached. -/
  unreachable : clientBuilder world config ≠ .error .missingCredentials
  /-- Only the TLS configuration can fail. -/
  fails : ∀ fault, clientBuilder world config = .error fault →
    config.tls = true ∧ ∃ error, buildTlsConfig world config.tlsCaFile = .error error ∧
      fault = .tls error
  /-- Without TLS there is no CA file, and nothing is read. -/
  noTls : config.tls = false → config.tlsCaFile = none ∧
    ∀ other, clientBuilder other config = clientBuilder world config
  built : ∀ builder, clientBuilder world config = .ok builder →
    BuiltAsValidated world config builder

/-- A builder of a plan. -/
theorem ConnectionPlan.builder_eq_ok {world : TlsWorld} {plan : ConnectionPlan}
    {builder : ClientBuilder} (h : plan.builder world = .ok builder) :
    builder.bootstrapBrokers = plan.brokers ∧ builder.saslConfig = plan.sasl.map .plain ∧
      ((plan.tls = none ∧ builder.tlsConfig = none) ∨ ∃ caFile tls, plan.tls = some caFile ∧
        builder.tlsConfig = some tls ∧ buildTlsConfig world caFile = .ok tls) := by
  rw [ConnectionPlan.builder] at h
  cases hplan : plan.tls with
  | none =>
    rw [hplan] at h
    rw [← Except.ok.inj h]
    exact ⟨rfl, rfl, Or.inl ⟨rfl, rfl⟩⟩
  | some caFile =>
    rw [hplan] at h
    cases hbuild : buildTlsConfig world caFile with
    | error error =>
      simp only [hbuild] at h
      exact absurd h (by simp [Except.map])
    | ok tls =>
      simp only [hbuild] at h
      rw [← Except.ok.inj h]
      exact ⟨rfl, rfl, Or.inr ⟨caFile, tls, rfl, rfl, hbuild⟩⟩

/-- The connections of a builder have the protection of its plan. -/
theorem ConnectionPlan.protection_of_builder {world : TlsWorld} {plan : ConnectionPlan}
    {builder : ClientBuilder} (h : plan.builder world = .ok builder) :
    builder.protection = plan.protection := by
  obtain ⟨-, hsasl, htls⟩ := ConnectionPlan.builder_eq_ok h
  rw [ClientBuilder.protection, ConnectionPlan.protection, hsasl, Option.isSome_map]
  rcases htls with ⟨hplan, hbuilder⟩ | ⟨caFile, tls, hplan, hbuilder, -⟩
  · rw [hplan, hbuilder]
    rfl
  · rw [hplan, hbuilder]
    rfl

/-- The TLS configuration of the builder of a checked configuration. -/
theorem tlsConfig_of_plan {world : TlsWorld} {builder : ClientBuilder} (h : config.Checked parser)
    (hbuilder : (config.plan h).builder world = .ok builder) :
    (config.tls = false ∧ builder.tlsConfig = none) ∨
      (config.tls = true ∧ ∃ tls, builder.tlsConfig = some tls ∧
        buildTlsConfig world config.tlsCaFile = .ok tls) := by
  obtain ⟨-, -, htls⟩ := ConnectionPlan.builder_eq_ok hbuilder
  rw [plan_tls] at htls
  cases hconfig : config.tls with
  | false =>
    rw [hconfig] at htls
    rcases htls with ⟨-, hnone⟩ | ⟨caFile, tls, hon, -⟩
    · exact Or.inl ⟨rfl, hnone⟩
    · exact absurd hon (by simp)
  | true =>
    rw [hconfig, if_pos rfl] at htls
    rcases htls with ⟨hoff, -⟩ | ⟨caFile, tls, hon, hsome, hbuild⟩
    · exact absurd hoff (by simp)
    · rw [← Option.some.inj hon] at hbuild
      exact Or.inr ⟨rfl, tls, hsome, hbuild⟩

theorem builtAsValidated {world : TlsWorld} {builder : ClientBuilder} (h : config.Checked parser)
    (hbuilder : (config.plan h).builder world = .ok builder) :
    BuiltAsValidated world config builder := by
  obtain ⟨hbrokers, hsasl, -⟩ := ConnectionPlan.builder_eq_ok hbuilder
  rw [plan_sasl] at hsasl
  have htls := tlsConfig_of_plan h hbuilder
  refine
    { brokers := hbrokers
      sasl := by rw [hsasl, Option.isSome_map, isSome_credentials h]
      credentials := ?_
      noCredentials := ?_
      tls := ?_
      roots := ?_
      protocol := ?_ }
  · intro credentials hsome
    rw [hsasl] at hsome
    obtain ⟨found, hfound, heq⟩ := Option.map_eq_some_iff.mp hsome
    rw [SaslConfig.plain.inj heq] at hfound
    exact credentials_eq_some h hfound
  · intro hnone
    rw [hsasl, Option.map_eq_none_iff] at hnone
    have hmechanism := isSome_credentials h
    rw [hnone] at hmechanism
    rcases saslCredentials_of_checked h with ⟨-, huser, hpass, -⟩ | ⟨_, _, _, hsome, -⟩
    · exact ⟨huser, hpass⟩
    · rw [hsome] at hmechanism
      exact absurd hmechanism (by simp)
  · rcases htls with ⟨hoff, hnone⟩ | ⟨hon, tls, hsome, -⟩
    · rw [hoff, hnone]
      rfl
    · rw [hon, hsome]
      rfl
  · intro tls hattached
    rcases htls with ⟨-, hnone⟩ | ⟨-, found, hsome, hbuild⟩
    · rw [hnone] at hattached
      exact absurd hattached (by simp)
    · rw [hsome] at hattached
      rw [Option.some.inj hattached] at hbuild
      exact rootStore_eq_ok (buildTlsConfig_eq_ok hbuild)
  · intro protection
    rw [securityProtocol_eq_plan h, Protection.name_injective.eq_iff,
      ConnectionPlan.protection_of_builder hbuilder]

end

/-- Every pool that `connect` returns was built with the protection that the `security_protocol` of
its configuration names. -/
theorem KafkaPool.protocol_of_connect {κ : Type} {parser : UrlParser} {world : TlsWorld}
    {build : ClientBuilder → Except RskafkaError κ} {inTime : Bool} {config : KafkaConfig}
    {pool : KafkaPool κ} (h : KafkaPool.connect parser world build inTime config = .ok pool) :
    ∃ builder client, build builder = .ok client ∧ pool.client = some client ∧
      pool.config.securityProtocol = builder.protection.name := by
  obtain ⟨hvalid, hconfig, builder, client, hbuilder, hclient, hpool⟩ := KafkaPool.connect_eq_ok h
  have hchecked := validate_eq_ok_iff.mp hvalid
  have hplan := plan_builder_of_ok hchecked hbuilder
  refine ⟨builder, client, hclient, hpool, ?_⟩
  rw [hconfig, securityProtocol_eq_plan hchecked, ConnectionPlan.protection_of_builder hplan]

/-- **What `validate` accepts is what `connect_inner` sets up**: the brokers that were checked, SASL
with the checked credentials exactly where there is a mechanism, TLS exactly where it is set, and
`security_protocol` names the protection that is used. -/
theorem set_up_as_validated (parser : UrlParser) (world : TlsWorld) (config : KafkaConfig)
    (h : config.validate parser = .ok ()) : SetUpAsValidated parser world config := by
  have hchecked := validate_eq_ok_iff.mp h
  refine
    { brokers_ne := connectBrokers_ne hchecked.entries_ne
      brokers := toList_connectBrokers config.brokers
      checked := ?_
      unreachable := ?_
      fails := fun _ => tls_fault_of_error hchecked
      noTls := ?_
      built := fun _ hbuilder => builtAsValidated hchecked (plan_builder_of_ok hchecked hbuilder) }
  · intro broker hbroker
    have hentry : broker.toList ∈ brokerEntries config.brokers := by
      rw [← toList_connectBrokers]
      exact List.mem_map_of_mem hbroker
    exact checkBrokers_eq_ok hchecked.entries hentry
  · intro hmissing
    obtain ⟨-, error, -, hfault⟩ := tls_fault_of_error hchecked hmissing
    exact absurd hfault (by simp)
  · intro hoff
    have hca : config.tlsCaFile = none := by
      cases hfile : config.tlsCaFile with
      | none => rfl
      | some path =>
        have hon := hchecked.caWithTls (by rw [hfile]; rfl)
        exact absurd (hoff.symm.trans hon) (by simp)
    refine ⟨hca, fun other => ?_⟩
    rw [clientBuilder, clientBuilder, attachTls, attachTls, hoff]
    rfl

/-- A world with one public root and a provider. -/
def publicWorld : TlsWorld where
  installDefault := .ok ()
  hasDefault := true
  serverRoots := [[1, 2, 3]]
  metadata _ := .error "No such file or directory (os error 2)".toList
  openFile _ := .error "No such file or directory (os error 2)".toList
  certs _ := []
  add _ := .ok ()
  joinError := none

/-- Two remote brokers, with TLS and credentials. -/
def securedConfig : KafkaConfig := { (default : KafkaConfig) with
  brokers := "kafka-1.example.com:9093, kafka-2.example.com:9093"
  saslMechanism := some "plain"
  saslUsername := some "app"
  saslPassword := some " "
  tls := true }

theorem set_up_as_validated_secured : ∃ builder,
    clientBuilder publicWorld securedConfig = .ok builder ∧
      builder.bootstrapBrokers = ["kafka-1.example.com:9093", "kafka-2.example.com:9093"] ∧
      builder.protection = ⟨true, true⟩ := by
  have hbuilt : ∃ builder, clientBuilder publicWorld securedConfig = .ok builder := ⟨_, rfl⟩
  obtain ⟨builder, hbuilder⟩ := hbuilt
  have hset := set_up_as_validated plainParser publicWorld securedConfig (by decide)
  have hbuilt := hset.built builder hbuilder
  refine ⟨builder, hbuilder, hbuilt.brokers.trans (by decide), ?_⟩
  exact (hbuilt.protocol ⟨true, true⟩).mp (by decide)

end Kafkax
