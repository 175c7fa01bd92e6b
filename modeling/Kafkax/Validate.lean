import Kafkax.Config
import Kafkax.Library.IpAddress
import Kafkax.Library.Search

/-!
# Checking a configuration

`validate` reads a broker entry as a URL, judges its host, and without TLS accepts only this
machine: `localhost` and the loopback addresses.  `connect_inner` hands the same entry to the
driver as it stands, and the driver dials what is before the last colon.

* `checkBrokers_eq_ok`: what an accepted list of entries was judged by.
* `validate_eq_ok_iff`: what a configuration has to meet to be accepted.
* `plaintext_judged_iff`: without TLS the driver dials the host that was judged exactly if the
  entry is plainly written, without any of the characters at which the two readings part.
-/

namespace Kafkax

open IpAddresses LineText

/-! ### The functions of the source -/

/-- What `validate` and `broker_host` have against a configuration. -/
inductive ConfigFault where
  | brokersEmpty
  | timeoutZero
  | caWithoutTls
  | noBroker
  | badUrl (error : Text)
  | userinfo
  | noHost
  | remotePlaintext (host : Text)
  | unsupportedMechanism (mechanism : String)
  | noUsername
  | noPassword
  | credentialsWithoutMechanism
  | clientIdEmpty
deriving DecidableEq

/-- The message of a fault. -/
def ConfigFault.message : ConfigFault → String
  | .brokersEmpty => "brokers 不能为空"
  | .timeoutZero => "timeout 必须大于零"
  | .caWithoutTls => "配置 tls_ca_file 时必须启用 TLS"
  | .noBroker => "brokers 至少包含一个有效地址"
  | .badUrl error => "broker 地址非法: " ++ String.ofList error
  | .userinfo => "broker 地址禁止内嵌 userinfo"
  | .noHost => "broker 缺少 host"
  | .remotePlaintext host => "远程 broker `" ++ String.ofList host ++ "` 必须启用 TLS"
  | .unsupportedMechanism mechanism => "当前仅支持 SASL/PLAIN，拒绝机制 `" ++ mechanism ++ "`"
  | .noUsername => "已启用 SASL 但缺少 username"
  | .noPassword => "已启用 SASL 但缺少 password"
  | .credentialsWithoutMechanism => "提供了 SASL 凭据但未启用 PLAIN 机制"
  | .clientIdEmpty => "client_id 不能为空"

/-- What `broker_host` reads off a parsed URL. -/
structure Url where
  username : Text
  password : Option Text
  host : Option Text

/-- The host of a URL for the host that was written: a name with the characters that need it
percent-encoded, or an address between brackets in its normal form. -/
inductive HostOf : Text → Text → Prop where
  | name (written host : Text) (hcolon : ':' ∉ written) (hhost : host = written ∨ '%' ∈ host) :
      HostOf written host
  | address (written host : Text) (ip : IpAddr) (hwritten : parseIp written = some ip)
      (hhost : parseIp host = some ip) :
      HostOf ('[' :: (written ++ [']'])) ('[' :: (host ++ [']']))

/-- A port: at least one digit, at most 65535. -/
def isPort (port : Text) : Bool :=
  !port.isEmpty && port.all Char.isDigit && decide (Nat.ofDigitChars 10 port 0 ≤ 65535)

/-- A character that neither ends the authority of a URL, or the port in it, nor is taken out of
it. -/
def isAuthorityChar (c : Char) : Bool := 32 < c.toNat && !"/?#@\\".toList.contains c

/-- `url::Url::parse` -/
abbrev UrlParser := Text → Except Text Url

/-- The host of a URL is what the authority says, up to a port. -/
def UrlParser.ReadsAuthority (parser : UrlParser) : Prop :=
  ∀ authority url, authority.all isAuthorityChar = true →
    parser ("kafka://".toList ++ authority) = .ok url → ∃ written port,
      authority = written ++ port ∧
      (port = [] ∨ port = [':'] ∨ ∃ digits, port = ':' :: digits ∧ isPort digits = true) ∧
      ∀ host, url.host = some host → HostOf written host

/-- `broker_host` -/
def brokerHost (parser : UrlParser) (broker : Text) : Except ConfigFault Text :=
  let candidate := if contains "://".toList broker then broker else "kafka://".toList ++ broker
  match parser candidate with
  | .error error => .error (.badUrl error)
  | .ok url =>
    if !url.username.isEmpty || url.password.isSome then .error .userinfo
    else
      match url.host.filter fun host => !host.isEmpty with
      | none => .error .noHost
      | some host => .ok host

/-- `strip_prefix('[')`, then `strip_suffix(']')`, or the host as it is. -/
def stripBrackets (host : Text) : Text :=
  match host with
  | '[' :: rest => if rest.getLast? = some ']' then rest.dropLast else host
  | _ => host

/-- `host_is_loopback` -/
def hostIsLoopback (host : Text) : Bool :=
  let host := stripBrackets host
  toAsciiLowercase host == "localhost".toList ||
    (parseIp host).any IpAddr.isLoopback

/-- The entries of `brokers`, as both `validate` and `connect_inner` cut them out. -/
def brokerEntries (brokers : String) : List Text :=
  ((brokers.toList.splitOn ',').map trim).filter fun broker => !broker.isEmpty

/-- The loop of `validate` over the entries. -/
def checkBrokers (parser : UrlParser) (tls : Bool) : List Text → Except ConfigFault Unit
  | [] => .ok ()
  | broker :: rest =>
    match brokerHost parser broker with
    | .error fault => .error fault
    | .ok host =>
      if !tls && !hostIsLoopback host then .error (.remotePlaintext host)
      else checkBrokers parser tls rest

/-- The checks of `validate` on the SASL fields. -/
def checkSasl (mechanism username password : Option String) : Except ConfigFault Unit :=
  match mechanism with
  | some mechanism =>
    if toAsciiLowercase mechanism.toList ≠ toAsciiLowercase defaultSaslMechanism.toList then
      .error (.unsupportedMechanism mechanism)
    else if (username.getD "").isEmpty then .error .noUsername
    else if (password.getD "").isEmpty then .error .noPassword
    else .ok ()
  | none =>
    if username.isSome || password.isSome then .error .credentialsWithoutMechanism else .ok ()

/-- `is_zero` -/
def Duration.isZero (self : Duration) : Bool := self.secs == 0 && self.nanos == 0

namespace KafkaConfig

/-- The checks of `validate`, in order. -/
def check (parser : UrlParser) (self : KafkaConfig) : Except ConfigFault Unit :=
  if (trim self.brokers.toList).isEmpty then .error .brokersEmpty
  else if self.deliveryTimeout.isZero || self.connectTimeout.isZero ||
      self.operationTimeout.isZero then .error .timeoutZero
  else if self.tlsCaFile.isSome && !self.tls then .error .caWithoutTls
  else if (brokerEntries self.brokers).isEmpty then .error .noBroker
  else
    match checkBrokers parser self.tls (brokerEntries self.brokers) with
    | .error fault => .error fault
    | .ok () =>
      match checkSasl self.saslMechanism self.saslUsername self.saslPassword with
      | .error fault => .error fault
      | .ok () =>
        if (trim self.clientId.toList).isEmpty then .error .clientIdEmpty else .ok ()

/-- `validate` -/
def validate (parser : UrlParser) (self : KafkaConfig) : KafkaResult Unit :=
  (self.check parser).mapError fun fault => .config fault.message

end KafkaConfig

/-! ### What was judged -/

/-- An accepted list of entries has hosts, on this machine unless there is TLS. -/
theorem checkBrokers_eq_ok {parser : UrlParser} {tls : Bool} {entries : List Text}
    (h : checkBrokers parser tls entries = .ok ()) {entry : Text} (hentry : entry ∈ entries) :
    ∃ host, brokerHost parser entry = .ok host ∧ (tls = false → hostIsLoopback host = true) := by
  induction entries with
  | nil => exact absurd hentry List.not_mem_nil
  | cons broker rest ih =>
    rw [checkBrokers] at h
    cases hhost : brokerHost parser broker with
    | error fault =>
      rw [hhost] at h
      exact absurd h (by simp)
    | ok host =>
      rw [hhost] at h
      have hif : (if !tls && !hostIsLoopback host then .error (.remotePlaintext host)
        else checkBrokers parser tls rest) = Except.ok () := h
      split at hif
      · exact absurd hif (by simp)
      · rename_i hlocal
        rcases List.mem_cons.mp hentry with rfl | hentry
        · refine ⟨host, hhost, fun htls => ?_⟩
          rw [htls] at hlocal
          simpa using hlocal
        · exact ih hif hentry

/-- A refused list of entries has a first entry that is refused: for its address, or for its host
when that is not this machine and there is no TLS. -/
theorem checkBrokers_eq_error {parser : UrlParser} {tls : Bool} {entries : List Text}
    {fault : ConfigFault} (h : checkBrokers parser tls entries = .error fault) :
    ∃ before broker after, entries = before ++ broker :: after ∧
      (∀ entry ∈ before, ∃ host, brokerHost parser entry = .ok host ∧
        (tls = false → hostIsLoopback host = true)) ∧
      (brokerHost parser broker = .error fault ∨
        ∃ host, brokerHost parser broker = .ok host ∧ tls = false ∧
          hostIsLoopback host = false ∧ fault = .remotePlaintext host) := by
  induction entries with
  | nil => exact absurd h (by simp [checkBrokers])
  | cons broker rest ih =>
    rw [checkBrokers] at h
    cases hhost : brokerHost parser broker with
    | error found =>
      rw [hhost] at h
      have hfound : found = fault := Except.error.inj h
      exact ⟨[], broker, rest, rfl, fun entry hentry => absurd hentry List.not_mem_nil,
        Or.inl (hfound ▸ hhost)⟩
    | ok host =>
      rw [hhost] at h
      have hif : (if !tls && !hostIsLoopback host then .error (.remotePlaintext host)
        else checkBrokers parser tls rest) = Except.error fault := h
      split at hif
      · rename_i hremote
        rw [Bool.and_eq_true, Bool.not_eq_true', Bool.not_eq_true'] at hremote
        exact ⟨[], broker, rest, rfl, fun entry hentry => absurd hentry List.not_mem_nil,
          Or.inr ⟨host, hhost, hremote.1, hremote.2, (Except.error.inj hif).symm⟩⟩
      · rename_i hlocal
        obtain ⟨before, refused, after, hsplit, hbefore, hrefused⟩ := ih hif
        refine ⟨broker :: before, refused, after, by rw [hsplit, List.cons_append], ?_, hrefused⟩
        intro entry hentry
        rcases List.mem_cons.mp hentry with rfl | hentry
        · refine ⟨host, hhost, fun htls => ?_⟩
          rw [htls] at hlocal
          simpa using hlocal
        · exact hbefore entry hentry

/-- The SASL fields that `validate` accepts: none at all, or all three. -/
inductive SaslChecked : Option String → Option String → Option String → Prop where
  | off : SaslChecked none none none
  | plain (mechanism username password : String)
      (hmechanism : toAsciiLowercase mechanism.toList =
        toAsciiLowercase defaultSaslMechanism.toList)
      (husername : username ≠ "") (hpassword : password ≠ "") :
      SaslChecked (some mechanism) (some username) (some password)

theorem checkSasl_eq_ok {mechanism username password : Option String}
    (h : checkSasl mechanism username password = .ok ()) :
    SaslChecked mechanism username password := by
  have hfilled : ∀ {s : Option String}, ¬ (s.getD "").isEmpty = true →
      ∃ t, s = some t ∧ t ≠ "" := by
    intro s hs
    cases s with
    | none => exact absurd rfl hs
    | some t => exact ⟨t, rfl, fun ht => hs (String.isEmpty_iff.mpr ht)⟩
  rw [checkSasl.eq_def] at h
  split at h
  · rename_i name
    split at h
    · exact absurd h (by simp)
    · rename_i hplain
      split at h
      · exact absurd h (by simp)
      · rename_i husername
        split at h
        · exact absurd h (by simp)
        · rename_i hpassword
          obtain ⟨user, rfl, huser⟩ := hfilled husername
          obtain ⟨pass, rfl, hpass⟩ := hfilled hpassword
          exact .plain name user pass (not_not.mp hplain) huser hpass
  · split at h
    · exact absurd h (by simp)
    · rename_i hnone
      rw [Bool.or_eq_true, not_or, Option.not_isSome_iff_eq_none,
        Option.not_isSome_iff_eq_none] at hnone
      rw [hnone.1, hnone.2]
      exact .off

/-- What `validate` has checked of a configuration that it accepts. -/
structure KafkaConfig.Checked (parser : UrlParser) (config : KafkaConfig) : Prop where
  brokers_filled : (trim config.brokers.toList).isEmpty = false
  timeouts : config.deliveryTimeout.isZero = false ∧ config.connectTimeout.isZero = false ∧
    config.operationTimeout.isZero = false
  caWithTls : config.tlsCaFile.isSome = true → config.tls = true
  entries_ne : brokerEntries config.brokers ≠ []
  entries : checkBrokers parser config.tls (brokerEntries config.brokers) = .ok ()
  sasl : SaslChecked config.saslMechanism config.saslUsername config.saslPassword
  clientId_filled : (trim config.clientId.toList).isEmpty = false

theorem checked_of_check {parser : UrlParser} {config : KafkaConfig}
    (h : config.check parser = .ok ()) : config.Checked parser := by
  rw [KafkaConfig.check] at h
  split at h
  · exact absurd h (by simp)
  · rename_i hbrokers
    split at h
    · exact absurd h (by simp)
    · rename_i htimeouts
      split at h
      · exact absurd h (by simp)
      · rename_i hca
        split at h
        · exact absurd h (by simp)
        · rename_i hentries
          split at h
          · exact absurd h (by simp)
          · rename_i hloop
            split at h
            · exact absurd h (by simp)
            · rename_i hsasl
              split at h
              · exact absurd h (by simp)
              · rename_i hclient
                simp only [Bool.or_eq_true, not_or, Bool.not_eq_true] at htimeouts
                refine ⟨Bool.not_eq_true _ ▸ hbrokers, ⟨htimeouts.1.1, htimeouts.1.2, htimeouts.2⟩,
                  fun hsome => ?_, fun hnil => hentries (by rw [hnil]; rfl), hloop,
                  checkSasl_eq_ok hsasl, Bool.not_eq_true _ ▸ hclient⟩
                rw [hsome, Bool.true_and, Bool.not_eq_true', Bool.not_eq_false] at hca
                exact hca

theorem checkSasl_of_checked {mechanism username password : Option String}
    (h : SaslChecked mechanism username password) :
    checkSasl mechanism username password = .ok () := by
  cases h with
  | off => rfl
  | plain mechanism username password hmechanism husername hpassword =>
    have hname : ¬ ((some username).getD "").isEmpty = true :=
      fun hempty => husername (String.isEmpty_iff.mp hempty)
    have hpass : ¬ ((some password).getD "").isEmpty = true :=
      fun hempty => hpassword (String.isEmpty_iff.mp hempty)
    rw [checkSasl, if_neg (not_not.mpr hmechanism), if_neg hname, if_neg hpass]

theorem check_of_checked {parser : UrlParser} {config : KafkaConfig} (h : config.Checked parser) :
    config.check parser = .ok () := by
  have htimeouts : (config.deliveryTimeout.isZero || config.connectTimeout.isZero ||
      config.operationTimeout.isZero) = false := by
    rw [h.timeouts.1, h.timeouts.2.1, h.timeouts.2.2]
    rfl
  have hca : (config.tlsCaFile.isSome && !config.tls) = false := by
    cases hsome : config.tlsCaFile.isSome with
    | false => rfl
    | true =>
      rw [h.caWithTls hsome]
      rfl
  have hentries : (brokerEntries config.brokers).isEmpty = false :=
    List.isEmpty_eq_false_iff.mpr h.entries_ne
  rw [KafkaConfig.check, h.brokers_filled, htimeouts, hca, hentries, h.entries,
    checkSasl_of_checked h.sasl, h.clientId_filled]
  rfl

/-- **`validate` accepts exactly** the configurations that meet all of its checks. -/
theorem validate_eq_ok_iff {parser : UrlParser} {config : KafkaConfig} :
    config.validate parser = .ok () ↔ config.Checked parser := by
  rw [KafkaConfig.validate]
  constructor
  · intro h
    cases hcheck : config.check parser with
    | error fault =>
      rw [hcheck] at h
      exact absurd h (by simp [Except.mapError])
    | ok u => exact checked_of_check hcheck
  · intro h
    rw [check_of_checked h]
    rfl

/-! ### The characters of a loopback host -/

theorem toLower_of_le {c : Char} (h : c.toNat ≤ 64) : c.toLower = c := by
  refine dif_neg fun hupper => ?_
  have hle : 65 ≤ c.toNat := UInt32.le_iff_toNat_le.mp hupper.1
  omega

/-- The range of the characters that names and addresses are made of. -/
theorem isAuthorityChar_of_range {c : Char}
    (h : 64 < c.toNat ∨ (48 ≤ c.toNat ∧ c.toNat ≤ 58) ∨ c.toNat = 46) (hbackslash : c ≠ '\\') :
    isAuthorityChar c = true ∧ c ≠ '%' := by
  have hne : ∀ d : Char, d.toNat = 47 ∨ d.toNat = 63 ∨ d.toNat = 35 ∨ d.toNat = 64 ∨
      d.toNat = 37 → c ≠ d := by
    intro d hd heq
    rw [heq] at h
    omega
  have hends : "/?#@\\".toList.contains c = false := by
    rw [Bool.eq_false_iff]
    intro hmem
    have hcases : c = '/' ∨ c = '?' ∨ c = '#' ∨ c = '@' ∨ c = '\\' := by simpa using hmem
    rcases hcases with hc | hc | hc | hc | hc
    · exact hne _ (by decide) hc
    · exact hne _ (by decide) hc
    · exact hne _ (by decide) hc
    · exact hne _ (by decide) hc
    · exact hbackslash hc
  refine ⟨?_, hne _ (by decide)⟩
  rw [isAuthorityChar, hends, Bool.not_false, Bool.and_true, decide_eq_true_eq]
  omega

/-- A letter of `localhost`, in either case, is not among the lower half of ASCII. -/
theorem range_of_localhost {name : Text} (h : toAsciiLowercase name = "localhost".toList)
    {c : Char} (hc : c ∈ name) : 64 < c.toNat ∧ c ≠ '\\' := by
  have hlower : c.toLower ∈ toAsciiLowercase name := List.mem_map_of_mem hc
  rw [h] at hlower
  constructor
  · by_contra hle
    rw [toLower_of_le (by omega)] at hlower
    have hall : "localhost".toList.all (fun d => decide (64 < d.toNat)) = true := by decide
    exact hle (of_decide_eq_true (List.all_eq_true.mp hall c hlower))
  · intro hbackslash
    rw [hbackslash] at hlower
    exact absurd hlower (by decide)

/-- An address is not the name `localhost`. -/
theorem ne_localhost_of_parseIp {host : Text} {ip : IpAddr} (h : parseIp host = some ip) :
    toAsciiLowercase host ≠ "localhost".toList := by
  intro hname
  have hl : 'l' ∈ toAsciiLowercase host := by
    rw [hname]
    decide
  obtain ⟨c, hc, hlower⟩ := List.mem_map.mp hl
  exact toLower_ne_of_isIpChar (isIpChar_of_parseIp h hc) hlower

/-- The characters that set the two readings of an entry apart occur in no loopback host. -/
theorem isAuthorityChar_of_loopback {host : Text} (h : hostIsLoopback host = true) {c : Char}
    (hc : c ∈ stripBrackets host) : isAuthorityChar c = true ∧ c ≠ '%' := by
  rw [hostIsLoopback, Bool.or_eq_true, beq_iff_eq] at h
  rcases h with h | h
  · obtain ⟨hrange, hbackslash⟩ := range_of_localhost h hc
    exact isAuthorityChar_of_range (Or.inl hrange) hbackslash
  · rw [Option.any_eq_true_iff_get] at h
    obtain ⟨hsome, -⟩ := h
    obtain ⟨ip, hip⟩ := Option.isSome_iff_exists.mp hsome
    have hchar := isIpChar_of_parseIp hip hc
    have hrange := range_of_isIpChar hchar
    refine isAuthorityChar_of_range (by omega) fun hbackslash => ?_
    rw [hbackslash] at hchar
    exact absurd hchar (by decide)

theorem mem_stripBrackets {host : Text} {c : Char} (hc : c ∈ host) :
    c ∈ stripBrackets host ∨ c = '[' ∨ c = ']' := by
  rw [stripBrackets.eq_def]
  split
  · rename_i rest
    split
    · rename_i hlast
      rcases List.mem_cons.mp hc with hc | hc
      · exact Or.inr (Or.inl hc)
      · rw [← List.dropLast_append_getLast? _ hlast] at hc
        rcases List.mem_append.mp hc with hc | hc
        · exact Or.inl hc
        · exact Or.inr (Or.inr (List.mem_singleton.mp hc))
    · exact Or.inl hc
  · exact Or.inl hc

/-! ### The host that is dialled -/

/-- Two texts of one host: the same text, or texts of the same address. -/
def SameHost (a b : Text) : Prop := a = b ∨ ∃ ip, parseIp a = some ip ∧ parseIp b = some ip

/-- The driver dials the host that `validate` judged, a host of this machine, on a port. -/
def DialsJudged (parser : UrlParser) (entry : Text) : Prop :=
  ∃ host port judged, rsplitOnce ':' entry = some (host, port) ∧ isPort port = true ∧
    brokerHost parser entry = .ok judged ∧ SameHost (stripBrackets host) (stripBrackets judged) ∧
    hostIsLoopback host = true

/-- An entry without the characters at which the two readings part, with a number at its end. -/
def PlainlyWritten (entry : Text) : Prop :=
  entry.all isAuthorityChar = true ∧
    ∃ host port, rsplitOnce ':' entry = some (host, port) ∧ port ≠ [] ∧ port.all Char.isDigit = true

theorem range_of_isDigit {c : Char} (h : c.isDigit = true) : 48 ≤ c.toNat ∧ c.toNat ≤ 57 := by
  simp only [Char.isDigit, Bool.and_eq_true, decide_eq_true_eq, ge_iff_le,
    UInt32.le_iff_toNat_le] at h
  exact h

theorem plainlyWritten_of_dialsJudged {parser : UrlParser} {entry : Text}
    (h : DialsJudged parser entry) : PlainlyWritten entry := by
  obtain ⟨host, port, judged, hsplit, hport, -, -, hloopback⟩ := h
  rw [isPort, Bool.and_eq_true, Bool.and_eq_true, Bool.not_eq_true', List.isEmpty_eq_false_iff]
    at hport
  refine ⟨?_, host, port, hsplit, hport.1.1, hport.1.2⟩
  rw [List.all_eq_true]
  intro c hc
  rw [(rsplitOnce_eq_some hsplit).1] at hc
  rcases List.mem_append.mp hc with hc | hc
  · rcases mem_stripBrackets hc with hc | hc | hc
    · exact (isAuthorityChar_of_loopback hloopback hc).1
    · rw [hc]
      decide
    · rw [hc]
      decide
  · rcases List.mem_cons.mp hc with hc | hc
    · rw [hc]
      decide
    · have hrange := range_of_isDigit (List.all_eq_true.mp hport.1.2 c hc)
      refine (isAuthorityChar_of_range (Or.inr (Or.inl (by omega))) fun hbackslash => ?_).1
      rw [hbackslash] at hrange
      exact absurd hrange (by decide)

/-- A plainly written entry is read as the authority of a URL. -/
theorem parse_of_brokerHost {parser : UrlParser} {entry judged : Text}
    (hentry : entry.all isAuthorityChar = true) (h : brokerHost parser entry = .ok judged) :
    ∃ url, parser ("kafka://".toList ++ entry) = .ok url ∧ url.host = some judged := by
  have hscheme : contains "://".toList entry = false := by
    rw [Bool.eq_false_iff]
    intro hfound
    have hslash : '/' ∈ entry := (contains_iff.mp hfound).subset (by decide)
    exact absurd (List.all_eq_true.mp hentry _ hslash) (by decide)
  rw [brokerHost, hscheme] at h
  have hparse : ∃ url, parser ("kafka://".toList ++ entry) = .ok url := by
    cases hurl : parser ("kafka://".toList ++ entry) with
    | ok url => exact ⟨url, rfl⟩
    | error error =>
      simp only [hurl, Bool.false_eq_true, if_false] at h
      exact absurd h (by simp)
  obtain ⟨url, hurl⟩ := hparse
  refine ⟨url, hurl, ?_⟩
  simp only [hurl, Bool.false_eq_true, if_false] at h
  split at h
  · exact absurd h (by simp)
  · split at h
    · exact absurd h (by simp)
    · rename_i host hhost
      rw [← Except.ok.inj h]
      exact (Option.filter_eq_some_iff.mp hhost).1

/-- The written host of a judged host of this machine is the same host. -/
theorem sameHost_of_hostOf {written judged : Text} (h : HostOf written judged)
    (hloopback : hostIsLoopback judged = true) :
    SameHost (stripBrackets written) (stripBrackets judged) ∧ hostIsLoopback written = true := by
  cases h with
  | name _ _ hcolon hhost =>
    have hsame : judged = written := by
      rcases hhost with hhost | hpercent
      · exact hhost
      · rcases mem_stripBrackets hpercent with hc | hc | hc
        · exact absurd rfl (isAuthorityChar_of_loopback hloopback hc).2
        · exact absurd hc (by decide)
        · exact absurd hc (by decide)
    rw [← hsame]
    exact ⟨Or.inl rfl, hloopback⟩
  | address writtenIp hostIp ip hwritten hhost =>
    have hstrip : ∀ text : Text, stripBrackets ('[' :: (text ++ [']'])) = text := by
      intro text
      show (if (text ++ [']']).getLast? = some ']' then (text ++ [']']).dropLast else _) = text
      rw [if_pos List.getLast?_concat, List.dropLast_concat]
    rw [hstrip, hstrip]
    refine ⟨Or.inr ⟨ip, hwritten, hhost⟩, ?_⟩
    rw [hostIsLoopback, hstrip, hhost] at hloopback
    rw [hostIsLoopback, hstrip, hwritten]
    rcases (Bool.or_eq_true _ _).mp hloopback with hname | hip
    · exact absurd (beq_iff_eq.mp hname) (ne_localhost_of_parseIp hhost)
    · exact (Bool.or_eq_true _ _).mpr (Or.inr hip)

theorem dialsJudged_of_plainlyWritten {parser : UrlParser} (hparser : parser.ReadsAuthority)
    {entry judged : Text} (hplain : PlainlyWritten entry)
    (hjudged : brokerHost parser entry = .ok judged)
    (hloopback : hostIsLoopback judged = true) : DialsJudged parser entry := by
  obtain ⟨hchars, host, port, hsplit, hne, hdigits⟩ := hplain
  obtain ⟨url, hparse, hhost⟩ := parse_of_brokerHost hchars hjudged
  obtain ⟨written, written', hentry, hport, hhosts⟩ :=
    hparser entry url hchars hparse
  have hof := hhosts judged hhost
  obtain ⟨hsame, hlocal⟩ := sameHost_of_hostOf hof hloopback
  have hcut := rsplitOnce_eq_some hsplit
  rcases hport with hnone | hempty | ⟨digits, hwritten, hisPort⟩
  · -- The entry has a port, so the URL reads one.
    exfalso
    rw [hnone, List.append_nil] at hentry
    rw [← hentry] at hof
    cases hof with
    | name _ _ hcolon _ =>
      rw [hcut.1] at hcolon
      exact hcolon (List.mem_append_right _ List.mem_cons_self)
    | address writtenIp hostIp ip hwritten _ =>
      have hlast : (host ++ ':' :: port).getLast? = some ']' := by
        rw [← hcut.1, ← List.cons_append, List.getLast?_concat]
      rw [List.getLast?_append_of_ne_nil _ (List.cons_ne_nil _ _),
        List.getLast?_cons_of_ne_nil hne] at hlast
      exact absurd (List.all_eq_true.mp hdigits _ (List.mem_of_getLast? hlast)) (by decide)
  · exfalso
    rw [hempty] at hentry
    have hagain : rsplitOnce ':' entry = some (written, []) := by
      rw [hentry]
      exact rsplitOnce_append written List.not_mem_nil
    rw [hsplit] at hagain
    exact hne (Prod.mk.inj (Option.some.inj hagain)).2
  · have hcolon : ':' ∉ digits := by
      intro hmem
      rw [isPort, Bool.and_eq_true, Bool.and_eq_true] at hisPort
      exact absurd (List.all_eq_true.mp hisPort.1.2 _ hmem) (by decide)
    have hagain : rsplitOnce ':' entry = some (written, digits) := by
      rw [hentry, hwritten]
      exact rsplitOnce_append written hcolon
    exact ⟨written, digits, judged, hagain, hisPort, hjudged, hsame, hlocal⟩

/-- **Without TLS the driver dials what was judged**, `localhost` or a loopback address, for every
entry of a valid configuration that is plainly written, and for no other. -/
theorem plaintext_judged_iff {parser : UrlParser} (hparser : parser.ReadsAuthority)
    (config : KafkaConfig) (htls : config.tls = false) (hvalid : config.validate parser = .ok ()) :
    ∀ entry ∈ brokerEntries config.brokers, DialsJudged parser entry ↔ PlainlyWritten entry := by
  intro entry hentry
  have hchecked := validate_eq_ok_iff.mp hvalid
  obtain ⟨judged, hjudged, hlocal⟩ := checkBrokers_eq_ok hchecked.entries hentry
  exact ⟨plainlyWritten_of_dialsJudged, fun hplain =>
    dialsJudged_of_plainlyWritten hparser hplain hjudged (hlocal htls)⟩

/-! ### A parser for plain authorities -/

/-- The parser for URLs with a name and a port and without userinfo. -/
def plainParser : UrlParser := fun s =>
  let authority := (s.drop 8).takeWhile fun c => !"/?#".toList.contains c
  if !"kafka://".toList.isPrefixOf s then .error "relative URL without a base".toList
  else if !authority.all isAuthorityChar then .error "invalid domain character".toList
  else
    match rsplitOnce ':' authority with
    | none => .ok ⟨[], none, some authority⟩
    | some (host, port) =>
      if ':' ∈ host || !(port.isEmpty || isPort port) then .error "invalid port number".toList
      else .ok ⟨[], none, some host⟩

theorem plainParser_authority {authority : Text} (hchars : authority.all isAuthorityChar = true) :
    plainParser ("kafka://".toList ++ authority) =
      match rsplitOnce ':' authority with
      | none => .ok ⟨[], none, some authority⟩
      | some (host, port) =>
        if ':' ∈ host || !(port.isEmpty || isPort port) then .error "invalid port number".toList
        else .ok ⟨[], none, some host⟩ := by
  have htake : authority.takeWhile (fun c => !"/?#".toList.contains c) = authority := by
    rw [List.takeWhile_eq_self_iff]
    intro c hc
    have hchar := List.all_eq_true.mp hchars c hc
    rw [isAuthorityChar, Bool.and_eq_true, Bool.not_eq_true'] at hchar
    rw [Bool.not_eq_true', Bool.eq_false_iff]
    intro hmem
    have hin : c ∈ "/?#@\\".toList :=
      List.mem_append_left ['@', '\\'] (List.contains_iff_mem.mp hmem)
    rw [List.contains_iff_mem.mpr hin] at hchar
    exact absurd hchar.2 (by simp)
  have hprefix : "kafka://".toList.isPrefixOf ("kafka://".toList ++ authority) = true :=
    List.isPrefixOf_iff_prefix.mpr (List.prefix_append _ _)
  have hdrop : ("kafka://".toList ++ authority).drop 8 = authority := rfl
  rw [plainParser, hprefix, hdrop, htake, hchars]
  rfl

theorem readsAuthority_plainParser : UrlParser.ReadsAuthority plainParser := by
  intro authority url hchars hparse
  rw [plainParser_authority hchars] at hparse
  cases hsplit : rsplitOnce ':' authority with
  | none =>
    rw [hsplit] at hparse
    have hcolon : ':' ∉ authority := fun hmem => rsplitOnce_ne_none hmem hsplit
    refine ⟨authority, [], (List.append_nil _).symm, Or.inl rfl, fun host hhost => ?_⟩
    rw [← Except.ok.inj hparse] at hhost
    rw [← Option.some.inj hhost]
    exact .name authority authority hcolon (Or.inl rfl)
  | some parts =>
    obtain ⟨written, port⟩ := parts
    have hif : (if ':' ∈ written || !(port.isEmpty || isPort port) then
        .error "invalid port number".toList else .ok ⟨[], none, some written⟩) =
        Except.ok url := by
      rw [hsplit] at hparse
      exact hparse
    split at hif
    · exact absurd hif (by simp)
    · rename_i hlegal
      rw [Bool.or_eq_true, not_or, decide_eq_true_eq, Bool.not_eq_true, Bool.not_eq_false',
        Bool.or_eq_true, List.isEmpty_iff] at hlegal
      refine ⟨written, ':' :: port, (rsplitOnce_eq_some hsplit).1, ?_, fun host hhost => ?_⟩
      · rcases hlegal.2 with hempty | hport
        · exact Or.inr (Or.inl (by rw [hempty]))
        · exact Or.inr (Or.inr ⟨port, rfl, hport⟩)
      · rw [← Except.ok.inj hif] at hhost
        rw [← Option.some.inj hhost]
        exact .name written written hlegal.1 (Or.inl rfl)

/-- The default configuration dials what was judged. -/
theorem plaintext_judged_default : DialsJudged plainParser "127.0.0.1:9092".toList :=
  (plaintext_judged_iff readsAuthority_plainParser default rfl (by decide) _ (by decide)).mpr
    ⟨by decide, "127.0.0.1".toList, "9092".toList, by decide, by decide, by decide⟩

/-- A configuration without TLS whose broker `validate` takes for this machine. -/
def pathBrokers : KafkaConfig := { (default : KafkaConfig) with
  brokers := "localhost/.example.com:9092" }

/-- `validate` judges `localhost`, and the driver dials another name. -/
theorem judged_host_not_dialled : pathBrokers.tls = false ∧
    pathBrokers.validate plainParser = .ok () ∧
    ¬ ∀ entry ∈ brokerEntries pathBrokers.brokers, DialsJudged plainParser entry := by
  refine ⟨rfl, by decide, fun h => ?_⟩
  have hdials := h "localhost/.example.com:9092".toList (by decide)
  exact absurd (plainlyWritten_of_dialsJudged hdials).1 (by decide)

end Kafkax
