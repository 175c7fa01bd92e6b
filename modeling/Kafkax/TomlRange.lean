import Mathlib.Data.List.Perm.Basic
import Kafkax.Builder

/-!
# What a TOML document can say

Every entry of a document that is read is a write to one field of the configuration
(`Reads`), and no key stands twice.

* `fromToml_order`: the order of the entries and their places make no difference.
* `fromToml_range`: the configurations that a document can say; none of them uses SASL.
-/

namespace Kafkax

open BoundedIntegers LineText Registers

/-! ### Entries as writes -/

/-- The key and the value of an entry. -/
def TomlEntry.pair (entry : TomlEntry) : String × TomlValue := (entry.key, entry.value)

/-- A key and a value that are read as a write. -/
def Reads (pair : String × TomlValue) (w : Sigma ConfigField.Value) : Prop :=
  ConfigField.ofKey pair.1 = some w.1 ∧
    readField w.1 pair.2 = .ok fun config => config.set w.1 w.2

theorem readEntry_of_reads {entry : TomlEntry} {w : Sigma ConfigField.Value}
    (h : Reads entry.pair w) : readEntry entry = .ok fun config => config.set w.1 w.2 := by
  have hfield : ConfigField.ofKey entry.key = some w.1 := h.1
  have hvalue : readField w.1 entry.value = .ok fun config => config.set w.1 w.2 := h.2
  rw [readEntry, hfield]
  simp only [hvalue]

/-- **Reading** a document is writing fields, one for each entry. -/
theorem deserialize_eq_ok {config result : KafkaConfig} {entries : List TomlEntry} :
    deserialize config entries = .ok result ↔
      ∃ ws, List.Forall₂ Reads (entries.map TomlEntry.pair) ws ∧
        result = assignAll KafkaConfig.set ws config := by
  induction entries generalizing config with
  | nil =>
    rw [deserialize, Except.ok.injEq]
    constructor
    · intro h
      exact ⟨[], .nil, h.symm⟩
    · rintro ⟨ws, hws, rfl⟩
      rw [List.forall₂_nil_left_iff.mp hws]
      rfl
  | cons entry rest ih =>
    constructor
    · intro h
      rw [deserialize] at h
      cases hread : readEntry entry with
      | error failure =>
        rw [hread] at h
        cases h
      | ok update =>
        rw [hread] at h
        obtain ⟨ws, hws, hresult⟩ := ih.mp h
        obtain ⟨field, hfield, hvalue⟩ := readEntry_eq_ok hread
        obtain ⟨written, rfl⟩ := exists_write hvalue
        exact ⟨⟨field, written⟩ :: ws, .cons ⟨hfield, hvalue⟩ hws, hresult⟩
    · rintro ⟨ws, hws, hresult⟩
      cases hws with
      | cons hentry hrest =>
        rw [deserialize, readEntry_of_reads hentry]
        exact ih.mpr ⟨_, hrest, hresult⟩

/-- The keys are the names of the fields that are written. -/
theorem names_of_reads {pairs : List (String × TomlValue)} {ws : List (Sigma ConfigField.Value)}
    (h : List.Forall₂ Reads pairs ws) : ws.keys.map ConfigField.name = pairs.map Prod.fst := by
  induction h with
  | nil => rfl
  | cons hpair hrest ih =>
    rw [List.keys_cons, List.map_cons, List.map_cons, ih, name_of_ofKey hpair.1]

/-- Entries with different keys write different fields. -/
theorem nodupKeys_of_reads {entries : List TomlEntry} {ws : List (Sigma ConfigField.Value)}
    (h : List.Forall₂ Reads (entries.map TomlEntry.pair) ws)
    (hnodup : (entries.map TomlEntry.key).Nodup) : ws.NodupKeys := by
  have hnames := names_of_reads h
  rw [List.map_map] at hnames
  have hkeys : (ws.keys.map ConfigField.name).Nodup := hnames ▸ hnodup
  exact hkeys.of_map

/-! ### The order of the entries -/

/-- Documents with the same entries, in any order and at any place. -/
def TomlDocument.SameEntries (document document' : TomlDocument) : Prop :=
  (document.entries.map TomlEntry.pair).Perm (document'.entries.map TomlEntry.pair)

theorem TomlDocument.SameEntries.deserialize {document document' : TomlDocument}
    (h : document.SameEntries document') {result : KafkaConfig}
    (hread : deserialize default document.entries = .ok result) :
    deserialize default document'.entries = .ok result := by
  obtain ⟨ws, hws, hresult⟩ := deserialize_eq_ok.mp hread
  obtain ⟨ws', hws', hperm⟩ := List.perm_comp_forall₂ h.symm hws
  refine deserialize_eq_ok.mpr ⟨ws', hws', ?_⟩
  rw [hresult]
  exact (assignAll_perm KafkaConfig.configBundle (nodupKeys_of_reads hws' document'.nodup) hperm
    default).symm

theorem TomlDocument.SameEntries.secret {document document' : TomlDocument}
    (h : document.SameEntries document') (key : String) :
    (document.entries.any fun entry => entry.key == key) =
      document'.entries.any fun entry => entry.key == key := by
  have hpairs : ∀ document : TomlDocument, (document.entries.any fun entry => entry.key == key) =
      (document.entries.map TomlEntry.pair).any fun pair => pair.1 == key := fun document => by
    rw [List.any_map]
    rfl
  rw [hpairs, hpairs]
  exact h.any_eq

/-- The document has the key. -/
def TomlDocument.hasKey (document : TomlDocument) (key : String) : Bool :=
  document.entries.any fun entry => entry.key == key

/-- The guard passes a readable document that has neither key. -/
theorem rejectSecretKeys_eq_ok {reader : TomlReader} {text : Text} :
    rejectSecretKeysInToml reader text = .ok () ↔ ∃ document, reader.parse text = .ok document ∧
      document.hasKey "sasl_password" = false ∧ document.hasKey "sasl_username" = false := by
  rw [rejectSecretKeysInToml]
  cases hparse : reader.parse text with
  | error error =>
    refine iff_of_false (fun h => by cases h) ?_
    rintro ⟨document, h, -⟩
    cases h
  | ok document =>
    have hfound : (["sasl_password", "sasl_username"].find? document.hasKey = none) ↔
        document.hasKey "sasl_password" = false ∧ document.hasKey "sasl_username" = false := by
      rw [List.find?_eq_none, List.forall_mem_cons, List.forall_mem_singleton,
        Bool.not_eq_true, Bool.not_eq_true]
    dsimp only
    constructor
    · intro h
      split at h
      · cases h
      · rename_i hnone
        exact ⟨document, rfl, hfound.mp hnone⟩
    · rintro ⟨found, h, hkeys⟩
      rw [← Except.ok.inj h] at hkeys
      split
      · rename_i key hkey
        have hnone := hkey.symm.trans (hfound.mpr hkeys)
        cases hnone
      · rfl

/-- **`from_toml` returns** what the document says over the defaults, if it has no credentials and
the result passes the check. -/
theorem fromToml_eq_ok {reader : TomlReader} {parser : UrlParser} {text : Text}
    {config : KafkaConfig} :
    fromToml reader parser text = .ok config ↔ ∃ document, reader.parse text = .ok document ∧
      document.hasKey "sasl_password" = false ∧ document.hasKey "sasl_username" = false ∧
      deserialize default document.entries = .ok config ∧ config.Checked parser := by
  have hmap : fromToml reader parser text = .ok config ↔
      loadToml reader parser text = .ok config := by
    rw [fromToml]
    cases loadToml reader parser text with
    | error failure => exact iff_of_false (fun h => by cases h) fun h => by cases h
    | ok config' =>
      exact ⟨fun h => congrArg _ (Except.ok.inj h), fun h => congrArg _ (Except.ok.inj h)⟩
  rw [hmap]
  constructor
  · intro h
    rw [loadToml] at h
    split at h
    · cases h
    · rename_i hpassed
      obtain ⟨document, hparse, hpassword, husername⟩ := rejectSecretKeys_eq_ok.mp hpassed
      rw [hparse] at h
      refine ⟨document, hparse, hpassword, husername, ?_⟩
      dsimp only at h
      split at h
      · cases h
      · rename_i config' hread
        split at h
        · cases h
        · rename_i hcheck
          rw [← Except.ok.inj h]
          exact ⟨hread, checked_of_check hcheck⟩
  · rintro ⟨document, hparse, hpassword, husername, hread, hchecked⟩
    have hpassed := rejectSecretKeys_eq_ok.mpr ⟨document, hparse, hpassword, husername⟩
    simp only [loadToml, hpassed, hparse, hread, check_of_checked hchecked]

/-- **The order** of the entries of a document makes no difference to `from_toml`, nor do their
places. -/
theorem fromToml_order (reader : TomlReader) (parser : UrlParser) {text text' : Text}
    {document document' : TomlDocument} (hparse : reader.parse text = .ok document)
    (hparse' : reader.parse text' = .ok document') (h : document.SameEntries document')
    (config : KafkaConfig) :
    fromToml reader parser text = .ok config ↔ fromToml reader parser text' = .ok config := by
  have hone : ∀ {text text' : Text} {document document' : TomlDocument},
      reader.parse text = .ok document → reader.parse text' = .ok document' →
      document.SameEntries document' → fromToml reader parser text = .ok config →
      fromToml reader parser text' = .ok config := by
    intro text text' document document' hparse hparse' h hread
    obtain ⟨found, hfound, hpassword, husername, hdeserialize, hchecked⟩ :=
      fromToml_eq_ok.mp hread
    obtain rfl := Except.ok.inj (hparse.symm.trans hfound)
    refine fromToml_eq_ok.mpr ⟨document', hparse', ?_, ?_, h.deserialize hdeserialize, hchecked⟩
    · exact (h.secret _).symm.trans hpassword
    · exact (h.secret _).symm.trans husername
  exact ⟨hone hparse hparse' h, hone hparse' hparse h.symm⟩

/-- Two lines, and their document. -/
def tlsFirst : Text × TomlDocument :=
  ("tls = true\nclient_id = \"orders\"\n".toList,
    ⟨[⟨"tls", (0, 3), .boolean true, (6, 10)⟩,
      ⟨"client_id", (11, 20), .string "orders".toList, (23, 31)⟩], by decide⟩)

/-- The same lines the other way round. -/
def clientIdFirst : Text × TomlDocument :=
  ("client_id = \"orders\"\ntls = true\n".toList,
    ⟨[⟨"client_id", (0, 9), .string "orders".toList, (12, 20)⟩,
      ⟨"tls", (21, 24), .boolean true, (27, 31)⟩], by decide⟩)

/-- A reader for the two texts. -/
def twoLineReader : TomlReader where
  parse text :=
    if text = tlsFirst.1 then .ok tlsFirst.2
    else if text = clientIdFirst.1 then .ok clientIdFirst.2
    else .error ⟨"expected key".toList, none⟩
  escaped c := c.toNat < 32

theorem fromToml_order_two_lines :
    fromToml twoLineReader plainParser clientIdFirst.1 =
      .ok { (default : KafkaConfig) with clientId := "orders", tls := true } := by
  have hfirst : twoLineReader.parse tlsFirst.1 = .ok tlsFirst.2 := by
    simp only [twoLineReader, if_true]
  have hother : clientIdFirst.1 ≠ tlsFirst.1 := by decide
  have hsecond : twoLineReader.parse clientIdFirst.1 = .ok clientIdFirst.2 := by
    simp only [twoLineReader, if_neg hother, if_true]
  have hsame : tlsFirst.2.SameEntries clientIdFirst.2 := List.Perm.swap _ _ []
  exact (fromToml_order twoLineReader plainParser hfirst hsecond hsame _).mp (by decide)

/-! ### What a document can say -/

/-- The seconds of a timeout fit the integers of a document. -/
structure KafkaConfig.TomlWritable (config : KafkaConfig) : Prop where
  deliveryTimeout : config.deliveryTimeout.secs ≤ 9223372036854775807
  connectTimeout : config.connectTimeout.secs ≤ 9223372036854775807
  operationTimeout : config.operationTimeout.secs ≤ 9223372036854775807

theorem toU64?_le {n : I64} {u : U64} (h : toU64? n = some u) : u.val ≤ 9223372036854775807 := by
  rw [toU64?] at h
  split_ifs at h with hn
  rw [← Option.some.inj h]
  have hle := n.le_hi
  show n.val.toNat ≤ 9223372036854775807
  omega

/-- The seconds, or the milliseconds. -/
def RawDuration.amount : RawDuration → U64
  | .table secs _ => secs
  | .millis n => n

theorem amount_le {value : TomlValue} {raw : RawDuration}
    (h : RawDuration.ofValue? value = some raw) : raw.amount.val ≤ 9223372036854775807 := by
  rw [RawDuration.ofValue?.eq_def] at h
  split at h
  · split at h
    · obtain ⟨secs, hsecs, rfl⟩ := Option.map_eq_some_iff.mp h
      exact toU64?_le hsecs
    · split at h
      · rename_i secs nanos hsecs hnanos
        rw [← Option.some.inj h]
        exact toU64?_le hsecs
      · cases h
    · cases h
  · obtain ⟨millis, hmillis, rfl⟩ := Option.map_eq_some_iff.mp h
    exact toU64?_le hmillis
  · cases h

/-- A timeout of a document is one with seconds of a document. -/
theorem secs_of_deDuration {value : TomlValue} {timeout : Duration}
    (h : deDuration value = .ok timeout) : timeout.secs ≤ 9223372036854775807 := by
  rw [deDuration] at h
  split at h
  · cases h
  · rename_i secs nanos hraw
    have hsecs : secs.val ≤ 9223372036854775807 := amount_le hraw
    split_ifs at h with hnanos
    rw [Duration.checkedOf] at h
    split_ifs at h
    rw [← Except.ok.inj h]
    show secs.val + nanos.val / 1000000000 ≤ 9223372036854775807
    omega
  · rename_i millis hraw
    have hmillis : millis.val ≤ 9223372036854775807 := amount_le hraw
    rw [← Except.ok.inj h]
    show millis.val / 1000 ≤ 9223372036854775807
    omega

theorem exists_entry_of_write {pairs : List (String × TomlValue)}
    {ws : List (Sigma ConfigField.Value)} (h : List.Forall₂ Reads pairs ws)
    {w : Sigma ConfigField.Value} (hw : w ∈ ws) : ∃ pair ∈ pairs, Reads pair w := by
  induction h with
  | nil => exact absurd hw List.not_mem_nil
  | cons hpair hrest ih =>
    rcases List.mem_cons.mp hw with rfl | hw
    · exact ⟨_, List.mem_cons_self, hpair⟩
    · obtain ⟨pair, hmem, hreads⟩ := ih hw
      exact ⟨pair, List.mem_cons_of_mem _ hmem, hreads⟩

/-- What was read into a field. -/
theorem get_of_reads {entries : List TomlEntry} {ws : List (Sigma ConfigField.Value)}
    (h : List.Forall₂ Reads (entries.map TomlEntry.pair) ws) (field : ConfigField) :
    ((assignAll KafkaConfig.set ws default).get field = (default : KafkaConfig).get field) ∨
    ∃ entry ∈ entries, entry.key = field.name ∧
      readField field entry.value = .ok fun config =>
        config.set field ((assignAll KafkaConfig.set ws default).get field) := by
  rw [view_assignAll KafkaConfig.configBundle]
  cases hlast : ws.reverse.dlookup field with
  | none => exact Or.inl rfl
  | some value =>
    right
    have hmem : (⟨field, value⟩ : Sigma ConfigField.Value) ∈ ws :=
      List.mem_reverse.mp (List.of_mem_dlookup hlast)
    obtain ⟨pair, hpair, hfield, hvalue⟩ := exists_entry_of_write h hmem
    obtain ⟨entry, hentry, rfl⟩ := List.mem_map.mp hpair
    exact ⟨entry, hentry, (name_of_ofKey hfield).symm, hvalue⟩

/-- The timeouts that are read have seconds of a document, and so have the defaults. -/
theorem tomlWritable_of_reads {entries : List TomlEntry} {ws : List (Sigma ConfigField.Value)}
    (h : List.Forall₂ Reads (entries.map TomlEntry.pair) ws) :
    (assignAll KafkaConfig.set ws default).TomlWritable := by
  have hfield : ∀ (part : KafkaConfig → Duration) (set : Duration → KafkaConfig → KafkaConfig)
      {value : TomlValue} {result : KafkaConfig}, (∀ d config, part (set d config) = d) →
      (deDuration value).map set = .ok (set (part result)) →
      (part result).secs ≤ 9223372036854775807 := by
    intro part set value result hset hread
    obtain ⟨d, hd, heq⟩ := map_eq_ok hread
    rw [← hset (part result) default, ← heq, hset]
    exact secs_of_deDuration hd
  refine ⟨?_, ?_, ?_⟩
  · rcases get_of_reads h .deliveryTimeout with hdefault | ⟨entry, -, -, hread⟩
    · exact le_of_eq_of_le (congrArg Duration.secs hdefault) (by decide)
    · exact hfield _ (fun d config => config.set .deliveryTimeout d) (fun _ _ => rfl) hread
  · rcases get_of_reads h .connectTimeout with hdefault | ⟨entry, -, -, hread⟩
    · exact le_of_eq_of_le (congrArg Duration.secs hdefault) (by decide)
    · exact hfield _ (fun d config => config.set .connectTimeout d) (fun _ _ => rfl) hread
  · rcases get_of_reads h .operationTimeout with hdefault | ⟨entry, -, -, hread⟩
    · exact le_of_eq_of_le (congrArg Duration.secs hdefault) (by decide)
    · exact hfield _ (fun d config => config.set .operationTimeout d) (fun _ _ => rfl) hread

theorem SaslChecked.mechanism_of_none {mechanism username password : Option String}
    (h : SaslChecked mechanism username password) (hnone : username = none) : mechanism = none := by
  cases h with
  | off => rfl
  | plain mechanism username password => cases hnone

theorem SaslChecked.credentials_of_none {mechanism username password : Option String}
    (h : SaslChecked mechanism username password) (hnone : mechanism = none) :
    username = none ∧ password = none := by
  cases h with
  | off => exact ⟨rfl, rfl⟩
  | plain mechanism username password => cases hnone

/-- Without a user name there is no SASL. -/
theorem mechanism_of_reads {parser : UrlParser} {document : TomlDocument}
    {ws : List (Sigma ConfigField.Value)}
    (h : List.Forall₂ Reads (document.entries.map TomlEntry.pair) ws)
    (husername : document.hasKey "sasl_username" = false)
    (hchecked : (assignAll KafkaConfig.set ws default).Checked parser) :
    (assignAll KafkaConfig.set ws default).saslMechanism = none := by
  have hnone : (assignAll KafkaConfig.set ws default).saslUsername = none := by
    rcases get_of_reads h .saslUsername with hdefault | ⟨entry, hentry, hkey, -⟩
    · exact hdefault
    · have hhas : document.hasKey "sasl_username" = true :=
        List.any_eq_true.mpr ⟨entry, hentry, beq_iff_eq.mpr hkey⟩
      exact absurd (husername.symm.trans hhas) (by decide)
  exact hchecked.sasl.mechanism_of_none hnone

/-- A timeout as seconds and nanoseconds. -/
def Duration.toTable (timeout : Duration) (h : timeout.secs ≤ 9223372036854775807) : TomlValue :=
  .table [("secs", some ⟨timeout.secs, by omega, by omega⟩),
    ("nanos", some ⟨timeout.nanos, by omega, by have := timeout.nanos_lt; omega⟩)]

theorem toU64?_natCast {n : ℕ} {hlo hhi} (h : n < 18446744073709551616) :
    toU64? ⟨n, hlo, hhi⟩ = some ⟨n, h⟩ := by
  rw [toU64?, dif_pos (Int.natCast_nonneg n)]
  rfl

theorem toU32?_natCast {n : ℕ} {hlo hhi} (h : n < 4294967296) :
    toU32? ⟨n, hlo, hhi⟩ = some ⟨n, h⟩ := by
  have hbound : (n : ℤ) < 4294967296 := by omega
  rw [toU32?, dif_pos ⟨Int.natCast_nonneg n, hbound⟩]
  rfl

/-- A table with both parts of a timeout. -/
theorem ofValue?_table {secs nanos : I64} {secs' : U64} {nanos' : U32}
    (hsecs : toU64? secs = some secs') (hnanos : toU32? nanos = some nanos') :
    RawDuration.ofValue? (.table [("secs", some secs), ("nanos", some nanos)]) =
      some (.table secs' nanos') := by
  have hkeys : ("nanos" == "secs") = false := by decide
  have hfirst : [("secs", some secs), ("nanos", some nanos)].lookup "secs" = some (some secs) := by
    rw [List.lookup_cons_self]
  have hsecond : [("secs", some secs), ("nanos", some nanos)].lookup "nanos" =
      some (some nanos) := by
    rw [List.lookup_cons, hkeys, List.lookup_cons_self]
  rw [RawDuration.ofValue?, hfirst, hsecond]
  simp only [hsecs, hnanos]

theorem checkedOf_self (timeout : Duration) :
    Duration.checkedOf timeout.secs timeout.nanos = some timeout := by
  have hdiv : timeout.nanos / 1000000000 = 0 := Nat.div_eq_of_lt timeout.nanos_lt
  have hmod : timeout.nanos % 1000000000 = timeout.nanos := Nat.mod_eq_of_lt timeout.nanos_lt
  have hsecs := timeout.secs_lt
  rw [Duration.checkedOf, dif_pos (by omega)]
  simp only [hdiv, hmod, Nat.add_zero]

/-- A timeout is read back. -/
theorem deDuration_toTable (timeout : Duration) (h : timeout.secs ≤ 9223372036854775807) :
    deDuration (timeout.toTable h) = .ok timeout := by
  have hnanos := timeout.nanos_lt
  rw [deDuration, Duration.toTable, ofValue?_table (toU64?_natCast timeout.secs_lt)
    (toU32?_natCast (show timeout.nanos < 4294967296 by omega))]
  simp only [checkedOf_self]
  exact if_neg (by omega)

/-- An entry, wherever it stands. -/
def fieldEntry (field : ConfigField) (value : TomlValue) : TomlEntry :=
  ⟨field.name, (0, 0), value, (0, 0)⟩

/-- The document of a configuration without SASL. -/
def KafkaConfig.document (config : KafkaConfig) (h : config.TomlWritable) : TomlDocument where
  entries :=
    [fieldEntry .brokers (.string config.brokers.toList),
      fieldEntry .clientId (.string config.clientId.toList),
      fieldEntry .tls (.boolean config.tls)] ++
    (config.tlsCaFile.map fun path => fieldEntry .tlsCaFile (.string path.toList)).toList ++
    [fieldEntry .deliveryTimeout (config.deliveryTimeout.toTable h.deliveryTimeout),
      fieldEntry .connectTimeout (config.connectTimeout.toTable h.connectTimeout),
      fieldEntry .operationTimeout (config.operationTimeout.toTable h.operationTimeout)]
  nodup := by
    cases config.tlsCaFile with
    | none =>
      show ["brokers", "client_id", "tls", "delivery_timeout", "connect_timeout",
        "operation_timeout"].Nodup
      decide
    | some path =>
      show ["brokers", "client_id", "tls", "tls_ca_file", "delivery_timeout", "connect_timeout",
        "operation_timeout"].Nodup
      decide

theorem reads_string (field : ConfigField) (set : String → KafkaConfig → KafkaConfig)
    {s : String} {w : field.Value}
    (hfield : ConfigField.ofKey field.name = some field)
    (hread : readField field (.string s.toList) = .ok (set (String.ofList s.toList)))
    (hset : ∀ config, set s config = config.set field w) :
    Reads (field.name, .string s.toList) ⟨field, w⟩ := by
  rw [String.ofList_toList, funext hset] at hread
  exact ⟨hfield, hread⟩

theorem reads_timeout (field : ConfigField) (set : Duration → KafkaConfig → KafkaConfig)
    {timeout : Duration} (h : timeout.secs ≤ 9223372036854775807) {w : field.Value}
    (hfield : ConfigField.ofKey field.name = some field)
    (hread : readField field (timeout.toTable h) = (deDuration (timeout.toTable h)).map set)
    (hset : ∀ config, set timeout config = config.set field w) :
    Reads (field.name, timeout.toTable h) ⟨field, w⟩ := by
  refine ⟨hfield, hread.trans ?_⟩
  rw [deDuration_toTable]
  exact congrArg Except.ok (funext hset)

/-- The canonical document is read as its configuration. -/
theorem deserialize_document {config : KafkaConfig} (h : config.TomlWritable)
    (hsasl : SaslChecked config.saslMechanism config.saslUsername config.saslPassword)
    (hnone : config.saslMechanism = none) :
    deserialize default (config.document h).entries = .ok config := by
  obtain ⟨brokers, clientId, mechanism, username, password, tls, caFile, delivery, connect,
    operation⟩ := config
  obtain rfl : mechanism = none := hnone
  have hbrokers : Reads (fieldEntry .brokers (.string brokers.toList)).pair
      ⟨.brokers, brokers⟩ :=
    reads_string .brokers (fun s config => { config with brokers := s }) rfl rfl fun _ => rfl
  have hclientId : Reads (fieldEntry .clientId (.string clientId.toList)).pair
      ⟨.clientId, clientId⟩ :=
    reads_string .clientId (fun s config => { config with clientId := s }) rfl rfl fun _ => rfl
  have htls : Reads (fieldEntry .tls (.boolean tls)).pair ⟨.tls, tls⟩ := ⟨rfl, rfl⟩
  have hdelivery : Reads (fieldEntry .deliveryTimeout (delivery.toTable h.deliveryTimeout)).pair
      ⟨.deliveryTimeout, delivery⟩ :=
    reads_timeout .deliveryTimeout (fun d config => { config with deliveryTimeout := d })
      h.deliveryTimeout rfl rfl fun _ => rfl
  have hconnect : Reads (fieldEntry .connectTimeout (connect.toTable h.connectTimeout)).pair
      ⟨.connectTimeout, connect⟩ :=
    reads_timeout .connectTimeout (fun d config => { config with connectTimeout := d })
      h.connectTimeout rfl rfl fun _ => rfl
  have hoperation : Reads
      (fieldEntry .operationTimeout (operation.toTable h.operationTimeout)).pair
      ⟨.operationTimeout, operation⟩ :=
    reads_timeout .operationTimeout (fun d config => { config with operationTimeout := d })
      h.operationTimeout rfl rfl fun _ => rfl
  obtain ⟨rfl, rfl⟩ := hsasl.credentials_of_none rfl
  cases caFile with
  | none =>
    exact deserialize_eq_ok.mpr ⟨_, .cons hbrokers (.cons hclientId (.cons htls (.cons hdelivery
      (.cons hconnect (.cons hoperation .nil))))), rfl⟩
  | some path =>
    have hpath : Reads (fieldEntry .tlsCaFile (.string path.toList)).pair
        ⟨.tlsCaFile, some path⟩ :=
      reads_string .tlsCaFile (fun s config => { config with tlsCaFile := some s }) rfl rfl
        fun _ => rfl
    exact deserialize_eq_ok.mpr ⟨_, .cons hbrokers (.cons hclientId (.cons htls (.cons hpath
      (.cons hdelivery (.cons hconnect (.cons hoperation .nil)))))), rfl⟩

/-- **What a document can say**: `from_toml` returns only checked configurations without SASL whose
timeouts have seconds of a document, and returns each of them for a text with the entries of its
canonical document, in any order. -/
theorem fromToml_range (reader : TomlReader) (parser : UrlParser) (text : Text)
    (config : KafkaConfig) :
    (fromToml reader parser text = .ok config →
      config.Checked parser ∧ config.saslMechanism = none ∧ config.TomlWritable) ∧
    (config.Checked parser → config.saslMechanism = none → ∀ h : config.TomlWritable,
      ∀ document, reader.parse text = .ok document → (config.document h).SameEntries document →
      fromToml reader parser text = .ok config) := by
  constructor
  · intro hread
    obtain ⟨document, -, -, husername, hdeserialize, hchecked⟩ := fromToml_eq_ok.mp hread
    obtain ⟨ws, hws, rfl⟩ := deserialize_eq_ok.mp hdeserialize
    exact ⟨hchecked, mechanism_of_reads hws husername hchecked, tomlWritable_of_reads hws⟩
  · intro hchecked hnone h document hparse hsame
    have hkeys : ∀ key, key = "sasl_password" ∨ key = "sasl_username" →
        (config.document h).hasKey key = false := by
      intro key hkey
      rw [TomlDocument.hasKey]
      simp only [KafkaConfig.document, List.any_append]
      rcases hkey with rfl | rfl <;> cases config.tlsCaFile <;> rfl
    refine fromToml_eq_ok.mpr ⟨document, hparse, ?_, ?_, ?_, hchecked⟩
    · exact (hsame.secret _).symm.trans (hkeys _ (Or.inl rfl))
    · exact (hsame.secret _).symm.trans (hkeys _ (Or.inr rfl))
    · exact hsame.deserialize (deserialize_document h hchecked.sasl hnone)

end Kafkax
