import Kafkax.Library.Registers
import Kafkax.OffsetStore
import Kafkax.Validate

/-!
# Reading a configuration from TOML

`from_toml` reads the text twice, first for the forbidden credential keys and then for the
configuration itself, and checks the result.  Each of the three stages has its own errors.  The
message of an error consists of a summary and, in the first two stages, the place: a line number
and a range of bytes.

The summary of a wrong type repeats a string that stands where it does not belong, and two checks
repeat what they refuse.  `same_message_iff` says for two texts that differ inside one string
exactly when the messages agree.
-/

namespace Kafkax

open BoundedIntegers DebugText LineText Registers

/-! ### The documents of the TOML reader -/

/-- A range of bytes. -/
abbrev Span := ℕ × ℕ

/-- `toml::de::Error`: its `message` and its `span`. -/
structure TomlError where
  message : Text
  span : Option Span
deriving DecidableEq

/-- A value at a key of the document.  Only the integers of a nested table are looked at. -/
inductive TomlValue where
  | string (value : Text)
  | integer (value : I64)
  | float (text : Text)
  | boolean (value : Bool)
  | datetime
  | array
  | table (fields : List (String × Option I64))
deriving DecidableEq

/-- A key with its value, and where they stand. -/
structure TomlEntry where
  key : String
  keySpan : Span
  value : TomlValue
  valueSpan : Span
deriving DecidableEq

/-- A document: its root is a table, in which no key stands twice. -/
structure TomlDocument where
  entries : List TomlEntry
  nodup : (entries.map TomlEntry.key).Nodup
deriving DecidableEq

/-- `toml::from_str` up to the types, and the characters that `Debug` does not print. -/
structure TomlReader where
  parse : Text → Except TomlError TomlDocument
  escaped : Char → Bool

/-- `text.get(..n)`: the first `n` bytes, if that is where a character ends. -/
def takeBytes : ℕ → Text → Option Text
  | 0, _ => some []
  | _ + 1, [] => none
  | n + 1, c :: cs =>
    if c.utf8Size ≤ n + 1 then (takeBytes (n + 1 - c.utf8Size) cs).map (c :: ·) else none

/-- The number of the line at a position. -/
def lineAt (text : Text) (start : ℕ) : ℕ :=
  match takeBytes start text with
  | some head => head.count '\n' + 1
  | none => 1

/-- `toml_error_summary` -/
def tomlErrorSummary (text : Text) (error : TomlError) : Text :=
  match error.span with
  | none => error.message
  | some (start, stop) =>
    error.message ++ ("（第 ".toList ++ (Nat.toDigits 10 (lineAt text start) ++
      (" 行，字节区间 ".toList ++ Nat.toDigits 10 start ++ "..".toList ++ Nat.toDigits 10 stop ++
        "）".toList)))

/-! ### The types of the fields -/

/-- The fields of `KafkaConfig`. -/
inductive ConfigField where
  | brokers
  | clientId
  | saslMechanism
  | saslUsername
  | saslPassword
  | tls
  | tlsCaFile
  | deliveryTimeout
  | connectTimeout
  | operationTimeout
deriving DecidableEq

/-- The name of a field. -/
def ConfigField.name : ConfigField → String
  | .brokers => "brokers"
  | .clientId => "client_id"
  | .saslMechanism => "sasl_mechanism"
  | .saslUsername => "sasl_username"
  | .saslPassword => "sasl_password"
  | .tls => "tls"
  | .tlsCaFile => "tls_ca_file"
  | .deliveryTimeout => "delivery_timeout"
  | .connectTimeout => "connect_timeout"
  | .operationTimeout => "operation_timeout"

/-- The fields in the order of the structure. -/
def configFields : List ConfigField :=
  [.brokers, .clientId, .saslMechanism, .saslUsername, .saslPassword, .tls, .tlsCaFile,
    .deliveryTimeout, .connectTimeout, .operationTimeout]

/-- The field of a key. -/
def ConfigField.ofKey (key : String) : Option ConfigField :=
  configFields.find? fun field => field.name == key

/-- What is wrong with a key or a value. -/
inductive TypedFailure where
  | unknownField (key : String)
  | invalidType (unexpected : TomlValue) (expected : String)
  /-- Neither variant of `RawDuration` fits. -/
  | noVariant
  | nanosRange
  | durationOverflow
deriving DecidableEq

/-- A value in the message of a wrong type. -/
def TomlValue.unexpected (escaped : Char → Bool) : TomlValue → Text
  | .string value => "string ".toList ++ debugStr escaped value
  | .integer value => "integer `".toList ++ toDecimal value.val ++ ['\x60']
  | .float text => "floating point `".toList ++ text ++ ['\x60']
  | .boolean value => "boolean `".toList ++ (if value then "true" else "false").toList ++ ['\x60']
  | .datetime | .table _ => "map".toList
  | .array => "sequence".toList

/-- The summary of a failure. -/
def TypedFailure.message (escaped : Char → Bool) : TypedFailure → Text
  | .unknownField key =>
    "unknown field `".toList ++ key.toList ++ "`, expected one of ".toList ++
      ", ".toList.intercalate
        (configFields.map fun field => '\x60' :: (field.name.toList ++ ['\x60']))
  | .invalidType unexpected expected =>
    "invalid type: ".toList ++ unexpected.unexpected escaped ++ ", expected ".toList ++
      expected.toList
  | .noVariant => "data did not match any variant of untagged enum RawDuration".toList
  | .nanosRange => "nanos 必须在 0..=999999999 之间".toList
  | .durationOverflow => "时长超出 Duration 表示范围".toList

/-- The text of a string value. -/
def TomlValue.string? : TomlValue → Option Text
  | .string value => some value
  | _ => none

/-- `String` -/
def TomlValue.asString (expected : String) : TomlValue → Except TypedFailure String
  | .string value => .ok (String.ofList value)
  | value => .error (.invalidType value expected)

/-- `bool` -/
def TomlValue.asBool : TomlValue → Except TypedFailure Bool
  | .boolean value => .ok value
  | value => .error (.invalidType value "a boolean")

/-- `u64` -/
abbrev U64 := Fin 18446744073709551616

/-- `u32` -/
abbrev U32 := Fin 4294967296

/-- `RawDuration` -/
inductive RawDuration where
  | table (secs : U64) (nanos : U32)
  | millis (millis : U64)

/-- An integer of the document as `u64`. -/
def toU64? (n : I64) : Option U64 :=
  if h : 0 ≤ n.val then
    some ⟨n.val.toNat, by have := n.le_hi; omega⟩
  else none

/-- An integer of the document as `u32`. -/
def toU32? (n : I64) : Option U32 :=
  if h : 0 ≤ n.val ∧ n.val < 4294967296 then some ⟨n.val.toNat, by omega⟩ else none

/-- The untagged variants of `RawDuration`, in order. -/
def RawDuration.ofValue? : TomlValue → Option RawDuration
  | .table fields =>
    match fields.lookup "secs", fields.lookup "nanos" with
    | some (some secs), none => (toU64? secs).map fun secs => .table secs 0
    | some (some secs), some (some nanos) =>
      match toU64? secs, toU32? nanos with
      | some secs, some nanos => some (.table secs nanos)
      | _, _ => none
    | _, _ => none
  | .integer n => (toU64? n).map .millis
  | _ => none

/-- `Duration::from_secs(secs).checked_add(Duration::from_nanos(nanos))` -/
def Duration.checkedOf (secs nanos : ℕ) : Option Duration :=
  if h : secs + nanos / 1000000000 < 18446744073709551616 then
    some ⟨secs + nanos / 1000000000, nanos % 1000000000, h, Nat.mod_lt _ (by decide)⟩
  else none

/-- `Duration::from_millis` -/
def Duration.fromMillis (millis : U64) : Duration :=
  ⟨millis.val / 1000, millis.val % 1000 * 1000000, by have := millis.isLt; omega, by omega⟩

/-- `de_duration` -/
def deDuration (value : TomlValue) : Except TypedFailure Duration :=
  match RawDuration.ofValue? value with
  | none => .error .noVariant
  | some (.table secs nanos) =>
    if 999999999 < nanos.val then .error .nanosRange
    else
      match Duration.checkedOf secs.val nanos.val with
      | some duration => .ok duration
      | none => .error .durationOverflow
  | some (.millis millis) => .ok (.fromMillis millis)

/-- The value of a field, as an update of the configuration. -/
def readField (field : ConfigField) (value : TomlValue) :
    Except TypedFailure (KafkaConfig → KafkaConfig) :=
  match field with
  | .brokers => (value.asString "a string").map fun s config => { config with brokers := s }
  | .clientId => (value.asString "a string").map fun s config => { config with clientId := s }
  | .saslMechanism =>
    (value.asString "a string").map fun s config => { config with saslMechanism := some s }
  | .saslUsername =>
    (value.asString "a string").map fun s config => { config with saslUsername := some s }
  | .saslPassword =>
    (value.asString "a string").map fun s config => { config with saslPassword := some s }
  | .tls => value.asBool.map fun b config => { config with tls := b }
  | .tlsCaFile =>
    (value.asString "path string").map fun s config => { config with tlsCaFile := some s }
  | .deliveryTimeout => (deDuration value).map fun d config => { config with deliveryTimeout := d }
  | .connectTimeout => (deDuration value).map fun d config => { config with connectTimeout := d }
  | .operationTimeout =>
    (deDuration value).map fun d config => { config with operationTimeout := d }

/-- A key with its value; a failure comes with its place. -/
def readEntry (entry : TomlEntry) : Except (TypedFailure × Span) (KafkaConfig → KafkaConfig) :=
  match ConfigField.ofKey entry.key with
  | none => .error (.unknownField entry.key, entry.keySpan)
  | some field =>
    match readField field entry.value with
    | .error failure => .error (failure, entry.valueSpan)
    | .ok update => .ok update

/-- `Deserialize for KafkaConfig`: the defaults, updated by the entries in order. -/
def deserialize (config : KafkaConfig) : List TomlEntry → Except (TypedFailure × Span) KafkaConfig
  | [] => .ok config
  | entry :: rest =>
    match readEntry entry with
    | .error failure => .error failure
    | .ok update => deserialize (update config) rest

/-! ### from_toml -/

/-- Why `from_toml` fails. -/
inductive FromTomlFailure where
  /-- The first reading fails. -/
  | unparsable (error : TomlError)
  | secretKey (key : String)
  /-- The second reading fails before the types. -/
  | unreadable (error : TomlError)
  | illTyped (failure : TypedFailure) (span : Span)
  | invalid (fault : ConfigFault)
deriving DecidableEq

/-- The message of a failure. -/
def FromTomlFailure.message (reader : TomlReader) (text : Text) : FromTomlFailure → Text
  | .unparsable error => "TOML 解析失败: ".toList ++ tomlErrorSummary text error
  | .secretKey key => "TOML 禁止字段 ".toList ++ key.toList
  | .unreadable error => "TOML 配置非法: ".toList ++ tomlErrorSummary text error
  | .illTyped failure span =>
    "TOML 配置非法: ".toList ++
      tomlErrorSummary text ⟨failure.message reader.escaped, some span⟩
  | .invalid fault => fault.message.toList

/-- `reject_secret_keys_in_toml` -/
def rejectSecretKeysInToml (reader : TomlReader) (text : Text) : Except FromTomlFailure Unit :=
  match reader.parse text with
  | .error error => .error (.unparsable error)
  | .ok document =>
    match ["sasl_password", "sasl_username"].find? fun key =>
      document.entries.any fun entry => entry.key == key with
    | some key => .error (.secretKey key)
    | none => .ok ()

/-- The stages of `from_toml`. -/
def loadToml (reader : TomlReader) (parser : UrlParser) (text : Text) :
    Except FromTomlFailure KafkaConfig :=
  match rejectSecretKeysInToml reader text with
  | .error failure => .error failure
  | .ok () =>
    match reader.parse text with
    | .error error => .error (.unreadable error)
    | .ok document =>
      match deserialize default document.entries with
      | .error (failure, span) => .error (.illTyped failure span)
      | .ok config =>
        match config.check parser with
        | .error fault => .error (.invalid fault)
        | .ok () => .ok config

/-- `from_toml` -/
def fromToml (reader : TomlReader) (parser : UrlParser) (text : Text) : KafkaResult KafkaConfig :=
  (loadToml reader parser text).mapError fun failure =>
    .config (String.ofList (failure.message reader text))

/-! ### Texts that differ inside one string -/

/-- Documents that are equal up to the text of at most one string. -/
inductive TomlDocument.DifferInString : TomlDocument → TomlDocument → Prop where
  | same (document : TomlDocument) : DifferInString document document
  | at (front back : List TomlEntry) (entry : TomlEntry) (text text' : Text) (h h')
      (hentry : entry.value = .string text) :
      DifferInString ⟨front ++ entry :: back, h⟩
        ⟨front ++ { entry with value := .string text' } :: back, h'⟩

/-- The number of bytes of a text. -/
def byteLength (s : Text) : ℕ := (s.map Char.utf8Size).sum

/-- Texts that differ only in the characters inside one quoted string, of the same length. -/
structure DifferInString (reader : TomlReader) (text text' : Text) : Prop where
  texts : ∃ before value value' after, text = before ++ value ++ after ∧
    text' = before ++ value' ++ after ∧ byteLength value = byteLength value'
  documents : ∀ document document', reader.parse text = .ok document →
    reader.parse text' = .ok document' → document.DifferInString document'

/-- Two failures of the same kind at the types: the same key is unknown, the same type is expected,
the same rule of a duration is broken. -/
inductive TypedFailure.SameKind : TypedFailure → TypedFailure → Prop where
  | same (failure : TypedFailure) : SameKind failure failure
  | invalidType (unexpected unexpected' : TomlValue) (expected : String) :
      SameKind (.invalidType unexpected expected) (.invalidType unexpected' expected)

/-- Two failures at the same check. -/
inductive ConfigFault.SameCheck : ConfigFault → ConfigFault → Prop where
  | same (fault : ConfigFault) : SameCheck fault fault
  | remotePlaintext (host host' : Text) : SameCheck (.remotePlaintext host) (.remotePlaintext host')
  | unsupportedMechanism (mechanism mechanism' : String) :
      SameCheck (.unsupportedMechanism mechanism) (.unsupportedMechanism mechanism')

/-- Two failures for the same reason. -/
inductive SameReason : FromTomlFailure → FromTomlFailure → Prop where
  | unparsable (error : TomlError) : SameReason (.unparsable error) (.unparsable error)
  | secretKey (key : String) : SameReason (.secretKey key) (.secretKey key)
  | unreadable (error : TomlError) : SameReason (.unreadable error) (.unreadable error)
  | illTyped (failure failure' : TypedFailure) (span span' : Span) (h : failure.SameKind failure') :
      SameReason (.illTyped failure span) (.illTyped failure' span')
  | invalid (fault fault' : ConfigFault) (h : fault.SameCheck fault') :
      SameReason (.invalid fault) (.invalid fault')

/-! ### What a message repeats -/

/-- The string at a key of a document. -/
def TomlDocument.string? (document : TomlDocument) (key : String) : Option Text :=
  (document.entries.find? fun entry => entry.key == key).bind fun entry => entry.value.string?

/-- The string at a key of a text. -/
def stringAt (reader : TomlReader) (text : Text) (key : String) : Option Text :=
  match reader.parse text with
  | .ok document => document.string? key
  | .error _ => none

/-- The brokers that a text asks for. -/
def brokersAt (reader : TomlReader) (text : Text) : String :=
  ((stringAt reader text "brokers").map String.ofList).getD defaultBrokers

/-- The host of the first entry that is not this machine. -/
def firstRemote (parser : UrlParser) (brokers : String) : Option Text :=
  (brokerEntries brokers).findSome? fun entry =>
    match brokerHost parser entry with
    | .ok host => if hostIsLoopback host then none else some host
    | .error _ => none

/-- What the message of a failure repeats of the text is the same in both texts: the number of the
line, the string in the place of a truth value, the host of a remote broker, the mechanism. -/
def SameEcho (reader : TomlReader) (parser : UrlParser) (text text' : Text) :
    FromTomlFailure → Prop
  | .unparsable error | .unreadable error =>
    ∀ span, error.span = some span → lineAt text span.1 = lineAt text' span.1
  | .secretKey _ => True
  | .illTyped failure span =>
    lineAt text span.1 = lineAt text' span.1 ∧
      ((∃ value expected, failure = .invalidType (.string value) expected) →
        stringAt reader text "tls" = stringAt reader text' "tls")
  | .invalid (.remotePlaintext _) =>
    firstRemote parser (brokersAt reader text) = firstRemote parser (brokersAt reader text')
  | .invalid (.unsupportedMechanism _) =>
    stringAt reader text "sasl_mechanism" = stringAt reader text' "sasl_mechanism"
  | .invalid _ => True

/-! ### The number of a line -/

theorem byteLength_append (s t : Text) : byteLength (s ++ t) = byteLength s + byteLength t := by
  rw [byteLength, byteLength, byteLength, List.map_append, List.sum_append]

/-- What is cut off in front does not depend on what follows. -/
theorem takeBytes_append_of_le {s : Text} {n : ℕ} (h : n ≤ byteLength s) (t t' : Text) :
    takeBytes n (s ++ t) = takeBytes n (s ++ t') := by
  induction s generalizing n with
  | nil =>
    have hn : n = 0 := Nat.le_zero.mp h
    rw [hn, takeBytes, takeBytes]
  | cons c s ih =>
    have hsize : n ≤ c.utf8Size + byteLength s := h
    cases n with
    | zero => rfl
    | succ n =>
      show takeBytes (n + 1) (c :: (s ++ t)) = takeBytes (n + 1) (c :: (s ++ t'))
      rw [takeBytes, takeBytes, ih (by omega)]

theorem takeBytes_append_add (s t : Text) (n : ℕ) :
    takeBytes (byteLength s + n) (s ++ t) = (takeBytes n t).map (s ++ ·) := by
  induction s with
  | nil =>
    have hn : byteLength [] + n = n := Nat.zero_add n
    rw [hn, List.nil_append]
    cases takeBytes n t <;> rfl
  | cons c s ih =>
    have hpos : 0 < c.utf8Size := Char.utf8Size_pos c
    have hsize : byteLength (c :: s) = c.utf8Size + byteLength s := rfl
    obtain ⟨m, hm⟩ : ∃ m, byteLength (c :: s) + n = m + 1 :=
      Nat.exists_eq_add_one.mpr (by omega)
    have hrest : m + 1 - c.utf8Size = byteLength s + n := by omega
    rw [hm, List.cons_append, takeBytes, if_pos (by omega), hrest, ih]
    cases takeBytes n t <;> rfl

/-- Outside of the string the lines keep their numbers, if the string keeps its line feeds. -/
theorem lineAt_changed {before value value' after : Text} {start : ℕ}
    (hlength : byteLength value = byteLength value')
    (hfeeds : value.count '\n' = value'.count '\n')
    (houtside : start ≤ byteLength before ∨ byteLength (before ++ value) ≤ start) :
    lineAt (before ++ value ++ after) start = lineAt (before ++ value' ++ after) start := by
  rw [lineAt, lineAt]
  rcases houtside with hbefore | hafter
  · rw [List.append_assoc, List.append_assoc,
      takeBytes_append_of_le hbefore (value ++ after) (value' ++ after)]
  · obtain ⟨n, rfl⟩ := Nat.exists_eq_add_of_le hafter
    have hboth : byteLength (before ++ value) = byteLength (before ++ value') := by
      rw [byteLength_append, byteLength_append, hlength]
    rw [takeBytes_append_add, hboth, takeBytes_append_add]
    cases takeBytes n after with
    | none => rfl
    | some head => simp only [Option.map_some, List.count_append, hfeeds]

/-! ### Reading the entries -/

theorem deserialize_append (config : KafkaConfig) (front back : List TomlEntry) :
    deserialize config (front ++ back) =
      match deserialize config front with
      | .error failure => .error failure
      | .ok config => deserialize config back := by
  induction front generalizing config with
  | nil => rfl
  | cons entry rest ih =>
    show deserialize config (entry :: (rest ++ back)) = _
    rw [deserialize, deserialize]
    cases readEntry entry with
    | error failure => rfl
    | ok update => exact ih (update config)

/-- The failures do not depend on what was read before. -/
theorem deserialize_error_congr {config : KafkaConfig} (config' : KafkaConfig)
    {entries : List TomlEntry} {failure : TypedFailure × Span}
    (h : deserialize config entries = .error failure) :
    deserialize config' entries = .error failure := by
  induction entries generalizing config config' with
  | nil => exact absurd h (by simp [deserialize])
  | cons entry rest ih =>
    rw [deserialize] at h ⊢
    cases hentry : readEntry entry with
    | error f =>
      rw [hentry] at h
      exact h
    | ok update =>
      rw [hentry] at h
      exact ih (update config') h

/-- A field that fails on one string fails on every other, and repeats it only as a truth value. -/
theorem readField_string {field : ConfigField} {text : Text} {failure : TypedFailure}
    (h : readField field (.string text) = .error failure) (text' : Text) :
    readField field (.string text') = .error failure ∨
      field = .tls ∧ failure = .invalidType (.string text) "a boolean" ∧
        readField field (.string text') = .error (.invalidType (.string text') "a boolean") := by
  cases field with
  | tls => exact Or.inr ⟨rfl, (Except.error.inj h).symm, rfl⟩
  | deliveryTimeout => exact Or.inl h
  | connectTimeout => exact Or.inl h
  | operationTimeout => exact Or.inl h
  | _ => exact absurd h (by simp [readField, TomlValue.asString, Except.map])

theorem deDuration_ne_invalidType {value unexpected : TomlValue} {expected : String} :
    deDuration value ≠ .error (.invalidType unexpected expected) := by
  intro h
  rw [deDuration] at h
  split at h
  · exact absurd h (by simp)
  · split at h
    · exact absurd h (by simp)
    · split at h
      · exact absurd h (by simp)
      · exact absurd h (by simp)
  · exact absurd h (by simp)

theorem asString_ne_invalidType {value : TomlValue} {text : Text} {expected other : String} :
    value.asString other ≠ .error (.invalidType (.string text) expected) := by
  cases value <;> simp [TomlValue.asString]

theorem map_eq_error {ε α β : Type} {x : Except ε α} {f : α → β} {e : ε}
    (h : x.map f = .error e) : x = .error e := by
  cases x with
  | error found => exact congrArg _ (Except.error.inj h)
  | ok a => exact absurd h (by simp [Except.map])

/-- A string is repeated only where a truth value is expected. -/
theorem readField_invalidType_string {field : ConfigField} {value : TomlValue} {text : Text}
    {expected : String}
    (h : readField field value = .error (.invalidType (.string text) expected)) :
    field = .tls ∧ value = .string text := by
  cases field with
  | tls =>
    refine ⟨rfl, ?_⟩
    have hbool : value.asBool = .error (.invalidType (.string text) expected) := map_eq_error h
    cases value with
    | boolean b => exact absurd hbool (by simp [TomlValue.asBool])
    | _ => exact (TypedFailure.invalidType.inj (Except.error.inj hbool)).1
  | deliveryTimeout => exact absurd (map_eq_error h) deDuration_ne_invalidType
  | connectTimeout => exact absurd (map_eq_error h) deDuration_ne_invalidType
  | operationTimeout => exact absurd (map_eq_error h) deDuration_ne_invalidType
  | _ => exact absurd (map_eq_error h) asString_ne_invalidType

theorem name_of_ofKey {key : String} {field : ConfigField}
    (h : ConfigField.ofKey key = some field) :
    field.name = key := by
  have hname := List.find?_some h
  simpa using hname

/-- A failed entry: the field is unknown, or its value is not one. -/
theorem readEntry_eq_error {entry : TomlEntry} {failure : TypedFailure} {span : Span}
    (h : readEntry entry = .error (failure, span)) :
    (ConfigField.ofKey entry.key = none ∧ failure = .unknownField entry.key ∧
      span = entry.keySpan) ∨
    ∃ field, ConfigField.ofKey entry.key = some field ∧
      readField field entry.value = .error failure ∧ span = entry.valueSpan := by
  rw [readEntry] at h
  cases hfield : ConfigField.ofKey entry.key with
  | none =>
    rw [hfield] at h
    obtain ⟨hfailure, hspan⟩ := Prod.mk.inj (Except.error.inj h)
    exact Or.inl ⟨rfl, hfailure.symm, hspan.symm⟩
  | some field =>
    rw [hfield] at h
    refine Or.inr ⟨field, rfl, ?_⟩
    cases hread : readField field entry.value with
    | ok update =>
      simp only [hread] at h
      exact absurd h (by simp)
    | error found =>
      simp only [hread] at h
      obtain ⟨hfailure, hspan⟩ := Prod.mk.inj (Except.error.inj h)
      exact ⟨congrArg _ hfailure, hspan.symm⟩

/-- A read entry has set its field. -/
theorem readEntry_eq_ok {entry : TomlEntry} {update : KafkaConfig → KafkaConfig}
    (h : readEntry entry = .ok update) :
    ∃ field, ConfigField.ofKey entry.key = some field ∧
      readField field entry.value = .ok update := by
  rw [readEntry] at h
  cases hfield : ConfigField.ofKey entry.key with
  | none =>
    rw [hfield] at h
    exact absurd h (by simp)
  | some field =>
    rw [hfield] at h
    refine ⟨field, rfl, ?_⟩
    cases hread : readField field entry.value with
    | error found =>
      simp only [hread] at h
      exact absurd h (by simp)
    | ok other =>
      simp only [hread] at h
      exact congrArg _ (Except.ok.inj h)

/-- An entry that fails on one string fails on every other at the same place. -/
theorem readEntry_string {entry : TomlEntry} {text : Text} (hentry : entry.value = .string text)
    {failure : TypedFailure} {span : Span} (h : readEntry entry = .error (failure, span))
    (text' : Text) :
    readEntry { entry with value := .string text' } = .error (failure, span) ∨
      entry.key = "tls" ∧ failure = .invalidType (.string text) "a boolean" ∧
        readEntry { entry with value := .string text' } =
          .error (.invalidType (.string text') "a boolean", span) := by
  rcases readEntry_eq_error h with ⟨hfield, rfl, rfl⟩ | ⟨field, hfield, hread, rfl⟩
  · left
    rw [readEntry, hfield]
  · rw [hentry] at hread
    rcases readField_string hread text' with hsame | ⟨htls, hold, hnew⟩
    · left
      simp only [readEntry, hfield, hsame]
    · right
      refine ⟨?_, hold, ?_⟩
      · rw [← name_of_ofKey hfield, htls]
        rfl
      · simp only [readEntry, hfield, hnew]

/-- **Two documents that differ in one string** fail at the types at the same place, and for the
same failure unless the string stands for a truth value. -/
theorem deserialize_changed {config : KafkaConfig} {front back : List TomlEntry} {entry : TomlEntry}
    {text text' : Text} (hentry : entry.value = .string text) {failure failure' : TypedFailure}
    {span span' : Span} (h : deserialize config (front ++ entry :: back) = .error (failure, span))
    (h' : deserialize config (front ++ { entry with value := .string text' } :: back) =
      .error (failure', span')) :
    span = span' ∧ (failure = failure' ∨ entry.key = "tls" ∧
      failure = .invalidType (.string text) "a boolean" ∧
      failure' = .invalidType (.string text') "a boolean") := by
  rw [deserialize_append] at h h'
  cases hfront : deserialize config front with
  | error e =>
    rw [hfront] at h h'
    have hboth := Prod.mk.inj (Except.error.inj (h.symm.trans h'))
    exact ⟨hboth.2, Or.inl hboth.1⟩
  | ok middle =>
    simp only [hfront, deserialize] at h h'
    cases hread : readEntry entry with
    | error e =>
      obtain ⟨f, sp⟩ := e
      simp only [hread] at h
      obtain ⟨hf, hsp⟩ := Prod.mk.inj (Except.error.inj h)
      rcases readEntry_string hentry hread text' with hsame | ⟨hkey, hold, hnew⟩
      · simp only [hsame] at h'
        obtain ⟨hf', hsp'⟩ := Prod.mk.inj (Except.error.inj h')
        exact ⟨hsp.symm.trans hsp', Or.inl (hf.symm.trans hf')⟩
      · simp only [hnew] at h'
        obtain ⟨hf', hsp'⟩ := Prod.mk.inj (Except.error.inj h')
        exact ⟨hsp.symm.trans hsp', Or.inr ⟨hkey, hf.symm.trans hold, hf'.symm⟩⟩
    | ok update =>
      simp only [hread] at h
      cases hread' : readEntry { entry with value := .string text' } with
      | error e =>
        obtain ⟨f, sp⟩ := e
        have hback : { entry with value := .string text } = entry := by rw [← hentry]
        have hold := readEntry_string rfl hread' text
        simp only [hback, hread] at hold
        exact absurd hold (by simp)
      | ok update' =>
        simp only [hread'] at h'
        have hboth := Prod.mk.inj
          (Except.error.inj ((deserialize_error_congr (update' middle) h).symm.trans h'))
        exact ⟨hboth.2, Or.inl hboth.1⟩

/-! ### What was read -/

theorem find?_key {entries : List TomlEntry} (hnodup : (entries.map TomlEntry.key).Nodup)
    {entry : TomlEntry} (hentry : entry ∈ entries) :
    (entries.find? fun e => e.key == entry.key) = some entry := by
  induction entries with
  | nil => exact absurd hentry List.not_mem_nil
  | cons first rest ih =>
    rw [List.map_cons, List.nodup_cons] at hnodup
    rcases List.mem_cons.mp hentry with rfl | hentry
    · exact List.find?_cons_of_pos BEq.rfl
    · have hne : (first.key == entry.key) = false := by
        rw [beq_eq_false_iff_ne]
        exact fun heq => hnodup.1 (heq ▸ List.mem_map_of_mem hentry)
      rw [List.find?_cons, hne]
      exact ih hnodup.2 hentry

theorem TomlDocument.string?_of_mem (document : TomlDocument) {entry : TomlEntry}
    (hentry : entry ∈ document.entries) : document.string? entry.key = entry.value.string? := by
  rw [TomlDocument.string?, find?_key document.nodup hentry]
  rfl

theorem TomlDocument.string?_of_not_mem (document : TomlDocument) {key : String}
    (hkey : key ∉ document.entries.map TomlEntry.key) : document.string? key = none := by
  have hnone : (document.entries.find? fun entry => entry.key == key) = none := by
    rw [List.find?_eq_none]
    intro entry hentry heq
    rw [beq_iff_eq] at heq
    exact hkey (heq ▸ List.mem_map_of_mem hentry)
  rw [TomlDocument.string?, hnone]
  rfl

theorem map_eq_ok {ε α β : Type} {x : Except ε α} {f : α → β} {b : β} (h : x.map f = .ok b) :
    ∃ a, x = .ok a ∧ f a = b := by
  cases x with
  | error e => exact absurd h (by simp [Except.map])
  | ok a => exact ⟨a, rfl, Except.ok.inj h⟩

theorem asString_eq_ok {value : TomlValue} {expected s : String}
    (h : value.asString expected = .ok s) : value.string? = some s.toList := by
  cases value with
  | string text =>
    rw [← Except.ok.inj h, String.toList_ofList]
    rfl
  | _ => exact absurd h (by simp [TomlValue.asString])

/-- A failure at a value of a document is at one of its entries. -/
theorem exists_entry_of_error {config : KafkaConfig} {entries : List TomlEntry}
    {failure : TypedFailure × Span} (h : deserialize config entries = .error failure) :
    ∃ entry ∈ entries, readEntry entry = .error failure := by
  induction entries generalizing config with
  | nil => exact absurd h (by simp [deserialize])
  | cons entry rest ih =>
    rw [deserialize] at h
    cases hread : readEntry entry with
    | error f =>
      rw [hread] at h
      have hf : f = failure := Except.error.inj h
      exact ⟨entry, List.mem_cons_self, hf ▸ hread⟩
    | ok update =>
      rw [hread] at h
      obtain ⟨other, hother, hfailure⟩ := ih h
      exact ⟨other, List.mem_cons_of_mem _ hother, hfailure⟩

/-- The string that a wrong type repeats is the one at `tls`. -/
theorem string?_tls_of_error {config : KafkaConfig} (document : TomlDocument) {text : Text}
    {expected : String} {span : Span}
    (h : deserialize config document.entries =
      .error (.invalidType (.string text) expected, span)) :
    document.string? "tls" = some text := by
  obtain ⟨entry, hentry, hfailed⟩ := exists_entry_of_error h
  rcases readEntry_eq_error hfailed with ⟨-, hunknown, -⟩ | ⟨field, hfield, hread, -⟩
  · exact absurd hunknown (by simp)
  · obtain ⟨htls, hstring⟩ := readField_invalidType_string hread
    have hkey : entry.key = "tls" := by
      rw [← name_of_ofKey hfield, htls]
      rfl
    rw [← hkey, document.string?_of_mem hentry, hstring]
    rfl

/-! ### The fields as registers -/

/-- The type of a field. -/
abbrev ConfigField.Value : ConfigField → Type
  | .brokers | .clientId => String
  | .saslMechanism | .saslUsername | .saslPassword => Option String
  | .tls => Bool
  | .tlsCaFile => Option PathBuf
  | .deliveryTimeout | .connectTimeout | .operationTimeout => Duration

namespace KafkaConfig

/-- A field of a configuration. -/
def get (self : KafkaConfig) : (field : ConfigField) → field.Value
  | .brokers => self.brokers
  | .clientId => self.clientId
  | .saslMechanism => self.saslMechanism
  | .saslUsername => self.saslUsername
  | .saslPassword => self.saslPassword
  | .tls => self.tls
  | .tlsCaFile => self.tlsCaFile
  | .deliveryTimeout => self.deliveryTimeout
  | .connectTimeout => self.connectTimeout
  | .operationTimeout => self.operationTimeout

/-- A configuration with another value in a field. -/
def set (self : KafkaConfig) : (field : ConfigField) → field.Value → KafkaConfig
  | .brokers, value => { self with brokers := value }
  | .clientId, value => { self with clientId := value }
  | .saslMechanism, value => { self with saslMechanism := value }
  | .saslUsername, value => { self with saslUsername := value }
  | .saslPassword, value => { self with saslPassword := value }
  | .tls, value => { self with tls := value }
  | .tlsCaFile, value => { self with tlsCaFile := value }
  | .deliveryTimeout, value => { self with deliveryTimeout := value }
  | .connectTimeout, value => { self with connectTimeout := value }
  | .operationTimeout, value => { self with operationTimeout := value }

/-- The fields of a configuration are registers. -/
theorem configBundle : Bundle get set where
  view_injective a b h := by
    have hfield : ∀ field, a.get field = b.get field := congrFun h
    cases a
    cases b
    rw [mk.injEq]
    exact ⟨hfield .brokers, hfield .clientId, hfield .saslMechanism, hfield .saslUsername,
      hfield .saslPassword, hfield .tls, hfield .tlsCaFile, hfield .deliveryTimeout,
      hfield .connectTimeout, hfield .operationTimeout⟩
  view_write self field value := by
    funext field'
    cases field <;> cases field' <;> rfl

end KafkaConfig

/-- The value of a field is written to it. -/
theorem exists_write {field : ConfigField} {value : TomlValue}
    {update : KafkaConfig → KafkaConfig} (h : readField field value = .ok update) :
    ∃ written : field.Value, update = fun config => config.set field written := by
  cases field with
  | saslMechanism | saslUsername | saslPassword | tlsCaFile =>
    obtain ⟨a, -, rfl⟩ := map_eq_ok h
    exact ⟨some a, rfl⟩
  | _ =>
    obtain ⟨a, -, rfl⟩ := map_eq_ok h
    exact ⟨a, rfl⟩

/-- A field keeps its value when another one is read. -/
theorem get_of_readField {field other : ConfigField} {value : TomlValue}
    {update : KafkaConfig → KafkaConfig} (hother : other ≠ field)
    (h : readField other value = .ok update) (config : KafkaConfig) :
    (update config).get field = config.get field := by
  obtain ⟨written, rfl⟩ := exists_write h
  show (config.set other written).get field = config.get field
  rw [KafkaConfig.configBundle.view_write, Function.update_of_ne hother.symm]

theorem name_injective {field other : ConfigField} (h : field.name = other.name) :
    field = other := by
  cases field <;> cases other <;> first | rfl | exact absurd h (by decide)

/-- A field of the result is what its entry says, or what it was. -/
theorem deserialize_field (field : ConfigField) {config result : KafkaConfig}
    {entries : List TomlEntry} (hnodup : (entries.map TomlEntry.key).Nodup)
    (h : deserialize config entries = .ok result) :
    (field.name ∉ entries.map TomlEntry.key → result.get field = config.get field) ∧
      ∀ entry ∈ entries, entry.key = field.name → ∃ update before,
        readField field entry.value = .ok update ∧
          result.get field = (update before).get field := by
  induction entries generalizing config with
  | nil =>
    refine ⟨fun _ => ?_, fun entry hentry => absurd hentry List.not_mem_nil⟩
    rw [deserialize] at h
    rw [Except.ok.inj h]
  | cons first rest ih =>
    rw [List.map_cons, List.nodup_cons] at hnodup
    rw [deserialize] at h
    cases hread : readEntry first with
    | error f =>
      rw [hread] at h
      exact absurd h (by simp)
    | ok update =>
      rw [hread] at h
      obtain ⟨hkept, hset⟩ := ih hnodup.2 h
      obtain ⟨owner, hfield, hvalue⟩ := readEntry_eq_ok hread
      have howner : owner.name = first.key := name_of_ofKey hfield
      constructor
      · intro hkey
        rw [List.map_cons, List.mem_cons, not_or] at hkey
        have hne : owner ≠ field := fun heq => hkey.1 (by rw [← heq, howner])
        rw [hkept hkey.2, get_of_readField hne hvalue]
      · intro entry hentry hkey
        rcases List.mem_cons.mp hentry with rfl | hentry
        · have hfield : owner = field := name_injective (howner.trans hkey)
          rw [hfield] at hvalue
          exact ⟨update, config, hvalue, hkept (hkey ▸ hnodup.1)⟩
        · exact hset entry hentry hkey

/-- A field that is written from a string: what the document says, or the default. -/
theorem deserialize_string (field : ConfigField) (written : String → field.Value)
    (hwritten : ∀ value, readField field value =
      (value.asString "a string").map fun s config => config.set field (written s))
    (document : TomlDocument) {result : KafkaConfig}
    (h : deserialize default document.entries = .ok result) :
    result.get field =
      ((document.string? field.name).map fun text => written (String.ofList text)).getD
        ((default : KafkaConfig).get field) := by
  obtain ⟨hkept, hset⟩ := deserialize_field field document.nodup h
  by_cases hkey : field.name ∈ document.entries.map TomlEntry.key
  · obtain ⟨entry, hentry, hname⟩ := List.mem_map.mp hkey
    obtain ⟨update, before, hvalue, hresult⟩ := hset entry hentry hname
    rw [hwritten] at hvalue
    obtain ⟨s, hs, rfl⟩ := map_eq_ok hvalue
    rw [← hname, document.string?_of_mem hentry, asString_eq_ok hs, hresult, Option.map_some,
      String.ofList_toList, KafkaConfig.configBundle.view_write, Function.update_self]
    rfl
  · rw [document.string?_of_not_mem hkey, hkept hkey]
    rfl

/-! ### What a check repeats -/

/-- A fault that `broker_host` finds repeats nothing but the parser. -/
theorem brokerHost_eq_error {parser : UrlParser} {broker : Text} {fault : ConfigFault}
    (h : brokerHost parser broker = .error fault) :
    (∃ error, fault = .badUrl error) ∨ fault = .userinfo ∨ fault = .noHost := by
  rw [brokerHost] at h
  split at h
  · exact Or.inl ⟨_, (Except.error.inj h).symm⟩
  · split at h
    · exact Or.inr (Or.inl (Except.error.inj h).symm)
    · split at h
      · exact Or.inr (Or.inr (Except.error.inj h).symm)
      · exact absurd h (by simp)

theorem brokerHost_ne_remotePlaintext {parser : UrlParser} {broker host : Text} :
    brokerHost parser broker ≠ .error (.remotePlaintext host) := fun h => by
  simpa using brokerHost_eq_error h

theorem brokerHost_ne_unsupportedMechanism {parser : UrlParser} {broker : Text}
    {mechanism : String} : brokerHost parser broker ≠ .error (.unsupportedMechanism mechanism) :=
  fun h => by simpa using brokerHost_eq_error h

/-- The remote broker that is refused is the first that is not this machine. -/
theorem firstRemote_of_checkBrokers {parser : UrlParser} {tls : Bool} {brokers : String}
    {host : Text}
    (h : checkBrokers parser tls (brokerEntries brokers) = .error (.remotePlaintext host)) :
    firstRemote parser brokers = some host := by
  obtain ⟨before, broker, after, hsplit, hbefore, hrefused⟩ := checkBrokers_eq_error h
  rcases hrefused with hfault | ⟨judged, hjudged, htls, hremote, hfault⟩
  · exact absurd hfault brokerHost_ne_remotePlaintext
  · rw [firstRemote, hsplit, List.findSome?_append, Option.or_eq_some_iff]
    refine Or.inr ⟨List.findSome?_eq_none_iff.mpr fun entry hentry => ?_, ?_⟩
    · obtain ⟨passed, hpassed, hloopback⟩ := hbefore entry hentry
      rw [hpassed]
      exact if_pos (hloopback htls)
    · rw [ConfigFault.remotePlaintext.inj hfault]
      simp [hjudged, hremote]

theorem checkBrokers_ne_unsupportedMechanism {parser : UrlParser} {tls : Bool}
    {entries : List Text} {mechanism : String} :
    checkBrokers parser tls entries ≠ .error (.unsupportedMechanism mechanism) := by
  intro h
  obtain ⟨before, broker, after, -, -, hrefused⟩ := checkBrokers_eq_error h
  rcases hrefused with hfault | ⟨host, -, -, -, hfault⟩
  · exact brokerHost_ne_unsupportedMechanism hfault
  · exact absurd hfault (by simp)

/-- What a fault repeats is the remote host or the mechanism. -/
def ConfigFault.Repeats (remote : Option Text) (mechanism : Option String) : ConfigFault → Prop
  | .remotePlaintext host => remote = some host
  | .unsupportedMechanism name => mechanism = some name
  | _ => True

theorem checkSasl_eq_error {mechanism username password : Option String} {fault : ConfigFault}
    (h : checkSasl mechanism username password = .error fault) (remote : Option Text) :
    fault.Repeats remote mechanism := by
  rw [checkSasl.eq_def] at h
  split at h
  · split at h
    · rw [← Except.error.inj h]
      rfl
    · split at h
      · rw [← Except.error.inj h]
        trivial
      · split at h
        · rw [← Except.error.inj h]
          trivial
        · exact absurd h (by simp)
  · split at h
    · rw [← Except.error.inj h]
      trivial
    · exact absurd h (by simp)

/-- A failed check repeats of the configuration only its first remote host and its mechanism. -/
theorem check_eq_error {parser : UrlParser} {config : KafkaConfig} {fault : ConfigFault}
    (h : config.check parser = .error fault) :
    fault.Repeats (firstRemote parser config.brokers) config.saslMechanism := by
  rw [KafkaConfig.check] at h
  split at h
  · rw [← Except.error.inj h]
    trivial
  · split at h
    · rw [← Except.error.inj h]
      trivial
    · split at h
      · rw [← Except.error.inj h]
        trivial
      · split at h
        · rw [← Except.error.inj h]
          trivial
        · split at h
          · rename_i found hbrokers
            rw [Except.error.inj h] at hbrokers
            cases fault with
            | remotePlaintext host => exact firstRemote_of_checkBrokers hbrokers
            | unsupportedMechanism name =>
              exact absurd hbrokers checkBrokers_ne_unsupportedMechanism
            | _ => trivial
          · split at h
            · rename_i found hsasl
              rw [Except.error.inj h] at hsasl
              exact checkSasl_eq_error hsasl _
            · split at h
              · rw [← Except.error.inj h]
                trivial
              · exact absurd h (by simp)

/-! ### Equal messages -/

theorem toDigits_injective : Function.Injective (Nat.toDigits 10) := by
  intro m n h
  rw [← @Nat.ofDigitChars_ten_toDigits m, h, Nat.ofDigitChars_ten_toDigits]

/-- A summary tells the number of the line. -/
theorem summary_eq_iff {text text' : Text} {error : TomlError} :
    tomlErrorSummary text error = tomlErrorSummary text' error ↔
      ∀ span, error.span = some span → lineAt text span.1 = lineAt text' span.1 := by
  rw [tomlErrorSummary, tomlErrorSummary]
  cases hspan : error.span with
  | none => exact iff_of_true rfl fun span h => absurd h (by simp)
  | some span =>
    obtain ⟨start, stop⟩ := span
    constructor
    · intro h other hother
      rw [← Option.some.inj hother]
      have hplace := List.append_cancel_left (List.append_cancel_left h)
      exact toDigits_injective (List.append_cancel_right hplace)
    · intro h
      have hline : lineAt text start = lineAt text' start := h (start, stop) rfl
      simp only [hline]

/-- A string between quotes can be read off a text, whatever stands around it. -/
theorem debugStr_between_inj {escaped : Char → Bool} {value value' p q r s t t' : Text}
    (h : p ++ (q ++ debugStr escaped value) ++ r ++ s ++ t =
      p ++ (q ++ debugStr escaped value') ++ r ++ s ++ t') : value = value' := by
  simp only [List.append_assoc] at h
  have hquoted := List.append_cancel_left (List.append_cancel_left h)
  exact (debugStr_cancel hquoted).1

/-- The summary of a string in a wrong place tells the string. -/
theorem summary_string_eq_iff {text text' : Text} {escaped : Char → Bool} {value value' : Text}
    {expected : String} {span : Span} :
    tomlErrorSummary text
        ⟨(TypedFailure.invalidType (.string value) expected).message escaped, some span⟩ =
      tomlErrorSummary text'
        ⟨(TypedFailure.invalidType (.string value') expected).message escaped, some span⟩ ↔
      value = value' ∧ lineAt text span.1 = lineAt text' span.1 := by
  obtain ⟨start, stop⟩ := span
  constructor
  · intro h
    have hvalue : value = value' := debugStr_between_inj h
    rw [hvalue] at h
    exact ⟨hvalue, summary_eq_iff.mp h (start, stop) rfl⟩
  · rintro ⟨hvalue, hline⟩
    rw [hvalue]
    refine summary_eq_iff.mpr fun other hother => ?_
    rw [← Option.some.inj hother]
    exact hline

theorem between_inj {p q s t : String} (h : p ++ s ++ q = p ++ t ++ q) : s = t := by
  have hlist : p.toList ++ s.toList ++ q.toList = p.toList ++ t.toList ++ q.toList := by
    simpa only [String.toList_append] using congrArg String.toList h
  exact String.toList_inj.mp (List.append_cancel_left (List.append_cancel_right hlist))

theorem remotePlaintext_message_inj {host host' : Text}
    (h : (ConfigFault.remotePlaintext host).message = (ConfigFault.remotePlaintext host').message) :
    host = host' := by
  have hhost : String.ofList host = String.ofList host' := between_inj h
  exact String.ofList_injective hhost

theorem unsupportedMechanism_message_inj {mechanism mechanism' : String}
    (h : (ConfigFault.unsupportedMechanism mechanism).message =
      (ConfigFault.unsupportedMechanism mechanism').message) : mechanism = mechanism' :=
  between_inj h

section

variable {reader : TomlReader} {parser : UrlParser} {text text' : Text}

theorem fromToml_of_error {failure : FromTomlFailure}
    (h : loadToml reader parser text = .error failure) :
    fromToml reader parser text =
      .error (.config (String.ofList (failure.message reader text))) := by
  rw [fromToml, h]
  rfl

/-- Where `from_toml` fails: the stages before have passed. -/
inductive FailsWith (reader : TomlReader) (parser : UrlParser) (text : Text) :
    FromTomlFailure → Prop where
  | unparsable (error : TomlError) (hparse : reader.parse text = .error error) :
      FailsWith reader parser text (.unparsable error)
  | secretKey (key : String) : FailsWith reader parser text (.secretKey key)
  | illTyped (document : TomlDocument) (failure : TypedFailure) (span : Span)
      (hparse : reader.parse text = .ok document)
      (hread : deserialize default document.entries = .error (failure, span)) :
      FailsWith reader parser text (.illTyped failure span)
  | invalid (document : TomlDocument) (config : KafkaConfig) (fault : ConfigFault)
      (hparse : reader.parse text = .ok document)
      (hread : deserialize default document.entries = .ok config)
      (hcheck : config.check parser = .error fault) :
      FailsWith reader parser text (.invalid fault)

/-- A text that the first reading accepts is not refused by the second before the types. -/
theorem failsWith_of_loadToml {failure : FromTomlFailure}
    (h : loadToml reader parser text = .error failure) : FailsWith reader parser text failure := by
  rw [loadToml, rejectSecretKeysInToml] at h
  cases hparse : reader.parse text with
  | error error =>
    rw [hparse] at h
    rw [← Except.error.inj h]
    exact .unparsable error hparse
  | ok document =>
    simp only [hparse] at h
    split at h
    · rename_i found hsecret
      split at hsecret
      · rw [← Except.error.inj hsecret] at h
        rw [← Except.error.inj h]
        exact .secretKey _
      · exact absurd hsecret (by simp)
    · split at h
      · rename_i found span hread
        rw [← Except.error.inj h]
        exact .illTyped document found span hparse hread
      · rename_i config hread
        split at h
        · rename_i fault hcheck
          rw [← Except.error.inj h]
          exact .invalid document config fault hparse hread hcheck
        · exact absurd h (by simp)

theorem stringAt_of_parse {document : TomlDocument} (h : reader.parse text = .ok document)
    (key : String) : stringAt reader text key = document.string? key := by
  rw [stringAt, h]

/-- What a failed check repeats is what the text says. -/
theorem repeats_of_invalid {fault : ConfigFault}
    (h : loadToml reader parser text = .error (.invalid fault)) :
    fault.Repeats (firstRemote parser (brokersAt reader text))
      ((stringAt reader text "sasl_mechanism").map String.ofList) := by
  cases failsWith_of_loadToml h with
  | invalid document config _ hparse hread hcheck =>
    have hbrokers : config.brokers =
        ((document.string? "brokers").map String.ofList).getD defaultBrokers :=
      deserialize_string .brokers id (fun _ => rfl) document hread
    have hmechanism : config.saslMechanism =
        ((document.string? "sasl_mechanism").map fun text => some (String.ofList text)).getD none :=
      deserialize_string .saslMechanism some (fun _ => rfl) document hread
    have hsame : (document.string? "sasl_mechanism").map String.ofList = config.saslMechanism := by
      rw [hmechanism]
      cases document.string? "sasl_mechanism" <;> rfl
    rw [brokersAt, stringAt_of_parse hparse, stringAt_of_parse hparse, ← hbrokers, hsame]
    exact check_eq_error hcheck

/-- A failure at the types of two texts that differ in one string. -/
theorem illTyped_of_differ (hdiffer : DifferInString reader text text')
    {failure failure' : TypedFailure} {span span' : Span}
    (h : loadToml reader parser text = .error (.illTyped failure span))
    (h' : loadToml reader parser text' = .error (.illTyped failure' span')) :
    span = span' ∧ (failure = failure' ∨ ∃ value value' expected,
      failure = .invalidType (.string value) expected ∧
        failure' = .invalidType (.string value') expected) := by
  cases failsWith_of_loadToml h with
  | illTyped document _ _ hparse hread =>
    cases failsWith_of_loadToml h' with
    | illTyped document' _ _ hparse' hread' =>
      have hdocuments := hdiffer.documents document document' hparse hparse'
      cases hdocuments with
      | same =>
        have hboth := Prod.mk.inj (Except.error.inj (hread.symm.trans hread'))
        exact ⟨hboth.2, Or.inl hboth.1⟩
      | «at» front back entry value value' _ _ hentry =>
        obtain ⟨hspan, hfailure⟩ := deserialize_changed hentry hread hread'
        refine ⟨hspan, hfailure.imp_right fun hstrings => ?_⟩
        exact ⟨value, value', "a boolean", hstrings.2⟩

theorem stringAt_tls_of_illTyped {value : Text} {expected : String} {span : Span}
    (h : loadToml reader parser text =
      .error (.illTyped (.invalidType (.string value) expected) span)) :
    stringAt reader text "tls" = some value := by
  cases failsWith_of_loadToml h with
  | illTyped document _ _ hparse hread =>
    rw [stringAt_of_parse hparse]
    exact string?_tls_of_error document hread

/-- Errors are equal when their messages are. -/
theorem fromToml_eq_iff {failure failure' : FromTomlFailure}
    (h : loadToml reader parser text = .error failure)
    (h' : loadToml reader parser text' = .error failure') :
    fromToml reader parser text = fromToml reader parser text' ↔
      failure.message reader text = failure'.message reader text' := by
  rw [fromToml_of_error h, fromToml_of_error h']
  constructor
  · intro heq
    exact String.ofList_injective (KafkaError.config.inj (Except.error.inj heq))
  · intro heq
    rw [heq]

/-- A wrong type: the line and the string in the place of a truth value. -/
theorem illTyped_message_eq_iff (hdiffer : DifferInString reader text text')
    {failure failure' : TypedFailure} {span span' : Span}
    (h : loadToml reader parser text = .error (.illTyped failure span))
    (h' : loadToml reader parser text' = .error (.illTyped failure' span')) :
    (FromTomlFailure.illTyped failure span).message reader text =
        (FromTomlFailure.illTyped failure' span').message reader text' ↔
      SameEcho reader parser text text' (.illTyped failure span) := by
  obtain ⟨rfl, hfailure⟩ := illTyped_of_differ hdiffer h h'
  have hcancel : (FromTomlFailure.illTyped failure span).message reader text =
        (FromTomlFailure.illTyped failure' span).message reader text' ↔
      tomlErrorSummary text ⟨failure.message reader.escaped, some span⟩ =
        tomlErrorSummary text' ⟨failure'.message reader.escaped, some span⟩ :=
    List.append_right_inj _
  rw [hcancel]
  rcases hfailure with rfl | ⟨value, value', expected, rfl, rfl⟩
  · rw [summary_eq_iff]
    constructor
    · intro hline
      refine ⟨hline span rfl, ?_⟩
      rintro ⟨value, expected, rfl⟩
      rw [stringAt_tls_of_illTyped h, stringAt_tls_of_illTyped h']
    · rintro ⟨hline, -⟩ other hother
      rw [← Option.some.inj hother]
      exact hline
  · rw [summary_string_eq_iff]
    constructor
    · rintro ⟨hvalue, hline⟩
      refine ⟨hline, fun _ => ?_⟩
      rw [stringAt_tls_of_illTyped h, stringAt_tls_of_illTyped h', hvalue]
    · rintro ⟨hline, hstring⟩
      have htls := hstring ⟨value, expected, rfl⟩
      rw [stringAt_tls_of_illTyped h, stringAt_tls_of_illTyped h'] at htls
      exact ⟨Option.some.inj htls, hline⟩

/-- A failed check: the host of a remote broker and the mechanism. -/
theorem invalid_message_eq_iff {fault fault' : ConfigFault} (hcheck : fault.SameCheck fault')
    (h : loadToml reader parser text = .error (.invalid fault))
    (h' : loadToml reader parser text' = .error (.invalid fault')) :
    fault.message = fault'.message ↔ SameEcho reader parser text text' (.invalid fault) := by
  have hrepeats := repeats_of_invalid h
  have hrepeats' := repeats_of_invalid h'
  cases hcheck with
  | same =>
    refine iff_of_true rfl ?_
    cases fault with
    | remotePlaintext host => exact hrepeats.trans hrepeats'.symm
    | unsupportedMechanism name =>
      have hnames := hrepeats.trans hrepeats'.symm
      exact Option.map_injective (fun _ _ => String.ofList_injective) hnames
    | _ => trivial
  | remotePlaintext host host' =>
    have hhost : firstRemote parser (brokersAt reader text) = some host := hrepeats
    have hhost' : firstRemote parser (brokersAt reader text') = some host' := hrepeats'
    show _ ↔ firstRemote parser (brokersAt reader text) =
      firstRemote parser (brokersAt reader text')
    rw [hhost, hhost', Option.some.injEq]
    exact ⟨remotePlaintext_message_inj, fun heq => heq ▸ rfl⟩
  | unsupportedMechanism name name' =>
    have hname : (stringAt reader text "sasl_mechanism").map String.ofList = some name := hrepeats
    have hname' : (stringAt reader text' "sasl_mechanism").map String.ofList = some name' :=
      hrepeats'
    show _ ↔ stringAt reader text "sasl_mechanism" = stringAt reader text' "sasl_mechanism"
    rw [← (Option.map_injective fun _ _ => String.ofList_injective).eq_iff, hname, hname',
      Option.some.injEq]
    exact ⟨unsupportedMechanism_message_inj, fun heq => heq ▸ rfl⟩

/-- **The messages of two texts that differ in one string** and fail for the same reason are equal
if and only if the reason repeats nothing that changed. -/
theorem same_message_iff {failure failure' : FromTomlFailure}
    (hdiffer : DifferInString reader text text')
    (h : loadToml reader parser text = .error failure)
    (h' : loadToml reader parser text' = .error failure') (hsame : SameReason failure failure') :
    fromToml reader parser text = fromToml reader parser text' ↔
      SameEcho reader parser text text' failure := by
  rw [fromToml_eq_iff h h']
  cases hsame with
  | unparsable error =>
    exact (List.append_right_inj _).trans summary_eq_iff
  | secretKey key => exact iff_of_true rfl trivial
  | unreadable error =>
    exact (List.append_right_inj _).trans summary_eq_iff
  | illTyped failure failure' span span' hkind => exact illTyped_message_eq_iff hdiffer h h'
  | invalid fault fault' hcheck =>
    exact String.toList_inj.trans (invalid_message_eq_iff hcheck h h')

end

/-! ### A reader for a single line -/

/-- A line with a key and a string between quotes. -/
def plainLine (key value : Text) : Text :=
  key ++ ' ' :: '=' :: ' ' :: '"' :: (value ++ ['"'])

/-- The document of such a line. -/
def lineDocument (key value : Text) : TomlDocument :=
  ⟨[⟨String.ofList key, (0, byteLength key), .string value,
    (byteLength key + 3, byteLength (plainLine key value))⟩], List.nodup_singleton _⟩

/-- The reader for a single line, with a bare key and a string without escapes. -/
def readLine (text : Text) : Except TomlError TomlDocument :=
  let key := text.takeWhile (· != ' ')
  match text.drop key.length with
  | ' ' :: '=' :: ' ' :: '"' :: rest =>
    let value := rest.takeWhile fun c => c != '"' && c != '\\'
    if text = plainLine key value then .ok (lineDocument key value)
    else .error ⟨"invalid basic string".toList, some (byteLength key + 3, byteLength text)⟩
  | _ => .error ⟨"expected `.`, `=`".toList, some (byteLength key, byteLength text)⟩

/-- A reader for a single line. -/
def lineReader : TomlReader where
  parse := readLine
  escaped c := c.toNat < 32

theorem readLine_plainLine {key value : Text} (hkey : ' ' ∉ key) (hquote : '"' ∉ value)
    (hescape : '\\' ∉ value) : readLine (plainLine key value) = .ok (lineDocument key value) := by
  have htakeKey : (plainLine key value).takeWhile (· != ' ') = key := by
    have hall : ∀ c ∈ key, (c != ' ') = true := by
      intro c hc
      rw [bne_iff_ne]
      rintro rfl
      exact hkey hc
    rw [plainLine, List.takeWhile_append_of_pos hall]
    exact List.append_nil key
  have htakeValue : (value ++ ['"']).takeWhile (fun c => c != '"' && c != '\\') = value := by
    have hall : ∀ c ∈ value, (c != '"' && c != '\\') = true := by
      intro c hc
      rw [Bool.and_eq_true, bne_iff_ne, bne_iff_ne]
      constructor
      · rintro rfl
        exact hquote hc
      · rintro rfl
        exact hescape hc
    rw [List.takeWhile_append_of_pos hall]
    exact List.append_nil value
  have hdrop : (plainLine key value).drop key.length =
      ' ' :: '=' :: ' ' :: '"' :: (value ++ ['"']) := List.drop_left
  simp only [readLine, htakeKey, hdrop, htakeValue, if_true]

/-- Two lines with one key and with strings of the same length. -/
theorem differInString_plainLine {key value value' : Text} (hkey : ' ' ∉ key)
    (hquote : '"' ∉ value) (hescape : '\\' ∉ value) (hquote' : '"' ∉ value')
    (hescape' : '\\' ∉ value') (hlength : byteLength value = byteLength value') :
    DifferInString lineReader (plainLine key value) (plainLine key value') where
  texts := by
    refine ⟨key ++ [' ', '=', ' ', '"'], value, value', ['"'], ?_, ?_, hlength⟩
    · simp [plainLine]
    · simp [plainLine]
  documents := by
    intro document document' h h'
    have hline : byteLength (plainLine key value) = byteLength (plainLine key value') := by
      simp only [byteLength, plainLine, List.map_append, List.map_cons, List.sum_append,
        List.sum_cons] at hlength ⊢
      omega
    have hd := Except.ok.inj ((readLine_plainLine hkey hquote hescape).symm.trans h)
    have hd' := Except.ok.inj ((readLine_plainLine hkey hquote' hescape').symm.trans h')
    rw [← hd, ← hd', lineDocument, lineDocument, ← hline]
    exact .at [] [] _ value value' _ _ rfl

/-- The message for an unknown field does not tell its value. -/
theorem same_message_endpoint :
    fromToml lineReader plainParser (plainLine "endpoint".toList "svc:a@host".toList) =
      fromToml lineReader plainParser (plainLine "endpoint".toList "svc:b@host".toList) := by
  have hdiffer : DifferInString lineReader (plainLine "endpoint".toList "svc:a@host".toList)
      (plainLine "endpoint".toList "svc:b@host".toList) :=
    differInString_plainLine (by decide) (by decide) (by decide) (by decide) (by decide) (by decide)
  have h : loadToml lineReader plainParser (plainLine "endpoint".toList "svc:a@host".toList) =
      .error (.illTyped (.unknownField "endpoint") (0, 8)) := rfl
  have h' : loadToml lineReader plainParser (plainLine "endpoint".toList "svc:b@host".toList) =
      .error (.illTyped (.unknownField "endpoint") (0, 8)) := rfl
  refine (same_message_iff hdiffer h h' (.illTyped _ _ _ _ (.same _))).mpr ⟨by decide, ?_⟩
  rintro ⟨value, expected, hstring⟩
  exact absurd hstring (by simp)

/-- **A string in the place of a truth value is shown**: two texts that fail for the same reason
have different messages. -/
theorem string_for_tls_shown :
    DifferInString lineReader (plainLine "tls".toList "secret-a".toList)
        (plainLine "tls".toList "secret-b".toList) ∧
      (∃ failure failure',
        loadToml lineReader plainParser (plainLine "tls".toList "secret-a".toList) =
          .error failure ∧
        loadToml lineReader plainParser (plainLine "tls".toList "secret-b".toList) =
          .error failure' ∧ SameReason failure failure') ∧
      fromToml lineReader plainParser (plainLine "tls".toList "secret-a".toList) ≠
        fromToml lineReader plainParser (plainLine "tls".toList "secret-b".toList) := by
  have hdiffer : DifferInString lineReader (plainLine "tls".toList "secret-a".toList)
      (plainLine "tls".toList "secret-b".toList) :=
    differInString_plainLine (by decide) (by decide) (by decide) (by decide) (by decide) (by decide)
  have h : loadToml lineReader plainParser (plainLine "tls".toList "secret-a".toList) =
      .error (.illTyped (.invalidType (.string "secret-a".toList) "a boolean") (6, 16)) := rfl
  have h' : loadToml lineReader plainParser (plainLine "tls".toList "secret-b".toList) =
      .error (.illTyped (.invalidType (.string "secret-b".toList) "a boolean") (6, 16)) := rfl
  refine ⟨hdiffer, ⟨_, _, h, h', .illTyped _ _ _ _ (.invalidType _ _ _)⟩, fun heq => ?_⟩
  have hecho := (illTyped_message_eq_iff hdiffer h h').mp ((fromToml_eq_iff h h').mp heq)
  have htls := hecho.2 ⟨_, _, rfl⟩
  exact absurd htls (by decide)

end Kafkax
