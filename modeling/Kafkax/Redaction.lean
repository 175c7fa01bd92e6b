import Kafkax.Config

/-!
# What the debug text of a configuration shows

Two configurations differ only in their secrets: the user name, the password, and the userinfo of
the URLs in `brokers`.  A `BrokerPart` is an entry of the list as its author wrote it; the secrets
of the entries with userinfo are filled in from outside, so a list of parts stands for all the
lists that differ only there.

`redact_brokers` cuts the whole list at every comma, and a userinfo may contain commas.  What is cut
off before the last of them is shown (`shownPieces_url`), so the debug texts agree exactly if the
secrets agree up to their last comma (`debug_hides_iff`).
-/

namespace Kafkax

open LineText DebugText

/-! ### Broker lists with userinfo -/

/-- The characters of userinfo: digits and letters, the other unreserved characters,
sub-delimiters, the colon, and the percent sign of an encoded character. -/
def isUserinfoChar (c : Char) : Bool :=
  let n := c.toNat
  (48 ≤ n && n ≤ 57) || (65 ≤ n && n ≤ 90) || (97 ≤ n && n ≤ 122) ||
    "-._~!$&'()*+,;=:%".toList.contains c

/-- A userinfo. -/
structure Userinfo where
  text : Text
  valid : text.all isUserinfoChar = true

/-- An entry of a broker list as written; `slot` names the secret of a URL with userinfo.  The
scheme before the userinfo has no comma, no `@` and no `<`. -/
inductive BrokerPart (σ : Type) where
  | plain (text : Text) (hcomma : ',' ∉ text)
  | url (before : Text) (slot : σ) (after : Text)
      (hbefore : ',' ∉ before ∧ '@' ∉ before ∧ '<' ∉ before) (hafter : ',' ∉ after)

variable {σ : Type}

/-- The text of an entry with the secrets filled in. -/
def BrokerPart.text (secret : σ → Userinfo) : BrokerPart σ → Text
  | .plain text _ => text
  | .url before slot after _ _ => before ++ (secret slot).text ++ '@' :: after

/-- The slot of an entry. -/
def BrokerPart.slot? : BrokerPart σ → Option σ
  | .plain _ _ => none
  | .url _ slot _ _ _ => some slot

/-- The text of a list with the secrets filled in. -/
def brokersText (parts : List (BrokerPart σ)) (secret : σ → Userinfo) : Text :=
  [','].intercalate (parts.map (BrokerPart.text secret))

/-- A configuration with all its secrets filled in. -/
def KafkaConfig.withSecrets (config : KafkaConfig) (parts : List (BrokerPart σ))
    (secret : σ → Userinfo) (username password : String) : KafkaConfig :=
  { config with
    brokers := String.ofList (brokersText parts secret)
    saslUsername := some username
    saslPassword := some password }

/-- The pieces of a userinfo before its last comma. -/
def Userinfo.upToLastComma (self : Userinfo) : List Text := (self.text.splitOn ',').dropLast

/-! ### What is shown -/

theorem not_whitespace_of_isUserinfoChar {c : Char} (h : isUserinfoChar c = true) :
    isWhitespace c = false := by
  rw [isUserinfoChar, Bool.or_eq_true] at h
  rcases h with h | h
  · by_contra hspace
    rw [Bool.not_eq_false] at hspace
    simp only [isWhitespace, Bool.or_eq_true, Bool.and_eq_true, beq_iff_eq,
      decide_eq_true_eq] at hspace
    simp only [Bool.or_eq_true, Bool.and_eq_true, decide_eq_true_eq] at h
    omega
  · have hall : "-._~!$&'()*+,;=:%".toList.all (fun d => !isWhitespace d) = true := by decide
    simpa using List.all_eq_true.mp hall c (List.contains_iff_mem.mp h)

theorem ne_of_isUserinfoChar {c : Char} (h : isUserinfoChar c = true) : c ≠ '@' ∧ c ≠ '<' := by
  constructor
  · rintro rfl
    exact absurd h (by decide)
  · rintro rfl
    exact absurd h (by decide)

theorem Userinfo.mem_upToLastComma {self : Userinfo} {piece : Text} {c : Char}
    (hpiece : piece ∈ self.upToLastComma) (hc : c ∈ piece) : isUserinfoChar c = true :=
  List.all_eq_true.mp self.valid c (mem_of_mem_splitOn (List.dropLast_subset _ hpiece) hc)

theorem Userinfo.at_not_mem {self : Userinfo} {piece : Text} (hpiece : piece ∈ self.upToLastComma) :
    '@' ∉ piece :=
  fun hmem => (ne_of_isUserinfoChar (Userinfo.mem_upToLastComma hpiece hmem)).1 rfl

theorem Userinfo.lt_not_mem {self : Userinfo} {piece : Text} (hpiece : piece ∈ self.upToLastComma) :
    '<' ∉ piece :=
  fun hmem => (ne_of_isUserinfoChar (Userinfo.mem_upToLastComma hpiece hmem)).2 rfl

/-- There is nothing to trim in a userinfo. -/
theorem Userinfo.not_whitespace {self : Userinfo} {piece : Text}
    (hpiece : piece ∈ self.upToLastComma) {c : Char} (hc : c ∈ piece) : isWhitespace c = false :=
  not_whitespace_of_isUserinfoChar (Userinfo.mem_upToLastComma hpiece hc)

theorem Userinfo.trim_piece {self : Userinfo} {piece : Text} (hpiece : piece ∈ self.upToLastComma) :
    trim piece = piece :=
  trim_eq_self (fun _ hc => Userinfo.not_whitespace hpiece (List.mem_of_mem_head? hc))
    (fun _ hc => Userinfo.not_whitespace hpiece (List.mem_of_getLast? hc))

theorem redactBroker_of_mem {piece : Text} (h : '@' ∈ piece) :
    redactBroker piece = redactedUserinfo := if_pos h

theorem redactBroker_of_not_mem {piece : Text} (h : '@' ∉ piece) :
    redactBroker piece = trim piece := if_neg h

/-- The pieces of an entry that are shown for what they are. -/
def exposed (before : Text) (userinfo : Userinfo) : List Text :=
  (userinfo.upToLastComma.modifyHead (before ++ ·)).map trim

/-- The pieces that are shown for an entry. -/
def shownPieces (secret : σ → Userinfo) (part : BrokerPart σ) : List Text :=
  ((part.text secret).splitOn ',').map redactBroker

/-- **Only what follows the last comma of a userinfo is redacted.** -/
theorem shownPieces_url (secret : σ → Userinfo) {before : Text} {slot : σ} {after : Text}
    (hbefore : ',' ∉ before ∧ '@' ∉ before ∧ '<' ∉ before) (hafter : ',' ∉ after) :
    shownPieces secret (.url before slot after hbefore hafter) =
      exposed before (secret slot) ++ [redactedUserinfo] := by
  have hsplit := List.dropLast_append_getLast (List.splitOn_ne_nil ',' (secret slot).text)
  have hat : ',' ∉ '@' :: after := by
    rw [List.mem_cons, not_or]
    exact ⟨by decide, hafter⟩
  have hpieces := splitOn_surrounded hbefore.1 hat hsplit.symm
  have hlast : ∀ front : Text, redactBroker (front ++ '@' :: after) = redactedUserinfo :=
    fun front => redactBroker_of_mem (List.mem_append_right _ List.mem_cons_self)
  rw [shownPieces, BrokerPart.text, hpieces, exposed]
  change List.map redactBroker (((secret slot).upToLastComma ++ _).modifyHead _) = _
  have hplain : ∀ piece ∈ (secret slot).upToLastComma, '@' ∉ piece := fun _ => Userinfo.at_not_mem
  cases hfront : (secret slot).upToLastComma with
  | nil =>
    rw [List.nil_append, List.modifyHead_cons, List.map_singleton, ← List.append_assoc, hlast]
    rfl
  | cons first rest =>
    rw [hfront] at hplain
    have hfirst : '@' ∉ before ++ first := by
      rw [List.mem_append, not_or]
      exact ⟨hbefore.2.1, hplain first List.mem_cons_self⟩
    have hrest : rest.map redactBroker = rest.map trim := List.map_congr_left fun piece hpiece =>
      redactBroker_of_not_mem (hplain piece (List.mem_cons_of_mem _ hpiece))
    rw [List.cons_append, List.modifyHead_cons, List.modifyHead_cons, List.map_cons,
      List.map_append, List.map_singleton, List.map_cons, redactBroker_of_not_mem hfirst, hrest,
      hlast]
    rfl

/-- What is shown of a userinfo determines it up to its last comma. -/
theorem exposed_inj {before : Text} {u v : Userinfo} (h : exposed before u = exposed before v) :
    u.upToLastComma = v.upToLastComma := by
  have hu : ∀ piece ∈ u.upToLastComma, (∀ c ∈ piece, isWhitespace c = false) ∧ trim piece = piece :=
    fun _ hpiece => ⟨fun _ => Userinfo.not_whitespace hpiece, Userinfo.trim_piece hpiece⟩
  have hv : ∀ piece ∈ v.upToLastComma, (∀ c ∈ piece, isWhitespace c = false) ∧ trim piece = piece :=
    fun _ hpiece => ⟨fun _ => Userinfo.not_whitespace hpiece, Userinfo.trim_piece hpiece⟩
  have htrim : ∀ pieces : List Text, (∀ piece ∈ pieces, trim piece = piece) →
      pieces.map trim = pieces :=
    fun pieces hpieces => (List.map_congr_left hpieces).trans (List.map_id _)
  rw [exposed, exposed] at h
  cases hpu : u.upToLastComma with
  | nil =>
    cases hpv : v.upToLastComma with
    | nil => rfl
    | cons g gs =>
      rw [hpu, hpv] at h
      exact absurd h (by simp)
  | cons f fs =>
    cases hpv : v.upToLastComma with
    | nil =>
      rw [hpu, hpv] at h
      exact absurd h (by simp)
    | cons g gs =>
      rw [hpu] at h hu
      rw [hpv] at h hv
      obtain ⟨hhead, htail⟩ := List.cons.inj h
      have hfg : f = g :=
        trim_append_inj (hu f List.mem_cons_self).1 (hv g List.mem_cons_self).1 hhead
      rw [htrim fs fun piece hpiece => (hu piece (List.mem_cons_of_mem _ hpiece)).2,
        htrim gs fun piece hpiece => (hv piece (List.mem_cons_of_mem _ hpiece)).2] at htail
      rw [hfg, htail]

/-- No piece that is shown for what it is looks redacted. -/
theorem redactedUserinfo_not_mem_exposed {before : Text} (u : Userinfo) (hbefore : '<' ∉ before) :
    redactedUserinfo ∉ exposed before u := by
  intro h
  obtain ⟨piece, hpiece, htrim⟩ := List.mem_map.mp h
  have hmem : '<' ∈ piece := mem_of_mem_trim (htrim ▸ by decide)
  cases hfront : u.upToLastComma with
  | nil =>
    rw [hfront] at hpiece
    exact absurd hpiece List.not_mem_nil
  | cons first rest =>
    have hclean : ∀ piece ∈ first :: rest, '<' ∉ piece := fun piece hpiece =>
      Userinfo.lt_not_mem (hfront ▸ hpiece)
    rw [hfront, List.modifyHead_cons] at hpiece
    rcases List.mem_cons.mp hpiece with hpiece | hpiece
    · rw [hpiece] at hmem
      rcases List.mem_append.mp hmem with hmem | hmem
      · exact hbefore hmem
      · exact hclean first List.mem_cons_self hmem
    · exact hclean piece (List.mem_cons_of_mem _ hpiece) hmem

/-- The shown pieces of a list determine those of every entry. -/
theorem flatMap_shownPieces_eq_iff {u v : σ → Userinfo} (parts : List (BrokerPart σ)) :
    parts.flatMap (shownPieces u) = parts.flatMap (shownPieces v) ↔
      ∀ part ∈ parts, ∀ slot, part.slot? = some slot →
        (u slot).upToLastComma = (v slot).upToLastComma := by
  induction parts with
  | nil => exact iff_of_true rfl fun part hpart => absurd hpart List.not_mem_nil
  | cons part rest ih =>
    rw [List.flatMap_cons, List.flatMap_cons, List.forall_mem_cons, ← ih]
    cases part with
    | plain text hcomma =>
      have hslot : ∀ slot, (BrokerPart.plain text hcomma).slot? = some slot →
          (u slot).upToLastComma = (v slot).upToLastComma := fun slot h => absurd h (by
        simp [BrokerPart.slot?])
      rw [and_iff_right hslot]
      exact List.append_right_inj _
    | url before slot after hbefore hafter =>
      rw [shownPieces_url, shownPieces_url, List.append_assoc, List.append_assoc,
        List.singleton_append, List.singleton_append]
      have hlt := hbefore.2.2
      constructor
      · intro h
        obtain ⟨hexposed, hrest⟩ := append_cons_inj (redactedUserinfo_not_mem_exposed _ hlt)
          (redactedUserinfo_not_mem_exposed _ hlt) h
        refine ⟨fun other hother => ?_, hrest⟩
        rw [← Option.some.inj hother]
        exact exposed_inj hexposed
      · rintro ⟨hslot, hrest⟩
        rw [exposed, exposed, hslot slot rfl, hrest]

/-- A redacted list determines the pieces it shows. -/
theorem redactBrokers_brokersText {parts : List (BrokerPart σ)} (hparts : parts ≠ [])
    (secret : σ → Userinfo) : redactBrokers (brokersText parts secret) =
      [','].intercalate (parts.flatMap (shownPieces secret)) := by
  have hmap : parts.map (BrokerPart.text secret) ≠ [] := by
    rw [Ne, List.map_eq_nil_iff]
    exact hparts
  rw [redactBrokers, brokersText, splitOn_intercalate_flatMap hmap, List.flatMap_map,
    List.map_flatMap]
  rfl

theorem comma_not_mem_shownPieces {secret : σ → Userinfo} {parts : List (BrokerPart σ)}
    {piece : Text} (h : piece ∈ parts.flatMap (shownPieces secret)) : ',' ∉ piece := by
  obtain ⟨part, -, hpiece⟩ := List.mem_flatMap.mp h
  obtain ⟨broker, hbroker, rfl⟩ := List.mem_map.mp hpiece
  rw [redactBroker]
  split
  · decide
  · exact fun hmem => not_mem_of_mem_splitOn hbroker (mem_of_mem_trim hmem)

theorem flatMap_shownPieces_ne_nil {secret : σ → Userinfo} {parts : List (BrokerPart σ)}
    (hparts : parts ≠ []) : parts.flatMap (shownPieces secret) ≠ [] := by
  obtain ⟨part, rest, rfl⟩ := List.exists_cons_of_ne_nil hparts
  rw [List.flatMap_cons]
  intro h
  have hnil := (List.append_eq_nil_iff.mp h).1
  rw [shownPieces, List.map_eq_nil_iff] at hnil
  exact List.splitOn_ne_nil _ _ hnil

theorem debug_withSecrets_eq_iff (escaped : Char → Bool) (alternate : Bool) (config : KafkaConfig)
    (parts : List (BrokerPart σ)) (secret secret' : σ → Userinfo)
    (username username' password password' : String) :
    (config.withSecrets parts secret username password).debug escaped alternate =
        (config.withSecrets parts secret' username' password').debug escaped alternate ↔
      redactBrokers (brokersText parts secret) = redactBrokers (brokersText parts secret') := by
  rw [KafkaConfig.withSecrets, KafkaConfig.withSecrets, KafkaConfig.debug_eq_iff,
    String.toList_ofList, String.toList_ofList]

/-- **The debug text hides the secrets** of two configurations that differ only in them exactly if
the userinfos of each entry agree up to their last comma. -/
theorem debug_hides_iff (escaped : Char → Bool) (alternate : Bool) (config : KafkaConfig)
    (parts : List (BrokerPart σ)) (secret secret' : σ → Userinfo)
    (username username' password password' : String) :
    (config.withSecrets parts secret username password).debug escaped alternate =
        (config.withSecrets parts secret' username' password').debug escaped alternate ↔
      ∀ part ∈ parts, ∀ slot, part.slot? = some slot →
        (secret slot).upToLastComma = (secret' slot).upToLastComma := by
  rw [debug_withSecrets_eq_iff]
  by_cases hparts : parts = []
  · rw [hparts]
    exact iff_of_true rfl fun part hpart => absurd hpart List.not_mem_nil
  · rw [redactBrokers_brokersText hparts, redactBrokers_brokersText hparts,
      ← flatMap_shownPieces_eq_iff]
    constructor
    · intro h
      have hsplit := congrArg (List.splitOn ',') h
      rwa [List.splitOn_intercalate ',' (fun _ => comma_not_mem_shownPieces)
        (flatMap_shownPieces_ne_nil hparts), List.splitOn_intercalate ','
        (fun _ => comma_not_mem_shownPieces) (flatMap_shownPieces_ne_nil hparts)] at hsplit
    · intro h
      rw [h]

/-- The list of the test, with the userinfo left open. -/
def embeddedBrokers : List (BrokerPart Unit) :=
  [.url "kafka://".toList () "localhost:9092".toList (by decide) (by decide)]

/-- The part of a password before a comma is shown. -/
theorem password_with_comma_shown :
    ((default : KafkaConfig).withSecrets embeddedBrokers
        (fun _ => ⟨"user:pa,ss".toList, by decide⟩) "user" "password").debug (fun _ => false) false ≠
      ((default : KafkaConfig).withSecrets embeddedBrokers
        (fun _ => ⟨"user:qa,ss".toList, by decide⟩) "user" "password").debug (fun _ => false)
          false := by
  intro h
  rw [debug_withSecrets_eq_iff] at h
  exact absurd h (by decide)

end Kafkax
