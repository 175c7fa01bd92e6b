import Kafkax.Library.Text
import Kafkax.OffsetStore

/-!
# Records and the location string of a message

The records of both directions, and `bus_id`, which names a message by `topic/partition/offset`.
The topic may contain the separator, so the parser splits from the right, into at most three
pieces; the last two must be decimals of their widths.

* `parse_encodeBusId`: parsing undoes encoding, and refuses the empty topic;
* `encode_parseBusId`: what the parser accepts is encoded as it was written exactly if its two
  decimals are canonical, since the integer parser also takes a plus sign and leading zeros.
-/

namespace Kafkax

open BoundedIntegers LineText

/-! ### Records -/

/-- `rskafka`'s `Record` -/
structure Record where
  key : Option (List UInt8)
  value : Option (List UInt8)
  headers : List (String × List UInt8)
  timestamp : ℤ

/-- `PublishRecord` -/
structure PublishRecord where
  topic : String
  partition : I32
  payload : List UInt8
  key : Option (List UInt8)
  headers : List (String × List UInt8)

namespace PublishRecord

/-- `PublishRecord::payload` -/
def ofPayload (topic : String) (partition : I32) (payload : List UInt8) : PublishRecord :=
  ⟨topic, partition, payload, none, []⟩

/-- `PublishRecord::with_key` -/
def withKey (key : List UInt8) (self : PublishRecord) : PublishRecord :=
  { self with key := some key }

/-- The record on the wire. -/
def wire (self : PublishRecord) (now : ℤ) : Record :=
  ⟨self.key, some self.payload, self.headers, now⟩

end PublishRecord

/-- `Delivery` -/
structure Delivery where
  partition : I32
  offset : I64
deriving DecidableEq

/-! ### The location string -/

/-- `format!("{topic}/{partition}/{offset}")` -/
def encodeBusId (topic : String) (partition : I32) (offset : I64) : String :=
  String.ofList (topic.toList ++ '/' :: (toDecimal partition.val ++ '/' :: toDecimal offset.val))

/-- `parse_bus_id` -/
def parseBusId (id : String) : Option (String × I32 × I64) := do
  let parts := rsplitn 3 '/' id.toList
  let offset : I64 ← parts[0]?.bind (fromDecimal _ _)
  let partition : I32 ← parts[1]?.bind (fromDecimal _ _)
  let topic ← parts[2]?
  if topic.isEmpty then none
  else return (String.ofList topic, partition, offset)

/-! ### The three pieces -/

theorem rsplitn_three {topic partition offset : Text} (hpartition : '/' ∉ partition)
    (hoffset : '/' ∉ offset) :
    rsplitn 3 '/' (topic ++ '/' :: (partition ++ '/' :: offset)) = [offset, partition, topic] := by
  have hsplit : topic ++ '/' :: (partition ++ '/' :: offset) =
      (topic ++ '/' :: partition) ++ '/' :: offset := by
    rw [List.append_assoc, List.cons_append]
  rw [hsplit, rsplitn, rsplitOnce_append _ hoffset]
  show offset :: rsplitn 2 '/' (topic ++ '/' :: partition) = _
  rw [rsplitn, rsplitOnce_append _ hpartition]
  rfl

/-- A text with fewer than two separators has fewer than three pieces. -/
theorem exists_of_rsplitn_three {s : Text} {topic : Text} (h : (rsplitn 3 '/' s)[2]? = some topic) :
    ∃ partition offset, s = topic ++ '/' :: (partition ++ '/' :: offset) ∧
      rsplitn 3 '/' s = [offset, partition, topic] := by
  have hparts := h
  rw [rsplitn] at hparts
  cases hlast : rsplitOnce '/' s with
  | none =>
    rw [hlast] at hparts
    exact absurd hparts (by simp)
  | some parts =>
    obtain ⟨front, offset⟩ := parts
    rw [hlast] at hparts
    have hrest : (rsplitn 2 '/' front)[1]? = some topic := hparts
    rw [rsplitn] at hrest
    cases hnext : rsplitOnce '/' front with
    | none =>
      rw [hnext] at hrest
      exact absurd hrest (by simp)
    | some parts =>
      obtain ⟨before, partition⟩ := parts
      rw [hnext] at hrest
      have htopic : before = topic := Option.some.inj hrest
      obtain ⟨hfront, hpartition⟩ := rsplitOnce_eq_some hnext
      obtain ⟨hs, hoffset⟩ := rsplitOnce_eq_some hlast
      have hsplit : s = topic ++ '/' :: (partition ++ '/' :: offset) := by
        rw [hs, hfront, htopic, List.append_assoc, List.cons_append]
      refine ⟨partition, offset, hsplit, ?_⟩
      rw [hsplit, rsplitn_three hpartition hoffset]

theorem slash_not_mem_of_fromDecimal {lo hi : ℤ} {cs : Text} {n : BoundedInt lo hi}
    (h : fromDecimal lo hi cs = some n) : '/' ∉ cs := by
  intro hmem
  rcases mem_of_parseSigned (fromDecimal_eq_some.mp h) hmem with hc | hc | hc
  · exact absurd hc (by decide)
  · exact absurd hc (by decide)
  · exact absurd hc (by decide)

/-- A topic and two decimals, joined by slashes, are taken apart again. -/
theorem parseBusId_of_fields {id : String} {topic p o : Text} {partition : I32} {offset : I64}
    (hid : id.toList = topic ++ '/' :: (p ++ '/' :: o))
    (hpartition : fromDecimal _ _ p = some partition) (hoffset : fromDecimal _ _ o = some offset) :
    parseBusId id =
      if topic.isEmpty then none else some (String.ofList topic, partition, offset) := by
  rw [parseBusId, hid, rsplitn_three (slash_not_mem_of_fromDecimal hpartition)
    (slash_not_mem_of_fromDecimal hoffset)]
  show ((fromDecimal _ _ o).bind fun offset => (fromDecimal _ _ p).bind fun partition =>
    if topic.isEmpty then none else some (String.ofList topic, partition, offset)) = _
  rw [hpartition, hoffset, Option.bind_some, Option.bind_some]

/-- **What the parser accepts**: a topic that is not empty, and two decimals. -/
theorem parseBusId_eq_some {id topic : String} {partition : I32} {offset : I64} :
    parseBusId id = some (topic, partition, offset) ↔
      topic ≠ "" ∧ ∃ p o : Text, id.toList = topic.toList ++ '/' :: (p ++ '/' :: o) ∧
        fromDecimal _ _ p = some partition ∧ fromDecimal _ _ o = some offset := by
  constructor
  · intro h
    rw [parseBusId] at h
    obtain ⟨offset', hoffset, h⟩ := Option.bind_eq_some_iff.mp h
    obtain ⟨partition', hpartition, h⟩ := Option.bind_eq_some_iff.mp h
    obtain ⟨topic', htopic, h⟩ := Option.bind_eq_some_iff.mp h
    obtain ⟨p, o, hid, hparts⟩ := exists_of_rsplitn_three htopic
    by_cases hempty : topic'.isEmpty
    · rw [if_pos hempty] at h
      exact absurd h (by simp)
    · rw [if_neg hempty] at h
      have hloc : (String.ofList topic', partition', offset') = (topic, partition, offset) :=
        Option.some.inj h
      obtain ⟨htopic', hrest⟩ := Prod.mk.inj hloc
      obtain ⟨hpartition', hoffset'⟩ := Prod.mk.inj hrest
      rw [hparts] at hoffset hpartition
      refine ⟨fun hnil => ?_, p, o, ?_, ?_, ?_⟩
      · rw [hnil] at htopic'
        have hlist := congrArg String.toList htopic'
        rw [String.toList_ofList] at hlist
        exact hempty (List.isEmpty_iff.mpr hlist)
      · rw [hid, ← htopic', String.toList_ofList]
      · rw [← hpartition']
        exact hpartition
      · rw [← hoffset']
        exact hoffset
  · intro h
    obtain ⟨hne, p, o, hid, hpartition, hoffset⟩ := h
    have hlist : topic.toList.isEmpty = false := by
      rw [List.isEmpty_eq_false_iff]
      intro hnil
      exact hne (String.toList_inj.mp hnil)
    rw [parseBusId_of_fields hid hpartition hoffset, hlist, String.ofList_toList]
    rfl

/-! ### Encoding -/

theorem toList_encodeBusId (topic : String) (partition : I32) (offset : I64) :
    (encodeBusId topic partition offset).toList =
      topic.toList ++ '/' :: (toDecimal partition.val ++ '/' :: toDecimal offset.val) :=
  String.toList_ofList

theorem parseBusId_encodeBusId (topic : String) (partition : I32) (offset : I64) :
    parseBusId (encodeBusId topic partition offset) =
      if topic = "" then none else some (topic, partition, offset) := by
  rw [parseBusId_of_fields (toList_encodeBusId topic partition offset)
    (fromDecimal_toDecimal partition) (fromDecimal_toDecimal offset), String.ofList_toList]
  by_cases htopic : topic = ""
  · rw [if_pos htopic, htopic]
    rfl
  · rw [if_neg htopic, if_neg fun hnil => htopic (String.toList_inj.mp (List.isEmpty_iff.mp hnil))]

/-- **Decoding undoes encoding.**  A location whose topic is not empty is read back, one with the
empty topic is refused, and so two locations with topics that are not empty never share a
string. -/
theorem parse_encodeBusId :
    (∀ (topic : String) (partition : I32) (offset : I64),
      parseBusId (encodeBusId topic partition offset) =
        if topic = "" then none else some (topic, partition, offset)) ∧
    ∀ (topic topic' : String) (partition partition' : I32) (offset offset' : I64),
      topic ≠ "" → topic' ≠ "" →
      encodeBusId topic partition offset = encodeBusId topic' partition' offset' →
      (topic, partition, offset) = (topic', partition', offset') := by
  refine ⟨parseBusId_encodeBusId, fun topic topic' partition partition' offset offset' htopic
    htopic' hid => ?_⟩
  have hparse := parseBusId_encodeBusId topic partition offset
  have hparse' := parseBusId_encodeBusId topic' partition' offset'
  rw [if_neg htopic, hid] at hparse
  rw [if_neg htopic', hparse] at hparse'
  exact Option.some.inj hparse'

/-- **The strings the parser accepts.**  An accepted string is the topic, then two decimals of the
partition and the offset, each after a slash.  It is encoded as it was written if and only if both
decimals are canonical. -/
theorem encode_parseBusId (id topic : String) (partition : I32) (offset : I64)
    (h : parseBusId id = some (topic, partition, offset)) :
    topic ≠ "" ∧ ∃ p o : Text, id.toList = topic.toList ++ '/' :: (p ++ '/' :: o) ∧
      parseSigned p = some partition.val ∧ parseSigned o = some offset.val ∧
      (encodeBusId topic partition offset = id ↔ Canonical p ∧ Canonical o) := by
  obtain ⟨hne, p, o, hid, hpartition, hoffset⟩ := parseBusId_eq_some.mp h
  have hp : parseSigned p = some partition.val := fromDecimal_eq_some.mp hpartition
  have ho : parseSigned o = some offset.val := fromDecimal_eq_some.mp hoffset
  refine ⟨hne, p, o, hid, hp, ho, ?_⟩
  rw [← toDecimal_eq_iff hp, ← toDecimal_eq_iff ho]
  constructor
  · intro hencode
    have hlist := toList_encodeBusId topic partition offset
    rw [hencode, hid] at hlist
    have hparts := congrArg (rsplitn 3 '/') hlist
    rw [rsplitn_three (slash_not_mem_of_fromDecimal hpartition)
      (slash_not_mem_of_fromDecimal hoffset),
      rsplitn_three (slash_not_mem_of_fromDecimal (fromDecimal_toDecimal partition))
        (slash_not_mem_of_fromDecimal (fromDecimal_toDecimal offset))] at hparts
    obtain ⟨hoffset', hrest⟩ := List.cons.inj hparts
    obtain ⟨hpartition', -⟩ := List.cons.inj hrest
    exact ⟨hpartition'.symm, hoffset'.symm⟩
  · intro hdecimals
    apply String.toList_inj.mp
    rw [toList_encodeBusId, hdecimals.1, hdecimals.2, hid]

/-- A plus sign in front of the partition. -/
theorem plus_not_encoded : ∃ id topic partition offset,
    parseBusId id = some (topic, partition, offset) ∧
      encodeBusId topic partition offset ≠ id :=
  ⟨"orders/+3/42", "orders", .of 3, .of 42, by decide, by decide⟩

theorem encode_parseBusId_orders : parseBusId "orders/3/42" = some ("orders", .of 3, .of 42) ∧
    ∃ p o : Text, "orders/3/42".toList = "orders".toList ++ '/' :: (p ++ '/' :: o) ∧
      (encodeBusId "orders" (.of 3) (.of 42) = "orders/3/42" ↔ Canonical p ∧ Canonical o) := by
  have hparse : parseBusId "orders/3/42" = some ("orders", .of 3, .of 42) := by decide
  obtain ⟨-, p, o, hid, -, -, hiff⟩ := encode_parseBusId "orders/3/42" "orders" _ _ hparse
  exact ⟨hparse, p, o, hid, hiff⟩

end Kafkax
