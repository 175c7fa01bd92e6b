import Mathlib.Data.Finmap
import Kafkax.Error
import Kafkax.Library.BoundedInt
import Kafkax.Library.MaxRegister

/-!
# Offset tables

The table of an offset store maps `(topic, partition)` to the next offset to read.  A commit of a
delivered offset computes `offset + 1`, refusing a negative offset and `i64::MAX`, and merges it
into the table by `entry(..).or_insert(next)` followed by `max`: seen at one key this is one write
of a `MaxRegister` (`lookup_raise_self`), and every other key keeps its entry.

`MemoryOffsetStore` is the in-memory implementation of the store.
-/

namespace Kafkax

open BoundedIntegers MaxRegister

/-- `i32` -/
abbrev I32 := BoundedInt (-2147483648) 2147483647

/-- `i64` -/
abbrev I64 := BoundedInt (-9223372036854775808) 9223372036854775807

/-- The literals of `i32` and `i64`. -/
abbrev I32.of (n : ℤ) (h : -2147483648 ≤ n ∧ n ≤ 2147483647 := by decide) : I32 := ⟨n, h.1, h.2⟩

@[inherit_doc I32.of] abbrev I64.of (n : ℤ)
    (h : -9223372036854775808 ≤ n ∧ n ≤ 9223372036854775807 := by decide) : I64 := ⟨n, h.1, h.2⟩

instance : Zero I32 := ⟨.of 0⟩

/-- The key of a stored position: topic and partition. -/
abbrev Key := String × I32

/-- The key of the runs that the development exhibits. -/
abbrev ordersKey : Key := ("orders", 0)

/-- `HashMap<(String, i32), i64>` -/
abbrev OffsetMap := Finmap fun _ : Key => I64

/-- The next offset to read after `offset`; a negative offset and an overflow are errors. -/
def nextOffsetOf (offset : I64) : KafkaResult I64 :=
  if offset.val < 0 then .error (.config "commit offset 不能为负")
  else
    match offset.checkedAdd 1 with
    | some next => .ok next
    | none => .error (.config "commit offset 溢出 i64")

/-- `let entry = map.entry(key).or_insert(next); *entry = (*entry).max(next)` -/
def OffsetMap.raise (map : OffsetMap) (key : Key) (next : I64) : OffsetMap :=
  map.insert key (max ((map.lookup key).getD next) next)

/-! ### Committable offsets -/

/-- The offsets a commit accepts. -/
def Committable (offset : I64) : Prop := 0 ≤ offset.val ∧ offset.val ≠ 9223372036854775807

instance : DecidablePred Committable := fun offset =>
  inferInstanceAs (Decidable (0 ≤ offset.val ∧ offset.val ≠ 9223372036854775807))

theorem nextOffsetOf_eq_ok {offset next : I64} :
    nextOffsetOf offset = .ok next ↔ Committable offset ∧ next.val = offset.val + 1 := by
  have hmax := offset.le_hi
  have hle := next.le_hi
  rw [nextOffsetOf, Committable]
  split
  · rename_i hneg
    simp only [reduceCtorEq, false_iff]
    omega
  · rename_i hnonneg
    cases h : offset.checkedAdd 1 with
    | none =>
      rcases ofInt?_eq_none.mp h with h | h <;> simp only [reduceCtorEq, false_iff] <;> omega
    | some n =>
      have hn : n.val = offset.val + 1 := ofInt?_eq_some.mp h
      have hnle := n.le_hi
      simp only [Except.ok.injEq]
      constructor
      · rintro rfl
        omega
      · rintro ⟨-, hnext⟩
        exact BoundedInt.ext (hn.trans hnext.symm)

/-- A commit fails at this point exactly for the offsets it does not accept. -/
theorem nextOffsetOf_isOk (offset : I64) :
    (∃ next, nextOffsetOf offset = .ok next) ↔ Committable offset := by
  constructor
  · rintro ⟨next, h⟩
    exact (nextOffsetOf_eq_ok.mp h).1
  · intro h
    have hmax := offset.le_hi
    have hlo := h.1
    have hne := h.2
    exact ⟨⟨offset.val + 1, by omega, by omega⟩, nextOffsetOf_eq_ok.mpr ⟨h, rfl⟩⟩

/-! ### Raising an entry -/

@[simp] theorem lookup_raise_self (map : OffsetMap) (key : Key) (next : I64) :
    (map.raise key next).lookup key = MaxRegister.raise next (map.lookup key) := by
  rw [OffsetMap.raise, Finmap.lookup_insert]
  cases map.lookup key with
  | none => rw [Option.getD_none, max_self, raise_none]
  | some old => rw [Option.getD_some, raise_some]

theorem lookup_raise_of_ne (map : OffsetMap) {key other : Key} (next : I64) (h : other ≠ key) :
    (map.raise key next).lookup other = map.lookup other :=
  Finmap.lookup_insert_of_ne map h

theorem lookup_raise (map : OffsetMap) (key other : Key) (next : I64) :
    (map.raise key next).lookup other =
      if other = key then MaxRegister.raise next (map.lookup other) else map.lookup other := by
  split
  · rename_i h
    rw [h, lookup_raise_self]
  · rename_i h
    exact lookup_raise_of_ne map next h

theorem mem_raise {map : OffsetMap} {key other : Key} {next : I64} :
    other ∈ map.raise key next ↔ other = key ∨ other ∈ map := by
  rw [OffsetMap.raise, Finmap.mem_insert]

/-- Raising twice is raising once. -/
theorem raise_raise_self (map : OffsetMap) (key : Key) (next : I64) :
    (map.raise key next).raise key next = map.raise key next := by
  refine Finmap.ext_lookup fun other => ?_
  rw [lookup_raise, lookup_raise]
  split
  · exact raise_raise next _
  · rfl

/-! ### Calls -/

/-- The two operations of `OffsetCommitStore`, with their arguments. -/
inductive StoreCall where
  | commit (topic : String) (partition : I32) (offset : I64)
  | committed (topic : String) (partition : I32)
deriving DecidableEq

/-- What a successful operation returns: `()`, or the position of a key. -/
inductive StoreValue where
  | done
  | position (next : Option I64)
deriving DecidableEq

/-- What the operations return. -/
abbrev StoreAnswer := KafkaResult StoreValue

/-- The topic of a call. -/
def StoreCall.topic : StoreCall → String
  | .commit topic _ _ => topic
  | .committed topic _ => topic

/-- The write a call makes to the position of a key, if any. -/
def StoreCall.nextFor (key : Key) : StoreCall → Option I64
  | .commit topic partition offset =>
    if (topic, partition) = key then (nextOffsetOf offset).toOption else none
  | .committed _ _ => none

theorem nextFor_eq_some {key : Key} {call : StoreCall} {next : I64} :
    call.nextFor key = some next ↔
      ∃ offset, call = .commit key.1 key.2 offset ∧ nextOffsetOf offset = .ok next := by
  cases call with
  | committed topic partition => simp [StoreCall.nextFor]
  | commit topic partition offset =>
    rw [StoreCall.nextFor]
    by_cases hkey : (topic, partition) = key
    · rw [if_pos hkey, ← hkey]
      cases hnext : nextOffsetOf offset with
      | error e => simp [Except.toOption, hnext]
      | ok n => simp [Except.toOption, hnext]
    · rw [if_neg hkey]
      simp only [reduceCtorEq, StoreCall.commit.injEq, false_iff, not_exists, not_and, and_imp]
      intro offset htopic hpartition
      exact absurd (Prod.ext htopic hpartition) hkey

/-! ### The in-memory store -/

/-- `MemoryOffsetStore` -/
structure MemoryOffsetStore where
  inner : OffsetMap

namespace MemoryOffsetStore

/-- The empty store. -/
def new : MemoryOffsetStore := ⟨∅⟩

/-- `MemoryOffsetStore::committed` -/
def committed (self : MemoryOffsetStore) (topic : String) (partition : I32) :
    KafkaResult (Option I64) :=
  .ok (self.inner.lookup (topic, partition))

/-- `MemoryOffsetStore::commit` -/
def commit (self : MemoryOffsetStore) (topic : String) (partition : I32) (offset : I64) :
    KafkaResult Unit × MemoryOffsetStore :=
  match nextOffsetOf offset with
  | .error e => (.error e, self)
  | .ok next => (.ok (), ⟨self.inner.raise (topic, partition) next⟩)

/-- A call on the store. -/
def answer (self : MemoryOffsetStore) : StoreCall → StoreAnswer × MemoryOffsetStore
  | .commit topic partition offset =>
    ((self.commit topic partition offset).1.map fun _ => .done,
      (self.commit topic partition offset).2)
  | .committed topic partition => ((self.committed topic partition).map .position, self)

end MemoryOffsetStore

/-- **A call** writes to the register of its own key and leaves the other keys alone. -/
theorem lookup_answer (store : MemoryOffsetStore) (call : StoreCall) (key : Key) :
    (store.answer call).2.inner.lookup key =
      peak (store.inner.lookup key) (call.nextFor key).toList := by
  cases call with
  | committed topic partition => rfl
  | commit topic partition offset =>
    rw [MemoryOffsetStore.answer, MemoryOffsetStore.commit, StoreCall.nextFor]
    cases nextOffsetOf offset with
    | error e =>
      by_cases hkey : (topic, partition) = key
      · rw [if_pos hkey]
        rfl
      · rw [if_neg hkey]
        rfl
    | ok next =>
      by_cases hkey : (topic, partition) = key
      · rw [if_pos hkey, ← hkey]
        exact lookup_raise_self _ _ _
      · rw [if_neg hkey]
        exact lookup_raise_of_ne _ next (Ne.symm hkey)

theorem lookup_le_answer (store : MemoryOffsetStore) (call : StoreCall) (key : Key) :
    store.inner.lookup key ≤ (store.answer call).2.inner.lookup key := by
  rw [lookup_answer]
  exact le_peak _ _

/-! ### Any store -/

/-- How a commit on a store ends, if it is not refused: it may fail before or after the write. -/
inductive CommitOutcome where
  | ok
  | lost (error : KafkaError)
  | written (error : KafkaError)

/-- Whether the write takes place. -/
def CommitOutcome.writes : CommitOutcome → Bool
  | .lost _ => false
  | _ => true

/-- `OffsetCommitStore::commit`, on the table of any store. -/
def OffsetMap.commit (table : OffsetMap) (topic : String) (partition : I32) (offset : I64)
    (outcome : CommitOutcome) : KafkaResult Unit × OffsetMap :=
  match nextOffsetOf offset with
  | .error e => (.error e, table)
  | .ok next =>
    match outcome with
    | .ok => (.ok (), table.raise (topic, partition) next)
    | .lost e => (.error e, table)
    | .written e => (.error e, table.raise (topic, partition) next)

/-- The in-memory store is a store whose commits do not fail. -/
theorem memory_commit (store : MemoryOffsetStore) (topic : String) (partition : I32)
    (offset : I64) :
    store.commit topic partition offset =
      ((store.inner.commit topic partition offset .ok).1,
        ⟨(store.inner.commit topic partition offset .ok).2⟩) := by
  rw [MemoryOffsetStore.commit, OffsetMap.commit]
  cases nextOffsetOf offset with
  | error e => rfl
  | ok next => rfl

end Kafkax
