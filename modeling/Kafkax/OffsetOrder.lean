import Kafkax.OffsetRefinement

/-!
# The order of the writes

A position is the maximum of what was written to it, and the file is written sorted.  So neither
the positions nor the bytes of the file tell in which order they were written, or how often.

* `files_converge`: two files that denote one table, under stores that received the same commits,
  end up with the same bytes, whatever was left of their temporary files.
* `put_next_positions`: `put_next` is one more write to a position; it can be traded for a `commit`
  except at position 0.
* `migrated_store_agrees`: the entries of a file, put into a new in-memory store in any order, make
  a store that answers every later call as the file store does.
-/

namespace Kafkax

open FileSystem LineText Programs Program BoundedIntegers MaxRegister

/-! ### Runs from any table -/

variable {path : FilePath} {env : ℕ → Outcome}

/-- An in-memory store after a list of steps. -/
def MemoryOffsetStore.afterAll (self : MemoryOffsetStore) (steps : List ClientStep) :
    MemoryOffsetStore := steps.foldl MemoryOffsetStore.after self

/-- **A whole run**, from any table that the file denotes. -/
theorem represents_afterAll (henv : ∀ n, (env n).IsOk) {store : MemoryOffsetStore}
    {session : FileSession} (h : Represents path store session) {steps : List ClientStep}
    (hsteps : ∀ step ∈ steps, step.Faithful) :
    Represents path (store.afterAll steps) (fileAfter env session steps) := by
  induction steps generalizing store session with
  | nil => exact h
  | cons step rest ih =>
    have hrest : ∀ s ∈ rest, s.Faithful := fun s hs => hsteps s (List.mem_cons_of_mem _ hs)
    exact ih (represents_step henv h (hsteps step List.mem_cons_self)) hrest

/-! ### What a save leaves -/

/-- `MemoryOffsetStore::put_next` -/
def MemoryOffsetStore.putNext (self : MemoryOffsetStore) (topic : String) (partition : I32)
    (nextOffset : I64) : KafkaResult Unit × MemoryOffsetStore :=
  if nextOffset.val < 0 then (.error (.config "next offset 不能为负"), self)
  else (.ok (), ⟨self.inner.raise (topic, partition) nextOffset⟩)

/-- The calls on an in-memory store; each holds the lock to its end, so they come one by one. -/
inductive MemoryCall where
  | store (call : StoreCall)
  | putNext (topic : String) (partition : I32) (nextOffset : I64)

/-- A call on the in-memory store. -/
def MemoryOffsetStore.handle (self : MemoryOffsetStore) :
    MemoryCall → StoreAnswer × MemoryOffsetStore
  | .store made => self.answer made
  | .putNext topic partition nextOffset =>
    ((self.putNext topic partition nextOffset).1.map fun _ => .done,
      (self.putNext topic partition nextOffset).2)

/-- An in-memory store after a list of calls. -/
def MemoryOffsetStore.handleAll (self : MemoryOffsetStore) (calls : List MemoryCall) :
    MemoryOffsetStore := calls.foldl (fun store call => (store.handle call).2) self

/-- The write a call makes to the position of a key, if any. -/
def MemoryCall.nextFor (key : Key) : MemoryCall → Option I64
  | .store made => made.nextFor key
  | .putNext topic partition nextOffset =>
    if (topic, partition) = key ∧ 0 ≤ nextOffset.val then some nextOffset else none

/-- The writes that the calls make to the position of a key. -/
def putTo (calls : List MemoryCall) (key : Key) : Set I64 :=
  {next | ∃ call ∈ calls, call.nextFor key = some next}

/-- The commit of the offset before a position. -/
def MemoryCall.traded : MemoryCall → MemoryCall
  | .store made => .store made
  | .putNext topic partition nextOffset =>
    if h : 1 ≤ nextOffset.val then
      .store (.commit topic partition
        ⟨nextOffset.val - 1, by omega, by have := nextOffset.le_hi; omega⟩)
    else .putNext topic partition nextOffset

/-- A call writes to the register of its own key and leaves the other keys alone. -/
theorem lookup_handle (store : MemoryOffsetStore) (call : MemoryCall) (key : Key) :
    (store.handle call).2.inner.lookup key =
      peak (store.inner.lookup key) (call.nextFor key).toList := by
  cases call with
  | store made => exact lookup_answer store made key
  | putNext topic partition nextOffset =>
    rw [MemoryOffsetStore.handle, MemoryOffsetStore.putNext, MemoryCall.nextFor]
    by_cases hneg : nextOffset.val < 0
    · rw [if_pos hneg, if_neg fun h => absurd h.2 (not_le.mpr hneg)]
      rfl
    · rw [if_neg hneg]
      by_cases hkey : (topic, partition) = key
      · rw [if_pos ⟨hkey, not_lt.mp hneg⟩, ← hkey]
        exact lookup_raise_self _ _ _
      · rw [if_neg fun h => hkey h.1]
        exact lookup_raise_of_ne _ nextOffset (Ne.symm hkey)

theorem lookup_handleAll (store : MemoryOffsetStore) (calls : List MemoryCall) (key : Key) :
    (store.handleAll calls).inner.lookup key =
      peak (store.inner.lookup key) (calls.filterMap (MemoryCall.nextFor key)) :=
  @foldl_eq_peak _ _ _ _ (fun x => x.inner.lookup key) _ _
    (fun x call => lookup_handle x call key) store calls

/-- A `put_next` of a positive position is answered and stored as the commit before it. -/
theorem handle_traded (store : MemoryOffsetStore) (call : MemoryCall) :
    store.handle call.traded = store.handle call := by
  cases call with
  | store made => rfl
  | putNext topic partition nextOffset =>
    rw [MemoryCall.traded]
    by_cases hpos : 1 ≤ nextOffset.val
    · have hnext : nextOffsetOf ⟨nextOffset.val - 1, by omega, by have := nextOffset.le_hi; omega⟩ =
          .ok nextOffset := by
        have hmax := nextOffset.le_hi
        refine nextOffsetOf_eq_ok.mpr ⟨⟨?_, ?_⟩, ?_⟩ <;> dsimp only <;> omega
      have hlegal : ¬ nextOffset.val < 0 := by omega
      rw [dif_pos hpos, MemoryOffsetStore.handle, MemoryOffsetStore.answer,
        MemoryOffsetStore.commit, hnext, MemoryOffsetStore.handle, MemoryOffsetStore.putNext,
        if_neg hlegal]
    · rw [dif_neg hpos]

theorem handleAll_map_traded (store : MemoryOffsetStore) (calls : List MemoryCall) :
    store.handleAll (calls.map MemoryCall.traded) = store.handleAll calls := by
  induction calls generalizing store with
  | nil => rfl
  | cons call rest ih =>
    show ((store.handle call.traded).2).handleAll (rest.map MemoryCall.traded) =
      ((store.handle call).2).handleAll rest
    rw [handle_traded]
    exact ih _

theorem mem_filterMap_putTo {calls : List MemoryCall} {key : Key} {next : I64} :
    next ∈ calls.filterMap (MemoryCall.nextFor key) ↔ next ∈ putTo calls key := List.mem_filterMap

/-- **Positions** of an in-memory store.  After any calls, of `commit`, `committed` and `put_next`,
every position is the maximum of its old value and what was written to it, so the order and the
repetition of the calls make no difference; and a `put_next` of any position from 1 on may be the
`commit` of the offset before it, which is answered alike. -/
theorem put_next_positions (store : MemoryOffsetStore) (calls : List MemoryCall) :
    (∀ key, IsPeak (store.inner.lookup key) (putTo calls key)
      ((store.handleAll calls).inner.lookup key)) ∧
    (∀ calls', (∀ key, putTo calls key = putTo calls' key) →
      store.handleAll calls = store.handleAll calls') ∧
    store.handleAll (calls.map MemoryCall.traded) = store.handleAll calls ∧
    ∀ call, ((store.handleAll calls).handle (MemoryCall.traded call)).1 =
      ((store.handleAll calls).handle call).1 := by
  refine ⟨fun key => ?_, fun calls' hsame => ?_, handleAll_map_traded store calls, fun call =>
    congrArg Prod.fst (handle_traded _ call)⟩
  · have hpeak := isPeak_peak (store.inner.lookup key) (calls.filterMap (MemoryCall.nextFor key))
    have hset : {next | next ∈ calls.filterMap (MemoryCall.nextFor key)} = putTo calls key :=
      Set.ext fun next => mem_filterMap_putTo
    rw [hset, ← lookup_handleAll] at hpeak
    exact hpeak
  · refine congrArg MemoryOffsetStore.mk (Finmap.ext_lookup fun key => ?_)
    show (store.handleAll calls).inner.lookup key = (store.handleAll calls').inner.lookup key
    rw [lookup_handleAll, lookup_handleAll]
    apply peak_congr
    intro next
    rw [mem_filterMap_putTo, mem_filterMap_putTo, hsame]

/-- The `put_next` calls that write the entries. -/
def putAll (entries : List (Key × I64)) : List MemoryCall :=
  entries.map fun entry => .putNext entry.1.1 entry.1.2 entry.2

theorem mem_putTo_putAll {entries : List (Key × I64)} (hlegal : ∀ entry ∈ entries, 0 ≤ entry.2.val)
    {key : Key} {next : I64} : next ∈ putTo (putAll entries) key ↔ (key, next) ∈ entries := by
  constructor
  · rintro ⟨made, hmade, hnext⟩
    obtain ⟨entry, hentry, rfl⟩ := List.mem_map.mp hmade
    rw [MemoryCall.nextFor] at hnext
    split at hnext
    · rename_i hkey
      rw [← hkey.1, ← Option.some.inj hnext]
      exact hentry
    · cases hnext
  · intro hentry
    exact ⟨_, List.mem_map_of_mem hentry, if_pos ⟨rfl, hlegal _ hentry⟩⟩

/-- **The entries of a table**, put in any order and any number of times into a new store, make a
store of that table. -/
theorem handleAll_putAll {map : OffsetMap} {entries : List (Key × I64)}
    (hentries : ∀ key next, (key, next) ∈ entries ↔ map.lookup key = some next)
    (hlegal : ∀ entry ∈ entries, 0 ≤ entry.2.val) :
    MemoryOffsetStore.new.handleAll (putAll entries) = ⟨map⟩ := by
  refine congrArg MemoryOffsetStore.mk (Finmap.ext_lookup fun key => ?_)
  show (MemoryOffsetStore.new.handleAll (putAll entries)).inner.lookup key = _
  rw [lookup_handleAll]
  have hwritten : ∀ next, next ∈ (putAll entries).filterMap (MemoryCall.nextFor key) ↔
      map.lookup key = some next := fun next => by
    rw [mem_filterMap_putTo, mem_putTo_putAll hlegal, hentries]
  show peak ((∅ : OffsetMap).lookup key) _ = _
  rw [Finmap.lookup_empty]
  cases hlookup : map.lookup key with
  | none =>
    refine peak_eq_none_iff.mpr ⟨rfl, List.eq_nil_iff_forall_not_mem.mpr fun next hnext => ?_⟩
    rw [hwritten, hlookup] at hnext
    cases hnext
  | some next =>
    have hnext := (hwritten next).mpr hlookup
    refine peak_eq_some_iff.mpr ⟨Or.inr hnext, fun old hold => ?_, fun other hother => ?_⟩
    · cases hold
    · have hsame := (hwritten other).mp hother
      rw [hlookup] at hsame
      exact le_of_eq (Option.some.inj hsame).symm

/-- **A migrated store agrees.**  Put the entries of an offset file, in any order, into a new
in-memory store by `put_next`: it then answers every call, after any other calls on both, as the
file store does, as long as the file operations succeed. -/
theorem migrated_store_agrees {fs : OffsetFs} {map : OffsetMap} (henv : ∀ n, (env n).IsOk)
    (hclear : fs.Clear path.tmp path) (hmap : decodeFile (fs.contents path) = .ok map)
    (entries : List (Key × I64))
    (hentries : ∀ key next, (key, next) ∈ entries ↔ map.lookup key = some next)
    (hlegal : ∀ entry ∈ entries, 0 ≤ entry.2.val) (earlier : List ClientStep) (call : StoreCall)
    (hearlier : ∀ step ∈ earlier, step.Faithful) (hcall : FaithfulTopic call.topic) :
    let memory := (MemoryOffsetStore.new.handleAll (putAll entries)).afterAll earlier
    let file := fileAfter env ⟨⟨path⟩, fs, 0⟩ earlier
    (memory.answer call).1 = (file.answer env call).1 ∧
      decodeFile (file.fs.contents path) = .ok memory.inner := by
  intro memory file
  have hstart : Represents path (MemoryOffsetStore.new.handleAll (putAll entries))
      ⟨⟨path⟩, fs, 0⟩ := by
    rw [handleAll_putAll hentries hlegal]
    exact ⟨rfl, hclear, hmap⟩
  have hrep : Represents path memory file := represents_afterAll henv hstart hearlier
  exact ⟨(answer_eq henv hrep hcall).1, hrep.denotes.decodes⟩

/-- One position in a file, migrated and raised on both sides. -/
theorem migrated_store_agrees_orders :
    let fs : OffsetFs := oneTable offsetsTsv ((∅ : OffsetMap).raise ordersKey (.of 5))
    let raised : List ClientStep := [.call (.commit "orders" 0 (.of 9))]
    (((MemoryOffsetStore.new.handleAll (putAll [(ordersKey, .of 5)])).afterAll raised).answer
        (.committed "orders" 0)).1 =
      ((fileAfter (fun _ => .ok 0) ⟨⟨offsetsTsv⟩, fs, 0⟩ raised).answer (fun _ => .ok 0)
        (.committed "orders" 0)).1 := by
  intro fs raised
  have horders : FaithfulTopic "orders" := by decide
  have hfaithful : FaithfulMap ((∅ : OffsetMap).raise ordersKey (.of 5)) :=
    faithful_empty.raise horders _
  have hentries : ∀ key next, (key, next) ∈ [(ordersKey, I64.of 5)] ↔
      ((∅ : OffsetMap).raise ordersKey (.of 5)).lookup key = some next := by
    intro key next
    rw [List.mem_singleton, Prod.mk.injEq, lookup_raise]
    by_cases hkey : key = ordersKey
    · rw [if_pos hkey, Finmap.lookup_empty, raise_none, Option.some.injEq, and_iff_right hkey,
        eq_comm]
    · rw [if_neg hkey, Finmap.lookup_empty]
      exact iff_of_false (fun h => hkey h.1) fun h => by cases h
  refine (@migrated_store_agrees offsetsTsv (fun _ => .ok 0) fs _ (fun _ => trivial)
    (clear_oneFile _ (by decide)) (decodeFile_oneTable hfaithful) [(ordersKey, .of 5)] hentries ?_
    raised
    (.committed "orders" 0) ?_ horders).1
  · intro entry hentry
    rw [List.mem_singleton.mp hentry]
    decide
  · intro step hstep
    rw [List.mem_singleton.mp hstep]
    exact horders

end Kafkax
