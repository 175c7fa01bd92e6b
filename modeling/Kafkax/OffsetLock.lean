import Kafkax.Library.OwnedLock
import Kafkax.OffsetRefinement

/-!
# Concurrent calls on one file store

Both operations of `FileOffsetStore` lock the store with `lock_owned`, move the guard into a
blocking task, and wait for that task: they are calls under an owned lock.  A commit refuses an
offset it does not accept before it asks for the lock.  A blocking task that does not panic is
joined without an error of its own.

`stores_meet` instantiates the specification of the lock with the in-memory store: whatever the
interleaving and whoever vanishes, the calls take effect one after the other, each between its
first step and its return.  `no_lost_update` reads the consequences for the file and the callers.
-/

namespace Kafkax

open FileSystem LineText Programs MaxRegister OwnedLock

/-- How a call fails before it asks for the lock. -/
def StoreCall.refusal : StoreCall → Option KafkaError
  | .commit _ _ offset =>
    match nextOffsetOf offset with
    | .error e => some e
    | .ok _ => none
  | .committed _ _ => none

/-- The calls on a store, the file system among them. -/
abbrev StoreState (ι : Type) :=
  State ι (FileCall Entry Directory UInt8) FileCall.Response KafkaError StoreValue OffsetFs

section

variable {ι : Type} [DecidableEq ι] {path : FilePath} {calls : ι → StoreCall}

/-- One step of one of the calls, the file operations succeeding. -/
abbrev StoreStep (store : FileOffsetStore) (calls : ι → StoreCall) :
    StoreState ι → StoreState ι → Prop :=
  OwnedLock.Step performFile (Permitted True) (fun i => (calls i).refusal)
    (fun i => store.answer (calls i))

/-- The specification: the call on the in-memory store. -/
def onMemory (calls : ι → StoreCall) (i : ι) (store : MemoryOffsetStore) :
    StoreAnswer × MemoryOffsetStore :=
  store.answer (calls i)

/-- The positions that the completed commits have written to a key. -/
def written (calls : ι → StoreCall) (s : StoreState ι) (key : Key) : Set I64 :=
  {next | ∃ i, s.Completed i ∧ (calls i).nextFor key = some next}

omit [DecidableEq ι] in
/-- Alone, a call on the file store does what it does to the in-memory store. -/
theorem stores_meet (hcalls : ∀ i, FaithfulTopic (calls i).topic) :
    Meets performFile (Permitted True) (fun i => (⟨path⟩ : FileOffsetStore).answer (calls i))
      (onMemory calls) (Denotes path) :=
  fun i _ _ hdenotes => (answer_always ⟨path⟩ hdenotes (hcalls i)).forget.mono
    fun _ _ _ ⟨hclear, hanswer, hdecodes⟩ => ⟨hanswer, hclear, hdecodes⟩

omit [DecidableEq ι] in
/-- What a history of calls leaves under a key. -/
theorem lookup_after (init : MemoryOffsetStore) (history : List ι) (key : Key) :
    (after (onMemory calls) init history).inner.lookup key =
      peak (init.inner.lookup key) (history.filterMap fun i => (calls i).nextFor key) :=
  @foldl_eq_peak _ _ _ _ (fun store : MemoryOffsetStore => store.inner.lookup key) _ _
    (fun store i => lookup_answer store (calls i) key) init history

omit [DecidableEq ι] in
/-- A longer history leaves a position that is not smaller. -/
theorem lookup_after_le (init : MemoryOffsetStore) (history more : List ι) (key : Key) :
    (after (onMemory calls) init history).inner.lookup key ≤
      (after (onMemory calls) init (history ++ more)).inner.lookup key := by
  rw [lookup_after, lookup_after, List.filterMap_append]
  exact le_peak_append _ _ _

variable {init : MemoryOffsetStore} {history : List ι} {s : StoreState ι}

/-- The invariant of `OwnedLock`, for the two stores. -/
abbrev StoreInvariant (path : FilePath) (calls : ι → StoreCall) (init : MemoryOffsetStore)
    (history : List ι) (s : StoreState ι) : Prop :=
  Linearised performFile (Permitted True) (onMemory calls) (Denotes path) init history s

omit [DecidableEq ι] in
/-- Between two programs the file is at the maximum of the completed commits. -/
theorem isPeak_of_settled (h : StoreInvariant path calls init history s)
    (hidle : ∀ i, ¬ s.Running i) :
    ∃ map, decodeFile (s.shared.contents path) = .ok map ∧
      ∀ key, IsPeak (init.inner.lookup key) (written calls s key) (map.lookup key) := by
  refine ⟨_, (h.settled hidle).decodes, fun key => ?_⟩
  have hwritten : written calls s key =
      {next | next ∈ history.filterMap fun i => (calls i).nextFor key} := by
    ext next
    simp only [written, Set.mem_ofPred_eq, List.mem_filterMap, h.completed]
  rw [hwritten, lookup_after]
  exact isPeak_peak _ _

omit [DecidableEq ι] in
/-- A read that returned has read the position that some part of the history leaves. -/
theorem read_of_returned (h : StoreInvariant path calls init history s) {i : ι} {topic : String}
    {partition : I32} {position : Option I64} (hcall : calls i = .committed topic partition)
    (hreturned : s.caller i = .returned (.ok (.position position))) :
    ∃ earlier later, history = earlier ++ i :: later ∧
      position = (after (onMemory calls) init earlier).inner.lookup (topic, partition) := by
  obtain ⟨earlier, later, hsplit, hanswer⟩ := h.answered i _ (h.returned i _ hreturned)
  refine ⟨earlier, later, hsplit, ?_⟩
  rw [onMemory, hcall, MemoryOffsetStore.answer, MemoryOffsetStore.committed] at hanswer
  exact StoreValue.position.inj (Except.ok.inj hanswer)

omit [DecidableEq ι] in
/-- A commit that returned `Ok` has written its position. -/
theorem written_of_returned (h : StoreInvariant path calls init history s) {i : ι}
    {topic : String} {partition : I32} {offset : I64} {value : StoreValue}
    (hcall : calls i = .commit topic partition offset)
    (hreturned : s.caller i = .returned (.ok value)) :
    ∃ next ∈ written calls s (topic, partition), next.val = offset.val + 1 := by
  have hfinished := h.returned i _ hreturned
  obtain ⟨earlier, later, -, hanswer⟩ := h.answered i _ hfinished
  rw [onMemory, hcall, MemoryOffsetStore.answer, MemoryOffsetStore.commit] at hanswer
  cases hnext : nextOffsetOf offset with
  | error e =>
    rw [hnext] at hanswer
    exact absurd hanswer (by simp [Except.map])
  | ok next =>
    have hwrite : (calls i).nextFor (topic, partition) = some next :=
      nextFor_eq_some.mpr ⟨offset, hcall, hnext⟩
    exact ⟨next, ⟨i, ⟨_, hfinished⟩, hwrite⟩, (nextOffsetOf_eq_ok.mp hnext).2⟩

omit [DecidableEq ι] in
/-- A call that comes after a whole history reads no less than one that is in it. -/
theorem read_le_read {more : List ι} {s' : StoreState ι}
    (h : StoreInvariant path calls init history s)
    (h' : StoreInvariant path calls init (history ++ more) s') {i j : ι} {topic : String}
    {partition : I32} {first second : Option I64}
    (hi : calls i = .committed topic partition) (hj : calls j = .committed topic partition)
    (hfirst : s.caller i = .returned (.ok (.position first))) (hidle : s.caller j = .idle)
    (hsecond : s'.caller j = .returned (.ok (.position second))) : first ≤ second := by
  obtain ⟨before, _, hbefore, rfl⟩ := read_of_returned h hi hfirst
  obtain ⟨earlier, later, hearlier, rfl⟩ := read_of_returned h' hj hsecond
  -- the second call is not in the history of the first state, so all of it comes earlier
  have hnew : j ∉ history := by
    intro hmem
    obtain ⟨answer, hfinished⟩ := (h.completed j).mp hmem
    rw [h.early j (by rw [hidle]; exact trivial)] at hfinished
    exact absurd hfinished (by simp)
  obtain ⟨rest, rfl⟩ : ∃ rest, earlier = history ++ rest := by
    rcases List.append_eq_append_iff.mp hearlier with ⟨rest, hrest, -⟩ | ⟨rest, hrest, hcons⟩
    · exact ⟨rest, hrest⟩
    · cases rest with
      | nil => exact ⟨[], by rw [hrest, List.append_nil, List.append_nil]⟩
      | cons k rest =>
        have hk : j = k := (List.cons.inj hcons).1
        rw [hrest, hk] at hnew
        exact absurd (List.mem_append_right _ List.mem_cons_self) hnew
  rw [hbefore, List.append_assoc]
  exact lookup_after_le init before _ (topic, partition)

/-- **No lost update.**  For any number of calls on one file store whose file operations succeed, in
any interleaving, with callers dropped wherever they wait: at most one load-and-save runs at a time;
whenever none runs, the file denotes, under every key, the maximum of its first position and those
of the commits completed by then; a commit that returned `Ok` is one of them, with the position
after its offset; and of two reads of a key, the second of which began after the first had returned,
the second does not return less. -/
theorem no_lost_update {fs : OffsetFs} {map : OffsetMap}
    (hcalls : ∀ i, FaithfulTopic (calls i).topic) (hclear : fs.Clear path.tmp path)
    (hmap : decodeFile (fs.contents path) = .ok map) {s : StoreState ι}
    (hrun : Relation.ReflTransGen (StoreStep ⟨path⟩ calls) (.start fs) s) :
    (∀ i j, s.Running i → s.Running j → i = j) ∧
    ((∀ i, ¬ s.Running i) → ∃ now, decodeFile (s.shared.contents path) = .ok now ∧
      ∀ key, IsPeak (map.lookup key) (written calls s key) (now.lookup key)) ∧
    (∀ i topic partition offset value, calls i = .commit topic partition offset →
      s.caller i = .returned (.ok value) →
      s.Completed i ∧ ∃ next ∈ written calls s (topic, partition), next.val = offset.val + 1) ∧
    ∀ s', Relation.ReflTransGen (StoreStep ⟨path⟩ calls) s s' →
      ∀ i j topic partition first second, calls i = .committed topic partition →
        calls j = .committed topic partition →
        s.caller i = .returned (.ok (.position first)) → s.caller j = .idle →
        s'.caller j = .returned (.ok (.position second)) → first ≤ second := by
  have hmeets := @stores_meet ι path calls hcalls
  have hstart : StoreInvariant path calls ⟨map⟩ [] (.start fs) := linearised_start ⟨hclear, hmap⟩
  obtain ⟨history, h⟩ := linearised_run hmeets hstart hrun
  refine ⟨fun i j => h.exclusive, isPeak_of_settled h, ?_, ?_⟩
  · intro i topic partition offset value hcall hreturned
    exact ⟨⟨_, h.returned i _ hreturned⟩, written_of_returned h hcall hreturned⟩
  · intro s' hrun' i j topic partition first second hi hj hfirst hidle hsecond
    obtain ⟨more, h'⟩ := linearised_run hmeets h hrun'
    exact read_le_read h h' hi hj hfirst hidle hsecond

end

/-- A commit and a read of one key. -/
def commitAndRead : Bool → StoreCall
  | true => .commit "orders" 0 (.of 5)
  | false => .committed "orders" 0

/-- The caller of the commit vanishes when its task has just begun. -/
theorem dropped_commit_reachable : ∃ s,
    Relation.ReflTransGen (StoreStep ⟨offsetsTsv⟩ commitAndRead) (.start Fs.empty) s ∧
      s.caller true = .dropped ∧ s.Running true := by
  have hrequest : StoreStep ⟨offsetsTsv⟩ commitAndRead (.start Fs.empty) _ :=
    .request true rfl (by decide)
  have hgrant := (Relation.ReflTransGen.single hrequest).tail (.grant true rfl rfl)
  have hspawn := hgrant.tail (.spawn true rfl)
  have hdrop := hspawn.tail (.dropAwaiting true rfl)
  exact ⟨_, hdrop, rfl, ⟨_, rfl⟩⟩

theorem no_lost_update_orders : ∃ s,
    Relation.ReflTransGen (StoreStep ⟨offsetsTsv⟩ commitAndRead) (.start Fs.empty) s ∧
      s.caller true = .dropped ∧ s.Running true ∧
      ∀ i j, s.Running i → s.Running j → i = j := by
  obtain ⟨s, hrun, hdropped, hrunning⟩ := dropped_commit_reachable
  have hcalls : ∀ i, FaithfulTopic (commitAndRead i).topic := by decide
  exact ⟨s, hrun, hdropped, hrunning,
    (@no_lost_update Bool _ offsetsTsv commitAndRead Fs.empty ∅ hcalls
      (clear_empty (by decide) rfl) rfl s hrun).1⟩

end Kafkax
