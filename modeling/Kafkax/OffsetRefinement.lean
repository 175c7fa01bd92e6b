import Kafkax.OffsetFile

/-!
# One specification of the two offset stores

A client calls `commit` and `committed`, and may drop a file store and open it again on the same
path.  Seen through its calls the in-memory store and the file store are the same object: the
simulation `Represents` relates the table in memory to the table the file denotes, and every call
on faithful topics keeps it and is answered alike on both sides (`answer_eq`).

What the object is, is said by the history alone: `IsPosition` is the position a list of earlier
steps leaves under a key.

The second half drops the assumption on the topics.  The format is shared by all keys, and
`commit` accepts topics on which it is not faithful: `commit_isolated_iff` says for which calls
the other keys, and the key itself, are safe.
-/

namespace Kafkax

open FileSystem LineText Programs Program BoundedIntegers MaxRegister

/-! ### Runs of a client -/

/-- What a client does: it calls the store, or drops it and opens it again on the same path. -/
inductive ClientStep where
  | call (made : StoreCall)
  | reopen
deriving DecidableEq

/-- The topic of the step is faithful. -/
def ClientStep.Faithful : ClientStep → Prop
  | .call made => FaithfulTopic made.topic
  | .reopen => True

/-- A step on the in-memory store; it has no file to be opened again on. -/
def MemoryOffsetStore.after (self : MemoryOffsetStore) : ClientStep → MemoryOffsetStore
  | .call made => (self.answer made).2
  | .reopen => self

/-- A file store in use: the store, the file system, and the number of calls made to it. -/
structure FileSession where
  store : FileOffsetStore
  fs : OffsetFs
  calls : ℕ

/-- A call on the file store. -/
def FileSession.answer (env : ℕ → Outcome) (self : FileSession) (call : StoreCall) :
    StoreAnswer × FileSession :=
  let result := run performFile env (self.store.answer call) self.calls self.fs
  (result.1, ⟨self.store, result.2.2, result.2.1⟩)

/-- A step on the file store; opening it again makes a new store on the same path. -/
def FileSession.after (env : ℕ → Outcome) (self : FileSession) : ClientStep → FileSession
  | .call made => (self.answer env made).2
  | .reopen => ⟨⟨self.store.path⟩, self.fs, self.calls⟩

/-- The in-memory store, new, after a list of steps. -/
def memoryAfter (steps : List ClientStep) : MemoryOffsetStore :=
  steps.foldl MemoryOffsetStore.after MemoryOffsetStore.new

/-- A file store after a list of steps. -/
def fileAfter (env : ℕ → Outcome) (session : FileSession) (steps : List ClientStep) : FileSession :=
  steps.foldl (FileSession.after env) session

/-! ### The specification -/

/-- The position that a list of earlier steps leaves under a key: none without a successful commit,
else one more than the largest offset committed. -/
structure IsPosition (earlier : List ClientStep) (key : Key) (position : Option I64) : Prop where
  none_iff : position = none ↔
    ∀ offset, .call (.commit key.1 key.2 offset) ∈ earlier → ¬ Committable offset
  attained : ∀ next, position = some next →
    ∃ offset, .call (.commit key.1 key.2 offset) ∈ earlier ∧ Committable offset ∧
      next.val = offset.val + 1
  maximal : ∀ next, position = some next →
    ∀ offset, .call (.commit key.1 key.2 offset) ∈ earlier → Committable offset →
      offset.val + 1 ≤ next.val

/-- The write a step makes to the position of a key, if any. -/
def ClientStep.nextFor (key : Key) : ClientStep → Option I64
  | .call made => made.nextFor key
  | .reopen => none

/-- The maximum of the writes is the position of the specification. -/
theorem isPosition_peak (earlier : List ClientStep) (key : Key) :
    IsPosition earlier key (peak none (earlier.filterMap (ClientStep.nextFor key))) := by
  have hmem : ∀ next, next ∈ earlier.filterMap (ClientStep.nextFor key) ↔
      ∃ offset, .call (.commit key.1 key.2 offset) ∈ earlier ∧
        nextOffsetOf offset = .ok next := by
    intro next
    rw [List.mem_filterMap]
    constructor
    · intro ⟨step, hstep, hnext⟩
      cases step with
      | reopen => exact absurd hnext (by simp [ClientStep.nextFor])
      | call made =>
        obtain ⟨offset, rfl, hoffset⟩ := nextFor_eq_some.mp hnext
        exact ⟨offset, hstep, hoffset⟩
    · intro ⟨offset, hstep, hoffset⟩
      exact ⟨_, hstep, nextFor_eq_some.mpr ⟨offset, rfl, hoffset⟩⟩
  refine ⟨?_, ?_, ?_⟩
  · rw [peak_eq_none_iff, List.eq_nil_iff_forall_not_mem]
    constructor
    · intro ⟨_, hnil⟩ offset hcall hoffset
      obtain ⟨next, hnext⟩ := (nextOffsetOf_isOk offset).mpr hoffset
      exact hnil next ((hmem next).mpr ⟨offset, hcall, hnext⟩)
    · intro h
      refine ⟨rfl, fun next hnext => ?_⟩
      obtain ⟨offset, hcall, hoffset⟩ := (hmem next).mp hnext
      exact h offset hcall (nextOffsetOf_eq_ok.mp hoffset).1
  · intro next hnext
    obtain ⟨hattained, -, -⟩ := peak_eq_some_iff.mp hnext
    rcases hattained with hnone | hnext
    · exact absurd hnone (by simp)
    · obtain ⟨offset, hcall, hoffset⟩ := (hmem next).mp hnext
      obtain ⟨hcommittable, hval⟩ := nextOffsetOf_eq_ok.mp hoffset
      exact ⟨offset, hcall, hcommittable, hval⟩
  · intro next hnext offset hcall hoffset
    obtain ⟨-, -, hmaximal⟩ := peak_eq_some_iff.mp hnext
    obtain ⟨other, hother⟩ := (nextOffsetOf_isOk offset).mpr hoffset
    have hle := hmaximal other ((hmem other).mpr ⟨offset, hcall, hother⟩)
    rw [le_iff_val_le, (nextOffsetOf_eq_ok.mp hother).2] at hle
    exact hle

/-! ### The in-memory store meets the specification -/

theorem memoryAfter_snoc (steps : List ClientStep) (step : ClientStep) :
    memoryAfter (steps ++ [step]) = (memoryAfter steps).after step := by
  rw [memoryAfter, List.foldl_append]
  rfl

/-- The table in memory holds, under every key, the maximum of the writes made to it. -/
theorem lookup_memoryAfter (steps : List ClientStep) (key : Key) :
    (memoryAfter steps).inner.lookup key =
      peak none (steps.filterMap (ClientStep.nextFor key)) := by
  have hstep : ∀ (store : MemoryOffsetStore) (step : ClientStep),
      (store.after step).inner.lookup key =
        peak (store.inner.lookup key) (step.nextFor key).toList := by
    intro store step
    cases step with
    | reopen => rfl
    | call made => exact lookup_answer store made key
  exact @foldl_eq_peak _ _ _ _ (fun store => store.inner.lookup key) _ _ hstep
    MemoryOffsetStore.new steps

/-! ### The simulation -/

/-- Nothing stands in the way of a store on the path, and its file denotes the table in memory. -/
structure Denotes (path : FilePath) (store : MemoryOffsetStore) (fs : OffsetFs) : Prop where
  clear : fs.Clear path.tmp path
  decodes : decodeFile (fs.contents path) = .ok store.inner

/-- The file store denotes the table in memory. -/
structure Represents (path : FilePath) (store : MemoryOffsetStore) (session : FileSession) :
    Prop where
  path_eq : session.store.path = path
  denotes : Denotes path store session.fs

variable {path : FilePath} {env : ℕ → Outcome}

/-- A commit whose file operations succeed does to the file what it does to the table in memory. -/
theorem commit_always (fileStore : FileOffsetStore) {store : MemoryOffsetStore} {fs : OffsetFs}
    (hdenotes : Denotes fileStore.path store fs) {topic : String} (htopic : FaithfulTopic topic)
    (partition : I32) (offset : I64) :
    Always performFile (Permitted True) (fun fs' => fs'.Clear fileStore.path.tmp fileStore.path)
      (fun r fs' => r = (store.commit topic partition offset).1 ∧
        decodeFile (fs'.contents fileStore.path) =
          .ok (store.commit topic partition offset).2.inner)
      (fileStore.commit topic partition offset) fs := by
  obtain ⟨hclear, hdecodes⟩ := hdenotes
  rw [MemoryOffsetStore.commit, FileOffsetStore.commit]
  cases hnext : nextOffsetOf offset with
  | error e => exact ⟨hclear, rfl, hdecodes⟩
  | ok next =>
    have hraised : FaithfulMap (store.inner.raise (topic, partition) next) :=
      (faithful_of_decodeFile hdecodes).raise htopic next
    rw [ret_ok_bind]
    refine always_bind.mpr ((loadMap_always hclear hclear.path_folder hdecodes).mono
      fun r fs' _ hloaded => ?_)
    cases r with
    | error e => exact absurd trivial hloaded
    | ok loaded =>
      obtain ⟨rfl, rfl⟩ := hloaded
      refine (saveMap_always (saveInvariant_clear fileStore.path _) (fun _ _ h => h) hclear).mono
        fun r fs'' _ hsaved => ?_
      cases r with
      | error e => exact absurd trivial hsaved
      | ok u =>
        exact ⟨rfl, by rw [Saved.contents hsaved, decodeFile_render_of_faithful hraised]⟩

/-- **A call whose file operations succeed** is answered as the in-memory store answers it, and
leaves the table of the in-memory store in the file. -/
theorem answer_always (fileStore : FileOffsetStore) {store : MemoryOffsetStore} {fs : OffsetFs}
    (hdenotes : Denotes fileStore.path store fs) {call : StoreCall}
    (hcall : FaithfulTopic call.topic) :
    Always performFile (Permitted True) (fun fs' => fs'.Clear fileStore.path.tmp fileStore.path)
      (fun r fs' => r = (store.answer call).1 ∧
        decodeFile (fs'.contents fileStore.path) = .ok (store.answer call).2.inner)
      (fileStore.answer call) fs := by
  cases call with
  | committed topic partition =>
    obtain ⟨hclear, hdecodes⟩ := hdenotes
    refine always_bind.mpr (always_bind.mpr
      ((loadMap_always hclear hclear.path_folder hdecodes).mono ?_))
    intro r fs' _ hloaded
    cases r with
    | error e => exact absurd trivial hloaded
    | ok loaded =>
      obtain ⟨rfl, rfl⟩ := hloaded
      exact ⟨hclear, hclear, rfl, hdecodes⟩
  | commit topic partition offset =>
    rw [MemoryOffsetStore.answer, FileOffsetStore.answer]
    have htopic : FaithfulTopic topic := hcall
    refine always_bind.mpr ((commit_always fileStore hdenotes htopic partition offset).mono ?_)
    intro r fs' hclear hcommitted
    obtain ⟨hr, hdecodes'⟩ := hcommitted
    rw [← hr]
    cases r with
    | error e => exact ⟨rfl, hdecodes'⟩
    | ok u => exact ⟨hclear, rfl, hdecodes'⟩

/-- **One call**: both stores answer alike, and the file denotes the table again. -/
theorem answer_eq (henv : ∀ n, (env n).IsOk) {store : MemoryOffsetStore} {session : FileSession}
    (h : Represents path store session) {call : StoreCall} (hcall : FaithfulTopic call.topic) :
    (store.answer call).1 = (session.answer env call).1 ∧
      Represents path (store.answer call).2 (session.answer env call).2 := by
  obtain ⟨fileStore, fs, calls⟩ := session
  obtain ⟨rfl, hdenotes⟩ := h
  have hrun := (answer_always fileStore hdenotes hcall).run fun m (_ : calls ≤ m) _ => henv m
  exact ⟨hrun.2.1.symm, rfl, hrun.1, hrun.2.2⟩

/-- **A step** keeps the file denoting the table in memory. -/
theorem represents_step (henv : ∀ n, (env n).IsOk) {store : MemoryOffsetStore}
    {session : FileSession} (h : Represents path store session) {step : ClientStep}
    (hstep : step.Faithful) : Represents path (store.after step) (session.after env step) := by
  cases step with
  | call made => exact (answer_eq henv h hstep).2
  | reopen => exact ⟨h.path_eq, h.denotes⟩

/-- **A whole run** keeps the file denoting the table in memory. -/
theorem represents_after (henv : ∀ n, (env n).IsOk) {session : FileSession}
    (hnew : Represents path MemoryOffsetStore.new session) {steps : List ClientStep}
    (hsteps : ∀ step ∈ steps, step.Faithful) :
    Represents path (memoryAfter steps) (fileAfter env session steps) := by
  induction steps using List.reverseRecOn with
  | nil => exact hnew
  | append_singleton steps step ih =>
    have hprefix : ∀ s ∈ steps, s.Faithful := fun s hs => hsteps s (List.mem_append_left _ hs)
    have hlast : step.Faithful := hsteps step (List.mem_append_right _ List.mem_cons_self)
    rw [memoryAfter_snoc, fileAfter, List.foldl_append]
    exact represents_step henv (ih hprefix) hlast

/-- A missing file denotes the empty table. -/
theorem represents_new {fs : OffsetFs} (hclear : fs.Clear path.tmp path)
    (habsent : fs.contents path = none) :
    Represents path MemoryOffsetStore.new ⟨⟨path⟩, fs, 0⟩ := by
  refine ⟨rfl, hclear, ?_⟩
  show decodeFile (fs.contents path) = .ok ∅
  rw [habsent, decodeFile]

/-- A commit fails exactly for the offsets that are not committable, and then changes nothing, on
either side. -/
theorem answer_commit (store : MemoryOffsetStore) (session : FileSession) (topic : String)
    (partition : I32) (offset : I64) :
    ((store.answer (.commit topic partition offset)).1 = .ok .done ↔
      ¬ (offset.val < 0 ∨ offset.val = 9223372036854775807)) ∧
    (offset.val < 0 ∨ offset.val = 9223372036854775807 →
      (store.answer (.commit topic partition offset)).2 = store ∧
      (session.answer env (.commit topic partition offset)).2 = session) := by
  have hiff : ¬ (offset.val < 0 ∨ offset.val = 9223372036854775807) ↔ Committable offset := by
    rw [Committable]
    omega
  rw [hiff]
  rw [MemoryOffsetStore.answer, MemoryOffsetStore.commit, FileSession.answer]
  cases hnext : nextOffsetOf offset with
  | error e =>
    have hbad : ¬ Committable offset := by
      intro h
      obtain ⟨next, hok⟩ := (nextOffsetOf_isOk offset).mpr h
      rw [hok] at hnext
      exact absurd hnext (by simp)
    refine ⟨?_, fun _ => ⟨rfl, ?_⟩⟩
    · simp only [Except.map, reduceCtorEq, false_iff]
      exact hbad
    · rw [FileOffsetStore.answer, FileOffsetStore.commit, hnext]
      rfl
  | ok next =>
    have hgood := (nextOffsetOf_eq_ok.mp hnext).1
    refine ⟨?_, fun h => absurd hgood (hiff.not_right.mp h)⟩
    simp only [Except.map, true_iff]
    exact hgood

/-- **The two stores implement one specification.**  After any earlier calls on faithful topics, on
a new in-memory store and on a file store whose file is absent at first, whose file operations
succeed (nothing stands in their way, and the environment lets them) and which may be opened again
at any time: the next call gets the same answer from both; a commit fails exactly for a negative
offset and for `i64::MAX`, and then changes nothing; `committed` answers the position of the
specification; and the positions neither go back nor depend on the order or the repetition of the
calls. -/
theorem stores_agree {fs : OffsetFs} (henv : ∀ n, (env n).IsOk) (hclear : fs.Clear path.tmp path)
    (habsent : fs.contents path = none) (earlier : List ClientStep) (call : StoreCall)
    (hearlier : ∀ step ∈ earlier, step.Faithful) (hcall : FaithfulTopic call.topic) :
    let memory := memoryAfter earlier
    let file := fileAfter env ⟨⟨path⟩, fs, 0⟩ earlier
    (memory.answer call).1 = (file.answer env call).1 ∧
    (∀ topic partition offset, call = .commit topic partition offset →
      ((memory.answer call).1 = .ok .done ↔
        ¬ (offset.val < 0 ∨ offset.val = 9223372036854775807)) ∧
      (offset.val < 0 ∨ offset.val = 9223372036854775807 →
        (memory.answer call).2 = memory ∧ (file.answer env call).2 = file)) ∧
    (∀ topic partition, call = .committed topic partition →
      ∃ position, (memory.answer call).1 = .ok (.position position) ∧
        IsPosition earlier (topic, partition) position) ∧
    (∀ key, memory.inner.lookup key ≤ (memory.answer call).2.inner.lookup key) ∧
    (∀ earlier' : List ClientStep, (∀ step, step ∈ earlier ↔ step ∈ earlier') →
      (memory.answer call).1 = ((memoryAfter earlier').answer call).1) := by
  intro memory file
  have hrep : Represents path memory file :=
    represents_after henv (represents_new hclear habsent) hearlier
  refine ⟨(answer_eq henv hrep hcall).1, ?_, ?_, ?_, ?_⟩
  · intro topic partition offset heq
    rw [heq]
    exact answer_commit memory file topic partition offset
  · intro topic partition heq
    refine ⟨memory.inner.lookup (topic, partition), ?_, ?_⟩
    · rw [heq]
      rfl
    · rw [lookup_memoryAfter]
      exact isPosition_peak earlier (topic, partition)
  · intro key
    exact lookup_le_answer memory call key
  · intro earlier' hsame
    have hmemory : memory = memoryAfter earlier' := by
      refine congrArg MemoryOffsetStore.mk (Finmap.ext_lookup fun key => ?_)
      show (memoryAfter earlier).inner.lookup key = (memoryAfter earlier').inner.lookup key
      rw [lookup_memoryAfter, lookup_memoryAfter]
      apply peak_congr
      intro next
      simp only [List.mem_filterMap, hsame]
    rw [hmemory]

theorem stores_agree_orders :
    ((memoryAfter [.call (.commit "orders" (.of 2) (.of 99)), .reopen]).answer
        (.committed "orders" (.of 2))).1 =
      ((fileAfter (fun _ => .ok 0) ⟨⟨offsetsTsv⟩, Fs.empty, 0⟩
        [.call (.commit "orders" (.of 2) (.of 99)), .reopen]).answer
          (fun _ => .ok 0) (.committed "orders" (.of 2))).1 := by
  have horders : FaithfulTopic "orders" := by decide
  refine (@stores_agree offsetsTsv (fun _ => .ok 0) Fs.empty (fun _ => trivial)
    (clear_empty (by decide) rfl) rfl
    [.call (.commit "orders" (.of 2) (.of 99)), .reopen] (.committed "orders" (.of 2)) ?_
    horders).1
  intro step hstep
  simp only [List.mem_cons, List.not_mem_nil, or_false] at hstep
  rcases hstep with rfl | rfl
  · exact horders
  · exact trivial

/-! ### Isolation of the keys -/

/-- What a client expects of a commit: once it returned `Ok`, its own key holds the maximum of the
old position and the new one, and every other key is read as before. -/
def CommitIsolated (store : FileOffsetStore) (fs : OffsetFs) (map : OffsetMap) (topic : String)
    (partition : I32) (offset : I64) : Prop :=
  ∀ env : ℕ → Outcome, (∀ n, (env n).IsOk) → ∀ next n' fs', nextOffsetOf offset = .ok next →
    run performFile env (store.commit topic partition offset) 0 fs = (.ok (), n', fs') →
    (run performFile env (store.committed topic partition) n' fs').1 =
      .ok (some (max ((map.lookup (topic, partition)).getD next) next)) ∧
    ∀ topic' partition', (topic', partition') ≠ (topic, partition) →
      (run performFile env (store.committed topic' partition') n' fs').1 =
        .ok (map.lookup (topic', partition'))

section

variable {store : FileOffsetStore} {fs : OffsetFs} {map : OffsetMap} {topic : String}
  {partition : I32} {offset : I64}

theorem commitIsolated_of_faithful (hmap : decodeFile (fs.contents store.path) = .ok map)
    (htopic : FaithfulTopic topic) : CommitIsolated store fs map topic partition offset := by
  intro env henv next n' fs' hnext hrun
  have hclear : fs.Clear store.path.tmp store.path := clear_of_run_commit hnext hrun
  have hdenotes : Denotes store.path ⟨map⟩ fs := ⟨hclear, hmap⟩
  have hcommit := (commit_always store hdenotes htopic partition offset).run
    fun m (_ : 0 ≤ m) _ => henv m
  rw [hrun, MemoryOffsetStore.commit, hnext] at hcommit
  obtain ⟨hclear', -, hdecodes⟩ := hcommit
  have hread : ∀ topic' partition', (run performFile env (store.committed topic' partition') n'
      fs').1 = .ok ((map.raise (topic, partition) next).lookup (topic', partition')) := by
    intro topic' partition'
    obtain ⟨_, hread⟩ :=
      run_committed_of_isOk store topic' partition' henv hclear'.path_folder hdecodes n'
    rw [hread]
  refine ⟨?_, fun topic' partition' hne => ?_⟩
  · rw [hread, OffsetMap.raise, Finmap.lookup_insert]
  · rw [hread, lookup_raise_of_ne map next hne]

/-- If the key that was committed can be read back at all, its topic is faithful: no text denotes a
table with another topic. -/
theorem faithful_of_commitIsolated (hmap : decodeFile (fs.contents store.path) = .ok map)
    (hoffset : Committable offset) (hclear : fs.Clear store.path.tmp store.path)
    (h : CommitIsolated store fs map topic partition offset) : FaithfulTopic topic := by
  have henv : ∀ n : ℕ, ((fun _ => .ok 0 : ℕ → Outcome) n).IsOk := fun _ => trivial
  obtain ⟨next, hnext⟩ := (nextOffsetOf_isOk offset).mpr hoffset
  obtain ⟨n', fs', hrun, -⟩ := run_commit_of_isOk store topic partition henv hclear hmap hnext 0
  have hread := (h _ henv next n' fs' hnext hrun).1
  obtain ⟨_, hload⟩ := run_committed store topic partition (fun _ => .ok 0) n' fs'
  rw [hload] at hread
  cases hresult : loadResult (fs'.folder store.path) (fs'.contents store.path) (.ok 0) (.ok 0) with
  | error e =>
    rw [hresult] at hread
    exact absurd hread (by simp [Except.map])
  | ok after =>
    rw [hresult] at hread
    have hok : (Outcome.ok 0).IsOk := trivial
    have hlookup : after.lookup (topic, partition) =
        some (max ((map.lookup (topic, partition)).getD next) next) := Except.ok.inj hread
    exact faithful_of_decodeFile (decodeFile_of_loadResult hok hresult) (topic, partition)
      (Finmap.mem_of_lookup_eq_some hlookup)

/-- **Which commits are isolated.**  On a file that can be read, a commit of a committable offset
keeps its promise about the keys if and only if its topic is faithful, unless something stands in
its way and it cannot succeed at all. -/
theorem commit_isolated_iff (hmap : decodeFile (fs.contents store.path) = .ok map) :
    CommitIsolated store fs map topic partition offset ↔
      (Committable offset → fs.Clear store.path.tmp store.path → FaithfulTopic topic) := by
  constructor
  · intro h hoffset hclear
    exact faithful_of_commitIsolated hmap hoffset hclear h
  · intro h env henv next n' fs' hnext hrun
    have hclear : fs.Clear store.path.tmp store.path := clear_of_run_commit hnext hrun
    have htopic := h (nextOffsetOf_eq_ok.mp hnext).1 hclear
    exact commitIsolated_of_faithful hmap htopic env henv next n' fs' hnext hrun

end

/-- A commit for `orders` 0 on a file that holds the position of `orders` 1. -/
theorem commit_isolated_iff_orders :
    CommitIsolated ⟨offsetsTsv⟩ (oneTable offsetsTsv (OffsetMap.raise ∅ ("orders", .of 1) (.of 7)))
      (OffsetMap.raise ∅ ("orders", .of 1) (.of 7)) "orders" (.of 0) (.of 5) :=
  (commit_isolated_iff (decodeFile_oneTable (faithful_empty.raise (by decide) _))).mpr
    fun _ _ => by decide

/-- A committed topic that starts with `#` is a comment to the next load. -/
theorem commit_not_isolated :
    decodeFile ((Fs.empty : OffsetFs).contents offsetsTsv) = .ok ∅ ∧
      ¬ CommitIsolated ⟨offsetsTsv⟩ Fs.empty ∅ "#orders" (.of 0) (.of 5) := by
  refine ⟨decodeFile.eq_def _, fun h => ?_⟩
  have hfaithful : FaithfulTopic "#orders" :=
    faithful_of_commitIsolated (decodeFile.eq_def _) (by decide) (clear_empty (by decide) rfl) h
  exact absurd hfaithful (by decide)

end Kafkax
