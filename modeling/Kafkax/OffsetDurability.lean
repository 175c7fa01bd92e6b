import Kafkax.OffsetFile

/-!
# Crashes and failing calls

What is left under the store's path when a save or a commit does not go through.

* `crash_atomic`: a save is atomic under a crash at any point, and rounds of commit, crash and
  retry end like one successful commit.
* `commit_preserves_iff`: a commit whose calls fail in any combination leaves the old bytes or the
  old table with one key raised, *provided* the metadata lookup in front of the load does not fail
  on an existing file.  If it does, the load takes the file for missing and the save, unless
  something stands in its way, replaces all positions by the one just committed.
* `file_commit`: seen through its file, a commit is one on the table, which may fail before or after
  the write.
-/

namespace Kafkax

open FileSystem LineText Programs Program BoundedIntegers

/-! ### Crash and retry -/

section

variable {store : FileOffsetStore} {topic : String} {partition : I32} {offset next : I64}
  {Good : Option (List UInt8) → Prop} {map : OffsetMap} {fs : OffsetFs}

/-- The calls of a commit after a metadata lookup that did not fail: whatever their outcomes, they
keep every invariant of a save of the raised table. -/
theorem always_after_metadata (hnext : nextOffsetOf offset = .ok next) {Inv : OffsetFs → Prop}
    (hinv : SaveInvariant store.path
      (encodeUtf8 (renderMap (map.raise (topic, partition) next))) Inv)
    (h : Inv fs) (hmap : decodeFile (fs.contents store.path) = .ok map) (more : ℕ) :
    ∃ p : FileProgram Unit,
      step performFile (.ok more) (store.commit topic partition offset, fs) = (p, fs) ∧
      Always performFile (Permitted False) Inv
        (Returns False fun _ => Saved store.path
          (encodeUtf8 (renderMap (map.raise (topic, partition) next))) Inv) p fs := by
  have hsave : Always performFile (Permitted False) Inv
      (Returns False fun _ => Saved store.path
        (encodeUtf8 (renderMap (map.raise (topic, partition) next))) Inv)
      (saveMap store.path (map.raise (topic, partition) next)) fs :=
    saveMap_always hinv False.elim h
  rw [FileOffsetStore.commit, hnext]
  cases hfolder : fs.folder store.path with
  | true =>
    -- the path is found, and cannot be read
    refine ⟨(readToString store.path >>= fun text => .ret (parseMap text)) >>= fun map =>
      saveMap store.path (map.raise (topic, partition) next), ?_, ?_⟩
    · show ((_, _) : FileProgram Unit × OffsetFs) = _
      rw [(perform_of_folder hfolder more).1]
      rfl
    · refine always_io h (fun e => ⟨_, rfl⟩) fun more' => ?_
      rw [(perform_of_folder hfolder more').2]
      exact ⟨h, id⟩
  | false =>
    cases hdir : fs.dir store.path with
    | none =>
      rw [contents_eq_none.mpr hdir] at hmap
      have hempty : map = ∅ := (Except.ok.inj hmap).symm
      refine ⟨saveMap store.path (map.raise (topic, partition) next), ?_, hsave⟩
      show ((_, _) : FileProgram Unit × OffsetFs) = _
      rw [perform_of_missing hfolder hdir, hempty]
      rfl
    | some i =>
      have hcontents := contents_of_dir hdir
      rw [hcontents] at hmap
      refine ⟨(readToString store.path >>= fun text => .ret (parseMap text)) >>= fun map =>
        saveMap store.path (map.raise (topic, partition) next), ?_, ?_⟩
      · show ((_, _) : FileProgram Unit × OffsetFs) = _
        simp only [performFile, perform, hdir]
        rfl
      · apply always_bind_returns
        refine (readTable_always h hcontents hmap).mono fun r fs' _ hr => ?_
        cases r with
        | error e => exact hr
        | ok loaded =>
          obtain ⟨rfl, rfl⟩ := hr
          exact hsave

/-- A file that is good, also after a crash, under a path that is no directory. -/
def SoundFile (path : FilePath) (Good : Option (List UInt8) → Prop) (fs : OffsetFs) : Prop :=
  CrashSafe path Good fs ∧ fs.folder path = false

theorem SoundFile.crash {path : FilePath} {fs' : OffsetFs} (h : SoundFile path Good fs)
    (hcrash : Crash fs fs') : SoundFile path Good fs' :=
  ⟨h.1.crash hcrash, by rw [hcrash.folder]; exact h.2⟩

theorem saveInvariant_soundFile {path : FilePath} {body : List UInt8} (hbody : Good (some body)) :
    SaveInvariant path body (SoundFile path Good) :=
  (saveInvariant_crashSafe hbody).and (saveInvariant_folder body path.notMem_way false)

/-- After a save that returned `Ok` a crash can only leave the new body. -/
theorem Saved.soundFile {path : FilePath} {body : List UInt8}
    (h : Saved path body (SoundFile path Good) fs) : SoundFile path (fun c => c = some body) fs := by
  obtain ⟨old, hold, hcontents, hsync⟩ := h
  refine ⟨Saved.crashSafe ⟨old, hold.1, hcontents, hsync⟩, ?_⟩
  rw [hsync]
  exact hold.2

end

/-- Rounds of one commit.  A round runs the commit, with any outcomes after a metadata lookup that
did not fail, and ends in a crash at any point, in an error, or in `Ok`; only `Ok` ends the
rounds, and a crash may still come before the caller hears of it. -/
inductive CommitRounds (store : FileOffsetStore) (topic : String) (partition : I32)
    (offset : I64) : OffsetFs → OffsetFs → Prop where
  | done {fs fs' : OffsetFs} (more : ℕ) (os : List Outcome)
      (hrun : exec performFile (.ok more :: os) (store.commit topic partition offset, fs) =
        (.ret (.ok ()), fs')) :
      CommitRounds store topic partition offset fs fs'
  | failed {fs mid fs' : OffsetFs} (more : ℕ) (os : List Outcome) (e : KafkaError)
      (hrun : exec performFile (.ok more :: os) (store.commit topic partition offset, fs) =
        (.ret (.error e), mid))
      (hrest : CommitRounds store topic partition offset mid fs') :
      CommitRounds store topic partition offset fs fs'
  | crashed {fs mid fs' : OffsetFs} (more : ℕ) (os : List Outcome)
      (hcrash : Crash (exec performFile (.ok more :: os)
        (store.commit topic partition offset, fs)).2 mid)
      (hrest : CommitRounds store topic partition offset mid fs') :
      CommitRounds store topic partition offset fs fs'

section

variable {store : FileOffsetStore} {topic : String} {partition : I32} {offset next : I64}
  {map : OffsetMap} {fs fs' : OffsetFs}

/-- The contents a commit passes through: the table from before, or the raised one. -/
def OldOrRaised (map : OffsetMap) (key : Key) (next : I64) (contents : Option (List UInt8)) :
    Prop :=
  decodeFile contents = .ok map ∨ decodeFile contents = .ok (map.raise key next)

/-- A round keeps the file at the old or the raised table, also across a crash, and at the raised
one if it returned `Ok`. -/
theorem round_keeps (htopic : FaithfulTopic topic) (hnext : nextOffsetOf offset = .ok next)
    (h : SoundFile store.path (OldOrRaised map (topic, partition) next) fs) (more : ℕ)
    (os : List Outcome) :
    let after := exec performFile (.ok more :: os) (store.commit topic partition offset, fs)
    SoundFile store.path (OldOrRaised map (topic, partition) next) after.2 ∧
      (after.1 = .ret (.ok ()) →
        decodeFile (after.2.contents store.path) = .ok (map.raise (topic, partition) next)) := by
  intro after
  -- whichever table is loaded, raising the key gives the same one
  obtain ⟨loaded, hloaded, hraise⟩ : ∃ loaded, decodeFile (fs.contents store.path) = .ok loaded ∧
      loaded.raise (topic, partition) next = map.raise (topic, partition) next := by
    rcases h.1.contents with hold | hraised
    · exact ⟨map, hold, rfl⟩
    · exact ⟨_, hraised, raise_raise_self map (topic, partition) next⟩
  have hfaithful : FaithfulMap (map.raise (topic, partition) next) := by
    rw [← hraise]
    exact (faithful_of_decodeFile hloaded).raise htopic next
  have hbody : decodeFile (some (encodeUtf8 (renderMap (loaded.raise (topic, partition) next)))) =
      .ok (map.raise (topic, partition) next) := by
    rw [hraise, decodeFile_render_of_faithful hfaithful]
  obtain ⟨p, hstep, hrest⟩ :=
    always_after_metadata hnext (saveInvariant_soundFile (Or.inr hbody)) h hloaded more
  have hafter : after = exec performFile os (p, fs) := by
    show exec performFile (.ok more :: os) _ = _
    rw [exec_cons, hstep]
  have hexec := hrest.exec fun o (_ : o ∈ os) hfalse => hfalse.elim
  rw [hafter]
  refine ⟨hexec.1, fun hok => ?_⟩
  rw [Saved.contents (hexec.2 _ hok)]
  exact hbody

/-- **Rounds of crash and retry** end with the raised table. -/
theorem rounds_end_raised (htopic : FaithfulTopic topic) (hnext : nextOffsetOf offset = .ok next)
    (hrounds : CommitRounds store topic partition offset fs fs')
    (h : SoundFile store.path (OldOrRaised map (topic, partition) next) fs) :
    fs'.folder store.path = false ∧
      decodeFile (fs'.contents store.path) = .ok (map.raise (topic, partition) next) := by
  induction hrounds with
  | done more os hrun =>
    have hround := round_keeps htopic hnext h more os
    rw [hrun] at hround
    exact ⟨hround.1.2, hround.2 rfl⟩
  | failed more os e hrun hrest ih =>
    have hround := round_keeps htopic hnext h more os
    rw [hrun] at hround
    exact ih hround.1
  | crashed more os hcrash hrest ih =>
    exact ih ((round_keeps htopic hnext h more os).1.crash hcrash)

end

/-! ### Atomicity of a save -/

/-- A load whose calls succeed returns this table. -/
def Loads (path : FilePath) (fs : OffsetFs) (map : OffsetMap) : Prop :=
  ∀ env : ℕ → Outcome, (∀ n, (env n).IsOk) →
    ∀ n, (run performFile env (loadMap path) n fs).1 = .ok map

theorem loads_of_decodeFile {path : FilePath} {fs : OffsetFs} {map : OffsetMap}
    (hfolder : fs.folder path = false) (h : decodeFile (fs.contents path) = .ok map) :
    Loads path fs map := by
  intro env henv n
  obtain ⟨n', -, hrun⟩ := run_loadMap path env n fs
  rw [hrun, hfolder, loadResult_of_ok (henv n) (henv (n + 1)), h]

/-- **Crash atomicity.**  The store's file is absent or holds the rendering of `old`, and this is
what a crash would leave; no directory stands in its place, and the temporary name may hold
anything.  Then a save of `new`, stopped after any number of its calls with any outcomes, leaves
`old` or `new` to a later load, with or without a crash in between, and `new` once it has returned
`Ok`.  Rounds of commit, crash and retry leave the table of one successful commit. -/
theorem crash_atomic {path : FilePath} {fs : OffsetFs} {old : OffsetMap}
    {contents : Option (List UInt8)}
    (hcontents : contents = none ∧ old = ∅ ∨
      contents = some (encodeUtf8 (renderMap old)) ∧ FaithfulMap old)
    (hdisk : CrashSafe path (fun c => c = contents) fs) (hfile : fs.folder path = false) :
    (∀ (new : OffsetMap) (os : List Outcome) (fs' : OffsetFs), FaithfulMap new →
      let after := exec performFile os (saveMap path new, fs)
      fs' = after.2 ∨ Crash after.2 fs' →
      (Loads path fs' old ∨ Loads path fs' new) ∧
      (after.1 = .ret (.ok ()) → Loads path fs' new)) ∧
    (∀ (topic : String) (partition : I32) (offset next : I64) (fs' : OffsetFs),
      FaithfulTopic topic → nextOffsetOf offset = .ok next →
      CommitRounds ⟨path⟩ topic partition offset fs fs' →
      Loads path fs' (old.raise (topic, partition) next)) := by
  have hold : decodeFile contents = .ok old := by
    rcases hcontents with ⟨hnone, hempty⟩ | ⟨hsome, hfaithful⟩
    · rw [hnone, hempty, decodeFile]
    · rw [hsome, decodeFile_render_of_faithful hfaithful]
  refine ⟨?_, ?_⟩
  · intro new os fs' hnew after hfs'
    have hbody := decodeFile_render_of_faithful hnew
    have hsave : Always performFile (Permitted False)
        (SoundFile path fun c => decodeFile c = .ok old ∨ decodeFile c = .ok new)
        (Returns False fun _ => Saved path (encodeUtf8 (renderMap new))
          (SoundFile path fun c => decodeFile c = .ok old ∨ decodeFile c = .ok new))
        (saveMap path new) fs :=
      saveMap_always (saveInvariant_soundFile (Or.inr hbody)) False.elim
        ⟨hdisk.mono fun c hc => Or.inl (hc ▸ hold), hfile⟩
    have hexec := hsave.exec fun o (_ : o ∈ os) hfalse => hfalse.elim
    -- what holds of every view holds of the current directory and after a crash
    have hview : ∀ Good : Option (List UInt8) → Prop, SoundFile path Good after.2 →
        fs'.folder path = false ∧ Good (fs'.contents path) := by
      intro Good hsound
      rcases hfs' with heq | hcrash
      · rw [heq]
        exact ⟨hsound.2, hsound.1.contents⟩
      · have hcrashed := hsound.crash hcrash
        exact ⟨hcrashed.2, hcrashed.1.contents⟩
    refine ⟨?_, fun hok => ?_⟩
    · obtain ⟨hfolder, hgood⟩ := hview _ hexec.1
      exact hgood.imp (loads_of_decodeFile hfolder) (loads_of_decodeFile hfolder)
    · obtain ⟨hfolder, hsaved⟩ := hview _ (Saved.soundFile (hexec.2 _ hok))
      apply loads_of_decodeFile hfolder
      rw [hsaved, hbody]
  · intro topic partition offset next fs' htopic hnext hrounds
    obtain ⟨hfolder, hdecodes⟩ := rounds_end_raised htopic hnext hrounds
      ⟨hdisk.mono fun c hc => Or.inl (hc ▸ hold), hfile⟩
    exact loads_of_decodeFile hfolder hdecodes

theorem crash_atomic_orders :
    let new : OffsetMap := OffsetMap.raise ∅ ("orders", .of 2) (.of 100)
    let after := exec performFile [.ok 0, .ok 3] (saveMap offsetsTsv new, Fs.empty)
    Loads offsetsTsv after.2 ∅ ∨ Loads offsetsTsv after.2 new := by
  intro new after
  have hdisk : CrashSafe offsetsTsv (fun c => c = none) Fs.empty :=
    Guarded.of_settled ⟨rfl, fun _ => rfl⟩ ⟨by decide, fun _ h => absurd h (by simp [Fs.empty])⟩ rfl
  have hnew : FaithfulMap new := faithful_empty.raise (by decide) _
  exact ((crash_atomic (Or.inl ⟨rfl, rfl⟩) hdisk rfl).1 new [.ok 0, .ok 3] after.2 hnew
    (Or.inl rfl)).1

/-! ### Commits with failing calls -/

/-- The old content could not be read, or is not a table; `isDir` says that it is a directory. -/
def Unreadable (isDir : Bool) (contents : Option (List UInt8)) (metadata read : Outcome) : Prop :=
  isDir = true ∨ (contents ≠ none ∧ (¬ metadata.IsOk ∨ ¬ read.IsOk)) ∨
    ∃ e, decodeFile contents = .error e

/-- What a client expects of a commit whose metadata lookup has the outcome `metadata` and whose
other calls have any outcomes: the file has its old bytes or the old table with one key raised, and
a file that could not be read makes the commit fail. -/
def CommitPreserves (store : FileOffsetStore) (fs : OffsetFs) (topic : String) (partition : I32)
    (offset : I64) (metadata : Outcome) : Prop :=
  ∀ env : ℕ → Outcome, env 0 = metadata →
    let after := run performFile env (store.commit topic partition offset) 0 fs
    (after.2.2.contents store.path = fs.contents store.path ∨
      ∃ old next, decodeFile (fs.contents store.path) = .ok old ∧ nextOffsetOf offset = .ok next ∧
        decodeFile (after.2.2.contents store.path) = .ok (old.raise (topic, partition) next)) ∧
    (Unreadable (fs.folder store.path) (fs.contents store.path) (env 0) (env 1) →
      ∃ e, after.1 = .error e)

/-- When a commit preserves the stored positions: it is refused; or something stands in the way of
every save; or the file is missing and the topic faithful; or the file is there, its metadata can be
read, and the topic is faithful, unless the file does not denote a table or already holds the bytes
that would be written. -/
def PreservedWhen (store : FileOffsetStore) (fs : OffsetFs) (topic : String) (partition : I32)
    (offset : I64) (metadata : Outcome) : Prop :=
  ¬ Committable offset ∨ ¬ fs.Clear store.path.tmp store.path ∨
    match fs.contents store.path with
    | none => FaithfulTopic topic
    | some bytes => metadata.IsOk ∧ ∀ old next, decodeFile (some bytes) = .ok old →
        nextOffsetOf offset = .ok next →
        FaithfulTopic topic ∨ bytes = encodeUtf8 (renderMap (old.raise (topic, partition) next))

section

variable {store : FileOffsetStore} {topic : String} {partition : I32} {offset next : I64}
  {fs : OffsetFs} {map : OffsetMap} {metadata : Outcome}

/-- A save leaves the old content or the new body, whatever its outcomes, and the new body if it
returns `Ok`. -/
theorem contents_run_saveMap (hsep : fs.Separate store.path.tmp store.path) (map : OffsetMap)
    (env : ℕ → Outcome) (n : ℕ) :
    let after := run performFile env (saveMap store.path map) n fs
    (after.2.2.contents store.path = fs.contents store.path ∨
      after.2.2.contents store.path = some (encodeUtf8 (renderMap map))) ∧
    (after.1 = .ok () → after.2.2.contents store.path = some (encodeUtf8 (renderMap map))) := by
  intro after
  have hsave : Always performFile (Permitted False)
      (Intact store.path fun c =>
        c = fs.contents store.path ∨ c = some (encodeUtf8 (renderMap map)))
      (Returns False fun _ => Saved store.path (encodeUtf8 (renderMap map))
        (Intact store.path fun c =>
          c = fs.contents store.path ∨ c = some (encodeUtf8 (renderMap map))))
      (saveMap store.path map) fs :=
    saveMap_always (saveInvariant_intact (Or.inr rfl)) False.elim ⟨hsep, Or.inl rfl⟩
  obtain ⟨hinv, hpost⟩ := hsave.run fun m (_ : n ≤ m) hfalse => hfalse.elim
  refine ⟨hinv.2, fun hok => ?_⟩
  rw [show (run performFile env (saveMap store.path map) n fs).1 = .ok () from hok] at hpost
  exact hpost.contents

/-- The outcomes that let every call succeed after the first one. -/
def metadataThenOk (metadata : Outcome) : ℕ → Outcome
  | 0 => metadata
  | _ + 1 => .ok 0

theorem metadataThenOk_isOk (metadata : Outcome) {n : ℕ} (h : 0 < n) :
    (metadataThenOk metadata n).IsOk := by
  cases n with
  | zero => exact absurd h (Nat.lt_irrefl 0)
  | succ n => exact trivial

/-- If only the metadata lookup may fail, a commit whose load returns a table succeeds and leaves
the rendering of the raised table. -/
theorem run_commit_metadataThenOk (hclear : fs.Clear store.path.tmp store.path)
    (hnext : nextOffsetOf offset = .ok next)
    (hload : loadResult false (fs.contents store.path) metadata (.ok 0) = .ok map) :
    let after := run performFile (metadataThenOk metadata)
      (store.commit topic partition offset) 0 fs
    after.1 = .ok () ∧ after.2.2.contents store.path =
      some (encodeUtf8 (renderMap (map.raise (topic, partition) next))) := by
  obtain ⟨n, hpos, hrun⟩ :=
    run_commit_of_ok store topic partition hnext (metadataThenOk metadata) 0 fs
  rw [show metadataThenOk metadata 0 = metadata from rfl,
    show metadataThenOk metadata (0 + 1) = .ok 0 from rfl, hclear.path_folder, hload] at hrun
  obtain ⟨n', fs', hsave, hcontents, -⟩ := run_saveMap_of_isOk store.path
    (map.raise (topic, partition) next)
    (fun m (hm : n ≤ m) => metadataThenOk_isOk metadata (hpos.trans_le hm)) hclear
  rw [hrun.trans hsave]
  exact ⟨rfl, hcontents⟩

theorem preservedWhen_of_commitPreserves
    (h : CommitPreserves store fs topic partition offset metadata) :
    PreservedWhen store fs topic partition offset metadata := by
  by_cases hoffset : Committable offset
  swap
  · exact Or.inl hoffset
  by_cases hclear : fs.Clear store.path.tmp store.path
  swap
  · exact Or.inr (Or.inl hclear)
  obtain ⟨next, hnext⟩ := (nextOffsetOf_isOk offset).mpr hoffset
  obtain ⟨hbytes, hfails⟩ := h (metadataThenOk metadata) rfl
  have hraised : ∀ map : OffsetMap,
      decodeFile (some (encodeUtf8 (renderMap (map.raise (topic, partition) next)))) =
        .ok (map.raise (topic, partition) next) → FaithfulTopic topic := by
    intro map hdecodes
    exact faithful_of_decodeFile hdecodes (topic, partition) (mem_raise.mpr (Or.inl rfl))
  refine Or.inr (Or.inr ?_)
  cases hcontents : fs.contents store.path with
  | none =>
    have hload : loadResult false (fs.contents store.path) metadata (.ok 0) = .ok ∅ := by
      rw [hcontents, loadResult]
    rw [(run_commit_metadataThenOk hclear hnext hload).2, hcontents] at hbytes
    rcases hbytes with hsame | ⟨old, next', hold, hnext', hdecodes⟩
    · exact absurd hsame (by simp)
    · rw [← Except.ok.inj hold] at hdecodes
      rw [← Except.ok.inj (hnext.symm.trans hnext')] at hdecodes
      exact hraised ∅ hdecodes
  | some bytes =>
    cases metadata with
    | error e =>
      -- the lookup failed: the table is taken for empty and the commit returns `Ok`
      have hload : loadResult false (fs.contents store.path) (.error e) (.ok 0) = .ok ∅ := by
        rw [hcontents, loadResult]
      obtain ⟨e', herror⟩ := hfails (Or.inr (Or.inl ⟨by rw [hcontents]; simp, Or.inl id⟩))
      rw [(run_commit_metadataThenOk hclear hnext hload).1] at herror
      exact absurd herror (by simp)
    | ok more =>
      refine ⟨trivial, fun old next' hold hnext' => ?_⟩
      rw [← Except.ok.inj (hnext.symm.trans hnext')]
      have hload : loadResult false (fs.contents store.path) (.ok more) (.ok 0) = .ok old := by
        rw [hcontents, loadResult, hold]
      rw [(run_commit_metadataThenOk hclear hnext hload).2, hcontents] at hbytes
      rcases hbytes with hsame | ⟨old', next'', hold', hnext'', hdecodes⟩
      · exact Or.inr (Option.some.inj hsame).symm
      · rw [← Except.ok.inj (hold.symm.trans hold'),
          ← Except.ok.inj (hnext.symm.trans hnext'')] at hdecodes
        exact Or.inl (hraised old hdecodes)

/-- Under the condition a load that succeeds has read the table of the file. -/
theorem read_of_preservedWhen {contents : Option (List UInt8)} {read : Outcome}
    (hnext : nextOffsetOf offset = .ok next)
    (hwhen : match contents with
      | none => FaithfulTopic topic
      | some bytes => metadata.IsOk ∧ ∀ old next, decodeFile (some bytes) = .ok old →
          nextOffsetOf offset = .ok next →
          FaithfulTopic topic ∨ bytes = encodeUtf8 (renderMap (old.raise (topic, partition) next)))
    (hload : loadResult false contents metadata read = .ok map) :
    decodeFile contents = .ok map ∧ ¬ Unreadable false contents metadata read ∧
      (FaithfulTopic topic ∨
        contents = some (encodeUtf8 (renderMap (map.raise (topic, partition) next)))) := by
  cases contents with
  | none =>
    rw [loadResult] at hload
    refine ⟨hload, ?_, Or.inl hwhen⟩
    intro hunreadable
    rcases hunreadable with hfalse | ⟨hne, -⟩ | ⟨e, he⟩
    · exact absurd hfalse (by decide)
    · exact hne rfl
    · exact absurd he (by simp [decodeFile])
  | some bytes =>
    have hmap := decodeFile_of_loadResult hwhen.1 hload
    refine ⟨hmap, ?_, ?_⟩
    · intro hunreadable
      rcases hunreadable with hfalse | ⟨-, hmetadata | hread⟩ | ⟨e, he⟩
      · exact absurd hfalse (by decide)
      · exact hmetadata hwhen.1
      · cases metadata with
        | error e => exact hwhen.1
        | ok more =>
          cases read with
          | error e => exact absurd hload (by simp [loadResult])
          | ok more' => exact hread trivial
      · rw [hmap] at he
        exact absurd he (by simp)
    · rcases hwhen.2 map next hmap hnext with htopic | hsame
      · exact Or.inl htopic
      · exact Or.inr (congrArg some hsame)

/-- A commit preserves the positions if the save of what it has read does: where it is refused or
cannot load, it fails and changes nothing. -/
theorem commitPreserves_of_save
    (hsave : ∀ env : ℕ → Outcome, env 0 = metadata → ∀ (next : I64) (map : OffsetMap) (n : ℕ),
      nextOffsetOf offset = .ok next →
      loadResult (fs.folder store.path) (fs.contents store.path) (env 0) (env 1) = .ok map →
      let after := run performFile env (saveMap store.path (map.raise (topic, partition) next)) n fs
      (after.2.2.contents store.path = fs.contents store.path ∨
        ∃ old next, decodeFile (fs.contents store.path) = .ok old ∧
          nextOffsetOf offset = .ok next ∧
          decodeFile (after.2.2.contents store.path) = .ok (old.raise (topic, partition) next)) ∧
      (Unreadable (fs.folder store.path) (fs.contents store.path) (env 0) (env 1) →
        ∃ e, after.1 = .error e)) :
    CommitPreserves store fs topic partition offset metadata := by
  intro env hmetadata after
  cases hnext : nextOffsetOf offset with
  | error e =>
    have hrun : after = (.error e, 0, fs) :=
      run_commit_of_error store topic partition hnext env 0 fs
    rw [hrun]
    exact ⟨Or.inl rfl, fun _ => ⟨e, rfl⟩⟩
  | ok next =>
    obtain ⟨n, -, hrun⟩ := run_commit_of_ok store topic partition hnext env 0 fs
    cases hload : loadResult (fs.folder store.path) (fs.contents store.path) (env 0)
        (env (0 + 1)) with
    | error e =>
      rw [hload] at hrun
      have hafter : after = (.error e, n, fs) := hrun
      rw [hafter]
      exact ⟨Or.inl rfl, fun _ => ⟨e, rfl⟩⟩
    | ok map =>
      rw [hload] at hrun
      have hafter : after =
          run performFile env (saveMap store.path (map.raise (topic, partition) next)) n fs := hrun
      rw [hafter, ← hnext]
      exact hsave env hmetadata next map n hnext hload

/-- A commit to whose file something bars the way fails and leaves the file as it is. -/
theorem commitPreserves_of_not_clear (hclear : ¬ fs.Clear store.path.tmp store.path) :
    CommitPreserves store fs topic partition offset metadata := by
  refine commitPreserves_of_save fun env _ next map n _ _ => ?_
  obtain ⟨e, n', fs', hsave, hcontents⟩ :=
    run_saveMap_of_not_clear env n (map.raise (topic, partition) next) hclear
  rw [hsave]
  exact ⟨Or.inl hcontents, fun _ => ⟨e, rfl⟩⟩

theorem commitPreserves_of_preservedWhen (hsep : fs.Separate store.path.tmp store.path)
    (h : PreservedWhen store fs topic partition offset metadata) :
    CommitPreserves store fs topic partition offset metadata := by
  by_cases hclear : fs.Clear store.path.tmp store.path
  swap
  · exact commitPreserves_of_not_clear hclear
  refine commitPreserves_of_save fun env hmetadata next map n hnext hload => ?_
  have hwhen := (h.resolve_left (not_not.mpr (nextOffsetOf_eq_ok.mp hnext).1)).resolve_left
    (not_not.mpr hclear)
  rw [hclear.path_folder, hmetadata] at hload ⊢
  obtain ⟨hmap, hreadable, htopic⟩ := read_of_preservedWhen hnext hwhen hload
  refine ⟨?_, fun hunreadable => absurd hunreadable hreadable⟩
  rcases (contents_run_saveMap hsep (map.raise (topic, partition) next) env n).1 with hold | hnew
  · exact Or.inl hold
  · rcases htopic with htopic | hsame
    · have hraised : FaithfulMap (map.raise (topic, partition) next) :=
        (faithful_of_decodeFile hmap).raise htopic next
      refine Or.inr ⟨map, next, hmap, hnext, ?_⟩
      rw [hnew, decodeFile_render_of_faithful hraised]
    · exact Or.inl (hnew.trans hsame.symm)

end

/-- **When a commit with failing calls preserves the positions.**  For every content, key, offset
and outcome of the metadata lookup, and the temporary file being another file: the promise holds
for all outcomes of the other calls if and only if the commit is refused, or something stands in
its way, or the lookup succeeds or finds no file, and the topic is faithful or the file would not
change. -/
theorem commit_preserves_iff {store : FileOffsetStore} {topic : String} {partition : I32}
    {offset : I64} {fs : OffsetFs} {metadata : Outcome}
    (hsep : fs.Separate store.path.tmp store.path) :
    CommitPreserves store fs topic partition offset metadata ↔
      PreservedWhen store fs topic partition offset metadata :=
  ⟨preservedWhen_of_commitPreserves, commitPreserves_of_preservedWhen hsep⟩

/-- A commit for `orders` 1 on a file that holds the position of `orders` 0. -/
theorem commit_preserves_iff_orders :
    CommitPreserves ⟨offsetsTsv⟩
      (oneTable offsetsTsv (OffsetMap.raise ∅ ("orders", .of 0) (.of 7)))
      "orders" (.of 1) (.of 5) (.ok 0) := by
  have hwhen : ∀ map, PreservedWhen ⟨offsetsTsv⟩ (oneTable offsetsTsv map) "orders" (.of 1) (.of 5)
      (.ok 0) := by
    intro map
    refine Or.inr (Or.inr ?_)
    rw [oneTable, contents_oneFile]
    exact ⟨trivial, fun _ _ _ _ => Or.inl (by decide)⟩
  exact (commit_preserves_iff (separate_oneFile _ (by decide))).mpr (hwhen _)

/-- The position of `orders` 0 is lost when the metadata lookup of a commit for `orders` 1 is
denied. -/
theorem commit_not_preserves :
    ¬ CommitPreserves ⟨offsetsTsv⟩
      (oneTable offsetsTsv (OffsetMap.raise ∅ ("orders", .of 0) (.of 7)))
      "orders" (.of 1) (.of 5) (.error ⟨.permissionDenied, "Permission denied"⟩) := by
  intro h
  have hclear : ∀ map, (oneTable offsetsTsv map).Clear offsetsTsv.tmp offsetsTsv :=
    fun map => clear_oneFile _ (by decide)
  have hwhen := preservedWhen_of_commitPreserves h
  rw [PreservedWhen, oneTable, contents_oneFile] at hwhen
  rcases hwhen with hrefused | hbarred | hok
  · exact hrefused (by decide)
  · exact hbarred (hclear _)
  · exact hok.1

/-! ### The file store as a store -/

/-- **A commit on the file store** is a commit on the table of its file, which may fail before or
after the write: for a faithful topic, any outcomes of the calls after a metadata lookup that did
not fail, and the temporary file being another file. -/
theorem file_commit {store : FileOffsetStore} {topic : String} {partition : I32} {offset : I64}
    {fs : OffsetFs} {map : OffsetMap} (hsep : fs.Separate store.path.tmp store.path)
    (htopic : FaithfulTopic topic) (hmap : decodeFile (fs.contents store.path) = .ok map)
    (env : ℕ → Outcome) (hmetadata : (env 0).IsOk) :
    let after := run performFile env (store.commit topic partition offset) 0 fs
    ∃ outcome, after.1 = (map.commit topic partition offset outcome).1 ∧
      decodeFile (after.2.2.contents store.path) =
        .ok (map.commit topic partition offset outcome).2 := by
  intro after
  simp only [OffsetMap.commit]
  cases hnext : nextOffsetOf offset with
  | error e =>
    have hrun : after = (.error e, 0, fs) :=
      run_commit_of_error store topic partition hnext env 0 fs
    rw [hrun]
    exact ⟨.ok, rfl, hmap⟩
  | ok next =>
    obtain ⟨n, -, hrun⟩ := run_commit_of_ok store topic partition hnext env 0 fs
    cases hload : loadResult (fs.folder store.path) (fs.contents store.path) (env 0)
        (env (0 + 1)) with
    | error e =>
      rw [hload] at hrun
      have hafter : after = (.error e, n, fs) := hrun
      rw [hafter]
      exact ⟨.lost e, rfl, hmap⟩
    | ok loaded =>
      rw [hload] at hrun
      have hloaded := decodeFile_of_loadResult hmetadata hload
      rw [← Except.ok.inj (hmap.symm.trans hloaded)] at hrun
      have hafter : after =
          run performFile env (saveMap store.path (map.raise (topic, partition) next)) n fs := hrun
      have hraised : decodeFile
          (some (encodeUtf8 (renderMap (map.raise (topic, partition) next)))) =
            .ok (map.raise (topic, partition) next) :=
        decodeFile_render_of_faithful ((faithful_of_decodeFile hmap).raise htopic next)
      obtain ⟨hcontents, hok⟩ :=
        contents_run_saveMap hsep (map.raise (topic, partition) next) env n
      rw [← hafter] at hcontents hok
      cases hresult : after.1 with
      | ok u => exact ⟨.ok, rfl, by rw [hok hresult, hraised]⟩
      | error e =>
        rcases hcontents with hold | hnew
        · exact ⟨.lost e, rfl, by rw [hold, hmap]⟩
        · exact ⟨.written e, rfl, by rw [hnew, hraised]⟩

end Kafkax
