import Kafkax.OffsetSteps

/-!
# Several stores in one file system

Every `FileOffsetStore` has a lock of its own, so nothing orders the file-system calls of two
stores.  `Shared` runs the commits of any family of stores in one file system, one call at a time,
in any order and with any outcomes.

The names are all that separates two saves.  `stores_independent_iff` says when that is enough: no
temporary name may be a store's path, no two stores may have the same one, and no name of a store
may be a directory on the way to another store's path.  All of it happens, because `with_extension`
replaces the extension and `create_dir_all` makes any directory that is missing: `a.tsv` and
`a.log` share `a.tmp`, a store on `a.tmp` writes in place, and a store on `a/b.tsv` makes a
directory of the path of a store on `a`.

The proof of the good direction runs one `Local` machine for each store on that store's own events
(`follows_run`); what the other stores do never reaches it.
-/

namespace Kafkax

open FileSystem LineText Programs Program

variable {ι : Type} [DecidableEq ι]

/-! ### The shared file system -/

/-- What happens: a store is asked for a commit, or makes the next call of the one in progress. -/
inductive Event (ι : Type) where
  | begin (store : ι) (topic : String) (partition : I32) (offset : I64)
  | call (store : ι) (outcome : Outcome)

/-- The store an event belongs to. -/
def Event.store : Event ι → ι
  | .begin store _ _ _ => store
  | .call store _ => store

/-- The file system, the commit of every store, and what every store has written to its temporary
file since it opened it. -/
structure Shared (ι : Type) where
  fs : OffsetFs
  program : ι → FileProgram Unit
  written : ι → List UInt8

/-- No commit has been made. -/
def Shared.start (fs : OffsetFs) : Shared ι := ⟨fs, fun _ => .ret (.ok ()), fun _ => []⟩

/-- One event.  A commit waits until the one before it has returned; that is the store's lock. -/
def Shared.apply (paths : ι → FilePath) (self : Shared ι) : Event ι → Shared ι
  | .begin store topic partition offset =>
    match self.program store with
    | .ret _ =>
      { self with
        program := Function.update self.program store
          (FileOffsetStore.commit ⟨paths store⟩ topic partition offset) }
    | .call _ _ => self
  | .call store outcome =>
    { fs := (step performFile outcome (self.program store, self.fs)).2
      program := Function.update self.program store
        (step performFile outcome (self.program store, self.fs)).1
      written := Function.update self.written store
        (record outcome self.fs (self.written store) (self.program store)) }

/-- The state after a list of events. -/
def Shared.run (paths : ι → FilePath) (fs : OffsetFs) (events : List (Event ι)) : Shared ι :=
  events.foldl (Shared.apply paths) (Shared.start fs)

theorem Shared.run_append (paths : ι → FilePath) (fs : OffsetFs)
    (events events' : List (Event ι)) : Shared.run paths fs (events ++ events') =
      events'.foldl (Shared.apply paths) (Shared.run paths fs events) := List.foldl_append

/-- The events of one store. -/
def eventsOf (store : ι) (events : List (Event ι)) : List (Event ι) :=
  events.filter fun event => event.store = store

theorem eventsOf_snoc_self (events : List (Event ι)) (event : Event ι) :
    eventsOf event.store (events ++ [event]) = eventsOf event.store events ++ [event] := by
  rw [eventsOf, List.filter_append, List.filter_cons_of_pos (by simp), List.filter_nil, eventsOf]

theorem eventsOf_snoc_of_ne {store : ι} (events : List (Event ι)) {event : Event ι}
    (h : event.store ≠ store) : eventsOf store (events ++ [event]) = eventsOf store events := by
  rw [eventsOf, List.filter_append, List.filter_cons_of_neg (by simpa using h), List.filter_nil,
    List.append_nil, eventsOf]

theorem eventsOf_eventsOf (store : ι) (events : List (Event ι)) :
    eventsOf store (eventsOf store events) = eventsOf store events := by
  rw [eventsOf, eventsOf, List.filter_filter]
  simp only [Bool.and_self]

/-- **Independence.**  After any events and at the next one: the content found at a store's path is
changed only by the store's own rename; what the rename puts there is what the store wrote in this
commit (onto a directory it puts nothing); and the content, the result and the next call are those
of the store's own events alone. -/
def Independent (paths : ι → FilePath) (fs : OffsetFs) : Prop :=
  ∀ (events : List (Event ι)) (event : Event ι),
    let before := Shared.run paths fs events
    let after := before.apply paths event
    (∀ store, after.fs.contents (paths store) ≠ before.fs.contents (paths store) →
      ∃ more k, event = .call store (.ok more) ∧
        before.program store = .call (.rename (paths store).tmp (paths store)) k) ∧
    (∀ store more k, event = .call store (.ok more) →
      before.program store = .call (.rename (paths store).tmp (paths store)) k →
      before.fs.folder (paths store) = false →
      after.fs.contents (paths store) = some (before.written store)) ∧
    (∀ store,
      let alone := Shared.run paths fs (eventsOf store events)
      before.fs.contents (paths store) = alone.fs.contents (paths store) ∧
        activityOf (before.program store) = activityOf (alone.program store))

/-! ### Separate names -/

/-- No temporary name is a store's path; no two stores have the same one, unless it is `..`, where
no file can be opened; and no path or temporary name is a directory on the way to a store's path. -/
structure SeparateNames (paths : ι → FilePath) : Prop where
  tmp_ne_path : ∀ i j, (paths i).tmp ≠ paths j
  tmp_ne_tmp : ∀ i j, i ≠ j → (paths i).tmp = (paths j).tmp → (paths i).tmp.isDotdot = true
  path_notMem_way : ∀ i j, .file (paths i) ∉ (paths j).parent.way
  tmp_notMem_way : ∀ i j, (paths i).tmp ∉ (paths j).parent.way

/-- The names the stores use. -/
def NamesOf (paths : ι → FilePath) (name : Entry) : Prop :=
  ∃ i, name = paths i ∨ name = (paths i).tmp

theorem separate_of_noHardLinks {fs : OffsetFs} {names : Entry → Prop}
    (hlinks : fs.NoHardLinks names) {p q : Entry} (hp : names p) (hq : names q) (hne : p ≠ q) :
    fs.Separate p q :=
  ⟨hne, fun i hip hiq => hne (hlinks p q i hp hq hip hiq)⟩

/-- An event of the store, on its machine. -/
def Local.apply (path : FilePath) (self : Local) : Event ι → Local
  | .begin _ topic partition offset => self.begin (topic, partition) offset
  | .call _ outcome => self.call path outcome

/-- The machine of a store after its own events. -/
def Local.run (path : FilePath) (fs : OffsetFs) (events : List (Event ι)) : Local :=
  events.foldl (Local.apply path) ⟨.idle (.ok ()), placeOf path fs, fs.contents path, []⟩

/-- The machines of all stores follow the shared file system. -/
structure AllFollow (paths : ι → FilePath) (machines : ι → Local) (shared : Shared ι) : Prop where
  links : shared.fs.NoHardLinks (NamesOf paths)
  follows : ∀ i, Follows (paths i) (machines i) (shared.program i) shared.fs (shared.written i)

section

variable {paths : ι → FilePath} {machines : ι → Local} {shared : Shared ι}

omit [DecidableEq ι] in
theorem AllFollow.separate (h : AllFollow paths machines shared) (hnames : SeparateNames paths)
    (i j : ι) : shared.fs.Separate (paths i).tmp (paths j) :=
  separate_of_noHardLinks h.links ⟨i, Or.inr rfl⟩ ⟨j, Or.inl rfl⟩ (hnames.tmp_ne_path i j)

omit [DecidableEq ι] in
/-- The temporary names of two stores are separate, wherever a file can be opened under one. -/
theorem AllFollow.separateTmp (h : AllFollow paths machines shared) (hnames : SeparateNames paths)
    {i j : ι} (hij : i ≠ j) (hdots : (paths i).tmp.isDotdot = false) :
    shared.fs.Separate (paths i).tmp (paths j).tmp := by
  refine separate_of_noHardLinks h.links ⟨i, Or.inr rfl⟩ ⟨j, Or.inr rfl⟩ fun heq => ?_
  rw [hnames.tmp_ne_tmp i j hij heq] at hdots
  exact absurd hdots (by simp)

/-- **A call of one store** moves its own machine and no other. -/
theorem AllFollow.call (hinj : Function.Injective paths) (hnames : SeparateNames paths)
    (h : AllFollow paths machines shared) (store : ι) (outcome : Outcome) :
    AllFollow paths
      (Function.update machines store ((machines store).call (paths store) outcome))
      (shared.apply paths (.call store outcome)) := by
  have hself := h.follows store
  have heffect := hself.position.effect outcome
  refine ⟨?_, fun i => ?_⟩
  · exact heffect.noHardLinks h.links ⟨store, Or.inr rfl⟩ (hnames.tmp_ne_path store store)
  · by_cases hi : i = store
    · rw [hi]
      show Follows _ (Function.update machines store _ store)
        (Function.update shared.program store _ store) _
        (Function.update shared.written store _ store)
      rw [Function.update_self, Function.update_self, Function.update_self]
      exact follows_call (fun _ => h.separate hnames store store) hself outcome
    · show Follows _ (Function.update machines store _ i)
        (Function.update shared.program store _ i) _ (Function.update shared.written store _ i)
      rw [Function.update_of_ne hi, Function.update_of_ne hi, Function.update_of_ne hi]
      refine (h.follows i).frame (heffect.unnoticed (fun heq => hi (hinj heq))
        (hnames.tmp_ne_path i store) (fun _ => h.separate hnames store i)
        (h.separateTmp hnames (Ne.symm hi)) ?_ ?_ ?_ ?_)
      · exact hnames.path_notMem_way i store
      · exact hnames.tmp_notMem_way i store
      · exact hnames.path_notMem_way store i
      · exact hnames.tmp_notMem_way store i

/-- **A new commit** of one store. -/
theorem AllFollow.begin (h : AllFollow paths machines shared) (store : ι) (topic : String)
    (partition : I32) (offset : I64) :
    AllFollow paths
      (Function.update machines store ((machines store).begin (topic, partition) offset))
      (shared.apply paths (.begin store topic partition offset)) := by
  have hself := h.follows store
  rw [Shared.apply]
  cases hprogram : shared.program store with
  | call c k =>
    have hsame : (machines store).begin (topic, partition) offset = machines store := by
      rw [hprogram] at hself
      have hpoint := hself.position.of_call
      rw [Local.begin]
      cases hp : (machines store).point with
      | idle result => exact absurd hp (hpoint result)
      | _ => rfl
    rw [hsame, Function.update_eq_self]
    exact h
  | ret result =>
    refine ⟨h.links, fun i => ?_⟩
    by_cases hi : i = store
    · rw [hi]
      show Follows _ (Function.update machines store _ store)
        (Function.update shared.program store _ store) _ _
      rw [Function.update_self, Function.update_self]
      rw [hprogram] at hself
      exact follows_begin ⟨paths store⟩ hself topic partition offset
    · show Follows _ (Function.update machines store _ i)
        (Function.update shared.program store _ i) _ _
      rw [Function.update_of_ne hi, Function.update_of_ne hi]
      exact h.follows i

/-- **After any events** every store is where its own events alone take its machine. -/
theorem follows_run (hinj : Function.Injective paths) (hnames : SeparateNames paths)
    {fs : OffsetFs} (hlinks : fs.NoHardLinks (NamesOf paths)) (events : List (Event ι)) :
    AllFollow paths
      (fun i => Local.run (paths i) fs (eventsOf i events))
      (Shared.run paths fs events) := by
  induction events using List.reverseRecOn with
  | nil => exact ⟨hlinks, fun i => ⟨At.idle _, rfl, rfl, rfl⟩⟩
  | append_singleton events event ih =>
    have hrun : Shared.run paths fs (events ++ [event]) =
        (Shared.run paths fs events).apply paths event := Shared.run_append ..
    have hmachines : (fun i => Local.run (paths i) fs
        (eventsOf i (events ++ [event]))) =
        Function.update (fun i => Local.run (paths i) fs (eventsOf i events)) event.store
          ((Local.run (paths event.store) fs (eventsOf event.store events)).apply
            (paths event.store) event) := by
      funext i
      by_cases hi : i = event.store
      · rw [hi, Function.update_self, eventsOf_snoc_self, Local.run, List.foldl_append]
        rfl
      · rw [Function.update_of_ne hi, eventsOf_snoc_of_ne events (Ne.symm hi)]
    rw [hrun, hmachines]
    cases event with
    | begin store topic partition offset => exact ih.begin store topic partition offset
    | call store outcome => exact ih.call hinj hnames store outcome

theorem independent_of_separateNames (hinj : Function.Injective paths)
    (hnames : SeparateNames paths) {fs : OffsetFs} (hlinks : fs.NoHardLinks (NamesOf paths)) :
    Independent paths fs := by
  intro events event before after
  have hbefore : AllFollow paths _ before := follows_run hinj hnames hlinks events
  refine ⟨?_, ?_, ?_⟩
  · intro store hchanged
    cases event with
    | begin i topic partition offset =>
      have hsame : after.fs = before.fs := by
        show (before.apply paths (.begin i topic partition offset)).fs = before.fs
        rw [Shared.apply]
        cases before.program i <;> rfl
      rw [hsame] at hchanged
      exact absurd rfl hchanged
    | call i o =>
      have hself := hbefore.follows i
      by_cases hi : i = store
      · subst hi
        obtain ⟨more, k, ho, hprogram⟩ :=
          hself.rename_of_changed (fun _ => hbefore.separate hnames i i) hchanged
        exact ⟨more, k, by rw [ho], hprogram⟩
      · have huntouched : Untouched before.fs after.fs (paths store) :=
          (hself.position.effect o).untouched
            (fun heq => hi (hinj (Entry.file.inj heq)).symm)
            fun _ => hbefore.separate hnames i store
        exact absurd huntouched.contents hchanged
  · intro store more k hevent hprogram hfolder
    have hself := hbefore.follows store
    rw [hprogram] at hself
    have hafter : after.fs = (step performFile (.ok more) (before.program store, before.fs)).2 := by
      show (before.apply paths event).fs = _
      rw [hevent]
      rfl
    rw [hafter, hprogram]
    exact hself.contents_of_rename (fun _ => hbefore.separate hnames store store) hfolder
  · intro store alone
    have halone : AllFollow paths _ alone := follows_run hinj hnames hlinks (eventsOf store events)
    have hhere := hbefore.follows store
    have hthere := halone.follows store
    simp only [eventsOf_eventsOf] at hthere
    refine ⟨hhere.contents.trans hthere.contents.symm, ?_⟩
    rw [hhere.position.activity, hthere.position.activity]

end

/-! ### Names that are not separate -/

/-- Consecutive calls of one store are a run of its program. -/
theorem run_calls (paths : ι → FilePath) (store : ι) (os : List Outcome) (shared : Shared ι) :
    let after := (os.map (Event.call store)).foldl (Shared.apply paths) shared
    (after.program store, after.fs) = exec performFile os (shared.program store, shared.fs) ∧
      ∀ other, other ≠ store → after.program other = shared.program other := by
  induction os generalizing shared with
  | nil => exact ⟨rfl, fun _ _ => rfl⟩
  | cons o os ih =>
    obtain ⟨hself, hother⟩ := ih (shared.apply paths (.call store o))
    refine ⟨?_, fun other hne => ?_⟩
    · rw [exec_cons]
      refine hself.trans ?_
      rw [show (shared.apply paths (.call store o)).program store =
        (step performFile o (shared.program store, shared.fs)).1 from Function.update_self ..]
      rfl
    · exact (hother other hne).trans (Function.update_of_ne hne _ _)

/-- The directory of the path is there, and nothing but directories on the way to it was made. -/
structure Prepared (path : FilePath) (fs fs' : OffsetFs) : Prop where
  reaches : fs'.Reaches path.parent
  dir : fs'.dir = fs.dir
  data : fs'.data = fs.data
  folder : ∀ q ∉ path.parent.way, fs'.folder q = fs.folder q

theorem Prepared.contents {path : FilePath} {fs fs' : OffsetFs} (h : Prepared path fs fs')
    (p : Entry) : fs'.contents p = fs.contents p := by
  rw [Fs.contents, Fs.contents, h.dir, h.data]

/-- A file can be opened under the temporary name. -/
theorem Prepared.fits {path : FilePath} {fs fs' : OffsetFs} (h : Prepared path fs fs')
    (hclear : fs.Clear path.tmp path) : layout.Fits fs'.folder path.tmp := by
  refine ⟨hclear.tmp_dots, (h.folder _ path.tmp_notMem_way).trans hclear.tmp_folder, ?_⟩
  rw [show layout.dirOf path.tmp = path.parent from path.directory_tmp]
  exact h.reaches

/-- The number of calls of a save up to the open. -/
def savesToOpen (path : FilePath) : ℕ := if path.parent.isEmpty then 0 else 1

/-- A save whose calls succeed comes to the point where it opens the temporary file. -/
theorem save_reaches_open {path : FilePath} {fs : OffsetFs} (hpassable : fs.Passable path.parent)
    (map : OffsetMap) : ∃ fs', exec performFile (List.replicate (savesToOpen path) (.ok 0))
      (saveMap path map, fs) = (replaceFile path (encodeUtf8 (renderMap map)), fs') ∧
      Prepared path fs fs' := by
  rw [savesToOpen, saveMap, createParent]
  by_cases hempty : path.parent.isEmpty
  · rw [if_pos hempty, if_pos hempty]
    exact ⟨fs, rfl, reaches_of_isEmpty hempty fs, rfl, rfl, fun _ _ => rfl⟩
  · rw [if_neg hempty, if_neg hempty]
    refine ⟨fs.makeDirs path.parent hpassable, ?_, reaches_makeDirs hpassable, rfl, rfl,
      fun q hq => folder_makeDirs_of_notMem hpassable hq⟩
    exact step_making _ hpassable 0

/-- A commit whose calls succeed comes to the point where it opens the temporary file; the number
of its calls up to there depends on whether the file is there. -/
theorem commit_reaches_open {store : FileOffsetStore} {topic : String} {partition : I32}
    {offset next : I64} {fs : OffsetFs} {map : OffsetMap} (hnext : nextOffsetOf offset = .ok next)
    (hfolder : fs.folder store.path = false) (hpassable : fs.Passable store.path.parent)
    (hmap : decodeFile (fs.contents store.path) = .ok map) :
    ∃ fs', exec performFile (List.replicate
          ((if (fs.contents store.path).isSome then 2 else 1) + savesToOpen store.path) (.ok 0))
        (store.commit topic partition offset, fs) =
      (replaceFile store.path (encodeUtf8 (renderMap (map.raise (topic, partition) next))), fs') ∧
      Prepared store.path fs fs' := by
  obtain ⟨fs', hsave, hprepared⟩ :=
    save_reaches_open hpassable (map.raise (topic, partition) next)
  refine ⟨fs', ?_, hprepared⟩
  rw [FileOffsetStore.commit, hnext, ret_ok_bind, List.replicate_add, exec_append]
  cases hread : fs.contents store.path with
  | none =>
    have hlookup := step_lookup_missing (topic, partition) next hfolder
      (contents_eq_none.mp hread) 0
    rw [hread, decodeFile] at hmap
    simp only [Option.isSome_none, Bool.false_eq_true, if_false, List.replicate_one, exec_cons,
      exec_nil]
    rw [hlookup, hmap]
    exact hsave
  | some bytes =>
    have hfound : fs.contents store.path ≠ none := by simp [hread]
    have hlookup := step_lookup_found (topic, partition) next (Or.inr hfound) 0
    have hreading := step_reading (topic, partition) next hread 0
    rw [hread] at hmap
    simp only [Option.isSome_some, if_true, List.replicate_succ, List.replicate_zero, exec_cons,
      exec_nil]
    rw [hlookup, hreading, hmap]
    exact hsave

/-- The first call of a commit is the metadata lookup. -/
theorem exec_lookup (path : FilePath) (topic : String) (partition : I32) {offset next : I64}
    (hnext : nextOffsetOf offset = .ok next) (fs : OffsetFs) :
    exec performFile (List.replicate 1 (.ok 0))
        (FileOffsetStore.commit ⟨path⟩ topic partition offset, fs) =
      step performFile (.ok 0)
        (loadMap path >>= fun map => saveMap path (map.raise (topic, partition) next), fs) := by
  rw [FileOffsetStore.commit, hnext]
  rfl

/-- On a missing file the table is empty. -/
theorem commit_reaches_open_of_missing {store : FileOffsetStore} {topic : String}
    {partition : I32} {offset next : I64} {fs : OffsetFs} (hnext : nextOffsetOf offset = .ok next)
    (hfolder : fs.folder store.path = false) (hpassable : fs.Passable store.path.parent)
    (hdir : fs.dir store.path = none) :
    ∃ fs', exec performFile (List.replicate (1 + savesToOpen store.path) (.ok 0))
        (store.commit topic partition offset, fs) =
      (replaceFile store.path (encodeUtf8 (renderMap (OffsetMap.raise ∅ (topic, partition) next))),
        fs') ∧ Prepared store.path fs fs' := by
  have hnone : fs.contents store.path = none := contents_eq_none.mpr hdir
  have hmap : decodeFile (fs.contents store.path) = .ok ∅ := by rw [hnone, decodeFile]
  have hopen := @commit_reaches_open store topic partition _ _ _ _ hnext hfolder hpassable hmap
  rw [hnone] at hopen
  exact hopen

/-- A commit on a missing file fails at the open if the temporary name is a directory. -/
theorem activity_of_tmp_directory {path : FilePath} {topic : String} {partition : I32}
    {offset next : I64} {fs : OffsetFs} (hnext : nextOffsetOf offset = .ok next)
    (hfolder : fs.folder path = false) (hpassable : fs.Passable path.parent)
    (hdir : fs.dir path = none) (htmp : fs.folder path.tmp = true) :
    activityOf (exec performFile (List.replicate (1 + savesToOpen path + 1) (.ok 0))
      (FileOffsetStore.commit ⟨path⟩ topic partition offset, fs)).1 =
        .returned (.error (.io isADirectory)) := by
  obtain ⟨fs', hopen, hprepared⟩ := @commit_reaches_open_of_missing ⟨path⟩ topic partition _ _ fs
    hnext hfolder hpassable hdir
  have htmp' : fs'.folder path.tmp = true := (hprepared.folder _ path.tmp_notMem_way).trans htmp
  rw [List.replicate_add, exec_append, hopen, List.replicate_one, exec_cons, exec_nil,
    step_opening_directory _ hprepared.reaches (Or.inr htmp')]
  rfl

/-- A commit on a missing file goes on after the open if nothing is in its way. -/
theorem activity_of_clear {path : FilePath} {topic : String} {partition : I32}
    {offset next : I64} {fs : OffsetFs} (hnext : nextOffsetOf offset = .ok next)
    (hclear : fs.Clear path.tmp path) (hdir : fs.dir path = none) :
    ∃ c, activityOf (exec performFile (List.replicate (1 + savesToOpen path + 1) (.ok 0))
      (FileOffsetStore.commit ⟨path⟩ topic partition offset, fs)).1 = .calling c := by
  obtain ⟨fs', hopen, hprepared⟩ := @commit_reaches_open_of_missing ⟨path⟩ topic partition _ _ fs
    hnext hclear.path_folder hclear.passable hdir
  have hfits := hprepared.fits hclear
  have hempty : (fs'.openTruncate path.tmp hfits).2.data
      (fs'.openTruncate path.tmp hfits).1.inode = [] := by
    rw [openTruncate_data, Function.update_self]
  rw [List.replicate_add, exec_append, hopen, List.replicate_one, exec_cons, exec_nil,
    step_opening _ hfits,
    (at_startWrite _ (openTruncate_dir hfits) hempty (openTruncate_pos hfits) rfl).activity,
    startWrite]
  split
  · exact ⟨_, rfl⟩
  · exact ⟨_, rfl⟩

/-- The first part of a program, all of its calls having the same outcome. -/
theorem exec_replicate_bind {α : Type} {p : FileProgram α} {f : α → FileProgram Unit} {n' : ℕ}
    {fs fs' : OffsetFs} {a : α} (o : Outcome)
    (h : run performFile (fun _ => o) p 0 fs = (.ok a, n', fs')) :
    ∃ n, exec performFile (List.replicate n o) (p >>= f, fs) = (f a, fs') := by
  obtain ⟨n, hn⟩ := exec_bind_of_run (fun _ => o) p f h
  refine ⟨n, ?_⟩
  rw [← hn, List.map_const', List.length_range']

/-- A commit on a missing file whose calls succeed comes to the point where the body is in the
temporary file, and what its calls keep holds there. -/
theorem commit_reaches_publish {path : FilePath} {topic : String} {partition : I32}
    {offset next : I64} {fs : OffsetFs} {body : List UInt8} {Inv : OffsetFs → Prop}
    (hnext : nextOffsetOf offset = .ok next)
    (hbody : encodeUtf8 (renderMap (OffsetMap.raise ∅ (topic, partition) next)) = body)
    (hclear : fs.Clear path.tmp path) (hdir : fs.dir path = none)
    (hinv : SaveInvariant path body Inv) (hstart : ∀ fs', Prepared path fs fs' → Inv fs') :
    ∃ n file fs', exec performFile (List.replicate n (.ok 0))
        (FileOffsetStore.commit ⟨path⟩ topic partition offset, fs) = (publishFile path file, fs') ∧
      Writing path Inv file.inode body fs' := by
  obtain ⟨fs₁, hopen, hprepared⟩ := @commit_reaches_open_of_missing ⟨path⟩ topic partition _ _ fs
    hnext hclear.path_folder hclear.passable hdir
  rw [hbody] at hopen
  have hfits := hprepared.fits hclear
  obtain ⟨file, hfile⟩ : ∃ file, (fs₁.openTruncate path.tmp hfits).1 = file := ⟨_, rfl⟩
  have hwriting : Writing path Inv file.inode [] (fs₁.openTruncate path.tmp hfits).2 := by
    refine ⟨hinv.openTruncate fs₁ hfits (hstart fs₁ hprepared), ?_, ?_⟩
    · rw [← hfile, openTruncate_dir]
    · rw [← hfile, openTruncate_data, Function.update_self]
  have hwrite : Always performFile (Permitted True) Inv
      (Returns True fun _ => Writing path Inv file.inode ([] ++ body)) (writeAll file body)
      (fs₁.openTruncate path.tmp hfits).2 :=
    writeAll_always hinv hwriting (hfile ▸ openTruncate_pos hfits)
  have hok : ∀ m : ℕ, 0 ≤ m → Permitted True ((fun _ => .ok 0 : ℕ → Outcome) m) :=
    fun _ _ _ => trivial
  have hwritten := hwrite.run hok
  obtain ⟨⟨r, n', fs'⟩, hrun⟩ : ∃ x, run performFile (fun _ => .ok 0) (writeAll file body) 0
      (fs₁.openTruncate path.tmp hfits).2 = x := ⟨_, rfl⟩
  rw [hrun] at hwritten
  cases r with
  | error e => exact absurd trivial hwritten.2
  | ok u =>
    obtain ⟨n, hn⟩ := exec_replicate_bind (f := fun _ => publishFile path file) (.ok 0) hrun
    refine ⟨1 + savesToOpen path + (1 + n), file, fs', ?_, hwritten.2⟩
    rw [List.replicate_add, exec_append, hopen, List.replicate_add, exec_append, List.replicate_one,
      exec_cons, exec_nil, step_opening _ hfits, hfile]
    exact hn

/-- The last two calls before the directory flush put the temporary file in place. -/
theorem publish_contents {path : FilePath} {file : Handle} {fs : OffsetFs}
    (hdir : fs.dir path.tmp = some file.inode) (hfolder : fs.folder path = false) :
    (exec performFile [.ok 0, .ok 0] (publishFile path file, fs)).2.contents path =
      some (fs.data file.inode) := by
  have hsynced : (fs.sync file).dir path.tmp = some file.inode := hdir
  obtain ⟨fs', hrename⟩ := exists_rename hsynced (fits_of_tmp hsynced hfolder)
  have hexec : (exec performFile [.ok 0, .ok 0] (publishFile path file, fs)).2 = fs' := by
    show (performFile (.ok 0) (.rename path.tmp path) (fs.sync file)).2 = fs'
    simp only [performFile, perform, hrename]
  rw [hexec, contents_rename hsynced hrename]
  rfl

/-- The entry of a name that is neither the store's path nor its temporary one. -/
theorem saveInvariant_dir {path : FilePath} {q : Entry} (body : List UInt8) (htmp : q ≠ path.tmp)
    (hpath : q ≠ path) (entry : Option ℕ) :
    SaveInvariant path body fun fs => fs.dir q = entry where
  makeDirs := fun _ _ h => h
  openTruncate := fun _ hfits h => (openTruncate_dir_of_ne hfits htmp).trans h
  write := fun _ _ _ h _ => h
  sync := fun _ _ h _ => h
  rename := fun _ _ _ h _ _ _ hrename => (rename_dir_of_ne htmp hpath hrename).trans h
  syncDir := fun _ h _ => h

section

variable {paths : ι → FilePath}

/-- The store begins a commit and makes calls that all succeed. -/
def commitEvents (store : ι) (topic : String) (partition : I32) (offset : I64) (n : ℕ) :
    List (Event ι) :=
  .begin store topic partition offset :: (List.replicate n (.ok 0)).map (Event.call store)

/-- A store that has no commit in progress begins one; the other programs do not move. -/
theorem run_commitEvents (paths : ι → FilePath) (shared : Shared ι) {store : ι}
    {result : KafkaResult Unit} (hidle : shared.program store = .ret result) (topic : String)
    (partition : I32) (offset : I64) (n : ℕ) :
    let after := (commitEvents store topic partition offset n).foldl (Shared.apply paths) shared
    (after.program store, after.fs) =
      exec performFile (List.replicate n (.ok 0))
        (FileOffsetStore.commit ⟨paths store⟩ topic partition offset, shared.fs) ∧
      ∀ other, other ≠ store → after.program other = shared.program other := by
  have hbegin : shared.apply paths (.begin store topic partition offset) =
      { shared with
        program := Function.update shared.program store
          (FileOffsetStore.commit ⟨paths store⟩ topic partition offset) } := by
    rw [Shared.apply, hidle]
  obtain ⟨hself, hother⟩ := run_calls paths store (List.replicate n (.ok 0))
    (shared.apply paths (.begin store topic partition offset))
  refine ⟨?_, fun other hne => ?_⟩
  · refine hself.trans ?_
    rw [hbegin]
    simp only [Function.update_self]
  · refine (hother other hne).trans ?_
    rw [hbegin]
    exact Function.update_of_ne hne _ _

theorem eventsOf_append (store : ι) (events events' : List (Event ι)) :
    eventsOf store (events ++ events') = eventsOf store events ++ eventsOf store events' :=
  List.filter_append ..

theorem eventsOf_eq_self {store : ι} {events : List (Event ι)}
    (h : ∀ event ∈ events, event.store = store) : eventsOf store events = events :=
  List.filter_eq_self.mpr fun event hevent => by simpa using h event hevent

theorem eventsOf_eq_nil {store other : ι} (hne : other ≠ store) {events : List (Event ι)}
    (h : ∀ event ∈ events, event.store = other) : eventsOf store events = [] := by
  refine List.filter_eq_nil_iff.mpr fun event hevent => ?_
  rw [h event hevent]
  simpa using hne

omit [DecidableEq ι] in
theorem store_of_mem_calls {store : ι} {os : List Outcome} {event : Event ι}
    (h : event ∈ os.map (Event.call store)) : event.store = store := by
  obtain ⟨o, -, rfl⟩ := List.mem_map.mp h
  rfl

omit [DecidableEq ι] in
theorem store_of_mem_commitEvents {store : ι} {topic : String} {partition : I32} {offset : I64}
    {n : ℕ} {event : Event ι} (h : event ∈ commitEvents store topic partition offset n) :
    event.store = store := by
  rcases List.mem_cons.mp h with rfl | h
  · rfl
  · exact store_of_mem_calls h

/-- A commit of one store and then one of another: the second runs on what the first has left, and
the events of the second store are its own commit. -/
theorem run_two_commits (paths : ι → FilePath) (fs : OffsetFs) {i j : ι} (hij : i ≠ j)
    (topic : String) (partition : I32) (offset : I64) (n m : ℕ) :
    let first := exec performFile (List.replicate n (.ok 0))
      (FileOffsetStore.commit ⟨paths i⟩ topic partition offset, fs)
    let events := commitEvents i topic partition offset n ++
      commitEvents j topic partition offset m
    let after := Shared.run paths fs events
    (after.program j, after.fs) = exec performFile (List.replicate m (.ok 0))
        (FileOffsetStore.commit ⟨paths j⟩ topic partition offset, first.2) ∧
      after.program i = first.1 ∧
      eventsOf j events = commitEvents j topic partition offset m := by
  intro first events after
  obtain ⟨hfirst, hother⟩ :=
    @run_commitEvents _ _ paths (Shared.start fs) i _ rfl topic partition offset n
  obtain ⟨hsecond, hfirst'⟩ := run_commitEvents paths
    ((commitEvents i topic partition offset n).foldl (Shared.apply paths) (Shared.start fs))
    (hother j (Ne.symm hij)) topic partition offset m
  obtain ⟨hprogram, hfs⟩ := Prod.mk.inj hfirst
  have hafter : after = (commitEvents j topic partition offset m).foldl (Shared.apply paths)
      ((commitEvents i topic partition offset n).foldl (Shared.apply paths) (Shared.start fs)) :=
    List.foldl_append
  rw [hafter]
  refine ⟨?_, ?_, ?_⟩
  · rw [hsecond, hfs]
    rfl
  · rw [hfirst' i hij, hprogram]
    rfl
  · show eventsOf j (_ ++ _) = _
    rw [eventsOf_append, eventsOf_eq_nil hij fun _ => store_of_mem_commitEvents, List.nil_append,
      eventsOf_eq_self fun _ => store_of_mem_commitEvents]

/-- If a store's temporary name is a store's path, opening it empties that file. -/
theorem not_independent_of_open {fs : OffsetFs} {i j : ι} {loaded : OffsetMap}
    {bytes : List UInt8} (htmp : (paths i).tmp = paths j)
    (hbytes : fs.contents (paths j) = some bytes) (hne : bytes ≠ [])
    (hfolder : fs.folder (paths i) = false)
    (hloaded : decodeFile (fs.contents (paths i)) = .ok loaded) : ¬ Independent paths fs := by
  intro h
  have hnext : nextOffsetOf (.of 5) = .ok (.of 6) := by decide
  have hparent : (paths i).parent = (paths j).parent := by
    rw [← (paths i).directory_tmp, htmp]
    rfl
  have hpassable : fs.Passable (paths i).parent := by
    rw [hparent]
    exact fun q hq => dir_of_folder (reaches_of_contents hbytes q hq)
  obtain ⟨fs', hopen, hprepared⟩ := @commit_reaches_open ⟨paths i⟩ "orders" (.of 0) (.of 5) _ fs
    loaded hnext hfolder hpassable hloaded
  generalize (if (fs.contents (paths i)).isSome then 2 else 1) + savesToOpen (paths i) = n at hopen
  have hrun : ((Shared.run paths fs (commitEvents i "orders" (.of 0) (.of 5) n)).program i,
      (Shared.run paths fs (commitEvents i "orders" (.of 0) (.of 5) n)).fs) = (_, fs') :=
    (run_commitEvents paths (Shared.start fs) rfl "orders" (.of 0) (.of 5) n).1.trans hopen
  have hown := (h (commitEvents i "orders" (.of 0) (.of 5) n) (.call i (.ok 0))).1 j
  generalize Shared.run paths fs (commitEvents i "orders" (.of 0) (.of 5) n) = before at hrun hown
  obtain ⟨hprogram, rfl⟩ := Prod.mk.inj hrun
  have hbefore : before.fs.contents (paths j) = some bytes := (hprepared.contents _).trans hbytes
  have hfits : layout.Fits before.fs.folder (paths i).tmp := by
    obtain ⟨inode, hdir, -⟩ := Option.map_eq_some_iff.mp hbefore
    rw [htmp]
    exact before.fs.placed _ (dir_mem_views _) _ inode hdir
  have hopened : (before.apply paths (.call i (.ok 0))).fs =
      (before.fs.openTruncate (paths i).tmp hfits).2 := by
    show (step performFile (.ok 0) (before.program i, before.fs)).2 = _
    rw [hprogram, step_opening _ hfits]
  have hempty : (before.fs.openTruncate (paths i).tmp hfits).2.contents (paths j) = some [] := by
    rw [← htmp, contents_of_dir (openTruncate_dir hfits), openTruncate_data, Function.update_self]
  rw [hopened, hempty, hbefore] at hown
  obtain ⟨more, k, hevent, hrename⟩ := hown fun heq => hne (Option.some.inj heq).symm
  rw [← (Event.call.inj hevent).1, hprogram] at hrename
  cases hrename

theorem not_independent_of_tmp_eq_path {i j : ι} (hinj : Function.Injective paths)
    (htmp : (paths i).tmp = paths j) {map : OffsetMap} (hmap : FaithfulMap map)
    (hne : encodeUtf8 (renderMap map) ≠ []) : ¬ Independent paths (oneTable (paths j) map) := by
  have hbytes : (oneTable (paths j) map).contents (paths j) = some (encodeUtf8 (renderMap map)) :=
    contents_oneFile _
  have hfolder : (oneTable (paths j) map).folder (paths i) = false := by
    refine folder_oneFile_of_notMem _ fun hway => (paths i).notMem_way ?_
    rw [← (paths i).directory_tmp, htmp]
    exact hway
  -- the opening store finds its own file, which is this one, or none
  by_cases hij : i = j
  · subst hij
    exact not_independent_of_open htmp hbytes hne hfolder (decodeFile_oneTable hmap)
  · have hnone : (oneTable (paths j) map).contents (paths i) = none :=
      contents_eq_none.mpr (dir_oneFile_of_ne _ fun heq => hij (hinj (Entry.file.inj heq)))
    have hloaded : decodeFile ((oneTable (paths j) map).contents (paths i)) = .ok ∅ := by
      rw [hnone, decodeFile]
    exact not_independent_of_open htmp hbytes hne hfolder hloaded

/-- A commit of one store makes another do something else than it does alone. -/
theorem not_independent_of_activity {i j : ι} (hij : j ≠ i) (topic : String)
    (partition : I32) (offset : I64) (n m : ℕ)
    (hne : activityOf (exec performFile (List.replicate m (.ok 0))
          (FileOffsetStore.commit ⟨paths i⟩ topic partition offset,
            (exec performFile (List.replicate n (.ok 0))
              (FileOffsetStore.commit ⟨paths j⟩ topic partition offset, Fs.empty)).2)).1 ≠
        activityOf (exec performFile (List.replicate m (.ok 0))
          (FileOffsetStore.commit ⟨paths i⟩ topic partition offset, Fs.empty)).1) :
    ¬ Independent paths Fs.empty := by
  intro h
  obtain ⟨htogether, -, hevents⟩ := run_two_commits paths Fs.empty hij topic partition offset n m
  have halone := (@run_commitEvents _ _ paths (Shared.start Fs.empty) i _ rfl topic partition
    offset m).1
  have hactivity := ((h (commitEvents j topic partition offset n ++
    commitEvents i topic partition offset m) (.call i (.ok 0))).2.2 i).2
  rw [hevents] at hactivity
  refine hne ?_
  rw [← htogether]
  exact hactivity.trans (congrArg (fun x => activityOf x.1) halone)

/-- If a store's path is a directory on the way to another's, a commit of the other one makes it a
directory: the first store then goes on to read it, where alone it finds no file. -/
theorem not_independent_of_path_mem_way {i j : ι} (hway : .file (paths i) ∈ (paths j).parent.way) :
    ¬ Independent paths Fs.empty := by
  have hnext : nextOffsetOf (.of 5) = .ok (.of 6) := by decide
  have hij : j ≠ i := by
    rintro rfl
    exact (paths j).notMem_way hway
  obtain ⟨fs', hopen, hprepared⟩ := @commit_reaches_open_of_missing ⟨paths j⟩ "orders" (.of 0)
    (.of 5) _ Fs.empty hnext rfl (fun _ _ => rfl) rfl
  refine not_independent_of_activity hij "orders" (.of 0) (.of 5) (1 + savesToOpen (paths j)) 1 ?_
  rw [hopen, exec_lookup _ _ _ hnext, step_lookup_found _ _ (Or.inl (hprepared.reaches _ hway)),
    exec_lookup _ _ _ hnext, step_lookup_missing _ _ rfl rfl, ret_ok_bind,
    (@at_startSave (paths i) Fs.empty [] _).activity, startSave]
  intro hread
  split at hread
  · cases hread
  · cases hread

/-- If a store's temporary name is a directory on the way to another's path, a commit of the other
one makes it a directory: the first store cannot open it, where alone it goes on to write. -/
theorem not_independent_of_tmp_mem_way {i j : ι} (hway : (paths i).tmp ∈ (paths j).parent.way)
    (hpath : .file (paths i) ∉ (paths j).parent.way) : ¬ Independent paths Fs.empty := by
  have hnext : nextOffsetOf (.of 5) = .ok (.of 6) := by decide
  have hij : j ≠ i := by
    rintro rfl
    exact (paths j).tmp_notMem_way hway
  obtain ⟨fs', hopen, hprepared⟩ := @commit_reaches_open_of_missing ⟨paths j⟩ "orders" (.of 0)
    (.of 5) _ Fs.empty hnext rfl (fun _ _ => rfl) rfl
  have hnone : ∀ q, fs'.dir q = none := fun q => congrFun hprepared.dir q
  refine not_independent_of_activity hij "orders" (.of 0) (.of 5) (1 + savesToOpen (paths j))
    (1 + savesToOpen (paths i) + 1) ?_
  rw [hopen, activity_of_tmp_directory hnext (hprepared.folder _ hpath) (fun q _ => hnone q)
    (hnone _) (hprepared.reaches _ hway)]
  obtain ⟨c, hc⟩ := @activity_of_clear (paths i) "orders" (.of 0) _ _ Fs.empty hnext
    (clear_empty (isDotdot_of_mem_way hway) rfl) rfl
  rw [hc]
  intro hreturned
  cases hreturned

/-- The store has written and is about to flush its temporary file, which holds `body` now. -/
structure AboutToPublish (paths : ι → FilePath) (store : ι) (file : Handle) (body : List UInt8)
    (shared : Shared ι) : Prop where
  program : shared.program store = publishFile (paths store) file
  dir : shared.fs.dir (paths store).tmp = some file.inode
  data : shared.fs.data file.inode = body
  folder : shared.fs.folder (paths store) = false

/-- Two more calls of the store put the temporary file in place. -/
theorem AboutToPublish.contents {shared : Shared ι} {store : ι} {file : Handle}
    {body : List UInt8} (h : AboutToPublish paths store file body shared) :
    (([.ok 0, .ok 0].map (Event.call store)).foldl (Shared.apply paths) shared).fs.contents
      (paths store) = some body := by
  have hcalls := (run_calls paths store [.ok 0, .ok 0] shared).1
  rw [h.program] at hcalls
  rw [← h.data, ← publish_contents h.dir h.folder, ← hcalls]

/-- A table to write. -/
def ordersTable : OffsetMap := OffsetMap.raise ∅ ordersKey (.of 6)

theorem faithful_ordersTable : FaithfulMap ordersTable := faithful_empty.raise (by decide) _

theorem encode_ordersTable_ne_nil : encodeUtf8 (renderMap ordersTable) ≠ [] := by
  refine encode_render_ne_nil faithful_ordersTable fun hempty => ?_
  have hmem : ordersKey ∈ ordersTable := mem_raise.mpr (Or.inl rfl)
  rw [hempty] at hmem
  exact Finmap.notMem_empty hmem

/-- The open of a temporary file that is there empties it, whichever store has made it. -/
theorem step_opening_empties {path : FilePath} {fs : OffsetFs} {inode : ℕ}
    (hdir : fs.dir path.tmp = some inode) (body : List UInt8) :
    let after := (step performFile (.ok 0) (replaceFile path body, fs)).2
    after.dir path.tmp = some inode ∧ after.data inode = [] ∧ after.folder = fs.folder := by
  have hfits : layout.Fits fs.folder path.tmp := fs.placed _ (dir_mem_views fs) _ _ hdir
  have hsame : (fs.openTruncate path.tmp hfits).2.dir path.tmp = some inode := by
    rw [openTruncate_dir_of_some hfits hdir, hdir]
  have hinode : (fs.openTruncate path.tmp hfits).1.inode = inode :=
    Option.some.inj ((openTruncate_dir hfits).symm.trans hsame)
  rw [step_opening body hfits]
  refine ⟨hsame, ?_, openTruncate_folder ..⟩
  rw [openTruncate_data, hinode, Function.update_self]

omit [DecidableEq ι] in
/-- A store has written its body, and the file of another one in its directory is still missing. -/
theorem exists_written {i j : ι} (hne : (.file (paths j) : Entry) ≠ paths i)
    (hparent : (paths i).parent = (paths j).parent) (hdots : (paths i).tmp.isDotdot = false)
    (hpath : (paths i).tmp ≠ paths j) :
    ∃ n file fs, exec performFile (List.replicate n (.ok 0))
        (FileOffsetStore.commit ⟨paths i⟩ "orders" (.of 0) (.of 5), Fs.empty) =
          (publishFile (paths i) file, fs) ∧
      fs.dir (paths i).tmp = some file.inode ∧
      fs.data file.inode = encodeUtf8 (renderMap ordersTable) ∧
      fs.Clear (paths i).tmp (paths i) ∧ fs.dir (paths j) = none ∧ fs.folder (paths j) = false := by
  have hnext : nextOffsetOf (.of 5) = .ok (.of 6) := by decide
  have hway : .file (paths j) ∉ (paths i).parent.way := hparent ▸ (paths j).notMem_way
  have hclear : (Fs.empty : OffsetFs).Clear (paths i).tmp (paths i) := clear_empty hdots rfl
  have hinv := (saveInvariant_clear (paths i) (encodeUtf8 (renderMap ordersTable))).and
    ((saveInvariant_dir _ (Ne.symm hpath) hne none).and (saveInvariant_folder _ hway false))
  have hstart : ∀ fs', Prepared (paths i) Fs.empty fs' → fs'.Clear (paths i).tmp (paths i) ∧
      fs'.dir (paths j) = none ∧ fs'.folder (paths j) = false := by
    intro fs' hprepared
    refine ⟨hclear.of_same ?_ ?_ fun q _ => congrFun hprepared.dir q,
      congrFun hprepared.dir _, hprepared.folder _ hway⟩
    · exact hprepared.folder _ (paths i).tmp_notMem_way
    · exact hprepared.folder _ (paths i).notMem_way
  obtain ⟨n, file, fs, hpublish, hwritten⟩ :=
    @commit_reaches_publish (paths i) "orders" (.of 0) _ _ Fs.empty _ _ hnext rfl hclear rfl hinv
      hstart
  exact ⟨n, file, fs, hpublish, hwritten.dir, hwritten.data, hwritten.inv⟩

/-- Two stores with one temporary name: the first has written its body, then the second opens the
file and so empties it. -/
theorem exists_emptied {i j : ι} (hinj : Function.Injective paths) (hij : i ≠ j)
    (htmp : (paths i).tmp = (paths j).tmp) (hdots : (paths i).tmp.isDotdot = false)
    (hpath : (paths i).tmp ≠ paths j) :
    ∃ n m file, AboutToPublish paths i file (encodeUtf8 (renderMap ordersTable))
        (Shared.run paths Fs.empty (commitEvents i "orders" (.of 0) (.of 5) n)) ∧
      AboutToPublish paths i file []
        ((Shared.run paths Fs.empty (commitEvents i "orders" (.of 0) (.of 5) n ++
          commitEvents j "orders" (.of 0) (.of 5) m)).apply paths (.call j (.ok 0))) := by
  have hnext : nextOffsetOf (.of 5) = .ok (.of 6) := by decide
  have hne : (.file (paths j) : Entry) ≠ paths i := fun heq => hij (hinj (Entry.file.inj heq)).symm
  have hparent : (paths i).parent = (paths j).parent := by
    rw [← (paths i).directory_tmp, htmp, (paths j).directory_tmp]
  have hway : .file (paths i) ∉ (paths j).parent.way := hparent ▸ (paths i).notMem_way
  obtain ⟨n, file, fs₁, hpublish, hdir₁, hdata₁, hclear₁, hmissing, hfolder₁⟩ :=
    exists_written hne hparent hdots hpath
  have hfirst : (_, (Shared.run paths Fs.empty (commitEvents i "orders" (.of 0) (.of 5) n)).fs) =
      (publishFile (paths i) file, fs₁) :=
    (@run_commitEvents _ _ paths (Shared.start Fs.empty) i _ rfl "orders" (.of 0) (.of 5) n).1.trans
      hpublish
  obtain ⟨hfirstProgram, hfirstFs⟩ := Prod.mk.inj hfirst
  refine ⟨n, 1 + savesToOpen (paths j), file, ⟨hfirstProgram, ?_, ?_, ?_⟩, ?_⟩
  · rw [hfirstFs]
    exact hdir₁
  · rw [hfirstFs]
    exact hdata₁
  · rw [hfirstFs]
    exact hclear₁.path_folder
  -- the second store comes to its open, and opens
  obtain ⟨fs₂, hopen, hprepared⟩ := @commit_reaches_open_of_missing ⟨paths j⟩ "orders" (.of 0)
    (.of 5) _ fs₁ hnext hfolder₁ (hparent ▸ hclear₁.passable) hmissing
  obtain ⟨hsecond, hwaiting, -⟩ := run_two_commits paths Fs.empty hij "orders" (.of 0) (.of 5) n
    (1 + savesToOpen (paths j))
  simp only [hpublish, hopen] at hsecond hwaiting
  generalize Shared.run paths Fs.empty (commitEvents i "orders" (.of 0) (.of 5) n ++
    commitEvents j "orders" (.of 0) (.of 5) (1 + savesToOpen (paths j))) = s at hsecond hwaiting ⊢
  obtain ⟨hprogram, hfs⟩ := Prod.mk.inj hsecond
  have hdir₂ : s.fs.dir (paths j).tmp = some file.inode := by
    rw [hfs, hprepared.dir, ← htmp]
    exact hdir₁
  obtain ⟨hdir₃, hdata₃, hfolder₃⟩ := step_opening_empties hdir₂ (encodeUtf8 (renderMap ordersTable))
  have hfs₃ : (s.apply paths (.call j (.ok 0))).fs = (step performFile (.ok 0)
      (replaceFile (paths j) (encodeUtf8 (renderMap ordersTable)), s.fs)).2 := by
    rw [Shared.apply, hprogram]
    rfl
  rw [← hfs₃] at hdir₃ hdata₃ hfolder₃
  refine ⟨(Function.update_of_ne hij _ _).trans hwaiting, htmp ▸ hdir₃, hdata₃, ?_⟩
  rw [hfolder₃, hfs, hprepared.folder _ hway]
  exact hclear₁.path_folder

/-- If two stores share their temporary name, one empties the file the other is about to rename. -/
theorem not_independent_of_tmp_eq_tmp {i j : ι} (hinj : Function.Injective paths) (hij : i ≠ j)
    (htmp : (paths i).tmp = (paths j).tmp) (hdots : (paths i).tmp.isDotdot = false)
    (hpath : (paths i).tmp ≠ paths j) : ¬ Independent paths Fs.empty := by
  intro h
  obtain ⟨n, m, file, halone, hemptied⟩ := exists_emptied hinj hij htmp hdots hpath
  -- the first store renames what is left, alone it renames its body
  have hfilter : eventsOf i ((commitEvents i "orders" (.of 0) (.of 5) n ++
      commitEvents j "orders" (.of 0) (.of 5) m ++ [.call j (.ok 0)]) ++
      [.ok 0, .ok 0].map (Event.call i)) =
      commitEvents i "orders" (.of 0) (.of 5) n ++ [.ok 0, .ok 0].map (Event.call i) := by
    have hnone : eventsOf i [.call j (.ok 0)] = [] :=
      eventsOf_eq_nil (Ne.symm hij) fun event hevent => by rw [List.mem_singleton.mp hevent]; rfl
    rw [eventsOf_append, eventsOf_append, eventsOf_append, hnone,
      eventsOf_eq_self fun _ => store_of_mem_commitEvents,
      eventsOf_eq_nil (Ne.symm hij) fun _ => store_of_mem_commitEvents,
      eventsOf_eq_self fun _ => store_of_mem_calls, List.append_nil, List.append_nil]
  have hcontents := ((h ((commitEvents i "orders" (.of 0) (.of 5) n ++
    commitEvents j "orders" (.of 0) (.of 5) m ++ [.call j (.ok 0)]) ++
    [.ok 0, .ok 0].map (Event.call i)) (.call i (.ok 0))).2.2 i).1
  have htogether : (Shared.run paths Fs.empty ((commitEvents i "orders" (.of 0) (.of 5) n ++
      commitEvents j "orders" (.of 0) (.of 5) m ++ [.call j (.ok 0)]) ++
      [.ok 0, .ok 0].map (Event.call i))).fs.contents (paths i) = some [] := by
    rw [Shared.run_append, Shared.run_append]
    exact hemptied.contents
  rw [htogether, hfilter, Shared.run_append, halone.contents] at hcontents
  exact encode_ordersTable_ne_nil (Option.some.inj hcontents).symm

/-- Independence in every file system in which no two of the stores' names are one file. -/
def AlwaysIndependent (paths : ι → FilePath) : Prop :=
  ∀ fs : OffsetFs, fs.NoHardLinks (NamesOf paths) → Independent paths fs

/-- **When the stores are independent.**  For stores on different files, for every order of their
calls and all outcomes: they are if and only if no temporary name is a store's path, no two are the
same, and no path or temporary name is a directory on the way to a store's path. -/
theorem stores_independent_iff (hinj : Function.Injective paths) :
    AlwaysIndependent paths ↔ SeparateNames paths := by
  constructor
  · intro h
    have hpath : ∀ i j, (paths i).tmp ≠ paths j := by
      intro i j htmp
      exact not_independent_of_tmp_eq_path hinj htmp faithful_ordersTable
        encode_ordersTable_ne_nil (h _ (noHardLinks_single _ rfl _))
    have hempty : Independent paths Fs.empty := h _ (noHardLinks_empty _)
    have hway : ∀ i j, .file (paths i) ∉ (paths j).parent.way :=
      fun i j hmem => not_independent_of_path_mem_way hmem hempty
    refine ⟨hpath, fun i j hij htmp => ?_, hway, fun i j hmem => ?_⟩
    · by_contra hdots
      exact not_independent_of_tmp_eq_tmp hinj hij htmp (Bool.eq_false_iff.mpr hdots) (hpath i j)
        hempty
    · exact not_independent_of_tmp_mem_way hmem (hway i j) hempty
  · intro hnames fs hlinks
    exact independent_of_separateNames hinj hnames hlinks

end

/-- `offsets.tsv` and `orders/offsets.tsv`. -/
def twoDirectories : Bool → FilePath
  | true => offsetsTsv
  | false => ⟨.sub .working (.of "orders"), offsetsTsv.fileName⟩

theorem stores_independent_iff_twoDirectories : AlwaysIndependent twoDirectories :=
  (stores_independent_iff (by decide)).mpr ⟨by decide, by decide, by decide, by decide⟩

/-- `a.tsv` and `a.log`. -/
def twoExtensions : Bool → FilePath
  | true => ⟨.working, .of "a.tsv"⟩
  | false => ⟨.working, .of "a.log"⟩

/-- Stores on `a.tsv` and `a.log` are not independent: both write to `a.tmp`. -/
theorem twoExtensions_not_independent :
    Function.Injective twoExtensions ∧ ¬ Independent twoExtensions Fs.empty := by
  have hinj : Function.Injective twoExtensions := by decide
  exact ⟨hinj, not_independent_of_tmp_eq_tmp hinj (i := true) (j := false) (by decide) (by decide)
    (by decide) (by decide)⟩

end Kafkax
