import Mathlib.Logic.Function.Basic
import Mathlib.Data.List.Basic
import Mathlib.Tactic.Common

/-!
# A file system with crashes

Regular files are inodes; a directory entry binds a name to an inode, and an open file refers to
its inode, so it keeps writing there when the name is rebound.  A name may also be a directory, and
then it is no file; how names stand in directories is the `Layout`.  The calls are the ones an
atomic file replacement uses: looking a name up, reading, creating directories, opening with
truncation, writing a part of a buffer, flushing a file, renaming, flushing a directory.  Every
call fails where a directory stands in for a file, a file for a directory, or a directory is
missing; elsewhere it succeeds or fails by the outcome the environment picks.  A call that fails
changes nothing, and no call removes a directory.

What a power cut may undo is part of the state.  The content of an inode is `synced` when the last
flush came after the last change to it, otherwise a crash leaves it arbitrary.  The `journal`
holds the older states of the directory that may still be the ones on disk; flushing a directory
makes its current entries the only ones.  A rename is one entry of the journal, so a crash keeps
it whole or undoes it whole.  A directory stays once it was made: a file is not flushed before the
directories it stands in.  `Crash` is the resulting relation; stopping the process without losing
power is one of its cases.
-/

namespace Kafkax.FileSystem

/-- The kinds of I/O error a caller distinguishes. -/
inductive IoErrorKind where
  | notFound
  | permissionDenied
  | alreadyExists
  | invalidInput
  | invalidData
  | timedOut
  | interrupted
  | wouldBlock
  | writeZero
  | storageFull
  | notADirectory
  | isADirectory
  | other
deriving DecidableEq, Repr

/-- An I/O error: its kind and its text. -/
structure IoError where
  kind : IoErrorKind
  message : String
deriving DecidableEq, Repr

/-- How names stand in directories: `way d` are the names that are directories if `d` is there, its
own the first; `isDots p` says that `p` is a directory by itself, like `..`. -/
structure Layout (P D : Type) where
  dirOf : P → D
  way : D → List P
  isDots : P → Bool
  way_dirOf : ∀ d, ∀ p ∈ way d, ∀ q ∈ way (dirOf p), q ∈ way d
  notMem_way : ∀ p, p ∉ way (dirOf p)

/-- A regular file may stand under the name: it is no directory, and its directory is there. -/
def Layout.Fits {P D : Type} (L : Layout P D) (folder : P → Bool) (p : P) : Prop :=
  L.isDots p = false ∧ folder p = false ∧ ∀ q ∈ L.way (L.dirOf p), folder q = true

instance {P D : Type} (L : Layout P D) (folder : P → Bool) (p : P) :
    Decidable (L.Fits folder p) :=
  inferInstanceAs (Decidable (_ ∧ _ ∧ _))

/-- The state of the file system over the names `P` and the bytes `β`. -/
structure Fs {P D : Type} (L : Layout P D) (β : Type) where
  /-- the inode a name is bound to -/
  dir : P → Option ℕ
  /-- whether a name is a directory that was made -/
  folder : P → Bool
  /-- the content of an inode, as a reader sees it -/
  data : ℕ → List β
  /-- whether that content is also the one on disk -/
  synced : ℕ → Bool
  /-- older states of the directory that a crash may bring back -/
  journal : List (P → Option ℕ)
  /-- the next inode to hand out -/
  fresh : ℕ
  rooted : ∀ p, folder p = true → ∀ q ∈ L.way (L.dirOf p), folder q = true
  placed : ∀ d ∈ dir :: journal, ∀ p i, d p = some i → L.Fits folder p
  allocated : ∀ d ∈ dir :: journal, ∀ p i, d p = some i → i < fresh

/-- An open file: its inode and the position of the next write. -/
structure Handle where
  inode : ℕ
  pos : ℕ
deriving DecidableEq, Repr

variable {P D β : Type} {L : Layout P D}

/-- The directories a crash may leave: the current one and those of the journal. -/
def Fs.views (fs : Fs L β) : List (P → Option ℕ) := fs.dir :: fs.journal

theorem dir_mem_views (fs : Fs L β) : fs.dir ∈ fs.views := List.mem_cons_self

/-- The content a reader finds under a name. -/
def Fs.contents (fs : Fs L β) (p : P) : Option (List β) := (fs.dir p).map fs.data

/-- Two names for two different files: they are distinct and share no inode. -/
def Fs.Separate (fs : Fs L β) (p q : P) : Prop :=
  p ≠ q ∧ ∀ i, fs.dir p = some i → fs.dir q ≠ some i

/-- No file has two of these names. -/
def Fs.NoHardLinks (fs : Fs L β) (names : P → Prop) : Prop :=
  ∀ p q i, names p → names q → fs.dir p = some i → fs.dir q = some i → p = q

/-- No regular file stands on the way to the directory. -/
def Fs.Passable (fs : Fs L β) (d : D) : Prop := ∀ q ∈ L.way d, fs.dir q = none

instance (fs : Fs L β) (d : D) : Decidable (fs.Passable d) :=
  inferInstanceAs (Decidable (∀ q ∈ L.way d, fs.dir q = none))

/-- The directory is there. -/
def Fs.Reaches (fs : Fs L β) (d : D) : Prop := ∀ q ∈ L.way d, fs.folder q = true

instance (fs : Fs L β) (d : D) : Decidable (fs.Reaches d) :=
  inferInstanceAs (Decidable (∀ q ∈ L.way d, fs.folder q = true))

/-- The name is a directory. -/
def Fs.IsDir (fs : Fs L β) (p : P) : Prop :=
  fs.Reaches (L.dirOf p) ∧ (L.isDots p = true ∨ fs.folder p = true)

instance (fs : Fs L β) (p : P) : Decidable (fs.IsDir p) := inferInstanceAs (Decidable (_ ∧ _))

/-- A name still shows the same file with the same content. -/
def Untouched (fs fs' : Fs L β) (p : P) : Prop :=
  fs'.dir p = fs.dir p ∧ ∀ i, fs.dir p = some i → fs'.data i = fs.data i

/-- Everything is on disk: a crash changes nothing. -/
def Fs.Settled (fs : Fs L β) : Prop := fs.journal = [] ∧ ∀ i, fs.synced i = true

theorem contents_eq_of {fs fs' : Fs L β} {p : P} (hdir : fs'.dir p = fs.dir p)
    (hdata : ∀ i, fs.dir p = some i → fs'.data i = fs.data i) :
    fs'.contents p = fs.contents p := by
  rw [Fs.contents, Fs.contents, hdir]
  cases h : fs.dir p with
  | none => rfl
  | some i => rw [Option.map_some, Option.map_some, hdata i h]

theorem Untouched.refl (fs : Fs L β) (p : P) : Untouched fs fs p := ⟨rfl, fun _ _ => rfl⟩

theorem Untouched.contents {fs fs' : Fs L β} {p : P} (h : Untouched fs fs' p) :
    fs'.contents p = fs.contents p := contents_eq_of h.1 h.2

theorem contents_of_dir {fs : Fs L β} {p : P} {i : ℕ} (h : fs.dir p = some i) :
    fs.contents p = some (fs.data i) := by
  rw [Fs.contents, h, Option.map_some]

theorem contents_eq_none {fs : Fs L β} {p : P} : fs.contents p = none ↔ fs.dir p = none := by
  rw [Fs.contents, Option.map_eq_none_iff]

/-- A name that is bound is no directory. -/
theorem folder_of_dir {fs : Fs L β} {p : P} {i : ℕ} (h : fs.dir p = some i) :
    fs.folder p = false := (fs.placed _ (dir_mem_views fs) p i h).2.1

theorem folder_of_contents {fs : Fs L β} {p : P} {bytes : List β}
    (h : fs.contents p = some bytes) : fs.folder p = false := by
  obtain ⟨i, hi, -⟩ := Option.map_eq_some_iff.mp h
  exact folder_of_dir hi

/-- Nothing is bound to the name of a directory. -/
theorem dir_of_folder {fs : Fs L β} {p : P} (h : fs.folder p = true) : fs.dir p = none := by
  cases hp : fs.dir p with
  | none => rfl
  | some i =>
    rw [folder_of_dir hp] at h
    exact absurd h (by simp)

theorem contents_of_folder {fs : Fs L β} {p : P} (h : fs.folder p = true) :
    fs.contents p = none := contents_eq_none.mpr (dir_of_folder h)

/-- Beside a file another one may stand, unless the name is a directory. -/
theorem fits_of_dirOf {fs : Fs L β} {p q : P} {i : ℕ} (hp : fs.dir p = some i)
    (hdirOf : L.dirOf p = L.dirOf q) (hdots : L.isDots q = false) (hfolder : fs.folder q = false) :
    L.Fits fs.folder q :=
  ⟨hdots, hfolder, hdirOf ▸ (fs.placed _ (dir_mem_views fs) p i hp).2.2⟩

theorem isDir_of_folder {fs : Fs L β} {p : P} (h : fs.folder p = true) : fs.IsDir p :=
  ⟨fs.rooted p h, Or.inr h⟩

/-- No files and no directories. -/
def Fs.empty : Fs L β where
  dir := fun _ => none
  folder := fun _ => false
  data := fun _ => []
  synced := fun _ => true
  journal := []
  fresh := 0
  rooted := fun p hp => absurd hp (by simp)
  placed := by
    intro d hd p i hp
    rw [List.mem_singleton.mp hd] at hp
    exact absurd hp (by simp)
  allocated := by
    intro d hd p i hp
    rw [List.mem_singleton.mp hd] at hp
    exact absurd hp (by simp)

/-- One file, on disk, under one name, and the directories it stands in. -/
def Fs.single [DecidableEq P] (p : P) (bytes : List β) (hp : L.isDots p = false) : Fs L β where
  dir := fun q => if q = p then some 0 else none
  folder := fun q => decide (q ∈ L.way (L.dirOf p))
  data := fun _ => bytes
  synced := fun _ => true
  journal := []
  fresh := 1
  rooted := by
    intro q hq r hr
    exact decide_eq_true (L.way_dirOf _ q (of_decide_eq_true hq) r hr)
  placed := by
    intro d hd q i hq
    rw [List.mem_singleton.mp hd] at hq
    by_cases hqp : q = p
    · rw [hqp]
      exact ⟨hp, decide_eq_false (L.notMem_way p), fun r hr => decide_eq_true hr⟩
    · simp only [if_neg hqp, reduceCtorEq] at hq
  allocated := by
    intro d hd q i hq
    rw [List.mem_singleton.mp hd] at hq
    by_cases hqp : q = p
    · simp only [if_pos hqp, Option.some.injEq] at hq
      omega
    · simp only [if_neg hqp, reduceCtorEq] at hq

theorem noHardLinks_empty (names : P → Prop) : (Fs.empty : Fs L β).NoHardLinks names :=
  fun _ _ _ _ _ hp => absurd hp (by simp [Fs.empty])

section

variable [DecidableEq P] {p : P} (bytes : List β) (hp : L.isDots p = false)

theorem contents_single : (Fs.single p bytes hp).contents p = some bytes := by
  simp [Fs.contents, Fs.single]

theorem dir_single_of_ne {q : P} (h : q ≠ p) : (Fs.single p bytes hp).dir q = none := if_neg h

theorem folder_single {q : P} (h : q ∉ L.way (L.dirOf p)) :
    (Fs.single p bytes hp).folder q = false := decide_eq_false h

theorem noHardLinks_single (names : P → Prop) : (Fs.single p bytes hp).NoHardLinks names := by
  have hname : ∀ q i, (Fs.single p bytes hp).dir q = some i → q = p := by
    intro q i hq
    by_contra hne
    rw [dir_single_of_ne bytes hp hne] at hq
    exact absurd hq (by simp)
  intro q r i _ _ hq hr
  rw [hname q i hq, hname r i hr]

theorem separate_single {q : P} (h : q ≠ p) : (Fs.single p bytes hp).Separate q p := by
  refine ⟨h, fun i hi => ?_⟩
  rw [dir_single_of_ne bytes hp h] at hi
  exact absurd hi (by simp)

end

/-! ### The state changes -/

section

variable [DecidableEq P]

/-- Makes the directories that are missing on the way to `d`.  They stay, so no older state of the
directory that a crash may bring back shows a file under their names. -/
def Fs.makeDirs (fs : Fs L β) (d : D) (hd : fs.Passable d) : Fs L β :=
  { fs with
    folder := fun p => fs.folder p || decide (p ∈ L.way d)
    journal := fs.journal.map fun old p => if p ∈ L.way d then none else old p
    rooted := by
      intro p hp q hq
      rcases (Bool.or_eq_true _ _).mp hp with hp | hp
      · exact (Bool.or_eq_true _ _).mpr (Or.inl (fs.rooted p hp q hq))
      · exact (Bool.or_eq_true _ _).mpr
          (Or.inr (decide_eq_true (L.way_dirOf d p (of_decide_eq_true hp) q hq)))
    placed := by
      have hfits : ∀ p, L.Fits fs.folder p → p ∉ L.way d →
          L.Fits (fun p => fs.folder p || decide (p ∈ L.way d)) p := by
        intro p hp hway
        refine ⟨hp.1, ?_, fun q hq => (Bool.or_eq_true _ _).mpr (Or.inl (hp.2.2 q hq))⟩
        show (fs.folder p || decide (p ∈ L.way d)) = false
        rw [hp.2.1, decide_eq_false hway, Bool.or_false]
      intro view hview p i hp
      rcases List.mem_cons.mp hview with rfl | hview
      · refine hfits p (fs.placed _ List.mem_cons_self p i hp) fun hway => ?_
        rw [hd p hway] at hp
        exact absurd hp (by simp)
      · obtain ⟨old, hold, rfl⟩ := List.mem_map.mp hview
        by_cases hway : p ∈ L.way d
        · simp only [if_pos hway, reduceCtorEq] at hp
        · simp only [if_neg hway] at hp
          exact hfits p (fs.placed old (List.mem_cons_of_mem _ hold) p i hp) hway
    allocated := by
      intro view hview p i hp
      rcases List.mem_cons.mp hview with rfl | hview
      · exact fs.allocated _ List.mem_cons_self p i hp
      · obtain ⟨old, hold, rfl⟩ := List.mem_map.mp hview
        by_cases hway : p ∈ L.way d
        · simp only [if_pos hway, reduceCtorEq] at hp
        · simp only [if_neg hway] at hp
          exact fs.allocated old (List.mem_cons_of_mem _ hold) p i hp }

/-- Opens a name for writing: an existing file is truncated, a missing one is created. -/
def Fs.openTruncate (fs : Fs L β) (p : P) (hp : L.Fits fs.folder p) : Handle × Fs L β :=
  match h : fs.dir p with
  | some i =>
    (⟨i, 0⟩,
      { fs with
        data := Function.update fs.data i []
        synced := Function.update fs.synced i false })
  | none =>
    (⟨fs.fresh, 0⟩,
      { dir := Function.update fs.dir p (some fs.fresh)
        data := Function.update fs.data fs.fresh []
        synced := Function.update fs.synced fs.fresh false
        journal := fs.dir :: fs.journal
        fresh := fs.fresh + 1
        placed := by
          intro d hd q i hq
          rcases List.mem_cons.mp hd with rfl | hd
          · by_cases hqp : q = p
            · exact hqp ▸ hp
            · rw [Function.update_of_ne hqp] at hq
              exact fs.placed _ List.mem_cons_self q i hq
          · exact fs.placed d hd q i hq
        rooted := fs.rooted
        folder := fs.folder
        allocated := by
          intro d hd q i hq
          rcases List.mem_cons.mp hd with rfl | hd
          · by_cases hqp : q = p
            · rw [hqp, Function.update_self] at hq
              rw [← Option.some.inj hq]
              exact Nat.lt_succ_self _
            · rw [Function.update_of_ne hqp] at hq
              exact Nat.lt_succ_of_lt (fs.allocated _ List.mem_cons_self q i hq)
          · exact Nat.lt_succ_of_lt (fs.allocated d hd q i hq) })

/-- A buffer written into a content at a position; a gap before the position is filled. -/
def splice [Inhabited β] (content : List β) (pos : ℕ) (bytes : List β) : List β :=
  content.take pos ++ List.replicate (pos - content.length) default ++ bytes ++
    content.drop (pos + bytes.length)

/-- Writes bytes at the position of an open file. -/
def Fs.write [Inhabited β] (fs : Fs L β) (file : Handle) (bytes : List β) : Fs L β :=
  { fs with
    data := Function.update fs.data file.inode
      (splice (fs.data file.inode) file.pos bytes)
    synced := Function.update fs.synced file.inode false }

/-- Flushes an open file to disk. -/
def Fs.sync (fs : Fs L β) (file : Handle) : Fs L β :=
  { fs with synced := Function.update fs.synced file.inode true }

/-- Rebinds the inode of `src` to `dst`, replacing what `dst` named; `none` if `src` is no file or
none may stand under `dst`.  (A directory can be renamed too; no program here does.) -/
def Fs.rename (fs : Fs L β) (src dst : P) : Option (Fs L β) :=
  match h : fs.dir src with
  | none => none
  | some i =>
    if hfits : ¬ L.Fits fs.folder dst then none
    else if src = dst then some fs
    else some
      { fs with
        dir := Function.update (Function.update fs.dir src none) dst (some i)
        journal := fs.dir :: fs.journal
        placed := by
          intro d hd q j hq
          rcases List.mem_cons.mp hd with rfl | hd
          · by_cases hdst : q = dst
            · exact hdst ▸ not_not.mp hfits
            · rw [Function.update_of_ne hdst] at hq
              by_cases hsrc : q = src
              · rw [hsrc, Function.update_self] at hq
                exact absurd hq (by simp)
              · rw [Function.update_of_ne hsrc] at hq
                exact fs.placed _ List.mem_cons_self q j hq
          · exact fs.placed d hd q j hq
        allocated := by
          intro d hd q j hq
          rcases List.mem_cons.mp hd with rfl | hd
          · by_cases hdst : q = dst
            · rw [hdst, Function.update_self] at hq
              rw [← Option.some.inj hq]
              exact fs.allocated _ List.mem_cons_self src i h
            · rw [Function.update_of_ne hdst] at hq
              by_cases hsrc : q = src
              · rw [hsrc, Function.update_self] at hq
                exact absurd hq (by simp)
              · rw [Function.update_of_ne hsrc] at hq
                exact fs.allocated _ List.mem_cons_self q j hq
          · exact fs.allocated d hd q j hq }

/-- Flushes one directory: its current entries are the only ones a crash can leave. -/
def Fs.syncDir [DecidableEq D] (fs : Fs L β) (d : D) : Fs L β :=
  { fs with
    journal := fs.journal.map fun old p => if L.dirOf p = d then fs.dir p else old p
    placed := by
      intro view hview p i hp
      rcases List.mem_cons.mp hview with rfl | hview
      · exact fs.placed _ List.mem_cons_self p i hp
      · obtain ⟨old, hold, rfl⟩ := List.mem_map.mp hview
        by_cases hd : L.dirOf p = d
        · simp only [if_pos hd] at hp
          exact fs.placed _ List.mem_cons_self p i hp
        · simp only [if_neg hd] at hp
          exact fs.placed old (List.mem_cons_of_mem _ hold) p i hp
    allocated := by
      intro view hview p i hp
      rcases List.mem_cons.mp hview with rfl | hview
      · exact fs.allocated _ List.mem_cons_self p i hp
      · obtain ⟨old, hold, rfl⟩ := List.mem_map.mp hview
        by_cases hd : L.dirOf p = d
        · simp only [if_pos hd] at hp
          exact fs.allocated _ List.mem_cons_self p i hp
        · simp only [if_neg hd] at hp
          exact fs.allocated old (List.mem_cons_of_mem _ hold) p i hp }

end

/-- What a crash leaves: the current directory or one of the journal, the content of every synced
inode, anything in the others. -/
structure Crash (fs fs' : Fs L β) : Prop where
  dir : fs'.dir = fs.dir ∨ fs'.dir ∈ fs.journal
  folder : fs'.folder = fs.folder
  data : ∀ i, fs.synced i = true → fs'.data i = fs.data i
  settled : fs'.Settled

/-- The calls of a program on the file system. -/
inductive FileCall (P D β : Type) where
  | metadata (p : P)
  | read (p : P)
  | createDirAll (d : D)
  | openTruncate (p : P)
  | write (file : Handle) (bytes : List β)
  | syncAll (file : Handle)
  | rename (src dst : P)
  | syncDir (d : D)

/-- The type of the response to a call. -/
abbrev FileCall.Response : FileCall P D β → Type
  | .metadata _ => Except IoError Unit
  | .read _ => Except IoError (List β)
  | .createDirAll _ => Except IoError Unit
  | .openTruncate _ => Except IoError Handle
  | .write _ _ => Except IoError ℕ
  | .syncAll _ => Except IoError Unit
  | .rename _ _ => Except IoError Unit
  | .syncDir _ => Except IoError Unit

/-- What the environment decides about a call: it fails with an error, or it succeeds; a write
that succeeds moves one byte and up to `more` further ones. -/
inductive Outcome where
  | ok (more : ℕ)
  | error (e : IoError)
deriving DecidableEq, Repr

/-- The call succeeds. -/
def Outcome.IsOk : Outcome → Prop
  | .ok _ => True
  | .error _ => False

instance : DecidablePred Outcome.IsOk := fun o =>
  match o with
  | .ok _ => isTrue trivial
  | .error _ => isFalse id

/-- The error of a name that is not bound. -/
def notFound : IoError := ⟨.notFound, "No such file or directory"⟩

/-- The error of a file that stands where a directory has to be. -/
def notADirectory : IoError := ⟨.notADirectory, "Not a directory"⟩

/-- The error of a directory that stands where a file has to be. -/
def isADirectory : IoError := ⟨.isADirectory, "Is a directory"⟩

/-- The error of a directory whose own name is a file. -/
def fileExists : IoError := ⟨.alreadyExists, "File exists"⟩

/-- The error of a directory that is missing, or of a name that is not bound in it. -/
def Fs.missing (fs : Fs L β) (d : D) : IoError :=
  if fs.Passable d then notFound else notADirectory

/-- The error of a name that is no file. -/
def Fs.obstacle (fs : Fs L β) (p : P) : IoError :=
  if fs.IsDir p then isADirectory else fs.missing (L.dirOf p)

/-- The error of a directory that cannot be made. -/
def Fs.wayError (fs : Fs L β) (d : D) : IoError :=
  match L.way d with
  | [] => notADirectory
  | q :: _ => if (fs.dir q).isSome then fileExists else notADirectory

/-- The response to a call and the state after it. -/
def perform [DecidableEq P] [DecidableEq D] [Inhabited β] :
    Outcome → (c : FileCall P D β) → Fs L β → c.Response × Fs L β
  | .error e, .metadata _, fs => (.error e, fs)
  | .error e, .read _, fs => (.error e, fs)
  | .error e, .createDirAll _, fs => (.error e, fs)
  | .error e, .openTruncate _, fs => (.error e, fs)
  | .error e, .write _ _, fs => (.error e, fs)
  | .error e, .syncAll _, fs => (.error e, fs)
  | .error e, .rename _ _, fs => (.error e, fs)
  | .error e, .syncDir _, fs => (.error e, fs)
  | .ok _, .metadata p, fs =>
    match fs.dir p with
    | some _ => (.ok (), fs)
    | none => (if fs.IsDir p then .ok () else .error (fs.missing (L.dirOf p)), fs)
  | .ok _, .read p, fs =>
    match fs.contents p with
    | some bytes => (.ok bytes, fs)
    | none => (.error (fs.obstacle p), fs)
  | .ok _, .createDirAll d, fs =>
    if h : fs.Passable d then (.ok (), fs.makeDirs d h) else (.error (fs.wayError d), fs)
  | .ok _, .openTruncate p, fs =>
    if h : L.Fits fs.folder p then (.ok (fs.openTruncate p h).1, (fs.openTruncate p h).2)
    else (.error (fs.obstacle p), fs)
  | .ok more, .write file bytes, fs =>
    let count := min (more + 1) bytes.length
    (.ok count, fs.write file (bytes.take count))
  | .ok _, .syncAll file, fs => (.ok (), fs.sync file)
  | .ok _, .rename src dst, fs =>
    match fs.rename src dst with
    | some fs' => (.ok (), fs')
    | none => (.error (if fs.dir src = none then fs.obstacle src else fs.obstacle dst), fs)
  | .ok _, .syncDir d, fs =>
    if fs.Reaches d then (.ok (), fs.syncDir d) else (.error (fs.missing d), fs)

/-- A call that fails changes nothing. -/
@[simp] theorem perform_error_state [DecidableEq P] [DecidableEq D] [Inhabited β]
    (e : IoError) (c : FileCall P D β) (fs : Fs L β) : (perform (.error e) c fs).2 = fs := by
  cases c <;> rfl

/-- Looking a name up changes nothing. -/
@[simp] theorem perform_metadata_state [DecidableEq P] [DecidableEq D] [Inhabited β]
    (o : Outcome) (p : P) (fs : Fs L β) :
    (perform o (.metadata p : FileCall P D β) fs).2 = fs := by
  cases o with
  | error e => rfl
  | ok more =>
    rw [perform]
    cases fs.dir p <;> rfl

/-- Reading changes nothing. -/
@[simp] theorem perform_read_state [DecidableEq P] [DecidableEq D] [Inhabited β]
    (o : Outcome) (p : P) (fs : Fs L β) :
    (perform o (.read p : FileCall P D β) fs).2 = fs := by
  cases o with
  | error e => rfl
  | ok more =>
    rw [perform]
    cases fs.contents p <;> rfl

/-! ### What the changes do to a name -/

section

variable [DecidableEq P] {fs fs' : Fs L β} {p q src dst : P} {d : D}

/-- Making directories touches no name that is not one of them. -/
theorem folder_makeDirs_of_notMem (hd : fs.Passable d) (hp : p ∉ L.way d) :
    (fs.makeDirs d hd).folder p = fs.folder p := by
  show (fs.folder p || decide (p ∈ L.way d)) = fs.folder p
  rw [decide_eq_false hp, Bool.or_false]

theorem folder_makeDirs_of_folder (hd : fs.Passable d) (hp : fs.folder p = true) :
    (fs.makeDirs d hd).folder p = true := (Bool.or_eq_true _ _).mpr (Or.inl hp)

theorem reaches_makeDirs (hd : fs.Passable d) : (fs.makeDirs d hd).Reaches d :=
  fun _ hq => (Bool.or_eq_true _ _).mpr (Or.inr (decide_eq_true hq))

theorem untouched_makeDirs (hd : fs.Passable d) (q : P) : Untouched fs (fs.makeDirs d hd) q :=
  ⟨rfl, fun _ _ => rfl⟩

/-- Under every name but those of the directories, the states a crash may leave are the old ones. -/
theorem mem_views_makeDirs {hd : fs.Passable d} {view : P → Option ℕ}
    (h : view ∈ (fs.makeDirs d hd).views) : ∃ old ∈ fs.views, ∀ p ∉ L.way d, view p = old p := by
  rcases List.mem_cons.mp h with rfl | h
  · exact ⟨fs.dir, dir_mem_views fs, fun _ _ => rfl⟩
  · obtain ⟨old, hold, rfl⟩ := List.mem_map.mp h
    exact ⟨old, List.mem_cons_of_mem _ hold, fun p hp => if_neg hp⟩

@[simp] theorem openTruncate_folder (fs : Fs L β) (p : P) (hp : L.Fits fs.folder p) :
    (fs.openTruncate p hp).2.folder = fs.folder := by
  rw [Fs.openTruncate]
  split <;> rfl

section

variable (hp : L.Fits fs.folder p)

/-- The opened name is bound to the inode of the handle. -/
theorem openTruncate_dir :
    (fs.openTruncate p hp).2.dir p = some (fs.openTruncate p hp).1.inode := by
  rw [Fs.openTruncate]
  split
  · rename_i i h
    exact h
  · exact Function.update_self ..

theorem openTruncate_dir_of_ne (h : q ≠ p) : (fs.openTruncate p hp).2.dir q = fs.dir q := by
  rw [Fs.openTruncate]
  split
  · rfl
  · exact Function.update_of_ne h _ _

/-- An existing file keeps its inode. -/
theorem openTruncate_dir_of_some {i : ℕ} (h : fs.dir p = some i) :
    (fs.openTruncate p hp).2.dir = fs.dir := by
  rw [Fs.openTruncate]
  split
  · rfl
  · rename_i hnone
    rw [h] at hnone
    exact absurd hnone (by simp)

/-- A missing file gets an inode of its own. -/
theorem openTruncate_inode_of_none (h : fs.dir p = none) :
    (fs.openTruncate p hp).1.inode = fs.fresh := by
  rw [Fs.openTruncate]
  split
  · rename_i i hsome
    rw [h] at hsome
    exact absurd hsome (by simp)
  · rfl

@[simp] theorem openTruncate_pos : (fs.openTruncate p hp).1.pos = 0 := by
  rw [Fs.openTruncate]
  split <;> rfl

theorem openTruncate_data :
    (fs.openTruncate p hp).2.data = Function.update fs.data (fs.openTruncate p hp).1.inode [] := by
  rw [Fs.openTruncate]
  split <;> rfl

theorem openTruncate_synced :
    (fs.openTruncate p hp).2.synced =
      Function.update fs.synced (fs.openTruncate p hp).1.inode false := by
  rw [Fs.openTruncate]
  split <;> rfl

/-- The directory before the call is the only one that may be added to the journal. -/
theorem mem_views_openTruncate {view : P → Option ℕ} (h : view ∈ (fs.openTruncate p hp).2.views) :
    view = (fs.openTruncate p hp).2.dir ∨ view ∈ fs.views := by
  rcases List.mem_cons.mp h with h | h
  · exact Or.inl h
  · rw [Fs.openTruncate] at h
    split at h
    · exact Or.inr (List.mem_cons_of_mem _ h)
    · exact Or.inr h

/-- The inode of the handle is no other file's: another name has another inode. -/
theorem openTruncate_inode_ne (h : fs.Separate p q) {i : ℕ} (hq : fs.dir q = some i) :
    i ≠ (fs.openTruncate p hp).1.inode := by
  rw [Fs.openTruncate]
  split
  · rename_i j hj
    rintro rfl
    exact h.2 _ hj hq
  · rintro rfl
    exact Nat.lt_irrefl _ (fs.allocated _ (dir_mem_views fs) q _ hq)

theorem untouched_openTruncate (h : fs.Separate p q) :
    Untouched fs (fs.openTruncate p hp).2 q := by
  refine ⟨openTruncate_dir_of_ne hp (Ne.symm h.1), fun i hi => ?_⟩
  rw [openTruncate_data hp, Function.update_of_ne (openTruncate_inode_ne hp h hi)]

theorem noHardLinks_openTruncate {names : P → Prop} (h : fs.NoHardLinks names) :
    (fs.openTruncate p hp).2.NoHardLinks names := by
  cases hdir : fs.dir p with
  | some i =>
    rw [Fs.NoHardLinks, openTruncate_dir_of_some hp hdir]
    exact h
  | none =>
    have hfresh : ∀ q, q ≠ p → (fs.openTruncate p hp).2.dir q ≠ some fs.fresh := by
      intro q hq heq
      rw [openTruncate_dir_of_ne hp hq] at heq
      exact Nat.lt_irrefl _ (fs.allocated _ (dir_mem_views fs) q _ heq)
    have hself : (fs.openTruncate p hp).2.dir p = some fs.fresh := by
      rw [openTruncate_dir hp, openTruncate_inode_of_none hp hdir]
    intro q r i hqn hrn hq hr
    by_cases hqp : q = p
    · by_cases hrp : r = p
      · rw [hqp, hrp]
      · rw [hqp, hself] at hq
        exact absurd (hq ▸ hr) (hfresh r hrp)
    · by_cases hrp : r = p
      · rw [hrp, hself] at hr
        exact absurd (hr ▸ hq) (hfresh q hqp)
      · rw [openTruncate_dir_of_ne hp hqp] at hq
        rw [openTruncate_dir_of_ne hp hrp] at hr
        exact h q r i hqn hrn hq hr

end

/-- A rename can only fail for want of a source or of a place for it. -/
theorem exists_rename {i : ℕ} (hsrc : fs.dir src = some i) (hdst : L.Fits fs.folder dst) :
    ∃ fs', fs.rename src dst = some fs' := by
  rw [Fs.rename]
  split
  · rename_i hnone
    rw [hsrc] at hnone
    exact absurd hnone (by simp)
  · rw [dif_neg (not_not.mpr hdst)]
    split
    · exact ⟨_, rfl⟩
    · exact ⟨_, rfl⟩

theorem rename_eq_none_of_folder (hdst : fs.folder dst = true) : fs.rename src dst = none := by
  rw [Fs.rename]
  split
  · rfl
  · refine dif_pos fun hfits => ?_
    rw [hfits.2.1] at hdst
    exact absurd hdst (by simp)

/-- The state after a rename, for the two cases in which there is one. -/
theorem rename_cases (h : fs.rename src dst = some fs') : ∃ i, fs.dir src = some i ∧
    fs'.folder = fs.folder ∧ fs'.data = fs.data ∧ fs'.synced = fs.synced ∧
    (src = dst ∧ fs'.dir = fs.dir ∧ fs'.journal = fs.journal ∨
      src ≠ dst ∧ fs'.dir = Function.update (Function.update fs.dir src none) dst (some i) ∧
        fs'.journal = fs.dir :: fs.journal) := by
  rw [Fs.rename] at h
  split at h
  · exact absurd h (by simp)
  · rename_i i hi
    split at h
    · exact absurd h (by simp)
    · split at h
      · rename_i heq
        rw [← Option.some.inj h]
        exact ⟨i, hi, rfl, rfl, rfl, Or.inl ⟨heq, rfl, rfl⟩⟩
      · rename_i hne
        rw [← Option.some.inj h]
        exact ⟨i, hi, rfl, rfl, rfl, Or.inr ⟨hne, rfl, rfl⟩⟩

theorem rename_folder (h : fs.rename src dst = some fs') : fs'.folder = fs.folder := by
  obtain ⟨-, -, hfolder, -⟩ := rename_cases h
  exact hfolder

theorem rename_data (h : fs.rename src dst = some fs') :
    fs'.data = fs.data ∧ fs'.synced = fs.synced := by
  obtain ⟨-, -, -, hdata, hsynced, -⟩ := rename_cases h
  exact ⟨hdata, hsynced⟩

/-- After a rename the target is bound to the inode the source had. -/
theorem rename_dir {i : ℕ} (hsrc : fs.dir src = some i) (h : fs.rename src dst = some fs') :
    fs'.dir dst = some i := by
  obtain ⟨j, hj, -, -, -, ⟨heq, hdir, -⟩ | ⟨-, hdir, -⟩⟩ := rename_cases h
  · rw [hdir, ← heq, hsrc]
  · rw [hdir, Function.update_self, ← hj, hsrc]

theorem rename_dir_src (hne : src ≠ dst) (h : fs.rename src dst = some fs') :
    fs'.dir src = none := by
  obtain ⟨j, -, -, -, -, ⟨heq, -⟩ | ⟨-, hdir, -⟩⟩ := rename_cases h
  · exact absurd heq hne
  · rw [hdir, Function.update_of_ne hne, Function.update_self]

theorem rename_dir_of_ne (hsrc : q ≠ src) (hdst : q ≠ dst) (h : fs.rename src dst = some fs') :
    fs'.dir q = fs.dir q := by
  obtain ⟨j, -, -, -, -, ⟨-, hdir, -⟩ | ⟨-, hdir, -⟩⟩ := rename_cases h
  · rw [hdir]
  · rw [hdir, Function.update_of_ne hdst, Function.update_of_ne hsrc]

theorem untouched_rename (hsrc : q ≠ src) (hdst : q ≠ dst) (h : fs.rename src dst = some fs') :
    Untouched fs fs' q :=
  ⟨rename_dir_of_ne hsrc hdst h, fun i _ => by rw [(rename_data h).1]⟩

theorem noHardLinks_rename {names : P → Prop} {i : ℕ} (hlinks : fs.NoHardLinks names)
    (hname : names src) (hne : src ≠ dst) (hsrc : fs.dir src = some i)
    (h : fs.rename src dst = some fs') : fs'.NoHardLinks names := by
  -- the inode that moved had no name but the source, and every other name kept its inode
  have hother : ∀ q j, names q → q ≠ dst → fs'.dir q = some j → fs.dir q = some j ∧ j ≠ i := by
    intro q j hq hqd hj
    have hqs : q ≠ src := by
      intro heq
      rw [heq, rename_dir_src hne h] at hj
      exact absurd hj (by simp)
    rw [rename_dir_of_ne hqs hqd h] at hj
    refine ⟨hj, fun heq => hqs ?_⟩
    exact hlinks q src i hq hname (heq ▸ hj) hsrc
  have hdst : fs'.dir dst = some i := rename_dir hsrc h
  intro q r j hqn hrn hq hr
  by_cases hqd : q = dst
  · by_cases hrd : r = dst
    · rw [hqd, hrd]
    · rw [hqd, hdst] at hq
      exact absurd (Option.some.inj hq).symm (hother r j hrn hrd hr).2
  · by_cases hrd : r = dst
    · rw [hrd, hdst] at hr
      exact absurd (Option.some.inj hr).symm (hother q j hqn hqd hq).2
    · exact hlinks q r j hqn hrn (hother q j hqn hqd hq).1 (hother r j hrn hrd hr).1

theorem mem_views_rename {view : P → Option ℕ} (h : fs.rename src dst = some fs')
    (hview : view ∈ fs'.views) : view = fs'.dir ∨ view ∈ fs.views := by
  rcases List.mem_cons.mp hview with hview | hview
  · exact Or.inl hview
  · obtain ⟨j, -, -, -, -, ⟨-, -, hjournal⟩ | ⟨-, -, hjournal⟩⟩ := rename_cases h
    · rw [hjournal] at hview
      exact Or.inr (List.mem_cons_of_mem _ hview)
    · rw [hjournal] at hview
      exact Or.inr hview

end

section

variable [Inhabited β]

/-- Writing at the end of a content appends to it. -/
theorem splice_at_end (content bytes : List β) :
    splice content content.length bytes = content ++ bytes := by
  rw [splice, List.take_length, Nat.sub_self, List.replicate_zero, List.append_nil,
    List.drop_eq_nil_of_le (Nat.le_add_right _ _), List.append_nil]

theorem write_data_self (fs : Fs L β) (file : Handle) (bytes : List β)
    (hpos : file.pos = (fs.data file.inode).length) :
    (fs.write file bytes).data file.inode = fs.data file.inode ++ bytes := by
  rw [Fs.write]
  simp only [Function.update_self]
  rw [hpos, splice_at_end]

theorem write_data_of_ne (fs : Fs L β) (file : Handle) (bytes : List β) {i : ℕ}
    (h : i ≠ file.inode) : (fs.write file bytes).data i = fs.data i :=
  Function.update_of_ne h _ _

theorem untouched_write {fs : Fs L β} {file : Handle} {bytes : List β} {q : P}
    (h : fs.dir q ≠ some file.inode) : Untouched fs (fs.write file bytes) q := by
  refine ⟨rfl, fun i hi => write_data_of_ne fs file bytes fun heq => ?_⟩
  exact h (heq ▸ hi)

end

end Kafkax.FileSystem
