import Kafkax.Library.FileSystem

/-!
# Atomic replacement of a file

The protocol that replaces the content of `path`: make its directory, open a temporary name in it
with truncation, write, flush the file, rename it over `path`, flush the directory.

A crash may bring back any directory of the journal, so the protocol is described by what all of
them (`Fs.views`) show under `path`.  `Guarded fs tmp path Good` says that every view shows a
content satisfying `Good`, that this content is on disk, and that the temporary file is not part
of it.  Every call of the protocol keeps `Guarded`, and so does a crash; the rename is the one
call with a side condition, namely that the temporary file is on disk with a good content.  After
the directory is flushed the views agree (`Guarded.syncDir`).

`Fs.Clear` says that nothing stands in the way of the protocol: it is what the calls need apart
from the outcomes that the environment picks, and every call keeps it too.
-/

namespace Kafkax.FileSystem

variable {P D β : Type} {L : Layout P D}

/-- Whatever a crash leaves under `path` is good, on disk, and not the temporary file. -/
structure Guarded (fs : Fs L β) (tmp path : P) (Good : Option (List β) → Prop) : Prop where
  ne : tmp ≠ path
  apart : ∀ d ∈ fs.views, ∀ i, d tmp = some i → d path ≠ some i
  unread : ∀ d ∈ fs.views, ∀ i, fs.dir tmp = some i → d path ≠ some i
  good : ∀ d ∈ fs.views, Good ((d path).map fs.data)
  synced : ∀ d ∈ fs.views, ∀ i, d path = some i → fs.synced i = true

variable {fs fs' : Fs L β} {tmp path : P} {Good : Option (List β) → Prop}

/-- A file system that is on disk is guarded as soon as the two names are separate. -/
theorem Guarded.of_settled (hsettled : fs.Settled) (hsep : fs.Separate tmp path)
    (hgood : Good (fs.contents path)) : Guarded fs tmp path Good := by
  have hviews : ∀ d ∈ fs.views, d = fs.dir := by
    intro d hd
    rw [Fs.views, hsettled.1, List.mem_singleton] at hd
    exact hd
  refine ⟨hsep.1, ?_, ?_, ?_, ?_⟩
  · intro d hd i hi
    rw [hviews d hd] at hi ⊢
    exact hsep.2 i hi
  · intro d hd i hi
    rw [hviews d hd]
    exact hsep.2 i hi
  · intro d hd
    rw [hviews d hd]
    exact hgood
  · intro d hd i hi
    exact hsettled.2 i

/-- What a reader finds now is good. -/
theorem Guarded.contents (h : Guarded fs tmp path Good) : Good (fs.contents path) :=
  h.good fs.dir (dir_mem_views fs)

theorem Guarded.separate (h : Guarded fs tmp path Good) : fs.Separate tmp path :=
  ⟨h.ne, h.apart fs.dir (dir_mem_views fs)⟩

theorem Guarded.mono {Good' : Option (List β) → Prop} (h : Guarded fs tmp path Good)
    (hgood : ∀ c, Good c → Good' c) : Guarded fs tmp path Good' :=
  ⟨h.ne, h.apart, h.unread, fun d hd => hgood _ (h.good d hd), h.synced⟩

/-- **A crash keeps the guard**, so what is found under `path` afterwards is good. -/
theorem Guarded.crash (h : Guarded fs tmp path Good) (hcrash : Crash fs fs') :
    Guarded fs' tmp path Good := by
  have hview : fs'.dir ∈ fs.views := List.mem_cons.mpr hcrash.dir
  have hcontents : fs'.contents path = (fs'.dir path).map fs.data := by
    rw [Fs.contents]
    cases hpath : fs'.dir path with
    | none => rfl
    | some i =>
      rw [Option.map_some, Option.map_some, hcrash.data i (h.synced _ hview i hpath)]
  apply Guarded.of_settled hcrash.settled ⟨h.ne, h.apart _ hview⟩
  rw [hcontents]
  exact h.good _ hview

/-- Changes confined to one inode that no view shows under `path` keep the guard. -/
theorem Guarded.of_same_dir (h : Guarded fs tmp path Good) {inode : ℕ}
    (hinode : fs.dir tmp = some inode) (hdir : fs'.dir = fs.dir) (hjournal : fs'.journal = fs.journal)
    (hdata : ∀ i, i ≠ inode → fs'.data i = fs.data i)
    (hsynced : ∀ i, i ≠ inode → fs'.synced i = fs.synced i) :
    Guarded fs' tmp path Good := by
  have hviews : fs'.views = fs.views := by rw [Fs.views, Fs.views, hdir, hjournal]
  have hother : ∀ d ∈ fs.views, ∀ i, d path = some i → i ≠ inode := by
    intro d hd i hi heq
    exact h.unread d hd inode hinode (heq ▸ hi)
  refine ⟨h.ne, ?_, ?_, ?_, ?_⟩
  · rw [hviews]
    exact h.apart
  · rw [hviews, hdir]
    exact h.unread
  · rw [hviews]
    intro d hd
    have hgood := h.good d hd
    cases hpath : d path with
    | none =>
      rw [hpath] at hgood
      exact hgood
    | some i =>
      rw [hpath] at hgood
      rw [Option.map_some, hdata i (hother d hd i hpath)]
      exact hgood
  · rw [hviews]
    intro d hd i hi
    rw [hsynced i (hother d hd i hi)]
    exact h.synced d hd i hi

theorem Guarded.makeDirs [DecidableEq P] {d : D} (h : Guarded fs tmp path Good)
    (hd : fs.Passable d) (htmp : tmp ∉ L.way d) (hpath : path ∉ L.way d) :
    Guarded (fs.makeDirs d hd) tmp path Good := by
  refine ⟨h.ne, ?_, ?_, ?_, ?_⟩
  · intro view hview i hi
    obtain ⟨old, hold, hsame⟩ := mem_views_makeDirs hview
    rw [hsame tmp htmp] at hi
    rw [hsame path hpath]
    exact h.apart old hold i hi
  · intro view hview i hi
    obtain ⟨old, hold, hsame⟩ := mem_views_makeDirs hview
    rw [hsame path hpath]
    exact h.unread old hold i hi
  · intro view hview
    obtain ⟨old, hold, hsame⟩ := mem_views_makeDirs hview
    rw [hsame path hpath]
    exact h.good old hold
  · intro view hview i hi
    obtain ⟨old, hold, hsame⟩ := mem_views_makeDirs hview
    rw [hsame path hpath] at hi
    exact h.synced old hold i hi

theorem Guarded.write [Inhabited β] (h : Guarded fs tmp path Good) {file : Handle}
    (hfile : fs.dir tmp = some file.inode) (bytes : List β) :
    Guarded (fs.write file bytes) tmp path Good :=
  h.of_same_dir hfile rfl rfl (fun _ hi => Function.update_of_ne hi _ _)
    (fun _ hi => Function.update_of_ne hi _ _)

theorem Guarded.sync (h : Guarded fs tmp path Good) {file : Handle}
    (hfile : fs.dir tmp = some file.inode) : Guarded (fs.sync file) tmp path Good :=
  h.of_same_dir hfile rfl rfl (fun _ _ => rfl) (fun _ hi => Function.update_of_ne hi _ _)

section

variable [DecidableEq P]

/-- Opening the temporary name, whether or not a file was left there. -/
theorem Guarded.openTruncate (h : Guarded fs tmp path Good) (hfits : L.Fits fs.folder tmp) :
    Guarded (fs.openTruncate tmp hfits).2 tmp path Good := by
  have hinode : ∀ d ∈ fs.views, d path ≠ some (fs.openTruncate tmp hfits).1.inode := by
    intro d hd hpath
    cases htmp : fs.dir tmp with
    | some i =>
      have hsame : (fs.openTruncate tmp hfits).1.inode = i := by
        have hdir := openTruncate_dir hfits
        rw [openTruncate_dir_of_some hfits htmp, htmp] at hdir
        exact (Option.some.inj hdir).symm
      exact h.unread d hd i htmp (hsame ▸ hpath)
    | none =>
      rw [openTruncate_inode_of_none hfits htmp] at hpath
      exact Nat.lt_irrefl _ (fs.allocated d hd path _ hpath)
  have hpath : (fs.openTruncate tmp hfits).2.dir path = fs.dir path :=
    openTruncate_dir_of_ne hfits (Ne.symm h.ne)
  have hview : ∀ d ∈ (fs.openTruncate tmp hfits).2.views, ∃ old ∈ fs.views, d path = old path := by
    intro d hd
    rcases mem_views_openTruncate hfits hd with rfl | hd
    · exact ⟨fs.dir, dir_mem_views fs, hpath⟩
    · exact ⟨d, hd, rfl⟩
  refine ⟨h.ne, ?_, ?_, ?_, ?_⟩
  · intro d hd i htmp hi
    rcases mem_views_openTruncate hfits hd with rfl | hd
    · rw [openTruncate_dir] at htmp
      rw [← Option.some.inj htmp, hpath] at hi
      exact hinode fs.dir (dir_mem_views fs) hi
    · exact h.apart d hd i htmp hi
  · intro d hd i htmp hi
    rw [openTruncate_dir] at htmp
    obtain ⟨old, hold, heq⟩ := hview d hd
    rw [heq, ← Option.some.inj htmp] at hi
    exact hinode old hold hi
  · intro d hd
    obtain ⟨old, hold, heq⟩ := hview d hd
    have hgood := h.good old hold
    rw [heq]
    cases hi : old path with
    | none =>
      rw [hi] at hgood
      exact hgood
    | some i =>
      rw [hi] at hgood
      rw [Option.map_some, openTruncate_data, Function.update_of_ne]
      · exact hgood
      · intro heq
        exact hinode old hold (heq ▸ hi)
  · intro d hd i hi
    obtain ⟨old, hold, heq⟩ := hview d hd
    rw [heq] at hi
    rw [openTruncate_synced, Function.update_of_ne]
    · exact h.synced old hold i hi
    · intro heq
      exact hinode old hold (heq ▸ hi)

/-- **The rename.**  The temporary file, on disk and with a good content, takes the place of the
old one. -/
theorem Guarded.rename (h : Guarded fs tmp path Good) {inode : ℕ} (htmp : fs.dir tmp = some inode)
    (hsynced : fs.synced inode = true) (hgood : Good (some (fs.data inode)))
    (hrename : fs.rename tmp path = some fs') : Guarded fs' tmp path Good := by
  have hdata := rename_data hrename
  have hnone : fs'.dir tmp = none := rename_dir_src h.ne hrename
  have hpath : fs'.dir path = some inode := rename_dir htmp hrename
  refine ⟨h.ne, ?_, ?_, ?_, ?_⟩
  · intro d hd i hi
    rcases mem_views_rename hrename hd with rfl | hd
    · rw [hnone] at hi
      exact absurd hi (by simp)
    · exact h.apart d hd i hi
  · intro d hd i hi
    rw [hnone] at hi
    exact absurd hi (by simp)
  · intro d hd
    rw [hdata.1]
    rcases mem_views_rename hrename hd with rfl | hd
    · rw [hpath]
      exact hgood
    · exact h.good d hd
  · intro d hd i hi
    rw [hdata.2]
    rcases mem_views_rename hrename hd with rfl | hd
    · rw [hpath] at hi
      rw [← Option.some.inj hi]
      exact hsynced
    · exact h.synced d hd i hi

/-- The name that was renamed shows the content of the temporary file. -/
theorem contents_rename {inode : ℕ} (htmp : fs.dir tmp = some inode)
    (hrename : fs.rename tmp path = some fs') : fs'.contents path = some (fs.data inode) := by
  rw [contents_of_dir (rename_dir htmp hrename), (rename_data hrename).1]

end

/-- **The directory flush.**  It keeps the guard, and afterwards every view shows under `path` what
a reader finds there now: a condition on that content alone is guarded too. -/
theorem Guarded.syncDir [DecidableEq D] (h : Guarded fs tmp path Good)
    (hdirOf : L.dirOf tmp = L.dirOf path) {Good' : Option (List β) → Prop}
    (hgood : Good' (fs.contents path)) :
    Guarded (fs.syncDir (L.dirOf path)) tmp path Good' := by
  have hview : ∀ d ∈ (fs.syncDir (L.dirOf path)).views,
      d tmp = fs.dir tmp ∧ d path = fs.dir path := by
    intro d hd
    rcases List.mem_cons.mp hd with rfl | hd
    · exact ⟨rfl, rfl⟩
    · obtain ⟨old, -, rfl⟩ := List.mem_map.mp hd
      exact ⟨if_pos hdirOf, if_pos rfl⟩
  have hapart := h.apart fs.dir (dir_mem_views fs)
  refine ⟨h.ne, ?_, ?_, ?_, ?_⟩
  · intro d hd i hi
    rw [(hview d hd).1] at hi
    rw [(hview d hd).2]
    exact hapart i hi
  · intro d hd i hi
    rw [(hview d hd).2]
    exact hapart i hi
  · intro d hd
    rw [(hview d hd).2]
    exact hgood
  · intro d hd i hi
    rw [(hview d hd).2] at hi
    exact h.synced fs.dir (dir_mem_views fs) i hi

/-! ### Nothing in the way -/

/-- Neither name is a directory, and no file stands on the way to them. -/
structure Fs.Clear (fs : Fs L β) (tmp path : P) : Prop where
  tmp_dots : L.isDots tmp = false
  tmp_folder : fs.folder tmp = false
  path_dots : L.isDots path = false
  path_folder : fs.folder path = false
  passable : fs.Passable (L.dirOf path)

theorem clear_empty (htmp : L.isDots tmp = false) (hpath : L.isDots path = false) :
    (Fs.empty : Fs L β).Clear tmp path := ⟨htmp, rfl, hpath, rfl, fun _ _ => rfl⟩

theorem clear_single [DecidableEq P] (bytes : List β) (htmp : L.isDots tmp = false)
    (hpath : L.isDots path = false) (hdirOf : L.dirOf tmp = L.dirOf path) :
    (Fs.single path bytes hpath).Clear tmp path := by
  refine ⟨htmp, folder_single bytes hpath (hdirOf ▸ L.notMem_way tmp), hpath,
    folder_single bytes hpath (L.notMem_way path), fun q hq => ?_⟩
  refine dir_single_of_ne bytes hpath fun heq => ?_
  rw [heq] at hq
  exact L.notMem_way path hq

/-- The temporary file can be opened once its directory is there. -/
theorem Fs.Clear.fits (h : fs.Clear tmp path) (hreaches : fs.Reaches (L.dirOf tmp)) :
    L.Fits fs.folder tmp := ⟨h.tmp_dots, h.tmp_folder, hreaches⟩

/-- Directories that are made on the way to the two names, and files that come and go under them,
leave the way clear. -/
theorem Fs.Clear.of_same (h : fs.Clear tmp path) (htmp : fs'.folder tmp = fs.folder tmp)
    (hpath : fs'.folder path = fs.folder path)
    (hway : ∀ q ∈ L.way (L.dirOf path), fs'.dir q = fs.dir q) : fs'.Clear tmp path :=
  ⟨h.tmp_dots, htmp.trans h.tmp_folder, h.path_dots, hpath.trans h.path_folder,
    fun q hq => (hway q hq).trans (h.passable q hq)⟩

section

variable [DecidableEq P]

theorem Fs.Clear.makeDirs (h : fs.Clear tmp path) (hdirOf : L.dirOf tmp = L.dirOf path)
    (hd : fs.Passable (L.dirOf path)) : (fs.makeDirs (L.dirOf path) hd).Clear tmp path :=
  h.of_same (folder_makeDirs_of_notMem hd (hdirOf ▸ L.notMem_way tmp))
    (folder_makeDirs_of_notMem hd (L.notMem_way path)) fun _ _ => rfl

theorem Fs.Clear.openTruncate (h : fs.Clear tmp path) (hdirOf : L.dirOf tmp = L.dirOf path)
    (hfits : L.Fits fs.folder tmp) : (fs.openTruncate tmp hfits).2.Clear tmp path := by
  refine h.of_same (by rw [openTruncate_folder]) (by rw [openTruncate_folder]) fun q hq => ?_
  refine openTruncate_dir_of_ne hfits fun heq => ?_
  rw [heq, ← hdirOf] at hq
  exact L.notMem_way tmp hq

theorem Fs.Clear.rename (h : fs.Clear tmp path) (hdirOf : L.dirOf tmp = L.dirOf path)
    (hrename : fs.rename tmp path = some fs') : fs'.Clear tmp path := by
  have hfolder := rename_folder hrename
  refine h.of_same (by rw [hfolder]) (by rw [hfolder]) fun q hq => ?_
  refine rename_dir_of_ne (fun heq => ?_) (fun heq => ?_) hrename
  · rw [heq, ← hdirOf] at hq
    exact L.notMem_way tmp hq
  · rw [heq] at hq
    exact L.notMem_way path hq

end

end Kafkax.FileSystem
