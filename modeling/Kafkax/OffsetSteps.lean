import Kafkax.OffsetFile

/-!
# A commit as a local machine

The file-system calls of a commit name only the store's path, its temporary path and their
directory.  `Local` is what the store itself can tell of the file system: the point its commit has
reached, what stands in the way of it, the content of its file, and what it has written to the
temporary file since it opened it.  `Local.call` is one call of the commit on this local state,
with no file system left in it.

`Follows` ties the machine to the commit program and the shared file system.  Three facts make it
the tool for stores that share a file system:

* `follows_call`: a call of the store itself moves the program and the machine in step;
* `Follows.frame`: a change that is `Unnoticed` leaves them as they are;
* `At.effect`: the changes a call of the store can make, from which `Effect.unnoticed` says when
  another store does not notice them.
-/

namespace Kafkax

open FileSystem LineText Programs Program

/-! ### The machine -/

/-- The points of a commit between its calls. -/
inductive Point where
  | idle (result : KafkaResult Unit)
  | lookup (key : Key) (next : I64)
  | reading (key : Key) (next : I64)
  | making (body : List UInt8)
  | opening (body : List UInt8)
  | writing (buf : List UInt8)
  | flushing
  | moving
  | flushingDir

/-- What a store does next: it has returned, or it makes a call. -/
inductive Activity where
  | returned (result : KafkaResult Unit)
  | calling (c : FileCall Entry Directory UInt8)

/-- A call, whatever open file it is made on. -/
def withoutHandle : FileCall Entry Directory UInt8 → FileCall Entry Directory UInt8
  | .write _ bytes => .write ⟨0, 0⟩ bytes
  | .syncAll _ => .syncAll ⟨0, 0⟩
  | c => c

/-- What a program does next. -/
def activityOf : FileProgram Unit → Activity
  | .ret result => .returned result
  | .call c _ => .calling (withoutHandle c)

/-- What a commit does next at a point. -/
def Point.activity (path : FilePath) : Point → Activity
  | .idle result => .returned result
  | .lookup _ _ => .calling (.metadata path)
  | .reading _ _ => .calling (.read path)
  | .making _ => .calling (.createDirAll path.parent)
  | .opening _ => .calling (.openTruncate path.tmp)
  | .writing buf => .calling (.write ⟨0, 0⟩ buf)
  | .flushing => .calling (.syncAll ⟨0, 0⟩)
  | .moving => .calling (.rename path.tmp path)
  | .flushingDir => .calling (.syncDir path.parent)

/-- What stands in the way of a store: a directory under its path, one under its temporary name,
the error of a file where a directory should be. -/
structure Place where
  pathIsDir : Bool
  tmpIsDir : Bool
  blocked : Option IoError
deriving DecidableEq

/-- What stands in the way of a store in a file system. -/
def placeOf (path : FilePath) (fs : OffsetFs) : Place where
  pathIsDir := fs.folder path
  tmpIsDir := path.tmp.isDotdot || fs.folder path.tmp
  blocked := if fs.Passable path.parent then none else some (fs.wayError path.parent)

/-- What a store can tell of the file system. -/
structure Local where
  point : Point
  place : Place
  contents : Option (List UInt8)
  written : List UInt8

/-- The first call of a save. -/
def startSave (path : FilePath) (body : List UInt8) : Point :=
  if path.parent.isEmpty then .opening body else .making body

/-- The first call after the table was loaded, or the end if it could not be. -/
def afterLoad (path : FilePath) (key : Key) (next : I64) : KafkaResult OffsetMap → Point
  | .error e => .idle (.error e)
  | .ok map => startSave path (encodeUtf8 (renderMap (map.raise key next)))

/-- The next call of `write_all`, or the flush if the buffer is used up. -/
def startWrite (buf : List UInt8) : Point := if buf = [] then .flushing else .writing buf

/-- A new commit, if the store has none in progress. -/
def Local.begin (self : Local) (key : Key) (offset : I64) : Local :=
  match self.point with
  | .idle _ =>
    match nextOffsetOf offset with
    | .error e => { self with point := .idle (.error e) }
    | .ok next => { self with point := .lookup key next }
  | _ => self

/-- One call of the commit in progress. -/
def Local.call (path : FilePath) (self : Local) : Outcome → Local
  | .error e =>
    match self.point with
    | .idle _ => self
    | .lookup key next => { self with point := afterLoad path key next (.ok ∅) }
    | _ => { self with point := .idle (.error (.io e)) }
  | .ok more =>
    match self.point with
    | .idle _ => self
    | .lookup key next =>
      if self.place.pathIsDir || self.contents.isSome then { self with point := .reading key next }
      else { self with point := afterLoad path key next (.ok ∅) }
    | .reading key next =>
      match self.contents with
      | none => { self with point := .idle (.error (.io isADirectory)) }
      | some bytes => { self with point := afterLoad path key next (decodeFile (some bytes)) }
    | .making body =>
      match self.place.blocked with
      | none => { self with point := .opening body }
      | some e => { self with point := .idle (.error (.io e)) }
    | .opening body =>
      if self.place.tmpIsDir then { self with point := .idle (.error (.io isADirectory)) }
      else { self with point := startWrite body, written := [] }
    | .writing buf =>
      { self with
        point := startWrite (buf.drop (min (more + 1) buf.length))
        written := self.written ++ buf.take (min (more + 1) buf.length) }
    | .flushing => { self with point := .moving }
    | .moving =>
      if self.place.pathIsDir then { self with point := .idle (.error (.io isADirectory)) }
      else { self with point := .flushingDir, contents := some self.written }
    | .flushingDir => { self with point := .idle (.ok ()) }

/-! ### The program at a point -/

/-- The program that is at a point of a commit; what it reads is there, its directory was made and the
temporary file is open where they have to be. -/
inductive At (path : FilePath) (fs : OffsetFs) (written : List UInt8) :
    Point → FileProgram Unit → Prop where
  | idle (result : KafkaResult Unit) : At path fs written (.idle result) (.ret result)
  | lookup (key : Key) (next : I64) :
      At path fs written (.lookup key next)
        (loadMap path >>= fun map => saveMap path (map.raise key next))
  | reading (key : Key) (next : I64)
      (hfound : fs.folder path = true ∨ fs.contents path ≠ none) :
      At path fs written (.reading key next)
        ((readToString path >>= fun text => .ret (parseMap text)) >>= fun map =>
          saveMap path (map.raise key next))
  | making (body : List UInt8) :
      At path fs written (.making body)
        (.call (.createDirAll path.parent) ofIo >>= fun _ => replaceFile path body)
  | opening (body : List UInt8) (hreaches : fs.Reaches path.parent) :
      At path fs written (.opening body) (replaceFile path body)
  | writing (file start : Handle) (buf : List UInt8) (hbuf : buf ≠ [])
      (hdir : fs.dir path.tmp = some file.inode) (hdata : fs.data file.inode = written)
      (hpos : file.pos = written.length) (hstart : start.inode = file.inode) :
      At path fs written (.writing buf) (writeAll file buf >>= fun _ => publishFile path start)
  | flushing (file : Handle) (hdir : fs.dir path.tmp = some file.inode)
      (hdata : fs.data file.inode = written) :
      At path fs written .flushing (publishFile path file)
  | moving (inode : ℕ) (hdir : fs.dir path.tmp = some inode)
      (hdata : fs.data inode = written) :
      At path fs written .moving
        (.call (.rename path.tmp path) ofIo >>= fun _ => .call (.syncDir path.parent) ofIo)
  | flushingDir (hreaches : fs.Reaches path.parent) :
      At path fs written .flushingDir (.call (.syncDir path.parent) ofIo)

variable {path : FilePath} {fs fs' : OffsetFs} {written : List UInt8} {machine : Local}
  {program : FileProgram Unit}

theorem at_startSave (map : OffsetMap) :
    At path fs written (startSave path (encodeUtf8 (renderMap map))) (saveMap path map) := by
  rw [startSave]
  by_cases hparent : path.parent.isEmpty
  · have hsave : saveMap path map = replaceFile path (encodeUtf8 (renderMap map)) := by
      rw [saveMap, createParent, if_pos hparent]
      rfl
    rw [if_pos hparent, hsave]
    exact At.opening _ (reaches_of_isEmpty hparent fs)
  · have hsave : saveMap path map = (.call (.createDirAll path.parent) ofIo >>= fun _ =>
        replaceFile path (encodeUtf8 (renderMap map))) := by
      rw [saveMap, createParent, if_neg hparent]
    rw [if_neg hparent, hsave]
    exact At.making _

theorem at_afterLoad (key : Key) (next : I64) (loaded : KafkaResult OffsetMap) :
    At path fs written (afterLoad path key next loaded)
      (.ret loaded >>= fun map => saveMap path (map.raise key next)) := by
  cases loaded with
  | error e => exact At.idle _
  | ok map => exact at_startSave _

theorem at_startWrite {file start : Handle} (buf : List UInt8)
    (hdir : fs.dir path.tmp = some file.inode) (hdata : fs.data file.inode = written)
    (hpos : file.pos = written.length) (hstart : start.inode = file.inode) :
    At path fs written (startWrite buf) (writeAll file buf >>= fun _ => publishFile path start) := by
  rw [startWrite]
  by_cases hbuf : buf = []
  · have hdone : (writeAll file buf >>= fun _ => publishFile path start) =
        publishFile path start := by
      rw [writeAll, dif_pos hbuf]
      rfl
    rw [if_pos hbuf, hdone]
    exact At.flushing start (hstart ▸ hdir) (hstart ▸ hdata)
  · rw [if_neg hbuf]
    exact At.writing file start buf hbuf hdir hdata hpos hstart

/-- The machine, the program and the file system agree. -/
structure Follows (path : FilePath) (machine : Local) (program : FileProgram Unit)
    (fs : OffsetFs) (written : List UInt8) : Prop where
  position : At path fs machine.written machine.point program
  place : placeOf path fs = machine.place
  contents : fs.contents path = machine.contents
  written_eq : written = machine.written

/-- What the store has written to the temporary file after a call with this outcome. -/
def record (o : Outcome) (fs : OffsetFs) (written : List UInt8) : FileProgram Unit → List UInt8
  | .call (.openTruncate p) _ =>
    match (performFile o (.openTruncate p) fs).1 with
    | .ok _ => []
    | .error _ => written
  | .call (.write file bytes) _ =>
    match (performFile o (.write file bytes) fs).1 with
    | .ok count => written ++ bytes.take count
    | .error _ => written
  | _ => written

/-! ### A change elsewhere -/

/-- A change that a store does not notice: its two files are untouched, the same things stand in
its way, and no directory is gone. -/
structure Unnoticed (path : FilePath) (fs fs' : OffsetFs) : Prop where
  tmp : Untouched fs fs' path.tmp
  file : Untouched fs fs' path
  place : placeOf path fs' = placeOf path fs
  folders : ∀ q, fs.folder q = true → fs'.folder q = true

theorem At.frame {point : Point} (h : At path fs written point program)
    (hun : Unnoticed path fs fs') : At path fs' written point program := by
  have hreaches : fs.Reaches path.parent → fs'.Reaches path.parent :=
    fun hreaches q hq => hun.folders q (hreaches q hq)
  cases h with
  | idle result => exact At.idle result
  | lookup key next => exact At.lookup key next
  | reading key next hfound =>
    refine At.reading key next (hfound.imp (hun.folders _) fun hcontents => ?_)
    rw [hun.file.contents]
    exact hcontents
  | making body => exact At.making body
  | opening body h => exact At.opening body (hreaches h)
  | writing file start buf hbuf hdir hdata hpos hstart =>
    exact At.writing file start buf hbuf (hun.tmp.1.trans hdir)
      ((hun.tmp.2 _ hdir).trans hdata) hpos hstart
  | flushing file hdir hdata =>
    exact At.flushing file (hun.tmp.1.trans hdir) ((hun.tmp.2 _ hdir).trans hdata)
  | moving inode hdir hdata =>
    exact At.moving inode (hun.tmp.1.trans hdir) ((hun.tmp.2 _ hdir).trans hdata)
  | flushingDir h => exact At.flushingDir (hreaches h)

/-- A change that the store does not notice leaves its machine and its program as they are. -/
theorem Follows.frame (h : Follows path machine program fs written)
    (hun : Unnoticed path fs fs') : Follows path machine program fs' written :=
  ⟨h.position.frame hun, hun.place.trans h.place, hun.file.contents.trans h.contents,
    h.written_eq⟩

/-! ### What a call of the store changes -/

/-- The changes that a call of a commit can make. -/
inductive Effect (path : FilePath) (fs : OffsetFs) : OffsetFs → Prop where
  | none : Effect path fs fs
  | makeDirs (hd : fs.Passable path.parent) : Effect path fs (fs.makeDirs path.parent hd)
  | openTruncate (hfits : layout.Fits fs.folder path.tmp) :
      Effect path fs (fs.openTruncate path.tmp hfits).2
  | write (file : Handle) (bytes : List UInt8) (hdir : fs.dir path.tmp = some file.inode) :
      Effect path fs (fs.write file bytes)
  | sync (file : Handle) : Effect path fs (fs.sync file)
  | rename (fs' : OffsetFs) (inode : ℕ) (hdir : fs.dir path.tmp = some inode)
      (hrename : fs.rename path.tmp path = some fs') : Effect path fs fs'
  | syncDir : Effect path fs (fs.syncDir path.parent)

/-- **A call of a commit** has one of the effects, whatever its outcome. -/
theorem At.effect {point : Point} (h : At path fs written point program) (o : Outcome) :
    Effect path fs (step performFile o (program, fs)).2 := by
  cases o with
  | error e =>
    have hsame : (step performFile (.error e) (program, fs)).2 = fs := by
      cases program with
      | ret result => rfl
      | call c k => exact perform_error_state e c fs
    rw [hsame]
    exact Effect.none
  | ok more =>
    cases h with
    | idle result => exact Effect.none
    | lookup key next =>
      show Effect path fs (performFile (.ok more) (.metadata path) fs).2
      rw [perform_metadata_state]
      exact Effect.none
    | reading key next hfound =>
      show Effect path fs (performFile (.ok more) (.read path) fs).2
      rw [perform_read_state]
      exact Effect.none
    | making body =>
      show Effect path fs (performFile (.ok more) (.createDirAll path.parent) fs).2
      by_cases hd : fs.Passable path.parent
      · simp only [performFile, perform, dif_pos hd]
        exact Effect.makeDirs hd
      · simp only [performFile, perform, dif_neg hd]
        exact Effect.none
    | opening body hreaches =>
      show Effect path fs (performFile (.ok more) (.openTruncate path.tmp) fs).2
      by_cases hfits : layout.Fits fs.folder path.tmp
      · simp only [performFile, perform, dif_pos hfits]
        exact Effect.openTruncate hfits
      · simp only [performFile, perform, dif_neg hfits]
        exact Effect.none
    | writing file start buf hbuf hdir hdata hpos hstart =>
      rw [writeAll, dif_neg hbuf]
      exact Effect.write file _ hdir
    | flushing file hdir hdata => exact Effect.sync file
    | moving inode hdir hdata =>
      show Effect path fs (performFile (.ok more) (.rename path.tmp path) fs).2
      cases hrename : fs.rename path.tmp path with
      | none =>
        simp only [performFile, perform, hrename]
        exact Effect.none
      | some fs' =>
        simp only [performFile, perform, hrename]
        exact Effect.rename fs' inode hdir hrename
    | flushingDir hreaches =>
      show Effect path fs (performFile (.ok more) (.syncDir path.parent) fs).2
      simp only [performFile, perform, if_pos hreaches]
      exact Effect.syncDir

/-- A temporary file that is there is separate from `q`, if it is whenever it is no `..`. -/
theorem separate_of_dir {q : Entry} {inode : ℕ} (hdir : fs.dir path.tmp = some inode)
    (hsep : path.tmp.isDotdot = false → fs.Separate path.tmp q) : fs.Separate path.tmp q :=
  hsep (fs.placed _ (dir_mem_views fs) _ _ hdir).1

/-- **The footprint of a store**: a call touches no file but its own and its temporary one. -/
theorem Effect.untouched (h : Effect path fs fs') {q : Entry} (hpath : q ≠ path)
    (hsep : path.tmp.isDotdot = false → fs.Separate path.tmp q) : Untouched fs fs' q := by
  cases h with
  | none => exact Untouched.refl fs q
  | makeDirs hd => exact untouched_makeDirs hd q
  | openTruncate hfits => exact untouched_openTruncate hfits (hsep hfits.1)
  | write file bytes hdir => exact untouched_write ((separate_of_dir hdir hsep).2 _ hdir)
  | sync file => exact ⟨rfl, fun _ _ => rfl⟩
  | rename fs' inode hdir hrename =>
    exact untouched_rename (Ne.symm (separate_of_dir hdir hsep).1) hpath hrename
  | syncDir => exact ⟨rfl, fun _ _ => rfl⟩

/-- A call binds no name but the path and the temporary name. -/
theorem Effect.dir (h : Effect path fs fs') {q : Entry} (hpath : q ≠ path) (htmp : q ≠ path.tmp) :
    fs'.dir q = fs.dir q := by
  cases h with
  | openTruncate hfits => exact openTruncate_dir_of_ne hfits htmp
  | rename fs' inode hdir hrename => exact rename_dir_of_ne htmp hpath hrename
  | _ => rfl

/-- A call makes no directory but those on its way. -/
theorem Effect.folder (h : Effect path fs fs') {q : Entry} (hq : q ∉ path.parent.way) :
    fs'.folder q = fs.folder q := by
  cases h with
  | makeDirs hd => exact folder_makeDirs_of_notMem hd hq
  | openTruncate hfits => rw [openTruncate_folder]
  | rename fs' inode hdir hrename => rw [rename_folder hrename]
  | _ => rfl

/-- A call removes no directory. -/
theorem Effect.folders (h : Effect path fs fs') {q : Entry} (hq : fs.folder q = true) :
    fs'.folder q = true := by
  cases h with
  | makeDirs hd => exact folder_makeDirs_of_folder hd hq
  | openTruncate hfits => exact (congrFun (openTruncate_folder fs _ hfits) q).trans hq
  | rename fs' inode hdir hrename => exact (congrFun (rename_folder hrename) q).trans hq
  | _ => exact hq

/-- A call gives no file a second name. -/
theorem Effect.noHardLinks (h : Effect path fs fs') {names : Entry → Prop}
    (hlinks : fs.NoHardLinks names) (htmp : names path.tmp) (hne : path.tmp ≠ path) :
    fs'.NoHardLinks names := by
  cases h with
  | openTruncate hfits => exact noHardLinks_openTruncate hfits hlinks
  | rename fs' inode hdir hrename => exact noHardLinks_rename hlinks htmp hne hdir hrename
  | _ => exact hlinks

/-- What stands in a store's way depends on its two names and on the files on its way. -/
theorem placeOf_eq (hpath : fs'.folder path = fs.folder path)
    (htmp : fs'.folder path.tmp = fs.folder path.tmp)
    (hway : ∀ q ∈ path.parent.way, fs'.dir q = fs.dir q) : placeOf path fs' = placeOf path fs := by
  have hpassable : fs'.Passable path.parent ↔ fs.Passable path.parent :=
    forall₂_congr fun q hq => by rw [hway q hq]
  have herror : fs'.wayError path.parent = fs.wayError path.parent := by
    have hhead : ∀ q, path.parent.way.head? = some q → fs'.dir q = fs.dir q :=
      fun q hq => hway q (List.mem_of_mem_head? hq)
    have hway' : layout.way path.parent = path.parent.way := rfl
    rw [Fs.wayError, Fs.wayError, hway']
    cases hlist : path.parent.way with
    | nil => rfl
    | cons q rest =>
      rw [hlist] at hhead
      simp only [hhead q rfl]
  rw [placeOf, placeOf, hpath, htmp, herror]
  simp only [hpassable]

/-- A call of the store moves nothing into its own way. -/
theorem Effect.place (h : Effect path fs fs') : placeOf path fs' = placeOf path fs := by
  refine placeOf_eq (h.folder path.notMem_way) (h.folder path.tmp_notMem_way) fun q hq => ?_
  refine h.dir (fun heq => ?_) (fun heq => ?_)
  · exact path.notMem_way (heq ▸ hq)
  · exact path.tmp_notMem_way (heq ▸ hq)

/-- Another store notices nothing of a call, if its two files are not the ones the call is about,
and neither store's names are directories on the other's way. -/
theorem Effect.unnoticed {other : FilePath} (h : Effect path fs fs') (hne : other ≠ path)
    (htmp_ne : other.tmp ≠ path)
    (hpath : path.tmp.isDotdot = false → fs.Separate path.tmp other)
    (htmp : path.tmp.isDotdot = false → fs.Separate path.tmp other.tmp)
    (hother : .file other ∉ path.parent.way) (hotherTmp : other.tmp ∉ path.parent.way)
    (hway : .file path ∉ other.parent.way) (hwayTmp : path.tmp ∉ other.parent.way) :
    Unnoticed other fs fs' := by
  have hfile : Untouched fs fs' other := h.untouched (fun heq => hne (Entry.file.inj heq)) hpath
  refine ⟨h.untouched htmp_ne htmp, hfile, ?_, fun _ => h.folders⟩
  refine placeOf_eq (h.folder hother) (h.folder hotherTmp) fun q hq => ?_
  exact h.dir (fun heq => hway (heq ▸ hq)) (fun heq => hwayTmp (heq ▸ hq))

/-! ### A call of the store -/

/-- A call that fails ends the commit, except for the metadata lookup, whose failure counts as a
missing file. -/
theorem follows_error (h : Follows path machine program fs written) (e : IoError) :
    Follows path (machine.call path (.error e)) (step performFile (.error e) (program, fs)).1
      (step performFile (.error e) (program, fs)).2 (record (.error e) fs written program) := by
  obtain ⟨point, place, contents, written'⟩ := machine
  obtain ⟨hposition, hplace, hcontents, rfl⟩ := h
  cases hposition with
  | idle result => exact ⟨At.idle result, hplace, hcontents, rfl⟩
  | lookup key next => exact ⟨at_afterLoad key next (.ok ∅), hplace, hcontents, rfl⟩
  | writing file start buf hbuf hdir hdata hpos hstart =>
    rw [writeAll, dif_neg hbuf]
    exact ⟨At.idle _, hplace, hcontents, rfl⟩
  | _ => exact ⟨At.idle _, hplace, hcontents, rfl⟩

/-- The metadata lookup of a missing file: the table is empty. -/
theorem step_lookup_missing (key : Key) (next : I64) (hfolder : fs.folder path = false)
    (hdir : fs.dir path = none) (more : ℕ) :
    step performFile (.ok more)
      (loadMap path >>= fun map => saveMap path (map.raise key next), fs) =
        (.ret (.ok ∅) >>= fun map : OffsetMap => saveMap path (map.raise key next), fs) := by
  rw [loadMap, pathExists, call_bind, call_bind, step_call, perform_of_missing hfolder hdir]
  rfl

/-- The metadata lookup of a file, or of a directory: it is read next. -/
theorem step_lookup_found (key : Key) (next : I64)
    (hfound : fs.folder path = true ∨ fs.contents path ≠ none) (more : ℕ) :
    step performFile (.ok more)
      (loadMap path >>= fun map => saveMap path (map.raise key next), fs) =
        ((readToString path >>= fun text => .ret (parseMap text)) >>= fun map =>
          saveMap path (map.raise key next), fs) := by
  have hmetadata : performFile (.ok more) (.metadata path) fs = (.ok (), fs) := by
    rcases hfound with hfolder | hcontents
    · exact (perform_of_folder hfolder more).1
    · cases hdir : fs.dir path with
      | none => exact absurd (contents_eq_none.mpr hdir) hcontents
      | some i => simp only [performFile, perform, hdir]
  rw [loadMap, pathExists, call_bind, call_bind, step_call, hmetadata]
  rfl

/-- A directory cannot be read. -/
theorem step_reading_directory (key : Key) (next : I64) (hfolder : fs.folder path = true)
    (more : ℕ) :
    step performFile (.ok more)
      ((readToString path >>= fun text => .ret (parseMap text)) >>= fun map =>
        saveMap path (map.raise key next), fs) = (.ret (.error (.io isADirectory)), fs) := by
  rw [readToString, call_bind, call_bind, step_call, (perform_of_folder hfolder more).2]
  rfl

/-- A file that was read is decoded. -/
theorem step_reading (key : Key) (next : I64) {bytes : List UInt8}
    (hread : fs.contents path = some bytes) (more : ℕ) :
    step performFile (.ok more)
      ((readToString path >>= fun text => .ret (parseMap text)) >>= fun map =>
        saveMap path (map.raise key next), fs) =
        (.ret (decodeFile (some bytes)) >>= fun map => saveMap path (map.raise key next), fs) := by
  show ((_, _) : FileProgram Unit × OffsetFs) = _
  simp only [performFile, perform, hread]
  show ((textOf bytes >>= fun text => .ret (parseMap text)) >>= fun map =>
    saveMap path (map.raise key next), fs) = _
  rw [textOf_bind_parseMap]

/-- The parent directory is made, unless a file is in the way. -/
theorem step_making (body : List UInt8) (hd : fs.Passable path.parent) (more : ℕ) :
    step performFile (.ok more)
      (.call (.createDirAll path.parent) ofIo >>= fun _ => replaceFile path body, fs) =
        (replaceFile path body, fs.makeDirs path.parent hd) := by
  rw [call_bind, step_call]
  simp only [performFile, perform, dif_pos hd]
  rfl

theorem step_making_blocked (body : List UInt8) (hd : ¬ fs.Passable path.parent) (more : ℕ) :
    step performFile (.ok more)
      (.call (.createDirAll path.parent) ofIo >>= fun _ => replaceFile path body, fs) =
        (.ret (.error (.io (fs.wayError path.parent))), fs) := by
  rw [call_bind, step_call]
  simp only [performFile, perform, dif_neg hd]
  rfl

/-- The temporary file is opened, unless its name is a directory. -/
theorem step_opening (body : List UInt8) (hfits : layout.Fits fs.folder path.tmp) (more : ℕ) :
    step performFile (.ok more) (replaceFile path body, fs) =
      (writeAll (fs.openTruncate path.tmp hfits).1 body >>= fun _ =>
        publishFile path (fs.openTruncate path.tmp hfits).1,
        (fs.openTruncate path.tmp hfits).2) := by
  rw [replaceFile, call_bind, step_call]
  simp only [performFile, perform, dif_pos hfits]
  rfl

theorem step_opening_directory (body : List UInt8) (hreaches : fs.Reaches path.parent)
    (htmp : path.tmp.isDotdot = true ∨ fs.folder path.tmp = true) (more : ℕ) :
    step performFile (.ok more) (replaceFile path body, fs) =
      (.ret (.error (.io isADirectory)), fs) := by
  have hfits : ¬ layout.Fits fs.folder path.tmp := by
    intro hfits
    rcases htmp with htmp | htmp
    · exact absurd (hfits.1.symm.trans htmp) (by simp)
    · exact absurd (hfits.2.1.symm.trans htmp) (by simp)
  have hreaches' : fs.Reaches (layout.dirOf path.tmp) := by
    rw [show layout.dirOf path.tmp = path.parent from path.directory_tmp]
    exact hreaches
  have hisDir : fs.IsDir path.tmp := ⟨hreaches', htmp⟩
  rw [replaceFile, call_bind, step_call]
  simp only [performFile, perform, dif_neg hfits, Fs.obstacle, if_pos hisDir]
  rfl

/-- A write takes at least one byte of a buffer that is not empty. -/
theorem step_writing (file start : Handle) {buf : List UInt8} (hbuf : buf ≠ []) (more : ℕ) :
    step performFile (.ok more) (writeAll file buf >>= fun _ => publishFile path start, fs) =
      (writeAll ⟨file.inode, file.pos + min (more + 1) buf.length⟩
        (buf.drop (min (more + 1) buf.length)) >>= fun _ => publishFile path start,
        fs.write file (buf.take (min (more + 1) buf.length))) := by
  have hpositive := List.length_pos_iff.mpr hbuf
  have hcount : min (more + 1) buf.length ≠ 0 := by omega
  rw [writeAll, dif_neg hbuf]
  show ((_, _) : FileProgram Unit × OffsetFs) = _
  simp only [performFile, perform, dif_neg hcount]
  rfl

theorem step_moving (hrename : fs.rename path.tmp path = some fs') (more : ℕ) :
    step performFile (.ok more)
      (.call (.rename path.tmp path) ofIo >>= fun _ => .call (.syncDir path.parent) ofIo, fs) =
        ((.call (.syncDir path.parent) ofIo : FileProgram Unit), fs') := by
  show ((_, _) : FileProgram Unit × OffsetFs) = _
  simp only [performFile, perform, hrename]
  rfl

/-- A file does not replace a directory. -/
theorem step_moving_directory {inode : ℕ} (hdir : fs.dir path.tmp = some inode)
    (hfolder : fs.folder path = true) (more : ℕ) :
    step performFile (.ok more)
      (.call (.rename path.tmp path) ofIo >>= fun _ => .call (.syncDir path.parent) ofIo, fs) =
        ((.ret (.error (.io isADirectory)) : FileProgram Unit), fs) := by
  have hrename : fs.rename path.tmp path = none := rename_eq_none_of_folder hfolder
  have hsome : ¬ fs.dir path.tmp = none := by simp [hdir]
  rw [call_bind, step_call]
  simp only [performFile, perform, hrename, if_neg hsome, Fs.obstacle,
    if_pos (isDir_of_folder hfolder)]
  rfl

theorem follows_lookup (key : Key) (next : I64) (more : ℕ) :
    Follows path
      (Local.call path ⟨.lookup key next, placeOf path fs, fs.contents path, written⟩ (.ok more))
      (step performFile (.ok more)
        (loadMap path >>= fun map => saveMap path (map.raise key next), fs)).1
      (step performFile (.ok more)
        (loadMap path >>= fun map => saveMap path (map.raise key next), fs)).2 written := by
  cases hfolder : fs.folder path with
  | true =>
    rw [step_lookup_found key next (Or.inl hfolder)]
    simp only [Local.call, placeOf, hfolder, Bool.true_or, if_true]
    exact ⟨At.reading key next (Or.inl hfolder), by rw [placeOf, hfolder], rfl, rfl⟩
  | false =>
    cases hread : fs.contents path with
    | some bytes =>
      have hfound : fs.contents path ≠ none := by simp [hread]
      rw [step_lookup_found key next (Or.inr hfound)]
      simp only [Local.call, placeOf, hfolder, Option.isSome_some, Bool.or_true, if_true]
      exact ⟨At.reading key next (Or.inr hfound), by rw [placeOf, hfolder], hread, rfl⟩
    | none =>
      rw [step_lookup_missing key next hfolder (contents_eq_none.mp hread)]
      simp only [Local.call, placeOf, hfolder, Option.isSome_none, Bool.or_false,
        Bool.false_eq_true, if_false]
      exact ⟨at_afterLoad key next (.ok ∅), by rw [placeOf, hfolder], hread, rfl⟩

theorem follows_making (body : List UInt8) (more : ℕ) :
    Follows path (Local.call path ⟨.making body, placeOf path fs, fs.contents path, written⟩
        (.ok more))
      (step performFile (.ok more)
        (.call (.createDirAll path.parent) ofIo >>= fun _ => replaceFile path body, fs)).1
      (step performFile (.ok more)
        (.call (.createDirAll path.parent) ofIo >>= fun _ => replaceFile path body, fs)).2
      written := by
  by_cases hd : fs.Passable path.parent
  · have hplace := (Effect.makeDirs hd).place
    rw [step_making body hd]
    simp only [placeOf, if_pos hd] at hplace
    simp only [Local.call, placeOf, if_pos hd]
    exact ⟨At.opening body (reaches_makeDirs hd), hplace, rfl, rfl⟩
  · rw [step_making_blocked body hd]
    simp only [Local.call, placeOf, if_neg hd]
    exact ⟨At.idle _, by simp only [placeOf, if_neg hd], rfl, rfl⟩

theorem follows_opening (hsep : path.tmp.isDotdot = false → fs.Separate path.tmp path)
    (body : List UInt8) (hreaches : fs.Reaches path.parent) (more : ℕ) :
    Follows path (Local.call path ⟨.opening body, placeOf path fs, fs.contents path, written⟩
        (.ok more))
      (step performFile (.ok more) (replaceFile path body, fs)).1
      (step performFile (.ok more) (replaceFile path body, fs)).2
      (record (.ok more) fs written (replaceFile path body)) := by
  by_cases hfits : layout.Fits fs.folder path.tmp
  · have hdir : (placeOf path fs).tmpIsDir = false :=
      Bool.or_eq_false_iff.mpr ⟨hfits.1, hfits.2.1⟩
    have hrecord : record (.ok more) fs written (replaceFile path body) = [] := by
      rw [replaceFile, call_bind, record]
      simp only [performFile, perform, dif_pos hfits]
    have hempty : (fs.openTruncate path.tmp hfits).2.data
        (fs.openTruncate path.tmp hfits).1.inode = [] := by
      rw [openTruncate_data, Function.update_self]
    have hplace := (Effect.openTruncate hfits).place
    rw [step_opening body hfits, hrecord]
    simp only [Local.call, hdir, Bool.false_eq_true, if_false]
    exact ⟨at_startWrite body (openTruncate_dir hfits) hempty (openTruncate_pos hfits) rfl, hplace,
      (untouched_openTruncate hfits (hsep hfits.1)).contents, rfl⟩
  · have htmp : path.tmp.isDotdot = true ∨ fs.folder path.tmp = true := by
      by_contra hnone
      obtain ⟨hdots, hfolder⟩ := not_or.mp hnone
      refine hfits ⟨Bool.eq_false_iff.mpr hdots, Bool.eq_false_iff.mpr hfolder, ?_⟩
      rw [show layout.dirOf path.tmp = path.parent from path.directory_tmp]
      exact hreaches
    have hdir : (placeOf path fs).tmpIsDir = true := (Bool.or_eq_true _ _).mpr htmp
    have hrecord : record (.ok more) fs written (replaceFile path body) = written := by
      rw [replaceFile, call_bind, record]
      simp only [performFile, perform, dif_neg hfits]
    rw [step_opening_directory body hreaches htmp, hrecord]
    simp only [Local.call, hdir, if_true]
    exact ⟨At.idle _, rfl, rfl, rfl⟩

theorem follows_writing (hsep : path.tmp.isDotdot = false → fs.Separate path.tmp path)
    (file start : Handle) {buf : List UInt8} (hbuf : buf ≠ [])
    (hdir : fs.dir path.tmp = some file.inode) (hdata : fs.data file.inode = written)
    (hpos : file.pos = written.length) (hstart : start.inode = file.inode) (more : ℕ) :
    Follows path (Local.call path ⟨.writing buf, placeOf path fs, fs.contents path, written⟩
        (.ok more))
      (step performFile (.ok more)
        (writeAll file buf >>= fun _ => publishFile path start, fs)).1
      (step performFile (.ok more)
        (writeAll file buf >>= fun _ => publishFile path start, fs)).2
      (record (.ok more) fs written (writeAll file buf >>= fun _ => publishFile path start)) := by
  have hrecord : record (.ok more) fs written (writeAll file buf >>= fun _ =>
      publishFile path start) = written ++ buf.take (min (more + 1) buf.length) := by
    rw [writeAll, dif_neg hbuf]
    rfl
  rw [step_writing file start hbuf, hrecord]
  refine ⟨?_, (Effect.write file _ hdir).place, ?_, rfl⟩
  · refine at_startWrite _ hdir ?_ ?_ hstart
    · exact (write_data_self fs file _ (by rw [hdata, hpos])).trans
        (congrArg (· ++ buf.take (min (more + 1) buf.length)) hdata)
    · show file.pos + _ = (written ++ _).length
      rw [List.length_append, List.length_take, hpos]
      omega
  · exact (untouched_write ((separate_of_dir hdir hsep).2 _ hdir)).contents

theorem follows_moving {inode : ℕ} (hdir : fs.dir path.tmp = some inode)
    (hdata : fs.data inode = written) (more : ℕ) :
    Follows path (Local.call path ⟨.moving, placeOf path fs, fs.contents path, written⟩ (.ok more))
      (step performFile (.ok more)
        (.call (.rename path.tmp path) ofIo >>= fun _ => .call (.syncDir path.parent) ofIo, fs)).1
      (step performFile (.ok more)
        (.call (.rename path.tmp path) ofIo >>= fun _ => .call (.syncDir path.parent) ofIo, fs)).2
      written := by
  cases hfolder : fs.folder path with
  | true =>
    have hpath : (placeOf path fs).pathIsDir = true := hfolder
    rw [step_moving_directory hdir hfolder]
    simp only [Local.call, hpath, if_true]
    exact ⟨At.idle _, rfl, rfl, rfl⟩
  | false =>
    have hpath : (placeOf path fs).pathIsDir = false := hfolder
    obtain ⟨fs', hrename⟩ := exists_rename hdir (fits_of_tmp hdir hfolder)
    have hcontents : fs'.contents path = some written := by
      rw [contents_rename hdir hrename, hdata]
    rw [step_moving hrename]
    simp only [Local.call, hpath, Bool.false_eq_true, if_false]
    exact ⟨At.flushingDir (reaches_of_contents hcontents),
      (Effect.rename fs' inode hdir hrename).place, hcontents, rfl⟩

/-- **A call of the store itself** moves the machine, the program and the file system alike. -/
theorem follows_ok (hsep : path.tmp.isDotdot = false → fs.Separate path.tmp path)
    (h : Follows path machine program fs written) (more : ℕ) :
    Follows path (machine.call path (.ok more)) (step performFile (.ok more) (program, fs)).1
      (step performFile (.ok more) (program, fs)).2 (record (.ok more) fs written program) := by
  obtain ⟨point, place, contents, written'⟩ := machine
  obtain ⟨hposition, rfl, rfl, rfl⟩ := h
  cases hposition with
  | idle result => exact ⟨At.idle result, rfl, rfl, rfl⟩
  | lookup key next => exact follows_lookup key next more
  | reading key next hfound =>
    cases hread : fs.contents path with
    | none =>
      have hfolder : fs.folder path = true := hfound.resolve_right fun hsome => hsome hread
      rw [step_reading_directory key next hfolder]
      exact ⟨At.idle _, rfl, hread, rfl⟩
    | some bytes =>
      rw [step_reading key next hread]
      exact ⟨at_afterLoad key next _, rfl, hread, rfl⟩
  | making body => exact follows_making body more
  | opening body hreaches => exact follows_opening hsep body hreaches more
  | writing file start buf hbuf hdir hdata hpos hstart =>
    exact follows_writing hsep file start hbuf hdir hdata hpos hstart more
  | flushing file hdir hdata =>
    exact ⟨At.moving file.inode hdir hdata, (Effect.sync file).place, rfl, rfl⟩
  | moving inode hdir hdata => exact follows_moving hdir hdata more
  | flushingDir hreaches =>
    rw [step_call]
    simp only [performFile, perform, if_pos hreaches]
    exact ⟨At.idle _, Effect.syncDir.place, rfl, rfl⟩

theorem follows_call (hsep : path.tmp.isDotdot = false → fs.Separate path.tmp path)
    (h : Follows path machine program fs written) (o : Outcome) :
    Follows path (machine.call path o) (step performFile o (program, fs)).1
      (step performFile o (program, fs)).2 (record o fs written program) := by
  cases o with
  | error e => exact follows_error h e
  | ok more => exact follows_ok hsep h more

/-- A program that has returned is idle. -/
theorem At.of_ret {point : Point} {result : KafkaResult Unit}
    (h : At path fs written point (.ret result)) : point = .idle result := by
  generalize hprogram : (.ret result : FileProgram Unit) = program at h
  cases h with
  | idle result' => rw [Program.ret.inj hprogram]
  | lookup key next => cases hprogram
  | reading key next => cases hprogram
  | making body => cases hprogram
  | opening body => cases hprogram
  | writing file start buf hbuf hdir hdata hpos hstart =>
    rw [writeAll, dif_neg hbuf] at hprogram
    cases hprogram
  | flushing file hdir hdata => cases hprogram
  | moving inode hdir hdata => cases hprogram
  | flushingDir => cases hprogram

/-- A program that waits for a call is not idle. -/
theorem At.of_call {point : Point} {c : FileCall Entry Directory UInt8}
    {k : c.Response → FileProgram Unit} (h : At path fs written point (.call c k))
    (result : KafkaResult Unit) : point ≠ .idle result := by
  intro hpoint
  rw [hpoint] at h
  generalize hprogram : (.call c k : FileProgram Unit) = program at h
  cases h with
  | idle => cases hprogram

/-- A new commit of the store. -/
theorem follows_begin {result : KafkaResult Unit} (store : FileOffsetStore)
    (h : Follows store.path machine (.ret result) fs written) (topic : String) (partition : I32)
    (offset : I64) :
    Follows store.path (machine.begin (topic, partition) offset)
      (store.commit topic partition offset) fs written := by
  obtain ⟨point, place, contents, written'⟩ := machine
  obtain ⟨hposition, hplace, hcontents, rfl⟩ := h
  have hpoint : point = .idle result := hposition.of_ret
  rw [hpoint, FileOffsetStore.commit, Local.begin]
  cases nextOffsetOf offset with
  | error e => exact ⟨At.idle _, hplace, hcontents, rfl⟩
  | ok next => exact ⟨At.lookup _ next, hplace, hcontents, rfl⟩

/-! ### What the store sees -/

theorem At.activity {point : Point} (h : At path fs written point program) :
    activityOf program = point.activity path := by
  cases h with
  | writing file start buf hbuf hdir hdata hpos hstart =>
    rw [writeAll, dif_neg hbuf]
    rfl
  | _ => rfl

/-- A program that waits for the rename is at the point of the rename. -/
theorem At.of_rename {point : Point} {src dst : Entry}
    {k : Except IoError Unit → FileProgram Unit}
    (h : At path fs written point (.call (.rename src dst) k)) : point = .moving := by
  generalize hprogram : (.call (.rename src dst) k : FileProgram Unit) = program at h
  cases h with
  | moving inode hdir hdata => rfl
  | idle result => cases hprogram
  | lookup key next => cases hprogram
  | reading key next => cases hprogram
  | making body => cases hprogram
  | opening body => cases hprogram
  | writing file start buf hbuf hdir hdata hpos hstart =>
    rw [writeAll, dif_neg hbuf] at hprogram
    cases hprogram
  | flushing file hdir hdata => cases hprogram
  | flushingDir => cases hprogram

/-- The machine changes the content of the file only by the rename. -/
theorem contents_call (path : FilePath) (machine : Local) (o : Outcome) :
    (machine.call path o).contents = machine.contents ∨
      ∃ more, o = .ok more ∧ machine.point = .moving := by
  obtain ⟨point, place, contents, written⟩ := machine
  cases o with
  | error e => cases point <;> exact Or.inl rfl
  | ok more =>
    cases point with
    | moving => exact Or.inr ⟨more, rfl, rfl⟩
    | lookup key next =>
      simp only [Local.call]
      split <;> exact Or.inl rfl
    | reading key next => cases contents <;> exact Or.inl rfl
    | making body =>
      simp only [Local.call]
      split <;> exact Or.inl rfl
    | opening body =>
      simp only [Local.call]
      split <;> exact Or.inl rfl
    | _ => exact Or.inl rfl

/-- A call of the store that changes the content of its file is its rename. -/
theorem Follows.rename_of_changed (hsep : path.tmp.isDotdot = false → fs.Separate path.tmp path)
    (h : Follows path machine program fs written) {o : Outcome}
    (hchanged : (step performFile o (program, fs)).2.contents path ≠ fs.contents path) :
    ∃ more k, o = .ok more ∧ program = .call (.rename path.tmp path) k := by
  rw [(follows_call hsep h o).contents, h.contents] at hchanged
  rcases contents_call path machine o with hsame | ⟨more, ho, hpoint⟩
  · exact absurd hsame hchanged
  · have hposition := h.position
    rw [hpoint] at hposition
    cases hposition with
    | moving inode hdir hdata => exact ⟨more, _, ho, rfl⟩

/-- The rename of the store puts in place what the store has written; only a directory is in its
way. -/
theorem Follows.contents_of_rename (hsep : path.tmp.isDotdot = false → fs.Separate path.tmp path)
    {more : ℕ} {k : Except IoError Unit → FileProgram Unit}
    (h : Follows path machine (.call (.rename path.tmp path) k) fs written)
    (hfolder : fs.folder path = false) :
    (step performFile (.ok more)
      ((.call (.rename path.tmp path) k : FileProgram Unit), fs)).2.contents path =
        some written := by
  have hplace : machine.place.pathIsDir = false := by
    rw [← h.place]
    exact hfolder
  have hpoint : machine.point = .moving := h.position.of_rename
  rw [(follows_call hsep h (.ok more)).contents, Local.call, hpoint]
  simp only [hplace, Bool.false_eq_true, if_false, h.written_eq]

end Kafkax
