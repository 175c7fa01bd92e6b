import Kafkax.Library.AtomicReplace
import Kafkax.Library.Program
import Kafkax.OffsetFormat

/-!
# The file-backed offset store

`load_map` and `save_map` as programs of file-system calls, and the two operations of
`FileOffsetStore` built from them.  The file holds the UTF-8 text of `renderMap`; a missing file
is an empty table.  Saving goes through a temporary file in the same directory, whose name is the
store's with the extension replaced by `tmp`.

The asynchronous lock around the two operations is not part of this module: what is modelled here
is the body of the blocking closure.

* `run_loadMap` gives the result of a load for each way its calls can end;
* `saveMap_always` is the specification of a save, for any outcomes and any `SaveInvariant`.  The
  invariants used later are `saveInvariant_clear` (nothing stands in the way), `saveInvariant_intact`
  (what a reader finds under the path) and `saveInvariant_crashSafe` (what a crash leaves there);
* `run_saveMap_of_not_clear`: where something stands in the way, every save fails and leaves the
  file as it is.
-/

namespace Kafkax

open FileSystem LineText Programs Program

/-! ### Paths -/

/-- A file name: not empty, no separator, neither `.` nor `..`. -/
structure FileName where
  text : Text
  ne_nil : text ≠ []
  no_slash : '/' ∉ text
  ne_dot : text ≠ ['.']
  ne_dotdot : text ≠ ['.', '.']
deriving DecidableEq

/-- What stands before the last dot; a name without a dot, or with its only dot in front, is its
own stem. -/
def FileName.fileStem (name : FileName) : Text :=
  match name.text.reverse.dropWhile (· != '.') with
  | [] => name.text
  | _ :: before => if before.isEmpty then name.text else before.reverse

theorem FileName.fileStem_ne_nil (name : FileName) : name.fileStem ≠ [] := by
  rw [FileName.fileStem]
  split
  · exact name.ne_nil
  · rename_i dot before hdrop
    by_cases hbefore : before.isEmpty
    · rw [if_pos hbefore]
      exact name.ne_nil
    · rw [if_neg hbefore]
      intro hnil
      exact hbefore (List.isEmpty_iff.mpr (List.reverse_eq_nil_iff.mp hnil))

theorem FileName.mem_of_mem_fileStem {name : FileName} {c : Char} (h : c ∈ name.fileStem) :
    c ∈ name.text := by
  rw [FileName.fileStem] at h
  split at h
  · exact h
  · rename_i dot before hdrop
    by_cases hbefore : before.isEmpty
    · rw [if_pos hbefore] at h
      exact h
    · rw [if_neg hbefore, List.mem_reverse] at h
      have hmem : c ∈ name.text.reverse.dropWhile (· != '.') := by
        rw [hdrop]
        exact List.mem_cons_of_mem _ h
      exact List.mem_reverse.mp ((List.dropWhile_suffix _).subset hmem)

/-- The stem with an extension. -/
def FileName.withExtension (name extension : FileName) : FileName where
  text := name.fileStem ++ '.' :: extension.text
  ne_nil := List.append_ne_nil_of_left_ne_nil name.fileStem_ne_nil _
  no_slash := by
    intro hmem
    rcases List.mem_append.mp hmem with hmem | hmem
    · exact name.no_slash (name.mem_of_mem_fileStem hmem)
    · rcases List.mem_cons.mp hmem with hmem | hmem
      · exact absurd hmem (by decide)
      · exact extension.no_slash hmem
  ne_dot := by
    intro heq
    have hlen := congrArg List.length heq
    have hstem := List.length_pos_iff.mpr name.fileStem_ne_nil
    rw [List.length_append, List.length_cons, List.length_singleton] at hlen
    omega
  ne_dotdot := by
    intro heq
    have hlen := congrArg List.length heq
    have hstem := List.length_pos_iff.mpr name.fileStem_ne_nil
    have hext := List.length_pos_iff.mpr extension.ne_nil
    rw [List.length_append, List.length_cons, List.length_cons, List.length_singleton] at hlen
    omega

/-- A directory: the working directory, the root, or a name in another directory. -/
inductive Directory where
  | working
  | root
  | sub (outer : Directory) (name : FileName)
deriving DecidableEq

/-- A path to a file: the directory it stands in and its name.  Paths are taken as resolved, so
different paths are different directory entries. -/
structure FilePath where
  parent : Directory
  fileName : FileName
deriving DecidableEq

/-- An entry of a directory: a name in it, or `..`. -/
inductive Entry where
  | file (path : FilePath)
  | dotdot (parent : Directory)
deriving DecidableEq

instance : Coe FilePath Entry := ⟨.file⟩

/-- The text of the directory is empty: it is the parent of a bare file name. -/
def Directory.isEmpty : Directory → Bool
  | .working => true
  | _ => false

/-- The directory and those it stands in, as entries. -/
def Directory.way : Directory → List Entry
  | .working => []
  | .root => []
  | .sub outer name => FilePath.mk outer name :: outer.way

/-- The number of directories on the way. -/
def Directory.depth : Directory → ℕ
  | .working => 0
  | .root => 0
  | .sub outer _ => outer.depth + 1

/-- The directory of an entry. -/
def Entry.directory : Entry → Directory
  | .file path => path.parent
  | .dotdot parent => parent

/-- `..` is a directory wherever it stands. -/
def Entry.isDotdot : Entry → Bool
  | .file _ => false
  | .dotdot _ => true

theorem way_directory (d : Directory) :
    ∀ p ∈ d.way, ∀ q ∈ p.directory.way, q ∈ d.way := by
  induction d with
  | working => exact fun p hp => absurd hp List.not_mem_nil
  | root => exact fun p hp => absurd hp List.not_mem_nil
  | sub outer name ih =>
    intro p hp q hq
    rcases List.mem_cons.mp hp with rfl | hp
    · exact List.mem_cons_of_mem _ hq
    · exact List.mem_cons_of_mem _ (ih p hp q hq)

/-- The directories on the way lie further out. -/
theorem depth_lt_of_mem_way {d : Directory} {p : Entry} (hp : p ∈ d.way) :
    p.directory.depth < d.depth := by
  induction d with
  | working => exact absurd hp List.not_mem_nil
  | root => exact absurd hp List.not_mem_nil
  | sub outer name ih =>
    rcases List.mem_cons.mp hp with rfl | hp
    · exact Nat.lt_succ_self _
    · exact Nat.lt_succ_of_lt (ih hp)

/-- The directories on the way have names. -/
theorem isDotdot_of_mem_way {d : Directory} {p : Entry} (hp : p ∈ d.way) : p.isDotdot = false := by
  induction d with
  | working => exact absurd hp List.not_mem_nil
  | root => exact absurd hp List.not_mem_nil
  | sub outer name ih =>
    rcases List.mem_cons.mp hp with rfl | hp
    · rfl
    · exact ih hp

theorem notMem_way_directory (p : Entry) : p ∉ p.directory.way :=
  fun hp => Nat.lt_irrefl _ (depth_lt_of_mem_way hp)

/-- Entries and directories. -/
def layout : Layout Entry Directory where
  dirOf := Entry.directory
  way := Directory.way
  isDots := Entry.isDotdot
  way_dirOf := way_directory
  notMem_way := notMem_way_directory

/-- A literal file name. -/
abbrev FileName.of (name : String)
    (h : name.toList ≠ [] ∧ '/' ∉ name.toList ∧ name.toList ≠ ['.'] ∧ name.toList ≠ ['.', '.'] := by
      decide) : FileName :=
  ⟨name.toList, h.1, h.2.1, h.2.2.1, h.2.2.2⟩

/-- `Path::with_extension`.  The old extension is cut off behind its dot; if that leaves `..`, the
path has no file name any more and gets no extension. -/
def FilePath.withExtension (path : FilePath) (extension : FileName) : Entry :=
  if path.fileName.fileStem = ['.'] then .dotdot path.parent
  else FilePath.mk path.parent (path.fileName.withExtension extension)

/-- The extension of the temporary file. -/
def tmpExtension : FileName := .of "tmp"

/-- `path.with_extension("tmp")` -/
def FilePath.tmp (path : FilePath) : Entry := path.withExtension tmpExtension

/-- The temporary file is made in the directory of the file. -/
theorem FilePath.directory_tmp (path : FilePath) : path.tmp.directory = path.parent := by
  rw [FilePath.tmp, FilePath.withExtension]
  split <;> rfl

theorem FilePath.tmp_notMem_way (path : FilePath) : path.tmp ∉ path.parent.way :=
  path.directory_tmp ▸ notMem_way_directory path.tmp

theorem FilePath.notMem_way (path : FilePath) : .file path ∉ path.parent.way :=
  notMem_way_directory path

/-- `offsets.tsv` in the working directory. -/
def offsetsTsv : FilePath := ⟨.working, .of "offsets.tsv"⟩

example : offsetsTsv.tmp = FilePath.mk .working (.of "offsets.tmp") := by decide

example : (FilePath.mk .working (.of "..tsv")).tmp = .dotdot .working := by decide

/-! ### Calls -/

/-- The file system, with the content of files in bytes. -/
abbrev OffsetFs := Fs layout UInt8

/-- A program of file-system calls that fails with a `KafkaError`. -/
abbrev FileProgram (α : Type) :=
  Program (FileCall Entry Directory UInt8) FileCall.Response KafkaError α

/-- The response to a call of a `FileProgram`. -/
abbrev performFile : Outcome → (c : FileCall Entry Directory UInt8) → OffsetFs →
    c.Response × OffsetFs :=
  perform

/-- `map_err(KafkaError::Io)` -/
def ofIo {α : Type} : Except IoError α → FileProgram α
  | .ok a => .ret (.ok a)
  | .error e => .ret (.error (.io e))

/-- `Path::exists`: false whenever the metadata cannot be read. -/
def pathExists (path : FilePath) : FileProgram Bool :=
  .call (.metadata path) fun response => .ret (.ok response.isOk)

/-- The error of a file that is not UTF-8. -/
def invalidUtf8 : IoError := ⟨.invalidData, "stream did not contain valid UTF-8"⟩

/-- The bytes of a file as a text. -/
def textOf (bytes : List UInt8) : FileProgram Text :=
  match decodeUtf8 bytes with
  | some text => .ret (.ok text)
  | none => ofIo (.error invalidUtf8)

/-- `std::fs::read_to_string` -/
def readToString (path : FilePath) : FileProgram Text :=
  .call (.read path) fun response => do
    let bytes ← ofIo response
    textOf bytes

/-- The error of a write that moves nothing. -/
def writeAllEof : IoError := ⟨.writeZero, "failed to write whole buffer"⟩

/-- `Write::write_all`: writes until the buffer is used up.  A `write` is one attempt that was not
interrupted; interrupted ones change nothing and are repeated. -/
def writeAll (file : Handle) (buf : List UInt8) : FileProgram Unit :=
  if _hbuf : buf = [] then .ret (.ok ())
  else
    .call (.write file buf) fun response =>
      match response with
      | .error e => .ret (.error (.io e))
      | .ok count =>
        if _hcount : count = 0 then .ret (.error (.io writeAllEof))
        else writeAll ⟨file.inode, file.pos + count⟩ (buf.drop count)
termination_by buf.length
decreasing_by
  have hlen := List.length_pos_iff.mpr _hbuf
  rw [List.length_drop]
  omega

/-! ### The store -/

/-- `load_map`: all positions; a missing file is an empty table. -/
def loadMap (path : FilePath) : FileProgram OffsetMap := do
  if !(← pathExists path) then
    return ∅
  else
    let text ← readToString path
    .ret (parseMap text)

/-- The first step of `save_map`: the parent directory, unless the path is a bare file name. -/
def createParent (path : FilePath) : FileProgram Unit :=
  if path.parent.isEmpty then .ret (.ok ()) else .call (.createDirAll path.parent) ofIo

/-- The last steps of `save_map`: the temporary file is flushed and renamed over the path, and the
directory is flushed. -/
def publishFile (path : FilePath) (file : Handle) : FileProgram Unit := do
  .call (.syncAll file) ofIo
  .call (.rename path.tmp path) ofIo
  .call (.syncDir path.parent) ofIo

/-- The steps of `save_map` from the temporary file on. -/
def replaceFile (path : FilePath) (body : List UInt8) : FileProgram Unit := do
  let file ← .call (.openTruncate path.tmp) ofIo
  writeAll file body
  publishFile path file

/-- `save_map`: replaces the file by the rendering of the table. -/
def saveMap (path : FilePath) (map : OffsetMap) : FileProgram Unit := do
  createParent path
  let body := renderMap map
  replaceFile path (encodeUtf8 body)

/-- `FileOffsetStore`, without its lock. -/
structure FileOffsetStore where
  path : FilePath

namespace FileOffsetStore

/-- `FileOffsetStore::committed` -/
def committed (self : FileOffsetStore) (topic : String) (partition : I32) :
    FileProgram (Option I64) := do
  let map ← loadMap self.path
  return map.lookup (topic, partition)

/-- `FileOffsetStore::commit` -/
def commit (self : FileOffsetStore) (topic : String) (partition : I32) (offset : I64) :
    FileProgram Unit := do
  let next ← .ret (nextOffsetOf offset)
  let map ← loadMap self.path
  saveMap self.path (map.raise (topic, partition) next)

/-- A call on the store. -/
def answer (self : FileOffsetStore) : StoreCall → FileProgram StoreValue
  | .commit topic partition offset => do
    self.commit topic partition offset
    return .done
  | .committed topic partition => do
    let next ← self.committed topic partition
    return .position next

end FileOffsetStore

/-! ### One file -/

/-- A file system with one file. -/
def oneFile (path : FilePath) (bytes : List UInt8) : OffsetFs := Fs.single path bytes rfl

/-- A file system with one offset file, which holds a table. -/
def oneTable (path : FilePath) (map : OffsetMap) : OffsetFs :=
  oneFile path (encodeUtf8 (renderMap map))

section

variable {path : FilePath} (bytes : List UInt8)

theorem contents_oneFile : (oneFile path bytes).contents path = some bytes := contents_single _ _

theorem folder_oneFile_of_notMem {q : Entry} (h : q ∉ path.parent.way) :
    (oneFile path bytes).folder q = false := folder_single _ _ h

theorem dir_oneFile_of_ne {q : Entry} (h : q ≠ path) : (oneFile path bytes).dir q = none :=
  dir_single_of_ne _ _ h

theorem separate_oneFile (h : path.tmp ≠ path) : (oneFile path bytes).Separate path.tmp path :=
  separate_single _ _ h

theorem clear_oneFile (h : path.tmp.isDotdot = false) :
    (oneFile path bytes).Clear path.tmp path := clear_single _ h rfl path.directory_tmp

end

/-! ### Loading -/

/-- The table a file denotes. -/
def decodeFile : Option (List UInt8) → KafkaResult OffsetMap
  | none => .ok ∅
  | some bytes =>
    match decodeUtf8 bytes with
    | none => .error (.io invalidUtf8)
    | some text => parseMap text

theorem decodeFile_render (map : OffsetMap) :
    decodeFile (some (encodeUtf8 (renderMap map))) = parseMap (renderMap map) := by
  rw [decodeFile, decodeUtf8_encodeUtf8]

/-- Decoding and parsing the bytes of a file is what the file denotes. -/
theorem textOf_bind_parseMap (bytes : List UInt8) :
    (textOf bytes >>= fun text => .ret (parseMap text)) = .ret (decodeFile (some bytes)) := by
  rw [textOf, decodeFile]
  cases decodeUtf8 bytes with
  | none => rfl
  | some text => rfl

/-- A saved table of faithful topics is the table that is loaded. -/
theorem decodeFile_render_of_faithful {map : OffsetMap} (h : FaithfulMap map) :
    decodeFile (some (encodeUtf8 (renderMap map))) = .ok map := by
  rw [decodeFile_render, parseMap_renderMap h]

/-- A table with an entry has a rendering that is not empty. -/
theorem encode_render_ne_nil {map : OffsetMap} (h : FaithfulMap map) (hne : map ≠ ∅) :
    encodeUtf8 (renderMap map) ≠ [] := by
  intro hnil
  have hempty : decodeFile (some (encodeUtf8 [])) = .ok ∅ := by
    rw [decodeFile, decodeUtf8_encodeUtf8]
    rfl
  have hmap := decodeFile_render_of_faithful h
  rw [hnil] at hmap
  exact hne (Except.ok.inj (hmap.symm.trans hempty))

theorem decodeFile_oneTable {path : FilePath} {map : OffsetMap} (h : FaithfulMap map) :
    decodeFile ((oneTable path map).contents path) = .ok map := by
  rw [oneTable, contents_oneFile, decodeFile_render_of_faithful h]

/-- Whatever is in the file, the topics of the table loaded from it are faithful. -/
theorem faithful_of_decodeFile {contents : Option (List UInt8)} {map : OffsetMap}
    (h : decodeFile contents = .ok map) : FaithfulMap map := by
  cases contents with
  | none =>
    rw [← Except.ok.inj h]
    exact faithful_empty
  | some bytes =>
    rw [decodeFile] at h
    cases hdecode : decodeUtf8 bytes with
    | none =>
      rw [hdecode] at h
      exact absurd h (by simp)
    | some text =>
      rw [hdecode] at h
      exact faithful_of_parseMap h

/-- What a load answers: `isDir` says that the path is a directory, `metadata` and `read` are the
outcomes of its two calls. -/
def loadResult (isDir : Bool) (contents : Option (List UInt8)) (metadata read : Outcome) :
    KafkaResult OffsetMap :=
  match isDir, contents, metadata, read with
  | true, _, .ok _, .ok _ => .error (.io isADirectory)
  | true, _, .ok _, .error e => .error (.io e)
  | true, _, .error _, _ => .ok ∅
  | false, some bytes, .ok _, .ok _ => decodeFile (some bytes)
  | false, some _, .ok _, .error e => .error (.io e)
  | false, some _, .error _, _ => .ok ∅
  | false, none, _, _ => .ok ∅

/-- The two calls of a load on a path that is a directory. -/
theorem perform_of_folder {path : FilePath} {fs : OffsetFs} (h : fs.folder path = true)
    (more : ℕ) : performFile (.ok more) (.metadata path) fs = (.ok (), fs) ∧
      performFile (.ok more) (.read path) fs = (.error isADirectory, fs) := by
  have hisDir := isDir_of_folder h
  simp only [performFile, perform, dir_of_folder h, contents_of_folder h, if_pos hisDir, Fs.obstacle,
    and_self]

/-- Looking up a path that is neither a file nor a directory. -/
theorem perform_of_missing {path : FilePath} {fs : OffsetFs} (h : fs.folder path = false)
    (hdir : fs.dir path = none) (more : ℕ) :
    performFile (.ok more) (.metadata path) fs = (.error (fs.missing path.parent), fs) := by
  have hisDir : ¬ fs.IsDir path := by
    intro hisDir
    rcases hisDir.2 with hdots | hfolder
    · exact absurd hdots (by simp [layout, Entry.isDotdot])
    · rw [h] at hfolder
      exact absurd hfolder (by simp)
  simp only [performFile, perform, hdir, if_neg hisDir]
  rfl

/-- **A load** changes nothing and answers by the content of the file and its two outcomes. -/
theorem run_loadMap (path : FilePath) (env : ℕ → Outcome) (n : ℕ) (fs : OffsetFs) :
    ∃ n', n < n' ∧ run performFile env (loadMap path) n fs =
      (loadResult (fs.folder path) (fs.contents path) (env n) (env (n + 1)), n', fs) := by
  rw [loadMap, pathExists, call_bind, run_call]
  cases hmetadata : env n with
  | error e =>
    refine ⟨n + 1, Nat.lt_succ_self n, ?_⟩
    cases fs.folder path with
    | true => rfl
    | false =>
      cases fs.contents path with
      | none => rfl
      | some bytes => rfl
  | ok more =>
    cases hfolder : fs.folder path with
    | true =>
      refine ⟨n + 2, by omega, ?_⟩
      rw [(perform_of_folder hfolder more).1]
      show run performFile env (readToString path >>= fun text => .ret (parseMap text)) (n + 1)
        fs = _
      rw [readToString, call_bind, run_call]
      cases env (n + 1) with
      | error e => rfl
      | ok more' =>
        rw [(perform_of_folder hfolder more').2]
        rfl
    | false =>
      cases hdir : fs.dir path with
      | none =>
        refine ⟨n + 1, Nat.lt_succ_self n, ?_⟩
        rw [contents_eq_none.mpr hdir, perform_of_missing hfolder hdir]
        rfl
      | some i =>
        have hcontents := contents_of_dir hdir
        refine ⟨n + 2, by omega, ?_⟩
        rw [hcontents]
        simp only [performFile, perform, hdir]
        show run performFile env (readToString path >>= fun text => .ret (parseMap text)) (n + 1)
          fs = _
        rw [readToString, call_bind, run_call]
        cases env (n + 1) with
        | error e => rfl
        | ok more' =>
          simp only [performFile, perform, hcontents]
          show run performFile env (textOf (fs.data i) >>= fun text => .ret (parseMap text))
            (n + 2) fs = _
          rw [textOf_bind_parseMap]
          rfl

/-- A load whose calls succeed answers what the file denotes. -/
theorem loadResult_of_ok {contents : Option (List UInt8)} {metadata read : Outcome}
    (hmetadata : metadata.IsOk) (hread : read.IsOk) :
    loadResult false contents metadata read = decodeFile contents := by
  cases metadata with
  | error e => exact absurd hmetadata id
  | ok _ =>
    cases read with
    | error e => exact absurd hread id
    | ok _ => cases contents <;> rfl

/-- Unless the metadata lookup fails, a loaded table is the one the file denotes. -/
theorem decodeFile_of_loadResult {isDir : Bool} {contents : Option (List UInt8)}
    {metadata read : Outcome} {map : OffsetMap} (hmetadata : metadata.IsOk)
    (h : loadResult isDir contents metadata read = .ok map) : decodeFile contents = .ok map := by
  cases metadata with
  | error e => exact absurd hmetadata id
  | ok _ =>
    cases isDir with
    | true => cases read <;> exact absurd h (by simp [loadResult])
    | false =>
      cases contents with
      | none => exact h
      | some bytes =>
        cases read with
        | error e => exact absurd h (by simp [loadResult])
        | ok _ => exact h

/-! ### Saving -/

section

variable {strict : Prop} {path : FilePath} {body : List UInt8} {Inv : OffsetFs → Prop}

/-- An invariant of the states a save of `body` goes through: every call of the save keeps it, in
the situation in which the save makes the call. -/
structure SaveInvariant (path : FilePath) (body : List UInt8) (Inv : OffsetFs → Prop) : Prop where
  makeDirs : ∀ (fs : OffsetFs) hd, Inv fs → Inv (fs.makeDirs path.parent hd)
  openTruncate : ∀ (fs : OffsetFs) hfits, Inv fs → Inv (fs.openTruncate path.tmp hfits).2
  write : ∀ fs file bytes, Inv fs → fs.dir path.tmp = some file.inode → Inv (fs.write file bytes)
  sync : ∀ fs file, Inv fs → fs.dir path.tmp = some file.inode → Inv (fs.sync file)
  rename : ∀ fs fs' inode, Inv fs → fs.dir path.tmp = some inode → fs.synced inode = true →
    fs.data inode = body → fs.rename path.tmp path = some fs' → Inv fs'
  syncDir : ∀ fs, Inv fs → fs.contents path = some body →
    Inv (fs.syncDir path.parent)

/-- Outcomes: all of them, or only the successful ones. -/
abbrev Permitted (strict : Prop) (o : Outcome) : Prop := strict → o.IsOk

/-- The temporary file is open, has the inode `inode` and holds `written`. -/
structure Writing (path : FilePath) (Inv : OffsetFs → Prop) (inode : ℕ) (written : List UInt8)
    (fs : OffsetFs) : Prop where
  inv : Inv fs
  dir : fs.dir path.tmp = some inode
  data : fs.data inode = written

/-- The save is over: the directory was flushed when the file had the new content. -/
def Saved (path : FilePath) (body : List UInt8) (Inv : OffsetFs → Prop) (fs : OffsetFs) : Prop :=
  ∃ old : OffsetFs, Inv old ∧ old.contents path = some body ∧
    fs = old.syncDir path.parent

theorem Saved.contents {fs : OffsetFs} (h : Saved path body Inv fs) :
    fs.contents path = some body := by
  obtain ⟨old, -, hcontents, rfl⟩ := h
  exact hcontents

/-- A file may take the place of the store's when the temporary one is there. -/
theorem fits_of_tmp {fs : OffsetFs} {inode : ℕ} (hdir : fs.dir path.tmp = some inode)
    (hfolder : fs.folder path = false) : layout.Fits fs.folder path :=
  fits_of_dirOf hdir path.directory_tmp rfl hfolder

/-- The directory of a file is there. -/
theorem reaches_of_contents {fs : OffsetFs} {bytes : List UInt8}
    (h : fs.contents path = some bytes) : fs.Reaches path.parent := by
  obtain ⟨i, hi, -⟩ := Option.map_eq_some_iff.mp h
  exact (fs.placed _ (dir_mem_views fs) _ i hi).2.2

/-- The working directory is there. -/
theorem reaches_of_isEmpty {d : Directory} (h : d.isEmpty = true) (fs : OffsetFs) :
    fs.Reaches d := by
  cases d with
  | working => exact fun q hq => absurd hq List.not_mem_nil
  | root => exact absurd h (by decide)
  | sub outer name => exact absurd h (by simp [Directory.isEmpty])

/-- A call whose error is passed on: an error ends the program, and cannot happen if only
successful outcomes are permitted. -/
theorem always_io {α : Type} {c : FileCall Entry Directory UInt8} {k : c.Response → FileProgram α}
    {Q : α → OffsetFs → Prop} {fs : OffsetFs} (h : Inv fs)
    (herror : ∀ e, ∃ e', k (performFile (.error e) c fs).1 = .ret (.error e'))
    (hok : ∀ more, Always performFile (Permitted strict) Inv (Returns strict Q)
      (k (performFile (.ok more) c fs).1) (performFile (.ok more) c fs).2) :
    Always performFile (Permitted strict) Inv (Returns strict Q) (.call c k) fs := by
  rw [always_call]
  refine ⟨h, fun o ho => ?_⟩
  cases o with
  | error e =>
    obtain ⟨e', he⟩ := herror e
    rw [he, always_ret, perform_error_state]
    exact ⟨h, fun hstrict => ho hstrict⟩
  | ok more => exact hok more

/-- Reading and parsing the file, with the outcome of the read still open. -/
theorem readTable_always {fs : OffsetFs} {bytes : List UInt8} {map : OffsetMap} (h : Inv fs)
    (hcontents : fs.contents path = some bytes) (hmap : decodeFile (some bytes) = .ok map) :
    Always performFile (Permitted strict) Inv (Returns strict fun loaded fs' =>
      loaded = map ∧ fs' = fs) (readToString path >>= fun text => .ret (parseMap text)) fs := by
  refine always_io h (fun e => ⟨_, rfl⟩) fun more => ?_
  simp only [performFile, perform, hcontents]
  show Always _ _ _ _ (textOf bytes >>= fun text => .ret (parseMap text)) fs
  rw [textOf_bind_parseMap, hmap]
  exact ⟨h, rfl, rfl⟩

/-- **A load whose calls succeed** answers the table of the file and changes nothing. -/
theorem loadMap_always {fs : OffsetFs} {map : OffsetMap} (h : Inv fs)
    (hfolder : fs.folder path = false) (hmap : decodeFile (fs.contents path) = .ok map) :
    Always performFile (Permitted True) Inv (Returns True fun loaded fs' =>
      loaded = map ∧ fs' = fs) (loadMap path) fs := by
  rw [loadMap, pathExists, call_bind, always_call]
  refine ⟨h, fun o ho => ?_⟩
  cases o with
  | error e => exact absurd (ho trivial) id
  | ok more =>
    cases hdir : fs.dir path with
    | none =>
      rw [contents_eq_none.mpr hdir] at hmap
      rw [perform_of_missing hfolder hdir]
      exact ⟨h, Except.ok.inj hmap, rfl⟩
    | some i =>
      have hcontents := contents_of_dir hdir
      rw [hcontents] at hmap
      simp only [performFile, perform, hdir]
      show Always _ _ _ _ (readToString path >>= fun text => .ret (parseMap text)) fs
      exact readTable_always h hcontents hmap

/-- **`write_all`** appends the whole buffer, in however many parts, or fails half way. -/
theorem writeAll_always (hinv : SaveInvariant path body Inv) {file : Handle}
    {written buf : List UInt8} {fs : OffsetFs} (h : Writing path Inv file.inode written fs)
    (hpos : file.pos = written.length) :
    Always performFile (Permitted strict) Inv
      (Returns strict fun _ => Writing path Inv file.inode (written ++ buf))
      (writeAll file buf) fs := by
  induction hlen : buf.length using Nat.strong_induction_on generalizing file written buf fs with
  | _ len ih =>
    rw [writeAll]
    by_cases hbuf : buf = []
    · rw [dif_pos hbuf, always_ret, hbuf, List.append_nil]
      exact ⟨h.inv, h⟩
    · rw [dif_neg hbuf, always_call]
      refine ⟨h.inv, fun o ho => ?_⟩
      cases o with
      | error e => exact ⟨h.inv, fun hstrict => ho hstrict⟩
      | ok more =>
        have hpositive := List.length_pos_iff.mpr hbuf
        have hcount : min (more + 1) buf.length ≠ 0 := by omega
        have htake : (buf.take (min (more + 1) buf.length)).length = min (more + 1) buf.length := by
          rw [List.length_take]
          omega
        have hnext : Writing path Inv file.inode
            (written ++ buf.take (min (more + 1) buf.length))
            (fs.write file (buf.take (min (more + 1) buf.length))) := by
          refine ⟨hinv.write fs file _ h.inv h.dir, h.dir, ?_⟩
          rw [write_data_self fs file _ (by rw [h.data, hpos]), h.data]
        have hrest := @ih (buf.drop (min (more + 1) buf.length)).length
          (by rw [List.length_drop]; omega) ⟨file.inode, file.pos + min (more + 1) buf.length⟩
          _ _ _ hnext (by rw [List.length_append, htake, ← hpos]) rfl
        rw [List.append_assoc, List.take_append_drop] at hrest
        simp only [performFile, perform, dif_neg hcount]
        exact hrest

/-- Once the body is written the rename puts it in place, and the directory is flushed. -/
theorem publishFile_always (hinv : SaveInvariant path body Inv)
    (hclear : strict → ∀ fs, Inv fs → fs.Clear path.tmp path) {file : Handle} {fs : OffsetFs}
    (h : Writing path Inv file.inode body fs) :
    Always performFile (Permitted strict) Inv (Returns strict fun _ => Saved path body Inv)
      (publishFile path file) fs := by
  refine always_io h.inv (fun e => ⟨_, rfl⟩) fun more => ?_
  show Always performFile _ _ _ ((.call (.rename path.tmp path) ofIo : FileProgram Unit) >>=
    fun _ => .call (.syncDir path.parent) ofIo) (fs.sync file)
  have hsync : Inv (fs.sync file) := hinv.sync fs file h.inv h.dir
  refine always_io hsync (fun e => ⟨_, rfl⟩) fun more => ?_
  have hdir : (fs.sync file).dir path.tmp = some file.inode := h.dir
  have hdata : (fs.sync file).data file.inode = body := h.data
  cases hrename : (fs.sync file).rename path.tmp path with
  | none =>
    simp only [performFile, perform, hrename]
    refine ⟨hsync, fun hstrict => ?_⟩
    obtain ⟨fs', hsome⟩ := exists_rename hdir (fits_of_tmp hdir (hclear hstrict _ hsync).path_folder)
    rw [hrename] at hsome
    exact absurd hsome (by simp)
  | some fs' =>
    have hrenamed : Inv fs' :=
      hinv.rename _ fs' file.inode hsync hdir (Function.update_self ..) hdata hrename
    have hcontents : fs'.contents path = some body := by
      rw [contents_rename hdir hrename, hdata]
    simp only [performFile, perform, hrename]
    show Always performFile _ _ _ (.call (.syncDir path.parent) ofIo : FileProgram Unit) fs'
    refine always_io hrenamed (fun e => ⟨_, rfl⟩) fun more => ?_
    simp only [performFile, perform, if_pos (reaches_of_contents hcontents)]
    exact ⟨hinv.syncDir fs' hrenamed hcontents, fs', hrenamed, hcontents, rfl⟩

theorem replaceFile_always (hinv : SaveInvariant path body Inv)
    (hclear : strict → ∀ fs, Inv fs → fs.Clear path.tmp path) {fs : OffsetFs} (h : Inv fs)
    (hreaches : strict → fs.Reaches path.parent) :
    Always performFile (Permitted strict) Inv (Returns strict fun _ => Saved path body Inv)
      (replaceFile path body) fs := by
  refine always_io h (fun e => ⟨_, rfl⟩) fun more => ?_
  by_cases hfits : layout.Fits fs.folder path.tmp
  · simp only [performFile, perform, dif_pos hfits]
    show Always _ _ _ _ (writeAll (fs.openTruncate path.tmp hfits).1 body >>= fun _ =>
      publishFile path (fs.openTruncate path.tmp hfits).1) (fs.openTruncate path.tmp hfits).2
    apply always_bind_returns
    have hopen : Writing path Inv (fs.openTruncate path.tmp hfits).1.inode []
        (fs.openTruncate path.tmp hfits).2 := by
      refine ⟨hinv.openTruncate fs hfits h, openTruncate_dir hfits, ?_⟩
      rw [openTruncate_data, Function.update_self]
    have hwrite : Always performFile (Permitted strict) Inv
        (Returns strict fun _ =>
          Writing path Inv (fs.openTruncate path.tmp hfits).1.inode ([] ++ body))
        (writeAll (fs.openTruncate path.tmp hfits).1 body) (fs.openTruncate path.tmp hfits).2 :=
      writeAll_always hinv hopen (openTruncate_pos hfits)
    refine hwrite.mono fun r fs' _ hr => ?_
    cases r with
    | ok u => exact publishFile_always hinv hclear hr
    | error e => exact hr
  · simp only [performFile, perform, dif_neg hfits]
    refine ⟨h, fun hstrict => hfits ?_⟩
    refine (hclear hstrict fs h).fits ?_
    rw [show layout.dirOf path.tmp = path.parent from path.directory_tmp]
    exact hreaches hstrict

theorem createParent_always (hinv : SaveInvariant path body Inv)
    (hclear : strict → ∀ fs, Inv fs → fs.Clear path.tmp path) {fs : OffsetFs} (h : Inv fs) :
    Always performFile (Permitted strict) Inv
      (Returns strict fun _ fs' => fs'.Reaches path.parent) (createParent path) fs := by
  rw [createParent]
  by_cases hparent : path.parent.isEmpty
  · rw [if_pos hparent]
    exact ⟨h, reaches_of_isEmpty hparent fs⟩
  · rw [if_neg hparent]
    refine always_io h (fun e => ⟨_, rfl⟩) fun more => ?_
    by_cases hd : fs.Passable path.parent
    · simp only [performFile, perform, dif_pos hd]
      exact ⟨hinv.makeDirs fs hd h, reaches_makeDirs hd⟩
    · simp only [performFile, perform, dif_neg hd]
      exact ⟨h, fun hstrict => hd (hclear hstrict fs h).passable⟩

/-- **A save**, whatever the outcomes of its calls, keeps every invariant of its calls wherever it
is interrupted; if it returns `Ok` the file holds the new body, and it does return `Ok` if all
calls succeed and nothing stands in the way. -/
theorem saveMap_always {map : OffsetMap}
    (hinv : SaveInvariant path (encodeUtf8 (renderMap map)) Inv)
    (hclear : strict → ∀ fs, Inv fs → fs.Clear path.tmp path) {fs : OffsetFs} (h : Inv fs) :
    Always performFile (Permitted strict) Inv
      (Returns strict fun _ => Saved path (encodeUtf8 (renderMap map)) Inv)
      (saveMap path map) fs := by
  apply always_bind_returns
  refine (createParent_always hinv hclear h).mono fun r fs' hinv' hr => ?_
  cases r with
  | ok u => exact replaceFile_always hinv hclear hinv' fun _ => hr
  | error e => exact hr

end

/-! ### Invariants of a save -/

theorem saveInvariant_clear (path : FilePath) (body : List UInt8) :
    SaveInvariant path body fun fs => fs.Clear path.tmp path where
  makeDirs := fun _ hd h => h.makeDirs path.directory_tmp hd
  openTruncate := fun _ hfits h => h.openTruncate path.directory_tmp hfits
  write := fun _ _ _ h _ => ⟨h.tmp_dots, h.tmp_folder, h.path_dots, h.path_folder, h.passable⟩
  sync := fun _ _ h _ => ⟨h.tmp_dots, h.tmp_folder, h.path_dots, h.path_folder, h.passable⟩
  rename := fun _ _ _ h _ _ _ hrename => h.rename path.directory_tmp hrename
  syncDir := fun _ h _ => ⟨h.tmp_dots, h.tmp_folder, h.path_dots, h.path_folder, h.passable⟩

/-- No call makes a directory of a name that is not on the way, or takes one away from there. -/
theorem saveInvariant_folder {path : FilePath} {q : Entry} (body : List UInt8)
    (hq : q ∉ path.parent.way) (isDir : Bool) :
    SaveInvariant path body fun fs => fs.folder q = isDir where
  makeDirs := fun _ hd h => (folder_makeDirs_of_notMem hd hq).trans h
  openTruncate := fun fs hfits h => by rw [openTruncate_folder]; exact h
  write := fun _ _ _ h _ => h
  sync := fun _ _ h _ => h
  rename := fun _ _ _ h _ _ _ hrename => by rw [rename_folder hrename]; exact h
  syncDir := fun _ h _ => h

theorem SaveInvariant.and {path : FilePath} {body : List UInt8} {Inv Inv' : OffsetFs → Prop}
    (h : SaveInvariant path body Inv) (h' : SaveInvariant path body Inv') :
    SaveInvariant path body fun fs => Inv fs ∧ Inv' fs where
  makeDirs := fun fs hd hfs => ⟨h.makeDirs fs hd hfs.1, h'.makeDirs fs hd hfs.2⟩
  openTruncate := fun fs hfits hfs =>
    ⟨h.openTruncate fs hfits hfs.1, h'.openTruncate fs hfits hfs.2⟩
  write := fun fs file bytes hfs hdir =>
    ⟨h.write fs file bytes hfs.1 hdir, h'.write fs file bytes hfs.2 hdir⟩
  sync := fun fs file hfs hdir => ⟨h.sync fs file hfs.1 hdir, h'.sync fs file hfs.2 hdir⟩
  rename := fun fs fs' inode hfs hdir hsynced hdata hrename =>
    ⟨h.rename fs fs' inode hfs.1 hdir hsynced hdata hrename,
      h'.rename fs fs' inode hfs.2 hdir hsynced hdata hrename⟩
  syncDir := fun fs hfs hcontents =>
    ⟨h.syncDir fs hfs.1 hcontents, h'.syncDir fs hfs.2 hcontents⟩

/-- The store's file is separate from its temporary file and satisfies `Good`, now. -/
def Intact (path : FilePath) (Good : Option (List UInt8) → Prop) (fs : OffsetFs) : Prop :=
  fs.Separate path.tmp path ∧ Good (fs.contents path)

theorem saveInvariant_intact {path : FilePath} {body : List UInt8}
    {Good : Option (List UInt8) → Prop} (hbody : Good (some body)) :
    SaveInvariant path body (Intact path Good) where
  makeDirs := fun fs hd h => h
  openTruncate := by
    intro fs hfits h
    refine ⟨⟨h.1.1, fun i htmp hpath => ?_⟩, ?_⟩
    · rw [openTruncate_dir] at htmp
      rw [openTruncate_dir_of_ne hfits (Ne.symm h.1.1)] at hpath
      exact openTruncate_inode_ne hfits h.1 hpath (Option.some.inj htmp).symm
    · rw [(untouched_openTruncate hfits h.1).contents]
      exact h.2
  write := by
    intro fs file bytes h hdir
    refine ⟨h.1, ?_⟩
    rw [(untouched_write (h.1.2 _ hdir)).contents]
    exact h.2
  sync := fun fs file h _ => h
  rename := by
    intro fs fs' inode h hdir _ hdata hrename
    refine ⟨⟨h.1.1, fun i htmp => ?_⟩, ?_⟩
    · rw [rename_dir_src h.1.1 hrename] at htmp
      exact absurd htmp (by simp)
    · rw [contents_rename hdir hrename, hdata]
      exact hbody
  syncDir := fun fs h _ => h

/-- Whatever a crash leaves under the store's path satisfies `Good`. -/
abbrev CrashSafe (path : FilePath) (Good : Option (List UInt8) → Prop) (fs : OffsetFs) : Prop :=
  Guarded fs path.tmp path Good

theorem saveInvariant_crashSafe {path : FilePath} {body : List UInt8}
    {Good : Option (List UInt8) → Prop} (hbody : Good (some body)) :
    SaveInvariant path body (CrashSafe path Good) where
  makeDirs := fun fs hd h => h.makeDirs hd path.tmp_notMem_way path.notMem_way
  openTruncate := fun fs hfits h => h.openTruncate hfits
  write := fun fs file bytes h hdir => h.write hdir bytes
  sync := fun fs file h hdir => h.sync hdir
  rename := by
    intro fs fs' inode h hdir hsynced hdata hrename
    exact h.rename hdir hsynced (hdata ▸ hbody) hrename
  syncDir := fun fs h hcontents => h.syncDir path.directory_tmp (hcontents ▸ hbody)

/-- A save in two stages: up to the rename a reader finds the old content, and from there on the new
body; what a crash leaves is good in the sense of its stage. -/
def Staged (path : FilePath) (old : Option (List UInt8)) (body : List UInt8)
    (Before After : Option (List UInt8) → Prop) (fs : OffsetFs) : Prop :=
  fs.contents path = old ∧ CrashSafe path Before fs ∨
    fs.contents path = some body ∧ CrashSafe path After fs

theorem Staged.crashSafe {path : FilePath} {old : Option (List UInt8)} {body : List UInt8}
    {Before After : Option (List UInt8) → Prop} {fs : OffsetFs} (hmono : ∀ c, Before c → After c)
    (h : Staged path old body Before After fs) : CrashSafe path After fs := by
  rcases h with h | h
  · exact h.2.mono hmono
  · exact h.2

theorem saveInvariant_staged {path : FilePath} {old : Option (List UInt8)} {body : List UInt8}
    {Before After : Option (List UInt8) → Prop} (hmono : ∀ c, Before c → After c)
    (hbody : After (some body)) : SaveInvariant path body (Staged path old body Before After) where
  makeDirs := by
    intro fs hd h
    refine h.imp (fun h => ⟨h.1, ?_⟩) fun h => ⟨h.1, ?_⟩
    · exact h.2.makeDirs hd path.tmp_notMem_way path.notMem_way
    · exact h.2.makeDirs hd path.tmp_notMem_way path.notMem_way
  openTruncate := by
    intro fs hfits h
    refine h.imp (fun h => ?_) fun h => ?_
    · exact ⟨(untouched_openTruncate hfits h.2.separate).contents.trans h.1,
        h.2.openTruncate hfits⟩
    · exact ⟨(untouched_openTruncate hfits h.2.separate).contents.trans h.1,
        h.2.openTruncate hfits⟩
  write := by
    intro fs file bytes h hdir
    refine h.imp (fun h => ?_) fun h => ?_
    · exact ⟨(untouched_write (h.2.separate.2 _ hdir)).contents.trans h.1, h.2.write hdir bytes⟩
    · exact ⟨(untouched_write (h.2.separate.2 _ hdir)).contents.trans h.1, h.2.write hdir bytes⟩
  sync := fun fs file h hdir =>
    h.imp (fun h => ⟨h.1, h.2.sync hdir⟩) fun h => ⟨h.1, h.2.sync hdir⟩
  rename := by
    intro fs fs' inode h hdir hsynced hdata hrename
    have hafter : CrashSafe path After fs := h.crashSafe hmono
    refine Or.inr ⟨?_, hafter.rename hdir hsynced (hdata ▸ hbody) hrename⟩
    rw [contents_rename hdir hrename, hdata]
  syncDir := by
    intro fs h hcontents
    have hafter : CrashSafe path After fs := h.crashSafe hmono
    exact Or.inr ⟨hcontents, hafter.syncDir path.directory_tmp (hcontents ▸ hbody)⟩

/-- After a save that returned `Ok` a crash can only leave the new body. -/
theorem Saved.crashSafe {path : FilePath} {body : List UInt8} {Good : Option (List UInt8) → Prop}
    {fs : OffsetFs} (h : Saved path body (CrashSafe path Good) fs) :
    CrashSafe path (fun c => c = some body) fs := by
  obtain ⟨old, hold, hcontents, rfl⟩ := h
  exact hold.syncDir path.directory_tmp hcontents

/-! ### The two operations -/

section

variable (store : FileOffsetStore) (topic : String) (partition : I32)

/-- `committed` looks the key up in the loaded table and changes nothing. -/
theorem run_committed (env : ℕ → Outcome) (n : ℕ) (fs : OffsetFs) :
    ∃ n', run performFile env (store.committed topic partition) n fs =
      ((loadResult (fs.folder store.path) (fs.contents store.path) (env n) (env (n + 1))).map
        (·.lookup (topic, partition)), n', fs) := by
  obtain ⟨n', -, hload⟩ := run_loadMap store.path env n fs
  refine ⟨n', ?_⟩
  rw [FileOffsetStore.committed, run_bind, hload]
  cases loadResult (fs.folder store.path) (fs.contents store.path) (env n) (env (n + 1)) with
  | error e => rfl
  | ok map => rfl

/-- An offset that is not committable is refused before any call is made. -/
theorem run_commit_of_error {offset : I64} {e : KafkaError} (h : nextOffsetOf offset = .error e)
    (env : ℕ → Outcome) (n : ℕ) (fs : OffsetFs) :
    run performFile env (store.commit topic partition offset) n fs = (.error e, n, fs) := by
  rw [FileOffsetStore.commit, h]
  rfl

/-- A commit saves the loaded table with one key raised; if the load fails, so does the commit. -/
theorem run_commit_of_ok {offset next : I64} (h : nextOffsetOf offset = .ok next)
    (env : ℕ → Outcome) (n : ℕ) (fs : OffsetFs) :
    ∃ n', n < n' ∧ run performFile env (store.commit topic partition offset) n fs =
      match loadResult (fs.folder store.path) (fs.contents store.path) (env n) (env (n + 1)) with
      | .error e => (.error e, n', fs)
      | .ok map =>
        run performFile env (saveMap store.path (map.raise (topic, partition) next)) n' fs := by
  obtain ⟨n', hlt, hload⟩ := run_loadMap store.path env n fs
  refine ⟨n', hlt, ?_⟩
  rw [FileOffsetStore.commit, h]
  show run performFile env (loadMap store.path >>= _) n fs = _
  rw [run_bind, hload]
  cases loadResult (fs.folder store.path) (fs.contents store.path) (env n) (env (n + 1)) with
  | error e => rfl
  | ok map => rfl

variable {env : ℕ → Outcome} {fs : OffsetFs} {map : OffsetMap}

theorem run_committed_of_isOk (henv : ∀ n, (env n).IsOk) (hfolder : fs.folder store.path = false)
    (hmap : decodeFile (fs.contents store.path) = .ok map) (n : ℕ) :
    ∃ n', run performFile env (store.committed topic partition) n fs =
      (.ok (map.lookup (topic, partition)), n', fs) := by
  obtain ⟨n', hrun⟩ := run_committed store topic partition env n fs
  rw [hfolder, loadResult_of_ok (henv n) (henv (n + 1)), hmap] at hrun
  exact ⟨n', hrun⟩

/-- A save whose calls succeed puts its body in place. -/
theorem run_saveMap_of_isOk (path : FilePath) (map : OffsetMap) {n : ℕ}
    (henv : ∀ m, n ≤ m → (env m).IsOk) (hclear : fs.Clear path.tmp path) :
    ∃ n' fs', run performFile env (saveMap path map) n fs = (.ok (), n', fs') ∧
      fs'.contents path = some (encodeUtf8 (renderMap map)) ∧ fs'.Clear path.tmp path := by
  have hsave : Always performFile (Permitted True) (fun fs => fs.Clear path.tmp path)
      (Returns True fun _ => Saved path (encodeUtf8 (renderMap map)) fun fs =>
        fs.Clear path.tmp path) (saveMap path map) fs :=
    saveMap_always (saveInvariant_clear path _) (fun _ _ h => h) hclear
  have hsaved := hsave.run fun m hm _ => henv m hm
  obtain ⟨⟨r, n', fs'⟩, hrun⟩ : ∃ x, run performFile env (saveMap path map) n fs = x := ⟨_, rfl⟩
  rw [hrun] at hsaved
  cases r with
  | ok u => exact ⟨n', fs', hrun, hsaved.2.contents, hsaved.1⟩
  | error e => exact absurd trivial hsaved.2

/-- **A commit whose calls succeed** leaves the rendering of the raised table in the file. -/
theorem run_commit_of_isOk (henv : ∀ n, (env n).IsOk)
    (hclear : fs.Clear store.path.tmp store.path)
    (hmap : decodeFile (fs.contents store.path) = .ok map) {offset next : I64}
    (h : nextOffsetOf offset = .ok next) (n : ℕ) :
    ∃ n' fs', run performFile env (store.commit topic partition offset) n fs =
        (.ok (), n', fs') ∧
      fs'.contents store.path =
        some (encodeUtf8 (renderMap (map.raise (topic, partition) next))) := by
  obtain ⟨n', -, hcommit⟩ := run_commit_of_ok store topic partition h env n fs
  rw [hclear.path_folder, loadResult_of_ok (henv n) (henv (n + 1)), hmap] at hcommit
  obtain ⟨n'', fs', hrun, hcontents, -⟩ := run_saveMap_of_isOk store.path
    (map.raise (topic, partition) next) (fun m (_ : n' ≤ m) => henv m) hclear
  exact ⟨n'', fs', hcommit.trans hrun, hcontents⟩

end

/-! ### Something in the way -/

section

variable {path : FilePath} {fs : OffsetFs} (env : ℕ → Outcome) (n : ℕ)

/-- Making the parent directory changes nothing but directories. -/
theorem run_createParent (path : FilePath) (fs : OffsetFs) :
    ∃ r n' fs', run performFile env (createParent path) n fs = (r, n', fs') ∧
      (fs' = fs ∨ ∃ hd, fs' = fs.makeDirs path.parent hd) := by
  rw [createParent]
  by_cases hparent : path.parent.isEmpty
  · rw [if_pos hparent]
    exact ⟨_, _, _, rfl, Or.inl rfl⟩
  · rw [if_neg hparent, run_call]
    cases env n with
    | error e => exact ⟨_, _, _, rfl, Or.inl rfl⟩
    | ok more =>
      by_cases hd : fs.Passable path.parent
      · simp only [performFile, perform, dif_pos hd]
        exact ⟨_, _, _, rfl, Or.inr ⟨hd, rfl⟩⟩
      · simp only [performFile, perform, dif_neg hd]
        exact ⟨_, _, _, rfl, Or.inl rfl⟩

/-- A file bars the way to the parent directory. -/
theorem run_createParent_of_not_passable (h : ¬ fs.Passable path.parent) :
    ∃ e n', run performFile env (createParent path) n fs = (.error e, n', fs) := by
  have hparent : ¬ path.parent.isEmpty = true := by
    intro hempty
    cases hworking : path.parent with
    | working =>
      rw [hworking] at h
      exact h fun q hq => absurd hq List.not_mem_nil
    | root =>
      rw [hworking] at hempty
      exact absurd hempty (by decide)
    | sub outer name =>
      rw [hworking] at hempty
      exact absurd hempty (by simp [Directory.isEmpty])
  rw [createParent, if_neg hparent, run_call]
  cases env n with
  | error e => exact ⟨_, _, rfl⟩
  | ok more =>
    simp only [performFile, perform, dif_neg h]
    exact ⟨_, _, rfl⟩

/-- No file may stand under the temporary name. -/
theorem run_replaceFile_of_not_fits (body : List UInt8) (h : ¬ layout.Fits fs.folder path.tmp) :
    ∃ e n', run performFile env (replaceFile path body) n fs = (.error e, n', fs) := by
  rw [replaceFile, call_bind, run_call]
  cases env n with
  | error e => exact ⟨_, _, rfl⟩
  | ok more =>
    simp only [performFile, perform, dif_neg h]
    exact ⟨_, _, rfl⟩

/-- **Something in the way.**  If a directory stands under one of the two names, or a file on the way
to them, every save fails, whatever the outcomes of its calls, and leaves the file as it is. -/
theorem run_saveMap_of_not_clear (map : OffsetMap) (h : ¬ fs.Clear path.tmp path) :
    ∃ e n' fs', run performFile env (saveMap path map) n fs = (.error e, n', fs') ∧
      fs'.contents path = fs.contents path := by
  cases hfolder : fs.folder path with
  | true =>
    -- the rename cannot replace a directory
    have hsave : Always performFile (Permitted False) (fun fs => fs.folder path = true)
        (Returns False fun _ => Saved path (encodeUtf8 (renderMap map)) fun fs =>
          fs.folder path = true) (saveMap path map) fs :=
      saveMap_always (saveInvariant_folder _ path.notMem_way true) False.elim hfolder
    obtain ⟨hinv, hpost⟩ := hsave.run fun m (_ : n ≤ m) hfalse => hfalse.elim
    obtain ⟨⟨r, n', fs'⟩, hrun⟩ : ∃ x, run performFile env (saveMap path map) n fs = x := ⟨_, rfl⟩
    rw [hrun] at hinv hpost
    cases r with
    | error e => exact ⟨e, n', fs', hrun, (contents_of_folder hinv).trans
        (contents_of_folder hfolder).symm⟩
    | ok u =>
      have hcontents : fs'.contents path = some _ := Saved.contents hpost
      rw [contents_of_folder hinv] at hcontents
      exact absurd hcontents (by simp)
  | false =>
    rw [saveMap, run_bind]
    by_cases hpassable : fs.Passable path.parent
    · -- then it is the temporary name
      obtain ⟨r, n', fs', hrun, hfs'⟩ := run_createParent env n path fs
      have hfits : ¬ layout.Fits fs'.folder path.tmp := by
        intro hfits
        have hsame : fs'.folder path.tmp = fs.folder path.tmp := by
          rcases hfs' with rfl | ⟨hd, rfl⟩
          · rfl
          · exact folder_makeDirs_of_notMem hd path.tmp_notMem_way
        exact h ⟨hfits.1, hsame.symm.trans hfits.2.1, rfl, hfolder, hpassable⟩
      have hcontents : fs'.contents path = fs.contents path := by
        rcases hfs' with rfl | ⟨hd, rfl⟩
        · rfl
        · exact (untouched_makeDirs hd _).contents
      rw [hrun]
      cases r with
      | error e => exact ⟨e, n', fs', rfl, hcontents⟩
      | ok u =>
        obtain ⟨e, n'', hreplace⟩ := run_replaceFile_of_not_fits env n'
          (encodeUtf8 (renderMap map)) hfits
        exact ⟨e, n'', fs', hreplace, hcontents⟩
    · obtain ⟨e, n', hrun⟩ := run_createParent_of_not_passable env n hpassable
      rw [hrun]
      exact ⟨e, n', fs, rfl, rfl⟩

/-- A commit that returned `Ok` found nothing in its way. -/
theorem clear_of_run_commit {store : FileOffsetStore} {topic : String} {partition : I32}
    {offset next : I64} {env : ℕ → Outcome} {n n' : ℕ} {fs fs' : OffsetFs}
    (hnext : nextOffsetOf offset = .ok next)
    (hrun : run performFile env (store.commit topic partition offset) n fs = (.ok (), n', fs')) :
    fs.Clear store.path.tmp store.path := by
  by_contra hclear
  obtain ⟨m, -, hcommit⟩ := run_commit_of_ok store topic partition hnext env n fs
  rw [hrun] at hcommit
  cases hload : loadResult (fs.folder store.path) (fs.contents store.path) (env n)
      (env (n + 1)) with
  | error e =>
    rw [hload] at hcommit
    exact absurd (Prod.mk.inj hcommit).1 (by simp)
  | ok map =>
    rw [hload] at hcommit
    obtain ⟨e, n'', fs'', hsave, -⟩ :=
      run_saveMap_of_not_clear env m (map.raise (topic, partition) next) hclear
    exact absurd (Prod.mk.inj (hcommit.trans hsave)).1 (by simp)

end

end Kafkax
