import Kafkax.OffsetRefinement

/-!
# What an offset file says

The format of the offset file, said by its lines: a line is blank or a comment, or it has an entry
(`LineEntry`), or a field of it is at fault (`LineFault`), and never two of these
(`loadLine_cases`).  `load_map` reads the lines one after the other.

* `load_meaning`: it accepts exactly the texts without a fault, a key then has the position of its
  last line; else the error names the first faulty line and its first faulty field.
* `damaged_file_kept`: a store on a file that `load_map` refuses answers every call with that error
  and leaves the file as it is.
-/

namespace Kafkax

open BoundedIntegers FileSystem LineText Programs Program

/-! ### Lines -/

/-- The line is neither blank nor a comment, and is cut at its tabs. -/
structure Fields (line : Text) (fields : List Text) : Prop where
  not_blank : trim line ≠ []
  not_comment : (trim line).head? ≠ some '#'
  split : (trim line).splitOn '\t' = fields

/-- The entry of a line; what follows the third field is ignored. -/
inductive LineEntry (line : Text) : Key → I64 → Prop where
  | mk {topic p n : Text} {more : List Text} {partition : I32} {next : I64}
      (hfields : Fields line (topic :: p :: n :: more))
      (hp : fromDecimal _ _ (trim p) = some partition) (hn : fromDecimal _ _ (trim n) = some next) :
      LineEntry line (String.ofList topic, partition) next

/-- What is wrong with a field. -/
inductive FieldFault where
  | missing
  | illegal
deriving DecidableEq

/-- The text that `parse_field` reports. -/
def FieldFault.message (lineno : ℕ) (name : String) : FieldFault → String
  | .missing => s!"offset 行 {lineno}: 缺少 {name}"
  | .illegal => s!"offset 行 {lineno}: {name} 非法"

/-- A field is at fault. -/
inductive FieldFails (lo hi : ℤ) : Option Text → FieldFault → Prop where
  | missing : FieldFails lo hi none .missing
  | illegal {raw : Text} (h : fromDecimal lo hi (trim raw) = none) :
      FieldFails lo hi (some raw) .illegal

/-- The first field of a line that is at fault, and its fault. -/
inductive LineFault (line : Text) : String → FieldFault → Prop where
  | partition {topic : Text} {rest : List Text} {fault : FieldFault}
      (hfields : Fields line (topic :: rest))
      (h : FieldFails (-2147483648) 2147483647 rest[0]? fault) : LineFault line "partition" fault
  | nextOffset {topic p : Text} {rest : List Text} {partition : I32} {fault : FieldFault}
      (hfields : Fields line (topic :: p :: rest))
      (hp : fromDecimal _ _ (trim p) = some partition)
      (h : FieldFails (-9223372036854775808) 9223372036854775807 rest[0]? fault) :
      LineFault line "next_offset" fault

/-- A field is read, or it is at fault and the error says so. -/
theorem parseField_cases {lo hi : ℤ} (value : Option Text) (lineno : ℕ) (name : String) :
    (∃ raw n, value = some raw ∧ fromDecimal lo hi (trim raw) = some n ∧
      parseField value lineno name = .ok n) ∨
    ∃ fault, FieldFails lo hi value fault ∧
      (parseField value lineno name : KafkaResult (BoundedInt lo hi)) =
        .error (.config (fault.message lineno name)) := by
  cases value with
  | none => exact Or.inr ⟨.missing, .missing, rfl⟩
  | some raw =>
    cases hread : fromDecimal lo hi (trim raw) with
    | none =>
      refine Or.inr ⟨.illegal, .illegal hread, ?_⟩
      rw [parseField, hread]
      rfl
    | some n =>
      refine Or.inl ⟨raw, n, rfl, hread, ?_⟩
      rw [parseField, hread]

/-- **One line**: it is skipped, or it has an entry, or a field is at fault. -/
theorem loadLine_cases (index : ℕ) (line : Text) (map : OffsetMap) :
    ((∀ fields, ¬ Fields line fields) ∧ loadLine index line map = .ok map) ∨
    (∃ key next, LineEntry line key next ∧
      loadLine index line map = .ok (map.insert key next)) ∨
    ∃ name fault, LineFault line name fault ∧
      loadLine index line map = .error (.config (fault.message (index + 1) name)) := by
  rw [loadLine]
  simp only
  by_cases hskip : ((trim line).isEmpty || (trim line).head? == some '#') = true
  · rw [if_pos hskip]
    refine Or.inl ⟨?_, rfl⟩
    rintro fields ⟨hblank, hcomment, -⟩
    rcases Bool.or_eq_true_iff.mp hskip with h | h
    · exact hblank (List.isEmpty_iff.mp h)
    · exact hcomment (beq_iff_eq.mp h)
  · rw [if_neg hskip]
    rw [Bool.or_eq_true, not_or, List.isEmpty_iff, beq_iff_eq] at hskip
    refine Or.inr ?_
    cases hsplit : (trim line).splitOn '\t' with
    | nil => exact absurd hsplit (List.splitOn_ne_nil _ _)
    | cons topic rest =>
      have hfields : Fields line (topic :: rest) := ⟨hskip.1, hskip.2, hsplit⟩
      simp only [List.getElem?_cons_zero, List.getElem?_cons_succ]
      rcases @parseField_cases (-2147483648) 2147483647 rest[0]? (index + 1) "partition" with
        ⟨p, partition, hraw, hread, hparsed⟩ | ⟨fault, hfault, hparsed⟩
      · obtain ⟨rest', rfl⟩ : ∃ rest', rest = p :: rest' :=
          List.head?_eq_some_iff.mp (List.head?_eq_getElem?.trans hraw)
        rcases @parseField_cases (-9223372036854775808) 9223372036854775807 rest'[0]? (index + 1)
            "next_offset" with
          ⟨n, next, hraw', hread', hparsed'⟩ | ⟨fault, hfault, hparsed'⟩
        · obtain ⟨more, rfl⟩ : ∃ more, rest' = n :: more :=
            List.head?_eq_some_iff.mp (List.head?_eq_getElem?.trans hraw')
          refine Or.inl ⟨_, next, .mk hfields hread hread', ?_⟩
          rw [hparsed]
          show (parseField _ _ _ >>= _) = _
          rw [List.getElem?_cons_succ, hparsed']
          rfl
        · refine Or.inr ⟨_, fault, .nextOffset hfields hread hfault, ?_⟩
          rw [hparsed]
          show (parseField _ _ _ >>= _) = _
          rw [List.getElem?_cons_succ, hparsed']
          rfl
      · refine Or.inr ⟨_, fault, .partition hfields hfault, ?_⟩
        rw [hparsed]
        rfl

theorem Fields.unique {line : Text} {fields fields' : List Text} (h : Fields line fields)
    (h' : Fields line fields') : fields = fields' :=
  h.split.symm.trans h'.split

theorem FieldFails.unique {lo hi : ℤ} {value : Option Text} {fault fault' : FieldFault}
    (h : FieldFails lo hi value fault) (h' : FieldFails lo hi value fault') : fault = fault' := by
  cases h <;> cases h' <;> rfl

/-- A field that is read is not at fault. -/
theorem FieldFails.not_read {lo hi : ℤ} {raw : Text} {fault : FieldFault} {n : BoundedInt lo hi}
    (h : FieldFails lo hi (some raw) fault) : fromDecimal lo hi (trim raw) ≠ some n := by
  cases h with
  | illegal hnone =>
    rw [hnone]
    exact Option.some_ne_none n |>.symm

theorem LineEntry.unique {line : Text} {key key' : Key} {next next' : I64}
    (h : LineEntry line key next) (h' : LineEntry line key' next') :
    key = key' ∧ next = next' := by
  cases h with
  | mk hfields hp hn =>
    cases h' with
    | mk hfields' hp' hn' =>
      obtain ⟨htopic, hrest⟩ := List.cons.inj (hfields.unique hfields')
      obtain ⟨hpartition, hrest⟩ := List.cons.inj hrest
      obtain ⟨hnext, -⟩ := List.cons.inj hrest
      rw [hpartition, hp'] at hp
      rw [hnext, hn'] at hn
      rw [htopic, Option.some.inj hp]
      exact ⟨rfl, (Option.some.inj hn).symm⟩

theorem LineEntry.not_fault {line : Text} {key : Key} {next : I64} {name : String}
    {fault : FieldFault} (h : LineEntry line key next) : ¬ LineFault line name fault := by
  intro hfault
  cases h with
  | mk hfields hp hn =>
    cases hfault with
    | partition hfields' hfails =>
      obtain ⟨-, rfl⟩ := List.cons.inj (hfields.unique hfields')
      exact hfails.not_read hp
    | nextOffset hfields' hp' hfails =>
      obtain ⟨-, hrest⟩ := List.cons.inj (hfields.unique hfields')
      obtain ⟨-, rfl⟩ := List.cons.inj hrest
      exact hfails.not_read hn

theorem LineFault.unique {line : Text} {name name' : String} {fault fault' : FieldFault}
    (h : LineFault line name fault) (h' : LineFault line name' fault') :
    name = name' ∧ fault = fault' := by
  cases h with
  | partition hfields hfails =>
    cases h' with
    | partition hfields' hfails' =>
      obtain ⟨-, rfl⟩ := List.cons.inj (hfields.unique hfields')
      exact ⟨rfl, hfails.unique hfails'⟩
    | nextOffset hfields' hp hfails' =>
      obtain ⟨-, rfl⟩ := List.cons.inj (hfields.unique hfields')
      exact absurd hp hfails.not_read
  | nextOffset hfields hp hfails =>
    cases h' with
    | partition hfields' hfails' =>
      obtain ⟨-, rfl⟩ := List.cons.inj (hfields'.unique hfields)
      exact absurd hp hfails'.not_read
    | nextOffset hfields' hp' hfails' =>
      obtain ⟨-, hrest⟩ := List.cons.inj (hfields.unique hfields')
      obtain ⟨-, rfl⟩ := List.cons.inj hrest
      exact ⟨rfl, hfails.unique hfails'⟩

/-! ### Texts -/

/-- No line has an entry of the key. -/
def NoEntry (ls : List Text) (key : Key) : Prop := ∀ line ∈ ls, ∀ next, ¬ LineEntry line key next

/-- The last line that has an entry of the key gives it this position. -/
def LastEntry (ls : List Text) (key : Key) (next : I64) : Prop :=
  ∃ front line back, ls = front ++ line :: back ∧ LineEntry line key next ∧ NoEntry back key

/-- No field of a line is at fault. -/
def Faultless (ls : List Text) : Prop := ∀ line ∈ ls, ∀ name fault, ¬ LineFault line name fault

theorem noEntry_cons {line : Text} {rest : List Text} {key : Key} :
    NoEntry (line :: rest) key ↔ (∀ next, ¬ LineEntry line key next) ∧ NoEntry rest key :=
  List.forall_mem_cons

theorem faultless_cons {line : Text} {rest : List Text} :
    Faultless (line :: rest) ↔ (∀ name fault, ¬ LineFault line name fault) ∧ Faultless rest :=
  List.forall_mem_cons

theorem lastEntry_cons {line : Text} {rest : List Text} {key : Key} {next : I64} :
    LastEntry (line :: rest) key next ↔
      LastEntry rest key next ∨ LineEntry line key next ∧ NoEntry rest key := by
  constructor
  · rintro ⟨front, found, back, hsplit, hentry, hback⟩
    cases front with
    | nil =>
      obtain ⟨rfl, rfl⟩ := List.cons.inj hsplit
      exact Or.inr ⟨hentry, hback⟩
    | cons first front =>
      exact Or.inl ⟨front, found, back, (List.cons.inj hsplit).2, hentry, hback⟩
  · rintro (⟨front, found, back, hsplit, hentry, hback⟩ | ⟨hentry, hback⟩)
    · exact ⟨line :: front, found, back, by rw [hsplit]; rfl, hentry, hback⟩
    · exact ⟨[], line, rest, rfl, hentry, hback⟩

/-- What the lines from the number `index` on make of a table: a key has the position of its last
line, or keeps its own; or the first fault of the lines is reported. -/
def LinesRead (index : ℕ) (ls : List Text) (map : OffsetMap) : KafkaResult OffsetMap → Prop
  | .ok map' => Faultless ls ∧ ∀ key next, map'.lookup key = some next ↔
      LastEntry ls key next ∨ map.lookup key = some next ∧ NoEntry ls key
  | .error e => ∃ front line back name fault, ls = front ++ line :: back ∧ Faultless front ∧
      LineFault line name fault ∧ e = .config (fault.message (index + front.length + 1) name)

/-- A line without a fault, and the lines after it. -/
theorem LinesRead.cons {index : ℕ} {line : Text} {rest : List Text} {map mid : OffsetMap}
    {result : KafkaResult OffsetMap} (h : LinesRead (index + 1) rest mid result)
    (hfaultless : ∀ name fault, ¬ LineFault line name fault)
    (hpositions : ∀ key next,
      LastEntry rest key next ∨ mid.lookup key = some next ∧ NoEntry rest key ↔
        LastEntry (line :: rest) key next ∨
          map.lookup key = some next ∧ NoEntry (line :: rest) key) :
    LinesRead index (line :: rest) map result := by
  cases result with
  | ok map' =>
    obtain ⟨hrest, hmap'⟩ := h
    exact ⟨faultless_cons.mpr ⟨hfaultless, hrest⟩, fun key next =>
      (hmap' key next).trans (hpositions key next)⟩
  | error e =>
    obtain ⟨front, found, back, name, fault, hsplit, hfront, hfault, he⟩ := h
    refine ⟨line :: front, found, back, name, fault, by rw [hsplit]; rfl,
      faultless_cons.mpr ⟨hfaultless, hfront⟩, hfault, ?_⟩
    rw [he, List.length_cons, Nat.add_right_comm index 1, ← Nat.add_assoc index]

/-- **The loop** over the lines. -/
theorem loadLines_read (index : ℕ) (ls : List Text) (map : OffsetMap) :
    LinesRead index ls map (loadLines index ls map) := by
  induction ls generalizing index map with
  | nil =>
    refine ⟨fun line hline => absurd hline List.not_mem_nil, fun key next => ?_⟩
    constructor
    · intro h
      exact Or.inr ⟨h, fun line hline => absurd hline List.not_mem_nil⟩
    · rintro (⟨front, line, back, hsplit, -⟩ | h)
      · exact absurd hsplit.symm (List.append_ne_nil_of_right_ne_nil _ (List.cons_ne_nil _ _))
      · exact h.1
  | cons line rest ih =>
    rw [loadLines]
    rcases loadLine_cases index line map with
      ⟨hskip, hline⟩ | ⟨key, next, hentry, hline⟩ | ⟨name, fault, hfault, hline⟩
    · have hnone : ∀ key next, ¬ LineEntry line key next := by
        intro key next hentry
        cases hentry with
        | mk hfields hp hn => exact hskip _ hfields
      rw [hline]
      refine (ih (index + 1) map).cons (fun name fault hfault => ?_) fun key next => ?_
      · cases hfault with
        | partition hfields hfails => exact hskip _ hfields
        | nextOffset hfields hp hfails => exact hskip _ hfields
      · have hother : ¬ (LineEntry line key next ∧ NoEntry rest key) := fun h => hnone _ _ h.1
        rw [lastEntry_cons, noEntry_cons, or_iff_left hother, and_iff_right (hnone key)]
    · rw [hline]
      refine (ih (index + 1) (map.insert key next)).cons (fun name fault => hentry.not_fault)
        fun key' next' => ?_
      rw [lastEntry_cons, noEntry_cons, or_assoc]
      refine or_congr_right ?_
      by_cases hkey : key' = key
      · rw [hkey, Finmap.lookup_insert, Option.some.injEq]
        constructor
        · rintro ⟨rfl, hrest⟩
          exact Or.inl ⟨hentry, hrest⟩
        · rintro (⟨hentry', hrest⟩ | ⟨-, hnone, -⟩)
          · exact ⟨(hentry.unique hentry').2, hrest⟩
          · exact absurd hentry (hnone next)
      · have hnone : ∀ found, ¬ LineEntry line key' found := fun found hfound =>
          hkey (hfound.unique hentry).1
        have hother : ¬ (LineEntry line key' next' ∧ NoEntry rest key') := fun h => hnone _ h.1
        rw [Finmap.lookup_insert_of_ne map hkey, or_iff_right hother, and_iff_right hnone]
    · rw [hline]
      exact ⟨[], line, rest, name, fault, rfl, fun found hfound => absurd hfound List.not_mem_nil,
        hfault, rfl⟩

/-- The first fault of the lines is only one. -/
theorem first_fault_unique {front front' back back' : List Text} {line line' : Text}
    {name name' : String} {fault fault' : FieldFault}
    (hsplit : front ++ line :: back = front' ++ line' :: back') (hfront : Faultless front)
    (hfront' : Faultless front') (hfault : LineFault line name fault)
    (hfault' : LineFault line' name' fault') :
    front.length = front'.length ∧ name = name' ∧ fault = fault' := by
  induction front generalizing front' with
  | nil =>
    cases front' with
    | nil =>
      rw [(List.cons.inj hsplit).1] at hfault
      exact ⟨rfl, hfault.unique hfault'⟩
    | cons first front' =>
      rw [(List.cons.inj hsplit).1] at hfault
      exact absurd hfault ((faultless_cons.mp hfront').1 _ _)
  | cons first front ih =>
    cases front' with
    | nil =>
      rw [← (List.cons.inj hsplit).1] at hfault'
      exact absurd hfault' ((faultless_cons.mp hfront).1 _ _)
    | cons first' front' =>
      obtain ⟨hlength, hsame⟩ := ih (List.cons.inj hsplit).2 (faultless_cons.mp hfront).2
        (faultless_cons.mp hfront').2
      exact ⟨congrArg (· + 1) hlength, hsame⟩

theorem faultless_of_parseMap {text : Text} {map : OffsetMap} (h : parseMap text = .ok map) :
    Faultless (lines text) ∧
      ∀ key next, map.lookup key = some next ↔ LastEntry (lines text) key next := by
  have hread := loadLines_read 0 (lines text) ∅
  rw [← parseMap, h] at hread
  refine ⟨hread.1, fun key next => (hread.2 key next).trans (or_iff_left ?_)⟩
  rintro ⟨hnone, -⟩
  rw [Finmap.lookup_empty] at hnone
  cases hnone

theorem first_fault_of_parseMap {text : Text} {e : KafkaError} (h : parseMap text = .error e) :
    ∃ front line back name fault, lines text = front ++ line :: back ∧ Faultless front ∧
      LineFault line name fault ∧ e = .config (fault.message (front.length + 1) name) := by
  have hread := loadLines_read 0 (lines text) ∅
  rw [← parseMap, h] at hread
  obtain ⟨front, line, back, name, fault, hsplit, hfront, hfault, he⟩ := hread
  rw [Nat.zero_add] at he
  exact ⟨front, line, back, name, fault, hsplit, hfront, hfault, he⟩

theorem parseMap_of_fault {text line : Text} {front back : List Text} {name : String}
    {fault : FieldFault} (hsplit : lines text = front ++ line :: back) (hfront : Faultless front)
    (hfault : LineFault line name fault) :
    parseMap text = .error (.config (fault.message (front.length + 1) name)) := by
  cases hparse : parseMap text with
  | ok map =>
    have hline : line ∈ lines text := by
      rw [hsplit]
      exact List.mem_append_right _ List.mem_cons_self
    exact absurd hfault ((faultless_of_parseMap hparse).1 line hline name fault)
  | error e =>
    obtain ⟨front', line', back', name', fault', hsplit', hfront', hfault', rfl⟩ :=
      first_fault_of_parseMap hparse
    obtain ⟨hlength, rfl, rfl⟩ := first_fault_unique (hsplit.symm.trans hsplit') hfront hfront'
      hfault hfault'
    rw [hlength]

/-- **What an offset file says.**  A text is read exactly if no field of it is at fault, and then a
key has the position of the last line with an entry of the key.  Otherwise the error names the
first faulty line and the first faulty field of it. -/
theorem load_meaning (text : Text) :
    (∀ map, parseMap text = .ok map ↔ Faultless (lines text) ∧
      ∀ key next, map.lookup key = some next ↔ LastEntry (lines text) key next) ∧
    ∀ e, parseMap text = .error e ↔ ∃ front line back name fault,
      lines text = front ++ line :: back ∧ Faultless front ∧ LineFault line name fault ∧
        e = .config (fault.message (front.length + 1) name) := by
  refine ⟨fun map => ⟨faultless_of_parseMap, ?_⟩, fun e => ⟨first_fault_of_parseMap, ?_⟩⟩
  · rintro ⟨hfaultless, hmap⟩
    cases hparse : parseMap text with
    | ok map' =>
      have hmap' := (faultless_of_parseMap hparse).2
      refine congrArg Except.ok (Finmap.ext_lookup fun key => Option.ext fun next => ?_)
      rw [hmap', hmap]
    | error e =>
      obtain ⟨front, line, back, name, fault, hsplit, -, hfault, -⟩ :=
        first_fault_of_parseMap hparse
      have hline : line ∈ lines text := by
        rw [hsplit]
        exact List.mem_append_right _ List.mem_cons_self
      exact absurd hfault (hfaultless line hline name fault)
  · rintro ⟨front, line, back, name, fault, hsplit, hfront, hfault, rfl⟩
    exact parseMap_of_fault hsplit hfront hfault

/-! ### A store on a damaged file -/

/-- The error of a call whose load fails with `e`; an illegal offset is refused before the load. -/
def StoreCall.answerOnRefused (e : KafkaError) : StoreCall → KafkaError
  | .commit _ _ offset =>
    match nextOffsetOf offset with
    | .error refused => refused
    | .ok _ => e
  | .committed _ _ => e

variable {path : FilePath} {env : ℕ → Outcome}

/-- A call on a file that is refused fails, and changes nothing. -/
theorem answer_of_refused (store : FileOffsetStore) (henv : ∀ n, (env n).IsOk) {fs : OffsetFs}
    {e : KafkaError} (hfolder : fs.folder store.path = false)
    (hrefused : decodeFile (fs.contents store.path) = .error e) (call : StoreCall)
    (n : ℕ) : ∃ n', run performFile env (store.answer call) n fs =
      (.error (call.answerOnRefused e), n', fs) := by
  have hload : loadResult (fs.folder store.path) (fs.contents store.path) (env n)
      (env (n + 1)) = .error e := by
    rw [hfolder, loadResult_of_ok (henv n) (henv (n + 1)), hrefused]
  cases call with
  | committed topic partition =>
    obtain ⟨n', hrun⟩ := run_committed store topic partition env n fs
    rw [hload] at hrun
    refine ⟨n', ?_⟩
    rw [FileOffsetStore.answer, run_bind, hrun]
    rfl
  | commit topic partition offset =>
    rw [StoreCall.answerOnRefused, FileOffsetStore.answer, run_bind]
    cases hnext : nextOffsetOf offset with
    | error refused => exact ⟨n, by rw [run_commit_of_error store topic partition hnext]⟩
    | ok next =>
      obtain ⟨n', -, hrun⟩ := run_commit_of_ok store topic partition hnext env n fs
      rw [hload] at hrun
      exact ⟨n', by rw [hrun]⟩

/-- A run on a file that is refused changes nothing. -/
theorem fileAfter_of_refused (henv : ∀ n, (env n).IsOk) {fs : OffsetFs} {e : KafkaError}
    (hfolder : fs.folder path = false)
    (hrefused : decodeFile (fs.contents path) = .error e) (steps : List ClientStep) :
    ∃ n, fileAfter env ⟨⟨path⟩, fs, 0⟩ steps = ⟨⟨path⟩, fs, n⟩ := by
  induction steps using List.reverseRecOn with
  | nil => exact ⟨0, rfl⟩
  | append_singleton steps step ih =>
    obtain ⟨n, hafter⟩ := ih
    rw [fileAfter, List.foldl_append]
    show ∃ n, (fileAfter env ⟨⟨path⟩, fs, 0⟩ steps).after env step = _
    rw [hafter]
    cases step with
    | reopen => exact ⟨n, rfl⟩
    | call made =>
      obtain ⟨n', hrun⟩ := answer_of_refused ⟨path⟩ henv hfolder hrefused made n
      refine ⟨n', ?_⟩
      rw [FileSession.after, FileSession.answer, hrun]

/-- **A damaged file is kept.**  If a line of the file is at fault, and every file-system call
succeeds, then after any calls on the store, and whether or not it was opened again in between, the
file system is as it was, and the next call fails: with the text of the first fault, unless its
offset is illegal. -/
theorem damaged_file_kept {fs : OffsetFs} {bytes : List UInt8} {text line : Text}
    {front back : List Text} {name : String} {fault : FieldFault} (henv : ∀ n, (env n).IsOk)
    (hbytes : fs.contents path = some bytes) (htext : decodeUtf8 bytes = some text)
    (hsplit : lines text = front ++ line :: back) (hfront : Faultless front)
    (hfault : LineFault line name fault) (steps : List ClientStep) (call : StoreCall) :
    let file := fileAfter env ⟨⟨path⟩, fs, 0⟩ steps
    file.fs = fs ∧ (file.answer env call).2.fs = fs ∧ (file.answer env call).1 =
      .error (call.answerOnRefused (.config (fault.message (front.length + 1) name))) := by
  intro file
  have hrefused : decodeFile (fs.contents path) =
      .error (.config (fault.message (front.length + 1) name)) := by
    rw [hbytes, decodeFile, htext]
    exact parseMap_of_fault hsplit hfront hfault
  have hfolder : fs.folder path = false := folder_of_contents hbytes
  obtain ⟨n, hfile⟩ := fileAfter_of_refused henv hfolder hrefused steps
  obtain ⟨n', hrun⟩ := answer_of_refused ⟨path⟩ henv hfolder hrefused call n
  have hanswer : file.answer env call = (.error (call.answerOnRefused (.config
      (fault.message (front.length + 1) name))), ⟨⟨path⟩, fs, n'⟩) := by
    show (fileAfter env ⟨⟨path⟩, fs, 0⟩ steps).answer env call = _
    rw [hfile, FileSession.answer, hrun]
  exact ⟨congrArg FileSession.fs hfile, congrArg (fun x => x.2.fs) hanswer,
    congrArg Prod.fst hanswer⟩

/-- The partition in the second line is no number. -/
def damagedText : Text := "# positions\norders\tzero\t5".toList

theorem damaged_file_kept_orders :
    let fs : OffsetFs := oneFile offsetsTsv (encodeUtf8 damagedText)
    let file := fileAfter (fun _ => .ok 0) ⟨⟨offsetsTsv⟩, fs, 0⟩
      [.call (.commit "orders" 0 (.of 7)), .reopen]
    file.fs = fs ∧ (file.answer (fun _ => .ok 0) (.committed "orders" 0)).1 =
      .error (.config (FieldFault.illegal.message 2 "partition")) := by
  have hcomment : Faultless ["# positions".toList] := by
    intro line hline name fault hfault
    rw [List.mem_singleton.mp hline] at hfault
    cases hfault with
    | partition hfields => exact hfields.not_comment (by decide)
    | nextOffset hfields => exact hfields.not_comment (by decide)
  have hfault : LineFault "orders\tzero\t5".toList "partition" .illegal :=
    @LineFault.partition _ "orders".toList ["zero".toList, "5".toList] _
      ⟨by decide, by decide, by decide⟩ (.illegal (by decide))
  have hbytes := @contents_oneFile offsetsTsv (encodeUtf8 damagedText)
  have hsplit : lines damagedText =
      ["# positions".toList] ++ "orders\tzero\t5".toList :: [] := by decide
  have hkept := @damaged_file_kept offsetsTsv (fun _ => .ok 0) _ _ _ _ _ _ _ _ (fun _ => trivial)
    hbytes (decodeUtf8_encodeUtf8 damagedText) hsplit hcomment hfault
    [.call (.commit "orders" 0 (.of 7)), .reopen] (.committed "orders" 0)
  exact ⟨hkept.1, hkept.2.2⟩

end Kafkax
