import Mathlib.Data.Char
import Mathlib.Data.Multiset.Sort
import Mathlib.Data.List.Lex
import Kafkax.Library.Text
import Kafkax.OffsetStore

/-!
# The text format of the offset file

One line `topic<TAB>partition<TAB>next_offset` for each entry, sorted, joined without a final
line break.  Reading trims every line, skips empty lines and comments, takes the first three
fields, and lets a later line replace an earlier one.

The format is faithful for a topic that is not empty, does not start with white space or `#` and
contains neither tab nor line break.  Two facts carry everything built on the format:

* `parseMap_renderMap`: a table of faithful topics is read back as it was written;
* `faithful_of_parseMap`: whatever the text, every topic of the table read from it is faithful.

Together they give the exact domain of the format, `format_domain`.
-/

namespace Kafkax

open BoundedIntegers LineText
open scoped List

/-! ### Rendering -/

/-- `format!("{topic}\t{partition}\t{next}")` -/
def formatLine (key : Key) (next : I64) : Text :=
  key.1.toList ++ '\t' :: (toDecimal key.2.val ++ '\t' :: toDecimal next.val)

/-- The body `save_map` writes: the lines of the table, sorted and joined. -/
def renderMap (map : OffsetMap) : Text :=
  joinLines ((map.entries.map fun entry => formatLine entry.1 entry.2).sort (· ≤ ·))

/-! ### Parsing -/

/-- `parse_field`: the trimmed field, parsed; a missing and an illegal field are errors. -/
def parseField {lo hi : ℤ} (value : Option Text) (lineno : ℕ) (name : String) :
    KafkaResult (BoundedInt lo hi) :=
  match value with
  | none => .error (.config s!"offset 行 {lineno}: 缺少 {name}")
  | some raw =>
    match fromDecimal lo hi (trim raw) with
    | none => .error (.config s!"offset 行 {lineno}: {name} 非法")
    | some n => .ok n

/-- The body of the loop of `load_map`: one line of the file. -/
def loadLine (index : ℕ) (line : Text) (map : OffsetMap) : KafkaResult OffsetMap :=
  let line := trim line
  if line.isEmpty || line.head? == some '#' then .ok map
  else do
    let lineno := index + 1
    let parts := line.splitOn '\t'
    let topic ← match parts[0]? with
      | some topic => .ok topic
      | none => .error (.config s!"offset 行 {lineno}: 缺少 topic")
    let partition : I32 ← parseField parts[1]? lineno "partition"
    let next : I64 ← parseField parts[2]? lineno "next_offset"
    return map.insert (String.ofList topic, partition) next

/-- The loop of `load_map` from the line number `index` on. -/
def loadLines : ℕ → List Text → OffsetMap → KafkaResult OffsetMap
  | _, [], map => .ok map
  | index, line :: rest, map => do
    let map ← loadLine index line map
    loadLines (index + 1) rest map

/-- The table a text denotes. -/
def parseMap (text : Text) : KafkaResult OffsetMap := loadLines 0 (lines text) ∅

/-! ### Faithful topics -/

/-- The topics the format keeps. -/
structure FaithfulTopic (topic : String) : Prop where
  ne_nil : topic.toList ≠ []
  head_not_space : ∀ c, topic.toList.head? = some c → isWhitespace c = false
  head_not_comment : topic.toList.head? ≠ some '#'
  no_tab : '\t' ∉ topic.toList
  no_break : '\n' ∉ topic.toList

instance (topic : String) : Decidable (FaithfulTopic topic) :=
  decidable_of_iff
    (topic.toList ≠ [] ∧ topic.toList.head?.all (fun c => !isWhitespace c) ∧
      topic.toList.head? ≠ some '#' ∧ '\t' ∉ topic.toList ∧ '\n' ∉ topic.toList) <| by
    constructor
    · intro h
      refine ⟨h.1, fun c hc => ?_, h.2.2.1, h.2.2.2.1, h.2.2.2.2⟩
      have hall := h.2.1
      rw [hc] at hall
      simpa using hall
    · intro h
      refine ⟨h.ne_nil, ?_, h.head_not_comment, h.no_tab, h.no_break⟩
      cases hc : topic.toList.head? with
      | none => rfl
      | some c => simpa using h.head_not_space c hc

/-- Every topic of the table is faithful. -/
def FaithfulMap (map : OffsetMap) : Prop := ∀ key ∈ map, FaithfulTopic key.1

/-! ### One line back and forth -/

theorem last_toDecimal (n : ℤ) : ∃ c, (toDecimal n).getLast? = some c ∧ c.isDigit := by
  have hdigits : ∃ c, (Nat.toDigits 10 n.natAbs).getLast? = some c ∧ c.isDigit := by
    have hne : Nat.toDigits 10 n.natAbs ≠ [] := Nat.toDigits_ne_nil
    exact ⟨_, List.getLast?_eq_some_getLast hne, isDigit_of_mem_toDigits (List.getLast_mem hne)⟩
  obtain ⟨c, hc, hdig⟩ := hdigits
  refine ⟨c, ?_, hdig⟩
  rw [toDecimal]
  split
  · rw [List.getLast?_cons, hc, Option.getD_some]
  · exact hc

theorem not_space_of_mem_toDecimal {n : ℤ} {c : Char} (h : c ∈ toDecimal n) :
    isWhitespace c = false := by
  rcases mem_toDecimal h with h | h
  · rw [h]
    rfl
  · exact isWhitespace_of_isDigit h

theorem not_mem_toDecimal_of_space {n : ℤ} {c : Char} (h : isWhitespace c = true) :
    c ∉ toDecimal n := by
  intro hmem
  rw [not_space_of_mem_toDecimal hmem] at h
  exact Bool.false_ne_true h

/-- A decimal is its own trimming. -/
theorem trim_toDecimal (n : ℤ) : trim (toDecimal n) = toDecimal n := by
  apply trim_eq_self
  · intro c hc
    exact not_space_of_mem_toDecimal (List.mem_of_mem_head? hc)
  · intro c hc
    exact not_space_of_mem_toDecimal (List.mem_of_getLast? hc)

/-- A formatted line ends with a digit. -/
theorem last_formatLine (key : Key) (next : I64) :
    ∃ c, (formatLine key next).getLast? = some c ∧ c.isDigit := by
  obtain ⟨c, hc, hdig⟩ := last_toDecimal next.val
  refine ⟨c, ?_, hdig⟩
  rw [formatLine, List.getLast?_append, List.getLast?_cons, List.getLast?_append,
    List.getLast?_cons, hc]
  rfl

theorem head_formatLine {key : Key} (h : FaithfulTopic key.1) (next : I64) :
    (formatLine key next).head? = key.1.toList.head? := by
  rw [formatLine, List.head?_append_of_ne_nil _ h.ne_nil]

/-- A formatted line of a faithful topic survives being joined with others. -/
theorem isLine_formatLine {key : Key} (h : FaithfulTopic key.1) (next : I64) :
    IsLine (formatLine key next) := by
  obtain ⟨c, hc, hdig⟩ := last_formatLine key next
  refine ⟨?_, ?_, ?_⟩
  · intro hnil
    rw [hnil] at hc
    exact absurd hc (by simp)
  · intro hmem
    have hbreak : ∀ n : ℤ, '\n' ∉ toDecimal n := fun n => not_mem_toDecimal_of_space (by rfl)
    rcases List.mem_append.mp hmem with hmem | hmem
    · exact h.no_break hmem
    · simp only [List.mem_cons, List.mem_append, hbreak, or_false] at hmem
      exact absurd hmem (by decide)
  · intro hreturn
    rw [hc] at hreturn
    rw [Option.some.inj hreturn] at hdig
    exact absurd hdig (by decide)

theorem trim_formatLine {key : Key} (h : FaithfulTopic key.1) (next : I64) :
    trim (formatLine key next) = formatLine key next := by
  apply trim_eq_self
  · intro c hc
    rw [head_formatLine h] at hc
    exact h.head_not_space c hc
  · intro c hc
    obtain ⟨d, hd, hdig⟩ := last_formatLine key next
    rw [hd] at hc
    rw [← Option.some.inj hc]
    exact isWhitespace_of_isDigit hdig

theorem splitOn_formatLine {key : Key} (h : FaithfulTopic key.1) (next : I64) :
    (formatLine key next).splitOn '\t' =
      [key.1.toList, toDecimal key.2.val, toDecimal next.val] := by
  have htab : ∀ n : ℤ, '\t' ∉ toDecimal n := fun n => not_mem_toDecimal_of_space (by rfl)
  rw [formatLine, List.splitOn_append_cons_self_of_not_mem h.no_tab,
    List.splitOn_append_cons_self_of_not_mem (htab _), List.splitOn_eq_singleton (htab _)]

theorem parseField_toDecimal {lo hi : ℤ} (n : BoundedInt lo hi) (lineno : ℕ) (name : String) :
    parseField (some (toDecimal n.val)) lineno name = .ok n := by
  rw [parseField]
  simp only [trim_toDecimal, fromDecimal_toDecimal]

/-- **A formatted line is read back as the entry it was made from.** -/
theorem loadLine_formatLine {key : Key} (h : FaithfulTopic key.1) (next : I64) (index : ℕ)
    (map : OffsetMap) : loadLine index (formatLine key next) map = .ok (map.insert key next) := by
  have hne : (formatLine key next).isEmpty = false :=
    List.isEmpty_eq_false_iff.mpr (isLine_formatLine h next).ne_nil
  have hcomment : ((formatLine key next).head? == some '#') = false := by
    rw [head_formatLine h]
    exact beq_eq_false_iff_ne.mpr h.head_not_comment
  rw [loadLine]
  simp only [trim_formatLine h, hne, hcomment, Bool.or_self, Bool.false_eq_true, if_false,
    splitOn_formatLine h, List.getElem?_cons_zero, List.getElem?_cons_succ, parseField_toDecimal]
  show Except.ok (Finmap.insert (String.ofList key.1.toList, key.2) next map) = _
  rw [String.ofList_toList]

/-! ### The whole table -/

/-- The table a list of entries denotes, later entries replacing earlier ones. -/
def insertAll (entries : List (Sigma fun _ : Key => I64)) (map : OffsetMap) : OffsetMap :=
  entries.foldl (fun map entry => map.insert entry.1 entry.2) map

theorem loadLines_map_formatLine (entries : List (Sigma fun _ : Key => I64))
    (h : ∀ entry ∈ entries, FaithfulTopic entry.1.1) (index : ℕ) (map : OffsetMap) :
    loadLines index (entries.map fun entry => formatLine entry.1 entry.2) map =
      .ok (insertAll entries map) := by
  induction entries generalizing index map with
  | nil => rfl
  | cons entry rest ih =>
    rw [List.map_cons, loadLines, loadLine_formatLine (h entry List.mem_cons_self)]
    exact ih (fun e he => h e (List.mem_cons_of_mem _ he)) (index + 1) _

theorem lookup_insertAll_of_not_mem {entries : List (Sigma fun _ : Key => I64)} {key : Key}
    (h : key ∉ entries.keys) (map : OffsetMap) :
    (insertAll entries map).lookup key = map.lookup key := by
  induction entries generalizing map with
  | nil => rfl
  | cons entry rest ih =>
    rw [List.keys_cons, List.mem_cons, not_or] at h
    show (insertAll rest (map.insert entry.1 entry.2)).lookup key = _
    rw [ih h.2, Finmap.lookup_insert_of_ne _ h.1]

theorem lookup_insertAll_of_mem {entries : List (Sigma fun _ : Key => I64)}
    (hnodup : entries.NodupKeys) {key : Key} {next : I64} (h : ⟨key, next⟩ ∈ entries)
    (map : OffsetMap) : (insertAll entries map).lookup key = some next := by
  induction entries generalizing map with
  | nil => exact absurd h List.not_mem_nil
  | cons entry rest ih =>
    rw [List.nodupKeys_cons] at hnodup
    show (insertAll rest (map.insert entry.1 entry.2)).lookup key = _
    rcases List.mem_cons.mp h with h | h
    · rw [← h] at hnodup ⊢
      rw [lookup_insertAll_of_not_mem hnodup.1, Finmap.lookup_insert]
    · exact ih hnodup.2 h _

/-- The entries of a table, in any order, denote the table. -/
theorem insertAll_entries {map : OffsetMap} {entries : List (Sigma fun _ : Key => I64)}
    (h : (entries : Multiset (Sigma fun _ : Key => I64)) = map.entries) :
    insertAll entries ∅ = map := by
  have hnodup : entries.NodupKeys := by
    have hkeys := map.nodupKeys
    rw [← h] at hkeys
    exact hkeys
  have hmap : map = AList.toFinmap ⟨entries, hnodup⟩ := Finmap.ext h.symm
  refine Finmap.ext_lookup fun key => ?_
  rw [hmap, Finmap.lookup_toFinmap]
  by_cases hkey : key ∈ entries.keys
  · obtain ⟨next, hmem⟩ := List.exists_of_mem_keys hkey
    rw [lookup_insertAll_of_mem hnodup hmem]
    exact (List.mem_dlookup hnodup hmem).symm
  · rw [lookup_insertAll_of_not_mem hkey, Finmap.lookup_empty]
    exact (List.dlookup_eq_none.mpr hkey).symm

/-- The rendered lines are the formatted entries, in some order. -/
theorem exists_entries_sorted (map : OffsetMap) :
    ∃ entries : List (Sigma fun _ : Key => I64),
      (entries : Multiset (Sigma fun _ : Key => I64)) = map.entries ∧
      (map.entries.map fun entry => formatLine entry.1 entry.2).sort (· ≤ ·) =
        entries.map fun entry => formatLine entry.1 entry.2 := by
  obtain ⟨given, hgiven⟩ := Quotient.exists_rep map.entries
  have hperm : (map.entries.map fun entry => formatLine entry.1 entry.2).sort (· ≤ ·) ~
      given.map fun entry => formatLine entry.1 entry.2 := by
    rw [← Multiset.coe_eq_coe, Multiset.sort_eq, ← hgiven]
    rfl
  have hcomp := List.eq_map_comp_perm fun entry : Sigma (fun _ : Key => I64) =>
    formatLine entry.1 entry.2
  obtain ⟨entries, hsorted, hentries⟩ := (congrFun₂ hcomp _ _).mpr hperm
  exact ⟨entries, (Multiset.coe_eq_coe.mpr hentries).trans hgiven, hsorted⟩

theorem faithful_of_mem_entries {map : OffsetMap} (h : FaithfulMap map)
    {entry : Sigma fun _ : Key => I64} (hentry : entry ∈ map.entries) :
    FaithfulTopic entry.1.1 :=
  h entry.1 (Finmap.mem_def.mpr (Multiset.mem_map_of_mem Sigma.fst hentry))

/-- **The round trip of the format.**  A table of faithful topics is read back as it was
written. -/
theorem parseMap_renderMap {map : OffsetMap} (h : FaithfulMap map) :
    parseMap (renderMap map) = .ok map := by
  obtain ⟨entries, hentries, hsorted⟩ := exists_entries_sorted map
  have hfaithful : ∀ entry ∈ entries, FaithfulTopic entry.1.1 := by
    intro entry hentry
    exact faithful_of_mem_entries h (hentries ▸ Multiset.mem_coe.mpr hentry)
  have hlines : ∀ line ∈ entries.map (fun entry => formatLine entry.1 entry.2), IsLine line := by
    intro line hline
    obtain ⟨entry, hentry, rfl⟩ := List.mem_map.mp hline
    exact isLine_formatLine (hfaithful entry hentry) entry.2
  rw [parseMap, renderMap, hsorted, lines_joinLines hlines,
    loadLines_map_formatLine entries hfaithful, insertAll_entries hentries]

/-! ### What an arbitrary text can denote -/

/-- The first field of a trimmed line that is neither empty nor a comment is a faithful topic. -/
theorem faithful_first_field {line topic : Text} {rest : List Text}
    (hbreak : '\n' ∉ line) (hne : trim line ≠ []) (hcomment : (trim line).head? ≠ some '#')
    (hsplit : (trim line).splitOn '\t' = topic :: rest) :
    FaithfulTopic (String.ofList topic) := by
  have htopic : topic ∈ (trim line).splitOn '\t' := hsplit ▸ List.mem_cons_self
  have hhead : topic ≠ [] ∧ topic.head? = (trim line).head? := by
    cases htrim : trim line with
    | nil => exact absurd htrim hne
    | cons c cs =>
      -- a tab is white space, so a trimmed line does not start with the separator
      have hc : c ≠ '\t' := by
        intro heq
        have hspace := head?_trim (s := line) (c := c) (by rw [htrim]; rfl)
        rw [heq] at hspace
        exact absurd hspace (by decide)
      obtain ⟨first, others, hfirst⟩ :
          ∃ first others, (c :: cs).splitOn '\t' = (c :: first) :: others := splitOn_cons_of_ne hc
      rw [htrim, hfirst] at hsplit
      rw [← (List.cons.inj hsplit).1]
      exact ⟨List.cons_ne_nil _ _, rfl⟩
  refine ⟨?_, ?_, ?_, ?_, ?_⟩ <;> rw [String.toList_ofList]
  · exact hhead.1
  · intro c hc
    exact head?_trim (hhead.2 ▸ hc)
  · rw [hhead.2]
    exact hcomment
  · exact not_mem_of_mem_splitOn htopic
  · intro hmem
    exact hbreak (mem_of_mem_trim (mem_of_mem_splitOn htopic hmem))

/-- A line that is read adds at most one entry, under the topic of its first field. -/
theorem loadLine_eq_ok {index : ℕ} {line : Text} {map map' : OffsetMap}
    (h : loadLine index line map = .ok map') :
    map' = map ∨ ∃ topic rest partition next, (trim line).splitOn '\t' = topic :: rest ∧
      trim line ≠ [] ∧ (trim line).head? ≠ some '#' ∧
      map' = map.insert (String.ofList topic, partition) next := by
  rw [loadLine] at h
  simp only at h
  split at h
  · exact Or.inl (Except.ok.inj h).symm
  · rename_i hskip
    rw [Bool.or_eq_true, not_or, List.isEmpty_iff, beq_iff_eq] at hskip
    cases hsplit : (trim line).splitOn '\t' with
    | nil => exact absurd hsplit (List.splitOn_ne_nil _ _)
    | cons topic rest =>
      rw [hsplit] at h
      simp only [List.getElem?_cons_zero, List.getElem?_cons_succ] at h
      obtain ⟨partition, next, hmap'⟩ : ∃ partition next,
          map' = map.insert (String.ofList topic, partition) next := by
        cases hpartition : (parseField rest[0]? (index + 1) "partition" : KafkaResult I32) with
        | error e =>
          rw [hpartition] at h
          exact absurd h (by intro h; cases h)
        | ok partition =>
          rw [hpartition] at h
          cases hnext : (parseField rest[1]? (index + 1) "next_offset" : KafkaResult I64) with
          | error e =>
            rw [hnext] at h
            exact absurd h (by intro h; cases h)
          | ok next =>
            rw [hnext] at h
            exact ⟨partition, next, (Except.ok.inj h).symm⟩
      exact Or.inr ⟨topic, rest, partition, next, rfl, hskip.1, hskip.2, hmap'⟩

theorem faithful_of_loadLine {index : ℕ} {line : Text} {map map' : OffsetMap}
    (hbreak : '\n' ∉ line) (hmap : FaithfulMap map) (h : loadLine index line map = .ok map') :
    FaithfulMap map' := by
  rcases loadLine_eq_ok h with heq | ⟨topic, rest, partition, next, hsplit, hne, hcomment, heq⟩
  · rw [heq]
    exact hmap
  · intro key hkey
    rw [heq, Finmap.mem_insert] at hkey
    rcases hkey with hkey | hkey
    · rw [hkey]
      exact faithful_first_field hbreak hne hcomment hsplit
    · exact hmap key hkey

theorem faithful_of_loadLines {index : ℕ} {ls : List Text} {map map' : OffsetMap}
    (hbreak : ∀ line ∈ ls, '\n' ∉ line) (hmap : FaithfulMap map)
    (h : loadLines index ls map = .ok map') : FaithfulMap map' := by
  induction ls generalizing index map with
  | nil =>
    rw [← Except.ok.inj h]
    exact hmap
  | cons line rest ih =>
    rw [loadLines] at h
    cases hline : loadLine index line map with
    | error e =>
      rw [hline] at h
      exact absurd h (by intro h; cases h)
    | ok mid =>
      rw [hline] at h
      exact ih (fun l hl => hbreak l (List.mem_cons_of_mem _ hl))
        (faithful_of_loadLine (hbreak line List.mem_cons_self) hmap hline) h

theorem faithful_empty : FaithfulMap ∅ := fun _ hkey => (Finmap.notMem_empty hkey).elim

/-- **Whatever the text, the topics of the table read from it are faithful.** -/
theorem faithful_of_parseMap {text : Text} {map : OffsetMap} (h : parseMap text = .ok map) :
    FaithfulMap map :=
  faithful_of_loadLines (fun _ hline => not_mem_of_mem_lines hline) faithful_empty h

/-- **The exact domain of the format.**  A table survives being written and read back if and only
if all its topics are faithful.  Whatever the text, the table read from it is in the domain, so
reading, writing and reading again gives the same table as reading once. -/
theorem format_domain :
    (∀ map : OffsetMap, parseMap (renderMap map) = .ok map ↔ ∀ key ∈ map, FaithfulTopic key.1) ∧
    ∀ (text : Text) (map : OffsetMap), parseMap text = .ok map →
      (∀ key ∈ map, FaithfulTopic key.1) ∧ parseMap (renderMap map) = .ok map := by
  refine ⟨fun map => ⟨faithful_of_parseMap, parseMap_renderMap⟩, fun text map hparse => ?_⟩
  have hfaithful : FaithfulMap map := faithful_of_parseMap hparse
  exact ⟨hfaithful, parseMap_renderMap hfaithful⟩

theorem FaithfulMap.raise {map : OffsetMap} (h : FaithfulMap map) {key : Key}
    (hkey : FaithfulTopic key.1) (next : I64) : FaithfulMap (map.raise key next) := by
  intro other hother
  rcases mem_raise.mp hother with heq | hmem
  · rw [heq]
    exact hkey
  · exact h other hmem

end Kafkax
