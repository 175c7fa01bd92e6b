import Mathlib.Data.List.DropRight
import Mathlib.Data.List.Basic

/-!
# Line-oriented text

Text is a list of Unicode scalar values.  The operations are the string operations a
line-oriented text format is read and written with: trimming white space, splitting a text into
lines (a final line break is optional, a carriage return before a line break belongs to the
break), splitting a line into fields, from the left or from the right, and joining lines with a
line break between them.  On disk a text is its UTF-8 encoding.

The round trips are `lines_joinLines` and `decodeUtf8_encodeUtf8`; `not_mem_of_mem_lines`,
`not_mem_of_mem_splitOn` and `head?_trim` say what the pieces of an arbitrary text look like.
-/

namespace Kafkax.LineText

/-- A text: its Unicode scalar values in order. -/
abbrev Text := List Char

/-- The Unicode property `White_Space`. -/
def isWhitespace (c : Char) : Bool :=
  let n := c.toNat
  (9 ≤ n && n ≤ 13) || n == 0x20 || n == 0x85 || n == 0xA0 || n == 0x1680 ||
    (0x2000 ≤ n && n ≤ 0x200A) || n == 0x2028 || n == 0x2029 || n == 0x202F || n == 0x205F ||
    n == 0x3000

/-- The text without its leading and trailing white space. -/
def trim (s : Text) : Text := (s.dropWhile isWhitespace).rdropWhile isWhitespace

/-- A line without the carriage return that belongs to its line break. -/
def stripCarriageReturn (l : Text) : Text :=
  if l.getLast? = some '\r' then l.dropLast else l

/-- The lines of a text.  What follows the last line break is a line only if it is not empty, and
keeps a trailing carriage return. -/
def lines (s : Text) : List Text :=
  let parts := s.splitOn '\n'
  let ended := parts.dropLast.map stripCarriageReturn
  match parts.getLast? with
  | some (c :: last) => ended ++ [c :: last]
  | _ => ended

/-- Lines joined with a line break between them and none at the end. -/
def joinLines (ls : List Text) : Text := ['\n'].intercalate ls

/-- The text before and after the last separator. -/
def rsplitOnce (sep : Char) : Text → Option (Text × Text)
  | [] => none
  | c :: cs =>
    match rsplitOnce sep cs with
    | some (before, after) => some (c :: before, after)
    | none => if c = sep then some ([], cs) else none

/-- At most `n` pieces, the last one first; the last piece of the result is what is left. -/
def rsplitn : ℕ → Char → Text → List Text
  | 0, _, _ => []
  | 1, _, s => [s]
  | n + 2, sep, s =>
    match rsplitOnce sep s with
    | some (before, after) => after :: rsplitn (n + 1) sep before
    | none => [s]

/-! ### Trimming -/

theorem isWhitespace_of_isDigit {c : Char} (h : c.isDigit) : isWhitespace c = false := by
  have hdig : 48 ≤ c.toNat ∧ c.toNat ≤ 57 := by
    simp only [Char.isDigit, Bool.and_eq_true, decide_eq_true_eq, ge_iff_le,
      UInt32.le_iff_toNat_le] at h
    exact h
  simp only [isWhitespace, Bool.or_eq_false_iff, Bool.and_eq_false_iff, beq_eq_false_iff_ne,
    decide_eq_false_iff_not]
  omega

/-- A text that neither starts nor ends with white space is its own trimming. -/
theorem trim_eq_self {s : Text} (hhead : ∀ c, s.head? = some c → isWhitespace c = false)
    (hlast : ∀ c, s.getLast? = some c → isWhitespace c = false) : trim s = s := by
  have hdrop : s.dropWhile isWhitespace = s := by
    cases s with
    | nil => rfl
    | cons c cs => rw [List.dropWhile_cons_of_neg (by rw [hhead c rfl]; exact Bool.false_ne_true)]
  rw [trim, hdrop, List.rdropWhile_eq_self_iff]
  intro hne
  rw [hlast _ (List.getLast?_eq_some_getLast hne)]
  exact Bool.false_ne_true

/-- What is left of a trimmed text starts with something other than white space. -/
theorem head?_trim {s : Text} {c : Char} (h : (trim s).head? = some c) :
    isWhitespace c = false := by
  obtain ⟨suffix, hprefix⟩ := List.rdropWhile_prefix isWhitespace (s.dropWhile isWhitespace)
  have hhead : (s.dropWhile isWhitespace).head? = some c := by
    rw [← hprefix, List.head?_append, show (List.rdropWhile isWhitespace
      (s.dropWhile isWhitespace)).head? = some c from h, Option.some_or]
  have hnot := List.head?_dropWhile_not isWhitespace s
  rw [hhead] at hnot
  simpa using hnot

theorem mem_of_mem_trim {s : Text} {c : Char} (h : c ∈ trim s) : c ∈ s :=
  (List.dropWhile_suffix _).subset ((List.rdropWhile_prefix _ _).subset h)

/-- What is left of a trimmed text ends with something other than white space. -/
theorem getLast?_trim {s : Text} {c : Char} (h : (trim s).getLast? = some c) :
    isWhitespace c = false := by
  have hne : trim s ≠ [] := fun hnil => by
    rw [hnil] at h
    exact nomatch h
  have hlast := List.rdropWhile_last_not isWhitespace (s.dropWhile isWhitespace) hne
  rw [List.getLast?_eq_some_getLast hne] at h
  rw [← Option.some.inj h]
  exact Bool.not_eq_true _ ▸ hlast

/-- Trimming once is enough. -/
theorem trim_trim (s : Text) : trim (trim s) = trim s :=
  trim_eq_self (fun _ => head?_trim) fun _ => getLast?_trim

/-- A text that ends without white space keeps its end. -/
theorem trim_append {s t : Text} (ht : ∀ c ∈ t, isWhitespace c = false) :
    trim (s ++ t) = if t = [] then trim s else s.dropWhile isWhitespace ++ t := by
  by_cases hnil : t = []
  · rw [if_pos hnil, hnil, List.append_nil]
  · rw [if_neg hnil]
    have hdrop : (s ++ t).dropWhile isWhitespace = s.dropWhile isWhitespace ++ t := by
      rw [List.dropWhile_append]
      split
      · rename_i hempty
        rw [List.isEmpty_iff.mp hempty, List.nil_append]
        cases t with
        | nil => exact absurd rfl hnil
        | cons c cs =>
          rw [List.dropWhile_cons_of_neg (by
            rw [ht c List.mem_cons_self]
            exact Bool.false_ne_true)]
      · rfl
    rw [trim, hdrop, List.rdropWhile_eq_self_iff]
    intro hne
    rw [List.getLast_append_of_ne_nil hne hnil, ht _ (List.getLast_mem hnil)]
    exact Bool.false_ne_true

/-- Trimming keeps the ends without white space of a text apart. -/
theorem trim_append_inj {s t u : Text} (ht : ∀ c ∈ t, isWhitespace c = false)
    (hu : ∀ c ∈ u, isWhitespace c = false) (h : trim (s ++ t) = trim (s ++ u)) : t = u := by
  have hshort : (trim s).length ≤ (s.dropWhile isWhitespace).length :=
    (List.rdropWhile_prefix _ _).length_le
  rw [trim_append ht, trim_append hu] at h
  by_cases htn : t = [] <;> by_cases hun : u = []
  · rw [htn, hun]
  · rw [if_pos htn, if_neg hun] at h
    have hlen := congrArg List.length h
    rw [List.length_append] at hlen
    have hpos := List.length_pos_of_ne_nil hun
    omega
  · rw [if_neg htn, if_pos hun] at h
    have hlen := congrArg List.length h
    rw [List.length_append] at hlen
    have hpos := List.length_pos_of_ne_nil htn
    omega
  · rw [if_neg htn, if_neg hun] at h
    exact List.append_cancel_left h

/-! ### Splitting -/

/-- No piece of a split contains the separator. -/
theorem not_mem_of_mem_splitOn {sep : Char} {s piece : Text} (h : piece ∈ s.splitOn sep) :
    sep ∉ piece := by
  induction s generalizing piece with
  | nil =>
    rw [List.splitOn_nil, List.mem_singleton] at h
    rw [h]
    exact List.not_mem_nil
  | cons c cs ih =>
    rw [List.splitOn_cons_eq_if_modifyHead] at h
    split at h
    · rcases List.mem_cons.mp h with rfl | h
      · exact List.not_mem_nil
      · exact ih h
    · rename_i hne
      cases hpieces : cs.splitOn sep with
      | nil => exact absurd hpieces (List.splitOn_ne_nil _ _)
      | cons first rest =>
        rw [hpieces, List.modifyHead_cons] at h
        rcases List.mem_cons.mp h with rfl | h
        · rw [List.mem_cons, not_or]
          refine ⟨fun heq => hne (by rw [heq]; exact BEq.rfl), ih ?_⟩
          rw [hpieces]
          exact List.mem_cons_self
        · exact ih (by rw [hpieces]; exact List.mem_cons_of_mem _ h)

/-- The first piece starts where the text starts, unless the text starts with the separator. -/
theorem splitOn_cons_of_ne {sep c : Char} {cs : Text} (h : c ≠ sep) :
    ∃ first rest, (c :: cs).splitOn sep = (c :: first) :: rest := by
  rw [List.splitOn_cons_eq_if_modifyHead, if_neg (by simpa using h)]
  cases hpieces : cs.splitOn sep with
  | nil => exact absurd hpieces (List.splitOn_ne_nil _ _)
  | cons first rest => exact ⟨first, rest, List.modifyHead_cons⟩

theorem mem_of_mem_splitOn {sep c : Char} {s piece : Text} (h : piece ∈ s.splitOn sep)
    (hc : c ∈ piece) : c ∈ s := by
  have hjoin : [sep].intercalate (s.splitOn sep) = s := List.intercalate_splitOn sep
  rw [← hjoin]
  generalize s.splitOn sep = pieces at h
  induction pieces with
  | nil => exact absurd h List.not_mem_nil
  | cons first rest ih =>
    cases rest with
    | nil =>
      rw [List.mem_singleton] at h
      simpa [List.intercalate, h] using hc
    | cons second rest =>
      rw [List.intercalate_cons_cons]
      rcases List.mem_cons.mp h with rfl | h
      · exact List.mem_append_left _ (List.mem_append_left _ hc)
      · exact List.mem_append_right _ (ih h)

/-- The pieces of a text of joined texts are the pieces of each of them. -/
theorem splitOn_intercalate_flatMap {sep : Char} {texts : List Text} (h : texts ≠ []) :
    ([sep].intercalate texts).splitOn sep = texts.flatMap fun text => text.splitOn sep := by
  induction texts with
  | nil => exact absurd rfl h
  | cons first rest ih =>
    cases rest with
    | nil => rw [List.intercalate_singleton, List.flatMap_cons, List.flatMap_nil, List.append_nil]
    | cons second rest =>
      rw [List.intercalate_cons_cons, List.append_assoc, List.singleton_append,
        List.splitOn_append_cons_self, ih (List.cons_ne_nil _ _)]
      rfl

theorem intercalate_append_last (sep : Char) (front : List Text) (last after : Text) :
    [sep].intercalate (front ++ [last]) ++ after =
      [sep].intercalate (front ++ [last ++ after]) := by
  induction front with
  | nil => simp [List.intercalate]
  | cons piece rest ih =>
    cases rest with
    | nil => simp [List.intercalate]
    | cons next more =>
      simp only [List.cons_append, List.intercalate_cons_cons] at ih ⊢
      rw [List.append_assoc, ih]

theorem append_intercalate_head (sep : Char) (before first : Text) (rest : List Text) :
    before ++ [sep].intercalate (first :: rest) =
      [sep].intercalate ((before ++ first) :: rest) := by
  cases rest with
  | nil => simp [List.intercalate]
  | cons next more =>
    rw [List.intercalate_cons_cons, List.intercalate_cons_cons]
    simp only [List.append_assoc]

/-- What stands before a text goes to its first piece, what stands after it to its last. -/
theorem splitOn_surrounded {sep : Char} {before s after : Text} {front : List Text} {last : Text}
    (hbefore : sep ∉ before) (hafter : sep ∉ after) (h : s.splitOn sep = front ++ [last]) :
    (before ++ s ++ after).splitOn sep =
      (front ++ [last ++ after]).modifyHead (before ++ ·) := by
  have hpieces : ∀ piece ∈ front ++ [last], sep ∉ piece := fun piece hpiece =>
    not_mem_of_mem_splitOn (h ▸ hpiece)
  have hlast : ∀ piece ∈ front ++ [last ++ after], sep ∉ piece := by
    intro piece hpiece
    rcases List.mem_append.mp hpiece with hpiece | hpiece
    · exact hpieces piece (List.mem_append_left _ hpiece)
    · rw [List.mem_singleton.mp hpiece, List.mem_append, not_or]
      exact ⟨hpieces last (List.mem_append_right _ (List.mem_singleton.mpr rfl)), hafter⟩
  have hs : s = [sep].intercalate (front ++ [last]) := by
    rw [← h, List.intercalate_splitOn]
  rw [List.append_assoc, hs, intercalate_append_last]
  cases hall : front ++ [last ++ after] with
  | nil => exact absurd hall (by simp)
  | cons first rest =>
    rw [hall] at hlast
    rw [append_intercalate_head, List.modifyHead_cons]
    refine List.splitOn_intercalate sep (fun piece hpiece => ?_) (List.cons_ne_nil _ _)
    rcases List.mem_cons.mp hpiece with rfl | hpiece
    · rw [List.mem_append, not_or]
      exact ⟨hbefore, hlast first List.mem_cons_self⟩
    · exact hlast piece (List.mem_cons_of_mem _ hpiece)

/-! ### Splitting from the right -/

theorem rsplitOnce_eq_none {sep : Char} {s : Text} (h : sep ∉ s) : rsplitOnce sep s = none := by
  induction s with
  | nil => rfl
  | cons c cs ih =>
    rw [List.mem_cons, not_or] at h
    rw [rsplitOnce, ih h.2]
    exact if_neg (Ne.symm h.1)

theorem rsplitOnce_ne_none {sep : Char} {s : Text} (h : sep ∈ s) : rsplitOnce sep s ≠ none := by
  induction s with
  | nil => exact absurd h List.not_mem_nil
  | cons c cs ih =>
    rw [rsplitOnce]
    cases hcs : rsplitOnce sep cs with
    | some parts => simp
    | none =>
      have hc : sep = c := (List.mem_cons.mp h).resolve_right fun hmem => ih hmem hcs
      rw [hc]
      simp

theorem rsplitOnce_append {sep : Char} (before : Text) {after : Text} (h : sep ∉ after) :
    rsplitOnce sep (before ++ sep :: after) = some (before, after) := by
  induction before with
  | nil =>
    show rsplitOnce sep (sep :: after) = _
    rw [rsplitOnce, rsplitOnce_eq_none h]
    exact if_pos rfl
  | cons c cs ih =>
    show rsplitOnce sep (c :: (cs ++ sep :: after)) = _
    rw [rsplitOnce, ih]

/-- A split from the right is at the last separator. -/
theorem rsplitOnce_eq_some {sep : Char} {s before after : Text}
    (h : rsplitOnce sep s = some (before, after)) : s = before ++ sep :: after ∧ sep ∉ after := by
  induction s generalizing before after with
  | nil => exact absurd h (by simp [rsplitOnce])
  | cons c cs ih =>
    rw [rsplitOnce] at h
    cases hcs : rsplitOnce sep cs with
    | some parts =>
      obtain ⟨front, back⟩ := parts
      rw [hcs] at h
      obtain ⟨hbefore, hafter⟩ := Prod.mk.inj (Option.some.inj h)
      obtain ⟨hsplit, hnot⟩ := ih hcs
      rw [← hbefore, ← hafter, hsplit]
      exact ⟨rfl, hnot⟩
    | none =>
      rw [hcs] at h
      by_cases hc : c = sep
      · rw [if_pos hc] at h
        obtain ⟨hbefore, hafter⟩ := Prod.mk.inj (Option.some.inj h)
        rw [← hbefore, ← hafter, hc]
        exact ⟨rfl, fun hmem => rsplitOnce_ne_none hmem hcs⟩
      · rw [if_neg hc] at h
        exact absurd h (by simp)

/-! ### Lines -/

theorem mem_of_mem_stripCarriageReturn {l : Text} {c : Char} (h : c ∈ stripCarriageReturn l) :
    c ∈ l := by
  rw [stripCarriageReturn] at h
  split at h
  · exact List.dropLast_subset _ h
  · exact h

/-- No line contains a line break. -/
theorem not_mem_of_mem_lines {s l : Text} (h : l ∈ lines s) : '\n' ∉ l := by
  have hended : ∀ l ∈ (s.splitOn '\n').dropLast.map stripCarriageReturn, '\n' ∉ l := by
    intro l hl hmem
    obtain ⟨part, hpart, rfl⟩ := List.mem_map.mp hl
    exact not_mem_of_mem_splitOn (List.dropLast_subset _ hpart)
      (mem_of_mem_stripCarriageReturn hmem)
  rw [lines] at h
  split at h
  · rename_i c last hlast
    rcases List.mem_append.mp h with h | h
    · exact hended l h
    · rw [List.mem_singleton] at h
      rw [h]
      exact not_mem_of_mem_splitOn (List.mem_of_getLast? hlast)
  · exact hended l h

/-- A line that survives being joined and split again: not empty, no line break inside, no
carriage return at the end. -/
structure IsLine (l : Text) : Prop where
  ne_nil : l ≠ []
  no_break : '\n' ∉ l
  no_return : l.getLast? ≠ some '\r'

theorem stripCarriageReturn_eq_self {l : Text} (h : IsLine l) : stripCarriageReturn l = l :=
  if_neg h.no_return

/-- **The line round trip.**  Joined lines split into the same lines. -/
theorem lines_joinLines {ls : List Text} (h : ∀ l ∈ ls, IsLine l) : lines (joinLines ls) = ls := by
  cases ls with
  | nil => rfl
  | cons first rest =>
    have hne : first :: rest ≠ [] := List.cons_ne_nil _ _
    have hsplit : (joinLines (first :: rest)).splitOn '\n' = first :: rest :=
      List.splitOn_intercalate '\n' (fun l hl => (h l hl).no_break) hne
    have hended : (first :: rest).dropLast.map stripCarriageReturn = (first :: rest).dropLast := by
      conv_rhs => rw [← List.map_id ((first :: rest).dropLast)]
      exact List.map_congr_left fun l hl =>
        stripCarriageReturn_eq_self (h l (List.dropLast_subset _ hl))
    have hlast := List.dropLast_append_getLast hne
    rw [lines, hsplit, hended, List.getLast?_eq_some_getLast hne]
    cases hl : (first :: rest).getLast hne with
    | nil => exact absurd hl (h _ (List.getLast_mem hne)).ne_nil
    | cons c cs =>
      rw [hl] at hlast
      exact hlast

/-! ### Bytes -/

/-- The UTF-8 encoding of a text. -/
def encodeUtf8 (s : Text) : List UInt8 := s.flatMap String.utf8EncodeChar

/-- The text of a byte string, `none` if the bytes are not UTF-8. -/
def decodeUtf8 (bytes : List UInt8) : Option Text :=
  (ByteArray.utf8Decode? ⟨bytes.toArray⟩).map Array.toList

@[simp] theorem decodeUtf8_encodeUtf8 (s : Text) : decodeUtf8 (encodeUtf8 s) = some s := by
  have hbytes : (⟨(encodeUtf8 s).toArray⟩ : ByteArray) = s.utf8Encode := by
    rw [encodeUtf8, List.utf8Encode, ← List.data_toByteArray]
  rw [decodeUtf8, hbytes, List.utf8Decode?_utf8Encode, Option.map_some]

example : lines "a\r\n\nb\r".toList = ["a".toList, [], "b\r".toList] := by decide

end Kafkax.LineText
