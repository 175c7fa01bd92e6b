import Mathlib.Data.List.Infix
import Kafkax.Library.Text

/-!
# Searching a text

Substring search, and the mapping of ASCII letters to lower case that makes a search insensitive
to case.  A word that does not contain a delimiter is found in a delimited text exactly if it is
found on one of the two sides (`contains_delimited`); for a text of many pieces, in one of them
(`contains_intercalate`).
-/

namespace Kafkax.LineText

/-- The word occurs in the text. -/
def contains (word : Text) : Text → Bool
  | [] => word.isEmpty
  | c :: cs => word.isPrefixOf (c :: cs) || contains word cs

/-- The ASCII letters in lower case. -/
def toAsciiLowercase (s : Text) : Text := s.map Char.toLower

theorem toAsciiLowercase_append (s t : Text) :
    toAsciiLowercase (s ++ t) = toAsciiLowercase s ++ toAsciiLowercase t := List.map_append

theorem contains_iff {word s : Text} : contains word s = true ↔ word <:+: s := by
  induction s with
  | nil =>
    rw [contains, List.isEmpty_iff, List.infix_nil]
  | cons c cs ih =>
    rw [contains, Bool.or_eq_true, ih, List.infix_cons_iff, List.isPrefixOf_iff_prefix]

/-- A delimiter keeps the two sides of a text apart. -/
theorem contains_delimited {word before after : Text} {d : Char} (hword : word ≠ [])
    (hd : d ∉ word) :
    contains word (before ++ d :: after) = (contains word before || contains word after) := by
  rw [Bool.eq_iff_iff, Bool.or_eq_true, contains_iff, contains_iff, contains_iff]
  constructor
  · intro h
    obtain ⟨front, back, hsplit⟩ := h
    rw [List.append_assoc] at hsplit
    rcases List.append_eq_append_iff.mp hsplit with ⟨mid, hbefore, hrest⟩ | ⟨mid, hfront, hrest⟩
    · rcases List.append_eq_append_iff.mp hrest with ⟨tail, hmid, -⟩ | ⟨tail, hsplit', hafter⟩
      · exact Or.inl ⟨front, tail, by rw [hbefore, hmid, List.append_assoc]⟩
      · cases tail with
        | nil =>
          rw [List.append_nil] at hsplit'
          exact Or.inl ⟨front, [], by rw [hbefore, hsplit', List.append_nil]⟩
        | cons c cs =>
          rw [← (List.cons.inj hafter).1] at hsplit'
          exact absurd (hsplit' ▸ List.mem_append_right _ List.mem_cons_self) hd
    · cases mid with
      | nil =>
        cases word with
        | nil => exact absurd rfl hword
        | cons w ws =>
          have hw : d = w := (List.cons.inj hrest).1
          exact absurd (hw ▸ List.mem_cons_self) hd
      | cons c cs =>
        have hafter : after = cs ++ (word ++ back) := (List.cons.inj hrest).2
        exact Or.inr ⟨cs, back, by rw [hafter, List.append_assoc]⟩
  · intro h
    rcases h with h | h
    · exact h.trans (List.prefix_append before _).isInfix
    · exact h.trans (List.suffix_append_of_suffix (List.suffix_cons d after)).isInfix

/-- A text of delimited pieces contains a word exactly if one of the pieces does. -/
theorem contains_intercalate {word : Text} {d : Char} (hword : word ≠ []) (hd : d ∉ word)
    (pieces : List Text) :
    contains word (List.intercalate [d] pieces) = pieces.any (contains word) := by
  induction pieces with
  | nil =>
    show word.isEmpty = false
    rw [List.isEmpty_eq_false_iff]
    exact hword
  | cons piece rest ih =>
    cases rest with
    | nil =>
      rw [List.intercalate_singleton, List.any_cons, List.any_nil, Bool.or_false]
    | cons next more =>
      rw [List.intercalate_cons_cons, List.append_assoc, List.singleton_append,
        contains_delimited hword hd, ih]
      rfl

theorem toAsciiLowercase_intercalate {d : Char} (hd : d.toLower = d) (pieces : List Text) :
    toAsciiLowercase (List.intercalate [d] pieces) =
      List.intercalate [d] (pieces.map toAsciiLowercase) := by
  induction pieces with
  | nil => rfl
  | cons piece rest ih =>
    cases rest with
    | nil =>
      rw [List.intercalate_singleton, List.map_cons, List.map_nil, List.intercalate_singleton]
    | cons next more =>
      rw [List.intercalate_cons_cons, toAsciiLowercase_append, toAsciiLowercase_append, ih,
        List.map_cons, List.map_cons, List.map_cons, List.intercalate_cons_cons]
      congr 2
      show [d.toLower] = [d]
      rw [hd]

end Kafkax.LineText
