import Mathlib.Data.List.Basic
import Kafkax.Library.Text

/-!
# Debug texts

The text that a structural formatter writes for a value, in its plain and in its alternate form: a
string between quotes with its special characters escaped, an optional value, a structure with its
fields in order.  Which characters are escaped by their number is a parameter.

Nothing is lost on the way: the text of a string determines the string (`debugStr_cancel`), and the
text of a structure determines the text of its first field (`debugStruct_cons_inj`).
-/

namespace Kafkax.DebugText

open LineText

/-! ### Codes that do not run into each other -/

/-- A code whose words can be told from what follows them determines the text it encodes. -/
theorem flatMap_injective_of_cancel {α β : Type} {f : α → List β} (hne : ∀ a, f a ≠ [])
    (hcancel : ∀ a b s t, f a ++ s = f b ++ t → a = b ∧ s = t) :
    Function.Injective (List.flatMap f) := by
  intro s t h
  induction s generalizing t with
  | nil =>
    cases t with
    | nil => rfl
    | cons b t =>
      rw [List.flatMap_nil, List.flatMap_cons] at h
      exact absurd (List.append_eq_nil_iff.mp h.symm).1 (hne b)
  | cons a s ih =>
    cases t with
    | nil =>
      rw [List.flatMap_nil, List.flatMap_cons] at h
      exact absurd (List.append_eq_nil_iff.mp h).1 (hne a)
    | cons b t =>
      rw [List.flatMap_cons, List.flatMap_cons] at h
      obtain ⟨hab, hst⟩ := hcancel a b _ _ h
      rw [hab, ih hst]

/-- A text is cut in one way at the first of its separators. -/
theorem append_cons_inj {α : Type} {sep : α} {s s' t t' : List α} (hs : sep ∉ s) (hs' : sep ∉ s')
    (h : s ++ sep :: t = s' ++ sep :: t') : s = s' ∧ t = t' := by
  induction s generalizing s' with
  | nil =>
    cases s' with
    | nil => exact ⟨rfl, (List.cons.inj h).2⟩
    | cons c s' =>
      have hc : sep = c := (List.cons.inj h).1
      exact absurd (hc ▸ List.mem_cons_self) hs'
  | cons c s ih =>
    cases s' with
    | nil =>
      have hc : c = sep := (List.cons.inj h).1
      exact absurd (hc ▸ List.mem_cons_self) hs
    | cons d s' =>
      obtain ⟨hcd, hrest⟩ := List.cons.inj h
      obtain ⟨hss, htt⟩ := ih (fun hmem => hs (List.mem_cons_of_mem _ hmem))
        (fun hmem => hs' (List.mem_cons_of_mem _ hmem)) hrest
      rw [hcd, hss]
      exact ⟨rfl, htt⟩

/-- The lower-case hexadecimal digits of a number. -/
def hexDigits (n : ℕ) : Text := Nat.toDigits 16 n

theorem digitChar_injOn {m n : ℕ} (hm : m < 16) (hn : n < 16) (h : m.digitChar = n.digitChar) :
    m = n := by
  have hall : ∀ a < 16, ∀ b < 16, Nat.digitChar a = Nat.digitChar b → a = b := by decide
  exact hall m hm n hn h

theorem hexDigits_injective : Function.Injective hexDigits := by
  intro m
  induction m using Nat.strong_induction_on with
  | _ m ih =>
    intro n h
    rw [hexDigits, hexDigits, @Nat.toDigits_eq_if 16 m (by decide),
      @Nat.toDigits_eq_if 16 n (by decide)] at h
    split at h <;> split at h
    · rename_i hm hn
      exact digitChar_injOn hm hn (List.cons.inj h).1
    · have hlen := congrArg List.length h
      rw [List.length_append, List.length_singleton, List.length_singleton] at hlen
      have hpos : 0 < (Nat.toDigits 16 (n / 16)).length := Nat.length_toDigits_pos
      omega
    · have hlen := congrArg List.length h
      rw [List.length_append, List.length_singleton, List.length_singleton] at hlen
      have hpos : 0 < (Nat.toDigits 16 (m / 16)).length := Nat.length_toDigits_pos
      omega
    · rename_i hm hn
      obtain ⟨hfront, hlast⟩ := List.append_inj' h rfl
      have hquot : m / 16 = n / 16 := ih (m / 16) (by omega) hfront
      have hrem : m % 16 = n % 16 :=
        digitChar_injOn (by omega) (by omega) (List.cons.inj hlast).1
      omega

theorem mem_hexDigits {n : ℕ} {c : Char} (h : c ∈ hexDigits n) : ∃ d < 16, c = Nat.digitChar d := by
  induction n using Nat.strong_induction_on with
  | _ n ih =>
    rw [hexDigits, Nat.toDigits_eq_if (by decide)] at h
    split at h
    · rename_i hn
      exact ⟨n, hn, List.mem_singleton.mp h⟩
    · rcases List.mem_append.mp h with h | h
      · exact ih (n / 16) (by omega) h
      · exact ⟨n % 16, by omega, List.mem_singleton.mp h⟩

/-- The bracket that ends a number is not one of its digits. -/
theorem bracket_not_mem_hexDigits (n : ℕ) : '\x7d' ∉ hexDigits n := by
  intro h
  obtain ⟨d, hd, hc⟩ := mem_hexDigits h
  have hall : ∀ a < 16, '\x7d' ≠ Nat.digitChar a := by decide
  exact hall d hd hc

/-! ### Strings -/

/-- The characters with an escape of their own, and the letter of it. -/
def shortEscapes : List (Char × Char) :=
  [('\x00', '0'), ('\t', 't'), ('\r', 'r'), ('\n', 'n'), ('"', '"'), ('\\', '\\')]

/-- The escape of a character in a string; `escaped` tells the characters that are not printed. -/
def escapeChar (escaped : Char → Bool) (c : Char) : Text :=
  match shortEscapes.lookup c with
  | some letter => ['\\', letter]
  | none => if escaped c then '\\' :: 'u' :: '\x7b' :: (hexDigits c.toNat ++ ['\x7d']) else [c]

/-- A string between quotes. -/
def debugStr (escaped : Char → Bool) (s : Text) : Text :=
  '"' :: (s.flatMap (escapeChar escaped) ++ ['"'])

theorem mem_shortEscapes {c letter : Char} (h : shortEscapes.lookup c = some letter) :
    (c, letter) ∈ shortEscapes := by
  obtain ⟨front, back, hsplit, -⟩ := List.lookup_eq_some_iff.mp h
  rw [hsplit]
  exact List.mem_append_right _ List.mem_cons_self

theorem shortEscapes_inj {c d letter : Char} (hc : shortEscapes.lookup c = some letter)
    (hd : shortEscapes.lookup d = some letter) : c = d := by
  have hall : ∀ p ∈ shortEscapes, ∀ q ∈ shortEscapes, p.2 = q.2 → p.1 = q.1 := by decide
  exact hall _ (mem_shortEscapes hc) _ (mem_shortEscapes hd) rfl

theorem shortEscapes_ne_u {c letter : Char} (h : shortEscapes.lookup c = some letter) :
    letter ≠ 'u' := by
  have hall : ∀ p ∈ shortEscapes, p.2 ≠ 'u' := by decide
  exact hall _ (mem_shortEscapes h)

/-- A character that is written as it is neither starts an escape nor ends the string. -/
theorem ne_of_lookup_eq_none {c : Char} (h : shortEscapes.lookup c = none) :
    c ≠ '\\' ∧ c ≠ '"' := by
  constructor
  · rintro rfl
    exact absurd h (by decide)
  · rintro rfl
    exact absurd h (by decide)

/-- The three forms of an escape. -/
theorem escapeChar_cases (escaped : Char → Bool) (c : Char) :
    (∃ letter, shortEscapes.lookup c = some letter ∧ escapeChar escaped c = ['\\', letter]) ∨
    escapeChar escaped c = '\\' :: 'u' :: '\x7b' :: (hexDigits c.toNat ++ ['\x7d']) ∨
    ((c ≠ '\\' ∧ c ≠ '"') ∧ escapeChar escaped c = [c]) := by
  rw [escapeChar]
  cases hc : shortEscapes.lookup c with
  | some letter => exact Or.inl ⟨letter, rfl, rfl⟩
  | none =>
    cases escaped c with
    | true => exact Or.inr (Or.inl rfl)
    | false => exact Or.inr (Or.inr ⟨ne_of_lookup_eq_none hc, rfl⟩)

theorem escapeChar_cancel {escaped : Char → Bool} (c d : Char) (s t : Text)
    (h : escapeChar escaped c ++ s = escapeChar escaped d ++ t) : c = d ∧ s = t := by
  rcases escapeChar_cases escaped c with ⟨l, hl, hc⟩ | hc | ⟨hne, hc⟩ <;>
    rcases escapeChar_cases escaped d with ⟨m, hm, hd⟩ | hd | ⟨hne', hd⟩ <;> rw [hc, hd] at h
  · obtain ⟨hlm, hst⟩ := List.cons.inj (List.cons.inj h).2
    rw [← hlm] at hm
    exact ⟨shortEscapes_inj hl hm, hst⟩
  · exact absurd (List.cons.inj (List.cons.inj h).2).1 (shortEscapes_ne_u hl)
  · exact absurd (List.cons.inj h).1.symm hne'.1
  · exact absurd (List.cons.inj (List.cons.inj h).2).1.symm (shortEscapes_ne_u hm)
  · have htail : (hexDigits c.toNat ++ ['\x7d']) ++ s = (hexDigits d.toNat ++ ['\x7d']) ++ t :=
      (List.cons.inj (List.cons.inj (List.cons.inj h).2).2).2
    rw [List.append_assoc, List.append_assoc] at htail
    obtain ⟨hdigits, hst⟩ := append_cons_inj (bracket_not_mem_hexDigits _)
      (bracket_not_mem_hexDigits _) htail
    exact ⟨Char.toNat_inj.mp (hexDigits_injective hdigits), hst⟩
  · exact absurd (List.cons.inj h).1.symm hne'.1
  · exact absurd (List.cons.inj h).1 hne.1
  · exact absurd (List.cons.inj h).1 hne.1
  · exact List.cons.inj h

/-- No escape looks like the end of the string. -/
theorem escapeChar_append_ne_quote (escaped : Char → Bool) (c : Char) (s t : Text) :
    escapeChar escaped c ++ s ≠ '"' :: t := by
  intro h
  rcases escapeChar_cases escaped c with ⟨l, -, hc⟩ | hc | ⟨hne, hc⟩ <;> rw [hc] at h
  · exact absurd (List.cons.inj h).1 (by decide)
  · exact absurd (List.cons.inj h).1 (by decide)
  · exact absurd (List.cons.inj h).1 hne.2

/-- **The text of a string determines the string**, whatever follows it. -/
theorem debugStr_cancel {escaped : Char → Bool} {s t x y : Text}
    (h : debugStr escaped s ++ x = debugStr escaped t ++ y) : s = t ∧ x = y := by
  have hbody : s.flatMap (escapeChar escaped) ++ '"' :: x =
      t.flatMap (escapeChar escaped) ++ '"' :: y := by
    simpa [debugStr] using h
  clear h
  induction s generalizing t with
  | nil =>
    cases t with
    | nil => exact ⟨rfl, (List.cons.inj hbody).2⟩
    | cons d t =>
      rw [List.flatMap_cons, List.append_assoc] at hbody
      exact absurd hbody.symm (escapeChar_append_ne_quote escaped d _ _)
  | cons c s ih =>
    cases t with
    | nil =>
      rw [List.flatMap_cons, List.append_assoc] at hbody
      exact absurd hbody (escapeChar_append_ne_quote escaped c _ _)
    | cons d t =>
      rw [List.flatMap_cons, List.flatMap_cons, List.append_assoc, List.append_assoc] at hbody
      obtain ⟨hcd, hrest⟩ := escapeChar_cancel c d _ _ hbody
      obtain ⟨hst, hxy⟩ := ih hrest
      rw [hcd, hst]
      exact ⟨rfl, hxy⟩

theorem debugStr_injective (escaped : Char → Bool) : Function.Injective (debugStr escaped) := by
  intro s t h
  exact (debugStr_cancel (congrArg (· ++ []) h)).1

/-! ### Options and structures -/

/-- A nested value in the alternate form is indented. -/
def indent (s : Text) : Text :=
  s.flatMap fun c => if c = '\n' then ['\n', ' ', ' ', ' ', ' '] else [c]

theorem indent_injective : Function.Injective indent := by
  refine flatMap_injective_of_cancel (fun c => ?_) (fun c d s t h => ?_)
  · split <;> simp
  · split at h <;> split at h
    · rename_i hc hd
      exact ⟨hc.trans hd.symm, by simpa using h⟩
    · rename_i hc hd
      exact absurd (List.cons.inj h).1.symm hd
    · rename_i hc hd
      exact absurd (List.cons.inj h).1 hc
    · exact List.cons.inj h

/-- An optional value. -/
def debugOption (alternate : Bool) : Option Text → Text
  | none => "None".toList
  | some text =>
    if alternate then "Some(".toList ++ indent ('\n' :: (text ++ [','])) ++ "\n)".toList
    else "Some(".toList ++ text ++ ")".toList

/-- A field of a structure. -/
def debugField (alternate : Bool) (field : String × Text) : Text :=
  if alternate then indent ('\n' :: (field.1.toList ++ ": ".toList ++ field.2 ++ [',']))
  else field.1.toList ++ ": ".toList ++ field.2

/-- A structure with its fields in order. -/
def debugStruct (alternate : Bool) (name : String) (fields : List (String × Text)) : Text :=
  if alternate then
    name.toList ++ [' ', '\x7b'] ++ (fields.map (debugField true)).flatten ++ ['\n', '\x7d']
  else
    name.toList ++ [' ', '\x7b', ' '] ++
      ", ".toList.intercalate (fields.map (debugField false)) ++ [' ', '\x7d']

theorem debugField_inj {alternate : Bool} {field : String} {v w : Text}
    (h : debugField alternate (field, v) = debugField alternate (field, w)) : v = w := by
  cases alternate with
  | true =>
    have hline := (List.cons.inj (indent_injective h)).2
    exact List.append_cancel_left (List.append_cancel_right hline)
  | false => exact List.append_cancel_left h

/-- **The text of a structure determines its first field**, the others being equal. -/
theorem debugStruct_cons_inj {alternate : Bool} {name field : String} {v w : Text}
    {rest : List (String × Text)}
    (h : debugStruct alternate name ((field, v) :: rest) =
      debugStruct alternate name ((field, w) :: rest)) : v = w := by
  refine @debugField_inj alternate field v w ?_
  cases alternate with
  | true =>
    have hfields := List.append_cancel_left (List.append_cancel_right h)
    exact List.append_cancel_right hfields
  | false =>
    have hfields := List.append_cancel_left (List.append_cancel_right h)
    cases rest with
    | nil => simpa [List.intercalate] using hfields
    | cons next more =>
      simp only [List.map_cons, List.intercalate_cons_cons] at hfields
      exact List.append_cancel_right (List.append_cancel_right hfields)

end Kafkax.DebugText
