import Kafkax.Library.BoundedInt

/-!
# Unsigned decimals that say why they are refused

`parseUnsigned` reads an unsigned integer below a bound digit by digit and stops at the first thing
that is wrong: no text, a character that is no digit, or a number that has grown too large.
`parseUnsigned_eq_ok` says what it accepts, and `parseUnsigned_toDigits` that it reads what is
printed.
-/

namespace Kafkax.BoundedIntegers

/-- Why a text is no unsigned integer of the range. -/
inductive ParseIntError where
  | empty
  | invalidDigit
  | posOverflow
deriving DecidableEq

/-- The text of the error. -/
def ParseIntError.display : ParseIntError → String
  | .empty => "cannot parse integer from empty string"
  | .invalidDigit => "invalid digit found in string"
  | .posOverflow => "number too large to fit in target type"

variable {bound : ℕ}

/-- The digits after those that were read. -/
def unsignedDigits (read : Fin bound) : List Char → Except ParseIntError (Fin bound)
  | [] => .ok read
  | c :: cs =>
    if c.isDigit then
      let next := 10 * read.val + (c.toNat - '0'.toNat)
      if h : next < bound then unsignedDigits ⟨next, h⟩ cs else .error .posOverflow
    else .error .invalidDigit

/-- An unsigned integer below the bound, with an optional `+`. -/
def parseUnsigned (bound : ℕ) [NeZero bound] : List Char → Except ParseIntError (Fin bound)
  | [] => .error .empty
  | ['+'] => .error .invalidDigit
  | '+' :: cs => unsignedDigits 0 cs
  | cs => unsignedDigits 0 cs

/-- More digits make no number smaller. -/
theorem le_ofDigitChars (cs : List Char) (init : ℕ) : init ≤ Nat.ofDigitChars 10 cs init := by
  induction cs generalizing init with
  | nil => exact le_of_eq Nat.ofDigitChars_nil.symm
  | cons c cs ih =>
    rw [Nat.ofDigitChars_cons]
    exact le_trans (by omega) (ih _)

/-- The digits are read exactly if they are digits of a number below the bound. -/
theorem unsignedDigits_eq_ok {read n : Fin bound} {cs : List Char} :
    unsignedDigits read cs = .ok n ↔
      (∀ c ∈ cs, c.isDigit) ∧ Nat.ofDigitChars 10 cs read.val = n.val := by
  induction cs generalizing read with
  | nil =>
    rw [unsignedDigits, Except.ok.injEq, Nat.ofDigitChars_nil, ← Fin.ext_iff]
    exact ⟨fun h => ⟨fun _ hc => absurd hc List.not_mem_nil, h⟩, fun h => h.2⟩
  | cons c cs ih =>
    rw [unsignedDigits, Nat.ofDigitChars_cons, List.forall_mem_cons]
    by_cases hdigit : c.isDigit
    · rw [if_pos hdigit]
      by_cases hnext : 10 * read.val + (c.toNat - '0'.toNat) < bound
      · rw [dif_pos hnext, ih]
        exact ⟨fun h => ⟨⟨hdigit, h.1⟩, h.2⟩, fun h => ⟨h.1.2, h.2⟩⟩
      · rw [dif_neg hnext]
        refine iff_of_false (fun h => by cases h) fun h => ?_
        have hle := le_ofDigitChars cs (10 * read.val + (c.toNat - '0'.toNat))
        have hlt := n.isLt
        omega
    · rw [if_neg hdigit]
      exact iff_of_false (fun h => by cases h) fun h => hdigit h.1.1

variable [NeZero bound]

/-- No digits are read of a text with a sign in it. -/
theorem parseDigits_plus (cs : List Char) : parseDigits ('+' :: cs) = none :=
  if_neg fun h => absurd (List.all_eq_true.mp h.2 '+' List.mem_cons_self) (by decide)

/-- **An unsigned integer is read** exactly from its digits, after a `+` or not. -/
theorem parseUnsigned_eq_ok {cs : List Char} {n : Fin bound} :
    parseUnsigned bound cs = .ok n ↔
      ∃ ds, parseDigits ds = some n.val ∧ (cs = '+' :: ds ∨ cs = ds) := by
  have hdigits : ∀ {ds : List Char}, ds ≠ [] →
      (unsignedDigits (0 : Fin bound) ds = .ok n ↔ parseDigits ds = some n.val) := by
    intro ds hne
    rw [unsignedDigits_eq_ok, parseDigits]
    by_cases hall : ds.all Char.isDigit = true
    · rw [if_pos ⟨hne, hall⟩, Option.some.injEq]
      exact and_iff_right (List.all_eq_true.mp hall)
    · rw [if_neg fun h => hall h.2]
      exact iff_of_false (fun h => hall (List.all_eq_true.mpr h.1)) (fun h => by cases h)
  have hcases : ∀ {P : List Char → Prop}, (∃ ds, P ds ∧ (cs = '+' :: ds ∨ cs = ds)) ↔
      P cs ∨ ∃ ds, cs = '+' :: ds ∧ P ds := by
    intro P
    constructor
    · rintro ⟨ds, hds, hcs | hcs⟩
      · exact Or.inr ⟨ds, hcs, hds⟩
      · exact Or.inl (hcs ▸ hds)
    · rintro (hcs | ⟨ds, hcs, hds⟩)
      · exact ⟨cs, hcs, Or.inr rfl⟩
      · exact ⟨ds, hds, Or.inl hcs⟩
  rw [hcases]
  cases cs with
  | nil =>
    refine iff_of_false (fun h => by cases h) ?_
    rintro (h | ⟨ds, hds, -⟩)
    · cases h
    · cases hds
  | cons c cs =>
    by_cases hplus : c = '+'
    · rw [hplus, parseDigits_plus]
      have hafter : (∃ ds, '+' :: cs = '+' :: ds ∧ parseDigits ds = some n.val) ↔
          parseDigits cs = some n.val := by
        constructor
        · rintro ⟨ds, hds, h⟩
          exact (List.cons.inj hds).2 ▸ h
        · intro h
          exact ⟨cs, rfl, h⟩
      rw [hafter, or_iff_right (fun h => by cases h)]
      cases cs with
      | nil => exact iff_of_false (fun h => by cases h) fun h => by cases h
      | cons d ds => exact hdigits (List.cons_ne_nil d ds)
    · have hnone : ¬ ∃ ds, c :: cs = '+' :: ds ∧ parseDigits ds = some n.val := by
        rintro ⟨ds, hds, -⟩
        exact hplus (List.cons.inj hds).1
      rw [or_iff_left hnone, ← hdigits (List.cons_ne_nil c cs), parseUnsigned]
      · exact List.cons_ne_nil c cs
      · exact fun h => hplus (List.cons.inj h).1
      · exact fun _ h => hplus (List.cons.inj h).1

/-- What is printed is read. -/
theorem parseUnsigned_toDigits (n : Fin bound) :
    parseUnsigned bound (Nat.toDigits 10 n.val) = .ok n :=
  parseUnsigned_eq_ok.mpr ⟨_, parseDigits_toDigits n.val, Or.inr rfl⟩

end Kafkax.BoundedIntegers
