import Mathlib.Data.List.Basic
import Mathlib.Data.List.Induction
import Mathlib.Order.Basic
import Mathlib.Order.Lattice
import Mathlib.Data.Int.Order.Basic
import Mathlib.Tactic.Common
import Mathlib.Tactic.IntervalCases

/-!
# Bounded machine integers and their decimal text

A machine integer is an integer together with the proof that it lies in its range, so an
out-of-range value cannot be built.  One definition serves every signed width; the operations
are the checked ones (`ofInt?`, `checkedAdd`), which answer `none` instead of wrapping.

The second half is the decimal text of a signed integer: `toDecimal` prints it the way a
formatter does, `fromDecimal` accepts what a standard integer parser accepts (an optional sign,
at least one ASCII digit, leading zeros, nothing else) and checks the range at the end.  The
round trip `fromDecimal_toDecimal` is what the formats built on top of it need.  Reading is more
tolerant than printing: `toDecimal_eq_iff` says which of the accepted texts are printed.
-/

namespace Kafkax.BoundedIntegers

/-- An integer of the closed range `[lo, hi]`. -/
@[ext] structure BoundedInt (lo hi : ℤ) where
  val : ℤ
  lo_le : lo ≤ val
  le_hi : val ≤ hi
deriving DecidableEq, Repr

variable {lo hi : ℤ}

instance : LinearOrder (BoundedInt lo hi) :=
  LinearOrder.lift' BoundedInt.val fun _ _ h => BoundedInt.ext h

theorem le_iff_val_le {a b : BoundedInt lo hi} : a ≤ b ↔ a.val ≤ b.val := Iff.rfl

theorem lt_iff_val_lt {a b : BoundedInt lo hi} : a < b ↔ a.val < b.val := Iff.rfl

/-- The range check: `none` for an integer outside the range. -/
def ofInt? (lo hi n : ℤ) : Option (BoundedInt lo hi) :=
  if h : lo ≤ n ∧ n ≤ hi then some ⟨n, h.1, h.2⟩ else none

@[simp] theorem ofInt?_val (a : BoundedInt lo hi) : ofInt? lo hi a.val = some a := by
  rw [ofInt?, dif_pos ⟨a.lo_le, a.le_hi⟩]

theorem ofInt?_eq_some {n : ℤ} {a : BoundedInt lo hi} : ofInt? lo hi n = some a ↔ a.val = n := by
  constructor
  · intro h
    rw [ofInt?] at h
    split at h
    · rw [← Option.some.inj h]
    · exact absurd h (by simp)
  · rintro rfl
    exact ofInt?_val a

theorem ofInt?_eq_none {n : ℤ} : ofInt? lo hi n = none ↔ n < lo ∨ hi < n := by
  rw [ofInt?]
  split
  · rename_i h
    simp only [reduceCtorEq, false_iff]
    omega
  · rename_i h
    simp only [true_iff]
    omega

/-- Addition of a constant that refuses to overflow. -/
def BoundedInt.checkedAdd (a : BoundedInt lo hi) (n : ℤ) : Option (BoundedInt lo hi) :=
  ofInt? lo hi (a.val + n)

/-! ### Decimal text -/

/-- The decimal text of an integer: a minus sign for a negative one, no leading zeros. -/
def toDecimal (n : ℤ) : List Char :=
  if n < 0 then '-' :: Nat.toDigits 10 n.natAbs else Nat.toDigits 10 n.natAbs

/-- An unsigned run of ASCII digits, at least one. -/
def parseDigits (cs : List Char) : Option ℕ :=
  if cs ≠ [] ∧ cs.all Char.isDigit then some (Nat.ofDigitChars 10 cs 0) else none

/-- A signed integer of unbounded size: an optional `+` or `-`, then the digits. -/
def parseSigned : List Char → Option ℤ
  | '+' :: cs => (parseDigits cs).map fun n : ℕ => (n : ℤ)
  | '-' :: cs => (parseDigits cs).map fun n : ℕ => -(n : ℤ)
  | cs => (parseDigits cs).map fun n : ℕ => (n : ℤ)

/-- A signed integer of the range `[lo, hi]`; everything else is rejected. -/
def fromDecimal (lo hi : ℤ) (cs : List Char) : Option (BoundedInt lo hi) :=
  (parseSigned cs).bind (ofInt? lo hi)

theorem isDigit_of_mem_toDigits {n : ℕ} {c : Char} (h : c ∈ Nat.toDigits 10 n) : c.isDigit :=
  Nat.isDigit_of_mem_toDigits (by decide) (by decide) h

theorem parseDigits_toDigits (n : ℕ) : parseDigits (Nat.toDigits 10 n) = some n := by
  have hall : (Nat.toDigits 10 n).all Char.isDigit = true :=
    List.all_eq_true.mpr fun _ hc => isDigit_of_mem_toDigits hc
  rw [parseDigits, if_pos ⟨Nat.toDigits_ne_nil, hall⟩, Nat.ofDigitChars_ten_toDigits]

/-- A run of digits carries no sign. -/
theorem parseSigned_toDigits (n : ℕ) : parseSigned (Nat.toDigits 10 n) = some (n : ℤ) := by
  have hsign : ∀ c cs, Nat.toDigits 10 n = c :: cs → c ≠ '+' ∧ c ≠ '-' := by
    intro c cs hcs
    have hdig : c.isDigit := isDigit_of_mem_toDigits (n := n) (hcs ▸ List.mem_cons_self)
    constructor <;> rintro rfl <;> exact absurd hdig (by decide)
  have hparse := parseDigits_toDigits n
  cases hds : Nat.toDigits 10 n with
  | nil => exact absurd hds Nat.toDigits_ne_nil
  | cons c cs =>
    obtain ⟨hplus, hminus⟩ := hsign c cs hds
    rw [hds] at hparse
    rw [parseSigned, hparse]
    · rfl
    · exact fun cs' h => hplus (List.cons.inj h).1
    · exact fun cs' h => hminus (List.cons.inj h).1

theorem parseSigned_toDecimal (n : ℤ) : parseSigned (toDecimal n) = some n := by
  rw [toDecimal]
  split
  · rename_i hneg
    rw [parseSigned, parseDigits_toDigits, Option.map_some]
    congr 1
    omega
  · rename_i hnonneg
    rw [parseSigned_toDigits]
    congr 1
    omega

/-- **The decimal round trip.**  Printing a machine integer and parsing the text gives it back. -/
@[simp] theorem fromDecimal_toDecimal (a : BoundedInt lo hi) :
    fromDecimal lo hi (toDecimal a.val) = some a := by
  rw [fromDecimal, parseSigned_toDecimal, Option.bind_some, ofInt?_val]

/-- The decimal text consists of digits and at most the sign. -/
theorem mem_toDecimal {n : ℤ} {c : Char} (h : c ∈ toDecimal n) : c = '-' ∨ c.isDigit := by
  rw [toDecimal] at h
  split at h
  · rcases List.mem_cons.mp h with rfl | h
    · exact Or.inl rfl
    · exact Or.inr (isDigit_of_mem_toDigits h)
  · exact Or.inr (isDigit_of_mem_toDigits h)

/-! ### Canonical decimals -/

/-- The decimal texts that are printed: no plus sign, no leading zero, no negative zero. -/
def Canonical (cs : List Char) : Prop :=
  cs = ['0'] ∨ cs.head? ≠ some '+' ∧ cs.head? ≠ some '0' ∧ ¬ ['-', '0'] <+: cs

instance : DecidablePred Canonical := fun cs =>
  inferInstanceAs (Decidable
    (cs = ['0'] ∨ cs.head? ≠ some '+' ∧ cs.head? ≠ some '0' ∧ ¬ ['-', '0'] <+: cs))

theorem digit_bounds {c : Char} (h : c.isDigit) : 48 ≤ c.toNat ∧ c.toNat ≤ 57 := by
  simp only [Char.isDigit, Bool.and_eq_true, decide_eq_true_eq, ge_iff_le,
    UInt32.le_iff_toNat_le] at h
  exact h

/-- A digit is the digit of its value. -/
theorem digitChar_sub {c : Char} (h : c.isDigit) : (c.toNat - '0'.toNat).digitChar = c := by
  obtain ⟨hlo, hhi⟩ := digit_bounds h
  have hzero : '0'.toNat = 48 := rfl
  rw [hzero]
  conv_rhs => rw [← Char.ofNat_toNat c]
  generalize c.toNat = n at hlo hhi
  interval_cases n <;> rfl

/-- A run of digits without a leading zero is the decimal of its value. -/
theorem toDigits_ofDigitChars {ds : List Char} (hne : ds ≠ []) (hall : ∀ c ∈ ds, c.isDigit)
    (hzero : ds = ['0'] ∨ ds.head? ≠ some '0') :
    Nat.toDigits 10 (Nat.ofDigitChars 10 ds 0) = ds := by
  induction ds using List.reverseRecOn with
  | nil => exact absurd rfl hne
  | append_singleton front c ih =>
    have hc : c.isDigit := hall c (List.mem_append_right _ List.mem_cons_self)
    have hval : c.toNat - '0'.toNat < 10 := by
      have hbounds := digit_bounds hc
      have h0 : '0'.toNat = 48 := rfl
      omega
    have hlast : Nat.toDigits 10 (c.toNat - '0'.toNat) = [c] := by
      rw [Nat.toDigits_of_lt_base hval, digitChar_sub hc]
    rw [Nat.ofDigitChars_append, Nat.ofDigitChars_cons, Nat.ofDigitChars_nil]
    by_cases hfront : front = []
    · rw [hfront, Nat.ofDigitChars_nil, Nat.mul_zero, Nat.zero_add]
      exact hlast
    · have hhead : front.head? ≠ some '0' := by
        rcases hzero with hzero | hzero
        · have hlen := congrArg List.length hzero
          rw [List.length_append, List.length_singleton, List.length_singleton] at hlen
          exact absurd (List.length_eq_zero_iff.mp (by omega)) hfront
        · rwa [List.head?_append_of_ne_nil _ hfront] at hzero
      have hdigits := ih hfront (fun d hd => hall d (List.mem_append_left _ hd)) (Or.inr hhead)
      have hpos : 0 < Nat.ofDigitChars 10 front 0 := by
        refine Nat.pos_of_ne_zero fun h0 => ?_
        rw [h0, Nat.toDigits_zero] at hdigits
        rw [← hdigits] at hhead
        exact hhead rfl
      rw [← Nat.toDigits_append_toDigits (by decide) hpos hval, hdigits, hlast]

theorem head?_toDigits_ne_zero {n : ℕ} (h : 0 < n) : (Nat.toDigits 10 n).head? ≠ some '0' := by
  induction n using Nat.strong_induction_on with
  | _ n ih =>
    rw [Nat.toDigits_eq_if (by decide)]
    split
    · rw [List.head?_cons, ne_eq, Option.some.injEq, Nat.digitChar_eq_zero]
      omega
    · rename_i hbig
      rw [List.head?_append_of_ne_nil _ Nat.toDigits_ne_nil]
      exact ih (n / 10) (by omega) (by omega)

theorem canonical_toDecimal (n : ℤ) : Canonical (toDecimal n) := by
  by_cases hzero : n = 0
  · rw [hzero]
    exact Or.inl rfl
  have hhead := head?_toDigits_ne_zero (Int.natAbs_pos.mpr hzero)
  rw [toDecimal]
  split
  · refine Or.inr ⟨by simp, by simp, fun hpre => hhead ?_⟩
    obtain ⟨rest, hrest⟩ := (List.cons_prefix_cons.mp hpre).2
    rw [← hrest]
    rfl
  · have hdigit : ∀ c, (Nat.toDigits 10 n.natAbs).head? = some c → c.isDigit := fun c hc =>
      isDigit_of_mem_toDigits (List.mem_of_mem_head? hc)
    refine Or.inr ⟨fun hplus => ?_, hhead, fun hpre => ?_⟩
    · exact absurd (hdigit _ hplus) (by decide)
    · obtain ⟨rest, hrest⟩ := hpre
      exact absurd (hdigit '-' (by rw [← hrest]; rfl)) (by decide)

theorem parseDigits_eq_some {ds : List Char} {v : ℕ} (h : parseDigits ds = some v) :
    ds ≠ [] ∧ (∀ c ∈ ds, c.isDigit) ∧ Nat.ofDigitChars 10 ds 0 = v := by
  rw [parseDigits] at h
  split at h
  · rename_i hdigits
    exact ⟨hdigits.1, List.all_eq_true.mp hdigits.2, Option.some.inj h⟩
  · exact absurd h (by simp)

/-- A signed integer is digits, after a sign or not. -/
theorem parseSigned_eq_some {cs : List Char} {n : ℤ} (h : parseSigned cs = some n) :
    ∃ ds v, parseDigits ds = some v ∧
      (cs = '+' :: ds ∧ n = v ∨ cs = '-' :: ds ∧ n = -v ∨ cs = ds ∧ n = v) := by
  rw [parseSigned.eq_def] at h
  split at h
  · obtain ⟨v, hv, hn⟩ := Option.map_eq_some_iff.mp h
    exact ⟨_, v, hv, Or.inl ⟨rfl, hn.symm⟩⟩
  · obtain ⟨v, hv, hn⟩ := Option.map_eq_some_iff.mp h
    exact ⟨_, v, hv, Or.inr (Or.inl ⟨rfl, hn.symm⟩)⟩
  · obtain ⟨v, hv, hn⟩ := Option.map_eq_some_iff.mp h
    exact ⟨_, v, hv, Or.inr (Or.inr ⟨rfl, hn.symm⟩)⟩

/-- **A decimal that is read is printed as it was written if and only if it is canonical.** -/
theorem toDecimal_eq_iff {cs : List Char} {n : ℤ} (h : parseSigned cs = some n) :
    toDecimal n = cs ↔ Canonical cs := by
  constructor
  · intro heq
    rw [← heq]
    exact canonical_toDecimal n
  · intro hcanonical
    obtain ⟨ds, v, hdigits, hsigned⟩ := parseSigned_eq_some h
    obtain ⟨hne, hall, hv⟩ := parseDigits_eq_some hdigits
    have hrun : ds = ['0'] ∨ ds.head? ≠ some '0' → Nat.toDigits 10 v = ds := by
      intro hzero
      rw [← hv]
      exact toDigits_ofDigitChars hne hall hzero
    rcases hsigned with ⟨hcs, hn⟩ | ⟨hcs, hn⟩ | ⟨hcs, hn⟩
    · rw [hcs] at hcanonical
      rcases hcanonical with hzero | ⟨hplus, -⟩
      · exact absurd hzero (by simp)
      · exact absurd rfl hplus
    · have hhead : ds.head? ≠ some '0' := by
        intro hzero
        rw [hcs] at hcanonical
        rcases hcanonical with heq | ⟨-, -, hpre⟩
        · exact absurd heq (by simp)
        · obtain ⟨rest, hrest⟩ := List.head?_eq_some_iff.mp hzero
          exact hpre ⟨rest, by rw [hrest]; rfl⟩
      have hdecimal := hrun (Or.inr hhead)
      have hpos : v ≠ 0 := by
        intro h0
        rw [h0, Nat.toDigits_zero] at hdecimal
        rw [← hdecimal] at hhead
        exact hhead rfl
      rw [hn, toDecimal, if_pos (by omega), Int.natAbs_neg, Int.natAbs_natCast, hdecimal, hcs]
    · have hzero : ds = ['0'] ∨ ds.head? ≠ some '0' := by
        rw [hcs] at hcanonical
        exact hcanonical.imp_right fun hr => hr.2.1
      rw [hn, toDecimal, if_neg (by omega), Int.natAbs_natCast, hrun hzero, hcs]

/-- The accepted texts consist of digits and at most a sign. -/
theorem mem_of_parseSigned {cs : List Char} {n : ℤ} (h : parseSigned cs = some n) {c : Char}
    (hc : c ∈ cs) : c = '+' ∨ c = '-' ∨ c.isDigit := by
  obtain ⟨ds, v, hdigits, hsigned⟩ := parseSigned_eq_some h
  obtain ⟨-, hall, -⟩ := parseDigits_eq_some hdigits
  rcases hsigned with ⟨hcs, -⟩ | ⟨hcs, -⟩ | ⟨hcs, -⟩
  · rw [hcs, List.mem_cons] at hc
    exact hc.imp_right fun hd => Or.inr (hall c hd)
  · rw [hcs, List.mem_cons] at hc
    exact Or.inr (hc.imp_right fun hd => hall c hd)
  · rw [hcs] at hc
    exact Or.inr (Or.inr (hall c hc))

theorem fromDecimal_eq_some {cs : List Char} {a : BoundedInt lo hi} :
    fromDecimal lo hi cs = some a ↔ parseSigned cs = some a.val := by
  rw [fromDecimal, Option.bind_eq_some_iff]
  constructor
  · intro h
    obtain ⟨n, hn, ha⟩ := h
    rw [hn, ofInt?_eq_some.mp ha]
  · intro h
    exact ⟨a.val, h, ofInt?_val a⟩

example : fromDecimal (-128) 127 "-0128".toList = some ⟨-128, by decide, by decide⟩ := by decide

end Kafkax.BoundedIntegers
