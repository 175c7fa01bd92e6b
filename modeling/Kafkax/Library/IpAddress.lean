import Mathlib.Data.List.Basic
import Kafkax.Library.Text

/-!
# Texts of IP addresses

The parser of textual IP addresses of a standard library: four decimal octets without leading
zeros, or eight hexadecimal groups of which one run may be abbreviated by two colons and the last
two may be written as four octets.  Every reader returns the value and what is left of the text.

An accepted text consists of hexadecimal digits, dots and colons (`isIpChar_of_parseIp`): each
reader takes only such characters off the text (`Takes`).  So no name with another letter in it,
in either case, is an address.
-/

namespace Kafkax.IpAddresses

open LineText

/-- An address: four octets or eight groups. -/
inductive IpAddr where
  | v4 (octets : List ℕ)
  | v6 (groups : List ℕ)
deriving DecidableEq

/-- The loopback addresses: `127.0.0.0/8` and `::1`. -/
def IpAddr.isLoopback : IpAddr → Bool
  | .v4 octets => octets.head? == some 127
  | .v6 groups => groups == [0, 0, 0, 0, 0, 0, 0, 1]

/-- The value of a digit. -/
def toDigit (radix : ℕ) (c : Char) : Option ℕ :=
  let n := c.toNat
  let value :=
    if 48 ≤ n ∧ n ≤ 57 then some (n - 48)
    else if 97 ≤ n ∧ n ≤ 102 then some (n - 87)
    else if 65 ≤ n ∧ n ≤ 70 then some (n - 55)
    else none
  value.filter (· < radix)

/-- A number of at most `maxDigits` digits and at most `bound`. -/
def readNumber (radix maxDigits bound : ℕ) (zeroPrefix : Bool) (s : Text) : Option (ℕ × Text) :=
  let digits := s.takeWhile fun c => (toDigit radix c).isSome
  let value := digits.foldl (fun n c => n * radix + (toDigit radix c).getD 0) 0
  if digits = [] ∨ maxDigits < digits.length ∨
      (zeroPrefix = false ∧ digits.head? = some '0' ∧ 1 < digits.length) ∨ bound < value then none
  else some (value, s.dropWhile fun c => (toDigit radix c).isSome)

/-- An item that follows a separator, unless it is the first. -/
def readSeparator {α : Type} (sep : Char) (index : ℕ) (inner : Text → Option (α × Text))
    (s : Text) : Option (α × Text) :=
  if index = 0 then inner s
  else
    match s with
    | c :: rest => if c = sep then inner rest else none
    | [] => none

/-- The octets from `index` on. -/
def readOctets : ℕ → ℕ → Text → Option (List ℕ × Text)
  | 0, _, s => some ([], s)
  | left + 1, index, s =>
    match readSeparator '.' index (readNumber 10 3 255 false) s with
    | none => none
    | some (octet, rest) =>
      (readOctets left (index + 1) rest).map fun (octets, rest) => (octet :: octets, rest)

/-- `read_ipv4_addr` -/
def readIpv4 (s : Text) : Option (List ℕ × Text) := readOctets 4 0 s

/-- Octets in pairs. -/
def joinOctets : List ℕ → List ℕ
  | high :: low :: rest => (high * 256 + low) :: joinOctets rest
  | _ => []

/-- `read_groups`: the groups from `index` on, and whether they end with octets. -/
def readGroups : ℕ → ℕ → Text → List ℕ × Bool × Text
  | 0, _, s => ([], false, s)
  | left + 1, index, s =>
    match if left = 0 then none else readSeparator ':' index readIpv4 s with
    | some (octets, rest) => (joinOctets octets, true, rest)
    | none =>
      match readSeparator ':' index (readNumber 16 4 65535 true) s with
      | some (group, rest) =>
        let (groups, octets, rest) := readGroups left (index + 1) rest
        (group :: groups, octets, rest)
      | none => ([], false, s)

/-- `read_ipv6_addr` -/
def readIpv6 (s : Text) : Option (List ℕ × Text) :=
  match readGroups 8 0 s with
  | (head, octets, rest) =>
    if head.length = 8 then some (head, rest)
    else if octets then none
    else
      match rest with
      | ':' :: ':' :: rest =>
        match readGroups (7 - head.length) 0 rest with
        | (tail, _, rest) =>
          some (head ++ List.replicate (8 - head.length - tail.length) 0 ++ tail, rest)
      | _ => none

/-- `read_ip_addr` -/
def readIp (s : Text) : Option (IpAddr × Text) :=
  match readIpv4 s with
  | some (octets, rest) => some (.v4 octets, rest)
  | none => (readIpv6 s).map fun (groups, rest) => (.v6 groups, rest)

/-- The parser of a whole text. -/
def parseIp (s : Text) : Option IpAddr :=
  match readIp s with
  | some (ip, []) => some ip
  | _ => none

/-! ### The characters of an address -/

/-- Hexadecimal digits, dots and colons. -/
def isIpChar (c : Char) : Bool := (toDigit 16 c).isSome || c == '.' || c == ':'

/-- What was taken off a text consists of the characters of an address. -/
def Takes (s rest : Text) : Prop := ∃ front, s = front ++ rest ∧ ∀ c ∈ front, isIpChar c = true

theorem Takes.refl (s : Text) : Takes s s := ⟨[], rfl, fun _ hc => absurd hc List.not_mem_nil⟩

theorem Takes.trans {s t u : Text} (hst : Takes s t) (htu : Takes t u) : Takes s u := by
  obtain ⟨front, hs, hfront⟩ := hst
  obtain ⟨mid, ht, hmid⟩ := htu
  refine ⟨front ++ mid, by rw [hs, ht, List.append_assoc], fun c hc => ?_⟩
  rcases List.mem_append.mp hc with hc | hc
  · exact hfront c hc
  · exact hmid c hc

theorem Takes.cons {c : Char} {s : Text} (hc : isIpChar c = true) : Takes (c :: s) s :=
  ⟨[c], rfl, fun d hd => by rw [List.mem_singleton.mp hd]; exact hc⟩

/-- A digit of a smaller radix is a hexadecimal digit. -/
theorem isIpChar_of_toDigit {radix : ℕ} (hradix : radix ≤ 16) {c : Char}
    (h : (toDigit radix c).isSome = true) : isIpChar c = true := by
  have hhex : (toDigit 16 c).isSome = true := by
    rw [Option.isSome_iff_exists] at h ⊢
    obtain ⟨value, hvalue⟩ := h
    rw [toDigit, Option.filter_eq_some_iff, decide_eq_true_eq] at hvalue
    refine ⟨value, ?_⟩
    rw [toDigit, Option.filter_eq_some_iff, decide_eq_true_eq]
    exact ⟨hvalue.1, lt_of_lt_of_le hvalue.2 hradix⟩
  rw [isIpChar, hhex]
  rfl

theorem takes_readNumber {radix maxDigits bound n : ℕ} {zeroPrefix : Bool} {s rest : Text}
    (hradix : radix ≤ 16) (h : readNumber radix maxDigits bound zeroPrefix s = some (n, rest)) :
    Takes s rest := by
  rw [readNumber] at h
  split at h
  · exact absurd h (by simp)
  · rw [← (Prod.mk.inj (Option.some.inj h)).2]
    refine ⟨_, List.takeWhile_append_dropWhile.symm, fun c hc => ?_⟩
    have hdigit : (toDigit radix c).isSome = true :=
      @List.mem_takeWhile_imp _ (fun c => (toDigit radix c).isSome) s c hc
    exact isIpChar_of_toDigit hradix hdigit

theorem takes_readSeparator {α : Type} {sep : Char} {index : ℕ} {inner : Text → Option (α × Text)}
    {s rest : Text} {value : α} (hsep : isIpChar sep = true)
    (hinner : ∀ s value rest, inner s = some (value, rest) → Takes s rest)
    (h : readSeparator sep index inner s = some (value, rest)) : Takes s rest := by
  rw [readSeparator.eq_def] at h
  split at h
  · exact hinner s value rest h
  · cases s with
    | nil => exact absurd h (by simp)
    | cons c cs =>
      have hcons : (if c = sep then inner cs else none) = some (value, rest) := h
      by_cases hc : c = sep
      · rw [if_pos hc] at hcons
        rw [hc]
        exact (Takes.cons hsep).trans (hinner cs value rest hcons)
      · rw [if_neg hc] at hcons
        exact absurd hcons (by simp)

theorem takes_readOctets {left index : ℕ} {s rest : Text} {octets : List ℕ}
    (h : readOctets left index s = some (octets, rest)) : Takes s rest := by
  induction left generalizing index s rest octets with
  | zero =>
    rw [readOctets] at h
    rw [(Prod.mk.inj (Option.some.inj h)).2]
    exact Takes.refl rest
  | succ left ih =>
    rw [readOctets] at h
    cases hoctet : readSeparator '.' index (readNumber 10 3 255 false) s with
    | none =>
      rw [hoctet] at h
      exact absurd h (by simp)
    | some first =>
      obtain ⟨octet, mid⟩ := first
      rw [hoctet] at h
      obtain ⟨⟨more, last⟩, hmore, heq⟩ := Option.map_eq_some_iff.mp h
      rw [← (Prod.mk.inj heq).2]
      have hfirst : Takes s mid := takes_readSeparator (by decide)
        (fun s value rest => takes_readNumber (by decide)) hoctet
      exact hfirst.trans (ih hmore)

theorem takes_readGroups {left index : ℕ} {s rest : Text} {groups : List ℕ} {octets : Bool}
    (h : readGroups left index s = (groups, octets, rest)) : Takes s rest := by
  induction left generalizing index s rest groups with
  | zero =>
    rw [readGroups] at h
    rw [(Prod.mk.inj (Prod.mk.inj h).2).2]
    exact Takes.refl rest
  | succ left ih =>
    rw [readGroups] at h
    split at h
    · rename_i parts mid hoctets
      rw [← (Prod.mk.inj (Prod.mk.inj h).2).2]
      split at hoctets
      · exact absurd hoctets (by simp)
      · exact takes_readSeparator (by decide) (fun s value rest => takes_readOctets) hoctets
    · split at h
      · rename_i group mid hgroup
        have hfirst : Takes s mid := takes_readSeparator (by decide)
          (fun s value rest => takes_readNumber (by decide)) hgroup
        cases hmore : readGroups left (index + 1) mid with
        | mk more tail =>
          obtain ⟨more', last⟩ := tail
          rw [hmore] at h
          obtain ⟨-, hoctets⟩ := Prod.mk.inj h
          obtain ⟨hkind, hlast⟩ := Prod.mk.inj hoctets
          rw [hkind, hlast] at hmore
          exact hfirst.trans (ih hmore)
      · rw [(Prod.mk.inj (Prod.mk.inj h).2).2]
        exact Takes.refl rest

theorem takes_readIpv6 {s rest : Text} {groups : List ℕ} (h : readIpv6 s = some (groups, rest)) :
    Takes s rest := by
  rw [readIpv6] at h
  cases hhead : readGroups 8 0 s with
  | mk head found =>
    obtain ⟨octets, mid⟩ := found
    have htaken := takes_readGroups hhead
    rw [hhead] at h
    simp only at h
    split at h
    · rw [← (Prod.mk.inj (Option.some.inj h)).2]
      exact htaken
    · split at h
      · exact absurd h (by simp)
      · split at h
        · rename_i after
          cases htail : readGroups (7 - head.length) 0 after with
          | mk tail found =>
            obtain ⟨kind, last⟩ := found
            rw [htail] at h
            rw [← (Prod.mk.inj (Option.some.inj h)).2]
            exact htaken.trans ((Takes.cons (by decide)).trans
              ((Takes.cons (by decide)).trans (takes_readGroups htail)))
        · exact absurd h (by simp)

/-- **The text of an address** consists of hexadecimal digits, dots and colons. -/
theorem isIpChar_of_parseIp {s : Text} {ip : IpAddr} (h : parseIp s = some ip) {c : Char}
    (hc : c ∈ s) : isIpChar c = true := by
  have htakes : Takes s [] := by
    rw [parseIp] at h
    split at h
    · rename_i found hread
      rw [readIp] at hread
      cases hv4 : readIpv4 s with
      | some parts =>
        obtain ⟨octets, rest⟩ := parts
        rw [hv4] at hread
        have hrest : rest = [] := (Prod.mk.inj (Option.some.inj hread)).2
        rw [hrest] at hv4
        exact takes_readOctets hv4
      | none =>
        rw [hv4] at hread
        obtain ⟨⟨groups, rest⟩, hv6, heq⟩ := Option.map_eq_some_iff.mp hread
        have hrest : rest = [] := (Prod.mk.inj heq).2
        rw [hrest] at hv6
        exact takes_readIpv6 hv6
    · exact absurd h (by simp)
  obtain ⟨front, hfront, hall⟩ := htakes
  rw [List.append_nil] at hfront
  exact hall c (hfront ▸ hc)

/-- The range of the characters of an address. -/
theorem range_of_isIpChar {c : Char} (h : isIpChar c = true) :
    c.toNat = 46 ∨ (48 ≤ c.toNat ∧ c.toNat ≤ 58) ∨ (64 < c.toNat ∧ c.toNat ≤ 102) := by
  rw [isIpChar, Bool.or_eq_true, Bool.or_eq_true, beq_iff_eq, beq_iff_eq] at h
  rcases h with (h | rfl) | rfl
  · rw [Option.isSome_iff_exists] at h
    obtain ⟨value, hvalue⟩ := h
    rw [toDigit, Option.filter_eq_some_iff] at hvalue
    have hsome := hvalue.1
    split at hsome
    · omega
    · split at hsome
      · omega
      · split at hsome
        · omega
        · exact absurd hsome (by simp)
  · decide
  · decide

/-- The letter `l` is in no address. -/
theorem toLower_ne_of_isIpChar {c : Char} (h : isIpChar c = true) : c.toLower ≠ 'l' := by
  have hall : ∀ n < 103, isIpChar (Char.ofNat n) = true → (Char.ofNat n).toLower ≠ 'l' := by
    decide
  have hrange := range_of_isIpChar h
  rw [← Char.ofNat_toNat c] at h ⊢
  exact hall c.toNat (by omega) h

example : (parseIp "127.0.0.1".toList).map IpAddr.isLoopback = some true := by decide

example : parseIp "::ffff:1.2.3.4".toList = some (.v6 [0, 0, 0, 0, 0, 65535, 258, 772]) := by decide

example : parseIp "127.0.0.01".toList = none := by decide

end Kafkax.IpAddresses
