import Mathlib.Data.List.Sort

/-!
# A sorted map

A map kept as the list of its entries in the order of their keys, each key once.  A write replaces
the entry of its key or puts a new one in its place.  The order is kept (`sorted_put`), the key
has the value that was written, and every other key what it had (`lookup_put`).  Since there is
one sorted list for a map, two of them with the same values are equal (`eq_of_lookup`), however
they were written.
-/

namespace Kafkax.SortedMaps

variable {K V : Type} [LinearOrder K]

/-- Writes the value of a key. -/
def put (key : K) (value : V) : List (K × V) → List (K × V)
  | [] => [(key, value)]
  | (k, v) :: rest =>
    if key < k then (key, value) :: (k, v) :: rest
    else if key = k then (key, value) :: rest
    else (k, v) :: put key value rest

/-- In the order of their keys, each key once. -/
abbrev Sorted (map : List (K × V)) : Prop := map.Pairwise fun a b => a.1 < b.1

theorem mem_put {key : K} {value : V} {map : List (K × V)} {entry : K × V}
    (h : entry ∈ put key value map) : entry = (key, value) ∨ entry ∈ map := by
  induction map with
  | nil => exact Or.inl (List.mem_singleton.mp h)
  | cons first rest ih =>
    rw [put] at h
    split at h
    · exact List.mem_cons.mp h
    · split at h
      · exact (List.mem_cons.mp h).imp_right (List.mem_cons_of_mem first)
      · rcases List.mem_cons.mp h with hfirst | hrest
        · exact Or.inr (List.mem_cons.mpr (Or.inl hfirst))
        · exact (ih hrest).imp_right (List.mem_cons_of_mem first)

theorem sorted_put (key : K) (value : V) {map : List (K × V)} (h : Sorted map) :
    Sorted (put key value map) := by
  induction map with
  | nil => exact List.pairwise_singleton _ _
  | cons first rest ih =>
    obtain ⟨hfirst, hrest⟩ := List.pairwise_cons.mp h
    rw [put]
    by_cases hlt : key < first.1
    · rw [if_pos hlt]
      refine List.pairwise_cons.mpr ⟨fun entry hentry => ?_, h⟩
      rcases List.mem_cons.mp hentry with hentry | hentry
      · rw [hentry]
        exact hlt
      · exact hlt.trans (hfirst entry hentry)
    · rw [if_neg hlt]
      by_cases heq : key = first.1
      · rw [if_pos heq, heq]
        exact List.pairwise_cons.mpr ⟨hfirst, hrest⟩
      · rw [if_neg heq]
        refine List.pairwise_cons.mpr ⟨fun entry hentry => ?_, ih hrest⟩
        rcases mem_put hentry with hentry | hentry
        · rw [hentry]
          exact lt_of_le_of_ne (not_lt.mp hlt) (Ne.symm heq)
        · exact hfirst entry hentry

theorem lookup_cons_eq_ite (entry : K × V) (rest : List (K × V)) (k : K) :
    (entry :: rest).lookup k = if k = entry.1 then some entry.2 else rest.lookup k := by
  obtain ⟨key, value⟩ := entry
  by_cases hk : k = key
  · rw [if_pos hk, hk, List.lookup_cons_self]
  · rw [if_neg hk, List.lookup_cons, beq_false_of_ne hk]

/-- **A write** sets its key, and no other. -/
theorem lookup_put (key : K) (value : V) (map : List (K × V)) (k : K) :
    (put key value map).lookup k = if k = key then some value else map.lookup k := by
  induction map with
  | nil => exact lookup_cons_eq_ite (key, value) [] k
  | cons first rest ih =>
    rw [put]
    by_cases hlt : key < first.1
    · rw [if_pos hlt, lookup_cons_eq_ite]
    · rw [if_neg hlt]
      by_cases heq : key = first.1
      · rw [if_pos heq, lookup_cons_eq_ite, lookup_cons_eq_ite, ← heq]
        by_cases hk : k = key
        · rw [if_pos hk, if_pos hk]
        · rw [if_neg hk, if_neg hk, if_neg hk]
      · rw [if_neg heq, lookup_cons_eq_ite, lookup_cons_eq_ite, ih]
        by_cases hk : k = first.1
        · rw [if_pos hk, if_pos hk, if_neg fun hkey => heq (hkey.symm.trans hk)]
        · rw [if_neg hk, if_neg hk]

theorem lookup_eq_some_iff_mem {map : List (K × V)} (h : Sorted map) {key : K} {value : V} :
    map.lookup key = some value ↔ (key, value) ∈ map := by
  constructor
  · intro hlookup
    obtain ⟨front, back, hmap, -⟩ := List.lookup_eq_some_iff.mp hlookup
    rw [hmap]
    exact List.mem_append_right front List.mem_cons_self
  · intro hmem
    obtain ⟨front, back, hmap⟩ := List.mem_iff_append.mp hmem
    refine List.lookup_eq_some_iff.mpr ⟨front, back, hmap, fun entry hentry => ?_⟩
    rw [hmap] at h
    have hlt : entry.1 < key :=
      (List.pairwise_append.mp h).2.2 entry hentry (key, value) List.mem_cons_self
    exact bne_iff_ne.mpr hlt.ne'

/-- **There is one list for a map.** -/
theorem eq_of_lookup {map map' : List (K × V)} (h : Sorted map) (h' : Sorted map')
    (hlookup : ∀ key, map.lookup key = map'.lookup key) : map = map' := by
  have : Std.Irrefl fun a b : K × V => a.1 < b.1 := ⟨fun a => lt_irrefl a.1⟩
  have : Std.Antisymm fun a b : K × V => a.1 < b.1 := ⟨fun a b hab hba => absurd hab hba.asymm⟩
  refine List.Pairwise.eq_of_mem_iff h h' fun entry => ?_
  rw [← lookup_eq_some_iff_mem h, ← lookup_eq_some_iff_mem h', hlookup]

end Kafkax.SortedMaps
