import Mathlib.Algebra.GroupWithZero.Nat
import Mathlib.Data.List.Basic

/-!
# Maps as lists of their entries

A map that a program goes through, and not only looks things up in, is modelled by the list of its
entries.  `insert` keeps at most one entry for a key.
-/

/-- The entries of a map, in some order. -/
abbrev Entries (K V : Type) := List (K × V)

namespace Entries

variable {K V : Type} [DecidableEq K] {entries : Entries K V} {key key' : K} {value : V}

def find (entries : Entries K V) (key : K) : Option V := List.lookup key entries

def erase (entries : Entries K V) (key : K) : Entries K V :=
  entries.filter fun entry => decide (entry.1 ≠ key)

def insert (entries : Entries K V) (key : K) (value : V) : Entries K V :=
  (key, value) :: erase entries key

theorem mem_of_find (h : find entries key = some value) : (key, value) ∈ entries := by
  induction entries with
  | nil => cases h
  | cons entry _ ih =>
    obtain ⟨k, v⟩ := entry
    rw [find, List.lookup_cons] at h
    split at h
    · rename_i hk
      rw [beq_iff_eq] at hk
      cases h
      exact hk ▸ List.mem_cons_self
    · exact List.mem_cons_of_mem _ (ih h)

theorem find_ne_none_of_mem {entry : K × V} (h : entry ∈ entries) : find entries entry.1 ≠ none := by
  intro hnone
  rw [find, List.lookup_eq_none_iff] at hnone
  simpa using hnone entry h

theorem mem_of_mem_erase {entry : K × V} (h : entry ∈ erase entries key) : entry ∈ entries :=
  List.mem_of_mem_filter h

theorem find_cons (entry : K × V) : find (entry :: entries) key =
    if key = entry.1 then some entry.2 else find entries key := by
  rw [find, List.lookup_cons]
  by_cases h : key = entry.1
  · rw [if_pos h, beq_iff_eq.2 h]
  · rw [if_neg h, beq_false_of_ne h]
    rfl

@[simp]
theorem find_erase_self : find (erase entries key) key = none := by
  induction entries with
  | nil => rfl
  | cons _ _ ih =>
    rw [erase, List.filter_cons]
    split
    · rename_i h
      rw [decide_eq_true_eq] at h
      rw [find_cons, if_neg (Ne.symm h)]
      exact ih
    · exact ih

theorem erase_of_find_eq_none (h : find entries key = none) : erase entries key = entries := by
  refine List.filter_eq_self.2 fun entry hentry => decide_eq_true ?_
  rintro rfl
  exact find_ne_none_of_mem hentry h

theorem find_erase_of_ne (h : key' ≠ key) : find (erase entries key) key' = find entries key' := by
  induction entries with
  | nil => rfl
  | cons _ _ ih =>
    rw [erase, List.filter_cons]
    split
    · rw [find_cons, find_cons]
      split
      · rfl
      · exact ih
    · rename_i hk
      rw [decide_eq_true_eq, not_not] at hk
      rw [find_cons, if_neg (hk ▸ h)]
      exact ih

@[simp]
theorem find_insert_self : find (insert entries key value) key = some value := by
  rw [insert, find_cons, if_pos rfl]

theorem find_insert_of_ne (h : key' ≠ key) :
    find (insert entries key value) key' = find entries key' := by
  rw [insert, find_cons, if_neg h, find_erase_of_ne h]

theorem length_insert_le (entries : Entries K V) (key : K) (value : V) :
    (insert entries key value).length ≤ entries.length + 1 :=
  Nat.succ_le_succ (List.length_filter_le _ _)

/-- What is found when a key is gone. -/
theorem of_find_erase (h : find (erase entries key) key' = some value) :
    key' ≠ key ∧ find entries key' = some value := by
  by_cases hsame : key' = key
  · rw [hsame, find_erase_self] at h
    cases h
  · exact ⟨hsame, (find_erase_of_ne hsame).symm.trans h⟩

/-- What is found when a key is there. -/
theorem of_find_insert {value' : V} (h : find (insert entries key value) key' = some value') :
    key' = key ∧ value = value' ∨ key' ≠ key ∧ find entries key' = some value' := by
  by_cases hsame : key' = key
  · rw [hsame, find_insert_self] at h
    exact .inl ⟨hsame, Option.some.inj h⟩
  · exact .inr ⟨hsame, (find_insert_of_ne hsame).symm.trans h⟩

/-! ## Maps with one entry for a key -/

/-- No key has two entries. -/
def Distinct (entries : Entries K V) : Prop := (entries.map Prod.fst).Nodup

theorem find_of_mem (h : Distinct entries) (hmem : (key, value) ∈ entries) :
    find entries key = some value := by
  induction entries with
  | nil => cases hmem
  | cons _ _ ih =>
    obtain ⟨hfirst, hrest⟩ := List.nodup_cons.1 h
    rw [find_cons]
    rcases List.mem_cons.1 hmem with rfl | hmem
    · exact if_pos rfl
    rw [if_neg]
    · exact ih hrest hmem
    · rintro rfl
      exact hfirst (List.mem_map.2 ⟨_, hmem, rfl⟩)

omit [DecidableEq K] in
theorem distinct_filter (h : Distinct entries) (p : K × V → Bool) : Distinct (entries.filter p) :=
  List.Nodup.sublist (List.filter_sublist.map _) h

theorem distinct_erase (h : Distinct entries) : Distinct (erase entries key) := distinct_filter h _

theorem distinct_insert (h : Distinct entries) : Distinct (insert entries key value) := by
  refine List.nodup_cons.2 ⟨fun hmem => ?_, distinct_erase h⟩
  obtain ⟨entry, hentry, hkey⟩ := List.mem_map.1 hmem
  exact of_decide_eq_true (List.mem_filter.1 hentry).2 hkey

theorem perm_cons_erase (h : Distinct entries) (hmem : (key, value) ∈ entries) :
    entries.Perm ((key, value) :: erase entries key) := by
  induction entries with
  | nil => cases hmem
  | cons first _ ih =>
    obtain ⟨hfirst, hrest⟩ := List.nodup_cons.1 h
    rw [erase, List.filter_cons]
    rcases List.mem_cons.1 hmem with rfl | hmem
    · rw [if_neg (by simp)]
      refine List.Perm.cons _ (List.Perm.of_eq (List.filter_eq_self.2 fun other hother => ?_).symm)
      rw [decide_eq_true_eq]
      rintro rfl
      exact hfirst (List.mem_map.2 ⟨other, hother, rfl⟩)
    · have hne : first.1 ≠ key := by
        rintro rfl
        exact hfirst (List.mem_map.2 ⟨_, hmem, rfl⟩)
      rw [if_pos (decide_eq_true hne)]
      exact ((ih hrest hmem).cons first).trans (List.Perm.swap ..)

theorem sum_erase (weight : V → ℕ) (hdistinct : Distinct entries)
    (hfind : find entries key = some value) :
    ((erase entries key).map fun entry => weight entry.2).sum + weight value =
      (entries.map fun entry => weight entry.2).sum := by
  have hperm := (perm_cons_erase hdistinct (mem_of_find hfind)).map fun entry => weight entry.2
  rw [hperm.sum_nat, List.map_cons, List.sum_cons, Nat.add_comm]

section MapValues

variable {W : Type} {f : K → V → W}

omit [DecidableEq K] in
theorem distinct_mapValues (h : Distinct entries) :
    Distinct (entries.map fun entry => (entry.1, f entry.1 entry.2)) := by
  rw [Distinct, List.map_map]
  exact h

theorem find_mapValues :
    find (entries.map fun entry => (entry.1, f entry.1 entry.2)) key =
      (find entries key).map (f key) := by
  induction entries with
  | nil => rfl
  | cons _ _ ih =>
    rw [List.map_cons, find_cons, find_cons]
    split
    · rename_i hkey
      rw [hkey]
      rfl
    · exact ih

end MapValues

theorem find_filter (h : Distinct entries) (p : K × V → Bool) :
    find (entries.filter p) key = (find entries key).filter fun v => p (key, v) := by
  induction entries with
  | nil => rfl
  | cons entry rest ih =>
    obtain ⟨hfirst, hrest⟩ := List.nodup_cons.1 h
    rw [List.filter_cons, find_cons]
    by_cases hkey : key = entry.1
    · -- Further down there is no entry for the key, whether or not this one is kept.
      subst hkey
      rw [if_pos rfl]
      split
      · rename_i hp
        rw [find_cons, if_pos rfl, Option.filter_some, if_pos hp]
      rename_i hp
      rw [Option.filter_some, if_neg hp, ih hrest]
      cases hfind : find rest entry.1 with
      | none => rfl
      | some => exact absurd (List.mem_map.2 ⟨_, mem_of_find hfind, rfl⟩) hfirst
    · rw [if_neg hkey, ← ih hrest]
      split
      · rw [find_cons, if_neg hkey]
      · rfl

end Entries
