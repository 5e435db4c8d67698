import Mathlib.Data.List.Sort
import Mathlib.Data.Set.Card

/-!
# Tables of keyed segments

A table of byte ranges is a list of *segments*: a key (whose range it is), an inclusive range of
bytes and a value.  Such a list is an implementation of a map `κ → ℕ → Option ν`, from a key and a
byte to the value held there, and this file says when it is a good one.

* `Denotes seg l m` — the list `l` represents the map `m`.  The elements of `l` need not *be*
  segments: they are records of some type `α` that is read as a segment by `seg : α → Segment κ ν`,
  so that a program's own record type can be used as it stands.
* `Canonical seg l` — no segment is empty, no two segments of one key overlap, and no two segments
  of one key and one value are adjacent.
* `length_of_canonical` — a canonical list has one record for each maximal run of the map, so the
  *number* of records is a function of the map and not of how it came about.

The operations are those of a table that is carved, extended, sorted and coalesced: `flatMap` for
cutting a range out of every segment (`Denotes.flatMap`), adding one segment (`Denotes.concat`),
`filter` for dropping keys (`Denotes.filter_key`) and `coalesce`, one pass over a sorted list that
joins a segment to the one before it when the two touch.
-/

namespace SegmentTable

open List (pairwise_cons mem_cons)

/-- A value held by `key` on the bytes `first, …, last`, both included. -/
structure Segment (κ ν : Type) where
  key : κ
  first : ℕ
  last : ℕ
  value : ν

variable {α κ ν γ : Type}

/-- `k` holds `v` at byte `b` in the table `l`. -/
def Holds (seg : α → Segment κ ν) (l : List α) (k : κ) (b : ℕ) (v : ν) : Prop :=
  ∃ a ∈ l, (seg a).key = k ∧ (seg a).first ≤ b ∧ b ≤ (seg a).last ∧ (seg a).value = v

/-- The table `l` represents the map `m`. -/
def Denotes (seg : α → Segment κ ν) (l : List α) (m : κ → ℕ → Option ν) : Prop :=
  ∀ k b v, m k b = some v ↔ Holds seg l k b v

/-- The map `m` with the bytes `lo, …, hi` of `k` given the value `v`, or cleared. -/
def overwrite [DecidableEq κ] (m : κ → ℕ → Option ν) (k : κ) (lo hi : ℕ) (v : Option ν) :
    κ → ℕ → Option ν :=
  fun k' b => if k' = k ∧ lo ≤ b ∧ b ≤ hi then v else m k' b

/-- Segments of one key that share no byte. -/
def Apart (s t : Segment κ ν) : Prop := s.key = t.key → s.last < t.first ∨ t.last < s.first

/-- `t` starts right after `s` and says the same. -/
def Adjacent (s t : Segment κ ν) : Prop :=
  s.key = t.key ∧ s.value = t.value ∧ s.last + 1 = t.first

/-- Every segment of the table has a byte. -/
def Inhabited (seg : α → Segment κ ν) (l : List α) : Prop := ∀ a ∈ l, (seg a).first ≤ (seg a).last

/-- The segments of each key are pairwise disjoint. -/
def Disjoint (seg : α → Segment κ ν) (l : List α) : Prop :=
  l.Pairwise fun a b => Apart (seg a) (seg b)

/-- No two segments could be replaced by one. -/
def Merged (seg : α → Segment κ ν) (l : List α) : Prop :=
  l.Pairwise fun a b => ¬ Adjacent (seg a) (seg b) ∧ ¬ Adjacent (seg b) (seg a)

/-- The normal form of a table. -/
structure Canonical (seg : α → Segment κ ν) (l : List α) : Prop where
  inhabited : Inhabited seg l
  disjoint : Disjoint seg l
  merged : Merged seg l

/-! ## Reading a table -/

section Reading

variable {seg : α → Segment κ ν} {l l' : List α} {m : κ → ℕ → Option ν}

theorem Apart.symm {s t : Segment κ ν} (h : Apart s t) : Apart t s :=
  fun hk => (h hk.symm).symm

variable (a : α) (k : κ) (b : ℕ) (v : ν)

@[simp] theorem holds_nil : ¬ Holds seg [] k b v := by
  rintro ⟨a, ha, _⟩
  exact absurd ha (by simp)

theorem holds_append : Holds seg (l ++ l') k b v ↔ Holds seg l k b v ∨ Holds seg l' k b v := by
  simp only [Holds, List.mem_append, or_and_right, exists_or]

theorem holds_singleton :
    Holds seg [a] k b v ↔
      (seg a).key = k ∧ (seg a).first ≤ b ∧ b ≤ (seg a).last ∧ (seg a).value = v := by
  simp [Holds]

theorem holds_cons : Holds seg (a :: l) k b v ↔ Holds seg [a] k b v ∨ Holds seg l k b v :=
  holds_append (l := [a]) k b v

theorem Holds.perm (hp : l.Perm l') {k : κ} {b : ℕ} {v : ν} (h : Holds seg l k b v) :
    Holds seg l' k b v := by
  obtain ⟨a, ha, h⟩ := h
  exact ⟨a, hp.mem_iff.1 ha, h⟩

theorem Denotes.perm (hp : l.Perm l') (h : Denotes seg l m) : Denotes seg l' m :=
  fun k b v => (h k b v).trans ⟨fun hl => hl.perm hp, fun hl => hl.perm hp.symm⟩

theorem Inhabited.perm (hp : l.Perm l') (h : Inhabited seg l) : Inhabited seg l' :=
  fun a ha => h a (hp.mem_iff.2 ha)

theorem Disjoint.perm (hp : l.Perm l') (h : Disjoint seg l) : Disjoint seg l' :=
  (hp.pairwise_iff fun hab => hab.symm).1 h

/-- Disjointness does not depend on which of two segments comes first. -/
theorem Disjoint.apart (hd : Disjoint seg l) {a c : α} (ha : a ∈ l) (hc : c ∈ l) (hne : a ≠ c) :
    Apart (seg a) (seg c) :=
  haveI : Std.Symm fun a b : α => Apart (seg a) (seg b) := ⟨fun _ _ h => h.symm⟩
  List.Pairwise.forall hd ha hc hne

/-- Nor does being merged. -/
theorem Merged.not_adjacent (hm : Merged seg l) {a c : α} (ha : a ∈ l) (hc : c ∈ l) (hne : a ≠ c) :
    ¬ Adjacent (seg a) (seg c) :=
  haveI : Std.Symm fun a b : α => ¬ Adjacent (seg a) (seg b) ∧ ¬ Adjacent (seg b) (seg a) :=
    ⟨fun _ _ h => ⟨h.2, h.1⟩⟩
  (List.Pairwise.forall hm ha hc hne).1

end Reading

/-! ## Changing a table -/

section Changing

variable [DecidableEq κ] {seg : α → Segment κ ν} {l : List α} {m : κ → ℕ → Option ν}

theorem overwrite_eq_some {k k' : κ} {lo hi b : ℕ} {v : ν} :
    overwrite m k lo hi none k' b = some v ↔ m k' b = some v ∧ ¬ (k' = k ∧ lo ≤ b ∧ b ≤ hi) := by
  rw [overwrite]
  split
  · rename_i h; simp [h]
  · rename_i h; simp [h]

/-- Cutting the bytes `lo, …, hi` of `k` out of every segment clears them in the map. -/
theorem Denotes.flatMap {pieces : α → List α} {k : κ} {lo hi : ℕ} (h : Denotes seg l m)
    (hp : ∀ a ∈ l, ∀ k' b v, Holds seg (pieces a) k' b v ↔
      Holds seg [a] k' b v ∧ ¬ (k' = k ∧ lo ≤ b ∧ b ≤ hi)) :
    Denotes seg (l.flatMap pieces) (overwrite m k lo hi none) := by
  intro k' b v
  rw [overwrite_eq_some, h k' b v]
  constructor
  · rintro ⟨⟨a, ha, hv⟩, hout⟩
    obtain ⟨p, hpa, hpv⟩ := (hp a ha k' b v).2 ⟨(holds_singleton a k' b v).2 hv, hout⟩
    exact ⟨p, List.mem_flatMap.2 ⟨a, ha, hpa⟩, hpv⟩
  rintro ⟨p, hpl, hpv⟩
  obtain ⟨a, ha, hpa⟩ := List.mem_flatMap.1 hpl
  obtain ⟨hav, hout⟩ := (hp a ha k' b v).1 ⟨p, hpa, hpv⟩
  exact ⟨⟨a, ha, (holds_singleton a k' b v).1 hav⟩, hout⟩

omit [DecidableEq κ] in
/-- Pieces of disjoint segments are disjoint. -/
theorem Disjoint.flatMap {pieces : α → List α} (h : Disjoint seg l)
    (hsub : ∀ a ∈ l, ∀ p ∈ pieces a, (seg p).key = (seg a).key ∧
      (seg a).first ≤ (seg p).first ∧ (seg p).last ≤ (seg a).last)
    (hd : ∀ a ∈ l, Disjoint seg (pieces a)) : Disjoint seg (l.flatMap pieces) := by
  induction l with
  | nil => exact List.Pairwise.nil
  | cons a l ih =>
    rw [Disjoint, pairwise_cons] at h
    rw [List.flatMap_cons, Disjoint, List.pairwise_append]
    refine ⟨hd a (by simp), ih h.2 (fun c hc => hsub c (by simp [hc]))
      (fun c hc => hd c (by simp [hc])), ?_⟩
    intro p hp q hq hpq
    obtain ⟨c, hc, hqc⟩ := List.mem_flatMap.1 hq
    obtain ⟨hkp, hp1, hp2⟩ := hsub a (by simp) p hp
    obtain ⟨hkq, hq1, hq2⟩ := hsub c (by simp [hc]) q hqc
    have hac := h.1 c hc (hkp.symm.trans (hpq.trans hkq))
    omega

/-- Adding a segment on bytes nobody of its key holds. -/
theorem Denotes.concat (h : Denotes seg l m) (a : α)
    (hfree : ∀ b, (seg a).first ≤ b → b ≤ (seg a).last → m (seg a).key b = none) :
    Denotes seg (l ++ [a])
      (overwrite m (seg a).key (seg a).first (seg a).last (some (seg a).value)) := by
  intro k b v
  rw [holds_append, holds_singleton, ← h k b v, overwrite]
  split
  · rename_i hin
    obtain ⟨rfl, h1, h2⟩ := hin
    simp [hfree b h1 h2, h1, h2]
  rename_i hout
  constructor
  · exact Or.inl
  rintro (hm | ⟨rfl, h1, h2, _⟩)
  · exact hm
  · exact absurd ⟨rfl, h1, h2⟩ hout

omit [DecidableEq κ] in
theorem Disjoint.concat (h : Disjoint seg l) (hd : Denotes seg l m) (hne : Inhabited seg l) (a : α)
    (hle : (seg a).first ≤ (seg a).last)
    (hfree : ∀ b, (seg a).first ≤ b → b ≤ (seg a).last → m (seg a).key b = none) :
    Disjoint seg (l ++ [a]) := by
  rw [Disjoint, List.pairwise_append]
  refine ⟨h, List.pairwise_singleton _ _, ?_⟩
  intro c hc a' ha' hk
  obtain rfl := List.mem_singleton.1 ha'
  -- a shared byte would be one that `c` holds and that is free
  have hcne := hne c hc
  by_contra hover
  rw [not_or, not_lt, not_lt] at hover
  have hb : m (seg a').key (max (seg c).first (seg a').first) = some (seg c).value :=
    (hd _ _ _).2 ⟨c, hc, hk, by omega, by omega, rfl⟩
  rw [hfree _ (by omega) (by omega)] at hb
  exact absurd hb (by simp)

omit [DecidableEq κ] in
/-- Dropping every segment of some keys clears those keys. -/
theorem Denotes.filter_key {keep : α → Bool} {P : κ → Prop} [DecidablePred P]
    (h : Denotes seg l m) (hkeep : ∀ a ∈ l, keep a = true ↔ ¬ P (seg a).key) :
    Denotes seg (l.filter keep) (fun k b => if P k then none else m k b) := by
  intro k b v
  by_cases hk : P k
  · simp only [if_pos hk]
    refine ⟨fun hf => absurd hf (by simp), ?_⟩
    rintro ⟨a, ha, rfl, -⟩
    obtain ⟨hal, hak⟩ := List.mem_filter.1 ha
    exact absurd hk ((hkeep a hal).1 hak)
  · simp only [if_neg hk, h k b v]
    constructor
    · rintro ⟨a, ha, rfl, hv⟩
      exact ⟨a, List.mem_filter.2 ⟨ha, (hkeep a ha).2 hk⟩, rfl, hv⟩
    · rintro ⟨a, ha, hv⟩
      exact ⟨a, (List.mem_filter.1 ha).1, hv⟩

omit [DecidableEq κ] in
theorem Canonical.filter (keep : α → Bool) (h : Canonical seg l) : Canonical seg (l.filter keep) :=
  ⟨fun a ha => h.inhabited a (List.mem_filter.1 ha).1, h.disjoint.filter keep, h.merged.filter keep⟩

end Changing

/-! ## Coalescing a sorted table

One pass over a list sorted by a *group* and, inside a group, by first byte.  The group decides
the key and is decided by key and value; a disjoint list then has its adjacent segments side by
side, whatever other values lie in the same group. -/

/-- Join each element to the one before it when the two touch; `a` is the last element of what has
been built so far. -/
def coalesce (touches : α → α → Bool) (join : α → α → α) : α → List α → List α
  | a, [] => [a]
  | a, b :: rest =>
    if touches a b then coalesce touches join (join a b) rest
    else a :: coalesce touches join b rest

/-- What `coalesce` needs of its arguments, on segments that are where the sort puts them. -/
structure Coalescing (seg : α → Segment κ ν) (group : α → γ) (touches : α → α → Bool)
    (join : α → α → α) : Prop where
  key_of_group : ∀ a b, group a = group b → (seg a).key = (seg b).key
  group_of_value : ∀ a b, (seg a).key = (seg b).key → (seg a).value = (seg b).value →
    group a = group b
  touches_iff : ∀ a b, touches a b = true ↔
    (seg a).key = (seg b).key ∧ (seg a).value = (seg b).value ∧ (seg b).first ≤ (seg a).last + 1
  join_seg : ∀ a b, seg (join a b) = { seg a with last := max (seg a).last (seg b).last }
  join_group : ∀ a b, group (join a b) = group a

/-- The order of the sort: by group, then by first byte. -/
def Before [LT γ] (seg : α → Segment κ ν) (group : α → γ) (a b : α) : Prop :=
  group a < group b ∨ (group a = group b ∧ (seg a).first ≤ (seg b).first)

section Coalesce

variable [LinearOrder γ] {seg : α → Segment κ ν} {group : α → γ}
  {touches : α → α → Bool} {join : α → α → α}

/-- What a pass may assume of the list it walks over. -/
structure Ready (seg : α → Segment κ ν) (group : α → γ) (l : List α) : Prop where
  inhabited : Inhabited seg l
  disjoint : Disjoint seg l
  sorted : l.Pairwise (Before seg group)

variable {a b : α} {l : List α}

theorem Ready.tail (h : Ready seg group (a :: l)) : Ready seg group l :=
  ⟨fun c hc => h.inhabited c (by simp [hc]),
    (pairwise_cons.1 h.disjoint).2, (pairwise_cons.1 h.sorted).2⟩

section

variable (hc : Coalescing seg group touches join)

include hc

/-- Two elements that touch are exactly adjacent when the list is sorted and disjoint. -/
theorem Ready.adjacent_of_touches (h : Ready seg group (a :: b :: l)) (ht : touches a b = true) :
    Adjacent (seg a) (seg b) := by
  obtain ⟨hk, hv, htouch⟩ := (hc.touches_iff a b).1 ht
  have hap := (pairwise_cons.1 h.disjoint).1 b (by simp) hk
  have hb := h.inhabited b (by simp)
  have ha := h.inhabited a (by simp)
  rcases (pairwise_cons.1 h.sorted).1 b (by simp) with hlt | ⟨_, hle⟩
  · exact absurd (hc.group_of_value a b hk hv) (ne_of_lt hlt)
  · exact ⟨hk, hv, by omega⟩

/-- Joining two adjacent elements keeps the list ready. -/
theorem Ready.joined (h : Ready seg group (a :: b :: l))
    (ht : touches a b = true) : Ready seg group (join a b :: l) := by
  obtain ⟨hk, hv, hadj⟩ := h.adjacent_of_touches hc ht
  have ha := h.inhabited a (by simp)
  have hb := h.inhabited b (by simp)
  have hsj := hc.join_seg a b
  refine ⟨?_, ?_, ?_⟩
  · intro c hcm
    rcases mem_cons.1 hcm with rfl | hcl
    · rw [hsj]; show (seg a).first ≤ max (seg a).last (seg b).last; omega
    · exact h.inhabited c (by simp [hcl])
  · refine pairwise_cons.2 ⟨fun c hcl => ?_, h.tail.tail.disjoint⟩
    have hac := (pairwise_cons.1 h.disjoint).1 c (by simp [hcl])
    have hbc := (pairwise_cons.1 h.tail.disjoint).1 c hcl
    have hcc := h.inhabited c (by simp [hcl])
    rw [Apart, hsj]
    intro hkc
    have h1 := hac hkc
    have h2 := hbc (hk.symm.trans hkc)
    show max (seg a).last (seg b).last < (seg c).first ∨ (seg c).last < (seg a).first
    omega
  · refine pairwise_cons.2 ⟨fun c hcl => ?_, h.tail.tail.sorted⟩
    rw [Before, hc.join_group, hsj]
    exact (pairwise_cons.1 h.sorted).1 c (by simp [hcl])

/-- A pass changes the list, not the map. -/
theorem holds_coalesce (k : κ) (byte : ℕ) (v : ν)
    (a : α) (l : List α) (h : Ready seg group (a :: l)) :
    Holds seg (coalesce touches join a l) k byte v ↔ Holds seg (a :: l) k byte v := by
  induction l generalizing a with
  | nil => exact Iff.rfl
  | cons b l ih =>
    rw [coalesce]
    split
    · rename_i ht
      obtain ⟨hk, hv, hadj⟩ := h.adjacent_of_touches hc ht
      have ha := h.inhabited a (by simp)
      have hb := h.inhabited b (by simp)
      rw [ih _ (h.joined hc ht), holds_cons, holds_cons a, holds_cons b, ← or_assoc]
      refine or_congr_left ?_
      rw [holds_singleton, holds_singleton, holds_singleton, hc.join_seg, ← hk, ← hv, ← hadj]
      show (seg a).key = k ∧ (seg a).first ≤ byte ∧ byte ≤ max (seg a).last (seg b).last ∧
        (seg a).value = v ↔ _
      constructor
      · rintro ⟨h1, h2, h3, h4⟩
        by_cases hle : byte ≤ (seg a).last
        · exact Or.inl ⟨h1, h2, hle, h4⟩
        · exact Or.inr ⟨h1, by omega, by omega, h4⟩
      · rintro (⟨h1, h2, h3, h4⟩ | ⟨h1, h2, h3, h4⟩)
        · exact ⟨h1, h2, by omega, h4⟩
        · exact ⟨h1, by omega, by omega, h4⟩
    · rw [holds_cons, ih b h.tail, ← holds_cons]

end

omit [LinearOrder γ] in
/-- Every element of the result starts where an element of the input starts, and says the same. -/
theorem exists_first_of_mem_coalesce (hc : Coalescing seg group touches join) (a : α)
    (l : List α) {x : α} (hx : x ∈ coalesce touches join a l) :
    ∃ y ∈ a :: l, (seg x).key = (seg y).key ∧ (seg x).value = (seg y).value ∧
      (seg x).first = (seg y).first ∧ group x = group y := by
  induction l generalizing a with
  | nil => exact ⟨x, hx, rfl, rfl, rfl, rfl⟩
  | cons b l ih =>
    rw [coalesce] at hx
    split at hx
    · obtain ⟨y, hy, hxy⟩ := ih _ hx
      rcases mem_cons.1 hy with rfl | hyl
      · rw [hc.join_seg, hc.join_group] at hxy
        exact ⟨a, by simp, hxy⟩
      · exact ⟨y, by simp [hyl], hxy⟩
    · rcases mem_cons.1 hx with rfl | hxl
      · exact ⟨x, by simp, rfl, rfl, rfl, rfl⟩
      · obtain ⟨y, hy, hxy⟩ := ih b hxl
        exact ⟨y, List.mem_cons_of_mem _ hy, hxy⟩

/-- Whatever holds of the input's elements and survives a join holds of the output's. -/
theorem forall_mem_coalesce {P : α → Prop} (hjoin : ∀ a b, P a → P b → P (join a b)) (a : α)
    (l : List α) (h : ∀ c ∈ a :: l, P c) : ∀ x ∈ coalesce touches join a l, P x := by
  induction l generalizing a with
  | nil => exact h
  | cons b l ih =>
    rw [coalesce]
    split
    · refine ih _ fun c hcm => ?_
      rcases mem_cons.1 hcm with rfl | hcl
      · exact hjoin a b (h a (by simp)) (h b (by simp))
      · exact h c (by simp [hcl])
    · intro x hx
      rcases mem_cons.1 hx with rfl | hxl
      · exact h x (by simp)
      · exact ih b (fun c hcm => h c (List.mem_cons_of_mem _ hcm)) x hxl

/-- An element followed by something it does not touch is adjacent to nothing later either: what
lies between them in the sorted list has the same key, and would overlap one of the two. -/
theorem Ready.not_adjacent (hc : Coalescing seg group touches join)
    (h : Ready seg group (a :: b :: l)) (ht : touches a b ≠ true) {y : α} (hy : y ∈ b :: l) :
    ¬ ((seg a).key = (seg y).key ∧ (seg a).value = (seg y).value ∧
      (seg a).last + 1 = (seg y).first) := by
  rintro ⟨hk, hv, hadj⟩
  rcases mem_cons.1 hy with rfl | hyl
  · refine ht ((hc.touches_iff a y).2 ⟨hk, hv, ?_⟩)
    omega
  have hgy := hc.group_of_value a y hk hv
  have hab := (pairwise_cons.1 h.sorted).1 b (by simp)
  have hby := (pairwise_cons.1 h.tail.sorted).1 y hyl
  -- `b` lies between `a` and `y` in the order, so it is of their group and hence of their key
  have hgab : group a = group b := by
    rcases hab with hlt | ⟨he, _⟩
    · rcases hby with hlt' | ⟨he', _⟩
      · exact absurd hgy (ne_of_lt (hlt.trans hlt'))
      · exact absurd hgy (ne_of_lt (he' ▸ hlt))
    · exact he
  have hf1 : (seg a).first ≤ (seg b).first := by
    rcases hab with hlt | ⟨_, hle⟩
    · exact absurd hgab (ne_of_lt hlt)
    · exact hle
  have hf2 : (seg b).first ≤ (seg y).first := by
    rcases hby with hlt | ⟨_, hle⟩
    · exact absurd (hgab.symm.trans hgy) (ne_of_lt hlt)
    · exact hle
  have hkb := hc.key_of_group a b hgab
  have h1 := (pairwise_cons.1 h.disjoint).1 b (by simp) hkb
  have h2 := (pairwise_cons.1 h.tail.disjoint).1 y hyl (hkb.symm.trans hk)
  have hb := h.inhabited b (by simp)
  have hyne := h.inhabited y (by simp [hyl])
  omega

/-- **A pass over a sorted disjoint table makes it canonical.** -/
theorem canonical_coalesce (hc : Coalescing seg group touches join) (a : α) (l : List α)
    (h : Ready seg group (a :: l)) : Canonical seg (coalesce touches join a l) := by
  induction l generalizing a with
  | nil => exact ⟨h.inhabited, h.disjoint, List.pairwise_singleton _ _⟩
  | cons b l ih =>
    rw [coalesce]
    split
    · rename_i ht; exact ih _ (h.joined hc ht)
    rename_i ht
    have htail := ih b h.tail
    have ha := h.inhabited a (by simp)
    refine ⟨?_, ?_, ?_⟩
    · intro c hcm
      rcases mem_cons.1 hcm with rfl | hcl
      · exact ha
      · exact htail.inhabited c hcl
    · refine pairwise_cons.2 ⟨fun x hx hk => ?_, htail.disjoint⟩
      -- a shared byte is held by `x`, hence by an element of the input that `a` is apart from
      have hx' := htail.inhabited x hx
      by_contra hover
      rw [not_or, not_lt, not_lt] at hover
      obtain ⟨c, hcl, hck, hc1, hc2, _⟩ :=
        (holds_coalesce hc (seg x).key (max (seg a).first (seg x).first) (seg x).value b l
          h.tail).1 ⟨x, hx, rfl, by omega, by omega, rfl⟩
      have := (pairwise_cons.1 h.disjoint).1 c hcl (hk.trans hck.symm)
      omega
    · refine pairwise_cons.2 ⟨fun x hx => ?_, htail.merged⟩
      obtain ⟨y, hy, hyk, hyv, hyf, hyg⟩ := exists_first_of_mem_coalesce hc b l hx
      refine ⟨fun ⟨hk, hv, hadj⟩ => ?_, fun ⟨hk, hv, hadj⟩ => ?_⟩
      · exact h.not_adjacent hc ht hy ⟨hk.trans hyk, hv.trans hyv, hadj.trans hyf⟩
      have hg := hc.group_of_value y a (hyk.symm.trans hk) (hyv.symm.trans hv)
      have hx' := htail.inhabited x hx
      rcases (pairwise_cons.1 h.sorted).1 y hy with hlt | ⟨_, hle⟩
      · exact absurd hg (ne_of_gt hlt)
      · omega

end Coalesce

/-! ## The number of records -/

/-- The bytes at which a maximal run of equal values starts. -/
def runStarts (m : κ → ℕ → Option ν) : Set (κ × ℕ) :=
  { p | ∃ v, m p.1 p.2 = some v ∧ (p.2 = 0 ∨ m p.1 (p.2 - 1) ≠ some v) }

variable {seg : α → Segment κ ν} {l : List α} {m : κ → ℕ → Option ν}

theorem mem_runStarts_iff (hd : Denotes seg l m) (h : Canonical seg l) {p : κ × ℕ} :
    p ∈ runStarts m ↔ ∃ a ∈ l, ((seg a).key, (seg a).first) = p := by
  obtain ⟨k, b⟩ := p
  constructor
  · rintro ⟨v, hv, hstart⟩
    obtain ⟨a, ha, rfl, h1, h2, rfl⟩ := (hd k b v).1 hv
    refine ⟨a, ha, ?_⟩
    by_contra hne
    have hlt : (seg a).first < b := by
      rcases Nat.eq_or_lt_of_le h1 with he | hlt
      · exact absurd (by rw [he]) hne
      · exact hlt
    rcases hstart with h0 | hprev
    · simp only at h0; omega
    · exact hprev ((hd _ _ _).2 ⟨a, ha, rfl, by simp only; omega, by simp only; omega, rfl⟩)
  · rintro ⟨a, ha, hp⟩
    obtain ⟨rfl, rfl⟩ := Prod.mk.inj hp
    have hne := h.inhabited a ha
    refine ⟨(seg a).value, (hd _ _ _).2 ⟨a, ha, rfl, le_refl _, hne, rfl⟩, ?_⟩
    by_contra hcon
    rw [not_or, not_not] at hcon
    obtain ⟨h0, hprev⟩ := hcon
    obtain ⟨c, hcl, hck, hc1, hc2, hcv⟩ := (hd _ _ _).1 hprev
    simp only at h0 hc1 hc2
    have hca : c ≠ a := by rintro rfl; omega
    have hap := h.disjoint.apart hcl ha hca hck
    exact h.merged.not_adjacent hcl ha hca ⟨hck, hcv, by omega⟩

/-- **The size of a canonical table is determined by its map**: one record for each run. -/
theorem length_of_canonical (hd : Denotes seg l m) (h : Canonical seg l) :
    l.length = (runStarts m).ncard := by
  classical
  have hnodup : (l.map fun a => ((seg a).key, (seg a).first)).Nodup := by
    rw [List.Nodup, List.pairwise_map]
    refine List.Pairwise.imp_of_mem ?_ h.disjoint
    intro a c ha hc hap heq
    obtain ⟨hk, hf⟩ := Prod.mk.inj heq
    have h1 := h.inhabited a ha
    have h2 := h.inhabited c hc
    have := hap hk
    omega
  have hset : runStarts m = ((l.map fun a => ((seg a).key, (seg a).first)).toFinset : Set _) := by
    ext p
    rw [mem_runStarts_iff hd h, Finset.mem_coe, List.mem_toFinset, List.mem_map]
  rw [hset, Set.ncard_coe_finset, List.toFinset_card_of_nodup hnodup, List.length_map]

end SegmentTable
