import QuickFS.Server.Checks
import QuickFS.Lib.Segments
import Mathlib.Data.List.MinMax
import Mathlib.Data.Prod.Lex

/-!
# The server's table of advisory locks

The export keeps every byte-range lock of every session in one vector of `LockRecord`s.  A request
cuts the requester's own records at the ends of the requested range, appends the new record, sorts
the whole vector and merges neighbours (`replaceOwnerRange`, `mergeOwnerLocks`); a conflict is a
record of somebody else that overlaps the request (`firstConflict`).

This file embeds those functions and proves them as operations on a segment table: the owner of a
lock — identity, session and owner number — is the key, and the kind together with the process id
is the value.  What `set_lock` as a whole does with them is the subject of `QuickFS.Server.Posix`.
-/

namespace QuickFS.Server

open SegmentTable

/-- Which file a handle is open on: the host's device and inode numbers. -/
structure FileIdentity where
  device : ℕ
  inode : ℕ
deriving DecidableEq

structure LockRecord where
  identity : FileIdentity
  session : Uuid
  lock : FileLock
deriving DecidableEq

/-- `MAX_LOCK_RECORDS`. -/
def maxLockRecords : ℕ := 65536

/-! ## The functions on the vector -/

/-- `ranges_overlap`. -/
def rangesOverlap (left right : FileLock) : Bool :=
  decide (left.start ≤ right.stop) && decide (right.start ≤ left.stop)

/-- The test `first_conflict` filters the table by. -/
def conflicts (identity : FileIdentity) (session : Uuid) (requested : FileLock)
    (record : LockRecord) : Bool :=
  decide (record.identity = identity) &&
    !(decide (record.session = session) && decide (record.lock.owner = requested.owner)) &&
    rangesOverlap record.lock requested &&
    (decide (record.lock.kind = .write) || decide (requested.kind = .write))

/-- `first_conflict`: the conflicting record with the smallest first byte. -/
def firstConflict (locks : List LockRecord) (identity : FileIdentity) (session : Uuid)
    (requested : FileLock) : Option LockRecord :=
  (locks.filter (conflicts identity session requested)).argmin fun record => record.lock.start

/-- What is left of `record` below the requested range. -/
def LockRecord.leftOf (record : LockRecord) (requested : FileLock) : LockRecord :=
  { record with lock := { record.lock with
      stop := requested.start - 1
      stop_le := le_trans (Nat.sub_le _ _) requested.start_le } }

/-- What is left of `record` above the requested range. -/
def LockRecord.rightOf (record : LockRecord) (requested : FileLock) : LockRecord :=
  { record with lock := { record.lock with
      start := saturatingAdd requested.stop 1
      start_le := saturatingAdd_le _ _ } }

/-- One iteration of the loop of `replace_owner_range`: what `next` receives for `record`. -/
def remains (identity : FileIdentity) (session : Uuid) (requested : FileLock)
    (record : LockRecord) : List LockRecord :=
  if record.identity ≠ identity ∨ record.session ≠ session ∨
      record.lock.owner ≠ requested.owner ∨ rangesOverlap record.lock requested = false then
    [record]
  else
    (if record.lock.start < requested.start then [record.leftOf requested] else []) ++
      (if record.lock.stop > requested.stop then [record.rightOf requested] else [])

/-- All of the sort key but the first byte: device, inode, session, owner and `kind as u8`. -/
def LockRecord.sortGroup (record : LockRecord) : List ℕ :=
  [record.identity.device, record.identity.inode, record.session, record.lock.owner,
    record.lock.kind.code]

/-- The key `merge_owner_locks` sorts by. -/
def LockRecord.sortKey (record : LockRecord) : List ℕ ×ₗ ℕ :=
  toLex (record.sortGroup, record.lock.start)

/-- The test under which the loop of `merge_owner_locks` extends the last record it has kept. -/
def mergeable (previous record : LockRecord) : Bool :=
  decide (previous.identity = record.identity) && decide (previous.session = record.session) &&
    decide (previous.lock.owner = record.lock.owner) &&
    decide (previous.lock.kind = record.lock.kind) &&
    decide (previous.lock.pid = record.lock.pid) &&
    decide (saturatingAdd previous.lock.stop 1 ≥ record.lock.start)

/-- `previous.lock.end = previous.lock.end.max(record.lock.end)`. -/
def LockRecord.extend (previous record : LockRecord) : LockRecord :=
  { previous with lock := { previous.lock with
      stop := max previous.lock.stop record.lock.stop
      stop_le := max_le previous.lock.stop_le record.lock.stop_le } }

/-- `merge_owner_locks`: a stable sort, and one pass that extends the last record kept. -/
def mergeOwnerLocks (locks : List LockRecord) : List LockRecord :=
  match locks.insertionSort fun a b => a.sortKey ≤ b.sortKey with
  | [] => []
  | record :: rest => coalesce mergeable LockRecord.extend record rest

/-- The vector `replace_owner_range` builds before it looks at its length. -/
def replaced (locks : List LockRecord) (identity : FileIdentity) (session : Uuid)
    (requested : FileLock) (insert : Bool) : List LockRecord :=
  mergeOwnerLocks (locks.flatMap (remains identity session requested) ++
    if insert then [⟨identity, session, requested⟩] else [])

/-- `replace_owner_range`. -/
def replaceOwnerRange (locks : List LockRecord) (identity : FileIdentity) (session : Uuid)
    (requested : FileLock) (insert : Bool) : Except ServerError (List LockRecord) :=
  let next := replaced locks identity session requested insert
  if next.length > maxLockRecords then .error .tooManyLocks else .ok next

/-! ## The vector as a segment table -/

/-- Whose lock a record is. -/
structure LockOwner where
  identity : FileIdentity
  session : Uuid
  owner : ℕ
deriving DecidableEq

/-- A record read as a segment. -/
def LockRecord.segment (record : LockRecord) : SegmentTable.Segment LockOwner (LockKind × ℕ) where
  key := ⟨record.identity, record.session, record.lock.owner⟩
  first := record.lock.start
  last := record.lock.stop
  value := (record.lock.kind, record.lock.pid)

open LockRecord (leftOf rightOf sortGroup)

theorem mergeable_iff (a b : LockRecord) : mergeable a b = true ↔
    a.segment.key = b.segment.key ∧ a.segment.value = b.segment.value ∧
      b.segment.first ≤ a.segment.last + 1 := by
  have hb := b.lock.start_le
  have hsat : saturatingAdd a.lock.stop 1 ≥ b.lock.start ↔ b.lock.start ≤ a.lock.stop + 1 := by
    rw [saturatingAdd]; omega
  simp only [mergeable, Bool.and_eq_true, decide_eq_true_eq, hsat, LockRecord.segment,
    LockOwner.mk.injEq, Prod.mk.injEq]
  tauto

/-- The sort and the pass of `mergeOwnerLocks` are those of a segment table. -/
theorem coalescing : Coalescing LockRecord.segment sortGroup mergeable
    LockRecord.extend where
  key_of_group a b h := by
    simp only [sortGroup, List.cons.injEq, and_true] at h
    obtain ⟨hd, hi, hs, ho, _⟩ := h
    have hid : a.identity = b.identity := by
      cases ha : a.identity; cases hb : b.identity
      rw [ha, hb] at hd hi
      simp_all
    simp [LockRecord.segment, hid, hs, ho]
  group_of_value a b hk hv := by
    simp only [LockRecord.segment, LockOwner.mk.injEq] at hk
    simp only [LockRecord.segment, Prod.mk.injEq] at hv
    simp [sortGroup, hk, hv]
  touches_iff := mergeable_iff
  join_seg _ _ := rfl
  join_group _ _ := rfl

/-- The sorted vector is ready for the merging pass. -/
theorem ready_insertionSort {l : List LockRecord} (hne : Inhabited LockRecord.segment l)
    (hd : Disjoint LockRecord.segment l) :
    Ready LockRecord.segment sortGroup
      (l.insertionSort fun a b => a.sortKey ≤ b.sortKey) := by
  have : Std.Total fun a b : LockRecord => a.sortKey ≤ b.sortKey :=
    ⟨fun a b => le_total a.sortKey b.sortKey⟩
  have : IsTrans LockRecord fun a b => a.sortKey ≤ b.sortKey :=
    ⟨fun _ _ _ hab hbc => le_trans hab hbc⟩
  have hp := List.perm_insertionSort (fun a b : LockRecord => a.sortKey ≤ b.sortKey) l
  refine ⟨hne.perm hp.symm, hd.perm hp.symm, ?_⟩
  exact (List.pairwise_insertionSort (fun a b : LockRecord => a.sortKey ≤ b.sortKey) l).imp
    fun {a b} h => Prod.Lex.le_iff.1 h

/-- **`merge_owner_locks` normalises the table and keeps its meaning.** -/
theorem mergeOwnerLocks_spec {l : List LockRecord} {m : LockOwner → ℕ → Option (LockKind × ℕ)}
    (hne : Inhabited LockRecord.segment l) (hd : Disjoint LockRecord.segment l)
    (hm : Denotes LockRecord.segment l m) :
    Canonical LockRecord.segment (mergeOwnerLocks l) ∧
      Denotes LockRecord.segment (mergeOwnerLocks l) m := by
  have hready := ready_insertionSort hne hd
  have hp := List.perm_insertionSort (fun a b : LockRecord => a.sortKey ≤ b.sortKey) l
  have hm' := hm.perm hp.symm
  rw [mergeOwnerLocks]
  split
  · rename_i hnil
    rw [hnil] at hm'
    exact ⟨⟨by intro a ha; simp at ha, List.Pairwise.nil, List.Pairwise.nil⟩, hm'⟩
  rename_i record rest hcons
  rw [hcons] at hready hm'
  refine ⟨canonical_coalesce coalescing record rest hready, fun k b v => ?_⟩
  rw [holds_coalesce coalescing k b v record rest hready]
  exact hm' k b v

/-! ## Replacing the requester's range -/

section Replace

variable {locks : List LockRecord} {m : LockOwner → ℕ → Option (LockKind × ℕ)}
  {identity : FileIdentity} {session : Uuid} {requested : FileLock}

/-- The loop body cuts exactly the requested bytes out of the requester's own records. -/
theorem holds_remains (identity : FileIdentity) (session : Uuid) (requested : FileLock)
    (record : LockRecord) (k : LockOwner) (b : ℕ) (v : LockKind × ℕ) :
    Holds LockRecord.segment (remains identity session requested record) k b v ↔
      Holds LockRecord.segment [record] k b v ∧
        ¬ (k = ⟨identity, session, requested.owner⟩ ∧ requested.start ≤ b ∧ b ≤ requested.stop) := by
  have hstop := record.lock.stop_le
  rw [remains]
  split
  · rename_i hskip
    rw [holds_singleton]
    refine ⟨fun h => ⟨h, ?_⟩, fun h => h.1⟩
    rintro ⟨hk, h1, h2⟩
    obtain ⟨hrk, hr1, hr2, _⟩ := h
    rw [hk] at hrk
    simp only [LockRecord.segment, LockOwner.mk.injEq] at hrk hr1 hr2
    simp only [rangesOverlap, Bool.and_eq_false_iff, decide_eq_false_iff_not] at hskip
    rcases hskip with hi | hs | ho | hr
    · exact hi hrk.1
    · exact hs hrk.2.1
    · exact ho hrk.2.2
    · omega
  · rename_i hcut
    simp only [not_or, not_not, ne_eq, Bool.not_eq_false, rangesOverlap, Bool.and_eq_true,
      decide_eq_true_eq] at hcut
    obtain ⟨hi, hs, ho, ho1, ho2⟩ := hcut
    rw [holds_append, holds_singleton]
    have hleft : Holds LockRecord.segment
          (if record.lock.start < requested.start then [record.leftOf requested] else []) k b v ↔
        (record.segment.key = k ∧ record.segment.value = v ∧ record.lock.start ≤ b ∧
          b < requested.start) := by
      split
      · rw [holds_singleton]
        simp only [LockRecord.segment, leftOf]
        constructor
        · rintro ⟨h1, h2, h3, h4⟩; exact ⟨h1, h4, h2, by omega⟩
        · rintro ⟨h1, h2, h3, h4⟩; exact ⟨h1, h3, by omega, h2⟩
      · simp only [holds_nil, false_iff]; omega
    have hright : Holds LockRecord.segment
          (if record.lock.stop > requested.stop then [record.rightOf requested] else []) k b v ↔
        (record.segment.key = k ∧ record.segment.value = v ∧ requested.stop < b ∧
          b ≤ record.lock.stop) := by
      split
      · rename_i hgt
        rw [holds_singleton]
        simp only [LockRecord.segment, rightOf,
          saturatingAdd_eq (a := requested.stop) (b := 1) (by omega)]
        constructor
        · rintro ⟨h1, h2, h3, h4⟩; exact ⟨h1, h4, by omega, h3⟩
        · rintro ⟨h1, h2, h3, h4⟩; exact ⟨h1, by omega, h4, h2⟩
      · simp only [holds_nil, false_iff]; omega
    have hkey : record.segment.key = ⟨identity, session, requested.owner⟩ := by
      simp [LockRecord.segment, hi, hs, ho]
    rw [hleft, hright, hkey]
    simp only [LockRecord.segment]
    constructor
    · rintro (⟨rfl, h2, h3, h4⟩ | ⟨rfl, h2, h3, h4⟩)
      · exact ⟨⟨rfl, h3, by omega, h2⟩, by omega⟩
      · exact ⟨⟨rfl, by omega, h4, h2⟩, by omega⟩
    rintro ⟨⟨rfl, h2, h3, h4⟩, hout⟩
    by_cases hb : b < requested.start
    · exact Or.inl ⟨rfl, h4, h2, hb⟩
    · exact Or.inr ⟨rfl, h4, by by_contra hle; exact hout ⟨rfl, by omega, by omega⟩, h3⟩

/-- The pieces of a record lie in it, keep its owner and are not empty. -/
theorem mem_remains {record piece : LockRecord} (hne : record.lock.start ≤ record.lock.stop)
    (h : piece ∈ remains identity session requested record) :
    piece.segment.key = record.segment.key ∧ record.lock.start ≤ piece.lock.start ∧
      piece.lock.stop ≤ record.lock.stop ∧ piece.lock.start ≤ piece.lock.stop := by
  have hstop := record.lock.stop_le
  rw [remains] at h
  split at h
  · obtain rfl := List.mem_singleton.1 h
    exact ⟨rfl, le_refl _, le_refl _, hne⟩
  rename_i hcut
  simp only [not_or, ne_eq, Bool.not_eq_false, rangesOverlap, Bool.and_eq_true,
    decide_eq_true_eq] at hcut
  obtain ⟨-, -, -, ho1, ho2⟩ := hcut
  rcases List.mem_append.1 h with h | h
  · split at h
    · obtain rfl := List.mem_singleton.1 h
      refine ⟨rfl, le_refl _, ?_, ?_⟩ <;> simp only [leftOf] <;> omega
    · exact absurd h (by simp)
  · split at h
    · obtain rfl := List.mem_singleton.1 h
      have hsat := saturatingAdd_eq (a := requested.stop) (b := 1) (by omega)
      refine ⟨rfl, ?_, le_refl _, ?_⟩ <;> simp only [rightOf, hsat] <;> omega
    · exact absurd h (by simp)

theorem disjoint_remains (hreq : requested.start ≤ requested.stop) {record : LockRecord} :
    Disjoint LockRecord.segment (remains identity session requested record) := by
  rw [remains]
  split
  · exact List.pairwise_singleton _ _
  refine List.pairwise_append.2 ⟨?_, ?_, ?_⟩
  · split <;> simp
  · split <;> simp
  intro p hp q hq _
  split at hp
  · split at hq
    · rename_i _ hgt
      obtain rfl := List.mem_singleton.1 hp
      obtain rfl := List.mem_singleton.1 hq
      have hstop := record.lock.stop_le
      have hsat := saturatingAdd_eq (a := requested.stop) (b := 1) (by omega)
      left
      simp only [LockRecord.segment, leftOf, rightOf, hsat]
      exact Nat.lt_succ_of_le (le_trans (Nat.sub_le _ _) hreq)
    · exact absurd hq (by simp)
  · exact absurd hp (by simp)

/-- **`replace_owner_range` overwrites the requester's bytes and nothing else**, and leaves the
table in normal form. -/
theorem replaced_spec (identity : FileIdentity) (session : Uuid)
    (hreq : requested.start ≤ requested.stop)
    (hc : Canonical LockRecord.segment locks) (hm : Denotes LockRecord.segment locks m)
    (insert : Bool) :
    Canonical LockRecord.segment (replaced locks identity session requested insert) ∧
      Denotes LockRecord.segment (replaced locks identity session requested insert)
        (overwrite m ⟨identity, session, requested.owner⟩ requested.start requested.stop
          (if insert then some (requested.kind, requested.pid) else none)) := by
  have hmcut := hm.flatMap fun record _ => holds_remains identity session requested record
  have hdcut : Disjoint LockRecord.segment (locks.flatMap (remains identity session requested)) :=
    hc.disjoint.flatMap
      (fun record hr piece hp =>
        have h := mem_remains (hc.inhabited record hr) hp
        ⟨h.1, h.2.1, h.2.2.1⟩)
      fun record _ => disjoint_remains hreq
  have hncut : Inhabited LockRecord.segment
      (locks.flatMap (remains identity session requested)) := by
    intro piece hp
    obtain ⟨record, hr, hpr⟩ := List.mem_flatMap.1 hp
    exact (mem_remains (hc.inhabited record hr) hpr).2.2.2
  cases insert with
  | false => simpa [replaced] using mergeOwnerLocks_spec hncut hdcut hmcut
  | true =>
    have hfree : ∀ b, requested.start ≤ b → b ≤ requested.stop →
        overwrite m ⟨identity, session, requested.owner⟩ requested.start requested.stop none
          ⟨identity, session, requested.owner⟩ b = none := by
      intro b h1 h2
      rw [overwrite, if_pos ⟨rfl, h1, h2⟩]
    have hins := hmcut.concat ⟨identity, session, requested⟩ hfree
    have hdins := hdcut.concat hmcut hncut ⟨identity, session, requested⟩ hreq hfree
    have hnins : Inhabited LockRecord.segment
        (locks.flatMap (remains identity session requested) ++
          [⟨identity, session, requested⟩]) := by
      intro piece hp
      rcases List.mem_append.1 hp with hp | hp
      · exact hncut piece hp
      · obtain rfl := List.mem_singleton.1 hp
        exact hreq
    obtain ⟨hcan, hden⟩ := mergeOwnerLocks_spec hnins hdins hins
    refine ⟨by simpa [replaced] using hcan, ?_⟩
    -- overwriting the cleared range is overwriting the range
    have hover : overwrite (overwrite m ⟨identity, session, requested.owner⟩ requested.start
          requested.stop none) ⟨identity, session, requested.owner⟩ requested.start requested.stop
          (some (requested.kind, requested.pid)) =
        overwrite m ⟨identity, session, requested.owner⟩ requested.start requested.stop
          (some (requested.kind, requested.pid)) := by
      funext k b
      simp only [overwrite]
      split <;> rfl
    rw [if_pos rfl, ← hover]
    exact hden

end Replace

/-! ## Conflicts -/

theorem conflicts_iff (identity : FileIdentity) (session : Uuid) (requested : FileLock)
    (record : LockRecord) : conflicts identity session requested record = true ↔
      record.identity = identity ∧
        ¬ (record.session = session ∧ record.lock.owner = requested.owner) ∧
        (record.lock.start ≤ requested.stop ∧ requested.start ≤ record.lock.stop) ∧
        (record.lock.kind = .write ∨ requested.kind = .write) := by
  simp only [conflicts, rangesOverlap, Bool.and_eq_true, Bool.or_eq_true, Bool.not_eq_true',
    decide_eq_true_eq, Bool.and_eq_false_iff, decide_eq_false_iff_not]
  tauto

variable {locks : List LockRecord} {identity : FileIdentity} {session : Uuid} {requested : FileLock}

theorem firstConflict_eq_none : firstConflict locks identity session requested = none ↔
      ∀ record ∈ locks, conflicts identity session requested record ≠ true := by
  rw [firstConflict, List.argmin_eq_none, List.filter_eq_nil_iff]

end QuickFS.Server
