import Mathlib.Algebra.Order.BigOperators.Group.List
import Mathlib.Algebra.Order.Group.Nat
import QuickFS.Cache.Files

/-!
# The books of the cache

The state of the persistent cache keeps the sum of the lengths of its payloads next to its entries,
and every change of the entries changes both.  If the two ever came apart, `checked_sub` would fail
sooner or later, and from then on every change would be refused as `InvalidManifest`.

`Accounted` is the invariant that prevents it.  It also says where entries come from: each describes
bytes that were stored under its key, for whatever `L` is said to have been stored.  This module is
about the functions of the state: each of them keeps the invariant, and under it none of the
subtractions fails (`Accounted.removeKey`, `Accounted.evictLoop`, `Accounted.insertPrepared`).
-/

namespace QuickFS.Files

/-! ## Accounted states -/

/-- The entry is the one that `insert_entries` makes for these bytes. -/
structure DiskEntry.Describes (enc : Encoding) (entry : DiskEntry) (bytes : List UInt8) : Prop where
  fileName : entry.fileName = enc.fileName entry.key bytes
  storedLength : entry.storedLength = bytes.length
  sha256 : entry.sha256 = enc.sha256 bytes

/-- The lengths of the payloads, together. -/
def storedBytes (entries : Entries EntryKey DiskEntry) : ℕ :=
  (entries.map fun entry => entry.2.storedLength).sum

variable (state : PersistentState) (keys : List EntryKey)

theorem touchEntries_payloadBytes :
    (state.touchEntries keys).payloadBytes = state.payloadBytes := by
  induction keys generalizing state with
  | nil => rfl
  | cons key _ ih => exact ih (state.touchEntry key)

theorem touchEntries_length : (state.touchEntries keys).entries.length = state.entries.length := by
  induction keys generalizing state with
  | nil => rfl
  | cons key _ ih => exact (ih (state.touchEntry key)).trans (List.length_map _)

/-- The books of a state are in order, and its entries describe what `L` says was stored. -/
structure Accounted (enc : Encoding) (L : EntryKey → List UInt8 → Prop) (state : PersistentState) :
    Prop where
  bytes : state.payloadBytes = storedBytes state.entries
  distinct : Entries.Distinct state.entries
  key : ∀ p ∈ state.entries, p.2.key = p.1
  clock : ∀ p ∈ state.entries, p.2.lastAccess ≤ state.clock
  clock_le : state.clock ≤ u64Max
  described : ∀ p ∈ state.entries, ∃ bytes, L p.1 bytes ∧ p.2.Describes enc bytes

/-- The same, whatever was stored. -/
abbrev Balanced (enc : Encoding) (state : PersistentState) : Prop :=
  Accounted enc (fun _ _ => True) state

variable {entries : Entries EntryKey DiskEntry} {p : EntryKey × DiskEntry}

theorem storedLength_le (h : p ∈ entries) : p.2.storedLength ≤ storedBytes entries :=
  List.le_sum_of_mem
    (List.mem_map_of_mem (f := fun entry : EntryKey × DiskEntry => entry.2.storedLength) h)

/-- What a splice does when it succeeds. -/
theorem of_splice {state after : PersistentState} {maximum : ℕ}
    {prepared : List PersistentState.PreparedEntry}
    (h : state.splice maximum prepared = .ok after) :
    ∃ proposed, prepared.foldlM PersistentState.insertPrepared state = .ok proposed ∧
      proposed.entries.length ≤ maxManifestEntries ∧ proposed.evictToBudget maximum = .ok after := by
  rw [PersistentState.splice] at h
  split at h
  · cases h
  rename_i proposed hproposed
  split at h
  · cases h
  rename_i hfew
  exact ⟨proposed, hproposed, Nat.le_of_not_lt hfew, h⟩

namespace Accounted

variable {enc : Encoding} {L : EntryKey → List UInt8 → Prop} {state after : PersistentState}

theorem nil {clock : ℕ} (h : clock ≤ u64Max) : Accounted enc L ⟨clock, 0, []⟩ where
  bytes := rfl
  distinct := List.nodup_nil
  key _ h := nomatch h
  clock _ h := nomatch h
  clock_le := h
  described _ h := nomatch h

theorem empty : Accounted enc L .empty := nil (Nat.zero_le _)

variable (h : Accounted enc L state)

include h

theorem mono {L' : EntryKey → List UInt8 → Prop} (hL : ∀ key bytes, L key bytes → L' key bytes) :
    Accounted enc L' state :=
  { h with described := fun p hp =>
      let ⟨bytes, hbytes, hdescribes⟩ := h.described p hp
      ⟨bytes, hL _ _ hbytes, hdescribes⟩ }

theorem clock_le_nextClock : state.clock ≤ state.nextClock.clock :=
  Nat.le_min.2 ⟨Nat.le_succ _, h.clock_le⟩

theorem nextClock : Accounted enc L state.nextClock :=
  { h with
    clock := fun p hp => Nat.le_trans (h.clock p hp) h.clock_le_nextClock
    clock_le := saturatingAdd_le _ _ }

/-! ### Touches -/

theorem touchEntry (key : EntryKey) : Accounted enc L (state.touchEntry key) := by
  have hnext := h.nextClock
  have hmem : ∀ p ∈ (state.touchEntry key).entries, ∃ entry, (p.1, entry) ∈ state.entries ∧
      p.2.key = entry.key ∧ p.2.fileName = entry.fileName ∧ p.2.sha256 = entry.sha256 ∧
      p.2.storedLength = entry.storedLength ∧
      p.2.lastAccess ≤ state.nextClock.clock := by
    intro p hp
    obtain ⟨q, hq, rfl⟩ := List.mem_map.1 hp
    refine ⟨q.2, hq, ?_⟩
    dsimp only
    split
    · exact ⟨rfl, rfl, rfl, rfl, Nat.le_refl _⟩
    · exact ⟨rfl, rfl, rfl, rfl, hnext.clock q hq⟩
  have hdistinct : Entries.Distinct (state.touchEntry key).entries := by
    change ((state.entries.map _).map Prod.fst).Nodup
    rw [List.map_map]
    exact h.distinct
  refine ⟨?_, hdistinct, fun p hp => ?_, fun p hp => ?_, saturatingAdd_le _ _, fun p hp => ?_⟩
  · change state.payloadBytes = storedBytes (state.entries.map _)
    rw [h.bytes, storedBytes, storedBytes, List.map_map]
    congr 2
    funext p
    dsimp only [Function.comp]
    split <;> rfl
  · obtain ⟨entry, hentry, hkey, -⟩ := hmem p hp
    exact hkey.trans (h.key _ hentry)
  · obtain ⟨_, _, _, _, _, _, hlast⟩ := hmem p hp
    exact hlast
  · obtain ⟨entry, hentry, hkey, hname, hsha, hlength, -⟩ := hmem p hp
    obtain ⟨bytes, hbytes, hdescribes⟩ := h.described _ hentry
    exact ⟨bytes, hbytes, by rw [hname, hkey]; exact hdescribes.fileName,
      hlength.trans hdescribes.storedLength, hsha.trans hdescribes.sha256⟩

theorem touchEntries : Accounted enc L (state.touchEntries keys) := by
  induction keys generalizing state with
  | nil => exact h
  | cons key _ ih => exact ih (h.touchEntry key)

/-! ### Removals -/

/-- **The subtraction never fails.** -/
theorem removeKey (key : EntryKey) :
    ∃ after, state.removeKey key = some after ∧ Accounted enc L after ∧
      after.payloadBytes ≤ state.payloadBytes ∧
      after.entries = state.entries.erase key ∧ after.clock = state.clock := by
  rw [PersistentState.removeKey]
  split
  · rename_i hfind
    refine ⟨state, rfl, h, Nat.le_refl _, ?_, rfl⟩
    rw [Entries.erase, eq_comm, List.filter_eq_self]
    intro p hp
    rw [decide_eq_true_eq]
    rintro rfl
    rw [Entries.find_of_mem h.distinct hp] at hfind
    cases hfind
  · rename_i entry hfind
    have hle : entry.storedLength ≤ state.payloadBytes :=
      h.bytes ▸ storedLength_le (Entries.mem_of_find hfind)
    rw [checkedSub, if_pos hle]
    refine ⟨_, rfl, ⟨?_, Entries.distinct_erase h.distinct,
      fun p hp => h.key p (Entries.mem_of_mem_erase hp),
      fun p hp => h.clock p (Entries.mem_of_mem_erase hp), h.clock_le,
      fun p hp => h.described p (Entries.mem_of_mem_erase hp)⟩, Nat.sub_le _ _, rfl, rfl⟩
    have hsum := Entries.sum_erase DiskEntry.storedLength h.distinct hfind
    have hbytes := h.bytes
    dsimp only [storedBytes] at hbytes ⊢
    omega

theorem removeKeys :
    ∃ after, keys.foldlM PersistentState.removeKey state = some after ∧ Accounted enc L after ∧
      after.payloadBytes ≤ state.payloadBytes := by
  induction keys generalizing state with
  | nil => exact ⟨state, rfl, h, Nat.le_refl _⟩
  | cons key _ ih =>
    obtain ⟨mid, hmid, haccounted, hle, -⟩ := h.removeKey key
    obtain ⟨after, hafter, haccounted', hle'⟩ := ih haccounted
    exact ⟨after, by rw [List.foldlM_cons, hmid]; exact hafter, haccounted', Nat.le_trans hle' hle⟩

omit h in
theorem oldest_mem (h : PersistentState.oldest entries = some p) : p ∈ entries := by
  cases entries with
  | nil => cases h
  | cons first rest =>
    cases h
    induction rest generalizing first with
    | nil => exact List.mem_cons_self
    | cons second _ ih =>
      rw [List.foldl_cons]
      split
      · exact List.mem_cons_of_mem _ (ih second)
      rcases List.mem_cons.1 (ih first) with heq | hmem
      · rw [heq]
        exact List.mem_cons_self
      · exact List.mem_cons_of_mem _ (List.mem_cons_of_mem _ hmem)

/-- There is always an entry to evict while the payloads are over the budget. -/
theorem evictLoop {maximum rounds : ℕ} (hrounds : state.entries.length ≤ rounds) :
    ∃ after, PersistentState.evictLoop maximum rounds state = .ok after ∧
      Accounted enc L after ∧ after.payloadBytes ≤ maximum ∧
      after.entries.length ≤ state.entries.length := by
  induction rounds generalizing state with
  | zero =>
    have hnil : state.entries = [] := List.eq_nil_of_length_eq_zero (Nat.le_zero.1 hrounds)
    have hzero : state.payloadBytes = 0 := by rw [h.bytes, hnil]; rfl
    refine ⟨state, ?_, h, by omega, Nat.le_refl _⟩
    rw [PersistentState.evictLoop, if_neg (by omega)]
  | succ _ ih =>
    rw [PersistentState.evictLoop]
    split
    · rename_i hover
      cases hold : PersistentState.oldest state.entries with
      | none =>
        have hnil : state.entries = [] := by
          cases hentries : state.entries with
          | nil => rfl
          | cons => rw [hentries] at hold; cases hold
        have hzero : state.payloadBytes = 0 := by rw [h.bytes, hnil]; rfl
        omega
      | some p =>
        obtain ⟨mid, hmid, haccounted, -, hentries, -⟩ := h.removeKey p.1
        have hlt : mid.entries.length < state.entries.length := by
          rw [hentries]
          exact List.length_filter_lt_length_iff_exists.2 ⟨p, oldest_mem hold, by simp⟩
        obtain ⟨after, hafter, haccounted', hbound, hlength⟩ := ih haccounted (by omega)
        refine ⟨after, ?_, haccounted', hbound, by omega⟩
        dsimp only
        rw [hmid]
        exact hafter
    · rename_i hover
      exact ⟨state, rfl, h, Nat.le_of_not_lt hover, Nat.le_refl _⟩

theorem evictToBudget (maximum : ℕ) :
    ∃ after, state.evictToBudget maximum = .ok after ∧ Accounted enc L after ∧
      after.payloadBytes ≤ maximum ∧ after.entries.length ≤ state.entries.length :=
  h.evictLoop (Nat.le_refl _)

/-! ### Insertions -/

/-- An entry that `L` says is stored, and its place in the state. -/
theorem insertPrepared {key : EntryKey} {bytes : List UInt8} (hL : L key bytes) :
    state.insertPrepared (.of enc key bytes) ≠ .error .invalidManifest ∧
      ∀ after, state.insertPrepared (.of enc key bytes) = .ok after → Accounted enc L after := by
  obtain ⟨mid, hmid, haccounted, -, hentries, -⟩ := h.nextClock.removeKey key
  rw [PersistentState.insertPrepared]
  dsimp only [PersistentState.PreparedEntry.of]
  rw [hmid]
  dsimp only
  split
  · exact ⟨nofun, nofun⟩
  rename_i total htotal
  refine ⟨nofun, fun after hafter => ?_⟩
  cases hafter
  rw [checkedAdd] at htotal
  split at htotal
  · cases htotal
    have herase : mid.entries.erase key = mid.entries := by
      rw [hentries, Entries.erase, Entries.erase, List.filter_filter]
      simp only [Bool.and_self]
    refine ⟨?_, Entries.distinct_insert haccounted.distinct, ?_, ?_, haccounted.clock_le, ?_⟩
    · change _ = storedBytes ((_, _) :: mid.entries.erase key)
      rw [herase, storedBytes, List.map_cons, List.sum_cons, Nat.add_comm]
      exact congrArg _ haccounted.bytes
    · rintro p (_ | ⟨_, hp⟩)
      · rfl
      · exact haccounted.key p (Entries.mem_of_mem_erase hp)
    · rintro p (_ | ⟨_, hp⟩)
      · exact Nat.le_refl _
      · exact haccounted.clock p (Entries.mem_of_mem_erase hp)
    rintro p (_ | ⟨_, hp⟩)
    · exact ⟨bytes, hL, rfl, rfl, rfl⟩
    · exact haccounted.described p (Entries.mem_of_mem_erase hp)
  · cases htotal

theorem insertAll {entries : Payloads} (hL : ∀ p ∈ entries, L p.1 p.2) :
    (entries.map fun p => .of enc p.1 p.2).foldlM PersistentState.insertPrepared state ≠
        .error .invalidManifest ∧
      ∀ after, (entries.map fun p => .of enc p.1 p.2).foldlM PersistentState.insertPrepared state =
        .ok after → Accounted enc L after := by
  induction entries generalizing state with
  | nil =>
    refine ⟨nofun, fun after hafter => ?_⟩
    cases hafter
    exact h
  | cons p _ ih =>
    obtain ⟨hne, hok⟩ := h.insertPrepared (hL p List.mem_cons_self)
    rw [List.map_cons, List.foldlM_cons]
    cases hfirst : state.insertPrepared (.of enc p.1 p.2) with
    | error =>
      rw [hfirst] at hne
      exact ⟨hne, nofun⟩
    | ok mid => exact ih (hok mid hfirst) fun q hq => hL q (List.mem_cons_of_mem _ hq)

/-- **A splice fails for its size alone**: a sum beyond 64 bits, or too many entries. -/
theorem splice (maximum : ℕ) {entries : Payloads}
    (hL : ∀ p ∈ entries, L p.1 p.2)
    (hafter : state.splice maximum (entries.map fun p => .of enc p.1 p.2) = .ok after) :
    Accounted enc L after ∧ after.payloadBytes ≤ maximum := by
  obtain ⟨proposed, hproposed, -, hafter⟩ := of_splice hafter
  obtain ⟨after', hafter', haccounted, hbound, -⟩ :=
    ((h.insertAll hL).2 proposed hproposed).evictToBudget maximum
  rw [hafter'] at hafter
  cases hafter
  exact ⟨haccounted, hbound⟩

end Accounted

/-! ### What is in a new state -/

theorem mem_removeKey {state after : PersistentState} {key : EntryKey}
    (h : state.removeKey key = some after) (hp : p ∈ after.entries) :
    p ∈ state.entries ∧ p.1 ≠ key := by
  rw [PersistentState.removeKey] at h
  split at h
  · rename_i hfind
    cases h
    refine ⟨hp, ?_⟩
    rintro rfl
    exact Entries.find_ne_none_of_mem hp hfind
  · rw [Option.map_eq_some_iff] at h
    obtain ⟨bytes, -, rfl⟩ := h
    obtain ⟨hmem, hne⟩ := List.mem_filter.1 hp
    exact ⟨hmem, of_decide_eq_true hne⟩

theorem mem_removeKeys {state after : PersistentState} {keys : List EntryKey}
    (h : keys.foldlM PersistentState.removeKey state = some after)
    (hp : p ∈ after.entries) : p ∈ state.entries ∧ p.1 ∉ keys := by
  induction keys generalizing state with
  | nil =>
    cases h
    exact ⟨hp, nofun⟩
  | cons _ _ ih =>
    rw [List.foldlM_cons, Option.bind_eq_bind, Option.bind_eq_some_iff] at h
    obtain ⟨mid, hmid, h⟩ := h
    obtain ⟨hmem, hrest⟩ := ih h
    obtain ⟨hmem, hne⟩ := mem_removeKey hmid hmem
    exact ⟨hmem, fun hkey => (List.mem_cons.1 hkey).elim hne hrest⟩

theorem mem_evictLoop {state after : PersistentState} {maximum rounds : ℕ}
    (h : PersistentState.evictLoop maximum rounds state = .ok after)
    (hp : p ∈ after.entries) : p ∈ state.entries := by
  induction rounds generalizing state with
  | zero =>
    rw [PersistentState.evictLoop] at h
    split at h <;> cases h
    exact hp
  | succ _ ih =>
    rw [PersistentState.evictLoop] at h
    split at h
    · split at h
      · cases h
      split at h
      · cases h
      · rename_i mid hmid
        exact (mem_removeKey hmid (ih h)).1
    · cases h
      exact hp

/-- The entry was made from this prepared entry. -/
def MadeFrom (entry : PersistentState.PreparedEntry) (p : EntryKey × DiskEntry) : Prop :=
  ∃ clock, p = (entry.key, entry.entry clock)

theorem mem_insertPrepared {state after : PersistentState} {entry : PersistentState.PreparedEntry}
    (h : state.insertPrepared entry = .ok after) (hp : p ∈ after.entries) :
    p ∈ state.entries ∧ p.1 ≠ entry.key ∨ MadeFrom entry p := by
  rw [PersistentState.insertPrepared] at h
  split at h
  · cases h
  rename_i mid hmid
  split at h
  · cases h
  cases h
  rcases List.mem_cons.1 hp with rfl | hp
  · exact .inr ⟨_, rfl⟩
  · have hold := mem_removeKey hmid (Entries.mem_of_mem_erase hp)
    exact .inl hold

variable {prepared : List PersistentState.PreparedEntry}

theorem mem_insertAll {state after : PersistentState}
    (h : prepared.foldlM PersistentState.insertPrepared state = .ok after)
    (hp : p ∈ after.entries) : (p ∈ state.entries ∧ ∀ entry ∈ prepared, p.1 ≠ entry.key) ∨
      ∃ entry ∈ prepared, MadeFrom entry p := by
  induction prepared generalizing state with
  | nil =>
    cases h
    exact .inl ⟨hp, nofun⟩
  | cons entry _ ih =>
    rw [List.foldlM_cons] at h
    cases hfirst : state.insertPrepared entry with
    | error => rw [hfirst] at h; cases h
    | ok =>
      rw [hfirst] at h
      rcases ih h with ⟨hmem, hne⟩ | ⟨other, hother, hmade⟩
      · rcases mem_insertPrepared hfirst hmem with ⟨hmem, hne'⟩ | hmade
        · exact .inl ⟨hmem, List.forall_mem_cons.2 ⟨hne', hne⟩⟩
        · exact .inr ⟨entry, List.mem_cons_self, hmade⟩
      · exact .inr ⟨other, List.mem_cons_of_mem _ hother, hmade⟩

/-- **What is in a spliced state** was there before, under another key, or is new. -/
theorem mem_splice {state after : PersistentState} {maximum : ℕ}
    (h : state.splice maximum prepared = .ok after) (hp : p ∈ after.entries) :
    (p ∈ state.entries ∧ ∀ entry ∈ prepared, p.1 ≠ entry.key) ∨
      ∃ entry ∈ prepared, MadeFrom entry p := by
  obtain ⟨proposed, hproposed, -, hevicted⟩ := of_splice h
  exact mem_insertAll hproposed (mem_evictLoop hevicted hp)

theorem prepare_ok {enc : Encoding} {maximum : ℕ} {entries : Payloads}
    (h : PersistentState.prepare enc maximum entries = .ok prepared) :
    prepared = entries.map (fun p => .of enc p.1 p.2) ∧ ∀ p ∈ entries, p.2.length ≤ maximum := by
  induction entries generalizing prepared with
  | nil =>
    cases h
    exact ⟨rfl, nofun⟩
  | cons _ _ ih =>
    rw [PersistentState.prepare] at h
    split at h
    · cases h
    rename_i hle
    split at h
    · cases h
    rename_i others hothers
    cases h
    obtain ⟨heq, hrest⟩ := ih hothers
    exact ⟨by rw [heq, List.map_cons], List.forall_mem_cons.2 ⟨Nat.le_of_not_lt hle, hrest⟩⟩

/-! ### Manifests -/

/-- What a manifest must have been written from. -/
structure Manifest.Good (enc : Encoding) (L : EntryKey → List UInt8 → Prop) (manifest : Manifest) :
    Prop where
  clock : ∀ entry ∈ manifest.entries, entry.lastAccess ≤ manifest.clock
  clock_le : manifest.clock ≤ u64Max
  described : ∀ entry ∈ manifest.entries, ∃ bytes, L entry.key bytes ∧ entry.Describes enc bytes

section Manifest

variable {enc : Encoding} {L : EntryKey → List UInt8 → Prop} {state after : PersistentState}

theorem mem_manifest {entry : DiskEntry} :
    entry ∈ state.manifest.entries ↔ ∃ key, (key, entry) ∈ state.entries := by
  rw [PersistentState.manifest, List.mem_insertionSort, List.mem_map]
  exact ⟨fun ⟨p, hp, heq⟩ => ⟨p.1, heq ▸ hp⟩, fun ⟨key, hmem⟩ => ⟨_, hmem, rfl⟩⟩

theorem Accounted.good_manifest (h : Accounted enc L state) : state.manifest.Good enc L where
  clock entry hmem := by
    obtain ⟨key, hkey⟩ := mem_manifest.1 hmem
    exact h.clock _ hkey
  clock_le := h.clock_le
  described entry hmem := by
    obtain ⟨key, hkey⟩ := mem_manifest.1 hmem
    obtain ⟨bytes, hbytes, hdescribes⟩ := h.described _ hkey
    exact ⟨bytes, by rw [h.key _ hkey]; exact hbytes, hdescribes⟩

theorem Accounted.loadEntry (h : Accounted enc L state) {entry : DiskEntry}
    (hclock : entry.lastAccess ≤ state.clock)
    (hdescribed : ∃ bytes, L entry.key bytes ∧ entry.Describes enc bytes)
    (hafter : state.loadEntry entry = .ok after) :
    Accounted enc L after ∧ after.clock = state.clock := by
  rw [PersistentState.loadEntry] at hafter
  split at hafter
  · cases hafter
  rename_i total htotal
  split at hafter
  · cases hafter
  rename_i hfind
  cases hafter
  rw [checkedAdd] at htotal
  split at htotal
  · cases htotal
    have herase : state.entries.erase entry.key = state.entries := by
      rw [Entries.erase, List.filter_eq_self]
      intro p hp
      rw [decide_eq_true_eq]
      intro hkey
      rw [← hkey, Entries.find_of_mem h.distinct hp] at hfind
      cases hfind
    refine ⟨⟨?_, Entries.distinct_insert h.distinct, ?_, ?_, h.clock_le, ?_⟩, rfl⟩
    · change _ = storedBytes ((_, _) :: state.entries.erase entry.key)
      rw [herase, storedBytes, List.map_cons, List.sum_cons, Nat.add_comm]
      exact congrArg _ h.bytes
    · rintro p (_ | ⟨_, hp⟩)
      · rfl
      · exact h.key p (Entries.mem_of_mem_erase hp)
    · rintro p (_ | ⟨_, hp⟩)
      · exact hclock
      · exact h.clock p (Entries.mem_of_mem_erase hp)
    rintro p (_ | ⟨_, hp⟩)
    · exact hdescribed
    · exact h.described p (Entries.mem_of_mem_erase hp)
  · cases htotal

/-- A good manifest is the manifest of an accounted state, if it can be loaded at all. -/
theorem accounted_load {manifest : Manifest} (hgood : manifest.Good enc L)
    (hload : PersistentState.load enc manifest = .ok after) : Accounted enc L after := by
  rw [PersistentState.load] at hload
  split at hload
  · cases hload
  have hloop : ∀ (entries : List DiskEntry) (state : PersistentState), Accounted enc L state →
      state.clock = manifest.clock → (∀ entry ∈ entries, entry ∈ manifest.entries) →
      entries.foldlM PersistentState.loadEntry state = .ok after → Accounted enc L after := by
    intro entries
    induction entries with
    | nil =>
      intro state h _ _ hfold
      cases hfold
      exact h
    | cons entry _ ih =>
      intro state h hclock hmem hfold
      have hentry := hmem entry List.mem_cons_self
      rw [List.foldlM_cons] at hfold
      cases hfirst : state.loadEntry entry with
      | error => rw [hfirst] at hfold; cases hfold
      | ok mid =>
        rw [hfirst] at hfold
        obtain ⟨haccounted, hclock'⟩ := h.loadEntry (hclock ▸ hgood.clock entry hentry)
          (hgood.described entry hentry) hfirst
        exact ih mid haccounted (hclock'.trans hclock)
          (fun e he => hmem e (List.mem_cons_of_mem _ he)) hfold
  exact hloop _ _ (.nil hgood.clock_le) rfl (fun _ h => h) hload

end Manifest
end QuickFS.Files
