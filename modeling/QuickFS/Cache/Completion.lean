import QuickFS.Cache.Splices
import QuickFS.Cache.Integrity

/-!
# What a caller has waited for

`enqueue_and_wait` hands a job to the writer thread and waits until it says that the batch is done.
It says so whatever came of the job and of the flush, so the question is when they can fail on a
disk that works.

They can: a job that would take the number of entries over `MAX_MANIFEST_ENTRIES` is refused before
anything is evicted to make room for it, and the caller is told that it is done
(`full_cache_refuses`); a manifest of more than `MAX_MANIFEST_SIZE` bytes is not written at all.
The budget that drives eviction knows nothing of either limit.

As long as the limits are kept — `RoomFor` says so of the state before a batch and the values that
its jobs insert — every job does what it is for, and after the flush the manifest gives back the
entries that are in memory (`batches_complete`).

In the middle of a batch commits are deferred, so that a job is a function of the cache: `store` for
an insertion, `discard` for an invalidation.  What the writer does is shown to be that
(`insertEntries_batch` and the lemmas after it), and everything else is about these two.
-/

namespace QuickFS.Files

open Async
open Call (Wp Succeeds Maintains)
open Files.PersistentState (PreparedEntry prepare isCurrent)

variable {E : Type}

/-! ## A disk that works -/

/-- Every call is answered, the manifest is the one that was last written, and payload files may be
whatever they like. -/
structure Reliable (answer : E → (q : DiskCall) → E × Option q.Value)
    (manifest : E → Option Manifest) : Prop where
  works : ∀ e q, (answer e q).2.isSome = true
  read : ∀ e, (answer e .readManifest).2 = some (manifest e)
  write : ∀ e m, manifest (answer e (.writeManifest m)).1 = some m
  other : ∀ e q, (∀ m, q ≠ .writeManifest m) → manifest (answer e q).1 = manifest e

/-- The cache and the manifest on disk are as they were. -/
structure Still (manifest : E → Option Manifest) (c c' : Point sig E) : Prop where
  shared : c'.shared = c.shared
  manifest : manifest c'.env = manifest c.env

variable {enc : Encoding} {answer : E → (q : DiskCall) → E × Option q.Value}
  {manifest : E → Option Manifest} {me : ℕ} {c : Point sig E} {α : Type}

section Calls

theorem Still.refl : Still manifest c c := ⟨rfl, rfl⟩

theorem Still.trans {c1 c2 : Point sig E} (h : Still manifest c c1) (h' : Still manifest c1 c2) :
    Still manifest c c2 :=
  ⟨h'.shared.trans h.shared, h'.manifest.trans h.manifest⟩

namespace Reliable

section

variable (hdisk : Reliable answer manifest)

include hdisk

theorem disk_wp {q : DiskCall} {Q : Except CacheError q.Value → Point sig E → Prop}
    (h : ∀ value, Q (.ok value) { c with env := (answer c.env q).1 }) : Wp answer (disk q) c Q := by
  refine Wp.bind_ask ?_
  have hworks := hdisk.works c.env q
  cases ha : (answer c.env q).2 with
  | none =>
    rw [ha] at hworks
    cases hworks
  | some value => exact Wp.pure (h value)

theorem disk_still {q : DiskCall} (hq : ∀ m, q ≠ .writeManifest m) :
    Succeeds answer (disk q) c fun _ c' => Still manifest c c' :=
  hdisk.disk_wp fun _ => ⟨_, rfl, rfl, hdisk.other _ _ hq⟩

theorem removeUnreferencedFiles_still {state : PersistentState} {names : List FileName} :
    Succeeds answer (removeUnreferencedFiles state names) c fun _ c' => Still manifest c c' := by
  induction names generalizing c with
  | nil => exact Wp.pure ⟨_, rfl, .refl⟩
  | cons _ _ ih =>
    rw [removeUnreferencedFiles]
    split
    · exact ih
    · exact (hdisk.disk_still (by simp)).bind fun _ c1 h1 => ih.imp fun _ _ h2 =>
        h1.trans h2

theorem writePayloads_still (prepared : List PreparedEntry) (written : List FileName) :
    Succeeds answer (writePayloads me prepared written) c fun _ c' => Still manifest c c' := by
  induction prepared generalizing c written with
  | nil => exact Wp.pure ⟨_, rfl, .refl⟩
  | cons _ _ ih =>
    refine Wp.bind (Wp.attempt ((hdisk.disk_still (by nofun)).conseq fun r c1 ⟨a, ha, h1⟩ => ?_))
    subst ha
    exact (ih _).conseq fun _ _ ⟨a, ha, h2⟩ => ⟨a, ha, h1.trans h2⟩

end

end Reliable

/-- A section with the mutex held, when nobody has it. -/
theorem locked_run {m : M α} {Q : Except CacheError α → Point sig E → Prop}
    (hopened : c.shared.opened = true) (hmutex : c.shared.mutex = none)
    (hm : Wp answer m { c with shared := { c.shared with mutex := some me } } fun r c' =>
      Q r { c' with shared := { c'.shared with mutex := none } }) :
    Wp answer (locked me m) c Q := by
  refine Wp.bind_read ?_
  rw [if_pos hopened]
  refine Wp.holding (Wp.access (by rw [hmutex]; rfl) ?_)
  exact hm.conseq fun r c' hQ => Wp.modify hQ

end Calls

/-! ## Jobs -/

namespace PersistentCache

/-- A commit in the middle of a batch. -/
def putOff (cache : PersistentCache) (proposed : PersistentState) : PersistentCache :=
  { cache with
    state := proposed
    deferred := ⟨true, true, cache.deferred.pendingRemovals ++
      cache.state.fileNames.filter fun name => decide (name ∉ proposed.fileNames)⟩ }

/-- An insertion in the middle of a batch. -/
def store (enc : Encoding) (cache : PersistentCache) (entries : Payloads) :
    Except CacheError PersistentCache :=
  match prepare enc cache.maximumPayloadBytes entries with
  | .error error => .error error
  | .ok _ =>
    if Setting.missing enc cache.state entries = [] then .ok cache
    else
      match cache.state.splice cache.maximumPayloadBytes
          ((Setting.missing enc cache.state entries).map fun p => .of enc p.1 p.2) with
      | .error error => .error error
      | .ok proposed => .ok (cache.putOff proposed)

/-- A removal in the middle of a batch. -/
def discard (cache : PersistentCache) (keys : List EntryKey) : PersistentCache :=
  if keys = [] then cache
  else
    match keys.foldlM PersistentState.removeKey cache.state with
    | none => cache
    | some proposed => cache.putOff proposed

end PersistentCache

/-- A batch is under way, and nobody has the mutex. -/
structure InBatch (cache : PersistentCache) : Prop where
  opened : cache.opened = true
  mutex : cache.mutex = none
  active : cache.deferred.active = true

/-- The call has done to the cache what `f` says. -/
def Does (manifest : E → Option Manifest) (c : Point sig E) (f : Except CacheError PersistentCache)
    (r : Except CacheError Unit) (c' : Point sig E) : Prop :=
  manifest c'.env = manifest c.env ∧
    match f with
    | .ok cache => r = .ok () ∧ c'.shared = cache
    | .error error => r = .error error ∧ c'.shared = c.shared

section Jobs

variable {Q : Except CacheError Unit → Point sig E → Prop}

theorem commitState_batch {proposed : PersistentState} (hactive : c.shared.deferred.active = true)
    (h : Q (.ok ()) { c with shared := c.shared.putOff proposed }) :
    Wp answer (commitState enc proposed) c Q := by
  refine Wp.bind_read (Wp.bind_access rfl ?_)
  have hdefer : c.shared.defer proposed (c.shared.state.fileNames.filter fun name =>
      decide (name ∉ proposed.fileNames)) = c.shared.putOff proposed := if_pos hactive
  rw [if_pos hactive, hdefer]
  exact Wp.pure h

variable {cache : PersistentCache}

/-- With the mutex held or not, it is the same commit. -/
theorem putOff_mutex (h : cache.mutex = none) (proposed : PersistentState) :
    { ({ cache with mutex := some me } : PersistentCache).putOff proposed with mutex := none } =
      cache.putOff proposed := by
  cases cache
  cases h
  rfl

theorem relock (h : cache.mutex = none) :
    ({ cache with mutex := none } : PersistentCache) = cache := by
  cases cache
  cases h
  rfl

variable (enc) in
/-- The last phase of an insertion. -/
theorem spliceEntries_batch (hdisk : Reliable answer manifest)
    (hactive : c.shared.deferred.active = true) (maximum : ℕ)
    (prepared : List PreparedEntry) (written : List FileName) :
    Wp answer (spliceEntries enc maximum prepared written) c fun r c' =>
      Does manifest c ((c.shared.state.splice maximum prepared).map c.shared.putOff) r c' := by
  refine Wp.bind (Wp.attempt (Wp.bind_read ?_))
  cases hsplice : c.shared.state.splice maximum prepared with
  | error =>
    refine Wp.bind (Wp.ofExcept (Wp.bind_read (Wp.bind (Wp.attempt
      (hdisk.removeUnreferencedFiles_still.conseq fun r c' ⟨a, ha, hstill⟩ => ?_)))))
    exact Wp.ofExcept ⟨hstill.manifest, rfl, hstill.shared⟩
  | ok =>
    refine Wp.bind (Wp.ofExcept (commitState_batch hactive (Wp.bind_read (Wp.bind (Wp.attempt
      (hdisk.removeUnreferencedFiles_still.conseq fun r c' ⟨a, ha, hstill⟩ => ?_))))))
    subst ha
    exact Wp.ofExcept ⟨hstill.manifest, rfl, hstill.shared⟩

/-- **An insertion in the middle of a batch.** -/
theorem insertEntries_batch (hdisk : Reliable answer manifest) (h : InBatch c.shared)
    {entries : Payloads} :
    Wp answer (insertEntries enc me c.shared.maximumPayloadBytes entries) c fun r c' =>
      Does manifest c (c.shared.store enc entries) r c' := by
  rw [PersistentCache.store]
  refine Wp.bind (Wp.ofExcept ?_)
  cases hprepare : prepare enc c.shared.maximumPayloadBytes entries with
  | error => exact ⟨rfl, rfl, rfl⟩
  | ok prepared =>
    have hmissing : prepared.filter (fun entry => !c.shared.state.isCurrent entry) =
        (Setting.missing enc c.shared.state entries).map fun p => .of enc p.1 p.2 := by
      rw [(prepare_ok hprepare).1, List.filter_map]
      rfl
    refine Wp.bind (locked_run h.opened h.mutex (Wp.read ?_))
    dsimp only
    rw [hmissing, relock h.mutex, List.isEmpty_map]
    split
    · rename_i hnil
      rw [if_pos (List.isEmpty_iff.1 hnil)]
      exact Wp.pure ⟨rfl, rfl, rfl⟩
    rename_i hnil
    rw [if_neg fun heq => hnil (List.isEmpty_iff.2 heq)]
    refine Wp.bind ((hdisk.writePayloads_still _ _).conseq fun r c1 ⟨written, hr, hstill⟩ => ?_)
    subst hr
    have hmutex : c1.shared.mutex = none := hstill.shared ▸ h.mutex
    have hactive : c1.shared.deferred.active = true := hstill.shared ▸ h.active
    have hlocked := spliceEntries_batch enc
      (c := { c1 with shared := { c1.shared with mutex := some me } }) hdisk hactive
      c1.shared.maximumPayloadBytes
      ((Setting.missing enc c1.shared.state entries).map fun p => .of enc p.1 p.2) written
    rw [← hstill.shared]
    refine locked_run (hstill.shared ▸ h.opened) hmutex (hlocked.conseq fun r c2 hdoes => ?_)
    obtain ⟨hmanifest, hdoes⟩ := hdoes
    refine ⟨hmanifest.trans hstill.manifest, ?_⟩
    dsimp only at hdoes ⊢
    cases hsplice : c1.shared.state.splice c1.shared.maximumPayloadBytes
        ((Setting.missing enc c1.shared.state entries).map fun p => .of enc p.1 p.2) with
    | error =>
      rw [hsplice] at hdoes
      obtain ⟨hr, hshared⟩ := hdoes
      refine ⟨hr, ?_⟩
      rw [hshared]
      exact (relock hmutex).trans hstill.shared
    | ok proposed =>
      rw [hsplice] at hdoes
      obtain ⟨hr, hshared⟩ := hdoes
      refine ⟨hr, ?_⟩
      rw [hshared]
      exact putOff_mutex hmutex proposed

theorem discard_mutex (h : cache.mutex = none) (keys : List EntryKey) :
    { ({ cache with mutex := some me } : PersistentCache).discard keys with mutex := none } =
      cache.discard keys := by
  rw [PersistentCache.discard, PersistentCache.discard]
  split
  · exact relock h
  dsimp only
  split
  · exact relock h
  · exact putOff_mutex h _

theorem removeKeysLocked_batch (hactive : c.shared.deferred.active = true)
    (hbooks : Balanced enc c.shared.state) {keys : List EntryKey}
    (h : Q (.ok ()) { c with shared := c.shared.discard keys }) :
    Wp answer (removeKeysLocked enc keys) c Q := by
  rw [PersistentCache.discard] at h
  rw [removeKeysLocked]
  split
  · rename_i hnil
    rw [if_pos (List.isEmpty_iff.1 hnil)] at h
    exact Wp.pure h
  rename_i hnil
  rw [if_neg fun heq => hnil (List.isEmpty_iff.2 heq)] at h
  refine Wp.bind_read ?_
  obtain ⟨proposed, hproposed, -⟩ := hbooks.removeKeys keys
  rw [hproposed] at h ⊢
  exact commitState_batch hactive h

/-- The snapshot of this entry is one without `node`. -/
def Unlisted (enc : Encoding) (node : NodeId) (entry : DiskEntry) : Prop :=
  ∃ bytes listed, entry.matches enc bytes = true ∧ enc.directory.parse bytes = some listed ∧
    MemoryCache.lists listed node = false

theorem mentions_batch (hdisk : Reliable answer manifest) {maximum : ℕ} {node : NodeId}
    {entry : DiskEntry} :
    Succeeds answer (mentions enc maximum node entry) c fun mentioned c' =>
      Still manifest c c' ∧ (mentioned = false → Unlisted enc node entry) := by
  refine Wp.bind (Wp.attempt (Wp.bind (hdisk.disk_wp fun found => ?_)))
  have hstill : Still manifest c { c with env := (answer c.env (.readPayload entry.fileName)).1 } :=
    ⟨rfl, hdisk.other _ _ nofun⟩
  cases found with
  | none => exact Wp.throw (Wp.pure ⟨true, rfl, hstill, nofun⟩)
  | some bytes =>
    dsimp only
    split
    · rename_i hmatches
      rw [Bool.and_eq_true] at hmatches
      refine Wp.pure (Wp.pure ⟨_, rfl, hstill, fun hmentioned => ?_⟩)
      cases hparse : enc.directory.parse bytes with
      | none =>
        rw [hparse] at hmentioned
        cases hmentioned
      | some listed =>
        rw [hparse] at hmentioned
        exact ⟨bytes, listed, hmatches.1, hparse, hmentioned⟩
    · exact Wp.throw (Wp.pure ⟨true, rfl, hstill, nofun⟩)

theorem containing_batch (hdisk : Reliable answer manifest) {maximum : ℕ} {node : NodeId}
    {entries : Entries EntryKey DiskEntry} :
    Succeeds answer (containing enc maximum node entries) c fun keys c' =>
      Still manifest c c' ∧ ∀ p ∈ entries, p.1 ∉ keys → Unlisted enc node p.2 := by
  induction entries generalizing c with
  | nil => exact Wp.pure ⟨[], rfl, .refl, nofun⟩
  | cons _ _ ih =>
    refine (mentions_batch hdisk).bind fun mentioned c1 ⟨h1, hmentioned⟩ => ?_
    refine ih.bind fun keys c2 ⟨h2, hkeys⟩ => Wp.pure ⟨_, rfl, h1.trans h2, fun p hp hnot => ?_⟩
    cases mentioned with
    | true =>
      rw [if_pos rfl, List.mem_cons, not_or] at hnot
      rcases List.mem_cons.1 hp with rfl | hp
      · exact absurd rfl hnot.1
      · exact hkeys p hp hnot.2
    | false =>
      rw [if_neg (by nofun)] at hnot
      rcases List.mem_cons.1 hp with rfl | hp
      · exact hmentioned rfl
      · exact hkeys p hp hnot

end Jobs

/-! ## What jobs are for -/

/-- The value is there. -/
def Present (enc : Encoding) (s : PersistentState) (key : EntryKey) (bytes : List UInt8) : Prop :=
  ∃ entry, s.entries.find key = some entry ∧ entry.Describes enc bytes

/-- Whether an operation changes what is stored. -/
def Operation.isMutation : Operation → Bool
  | .insertMetadataValue _ | .insertDirectoryValue .. | .insertDirectorySnapshotValue ..
  | .insertRangeValue .. | .insertFilesystemStatsValue _ | .invalidateNode _ | .invalidateMetadata _
  | .invalidateDirectories _ | .invalidateDirectoriesContaining _ | .invalidateRanges _ => true
  | _ => false

/-- What a job is for: an insertion of one value leaves it there, and an invalidation leaves nothing
behind of what it invalidates.  Nobody waits for a snapshot, nor for a lookup. -/
def Operation.Effect (enc : Encoding) (s : PersistentState) : Operation → Prop
  | .insertMetadataValue value =>
    Present enc s (.metadata value.node) (enc.metadata.encode value)
  | .insertDirectoryValue key value => Present enc s (.directory key) (enc.directory.encode value)
  | .insertRangeValue key value => Present enc s (.range key) value
  | .insertFilesystemStatsValue value =>
    Present enc s .filesystemStats (enc.filesystemStats.encode value)
  | .invalidateNode node => (∀ p ∈ s.entries, p.1.node ≠ some node) ∧
    ∀ p ∈ s.entries, EntryKey.isDirectory p.1 = true → Unlisted enc node p.2
  | .invalidateMetadata node => ∀ p ∈ s.entries, p.1 ≠ .metadata node
  | .invalidateDirectories node => ∀ p ∈ s.entries, ∀ key, p.1 = .directory key → key.node ≠ node
  | .invalidateDirectoriesContaining node => ∀ p ∈ s.entries,
    EntryKey.isDirectory p.1 = true → Unlisted enc node p.2
  | .invalidateRanges node => ∀ p ∈ s.entries, ∀ key, p.1 = .range key → key.file.node ≠ node
  | _ => True

/-- The values of a job are such as can be stored: each of them fits the budget, and a range has as
many bytes as it says, and at least one. -/
structure Operation.Storable (enc : Encoding) (cache : PersistentCache) (op : Operation) : Prop where
  fits : ∀ p ∈ op.entries enc, p.2.length ≤ cache.maximumPayloadBytes
  range : ∀ key value, op = .insertRangeValue key value →
    validRangePayload key value = true ∧ value ≠ []

/-- There is room for the values of a job: their number does not take the entries over the limit,
and neither their sizes nor the clock run out of 64 bits. -/
structure RoomFor (cache : PersistentCache) (given : Payloads) : Prop where
  few : cache.state.entries.length + given.length ≤ maxManifestEntries
  bytes : cache.state.payloadBytes + givenBytes given ≤ u64Max
  clock : cache.state.clock < u64Max

section Stored

variable {cache : PersistentCache}

/-- What a job does to the cache: nothing, or a commit that is put off. -/
structure Works (enc : Encoding) (cache cache' : PersistentCache) : Prop where
  kin : cache' = cache ∨ ∃ proposed, cache' = cache.putOff proposed
  books : Balanced enc cache'.state
  limited : cache'.state.Limited

variable {entries : Payloads} {cache' : PersistentCache}

variable (hbooks : Balanced enc cache.state)

include hbooks

theorem works_of_store (hlimited : cache.state.Limited) (h : cache.store enc entries = .ok cache') :
    Works enc cache cache' := by
  rw [PersistentCache.store] at h
  split at h
  · cases h
  split at h
  · cases h
    exact ⟨.inl rfl, hbooks, hlimited⟩
  split at h
  · cases h
  rename_i proposed hproposed
  cases h
  exact ⟨.inr ⟨proposed, rfl⟩, (hbooks.splice _ (fun _ _ => trivial) hproposed).1,
    hbooks.splice_limited hlimited hproposed⟩

/-- An insertion for which there is room. -/
theorem store_ok (hfits : ∀ p ∈ entries, p.2.length ≤ cache.maximumPayloadBytes)
    (hroom : RoomFor cache entries) : ∃ cache', cache.store enc entries = .ok cache' := by
  have hsub : (Setting.missing enc cache.state entries).Sublist entries := List.filter_sublist
  have hlength := hsub.length_le
  have hgiven : givenBytes _ ≤ givenBytes _ :=
    List.Sublist.sum_le_sum (hsub.map _) fun _ _ => Nat.zero_le _
  have hfew := hroom.few
  have hbytes := hroom.bytes
  rw [PersistentCache.store, prepare_of_fits hfits]
  dsimp only
  split
  · exact ⟨cache, rfl⟩
  obtain ⟨after, hafter, -⟩ := hbooks.splice_ok cache.maximumPayloadBytes
    (Setting.missing enc cache.state entries) (by omega) (by omega)
  rw [hafter]
  exact ⟨_, rfl⟩

/-- **A value that is stored alone is there.** -/
theorem present_of_store (hclock : cache.state.clock < u64Max) {key : EntryKey} {bytes : List UInt8}
    (h : cache.store enc [(key, bytes)] = .ok cache') : Present enc cache'.state key bytes := by
  rw [PersistentCache.store] at h
  split at h
  · cases h
  rename_i prepared hprepared
  have hfits := (prepare_ok hprepared).2 _ List.mem_cons_self
  split at h
  · rename_i hnil
    cases h
    -- Nothing is missing, so the state has the value already.
    have hcurrent : cache.state.isCurrent (.of enc key bytes) = true := by
      have := List.filter_eq_nil_iff.1 hnil (key, bytes) List.mem_cons_self
      simpa using this
    cases hfind : cache.state.entries.find key with
    | none =>
      rw [isCurrent] at hcurrent
      dsimp only [PreparedEntry.of] at hcurrent
      rw [hfind] at hcurrent
      cases hcurrent
    | some entry =>
      exact ⟨entry, hfind, describes_of_isCurrent (hbooks.key _ (Entries.mem_of_find hfind)) hfind
        hcurrent⟩
  · rename_i hnil
    have hmissing : Setting.missing enc cache.state [(key, bytes)] = [(key, bytes)] := by
      rw [Setting.missing, List.filter_cons] at hnil ⊢
      split
      · rfl
      rename_i hcurrent
      rw [if_neg hcurrent] at hnil
      exact absurd rfl hnil
    rw [hmissing] at h
    split at h
    · cases h
    rename_i proposed hproposed
    cases h
    exact hbooks.splice_single hclock hfits hproposed

/-- An invalidation. -/
theorem discard_works (hlimited : cache.state.Limited) {keys : List EntryKey} :
    Works enc cache (cache.discard keys) ∧
      ∀ p ∈ (cache.discard keys).state.entries, p ∈ cache.state.entries ∧ p.1 ∉ keys := by
  rw [PersistentCache.discard]
  split
  · rename_i hnil
    exact ⟨⟨.inl rfl, hbooks, hlimited⟩, fun p hp => ⟨hp, hnil ▸ nofun⟩⟩
  obtain ⟨proposed, hproposed, hbooks', -⟩ := hbooks.removeKeys keys
  rw [hproposed]
  exact ⟨⟨.inr ⟨proposed, rfl⟩, hbooks', hlimited.removeKeys hproposed⟩,
    fun p hp => mem_removeKeys hproposed hp⟩

end Stored

/-! ## Between jobs -/

/-- What `load_manifest` makes of what it finds. -/
def reload (enc : Encoding) : Option Manifest → Except CacheError PersistentState
  | none => .ok .empty
  | some manifest => PersistentState.load enc manifest

/-- The manifest has these entries, but for the time they were last used. -/
def Restores (enc : Encoding) (manifest : Option Manifest) (s : PersistentState) : Prop :=
  ∃ loaded, reload enc manifest = .ok loaded ∧ (contents loaded).Perm (contents s)

/-- The cache is open, and either something is still to be written down or the manifest has the
entries that are in memory. -/
structure Settled (enc : Encoding) (manifest : E → Option Manifest) (active : Bool)
    (holder : Option ℕ) (c : Point sig E) : Prop where
  opened : c.shared.opened = true
  mutex : c.shared.mutex = holder
  active : c.shared.deferred.active = active
  books : Balanced enc c.shared.state
  limited : c.shared.state.Limited
  good : ∀ m, manifest c.env = some m → m.Good enc fun _ _ => True
  saved : c.shared.deferred.dirty = false → Restores enc (manifest c.env) c.shared.state

/-- The entries and the budget are as they were. -/
structure SameState (c c' : Point sig E) : Prop where
  state : c'.shared.state = c.shared.state
  maximum : c'.shared.maximumPayloadBytes = c.shared.maximumPayloadBytes

section Settled

variable {active : Bool} {holder : Option ℕ}

theorem Accounted.restores_manifest {s : PersistentState} (h : Balanced enc s)
    (hlimited : s.Limited) (hlength : enc.manifestLength s.manifest ≤ maxManifestSize) :
    Restores enc (some s.manifest) s := by
  obtain ⟨loaded, hload, hperm⟩ := h.load_manifest hlimited hlength
  exact ⟨loaded, hload, hperm.map _⟩

theorem Settled.inBatch (h : Settled enc manifest true none c) : InBatch c.shared :=
  ⟨h.opened, h.mutex, h.active⟩

theorem Settled.still {c' : Point sig E} (h : Settled enc manifest active holder c)
    (hstill : Still manifest c c') : Settled enc manifest active holder c' := by
  obtain ⟨shared, env, tasks⟩ := c'
  obtain ⟨hshared, hmanifest⟩ := hstill
  dsimp only at hshared hmanifest
  subst hshared
  exact ⟨h.opened, h.mutex, h.active, h.books, h.limited, hmanifest ▸ h.good, hmanifest ▸ h.saved⟩

/-- After a job. -/
theorem Settled.works {c' : Point sig E} (h : Settled enc manifest true none c)
    (hworks : Works enc c.shared c'.shared) (hmanifest : manifest c'.env = manifest c.env) :
    Settled enc manifest true none c' := by
  obtain ⟨shared, env, tasks⟩ := c'
  obtain ⟨hkin, hbooks, hlimited⟩ := hworks
  dsimp only at hkin hbooks hlimited hmanifest
  rcases hkin with rfl | ⟨proposed, rfl⟩
  · exact h.still ⟨rfl, hmanifest⟩
  · exact ⟨h.opened, h.mutex, rfl, hbooks, hlimited, hmanifest ▸ h.good, nofun⟩

namespace Reliable

theorem disk_maintains (hdisk : Reliable answer manifest) {q : DiskCall}
    (hq : ∀ m, q ≠ .writeManifest m) :
    Maintains answer (Settled enc manifest active holder) (disk q) :=
  fun _ hc => (hdisk.disk_still hq).conseq fun _ _ ⟨_, _, hstill⟩ => hc.still hstill

variable {r : Except CacheError Unit} {s : PersistentState} {keys : List EntryKey} {m : M α}
  {c' : Point sig E} {maximum : ℕ} {key : EntryKey} {op : Operation}
  {entries : Payloads} {node : NodeId}

/-- The manifest of a state is written, or it is too long. -/
theorem writeManifest_wp (hdisk : Reliable answer manifest)
    {Q : Except CacheError Unit → Point sig E → Prop}
    (hlong : enc.manifestLength s.manifest > maxManifestSize → Q (.error .invalidManifest) c)
    (hok : ∀ e, enc.manifestLength s.manifest ≤ maxManifestSize → manifest e = some s.manifest →
      Q (.ok ()) { c with env := e }) : Wp answer (writeManifest enc s) c Q := by
  rw [writeManifest]
  split
  · rename_i hlength
    exact Wp.throw (hlong hlength)
  · rename_i hlength
    exact hdisk.disk_wp fun _ => hok _ (Nat.le_of_not_lt hlength) (hdisk.write _ _)

variable (hdisk : Reliable answer manifest)

include hdisk

/-- What is done once the manifest has been written. -/
theorem cleanUp_still {state : PersistentState} {names : List FileName} : Succeeds answer (do
      removeUnreferencedFiles state names
      disk .syncDirectory) c fun _ c' => Still manifest c c' :=
  hdisk.removeUnreferencedFiles_still.bind fun _ _ h1 =>
    (hdisk.disk_still (by nofun)).imp fun _ _ h2 => h1.trans h2

theorem commitState_settled (hc : Settled enc manifest active holder c) {proposed : PersistentState}
    (hbooks : Balanced enc proposed) (hlimited : proposed.Limited) :
    Wp answer (commitState enc proposed) c fun _ c' => Settled enc manifest active holder c' := by
  refine Wp.bind_read (Wp.bind_access rfl ?_)
  rw [PersistentCache.defer]
  split
  · rename_i hactive
    exact Wp.pure ⟨hc.opened, hc.mutex, hactive.symm.trans hc.active, hbooks, hlimited, hc.good,
      by simp⟩
  refine Wp.bind (hdisk.writeManifest_wp (fun _ => hc) fun e hlength hwritten => ?_)
  refine Wp.bind_modify (Wp.bind_access rfl (hdisk.cleanUp_still.conseq
    fun _ _ h => h.elim fun _ h => Settled.still ?_ h.2))
  refine ⟨hc.opened, hc.mutex, hc.active, hbooks, hlimited, fun m hm => ?_, fun _ => ?_⟩
  · cases hwritten.symm.trans hm
    exact hbooks.good_manifest
  dsimp only
  rw [hwritten]
  exact hbooks.restores_manifest hlimited hlength

theorem removeKeysLocked_maintains (keys : List EntryKey) :
    Maintains answer (Settled enc manifest active holder) (removeKeysLocked enc keys) := by
  intro c hc
  rw [removeKeysLocked]
  split
  · exact Wp.pure hc
  refine Wp.bind_read ?_
  obtain ⟨proposed, hproposed, hbooks, -⟩ := hc.books.removeKeys keys
  rw [hproposed]
  exact hdisk.commitState_settled hc hbooks (hc.limited.removeKeys hproposed)

/-! ### Lookups -/

omit hdisk in
theorem touchEntries_maintains :
    Maintains answer (Settled enc manifest active holder) (touchEntries keys) := by
  refine fun c hc => Wp.modify ?_
  refine ⟨hc.opened, hc.mutex, hc.active, hc.books.touchEntries keys, hc.limited.touchEntries keys,
    hc.good, fun hdirty => ?_⟩
  obtain ⟨loaded, hload, hperm⟩ := hc.saved hdirty
  refine ⟨loaded, hload, ?_⟩
  dsimp only
  rw [contents_touchEntries]
  exact hperm

omit hdisk in
theorem locked_maintains (hm : Maintains answer (Settled enc manifest active (some me)) m) :
    Maintains answer (Settled enc manifest active none) (locked me m) := by
  refine fun c hc => locked_run hc.opened hc.mutex ((hm _ ?_).conseq fun _ c' h => ?_)
  · exact { hc with mutex := rfl }
  · exact { h with mutex := rfl }

theorem tends_maintains {held : Bool} (h : Tends enc me held m) :
    Maintains answer (Settled enc manifest active (if held then some me else none)) m := by
  induction h with
  | ofExcept => exact fun _ hc => Wp.ofExcept hc
  | bind _ _ ihm ihf => exact ihm.bind ihf
  | attempt _ ih => exact ih.attempt
  | read => exact .read
  | readPayload => exact hdisk.disk_maintains (by nofun)
  | touchEntries => exact touchEntries_maintains
  | removeKeysLocked keys => exact hdisk.removeKeysLocked_maintains keys
  | locked _ ih => exact locked_maintains ih

theorem lookup_maintains (hop : op.isLookup = true) :
    Maintains answer (Settled enc manifest active none) (perform enc me op) := by
  refine Maintains.read.bind fun maximum => hdisk.tends_maintains (tends_method ?_ ?_)
  · cases op <;> first | rfl | cases hop
  · cases op <;> first | rfl | cases hop

/-! ### Jobs -/

section Batch

variable (hc : Settled enc manifest true none c)

include hc

omit hdisk in
/-- A call that stores values, or fails to. -/
theorem settled_of_stores (hdoes : Does manifest c (c.shared.store enc entries) r c') :
    Settled enc manifest true none c' := by
  obtain ⟨hmanifest, hdoes⟩ := hdoes
  cases hstore : c.shared.store enc entries with
  | error =>
    rw [hstore] at hdoes
    exact hc.still ⟨hdoes.2, hmanifest⟩
  | ok =>
    rw [hstore] at hdoes
    obtain ⟨-, rfl⟩ := hdoes
    exact hc.works (works_of_store hc.books hc.limited hstore) hmanifest

theorem insertEntries_settled :
    Wp answer (insertEntries enc me c.shared.maximumPayloadBytes entries) c fun _ c' =>
      Settled enc manifest true none c' ∧
        ((∀ p ∈ entries, p.2.length ≤ c.shared.maximumPayloadBytes) → RoomFor c.shared entries →
          ∀ key bytes, entries = [(key, bytes)] → Present enc c'.shared.state key bytes) := by
  refine (insertEntries_batch hdisk hc.inBatch).conseq fun r c' hdoes =>
    ⟨settled_of_stores hc hdoes, ?_⟩
  rintro hfits hroom key bytes rfl
  obtain ⟨cache, hstore⟩ := store_ok hc.books hfits hroom
  rw [hstore] at hdoes
  obtain ⟨-, -, rfl⟩ := hdoes
  exact present_of_store hc.books hroom.clock hstore

omit hdisk in
/-- A call that removes keys. -/
theorem settled_of_discards (hdoes : Does manifest c (.ok (c.shared.discard keys)) r c') :
    Settled enc manifest true none c' ∧
      ∀ p ∈ c'.shared.state.entries, p ∈ c.shared.state.entries ∧ p.1 ∉ keys := by
  obtain ⟨hmanifest, -, hshared⟩ := hdoes
  obtain ⟨hworks, hgone⟩ := discard_works hc.books hc.limited
  rw [← hshared] at hworks hgone
  exact ⟨hc.works hworks hmanifest, hgone⟩

omit hdisk in
/-- An invalidation of the entries whose key satisfies a predicate. -/
theorem removeMatching_settled {predicate : EntryKey → Bool} :
    Wp answer (removeMatching enc me predicate) c fun _ c' => Settled enc manifest true none c' ∧
      ∀ p ∈ c'.shared.state.entries, predicate p.1 = false := by
  refine locked_run hc.opened hc.mutex (Wp.bind_read (removeKeysLocked_batch (by exact hc.active)
    (by exact hc.books) ?_))
  refine And.imp_right (fun hgone p hp => ?_)
    (settled_of_discards hc ⟨rfl, rfl, discard_mutex hc.mutex _⟩)
  obtain ⟨hmem, hnot⟩ := hgone p hp
  rw [← Bool.not_eq_true]
  exact fun hpredicate => hnot (List.mem_filter.2 ⟨List.mem_map.2 ⟨p, hmem, rfl⟩, hpredicate⟩)

/-- An invalidation that looks into the snapshots. -/
theorem containing_settled (maximum : ℕ) (node : NodeId) (removed : PersistentState → List EntryKey)
    (candidates : PersistentState → Entries EntryKey DiskEntry) :
    Wp answer (locked me (Call.read (fun cache => cache.state) >>= fun state =>
        containing enc maximum node (candidates state) >>= fun keys =>
        removeKeysLocked enc (removed state ++ keys))) c fun _ c' =>
      Settled enc manifest true none c' ∧ ∀ p ∈ c'.shared.state.entries,
        p ∈ c.shared.state.entries ∧ p.1 ∉ removed c.shared.state ∧
          (p ∈ candidates c.shared.state → Unlisted enc node p.2) := by
  refine locked_run hc.opened hc.mutex (Wp.bind_read ((containing_batch hdisk).bind
    fun keys c1 ⟨⟨hshared, hmanifest⟩, hkeys⟩ => ?_))
  refine removeKeysLocked_batch (by rw [hshared]; exact hc.active) (by rw [hshared]; exact hc.books) ?_
  rw [hshared]
  refine And.imp_right (fun hgone p hp => ?_)
    (settled_of_discards hc ⟨hmanifest, rfl, discard_mutex hc.mutex _⟩)
  obtain ⟨hmem, hnot⟩ := hgone p hp
  rw [List.mem_append, not_or] at hnot
  exact ⟨hmem, hnot.1, fun hcandidate => hkeys p hcandidate hnot.2⟩

theorem invalidateNode_settled :
    Wp answer (invalidateNode enc me maximum node) c fun _ c' =>
      Settled enc manifest true none c' ∧
        Operation.Effect enc c'.shared.state (.invalidateNode node) := by
  refine (hdisk.containing_settled hc maximum node _ _).conseq fun _ _ ⟨hc', h⟩ =>
    ⟨hc', fun p hp hnode => ?_, fun p hp hdirectory => ?_⟩
  · obtain ⟨hmem, hnot, -⟩ := h p hp
    exact hnot (List.mem_filter.2 ⟨List.mem_map.2 ⟨p, hmem, rfl⟩, decide_eq_true hnode⟩)
  obtain ⟨hmem, hnot, hunlisted⟩ := h p hp
  refine hunlisted (List.mem_filter.2 ⟨hmem, ?_⟩)
  rw [hdirectory, Bool.true_and]
  exact decide_eq_true hnot

theorem invalidateDirectoriesContaining_settled :
    Wp answer (invalidateDirectoriesContaining enc me maximum node) c fun _ c' =>
      Settled enc manifest true none c' ∧
        Operation.Effect enc c'.shared.state (.invalidateDirectoriesContaining node) := by
  refine (hdisk.containing_settled hc maximum node (fun _ => []) _).conseq fun _ _ ⟨hc', h⟩ =>
    ⟨hc', fun p hp hdirectory => ?_⟩
  obtain ⟨hmem, -, hunlisted⟩ := h p hp
  exact hunlisted (List.mem_filter.2 ⟨hmem, hdirectory⟩)

/-- **A job for which there is room does what it is for.** -/
theorem mutation_completes (hop : op.isMutation = true) :
    Wp answer (perform enc me op) c fun _ c' => Settled enc manifest true none c' ∧
      (op.Storable enc c.shared → RoomFor c.shared (op.entries enc) →
        op.Effect enc c'.shared.state) := by
  refine Wp.bind_read ?_
  cases op with
  | insertMetadataValue | insertDirectoryValue | insertFilesystemStatsValue =>
    exact (hdisk.insertEntries_settled hc).conseq fun _ _ h =>
      ⟨h.1, fun hstorable hroom => h.2 hstorable.fits hroom _ _ rfl⟩
  | insertDirectorySnapshotValue =>
    exact (hdisk.insertEntries_settled hc).conseq fun _ _ h => ⟨h.1, fun _ _ => trivial⟩
  | insertRangeValue key value =>
    rw [method, insertRangeValue]
    by_cases hvalid : validRangePayload key value = true
    · rw [if_pos hvalid]
      by_cases hempty : value.isEmpty = true
      · rw [if_pos hempty]
        exact Wp.pure ⟨hc, fun hstorable _ =>
          absurd (List.isEmpty_iff.1 hempty) (hstorable.range key value rfl).2⟩
      rw [if_neg hempty]
      have hentries : Operation.entries enc (.insertRangeValue key value) =
          [(.range key, value)] := by
        rw [Operation.entries, hvalid, (Bool.not_eq_true _).mp hempty]
        rfl
      refine (hdisk.insertEntries_settled hc).conseq fun _ _ h =>
        ⟨h.1, fun hstorable hroom => ?_⟩
      have hfits := hstorable.fits
      rw [hentries] at hfits hroom
      exact h.2 hfits hroom _ _ rfl
    · rw [if_neg hvalid]
      exact Wp.throw ⟨hc, fun hstorable _ => absurd (hstorable.range key value rfl).1 hvalid⟩
  | invalidateMetadata =>
    exact (removeMatching_settled hc).conseq fun _ _ h =>
      ⟨h.1, fun _ _ p hp => of_decide_eq_false (h.2 p hp)⟩
  | invalidateDirectories | invalidateRanges =>
    refine (removeMatching_settled hc).conseq fun _ _ h =>
      ⟨h.1, fun _ _ p hp key hkey => ?_⟩
    have := h.2 p hp
    rw [hkey] at this
    exact of_decide_eq_false this
  | invalidateNode =>
    exact (hdisk.invalidateNode_settled hc).conseq fun _ _ h => ⟨h.1, fun _ _ => h.2⟩
  | invalidateDirectoriesContaining =>
    exact (hdisk.invalidateDirectoriesContaining_settled hc).conseq fun _ _ h =>
      ⟨h.1, fun _ _ => h.2⟩
  | _ => cases hop

/-! ### Batches -/

/-- **After the flush the manifest has the entries that are in memory**, unless it is too long. -/
theorem flush_settled :
    Wp answer (perform enc me .flushDeferredCommits) c fun _ c' =>
      Settled enc manifest false none c' ∧ SameState c c' ∧
        (enc.manifestLength c.shared.state.manifest ≤ maxManifestSize →
          Restores enc (manifest c'.env) c'.shared.state) := by
  refine Wp.bind_read (locked_run hc.opened hc.mutex (Wp.bind_access rfl ?_))
  dsimp only
  split
  · refine Wp.bind_read (Wp.bind (hdisk.writeManifest_wp (fun hlong => ?_)
      fun e hlength hwritten => Wp.bind_access rfl ?_))
    · exact ⟨{ hc with mutex := rfl, active := rfl }, ⟨rfl, rfl⟩,
        fun hlength => absurd hlength (Nat.not_le.2 hlong)⟩
    have hrestores : Restores enc (manifest e) c.shared.state :=
      hwritten ▸ hc.books.restores_manifest hc.limited hlength
    have hc' : Settled enc manifest false (some me)
        ⟨{ c.shared with deferred := ⟨false, false, []⟩, mutex := some me }, e, c.tasks⟩ := by
      refine ⟨hc.opened, rfl, rfl, hc.books, hc.limited, fun m hm => ?_, fun _ => hrestores⟩
      cases hwritten.symm.trans hm
      exact hc.books.good_manifest
    refine hdisk.cleanUp_still.conseq fun _ c2 ⟨_, _, hstill⟩ => ?_
    have hc2 := hc'.still hstill
    refine ⟨{ hc2 with mutex := rfl }, ⟨?_, ?_⟩, fun _ => hc2.saved ?_⟩ <;> rw [hstill.shared]
  · rename_i hdirty
    refine Wp.pure ⟨{ hc with mutex := rfl, active := rfl }, ⟨rfl, rfl⟩, fun _ => ?_⟩
    exact hc.saved ((Bool.not_eq_true _).mp hdirty)

end Batch

omit hdisk in
/-- A batch begins. -/
theorem begin_settled (hc : Settled enc manifest false none c) :
    Wp answer (perform enc me .beginDeferredCommits) c fun _ c' =>
      Settled enc manifest true none c' ∧ SameState c c' :=
  Wp.bind_read (Wp.modify ⟨{ hc with active := rfl }, rfl, rfl⟩)

/-! ### Opening -/

theorem loadManifest_wp {Q : Except CacheError PersistentState → Point sig E → Prop}
    (h : ∀ c', Still manifest c c' → Q (reload enc (manifest c.env)) c') :
    Wp answer (loadManifest enc) c Q := by
  have hstill : Still manifest c { c with env := (answer c.env .readManifest).1 } :=
    ⟨rfl, hdisk.other _ _ nofun⟩
  have hQ := h _ hstill
  refine Wp.bind (Wp.bind_ask ?_)
  rw [hdisk.read]
  refine Wp.pure ?_
  cases hm : manifest c.env with
  | none =>
    rw [hm] at hQ
    exact Wp.pure hQ
  | some =>
    rw [hm] at hQ
    exact Wp.ofExcept hQ

theorem enforceBudget_maintains :
    Maintains answer (Settled enc manifest active none) (enforceBudget enc me maximum) := by
  refine locked_maintains fun c hc => Wp.bind_read ?_
  split
  · exact Wp.pure hc
  obtain ⟨after, hafter, hbooks, hlimited⟩ :=
    hc.books.evictToBudget_limited hc.limited maximum
  rw [hafter]
  exact Wp.bind (Wp.ofExcept (hdisk.commitState_settled hc hbooks hlimited))

theorem removeOrphanedFiles_maintains :
    Maintains answer (Settled enc manifest active none) (removeOrphanedFiles me) :=
  locked_maintains (Maintains.read.bind fun state =>
    (hdisk.disk_maintains (by nofun)).bind fun names _ hc =>
      hdisk.cleanUp_still.conseq fun _ _ ⟨_, _, hstill⟩ => hc.still hstill)

omit hdisk in
theorem limited_reload {m : Option Manifest} (h : reload enc m = .ok s) : s.Limited := by
  cases m with
  | none =>
    cases h
    exact limited_empty
  | some => exact limited_load h

omit hdisk in
theorem accounted_reload {m : Option Manifest}
    (hgood : ∀ m', m = some m' → m'.Good enc fun _ _ => True) (h : reload enc m = .ok s) :
    Balanced enc s := by
  cases m with
  | none =>
    cases h
    exact .empty
  | some m => exact accounted_load (hgood m rfl) h

/-- A cache that has been opened. -/
theorem openCache_settled (hmutex : c.shared.mutex = none)
    (hgood : ∀ m, manifest c.env = some m → m.Good enc fun _ _ => True) :
    Wp answer (perform enc me (.openCache maximum)) c fun r c' =>
      ∀ u, r = .ok u → Settled enc manifest false none c' := by
  refine Wp.bind_read (Wp.bind_modify ?_)
  split
  · exact Wp.throw nofun
  refine Wp.bind (hdisk.loadManifest_wp fun c1 hstill => ?_)
  have hmutex1 : c1.shared.mutex = none := by
    rw [hstill.shared]
    exact hmutex
  cases hload : reload enc (manifest c.env) with
  | error => exact nofun
  | ok state =>
    refine Wp.bind_modify ?_
    have hc2 : Settled enc manifest false none
        ⟨⟨true, maximum, state, .none, c1.shared.mutex⟩, c1.env, c1.tasks⟩ := by
      refine ⟨rfl, hmutex1, rfl, accounted_reload hgood hload, limited_reload hload,
        hstill.manifest ▸ hgood, fun _ => ⟨state, ?_, .refl _⟩⟩
      dsimp only
      rw [hstill.manifest]
      exact hload
    have hopen : Maintains answer (Settled enc manifest false none) (do
        enforceBudget enc me maximum
        removeOrphanedFiles me) :=
      hdisk.enforceBudget_maintains.bind fun _ => hdisk.removeOrphanedFiles_maintains
    refine Wp.bind (Wp.attempt ((hopen _ hc2).conseq fun r c3 hc3 => ?_))
    cases r with
    | ok => exact Wp.pure fun _ _ => hc3
    | error => exact Wp.bind_modify (Wp.throw nofun)

end Reliable

end Settled

/-! ## Runs -/

/-- What happens to a cache, one thing after the other. -/
inductive Step where
  | opening (maximumPayloadBytes : ℕ)
  | lookup (op : Operation)
  | batch (jobs : List Operation)

/-- Lookups do not change anything, and a batch has jobs that do; lookups may happen in between. -/
def Step.Proper : Step → Prop
  | .opening _ => True
  | .lookup op => op.isLookup = true
  | .batch jobs => ∀ op ∈ jobs, op.isMutation = true ∨ op.isLookup = true

section Runs

variable (enc answer)

/-- Read again, the manifest has exactly the entries that are in memory. -/
def Saved (c : Point sig E) : Prop :=
  Succeeds answer (loadManifest enc) c fun loaded _ =>
    (contents loaded).Perm (contents c.shared.state)

/-- A batch from some job on: every job whose values can be stored and for which there is room has
its effect, whatever has become of the others; and after the flush, at which those who wait are
told, the manifest has the entries that are in memory, unless it is too long. -/
def BatchCompletes (next : Point sig E → Prop) : List Operation → Point sig E → Prop
  | [], c => ∀ me, Wp answer (perform enc me .flushDeferredCommits) c fun _ c' =>
    (enc.manifestLength c.shared.state.manifest ≤ maxManifestSize → Saved enc answer c') ∧ next c'
  | op :: rest, c => ∀ me, Wp answer (perform enc me op) c fun _ c' =>
    (op.Storable enc c.shared → RoomFor c.shared (op.entries enc) →
      op.Effect enc c'.shared.state) ∧ BatchCompletes next rest c'

/-- Every batch does, as long as there is a cache. -/
def Completes : List Step → Point sig E → Prop
  | [], _ => True
  | .opening maximum :: rest, c => ∀ me, Wp answer (perform enc me (.openCache maximum)) c
    fun r c' => ∀ u, r = .ok u → Completes rest c'
  | .lookup op :: rest, c => ∀ me, Wp answer (perform enc me op) c fun _ c' => Completes rest c'
  | .batch jobs :: rest, c => ∀ me, Wp answer (perform enc me .beginDeferredCommits) c
    fun _ c' => BatchCompletes enc answer (Completes rest) jobs c'

end Runs

section Completion

theorem Reliable.batch_completes (hdisk : Reliable answer manifest) {next : Point sig E → Prop}
    (hnext : ∀ c', Settled enc manifest false none c' → next c') {jobs : List Operation}
    (hjobs : ∀ op ∈ jobs, op.isMutation = true ∨ op.isLookup = true)
    (hc : Settled enc manifest true none c) : BatchCompletes enc answer next jobs c := by
  induction jobs generalizing c with
  | nil =>
    exact fun me => (hdisk.flush_settled hc).conseq fun _ c' ⟨hc', _, hrestores⟩ =>
      ⟨fun hlength => hdisk.loadManifest_wp fun _ _ => hrestores hlength, hnext c' hc'⟩
  | cons op _ ih =>
    intro me
    have hrest := fun op hop => hjobs op (List.mem_cons_of_mem _ hop)
    rcases hjobs op List.mem_cons_self with hop | hop
    · exact (hdisk.mutation_completes hc hop).conseq fun _ c' ⟨hc', heffect⟩ =>
        ⟨heffect, ih hrest hc'⟩
    · refine (hdisk.lookup_maintains hop c hc).conseq fun _ c' hc' => ⟨fun _ _ => ?_, ih hrest hc'⟩
      cases op <;> trivial

theorem Reliable.completes_of_settled (hdisk : Reliable answer manifest) {steps : List Step}
    (hsteps : ∀ step ∈ steps, step.Proper) (hc : Settled enc manifest false none c) :
    Completes enc answer steps c := by
  induction steps generalizing c with
  | nil => trivial
  | cons step rest ih =>
    have hrest : ∀ c', Settled enc manifest false none c' → Completes enc answer rest c' :=
      fun _ => ih fun step hstep => hsteps step (List.mem_cons_of_mem _ hstep)
    have hstep := hsteps step List.mem_cons_self
    cases step with
    | opening =>
      exact fun me => (hdisk.openCache_settled hc.mutex hc.good).conseq
        fun _ c' hc' u hu => hrest c' (hc' u hu)
    | lookup => exact fun me => (hdisk.lookup_maintains hstep c hc).conseq fun _ c' => hrest c'
    | batch =>
      exact fun me => (Reliable.begin_settled hc).conseq fun _ _ ⟨hc', _⟩ =>
        hdisk.batch_completes hrest hstep hc'

/-- **Whoever waits for a job that has room gets what they have waited for.**  On a disk that works,
a directory without a manifest is opened as a cache, and then there are lookups, batches and further
openings in any order.  In every batch, every job whose values can be stored and for which there is
room when it comes to it has its effect; and after the flush the manifest gives back exactly the
entries that are in memory, unless it is longer than `MAX_MANIFEST_SIZE`. -/
theorem batches_complete (enc : Encoding) (answer : E → (q : DiskCall) → E × Option q.Value)
    (manifest : E → Option Manifest) (hdisk : Reliable answer manifest) (e : E)
    (hempty : manifest e = none) (maximum : ℕ) (steps : List Step)
    (hsteps : ∀ step ∈ steps, step.Proper) :
    Completes enc answer (.opening maximum :: steps) (start e) := by
  intro me
  refine (hdisk.openCache_settled rfl (fun m hm => ?_)).conseq fun _ _ hc u hu =>
    hdisk.completes_of_settled hsteps (hc u hu)
  rw [start, hempty] at hm
  cases hm

end Completion

theorem Disk.reliable : Reliable Disk.answer Disk.manifest where
  works _ _ := rfl
  read _ := rfl
  write _ _ := rfl
  other := Disk.keepsManifest.other

/-- Two batches, with lookups in between. -/
theorem two_batches_complete :
    Disk.manifest ⟨none, []⟩ = none ∧
      Completes Plain.encoding Disk.answer [.opening 5,
        .batch [.insertRangeValue ⟨⟨1, 1⟩, 0, 3⟩ [7, 8, 9]], .lookup (.getRangeValue ⟨⟨1, 1⟩, 0, 3⟩),
        .batch [.insertRangeValue ⟨⟨1, 1⟩, 3, 4⟩ [1, 2, 3, 4], .invalidateRanges 1]]
        (start ⟨none, []⟩) :=
  ⟨rfl, batches_complete Plain.encoding Disk.answer Disk.manifest Disk.reliable ⟨none, []⟩ rfl 5 _
    (by simp [Step.Proper, Operation.isLookup, Operation.isMutation])⟩

/-! ## A cache that is full -/

section Full

variable (enc answer me)

/-- A thread goes through its operations, and ends where `Q` is true. -/
def Leads (Q : Point sig E → Prop) : List Operation → Point sig E → Prop
  | [], c => Q c
  | op :: rest, c => Wp answer (perform enc me op) c fun _ c' => Leads Q rest c'

variable {enc answer me} {Q : Point sig E → Prop}

theorem leads_append {first second : List Operation}
    (h : Leads enc answer me (Leads enc answer me Q second) first c) :
    Leads enc answer me Q (first ++ second) c := by
  induction first generalizing c with
  | nil => exact h
  | cons _ _ ih => exact Wp.conseq h fun _ _ => ih

theorem Leads.imp {Q' : Point sig E → Prop} {ops : List Operation} (h : Leads enc answer me Q ops c)
    (hQ : ∀ c', Q c' → Q' c') : Leads enc answer me Q' ops c := by
  induction ops generalizing c with
  | nil => exact hQ c h
  | cons _ _ ih => exact Wp.conseq h fun _ _ => ih

theorem Leads.performAll {ops : List Operation} (h : Leads enc answer me Q ops c) :
    Wp answer (performAll enc me ops) c fun _ c' => Q c' := by
  induction ops generalizing c with
  | nil => exact Wp.pure h
  | cons _ _ ih =>
    refine Wp.bind (Wp.attempt (Wp.conseq h fun r c1 h1 => Wp.bind ((ih h1).conseq fun r' _ h2 => ?_)))
    cases r' with
    | ok => exact Wp.pure h2
    | error => exact h2

end Full

/-- The range of one byte at an offset. -/
def byteKey (i : ℕ) : RangeKey := ⟨⟨1, 1⟩, i, 1⟩

/-- Somebody stores it. -/
def byteJob (i : ℕ) : Operation := .insertRangeValue (byteKey i) [0]

/-- The first `n` bytes are stored, and nothing else. -/
structure Filled (enc : Encoding) (active : Bool) (n : ℕ) (c : Point sig Disk) : Prop extends
    Settled enc Disk.manifest active none c where
  maximum : c.shared.maximumPayloadBytes = 2 * maxManifestEntries
  length : c.shared.state.entries.length = n
  bytes : c.shared.state.payloadBytes ≤ n
  keys : ∀ p ∈ c.shared.state.entries, ∃ i < n, p.1 = .range (byteKey i)

section Filled

variable {active : Bool} {n : ℕ} {c : Point sig Disk}

section

variable (h : Filled enc active n c)

include h

theorem Filled.find {i : ℕ} (hi : n ≤ i) :
    c.shared.state.entries.find (.range (byteKey i)) = none := by
  cases hfind : c.shared.state.entries.find (.range (byteKey i)) with
  | none => rfl
  | some =>
    obtain ⟨j, hj, hkey⟩ := h.keys _ (Entries.mem_of_find hfind)
    have : i = j := congrArg RangeKey.offset (EntryKey.range.inj hkey)
    omega

theorem Filled.sameState {active' : Bool} {c' : Point sig Disk}
    (hc' : Settled enc Disk.manifest active' none c') (hsame : SameState c c') :
    Filled enc active' n c' := by
  obtain ⟨hstate, hmaximum⟩ := hsame
  exact ⟨hc', hmaximum.trans h.maximum, hstate ▸ h.length, hstate ▸ h.bytes, hstate ▸ h.keys⟩

theorem Filled.prepare : prepare enc
    c.shared.maximumPayloadBytes [(.range (byteKey n), [0])] =
      .ok [.of enc (.range (byteKey n)) [0]] := by
  refine prepare_of_fits fun p hp => ?_
  rw [List.mem_singleton.1 hp, h.maximum]
  exact Nat.le_of_ble_eq_true rfl

theorem Filled.missing :
    Setting.missing enc c.shared.state [(.range (byteKey n), [0])] =
      [(.range (byteKey n), [0])] := by
  have hcurrent : c.shared.state.isCurrent (.of enc (.range (byteKey n)) [0]) = false := by
    rw [isCurrent]
    dsimp only [PreparedEntry.of]
    rw [h.find (Nat.le_refl n)]
  rw [Setting.missing, List.filter_cons, hcurrent]
  rfl

/-- As long as there is room, the next byte is stored; and then no more. -/
theorem Filled.store (hn : n ≤ maxManifestEntries) :
    ∃ proposed, c.shared.store enc [(.range (byteKey n), [0])] =
        (if n < maxManifestEntries then .ok (c.shared.putOff proposed)
          else .error .invalidManifest) ∧
      proposed.entries.length = n + 1 ∧ proposed.payloadBytes ≤ n + 1 ∧
      ∀ p ∈ proposed.entries, ∃ i < n + 1, p.1 = .range (byteKey i) := by
  have hsmall : n + 1 ≤ u64Max := Nat.le_trans (Nat.succ_le_succ hn) (by decide)
  obtain ⟨proposed, hproposed⟩ := h.books.insertPrepared_ok (.range (byteKey n)) [0]
    (Nat.le_trans (Nat.add_le_add_right h.bytes _) hsmall)
  obtain ⟨hentries, -, hbytes⟩ := h.books.insertPrepared_eq hproposed
  rw [Entries.insert, Entries.erase_of_find_eq_none (h.find (Nat.le_refl n))] at hentries
  have hlength : proposed.entries.length = n + 1 := by rw [hentries, List.length_cons, h.length]
  have hbytes : proposed.payloadBytes ≤ n + 1 := Nat.le_trans hbytes (Nat.add_le_add_right h.bytes _)
  have hsplice : c.shared.state.splice c.shared.maximumPayloadBytes
      [.of enc (.range (byteKey n)) [0]] =
        if n < maxManifestEntries then .ok proposed else .error .invalidManifest := by
    rw [PersistentState.splice, List.foldlM_cons, hproposed]
    change (if proposed.entries.length > maxManifestEntries then _ else _) = _
    split
    · rw [if_neg (by omega)]
    · rw [if_pos (by omega)]
      exact evictToBudget_of_le (by rw [h.maximum]; omega)
  refine ⟨proposed, ?_, hlength, hbytes, ?_⟩
  · rw [PersistentCache.store, h.prepare, h.missing]
    dsimp only [List.map]
    rw [if_neg (List.cons_ne_nil _ _), hsplice]
    by_cases hlt : n < maxManifestEntries
    · rw [if_pos hlt, if_pos hlt]
    · rw [if_neg hlt, if_neg hlt]
  rw [hentries]
  rintro p (_ | ⟨_, hp⟩)
  · exact ⟨n, Nat.lt_succ_self n, rfl⟩
  · obtain ⟨i, hi, hkey⟩ := h.keys p hp
    exact ⟨i, Nat.lt_succ_of_lt hi, hkey⟩

end

theorem validRangePayload_byteKey (hn : n ≤ maxManifestEntries) :
    validRangePayload (byteKey n) [0] = true := by
  have hsmall : (byteKey n).offset + (byteKey n).length ≤ u64Max :=
    Nat.le_trans (Nat.succ_le_succ hn) (by decide)
  rw [validRangePayload, checkedAdd, if_pos hsmall]
  rfl

theorem byteJob_storable {cache : PersistentCache} (hn : n ≤ maxManifestEntries)
    (hmaximum : 0 < cache.maximumPayloadBytes) : (byteJob n).Storable enc cache where
  fits p hp := by
    rw [byteJob, Operation.entries, validRangePayload_byteKey hn] at hp
    rw [List.mem_singleton.1 hp]
    exact hmaximum
  range key value h := by
    obtain ⟨rfl, rfl⟩ := Operation.insertRangeValue.inj h
    exact ⟨validRangePayload_byteKey hn, List.cons_ne_nil _ _⟩

theorem byteJob_wp (h : Filled enc true n c) (hn : n ≤ maxManifestEntries) :
    Wp Disk.answer (perform enc me (byteJob n)) c fun r c' =>
      Does Disk.manifest c (c.shared.store enc [(.range (byteKey n), [0])]) r c' := by
  refine Wp.bind_read ?_
  change Wp Disk.answer (insertRangeValue enc me _ (byteKey n) [0]) c _
  rw [insertRangeValue, if_pos (validRangePayload_byteKey hn), if_neg (by simp)]
  exact insertEntries_batch Disk.reliable h.inBatch

theorem Filled.job (h : Filled enc true n c) (hn : n < maxManifestEntries) :
    Wp Disk.answer (perform enc me (byteJob n)) c fun _ c' => Filled enc true (n + 1) c' := by
  refine (byteJob_wp h (Nat.le_of_lt hn)).conseq fun r c' hdoes => ?_
  have hc' := Reliable.settled_of_stores h.toSettled hdoes
  obtain ⟨proposed, hstore, hlength, hbytes, hkeys⟩ := h.store (Nat.le_of_lt hn)
  rw [hstore, if_pos hn] at hdoes
  obtain ⟨-, -, hshared⟩ := hdoes
  refine ⟨hc', ?_, ?_, ?_, ?_⟩ <;> rw [hshared]
  · exact h.maximum
  · exact hlength
  · exact hbytes
  · exact hkeys

theorem Filled.job_full (h : Filled enc true maxManifestEntries c) :
    Wp Disk.answer (perform enc me (byteJob maxManifestEntries)) c fun _ c' =>
      Filled enc true maxManifestEntries c' := by
  refine (byteJob_wp h (Nat.le_refl _)).conseq fun r c' hdoes => ?_
  have hc' := Reliable.settled_of_stores h.toSettled hdoes
  obtain ⟨proposed, hstore, -⟩ := h.store (Nat.le_refl _)
  rw [hstore, if_neg (Nat.lt_irrefl _)] at hdoes
  obtain ⟨-, -, hshared⟩ := hdoes
  exact h.sameState hc' ⟨congrArg _ hshared, congrArg _ hshared⟩

/-- A batch with one job. -/
theorem Filled.batch (h : Filled enc false n c) {op : Operation} {m : ℕ}
    (hop : ∀ c', Filled enc true n c' →
      Wp Disk.answer (perform enc me op) c' fun _ c'' => Filled enc true m c'') :
    Leads enc Disk.answer me (Filled enc false m)
      [.beginDeferredCommits, op, .flushDeferredCommits] c := by
  refine (Reliable.begin_settled h.toSettled).conseq fun _ c1 ⟨hc1, hsame1⟩ => ?_
  refine (hop c1 (h.sameState hc1 hsame1)).conseq fun _ c2 h2 => ?_
  exact (Disk.reliable.flush_settled h2.toSettled).conseq fun _ c3 ⟨hc3, hsame3, _⟩ =>
    h2.sameState hc3 hsame3

/-- The batches of the writer, when nobody stores a byte before the last one is there. -/
def byteBatches (n : ℕ) : List (List Operation) := (List.range n).map fun i => [byteJob i]

theorem writerOperations_byteBatches :
    writerOperations (byteBatches (n + 1)) = writerOperations (byteBatches n) ++
      [.beginDeferredCommits, byteJob n, .flushDeferredCommits] := by
  rw [byteBatches, List.range_succ, List.map_append, writerOperations, List.flatMap_append]
  rfl

theorem Filled.batches (h : Filled enc false 0 c) (hn : n ≤ maxManifestEntries) :
    Leads enc Disk.answer me (Filled enc false n) (writerOperations (byteBatches n)) c := by
  induction n with
  | zero => exact h
  | succ n ih =>
    rw [writerOperations_byteBatches]
    exact leads_append ((ih (Nat.le_of_lt hn)).imp fun _ hc => hc.batch fun _ hc' => hc'.job hn)

theorem openCache_filled {tasks : ℕ} :
    Wp Disk.answer (perform enc me (.openCache (2 * maxManifestEntries)))
      ⟨.closed, ⟨none, []⟩, tasks⟩ fun _ c' => Filled enc false 0 c' := by
  refine ⟨.ok (), ⟨⟨true, 2 * maxManifestEntries, .empty, .none, none⟩, ⟨none, []⟩, tasks⟩,
    fun _ => rfl, ?_⟩
  exact ⟨⟨rfl, rfl, rfl, .empty, limited_empty, nofun, fun _ => ⟨.empty, rfl, .refl _⟩⟩, rfl, rfl,
    Nat.le_refl _, nofun⟩

/-- All batches, from the opening on. -/
theorem filled_leads {tasks : ℕ} (hn : n = maxManifestEntries) :
    Leads enc Disk.answer me (Filled enc false n) (.openCache (2 * maxManifestEntries) ::
      writerOperations (byteBatches (n + 1))) ⟨.closed, ⟨none, []⟩, tasks⟩ := by
  refine openCache_filled.conseq fun _ c hc => ?_
  rw [writerOperations_byteBatches]
  refine leads_append ((hc.batches (Nat.le_of_eq hn)).imp fun _ hc' => hc'.batch fun _ hc'' => ?_)
  subst hn
  exact hc''.job_full

end Filled

/-- However values are written, the byte that the manifest has no place for is not there in the end.
-/
theorem last_byte_refused : ∃ r c',
    evalOp (program enc) Disk.answer (.openCache (2 * maxManifestEntries) ::
        writerOperations (byteBatches (maxManifestEntries + 1))) (start ⟨none, []⟩) =
      some (r, c') ∧
    c'.shared.state.entries.find (.range (byteKey maxManifestEntries)) = none ∧
    (byteJob maxManifestEntries).Storable enc c'.shared ∧
    c'.shared.state.payloadBytes + 1 ≤ c'.shared.maximumPayloadBytes := by
  -- The number of entries is not to be unfolded.
  generalize hn : maxManifestEntries = n
  have hleads : Leads enc Disk.answer 0 (Filled enc false n) (.openCache (2 * n) ::
      writerOperations (byteBatches (n + 1))) ⟨.closed, ⟨none, []⟩, 1⟩ :=
    hn ▸ filled_leads rfl
  obtain ⟨r, c', heval, hc'⟩ := hleads.performAll.eval outcomes
  have hmaximum := hc'.maximum
  have hbytes := hc'.bytes
  have hpos : 0 < maxManifestEntries := by decide
  refine ⟨_, c', heval, hc'.find (Nat.le_refl _),
    byteJob_storable (Nat.le_of_eq hn.symm) ?_, ?_⟩ <;> omega

/-- **A cache that is full refuses what it has room for.**  On a disk that works, a cache for twice
as many bytes as there may be entries is opened; byte after byte of a file is stored, each of them
on its own, and whoever stores it waits until the writer is done.  The last one is not there in the
end, with half of the budget unused. -/
theorem full_cache_refuses : ∃ r c',
    evalOp (program Plain.encoding) Disk.answer (.openCache (2 * maxManifestEntries) ::
        writerOperations (byteBatches (maxManifestEntries + 1))) (start ⟨none, []⟩) =
      some (r, c') ∧
    c'.shared.state.entries.find (.range (byteKey maxManifestEntries)) = none ∧
    (byteJob maxManifestEntries).Storable Plain.encoding c'.shared ∧
    c'.shared.state.payloadBytes + 1 ≤ c'.shared.maximumPayloadBytes :=
  last_byte_refused

end QuickFS.Files
