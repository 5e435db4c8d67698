import Mathlib.Data.List.MinMax
import QuickFS.Cache.Memory

/-!
# The cache on disk

`PersistentCache`: a bounded set of entries — metadata, directory snapshots, byte ranges and the
statistics of the file system — with a clock that orders them by use.  Its state is what the state
mutex protects; a function of this module is a section run under that mutex.

The payload of an entry is kept with it.  What stands between the two in the program is the payload
file and its checks, and what can go wrong there is the environment's choice (`DiskIO`): a payload
may turn out to be missing or damaged, in which case the entry is dropped, or unreadable; a payload
or the manifest may fail to be written.  How long a payload is when it is encoded is a parameter
(`DiskConfig.encodedLength`); the file names, which break ties between entries of the same age, are
left out, and with them the files themselves.
-/

namespace QuickFS

open Slices

inductive EntryKey where
  | metadata (node : NodeId)
  | directory (key : RevisionKey)
  | range (key : RangeKey)
  | filesystemStats
deriving DecidableEq

def EntryKey.node : EntryKey → Option NodeId
  | metadata node => some node
  | directory key => some key.node
  | range key => some key.file.node
  | filesystemStats => none

/-- What is stored under a key. -/
inductive Payload where
  | metadata (value : Metadata)
  | directory (entries : List DirectoryEntry)
  | range (data : List UInt8)
  | filesystemStats (value : FilesystemStats)
deriving DecidableEq

structure DiskEntry where
  payload : Payload
  storedLength : ℕ
  lastAccess : ℕ
deriving DecidableEq

inductive CacheError where
  | io
  | invalidRange
  | entryTooLarge
  | invalidManifest
  | corruptEntry
  | invalidSizeLimit
  | stateUnavailable
deriving DecidableEq

/-- `PersistentState`, and whether commits are deferred to the end of a batch. -/
structure PersistentState where
  clock : ℕ
  payloadBytes : ℕ
  entries : Entries EntryKey DiskEntry
  deferred : Bool

structure DiskConfig where
  maximumPayloadBytes : ℕ
  /-- The length of a payload in the encoding it is stored in. -/
  encodedLength : Payload → ℕ

/-- `MAX_MANIFEST_ENTRIES`. -/
def maxManifestEntries : ℕ := 100000

inductive PayloadFile where
  | intact
  /-- Missing, truncated, or not what its digest says. -/
  | corrupt
  | unreadable
deriving DecidableEq

/-- How the file system under the cache behaves during one operation. -/
structure DiskIO where
  payload : EntryKey → PayloadFile
  payloadWritten : Bool
  manifestWritten : Bool

/-! ## Stored ranges -/

section Ranges

variable {V : Type} {entries : Entries EntryKey V} {entry : V} {key range : RangeKey}
  {requestEnd : ℕ}

/-- The range entries among all entries. -/
def rangeEntries (entries : Entries EntryKey V) : List (RangeKey × V) :=
  entries.filterMap fun entry =>
    match entry.1 with
    | .range range => some (range, entry.2)
    | _ => none

/-- Those that `get_range_value` looks at. -/
def overlapping (key : RangeKey) (entries : Entries EntryKey V) : List (RangeKey × V) :=
  (rangeEntries entries).filter fun candidate =>
    decide (candidate.1.file = key.file) && rangesOverlap candidate.1 key

/-- Whether a stored range has all that is asked for. -/
def covers (key : RangeKey) (requestEnd : ℕ) (range : RangeKey) : Bool :=
  match checkedAdd range.offset range.length with
  | some rangeEnd =>
    decide (range.file = key.file ∧ range.offset ≤ key.offset ∧ rangeEnd ≥ requestEnd)
  | none => false

/-- The one that `get_covering_range_value` looks at. -/
def smallestCovering (key : RangeKey) (requestEnd : ℕ) (entries : Entries EntryKey V) :
    Option (RangeKey × V) :=
  List.argmin (fun candidate => candidate.1.length)
    ((rangeEntries entries).filter fun candidate => covers key requestEnd candidate.1)

theorem mem_rangeEntries :
    (range, entry) ∈ rangeEntries entries ↔ (.range range, entry) ∈ entries := by
  rw [rangeEntries, List.mem_filterMap]
  constructor
  · rintro ⟨⟨key, e⟩, hmem, heq⟩
    split at heq
    · rename_i range' hkey
      dsimp only at hkey
      cases heq
      exact hkey ▸ hmem
    · cases heq
  · exact fun h => ⟨_, h, rfl⟩

theorem mem_of_overlapping (h : (range, entry) ∈ overlapping key entries) :
    (.range range, entry) ∈ entries ∧ range.file = key.file := by
  obtain ⟨hmem, hfile⟩ := List.mem_filter.1 h
  rw [Bool.and_eq_true, decide_eq_true_eq] at hfile
  exact ⟨mem_rangeEntries.1 hmem, hfile.1⟩

theorem mem_of_smallestCovering
    (h : smallestCovering key requestEnd entries = some (range, entry)) :
    (.range range, entry) ∈ entries ∧ covers key requestEnd range = true := by
  obtain ⟨hmem, hcovers⟩ := List.mem_filter.1 (List.argmin_mem h)
  exact ⟨mem_rangeEntries.1 hmem, hcovers⟩

end Ranges

namespace PersistentState

/-! ## Sections under the state mutex -/

def nextClock (state : PersistentState) : PersistentState :=
  { state with clock := saturatingAdd state.clock 1 }

/-- Mark one entry as used now. -/
def touchEntry (state : PersistentState) (key : EntryKey) : PersistentState :=
  let state := state.nextClock
  { state with entries := state.entries.map fun entry =>
      if entry.1 = key then (entry.1, { entry.2 with lastAccess := state.clock }) else entry }

def touchEntries (state : PersistentState) (keys : List EntryKey) : PersistentState :=
  keys.foldl touchEntry state

section Operations

variable (config : DiskConfig) (io : DiskIO)

def commitState (state proposed : PersistentState) : Except CacheError Unit × PersistentState :=
  if state.deferred || io.manifestWritten then (.ok (), proposed) else (.error .io, state)

def removeKey (state : PersistentState) (key : EntryKey) : Option PersistentState :=
  match state.entries.find key with
  | none => some state
  | some entry => do
    let bytes ← checkedSub state.payloadBytes entry.storedLength
    some { state with payloadBytes := bytes, entries := state.entries.erase key }

def removeKeysLocked (state : PersistentState) (keys : List EntryKey) :
    Except CacheError Unit × PersistentState :=
  if keys.isEmpty then (.ok (), state)
  else
    match keys.foldlM removeKey state with
    | none => (.error .invalidManifest, state)
    | some proposed => commitState io state proposed

/-- Drop an entry that turned out to be corrupt, and say so. -/
def discardCorrupt {α : Type} (state : PersistentState) (key : EntryKey) :
    Except CacheError α × PersistentState :=
  match removeKeysLocked io state [key] with
  | (.ok (), state) => (.error .corruptEntry, state)
  | (.error error, state) => (.error error, state)

def readDiskEntry (key : EntryKey) (entry : DiskEntry) : Except CacheError Payload :=
  match io.payload key with
  | .unreadable => .error .io
  | .corrupt => .error .corruptEntry
  | .intact =>
    if entry.storedLength > config.maximumPayloadBytes then .error .corruptEntry
    else .ok entry.payload

def readKey (state : PersistentState) (key : EntryKey) :
    Except CacheError (Option Payload) × PersistentState :=
  match state.entries.find key with
  | none => (.ok none, state)
  | some entry =>
    match readDiskEntry config io key entry with
    | .ok payload => (.ok (some payload), state.touchEntries [key])
    | .error .corruptEntry => discardCorrupt io state key
    | .error error => (.error error, state)

def getMetadataValue (state : PersistentState) (node : NodeId) :
    Except CacheError (Option Metadata) × PersistentState :=
  match readKey config io state (.metadata node) with
  | (.ok none, state) => (.ok none, state)
  | (.ok (some (.metadata value)), state) =>
    if value.node ≠ node then discardCorrupt io state (.metadata node)
    else (.ok (some value), state)
  | (.ok (some _), state) => discardCorrupt io state (.metadata node)
  | (.error error, state) => (.error error, state)

def getDirectoryValue (state : PersistentState) (key : RevisionKey) :
    Except CacheError (Option (List DirectoryEntry)) × PersistentState :=
  match readKey config io state (.directory key) with
  | (.ok none, state) => (.ok none, state)
  | (.ok (some (.directory entries)), state) => (.ok (some entries), state)
  | (.ok (some _), state) => discardCorrupt io state (.directory key)
  | (.error error, state) => (.error error, state)

def getFilesystemStatsValue (state : PersistentState) :
    Except CacheError (Option FilesystemStats) × PersistentState :=
  match readKey config io state .filesystemStats with
  | (.ok none, state) => (.ok none, state)
  | (.ok (some (.filesystemStats value)), state) => (.ok (some value), state)
  | (.ok (some _), state) => discardCorrupt io state .filesystemStats
  | (.error error, state) => (.error error, state)

/-- A range entry, as it is read from the disk. -/
def readRange (range : RangeKey) (entry : DiskEntry) : Except CacheError (List UInt8) :=
  match readDiskEntry config io (.range range) entry with
  | .ok (.range data) => if validRangePayload range data then .ok data else .error .corruptEntry
  | .ok _ => .error .corruptEntry
  | .error error => .error error

/-- The loop of `get_range_value` over the entries that overlap the request. -/
def readSegments (state : PersistentState) :
    List (RangeKey × DiskEntry) → List (Segment EntryKey) →
      Except CacheError (List (Segment EntryKey)) × PersistentState
  | [], segments => (.ok segments, state)
  | (range, entry) :: rest, segments =>
    match readRange config io range entry with
    | .ok data => readSegments state rest (segments ++ [⟨.range range, range.offset, data⟩])
    | .error .corruptEntry => discardCorrupt io state (.range range)
    | .error error => (.error error, state)

def getRangeValue (state : PersistentState) (key : RangeKey) :
    Except CacheError (Option (List UInt8)) × PersistentState :=
  match checkedAdd key.offset key.length with
  | none => (.error .invalidRange, state)
  | some _ =>
    if key.length = 0 then (.ok (some []), state)
    else if key.length > config.maximumPayloadBytes then (.ok none, state)
    else
      match readSegments config io state (overlapping key state.entries) [] with
      | (.error error, state) => (.error error, state)
      | (.ok segments, state) =>
        match assembleRange key segments with
        | none => (.ok none, state)
        | some assembled => (.ok (some assembled.data), state.touchEntries assembled.usedKeys)

def getCoveringRangeValue (state : PersistentState) (key : RangeKey) :
    Except CacheError (Option (RangeKey × List UInt8)) × PersistentState :=
  match checkedAdd key.offset key.length with
  | none => (.error .invalidRange, state)
  | some requestEnd =>
    if key.length = 0 then (.ok (some (key, [])), state)
    else if key.length > config.maximumPayloadBytes then (.ok none, state)
    else
      match smallestCovering key requestEnd state.entries with
      | none => (.ok none, state)
      | some (range, entry) =>
        match readRange config io range entry with
        | .ok data => (.ok (some (range, data)), state.touchEntries [.range range])
        | .error .corruptEntry => discardCorrupt io state (.range range)
        | .error error => (.error error, state)

/-! ## Insertion -/

/-- An entry on its way to the disk. -/
structure PreparedEntry where
  key : EntryKey
  payload : Payload
  storedLength : ℕ

/-- The length of a payload on the disk: ranges are stored as they are. -/
def storedLength : Payload → ℕ
  | .range data => data.length
  | payload => config.encodedLength payload

/-- The first phase of `insert_entries`: how long are the payloads? -/
def prepare : List (EntryKey × Payload) → Except CacheError (List PreparedEntry)
  | [] => .ok []
  | (key, payload) :: rest =>
    if storedLength config payload > config.maximumPayloadBytes then .error .entryTooLarge
    else
      match prepare rest with
      | .ok prepared => .ok (⟨key, payload, storedLength config payload⟩ :: prepared)
      | .error error => .error error

/-- The second phase, under the mutex: drop what is already there. -/
def dropCurrent (state : PersistentState) (prepared : List PreparedEntry) : List PreparedEntry :=
  prepared.filter fun entry =>
    match state.entries.find entry.key with
    | some existing =>
      decide ¬(existing.payload = entry.payload ∧ existing.storedLength = entry.storedLength)
    | none => true

/-- One round of the splice. -/
def insertPrepared (proposed : PersistentState) (entry : PreparedEntry) :
    Except CacheError PersistentState :=
  let proposed := proposed.nextClock
  match removeKey proposed entry.key with
  | none => .error .invalidManifest
  | some proposed =>
    match checkedAdd proposed.payloadBytes entry.storedLength with
    | none => .error .entryTooLarge
    | some bytes => .ok { proposed with
        payloadBytes := bytes
        entries := proposed.entries.insert entry.key
          ⟨entry.payload, entry.storedLength, proposed.clock⟩ }

/-- The least recently used entry. -/
def leastRecentlyUsed (entries : Entries EntryKey DiskEntry) : Option EntryKey :=
  (List.argmin (fun entry => entry.2.lastAccess) entries).map Prod.fst

/-- The loop of `evict_to_budget`; each round removes an entry. -/
def evictToBudget (maximum : ℕ) : ℕ → PersistentState → Except CacheError PersistentState
  | 0, state => if state.payloadBytes > maximum then .error .invalidManifest else .ok state
  | rounds + 1, state =>
    if state.payloadBytes > maximum then
      match leastRecentlyUsed state.entries with
      | none => .error .invalidManifest
      | some key =>
        match removeKey state key with
        | none => .error .invalidManifest
        | some state => evictToBudget maximum rounds state
    else .ok state

/-- The last phase of `insert_entries`, under the mutex. -/
def splice (state : PersistentState) (prepared : List PreparedEntry) :
    Except CacheError Unit × PersistentState :=
  match prepared.foldlM insertPrepared state with
  | .error error => (.error error, state)
  | .ok proposed =>
    if proposed.entries.length > maxManifestEntries then (.error .invalidManifest, state)
    else
      match evictToBudget config.maximumPayloadBytes proposed.entries.length proposed with
      | .error error => (.error error, state)
      | .ok proposed => commitState io state proposed

/-! ## Invalidation -/

/-- The directory snapshots that have an entry for `node`, or that cannot be told not to. -/
def containing (node : NodeId) : Entries EntryKey DiskEntry → Except CacheError (List EntryKey)
  | [] => .ok []
  | (key, entry) :: rest =>
    match key with
    | .directory _ =>
      match readDiskEntry config io key entry, containing node rest with
      | .error .io, _ => .error .io
      | _, .error error => .error error
      | .ok (.directory entries), .ok keys =>
        if MemoryCache.lists entries node then .ok (key :: keys) else .ok keys
      | _, .ok keys => .ok (key :: keys)
    | _ => containing node rest

def invalidateNode (state : PersistentState) (node : NodeId) :
    Except CacheError Unit × PersistentState :=
  let removed := (state.entries.map Prod.fst).filter fun key => decide (key.node = some node)
  let candidates := state.entries.filter fun entry => decide (entry.1 ∉ removed)
  match containing config io node candidates with
  | .error error => (.error error, state)
  | .ok keys => removeKeysLocked io state (removed ++ keys)

end Operations

/-! ## What an operation leaves behind -/

/-- The payload is stored under the key. -/
def Stores (state : PersistentState) (key : EntryKey) (payload : Payload) : Prop :=
  ∃ entry, (key, entry) ∈ state.entries ∧ entry.payload = payload

/-- Everything that is stored in `after` was stored in `before` already. -/
def Within (after before : PersistentState) : Prop :=
  ∀ key payload, after.Stores key payload → before.Stores key payload

namespace Within

variable {a b c : PersistentState}

theorem rfl : a.Within a := fun _ _ h => h

theorem trans (hab : a.Within b) (hbc : b.Within c) : a.Within c :=
  fun key payload h => hbc key payload (hab key payload h)

theorem of_subset (h : ∀ entry ∈ a.entries, entry ∈ b.entries) : a.Within b :=
  fun _ _ ⟨entry, hmem, hpayload⟩ => ⟨entry, h _ hmem, hpayload⟩

end Within

section Specs

variable {config : DiskConfig} {io : DiskIO} {state : PersistentState}

theorem within_touchEntry {key : EntryKey} : (state.touchEntry key).Within state := by
  rintro key' payload ⟨entry, hmem, hpayload⟩
  obtain ⟨⟨k, e⟩, he, heq⟩ := List.mem_map.1 hmem
  split at heq
  · cases heq
    exact ⟨e, he, hpayload⟩
  · rw [heq] at he
    exact ⟨entry, he, hpayload⟩

theorem within_touchEntries (keys : List EntryKey) : (state.touchEntries keys).Within state := by
  induction keys generalizing state with
  | nil => exact Within.rfl
  | cons _ _ ih => exact ih.trans within_touchEntry

variable {key : EntryKey} {after : PersistentState} {entry : DiskEntry}

theorem within_removeKey (h : removeKey state key = some after) : after.Within state := by
  rw [removeKey] at h
  split at h
  · cases h
    exact Within.rfl
  simp only [Option.bind_eq_bind, Option.bind_eq_some_iff] at h
  obtain ⟨bytes, -, h⟩ := h
  cases h
  exact Within.of_subset fun _ => Entries.mem_of_mem_erase

theorem within_removeKeys {keys : List EntryKey} (h : keys.foldlM removeKey state = some after) :
    after.Within state := by
  induction keys generalizing state with
  | nil =>
    cases h
    exact Within.rfl
  | cons _ _ ih =>
    rw [List.foldlM_cons, Option.bind_eq_bind, Option.bind_eq_some_iff] at h
    obtain ⟨mid, hmid, h⟩ := h
    exact (ih h).trans (within_removeKey hmid)

theorem within_commitState {proposed : PersistentState} (h : proposed.Within state) :
    (commitState io state proposed).2.Within state := by
  rw [commitState]
  split
  · exact h
  · exact Within.rfl

theorem within_removeKeysLocked (keys : List EntryKey) :
    (removeKeysLocked io state keys).2.Within state := by
  rw [removeKeysLocked]
  split
  · exact Within.rfl
  split
  · exact Within.rfl
  · rename_i proposed hproposed
    exact within_commitState (within_removeKeys hproposed)

variable {α : Type} {range : RangeKey} {before : PersistentState} {prepared : List PreparedEntry}
  (node : NodeId) {new : List (EntryKey × Payload)}

theorem within_discardCorrupt (key : EntryKey) :
    (discardCorrupt io state key : Except CacheError α × PersistentState).2.Within state := by
  have h : (removeKeysLocked io state [key]).2.Within state := within_removeKeysLocked [key]
  rw [discardCorrupt]
  split <;> rename_i heq <;> rw [heq] at h <;> exact h

theorem discardCorrupt_ne_ok {a : α} : (discardCorrupt io state key).1 ≠ .ok a := by
  rw [discardCorrupt]
  split <;> exact nofun

theorem readDiskEntry_ok {payload : Payload}
    (h : readDiskEntry config io key entry = .ok payload) : entry.payload = payload := by
  rw [readDiskEntry] at h
  split at h
  · cases h
  · cases h
  split at h
  · cases h
  · exact Except.ok.inj h

/-- What `read_key` answers with is stored. -/
theorem readKey_spec (config : DiskConfig) (io : DiskIO) (state : PersistentState)
    (key : EntryKey) :
    (readKey config io state key).2.Within state ∧ ∀ payload,
      (readKey config io state key).1 = .ok (some payload) → state.Stores key payload := by
  rw [readKey]
  split
  · exact ⟨Within.rfl, nofun⟩
  rename_i entry hfind
  split
  · rename_i payload hread
    refine ⟨within_touchEntries _, fun payload' h => ?_⟩
    cases h
    exact readDiskEntry_ok hread ▸ ⟨_, Entries.mem_of_find hfind, rfl⟩
  · exact ⟨within_discardCorrupt key, fun _ h => absurd h discardCorrupt_ne_ok⟩
  · exact ⟨Within.rfl, nofun⟩

theorem getMetadataValue_spec (config : DiskConfig) (io : DiskIO) (state : PersistentState) :
    (getMetadataValue config io state node).2.Within state ∧ ∀ value,
      (getMetadataValue config io state node).1 = .ok (some value) →
        value.node = node ∧ state.Stores (.metadata node) (.metadata value) := by
  have hkey := readKey_spec config io state (.metadata node)
  rw [getMetadataValue]
  split <;> rename_i heq <;> rw [heq] at hkey
  · exact ⟨hkey.1, nofun⟩
  · split
    · exact ⟨(within_discardCorrupt _).trans hkey.1, fun _ h => absurd h discardCorrupt_ne_ok⟩
    rename_i hnode
    refine ⟨hkey.1, fun value' h => ?_⟩
    cases h
    exact ⟨not_not.1 hnode, hkey.2 _ rfl⟩
  · exact ⟨(within_discardCorrupt _).trans hkey.1, fun _ h => absurd h discardCorrupt_ne_ok⟩
  · exact ⟨hkey.1, nofun⟩

theorem getDirectoryValue_spec (config : DiskConfig) (io : DiskIO) (state : PersistentState)
    (key : RevisionKey) :
    (getDirectoryValue config io state key).2.Within state ∧ ∀ entries,
      (getDirectoryValue config io state key).1 = .ok (some entries) →
        state.Stores (.directory key) (.directory entries) := by
  have hkey := readKey_spec config io state (.directory key)
  rw [getDirectoryValue]
  split <;> rename_i heq <;> rw [heq] at hkey
  · exact ⟨hkey.1, nofun⟩
  · refine ⟨hkey.1, fun entries' h => ?_⟩
    cases h
    exact hkey.2 _ rfl
  · exact ⟨(within_discardCorrupt _).trans hkey.1, fun _ h => absurd h discardCorrupt_ne_ok⟩
  · exact ⟨hkey.1, nofun⟩

theorem within_getFilesystemStatsValue :
    (getFilesystemStatsValue config io state).2.Within state := by
  have hkey := readKey_spec config io state .filesystemStats
  rw [getFilesystemStatsValue]
  split <;> rename_i heq <;> rw [heq] at hkey
  · exact hkey.1
  · exact hkey.1
  · exact (within_discardCorrupt _).trans hkey.1
  · exact hkey.1

theorem readRange_ok {data : List UInt8} (h : readRange config io range entry = .ok data) :
    entry.payload = .range data ∧ data.length = range.length := by
  rw [readRange] at h
  split at h
  · rename_i data' hread
    split at h
    · rename_i hvalid
      cases h
      exact ⟨readDiskEntry_ok hread, length_of_validRangePayload hvalid⟩
    · cases h
  · cases h
  · cases h

/-- The bytes of a segment are those of a stored range of the file. -/
def FromDisk (state : PersistentState) (file : RevisionKey) (segment : Segment EntryKey) : Prop :=
  ∃ range : RangeKey, range.file = file ∧ segment.offset = range.offset ∧
    segment.data.length = range.length ∧ state.Stores (.range range) (.range segment.data)

theorem readSegments_spec (config : DiskConfig) (io : DiskIO) (file : RevisionKey)
    (segments : List (Segment EntryKey)) (candidates : List (RangeKey × DiskEntry))
    (hcand : ∀ candidate ∈ candidates, (.range candidate.1, candidate.2) ∈ state.entries)
    (hfile : ∀ candidate ∈ candidates, candidate.1.file = file)
    (hseg : ∀ segment ∈ segments, state.FromDisk file segment) :
    (readSegments config io state candidates segments).2.Within state ∧ ∀ all,
      (readSegments config io state candidates segments).1 = .ok all →
        ∀ segment ∈ all, state.FromDisk file segment := by
  induction candidates generalizing segments with
  | nil =>
    refine ⟨Within.rfl, fun all h => ?_⟩
    cases h
    exact hseg
  | cons candidate _ ih =>
    obtain ⟨range, entry⟩ := candidate
    rw [readSegments]
    split
    · rename_i data hread
      refine ih _ (fun c hc => hcand c (List.mem_cons_of_mem _ hc))
        (fun c hc => hfile c (List.mem_cons_of_mem _ hc)) fun segment hmem => ?_
      rcases List.mem_append.1 hmem with hold | hnew
      · exact hseg segment hold
      cases List.mem_singleton.1 hnew
      exact ⟨range, hfile _ List.mem_cons_self, rfl, (readRange_ok hread).2, entry,
        hcand _ List.mem_cons_self, (readRange_ok hread).1⟩
    · exact ⟨within_discardCorrupt _, fun _ h => absurd h discardCorrupt_ne_ok⟩
    · exact ⟨Within.rfl, nofun⟩

theorem getRangeValue_spec (key : RangeKey) :
    (getRangeValue config io state key).2.Within state ∧ ∀ data,
      (getRangeValue config io state key).1 = .ok (some data) → key.length = 0 ∧ data = [] ∨
        ∃ segments usedKeys, (∀ segment ∈ segments, state.FromDisk key.file segment) ∧
          assembleRange key segments = some ⟨data, usedKeys⟩ := by
  have hread := readSegments_spec config io key.file []
    (overlapping key state.entries) (fun _ hc => (mem_of_overlapping hc).1)
    (fun _ hc => (mem_of_overlapping hc).2) nofun
  rw [getRangeValue]
  split
  · exact ⟨Within.rfl, nofun⟩
  split
  · rename_i hzero
    refine ⟨Within.rfl, fun data h => ?_⟩
    cases h
    exact .inl ⟨hzero, rfl⟩
  · split
    · exact ⟨Within.rfl, nofun⟩
    split
    · rename_i heq
      rw [heq] at hread
      exact ⟨hread.1, nofun⟩
    rename_i segments after heq
    rw [heq] at hread
    split
    · exact ⟨hread.1, nofun⟩
    rename_i assembled hassembled
    refine ⟨(within_touchEntries _).trans hread.1, fun data h => ?_⟩
    cases h
    exact .inr ⟨segments, assembled.usedKeys, hread.2 segments rfl, hassembled⟩

theorem getCoveringRangeValue_spec (key : RangeKey) :
    (getCoveringRangeValue config io state key).2.Within state ∧ ∀ range data,
      (getCoveringRangeValue config io state key).1 = .ok (some (range, data)) →
        data = [] ∨ data.length = range.length ∧ state.Stores (.range range) (.range data) := by
  rw [getCoveringRangeValue]
  split
  · exact ⟨Within.rfl, nofun⟩
  split
  · refine ⟨Within.rfl, fun range data h => ?_⟩
    cases h
    exact .inl rfl
  split
  · exact ⟨Within.rfl, nofun⟩
  split
  · exact ⟨Within.rfl, nofun⟩
  rename_i range entry hbest
  have hmem := (mem_of_smallestCovering hbest).1
  split
  · rename_i data hread
    refine ⟨within_touchEntries _, fun range' data' h => ?_⟩
    cases h
    exact .inr ⟨(readRange_ok hread).2, entry, hmem, (readRange_ok hread).1⟩
  · exact ⟨within_discardCorrupt _, fun _ _ h => absurd h discardCorrupt_ne_ok⟩
  · exact ⟨Within.rfl, nofun⟩

/-! ### Insertion and invalidation -/

/-- Everything that is stored in `after` is new or was stored in `before` already. -/
def Adds (after : PersistentState) (new : List (EntryKey × Payload)) (before : PersistentState) :
    Prop :=
  ∀ key payload, after.Stores key payload → (key, payload) ∈ new ∨ before.Stores key payload

theorem Adds.of_within (h : after.Within before) : after.Adds new before :=
  fun key payload hs => .inr (h key payload hs)

theorem insertPrepared_adds {entry : PreparedEntry} (h : insertPrepared state entry = .ok after) :
    after.Adds [(entry.key, entry.payload)] state := by
  rw [insertPrepared] at h
  split at h
  · cases h
  rename_i mid hmid
  split at h
  · cases h
  cases h
  rintro key payload ⟨stored, hmem, hpayload⟩
  rcases List.mem_cons.1 hmem with heq | hmem
  · cases heq
    exact .inl (List.mem_singleton.2 (by rw [← hpayload]))
  · exact .inr (within_removeKey hmid key payload ⟨stored, Entries.mem_of_mem_erase hmem, hpayload⟩)

theorem insertAll_adds (h : prepared.foldlM insertPrepared state = .ok after) :
    after.Adds (prepared.map fun entry => (entry.key, entry.payload)) state := by
  induction prepared generalizing state with
  | nil =>
    cases h
    exact .of_within Within.rfl
  | cons entry _ ih =>
    rw [List.foldlM_cons] at h
    cases hmid : insertPrepared state entry with
    | error =>
      rw [hmid] at h
      cases h
    | ok =>
      rw [hmid] at h
      intro key payload hs
      rcases ih h key payload hs with hnew | hold
      · exact .inl (List.mem_cons_of_mem _ hnew)
      rcases insertPrepared_adds hmid key payload hold with hone | hbefore
      · exact .inl (List.mem_singleton.1 hone ▸ List.mem_cons_self)
      · exact .inr hbefore

theorem within_evictToBudget {maximum rounds : ℕ}
    (h : evictToBudget maximum rounds state = .ok after) : after.Within state := by
  induction rounds generalizing state with
  | zero =>
    rw [evictToBudget] at h
    split at h
    · cases h
    · cases h
      exact Within.rfl
  | succ _ ih =>
    rw [evictToBudget] at h
    split at h
    · split at h
      · cases h
      split at h
      · cases h
      · rename_i mid hmid
        exact (ih h).trans (within_removeKey hmid)
    · cases h
      exact Within.rfl

theorem splice_adds (prepared : List PreparedEntry) :
    (splice config io state prepared).2.Adds
      (prepared.map fun entry => (entry.key, entry.payload)) state := by
  rw [splice]
  split
  · exact .of_within Within.rfl
  rename_i proposed hproposed
  split
  · exact .of_within Within.rfl
  split
  · exact .of_within Within.rfl
  rename_i kept hkept
  rw [commitState]
  split
  · exact fun key payload hs =>
      insertAll_adds hproposed key payload (within_evictToBudget hkept key payload hs)
  · exact .of_within Within.rfl

theorem mem_of_prepare {entries : List (EntryKey × Payload)}
    (h : prepare config entries = .ok prepared) :
    prepared.map (fun entry => (entry.key, entry.payload)) = entries := by
  induction entries generalizing prepared with
  | nil =>
    cases h
    rfl
  | cons entry _ ih =>
    obtain ⟨key, payload⟩ := entry
    rw [prepare] at h
    split at h
    · cases h
    split at h
    · rename_i prepared' hrest
      cases h
      rw [List.map_cons, ih hrest]
    · cases h

theorem within_invalidateNode : (invalidateNode config io state node).2.Within state := by
  rw [invalidateNode]
  split
  · exact Within.rfl
  · exact within_removeKeysLocked _

end Specs

/-! ## What the disk holds -/

/-- Every entry is what `content` and `T` say.  Metadata that are filed under another node do not
count: they are rejected when they are read. -/
structure Holds (content : RevisionKey → List UInt8) (T : NodeId → Metadata → Prop)
    (state : PersistentState) : Prop where
  metadata : ∀ node value, state.Stores (.metadata node) (.metadata value) → value.node = node →
    T node value
  directories : ∀ key entries, state.Stores (.directory key) (.directory entries) →
    ∀ entry ∈ entries, T entry.node entry.metadata
  ranges : ∀ key data, state.Stores (.range key) (.range data) →
    data.length = key.length ∧ IsSlice (content key.file) key.offset data

/-- The same for one entry that is to be stored. -/
def Payload.Right (content : RevisionKey → List UInt8) (T : NodeId → Metadata → Prop) :
    EntryKey → Payload → Prop
  | .metadata node, .metadata value => value.node = node → T node value
  | .directory _, .directory entries => ∀ entry ∈ entries, T entry.node entry.metadata
  | .range key, .range data => data.length = key.length ∧ IsSlice (content key.file) key.offset data
  | _, _ => True

namespace Holds

variable {content : RevisionKey → List UInt8} {T : NodeId → Metadata → Prop}
  {state after : PersistentState}

theorem adds (h : state.Holds content T) {new : List (EntryKey × Payload)}
    (hafter : after.Adds new state)
    (hnew : ∀ entry ∈ new, Payload.Right content T entry.1 entry.2) : after.Holds content T := by
  refine ⟨fun node value hs => ?_, fun key entries hs => ?_, fun key data hs => ?_⟩
  · rcases hafter _ _ hs with hn | hold
    · exact hnew _ hn
    · exact h.metadata node value hold
  · rcases hafter _ _ hs with hn | hold
    · exact hnew _ hn
    · exact h.directories key entries hold
  rcases hafter _ _ hs with hn | hold
  · exact hnew _ hn
  · exact h.ranges key data hold

theorem within (h : state.Holds content T) (hafter : after.Within state) :
    after.Holds content T := by
  have hadds : after.Adds [] state := .of_within hafter
  exact h.adds hadds nofun

theorem isSlice_of_fromDisk (h : state.Holds content T) {file : RevisionKey}
    {segment : Segment EntryKey} (hseg : state.FromDisk file segment) :
    IsSlice (content file) segment.offset segment.data := by
  obtain ⟨range, hfile, hoff, -, hstored⟩ := hseg
  rw [← hfile, hoff]
  exact (h.ranges range _ hstored).2

variable {config : DiskConfig} {io : DiskIO} {key : RangeKey} {data : List UInt8}

/-- **The disk answers with the slice that was asked for.** -/
theorem getRangeValue (h : state.Holds content T)
    (hdata : (state.getRangeValue config io key).1 = .ok (some data)) :
    data.length = key.length ∧ IsSlice (content key.file) key.offset data := by
  rcases (getRangeValue_spec key).2 data hdata with ⟨hzero, rfl⟩ | ⟨segments, usedKeys, hseg, hdata⟩
  · exact ⟨hzero.symm, IsSlice.nil⟩
  · exact (assembleRange_isSlice (fun segment hs => h.isSlice_of_fromDisk (hseg segment hs))
      hdata).symm

theorem getCoveringRangeValue (h : state.Holds content T) {range : RangeKey}
    (hdata : (state.getCoveringRangeValue config io key).1 = .ok (some (range, data))) :
    IsSlice (content range.file) range.offset data := by
  rcases (getCoveringRangeValue_spec key).2 range data hdata with rfl | ⟨-, hstored⟩
  · exact IsSlice.nil
  · exact (h.ranges range data hstored).2

end Holds

end PersistentState

end QuickFS
