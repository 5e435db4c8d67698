import QuickFS.Cache.Disk
import QuickFS.Lib.Formats

/-!
# The cache and its files

`PersistentCache` again, this time with what `Cache.Disk` leaves to chance: the payload files, the
manifest, and the order in which they are written and removed.

A payload is a file of its own.  The state in memory has an entry for each, with the name of the
file, its length and its digest; the manifest is the state as it was when it was last written.  A
change of the state is prepared on a copy and put in place by `commitState`, which writes the
manifest, replaces the state, and only then removes the files that nobody needs any more — except in
the middle of a batch of the writer thread, when it leaves the manifest and the removals to
`flushDeferredCommits`.  An insertion writes its payload files before it takes the mutex, and
removes those that the new state does not refer to.

Every call to the file system is a question to the disk, which may fail without having done
anything. The state mutex is a field that says who holds it; the mutex of `deferred` is only ever
taken with it or by the writer thread between jobs, and so it is not modelled.  What `open` finds in
the fields that never change is a parameter: `maximum_payload_bytes` is looked up when a method is
called.

The formats of keys and values, the digest and the length of a manifest in bytes are parameters
(`Encoding`).  A file name is the digest that its hexadecimal digits spell; the namespace and the
format version of a manifest are always the cache's own.
-/

namespace QuickFS.Files

open Async Slices
open Call (attempt ofExcept access)

/-! ## Data -/

/-- A SHA-256 digest, idealised: of any length, so that there can be one for every input. -/
abbrev Digest := List UInt8

/-- The name of a payload file: a digest, in hexadecimal, and `.bin`. -/
abbrev FileName := Digest

structure DiskEntry where
  key : EntryKey
  fileName : FileName
  storedLength : ℕ
  sha256 : Digest
  lastAccess : ℕ
deriving DecidableEq

structure Manifest where
  clock : ℕ
  entries : List DiskEntry
deriving DecidableEq

structure PersistentState where
  clock : ℕ
  payloadBytes : ℕ
  entries : Entries EntryKey DiskEntry
deriving DecidableEq

structure DeferredCommits where
  active : Bool
  dirty : Bool
  pendingRemovals : List FileName
deriving DecidableEq

/-- How keys and values are written, what their digests are, and how long a manifest is. -/
structure Encoding where
  key : Format EntryKey
  metadata : Format Metadata
  directory : Format (List DirectoryEntry)
  filesystemStats : Format FilesystemStats
  sha256 : List UInt8 → Digest
  manifestLength : Manifest → ℕ

/-- `MAX_MANIFEST_SIZE`. -/
def maxManifestSize : ℕ := 32 * 1024 * 1024

/-- What is to be stored, and under which keys. -/
abbrev Payloads := List (EntryKey × List UInt8)

/-- The name of the file for a payload. -/
def Encoding.fileName (enc : Encoding) (key : EntryKey) (bytes : List UInt8) : FileName :=
  enc.sha256 (enc.key.encode key ++ bytes)

namespace PersistentState

/-- `PersistentState::default`. -/
def empty : PersistentState := ⟨0, 0, []⟩

def fileNames (state : PersistentState) : List FileName :=
  state.entries.map fun entry => entry.2.fileName

/-! ## The state -/

def nextClock (state : PersistentState) : PersistentState :=
  { state with clock := saturatingAdd state.clock 1 }

/-- Mark one entry as used now. -/
def touchEntry (state : PersistentState) (key : EntryKey) : PersistentState :=
  let state := state.nextClock
  { state with entries := state.entries.map fun entry =>
      (entry.1, if entry.1 = key then { entry.2 with lastAccess := state.clock } else entry.2) }

def touchEntries (state : PersistentState) (keys : List EntryKey) : PersistentState :=
  keys.foldl touchEntry state

/-- Remove an entry and take its length off, if that is possible. -/
def removeKey (state : PersistentState) (key : EntryKey) : Option PersistentState :=
  match state.entries.find key with
  | none => some state
  | some entry =>
    (checkedSub state.payloadBytes entry.storedLength).map fun bytes =>
      { state with payloadBytes := bytes, entries := state.entries.erase key }

/-- Whether an entry comes before another in the order of eviction. -/
def older (left right : DiskEntry) : Bool :=
  decide (left.lastAccess < right.lastAccess ∨
    left.lastAccess = right.lastAccess ∧ left.fileName < right.fileName)

/-- `min_by`: the first of the oldest entries. -/
def oldest : Entries EntryKey DiskEntry → Option (EntryKey × DiskEntry)
  | [] => none
  | entry :: rest => some (rest.foldl (fun best candidate =>
      if older candidate.2 best.2 then candidate else best) entry)

/-- The loop of `evict_to_budget`; each round removes an entry. -/
def evictLoop (maximum : ℕ) : ℕ → PersistentState → Except CacheError PersistentState
  | 0, state => if state.payloadBytes > maximum then .error .invalidManifest else .ok state
  | rounds + 1, state =>
    if state.payloadBytes > maximum then
      match oldest state.entries with
      | none => .error .invalidManifest
      | some entry =>
        match removeKey state entry.1 with
        | none => .error .invalidManifest
        | some state => evictLoop maximum rounds state
    else .ok state

def evictToBudget (maximum : ℕ) (state : PersistentState) : Except CacheError PersistentState :=
  evictLoop maximum state.entries.length state

/-! ### Insertion -/

/-- An entry on its way to the disk. -/
structure PreparedEntry where
  key : EntryKey
  bytes : List UInt8
  fileName : FileName
  sha256 : Digest
  storedLength : ℕ
deriving DecidableEq

def PreparedEntry.of (enc : Encoding) (key : EntryKey) (bytes : List UInt8) : PreparedEntry where
  key := key
  bytes := bytes
  fileName := enc.fileName key bytes
  sha256 := enc.sha256 bytes
  storedLength := bytes.length

/-- The first phase of `insert_entries`: lengths and digests. -/
def prepare (enc : Encoding) (maximum : ℕ) :
    Payloads → Except CacheError (List PreparedEntry)
  | [] => .ok []
  | (key, bytes) :: rest =>
    if bytes.length > maximum then .error .entryTooLarge
    else
      match prepare enc maximum rest with
      | .error error => .error error
      | .ok prepared => .ok (.of enc key bytes :: prepared)

/-- The entry for the state, made at a time. -/
def PreparedEntry.entry (entry : PreparedEntry) (clock : ℕ) : DiskEntry where
  key := entry.key
  fileName := entry.fileName
  storedLength := entry.storedLength
  sha256 := entry.sha256
  lastAccess := clock

/-- Whether the state has this entry already. -/
def isCurrent (state : PersistentState) (entry : PreparedEntry) : Bool :=
  match state.entries.find entry.key with
  | some existing => decide (existing.fileName = entry.fileName ∧
      existing.storedLength = entry.storedLength ∧ existing.sha256 = entry.sha256)
  | none => false

/-- One round of the splice. -/
def insertPrepared (proposed : PersistentState) (entry : PreparedEntry) :
    Except CacheError PersistentState :=
  let proposed := proposed.nextClock
  match removeKey proposed entry.key with
  | none => .error .invalidManifest
  | some proposed =>
    match checkedAdd proposed.payloadBytes entry.storedLength with
    | none => .error .entryTooLarge
    | some bytes => .ok { proposed with
        payloadBytes := bytes
        entries := proposed.entries.insert entry.key (entry.entry proposed.clock) }

/-- The state with new entries, within the limits of the cache. -/
def splice (maximum : ℕ) (state : PersistentState) (prepared : List PreparedEntry) :
    Except CacheError PersistentState :=
  match prepared.foldlM insertPrepared state with
  | .error error => .error error
  | .ok proposed =>
    if proposed.entries.length > maxManifestEntries then .error .invalidManifest
    else evictToBudget maximum proposed

/-! ### The manifest -/

def manifest (state : PersistentState) : Manifest where
  clock := state.clock
  entries := (state.entries.map Prod.snd).insertionSort fun left right =>
    left.fileName ≤ right.fileName

/-- One round of the loop of `load_manifest`. -/
def loadEntry (state : PersistentState) (entry : DiskEntry) : Except CacheError PersistentState :=
  match checkedAdd state.payloadBytes entry.storedLength with
  | none => .error .invalidManifest
  | some bytes =>
    match state.entries.find entry.key with
    | some _ => .error .invalidManifest
    | none => .ok { state with
        payloadBytes := bytes, entries := state.entries.insert entry.key entry }

/-- The state that a manifest was written from. -/
def load (enc : Encoding) (manifest : Manifest) : Except CacheError PersistentState :=
  if enc.manifestLength manifest > maxManifestSize ∨
      manifest.entries.length > maxManifestEntries then .error .invalidManifest
  else manifest.entries.foldlM loadEntry ⟨manifest.clock, 0, []⟩

end PersistentState

/-! ## The disk -/

/-- A call to the file system, on the directory of the cache. -/
inductive DiskCall where
  /-- `write_private_atomic`. -/
  | writePayload (name : FileName) (bytes : List UInt8)
  /-- `remove_cache_file`, which does not mind if the file is not there. -/
  | removePayload (name : FileName)
  /-- `open_private_file` and the contents, if there is such a file. -/
  | readPayload (name : FileName)
  /-- `read_dir`. -/
  | payloadNames
  | writeManifest (manifest : Manifest)
  | readManifest
  | syncDirectory

abbrev DiskCall.Value : DiskCall → Type
  | readPayload _ => Option (List UInt8)
  | payloadNames => List FileName
  | readManifest => Option Manifest
  | _ => Unit

structure Disk where
  manifest : Option Manifest
  payloads : Entries FileName (List UInt8)
deriving DecidableEq

/-- What a call does that does not fail. -/
def Disk.apply (disk : Disk) : (q : DiskCall) → Disk × q.Value
  | .writePayload name bytes => ({ disk with payloads := disk.payloads.insert name bytes }, ())
  | .removePayload name => ({ disk with payloads := disk.payloads.erase name }, ())
  | .readPayload name => (disk, disk.payloads.find name)
  | .payloadNames => (disk, disk.payloads.map Prod.fst)
  | .writeManifest manifest => ({ disk with manifest := some manifest }, ())
  | .readManifest => (disk, disk.manifest)
  | .syncDirectory => (disk, ())

/-! ## The cache -/

/-- `opened` is false before `open` has returned a cache, and after it has failed. -/
structure PersistentCache where
  opened : Bool
  maximumPayloadBytes : ℕ
  state : PersistentState
  deferred : DeferredCommits
  mutex : Option ℕ
deriving DecidableEq

def DeferredCommits.none : DeferredCommits := ⟨false, false, []⟩

/-- There is no cache yet. -/
def PersistentCache.closed : PersistentCache := ⟨false, 0, .empty, .none, none⟩

inductive Operation where
  | openCache (maximumPayloadBytes : ℕ)
  | getMetadataValue (node : NodeId)
  | insertMetadataValue (value : Metadata)
  | getDirectoryValue (key : RevisionKey)
  | insertDirectoryValue (key : RevisionKey) (value : List DirectoryEntry)
  | insertDirectorySnapshotValue (key : RevisionKey) (value : List DirectoryEntry)
  | getRangeValue (key : RangeKey)
  | getCoveringRangeValue (key : RangeKey)
  | insertRangeValue (key : RangeKey) (value : List UInt8)
  | getFilesystemStatsValue
  | insertFilesystemStatsValue (value : FilesystemStats)
  | invalidateNode (node : NodeId)
  | invalidateMetadata (node : NodeId)
  | invalidateDirectories (node : NodeId)
  | invalidateDirectoriesContaining (node : NodeId)
  | invalidateRanges (node : NodeId)
  | beginDeferredCommits
  | flushDeferredCommits
deriving DecidableEq

abbrev Operation.Output : Operation → Type
  | getMetadataValue _ => Option Metadata
  | getDirectoryValue _ => Option (List DirectoryEntry)
  | getRangeValue _ => Option (List UInt8)
  | getCoveringRangeValue _ => Option (RangeKey × List UInt8)
  | getFilesystemStatsValue => Option FilesystemStats
  | _ => Unit

/-- What came of an operation. -/
abbrev Outcome := (op : Operation) × Except CacheError op.Output

/-- A thread calls operations one after the other. -/
abbrev sig : Sig where
  Shared := PersistentCache
  Env := Disk
  Choice := Bool
  Question := DiskCall
  Answer q := Option q.Value
  Result := List Outcome
  Op := List Operation

abbrev M := Call sig CacheError

/-- A call to the file system, which may fail. -/
def disk (q : DiskCall) : M q.Value := do
  match ← Call.ask q with
  | some value => pure value
  | none => Call.throw .io

/-- `lock_state`, and what is done until the guard is dropped. -/
def locked {α : Type} (me : ℕ) (m : M α) : M α := do
  let opened ← Call.read fun cache => cache.opened
  if opened then
    Call.holding
      (access (fun cache => cache.mutex.isNone)
        (fun cache => { cache with mutex := some me }) fun _ => ())
      (Call.modify fun cache => { cache with mutex := none }) m
  else Call.throw .stateUnavailable

section Methods

variable (enc : Encoding) (me maximum : ℕ)

/-! ### Commits -/

def removeUnreferencedFiles (state : PersistentState) : List FileName → M Unit
  | [] => pure ()
  | name :: rest =>
    if name ∈ state.fileNames then removeUnreferencedFiles state rest
    else do
      disk (.removePayload name)
      removeUnreferencedFiles state rest

def writeManifest (state : PersistentState) : M Unit :=
  if enc.manifestLength state.manifest > maxManifestSize then Call.throw .invalidManifest
  else disk (.writeManifest state.manifest)

/-- Put a state in place without writing it down, if a batch is under way. -/
def PersistentCache.defer (cache : PersistentCache) (proposed : PersistentState)
    (obsolete : List FileName) : PersistentCache :=
  if cache.deferred.active then
    { cache with
      state := proposed
      deferred := ⟨true, true, cache.deferred.pendingRemovals ++ obsolete⟩ }
  else cache

def commitState (proposed : PersistentState) : M Unit := do
  let state ← Call.read fun cache => cache.state
  let obsolete := state.fileNames.filter fun name => decide (name ∉ proposed.fileNames)
  let deferred ← access (fun _ => true) (fun cache => cache.defer proposed obsolete)
    fun cache => cache.deferred.active
  if deferred then pure ()
  else do
    writeManifest enc proposed
    Call.modify fun cache => { cache with state := proposed }
    let pending ← access (fun _ => true)
      (fun cache => { cache with deferred := ⟨cache.deferred.active, false, []⟩ })
      fun cache => cache.deferred.pendingRemovals
    removeUnreferencedFiles proposed (pending ++ obsolete)
    disk .syncDirectory

def removeKeysLocked (keys : List EntryKey) : M Unit :=
  if keys.isEmpty then pure ()
  else do
    let state ← Call.read fun cache => cache.state
    match keys.foldlM PersistentState.removeKey state with
    | none => Call.throw .invalidManifest
    | some proposed => commitState enc proposed

def beginDeferredCommits : M Unit :=
  Call.modify fun cache => { cache with
    deferred := { cache.deferred with active := true } }

def flushDeferredCommits : M Unit :=
  locked me do
    let dirty ← access (fun _ => true)
      (fun cache => { cache with deferred := { cache.deferred with active := false } })
      fun cache => cache.deferred.dirty
    if dirty then do
      let state ← Call.read fun cache => cache.state
      writeManifest enc state
      let pending ← access (fun _ => true)
        (fun cache => { cache with deferred := ⟨cache.deferred.active, false, []⟩ })
        fun cache => cache.deferred.pendingRemovals
      removeUnreferencedFiles state pending
      disk .syncDirectory
    else pure ()

/-! ### Lookups -/

/-- Whether a file has what the entry says. -/
def DiskEntry.matches (entry : DiskEntry) (bytes : List UInt8) : Bool :=
  decide (bytes.length = entry.storedLength ∧ enc.sha256 bytes = entry.sha256)

def readDiskEntry (entry : DiskEntry) : M (List UInt8) := do
  match ← disk (.readPayload entry.fileName) with
  | none => Call.throw .corruptEntry
  | some bytes =>
    if entry.matches enc bytes && decide (entry.storedLength ≤ maximum) then pure bytes
    else Call.throw .corruptEntry

/-- Drop the entry if it turns out to be corrupt, and say so. -/
def healing {α : Type} (key : EntryKey) (m : M α) : M α := do
  match ← attempt m with
  | .ok a => pure a
  | .error .corruptEntry => do
    removeKeysLocked enc [key]
    Call.throw .corruptEntry
  | .error error => Call.throw error

def touchEntries (keys : List EntryKey) : M Unit :=
  Call.modify fun cache => { cache with state := cache.state.touchEntries keys }

def readKey (key : EntryKey) : M (Option (List UInt8)) :=
  locked me do
    let state ← Call.read fun cache => cache.state
    match state.entries.find key with
    | none => pure none
    | some entry => do
      let bytes ← healing enc key (readDiskEntry enc maximum entry)
      touchEntries [key]
      pure (some bytes)

def removeCorruptKey (key : EntryKey) : M Unit := locked me (removeKeysLocked enc [key])

/-- `decode_value`, with the check that a value may have to pass. -/
def decodeValue {α : Type} (key : EntryKey) (parse : List UInt8 → Option α) (bytes : List UInt8) :
    M α :=
  match parse bytes with
  | some value => pure value
  | none => do
    removeCorruptKey enc me key
    Call.throw .corruptEntry

def getMetadataValue (node : NodeId) : M (Option Metadata) := do
  match ← readKey enc me maximum (.metadata node) with
  | none => pure none
  | some bytes => do
    let value ← decodeValue enc me (.metadata node) enc.metadata.parse bytes
    if value.node ≠ node then do
      removeCorruptKey enc me (.metadata node)
      Call.throw .corruptEntry
    else pure (some value)

def getDirectoryValue (key : RevisionKey) : M (Option (List DirectoryEntry)) := do
  match ← readKey enc me maximum (.directory key) with
  | none => pure none
  | some bytes => do
    let value ← decodeValue enc me (.directory key) enc.directory.parse bytes
    pure (some value)

def getFilesystemStatsValue : M (Option FilesystemStats) := do
  match ← readKey enc me maximum .filesystemStats with
  | none => pure none
  | some bytes => do
    let value ← decodeValue enc me .filesystemStats enc.filesystemStats.parse bytes
    pure (some value)

/-- A range entry, as it is read from the disk. -/
def readRange (range : RangeKey) (entry : DiskEntry) : M (List UInt8) := do
  let data ← readDiskEntry enc maximum entry
  if validRangePayload range data then pure data else Call.throw .corruptEntry

/-- The loop of `get_range_value` over the entries that overlap the request. -/
def readSegments :
    List (RangeKey × DiskEntry) → List (Segment EntryKey) → M (List (Segment EntryKey))
  | [], segments => pure segments
  | (range, entry) :: rest, segments => do
    let data ← healing enc (.range range) (readRange enc maximum range entry)
    readSegments rest (segments ++ [⟨.range range, range.offset, data⟩])

def getRangeValue (key : RangeKey) : M (Option (List UInt8)) :=
  match checkedAdd key.offset key.length with
  | none => Call.throw .invalidRange
  | some _ =>
    if key.length = 0 then pure (some [])
    else if key.length > maximum then pure none
    else
      locked me do
        let state ← Call.read fun cache => cache.state
        let segments ← readSegments enc maximum (overlapping key state.entries) []
        match assembleRange key segments with
        | none => pure none
        | some assembled => do
          touchEntries assembled.usedKeys
          pure (some assembled.data)

def getCoveringRangeValue (key : RangeKey) : M (Option (RangeKey × List UInt8)) :=
  match checkedAdd key.offset key.length with
  | none => Call.throw .invalidRange
  | some requestEnd =>
    if key.length = 0 then pure (some (key, []))
    else if key.length > maximum then pure none
    else
      locked me do
        let state ← Call.read fun cache => cache.state
        match smallestCovering key requestEnd state.entries with
        | none => pure none
        | some (range, entry) => do
          let data ← healing enc (.range range) (readRange enc maximum range entry)
          touchEntries [.range range]
          pure (some (range, data))

/-! ### Insertion -/

/-- The third phase of `insert_entries`: the payload files, one after the other. -/
def writePayloads : List PersistentState.PreparedEntry → List FileName → M (List FileName)
  | [], written => pure written
  | entry :: rest, written => do
    match ← attempt (disk (.writePayload entry.fileName entry.bytes)) with
    | .ok _ => writePayloads rest (written ++ [entry.fileName])
    | .error error => do
      locked me do
        let state ← Call.read fun cache => cache.state
        let _ ← attempt (removeUnreferencedFiles state written)
        pure ()
      Call.throw error

/-- The splice itself, under the mutex. -/
def commitPrepared (prepared : List PersistentState.PreparedEntry) : M Unit := do
  let state ← Call.read fun cache => cache.state
  let proposed ← ofExcept (state.splice maximum prepared)
  commitState enc proposed

/-- The last phase: the splice, and the files that did not end up referenced. -/
def spliceEntries (prepared : List PersistentState.PreparedEntry) (written : List FileName) :
    M Unit := do
  let result ← attempt (commitPrepared enc maximum prepared)
  let state ← Call.read fun cache => cache.state
  let cleanup ← attempt (removeUnreferencedFiles state written)
  ofExcept (match result with
    | .ok _ => cleanup
    | .error error => .error error)

def insertEntries (entries : Payloads) : M Unit := do
  let prepared ← ofExcept (PersistentState.prepare enc maximum entries)
  let prepared ← locked me (Call.read fun cache =>
    prepared.filter fun entry => !cache.state.isCurrent entry)
  if prepared.isEmpty then pure ()
  else do
    let written ← writePayloads me prepared []
    locked me (spliceEntries enc maximum prepared written)

def insertRangeValue (key : RangeKey) (value : List UInt8) : M Unit :=
  if validRangePayload key value then
    if value.isEmpty then pure () else insertEntries enc me maximum [(.range key, value)]
  else Call.throw .invalidRange

/-! ### Invalidation -/

/-- Remove the entries whose key satisfies a predicate. -/
def removeMatching (predicate : EntryKey → Bool) : M Unit :=
  locked me do
    let state ← Call.read fun cache => cache.state
    removeKeysLocked enc ((state.entries.map Prod.fst).filter predicate)

/-- Whether a snapshot has an entry for `node`, or cannot be told not to. -/
def mentions (node : NodeId) (entry : DiskEntry) : M Bool := do
  match ← attempt (readDiskEntry enc maximum entry) with
  | .ok bytes => pure ((enc.directory.parse bytes).all fun entries => MemoryCache.lists entries node)
  | .error .corruptEntry => pure true
  | .error error => Call.throw error

/-- The keys of the snapshots that have an entry for `node`, or cannot be told not to. -/
def containing (node : NodeId) : Entries EntryKey DiskEntry → M (List EntryKey)
  | [] => pure []
  | (key, entry) :: rest => do
    let mentioned ← mentions enc maximum node entry
    let keys ← containing node rest
    pure (if mentioned then key :: keys else keys)

def EntryKey.isDirectory : EntryKey → Bool
  | .directory _ => true
  | _ => false

def invalidateNode (node : NodeId) : M Unit :=
  locked me do
    let state ← Call.read fun cache => cache.state
    let removed := (state.entries.map Prod.fst).filter fun key => decide (key.node = some node)
    let candidates := state.entries.filter fun entry =>
      EntryKey.isDirectory entry.1 && decide (entry.1 ∉ removed)
    let keys ← containing enc maximum node candidates
    removeKeysLocked enc (removed ++ keys)

def invalidateMetadata (node : NodeId) : M Unit :=
  removeMatching enc me fun key => decide (key = .metadata node)

def invalidateDirectories (node : NodeId) : M Unit :=
  removeMatching enc me fun
    | .directory key => decide (key.node = node)
    | _ => false

def invalidateDirectoriesContaining (node : NodeId) : M Unit :=
  locked me do
    let state ← Call.read fun cache => cache.state
    let keys ← containing enc maximum node
      (state.entries.filter fun entry => EntryKey.isDirectory entry.1)
    removeKeysLocked enc keys

def invalidateRanges (node : NodeId) : M Unit :=
  removeMatching enc me fun
    | .range key => decide (key.file.node = node)
    | _ => false

/-! ### Opening -/

def loadManifest : M PersistentState := do
  match ← disk .readManifest with
  | none => pure .empty
  | some manifest => ofExcept (PersistentState.load enc manifest)

def enforceBudget : M Unit :=
  locked me do
    let state ← Call.read fun cache => cache.state
    if state.payloadBytes ≤ maximum then pure ()
    else do
      let proposed ← ofExcept (state.evictToBudget maximum)
      commitState enc proposed

def removeOrphanedFiles : M Unit :=
  locked me do
    let state ← Call.read fun cache => cache.state
    let names ← disk .payloadNames
    removeUnreferencedFiles state names
    disk .syncDirectory

/-- `open`, once the directory is locked.  The cache that was open before has been dropped. -/
def openCache : M Unit := do
  Call.modify fun cache => { cache with opened := false }
  if maximum = 0 then Call.throw .invalidSizeLimit
  else do
    let state ← loadManifest enc
    Call.modify fun cache => ⟨true, maximum, state, .none, cache.mutex⟩
    match ← attempt (do
        enforceBudget enc me maximum
        removeOrphanedFiles me) with
    | .ok _ => pure ()
    | .error error => do
      Call.modify fun cache => { cache with opened := false }
      Call.throw error

end Methods

/-! ## Threads -/

section Threads

variable (enc : Encoding) (me : ℕ)

def Operation.isInsertion : Operation → Bool
  | .insertMetadataValue _ | .insertDirectoryValue .. | .insertDirectorySnapshotValue ..
  | .insertRangeValue .. | .insertFilesystemStatsValue _ => true
  | _ => false

/-- What an insertion stores. -/
def Operation.entries : Operation → Payloads
  | .insertMetadataValue value => [(.metadata value.node, enc.metadata.encode value)]
  | .insertDirectoryValue key value => [(.directory key, enc.directory.encode value)]
  | .insertDirectorySnapshotValue key value =>
    (.directory key, enc.directory.encode value) ::
      value.map fun entry => (.metadata entry.node, enc.metadata.encode entry.metadata)
  | .insertRangeValue key value =>
    if validRangePayload key value && !value.isEmpty then [(.range key, value)] else []
  | .insertFilesystemStatsValue value => [(.filesystemStats, enc.filesystemStats.encode value)]
  | _ => []

/-- The method of an operation. -/
def method (maximum : ℕ) : (op : Operation) → M op.Output
  | .openCache maximumPayloadBytes => openCache enc me maximumPayloadBytes
  | .getMetadataValue node => getMetadataValue enc me maximum node
  | .getDirectoryValue key => getDirectoryValue enc me maximum key
  | .getRangeValue key => getRangeValue enc me maximum key
  | .getCoveringRangeValue key => getCoveringRangeValue enc me maximum key
  | .getFilesystemStatsValue => getFilesystemStatsValue enc me maximum
  | .insertRangeValue key value => insertRangeValue enc me maximum key value
  | .invalidateNode node => invalidateNode enc me maximum node
  | .invalidateMetadata node => invalidateMetadata enc me node
  | .invalidateDirectories node => invalidateDirectories enc me node
  | .invalidateDirectoriesContaining node => invalidateDirectoriesContaining enc me maximum node
  | .invalidateRanges node => invalidateRanges enc me node
  | .beginDeferredCommits => beginDeferredCommits
  | .flushDeferredCommits => flushDeferredCommits enc me
  | .insertMetadataValue value =>
    insertEntries enc me maximum (Operation.entries enc (.insertMetadataValue value))
  | .insertDirectoryValue key value =>
    insertEntries enc me maximum (Operation.entries enc (.insertDirectoryValue key value))
  | .insertDirectorySnapshotValue key value =>
    insertEntries enc me maximum (Operation.entries enc (.insertDirectorySnapshotValue key value))
  | .insertFilesystemStatsValue value =>
    insertEntries enc me maximum (Operation.entries enc (.insertFilesystemStatsValue value))

def perform (op : Operation) : M op.Output := do
  let maximum ← Call.read fun cache => cache.maximumPayloadBytes
  method enc me maximum op

/-- A thread, and what comes of each of its operations.  The next one is called whatever came of the
last. -/
def performAll : List Operation → M (List Outcome)
  | [] => pure []
  | op :: rest => do
    let r ← attempt (perform enc me op)
    let outcomes ← performAll rest
    pure (⟨op, r⟩ :: outcomes)

/-- The operations of the writer thread: those of each batch between the two calls that defer and
flush its commits. -/
def writerOperations (batches : List (List Operation)) : List Operation :=
  batches.flatMap fun batch => .beginDeferredCommits :: batch ++ [.flushDeferredCommits]

/-- What a thread returns. -/
def outcomes : Except CacheError (List Outcome) → List Outcome
  | .ok outcomes => outcomes
  | .error _ => []

def program : Program sig where
  code ops me := (performAll enc me ops).toTask outcomes
  serve disk fails q :=
    if fails then some (disk, none)
    else some ((disk.apply q).1, some (disk.apply q).2)

end Threads

/-! ## An encoding

Nothing here depends on how values are written.  This is a simple way to do it, in which the digest
of an input is the input. -/

namespace Plain

def kindNumber : NodeKind → ℕ
  | .file => 0
  | .directory => 1
  | .symlink => 2
  | .namedPipe => 3
  | .characterDevice => 4
  | .blockDevice => 5
  | .socket => 6

def kindOf : ℕ → Option NodeKind
  | 0 => some .file
  | 1 => some .directory
  | 2 => some .symlink
  | 3 => some .namedPipe
  | 4 => some .characterDevice
  | 5 => some .blockDevice
  | 6 => some .socket
  | _ => none

theorem kindOf_kindNumber (kind : NodeKind) : kindOf (kindNumber kind) = some kind := by
  cases kind <;> rfl

def metadataFields (m : Metadata) : List (Option ℕ) :=
  [some m.node, some (kindNumber m.kind), some m.size, some m.mode, some m.allocatedBlocks,
    some m.revision, some m.accessedUnixMs, some m.modifiedUnixMs, m.createdUnixMs, m.backupUnixMs,
    some m.linkCount, some m.deviceMajor, some m.deviceMinor]

def metadataOf : List (Option ℕ) → Option Metadata
  | [some node, some kind, some size, some mode, some blocks, some revision, some accessed,
      some modified, created, backup, some links, some major, some minor] =>
    (kindOf kind).map fun kind => ⟨node, kind, size, mode, blocks, revision, accessed, modified,
      created, backup, links, major, minor⟩
  | _ => none

def metadata : Format Metadata :=
  (Format.list (.option .nat)).map metadataFields metadataOf fun m => by
    change (kindOf (kindNumber m.kind)).map _ = _
    rw [kindOf_kindNumber]
    rfl

def directoryEntry : Format DirectoryEntry :=
  (Format.pair (.pair .nat (.list .byte)) (.pair .nat metadata)).map
    (fun e => ((e.node, e.name), kindNumber e.kind, e.metadata))
    (fun p => (kindOf p.2.1).map fun kind => ⟨p.1.1, p.1.2, kind, p.2.2⟩) fun e => by
    dsimp only
    rw [kindOf_kindNumber]
    rfl

def filesystemStats : Format FilesystemStats :=
  (Format.list .nat).map
    (fun s => [s.blocks, s.blocksFree, s.blocksAvailable, s.files, s.filesFree, s.blockSize,
      s.nameLength, s.fragmentSize])
    (fun
      | [blocks, blocksFree, blocksAvailable, files, filesFree, blockSize, nameLength, fragmentSize] =>
        some ⟨blocks, blocksFree, blocksAvailable, files, filesFree, blockSize, nameLength,
          fragmentSize⟩
      | _ => none) fun _ => rfl

def key : Format EntryKey :=
  (Format.list .nat).map
    (fun
      | .metadata node => [0, node]
      | .directory key => [1, key.node, key.revision]
      | .range key => [2, key.file.node, key.file.revision, key.offset, key.length]
      | .filesystemStats => [3])
    (fun
      | [0, node] => some (.metadata node)
      | [1, node, revision] => some (.directory ⟨node, revision⟩)
      | [2, node, revision, offset, length] => some (.range ⟨⟨node, revision⟩, offset, length⟩)
      | [3] => some .filesystemStats
      | _ => none) fun k => by cases k <;> rfl

def encoding : Encoding where
  key := key
  metadata := metadata
  directory := .list directoryEntry
  filesystemStats := filesystemStats
  sha256 := id
  manifestLength m := m.entries.length

end Plain

end QuickFS.Files
