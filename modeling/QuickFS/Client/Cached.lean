import QuickFS.Cache.NonBlocking
import QuickFS.Client.Prefetch

/-!
# The caching client

`CachedFilesystem` of `crates/client-core/src/cached.rs`: a remote file system that keeps what it
has read in a cache, and answers from the cache alone when the one below it is offline.  Callers
hold logical handles; an entry of the handle table says which file a handle is of, with the revision
and size that its reads go by (`CachedHandle`).

A read is cut into blocks.  Concurrent fetches of one block share a cell (`fetchBlock`): the first
to come looks the block up in the cache or asks the remote for it, the others wait for what it
finds. The blocks of a read are fetched concurrently, and put together in a cache of the read's own.
After a read, blocks ahead of it may be fetched by tasks of their own (`maybePrefetch`).

As for the resilient client, each access to a lock or an atomic is one step, and each `await` on the
outside — the remote, the clock, the disk of a persistent cache — is a question.  Three things need
a word.

* A cell is named by the block it is for and a serial number; that name is the `Arc` in the map.
* `join_all` is a task for each block, which leaves its result where the read waits for it
  (`joins`).
* A fetch ahead has a deadline.  It is asked for at each of its `await`s (`expired`), and a fetch
  that is dropped while it is the one to fill a cell leaves the cell empty for the next.
-/

namespace QuickFS.Cached

open Async
open Call (access ask attempt ofExcept)

/-! ## State -/

/-- `CachePolicy`, as `CachedFilesystem::new` accepts it. -/
structure CachePolicy where
  blockSize : ℕ
  readAheadMaxBytes : ℕ
  blockSize_pos : 0 < blockSize
  blockSize_le : blockSize ≤ maxClientReadSize

/-- `mutation` and `prefetch` are the names of the mutex and of the controller that the clones of
one entry share. -/
structure CachedHandle where
  node : NodeId
  inner : Option FileHandle
  revision : FileRevision
  size : ℕ
  mutation : ℕ
  prefetch : ℕ
deriving DecidableEq

inductive SharedFetchError where
  | server (code : ErrorCode) (message : String)
  | unexpectedResponse
  | readTooLarge (limit : ℕ)
  | writeTooLarge (limit : ℕ)
  | staleRevision
  | offline
  | offlineCacheMiss
  | ambiguousMutation
deriving DecidableEq

def SharedFetchError.ofClientError : ClientError → SharedFetchError
  | .transport => offline
  | .offline => offline
  | .server code message => server code message
  | .unexpectedResponse => unexpectedResponse
  | .readTooLarge limit => readTooLarge limit
  | .writeTooLarge limit => writeTooLarge limit
  | .staleRevision => staleRevision
  | .offlineCacheMiss => offlineCacheMiss
  | .ambiguousMutation => ambiguousMutation

def SharedFetchError.toClientError : SharedFetchError → ClientError
  | server code message => .server code message
  | unexpectedResponse => .unexpectedResponse
  | readTooLarge limit => .readTooLarge limit
  | writeTooLarge limit => .writeTooLarge limit
  | staleRevision => .staleRevision
  | offline => .offline
  | offlineCacheMiss => .offlineCacheMiss
  | ambiguousMutation => .ambiguousMutation

/-- The `OnceCell` of a fetch: nobody has filled it yet, somebody is about to, or it is filled. -/
inductive FetchCell where
  | empty
  | initializing
  | ready (result : Except SharedFetchError (List UInt8))

/-- The fields of `CachedFilesystem` and of its `Fetcher`.  `mutations` and `controllerLocks` are
the mutexes of handles and of controllers that are locked. -/
structure State (κ : Type) where
  cache : κ
  handles : FileHandle → Option CachedHandle
  nextHandle : FileHandle
  mutations : List ℕ
  capabilities : Option FilesystemCapabilities
  refreshingDirectories : List NodeId
  directoryParents : NodeId → Option NodeId
  rangeFetches : RangeKey → Option ℕ
  fetches : RangeKey → ℕ → FetchCell
  nextFetch : ℕ
  prefetchPermits : ℕ
  prefetchFetchSlots : ℕ
  controllers : ℕ → SequentialPrefetcher
  controllerLocks : List ℕ
  joins : ℕ → RangeKey → Option (Except ClientError (List UInt8))
  nextJoin : ℕ

/-- `SMALL_READ_AHEAD_BLOCK_SIZE`. -/
def smallReadAheadBlockSize : ℕ := 1024 * 1024

/-- `SMALL_READ_THRESHOLD`. -/
def smallReadThreshold : ℕ := 1024 * 1024

/-- `PREFETCH_PERMIT_UNIT`. -/
def prefetchPermitUnit : ℕ := 64 * 1024

/-- `PREFETCH_MAX_INFLIGHT_BYTES`. -/
def prefetchMaxInflightBytes : ℕ := 32 * 1024 * 1024

/-- `PREFETCH_MAX_CONCURRENT_FETCHES`. -/
def prefetchMaxConcurrentFetches : ℕ := 8

/-- `STALE_REVISION_RETRIES`. -/
def staleRevisionRetries : ℕ := 3

/-- How many permits there are for fetches ahead. -/
def CachePolicy.prefetchPermitTotal (policy : CachePolicy) : ℕ :=
  max 1 (min (min policy.readAheadMaxBytes prefetchMaxInflightBytes / prefetchPermitUnit) (2 ^ 20))

/-- `CachedFilesystem::new`, with whatever is in the cache. -/
def State.new {κ : Type} (policy : CachePolicy) (cache : κ) : State κ where
  cache := cache
  handles := fun _ => none
  nextHandle := 0
  mutations := []
  capabilities := none
  refreshingDirectories := []
  directoryParents := fun node => if node = rootNode then some rootNode else none
  rangeFetches := fun _ => none
  fetches := fun _ _ => .empty
  nextFetch := 0
  prefetchPermits := policy.prefetchPermitTotal
  prefetchFetchSlots := prefetchMaxConcurrentFetches
  controllers := fun _ => .empty
  controllerLocks := []
  joins := fun _ _ => none
  nextJoin := 0

namespace State

variable {κ : Type} (s : State κ)

def setHandle (logical : FileHandle) (state : Option CachedHandle) : State κ :=
  { s with handles := fun h => if h = logical then state else s.handles h }

/-- Change the revision and size of a handle, if it is still there. -/
def updateHandle (logical : FileHandle) (revision : FileRevision) (size : ℕ) : State κ :=
  s.setHandle logical ((s.handles logical).map fun state =>
    { state with revision := revision, size := size })

def insertHandle (node : NodeId) (inner : Option FileHandle) (revision : FileRevision) (size : ℕ) :
    State κ :=
  { s.setHandle s.nextHandle (some ⟨node, inner, revision, size, s.nextHandle, s.nextHandle⟩) with
    nextHandle := s.nextHandle + 1 }

def setParent (node : NodeId) (parent : Option NodeId) : State κ :=
  { s with directoryParents := fun n => if n = node then parent else s.directoryParents n }

/-- The cell that is registered for a block, or a new one. -/
def registerFetch (block : RangeKey) : State κ :=
  match s.rangeFetches block with
  | some _ => s
  | none => { s with
      rangeFetches := fun b => if b = block then some s.nextFetch else s.rangeFetches b
      nextFetch := s.nextFetch + 1 }

def setFetch (block : RangeKey) (serial : ℕ) (cell : FetchCell) : State κ :=
  { s with fetches := fun b n => if b = block ∧ n = serial then cell else s.fetches b n }

/-- Take a cell out of the map if it is still the one that is registered. -/
def unregisterFetch (block : RangeKey) (serial : ℕ) : State κ :=
  { s with rangeFetches := fun b =>
      if b = block ∧ s.rangeFetches b = some serial then none else s.rangeFetches b }

def setController (name : ℕ) (controller : SequentialPrefetcher) : State κ :=
  { s with controllers := fun n => if n = name then controller else s.controllers n }

/-- `try_acquire_many`: the permits, if there are so many. -/
def takePermits (units : ℕ) : State κ :=
  if units ≤ s.prefetchPermits then { s with prefetchPermits := s.prefetchPermits - units } else s

def setJoin (join : ℕ) (block : RangeKey) (result : Except ClientError (List UInt8)) : State κ :=
  { s with joins := fun j b => if j = join ∧ b = block then some result else s.joins j b }

end State

/-- Where the cache is. -/
def cacheLens (κ : Type) : Lens (State κ) κ := ⟨State.cache, fun c s => { s with cache := c }⟩

/-! ## The outside -/

inductive Question where
  | call (operation : RemoteCall)
  | now
  /-- Has the deadline of a fetch ahead passed? -/
  | deadline
  | disk

abbrev Question.Answer : Question → Type
  | call operation => operation.Reply
  | now => ℕ
  | deadline => Bool
  | disk => DiskIO

/-- What the client runs against: the remote file system below it, the clock, the disk. -/
structure Outside where
  Env : Type
  Choice : Type
  serve : Env → Choice → (q : Question) → Option (Env × q.Answer)

inductive Op where
  | call (operation : RemoteCall)
  /-- The cache does what it does on its own. -/
  | maintain

/-- A call ends in its reply; the tasks it leaves behind end in nothing. -/
abbrev sig (κ : Type) (O : Outside) : Sig where
  Shared := State κ
  Env := O.Env
  Choice := O.Choice
  Question := Question
  Answer := Question.Answer
  Result := Option ((operation : RemoteCall) × operation.Reply)
  Op := Op

abbrev M (κ : Type) (O : Outside) := Call (sig κ O) ClientError

section Program

variable {κ : Type} {O : Outside}

/-- A method of `inner`. -/
def remote (operation : RemoteCall) : M κ O operation.Reply :=
  ask (S := sig κ O) (.call operation)

/-- The same, ending in its error if there is one. -/
def demand (operation : RemoteCall) : M κ O operation.Output := do
  let reply ← remote operation
  ofExcept reply

/-- `mutation.lock()`, for the rest of the call. -/
def locking {α : Type} (mutation : ℕ) (m : M κ O α) : M κ O α :=
  Call.holding
    (access (fun s => decide (mutation ∉ s.mutations))
      (fun s => { s with mutations := mutation :: s.mutations }) fun _ => ())
    (Call.modify fun s => { s with mutations := s.mutations.erase mutation }) m

def isOffline : ClientError → Bool
  | .transport | .offline => true
  | _ => false

def unknownHandle : ClientError := .server .invalidHandle "unknown cached handle"

def rangeOverflows : ClientError := .server .invalidRequest "read range overflows"

variable (cache : FilesystemCache (sig κ O) ClientError) (policy : CachePolicy)

/-! ## Handles -/

def rememberHandle (node : NodeId) (inner : Option FileHandle) (revision : FileRevision)
    (size : ℕ) : M κ O OpenedFile := do
  let logical ← access (fun _ => true)
    (fun s => s.insertHandle node inner revision size) fun s => s.nextHandle
  pure ⟨logical, revision, size⟩

def handle (logical : FileHandle) : M κ O CachedHandle := do
  match ← Call.read fun s => s.handles logical with
  | some state => pure state
  | none => Call.throw unknownHandle

def requireOnlineHandle (state : CachedHandle) : M κ O FileHandle :=
  match state.inner with
  | some inner => pure inner
  | none => Call.throw .offline

def updateHandle (logical : FileHandle) (revision : FileRevision) (size : ℕ) : M κ O Unit :=
  Call.modify fun s => s.updateHandle logical revision size

/-! ## Metadata and directories -/

def cacheMetadata (metadata : Metadata) : M κ O Metadata := do
  cache.storeMetadata metadata
  pure metadata

def cachedMetadata (node : NodeId) : M κ O Metadata := do
  match ← cache.getMetadata node with
  | some metadata => pure metadata
  | none => Call.throw .offlineCacheMiss

def offlineDirectory (node : NodeId) : M κ O DirectorySnapshot := do
  let metadata ← cachedMetadata cache node
  match ← cache.getDirectory ⟨node, metadata.revision⟩ with
  | some entries => pure ⟨metadata.revision, entries⟩
  | none => Call.throw .offlineCacheMiss

/-- The task that `refresh_directory_in_background` leaves behind. -/
def refreshDirectory (node : NodeId) : M κ O Unit := do
  match ← remote (.listDirectorySnapshot node) with
  | .ok snapshot => do
    cache.storeSnapshot ⟨node, snapshot.revision⟩ snapshot.entries
    match ← remote (.getMetadata node) with
    | .ok metadata =>
      if metadata.revision = snapshot.revision then cache.storeMetadata metadata else pure ()
    | .error _ => pure ()
  | .error _ => pure ()
  Call.modify fun s =>
    { s with refreshingDirectories := s.refreshingDirectories.erase node }

def refreshDirectoryInBackground (node : NodeId) : M κ O Unit := do
  let fresh ← access (fun _ => true)
    (fun s => { s with refreshingDirectories := s.refreshingDirectories.insert node })
    fun s => decide (node ∉ s.refreshingDirectories)
  if fresh then
    Call.spawn fun _ => (refreshDirectory cache node).toTask fun _ => none
  else pure ()

/-! ## Blocks -/

def cachedRange (state : CachedHandle) (offset length : ℕ) : M κ O (Option (List UInt8)) :=
  cache.getRange ⟨⟨state.node, state.revision⟩, offset, min length (state.size - offset)⟩

def demandBlockSize (length : ℕ) : ℕ :=
  if length ≤ smallReadThreshold then min policy.blockSize smallReadAheadBlockSize
  else policy.blockSize

/-- The loop of `blocks_for`; a round goes at least one byte forward. -/
def blocksLoop (state : CachedHandle) (requestedEnd blockSize : ℕ) :
    ℕ → ℕ → Except ClientError (List RangeKey)
  | 0, _ => .ok []
  | rounds + 1, blockOffset =>
    if blockOffset < requestedEnd then
      let block : RangeKey := ⟨⟨state.node, state.revision⟩, blockOffset,
        min (min policy.blockSize blockSize) (state.size - blockOffset)⟩
      match checkedAdd blockOffset blockSize with
      | none => .error .unexpectedResponse
      | some next =>
        match blocksLoop state requestedEnd blockSize rounds next with
        | .ok blocks => .ok (block :: blocks)
        | .error error => .error error
    else .ok []

def blocksFor (state : CachedHandle) (offset length : ℕ) : Except ClientError (List RangeKey) :=
  match checkedAdd offset length with
  | none => .error rangeOverflows
  | some _ =>
    let requested := min length (state.size - offset)
    if requested = 0 then .ok []
    else
      match checkedAdd offset requested with
      | none => .error .unexpectedResponse
      | some requestedEnd =>
        let blockSize := demandBlockSize policy length
        let start := offset / blockSize * blockSize
        blocksLoop policy state requestedEnd blockSize (requestedEnd - start) start

/-! ## Fetching -/

/-- Whether a fetch is to be dropped here.  Only fetches ahead have a deadline. -/
def expired (deadlined : Bool) : M κ O Bool :=
  if deadlined then ask (S := sig κ O) .deadline else pure false

/-- What the one who fills a cell does; `none` if it is dropped before it is done. -/
def loadBlock (deadlined : Bool) (inner : FileHandle) (expectedRevision : FileRevision)
    (block : RangeKey) : M κ O (Option (Except ClientError (List UInt8))) := do
  let found ← cache.getRange block
  if ← expired deadlined then pure none
  else
    match found with
    | some data => pure (some (.ok data))
    | none => do
      let reply ← remote (.readRangeVersioned inner block.offset block.length)
      if ← expired deadlined then pure none
      else
        match reply with
        | .error error => pure (some (.error error))
        | .ok read =>
          if read.revision ≠ expectedRevision then pure (some (.error .staleRevision))
          else if read.data.length > block.length then pure (some (.error .unexpectedResponse))
          else if read.data.length > 0 then do
            cache.storeRange { block with length := read.data.length } read.data
            if ← expired deadlined then pure none else pure (some (.ok read.data))
          else pure (some (.ok read.data))

/-- The end of a fetch: the cell leaves the map, and the caller gets a copy of what is in it. -/
def finishFetch (deadlined : Bool) (block : RangeKey) (serial : ℕ)
    (result : Except SharedFetchError (List UInt8)) : M κ O (List UInt8) := do
  if ← expired deadlined then Call.throw .offline
  else do
    Call.modify fun s => s.unregisterFetch block serial
    match result with
    | .ok data => pure data
    | .error error => Call.throw error.toClientError

/-- `Fetcher::fetch_block`.  A fetch that is dropped ends in an error, which is all that its task
makes of it. -/
def fetchBlock (deadlined : Bool) (inner : FileHandle) (expectedRevision : FileRevision)
    (block : RangeKey) : M κ O (List UInt8) := do
  let serial ← access (fun _ => true) (fun s => s.registerFetch block)
    fun s => (s.rangeFetches block).getD s.nextFetch
  if ← expired deadlined then Call.throw .offline
  else do
    let cell ← access
      (fun s => match s.fetches block serial with
        | .initializing => false
        | _ => true)
      (fun s => match s.fetches block serial with
        | .empty => s.setFetch block serial .initializing
        | _ => s)
      fun s => s.fetches block serial
    match cell with
    | .ready result => finishFetch deadlined block serial result
    | _ => do
      match ← loadBlock cache deadlined inner expectedRevision block with
      | none => do
        Call.modify fun s => s.setFetch block serial .empty
        Call.throw .offline
      | some loaded => do
        let result := loaded.mapError SharedFetchError.ofClientError
        Call.modify fun s => s.setFetch block serial (.ready result)
        finishFetch deadlined block serial result

/-! ## Read-ahead -/

def prefetchPermitsFor (length total : ℕ) : ℕ :=
  max 1 (min (divCeil length prefetchPermitUnit) (max total 1))

/-- Take a slot and permits for each block, as far as they go; the blocks after that are denied. -/
def acquirePermits : List RangeKey → M κ O (List (RangeKey × ℕ) × List RangeKey)
  | [] => pure ([], [])
  | block :: rest => do
    let units := prefetchPermitsFor block.length policy.prefetchPermitTotal
    let slot ← access (fun _ => true)
      (fun s => { s with prefetchFetchSlots := s.prefetchFetchSlots - 1 })
      fun s => decide (0 < s.prefetchFetchSlots)
    if slot then do
      let permit ← access (fun _ => true) (fun s => s.takePermits units)
        fun s => decide (units ≤ s.prefetchPermits)
      if permit then do
        let (granted, denied) ← acquirePermits rest
        pure ((block, units) :: granted, denied)
      else do
        Call.modify fun s =>
          { s with prefetchFetchSlots := s.prefetchFetchSlots + 1 }
        pure ([], block :: rest)
    else pure ([], block :: rest)

/-- The section of `maybe_prefetch` under the lock of the controller. -/
def schedulePrefetch (state : CachedHandle) (offset returned elapsed granularity capBlocks : ℕ) :
    M κ O (ℕ × List (RangeKey × ℕ)) :=
  Call.holding
    (access (fun s => decide (state.prefetch ∉ s.controllerLocks))
      (fun s => { s with controllerLocks := state.prefetch :: s.controllerLocks }) fun _ => ())
    (Call.modify fun s =>
      { s with controllerLocks := s.controllerLocks.erase state.prefetch })
    do
      let observed : State κ → SequentialPrefetcher × ℕ × List RangeKey := fun s =>
        (s.controllers state.prefetch).observe state.node offset returned state.revision state.size
          elapsed granularity capBlocks
      let (streamId, scheduled) ← access (fun _ => true)
        (fun s => s.setController state.prefetch (observed s).1) fun s => (observed s).2
      let (granted, denied) ← acquirePermits policy scheduled
      Call.modify fun s =>
        s.setController state.prefetch ((s.controllers state.prefetch).unschedule streamId denied)
      pure (streamId, granted)

/-- A fetch ahead, as a task of its own. -/
def prefetchTask (state : CachedHandle) (inner : FileHandle) (streamId : ℕ) (block : RangeKey)
    (units : ℕ) : M κ O Unit := do
  let result ← attempt (fetchBlock cache true inner state.revision block)
  access (fun s => decide (state.prefetch ∉ s.controllerLocks))
    (fun s => s.setController state.prefetch
      ((s.controllers state.prefetch).complete streamId result.isOk)) fun _ => ()
  Call.modify fun s => { s with prefetchPermits := s.prefetchPermits + units }
  Call.modify fun s => { s with prefetchFetchSlots := s.prefetchFetchSlots + 1 }

def spawnPrefetches (state : CachedHandle) (inner : FileHandle) (streamId : ℕ) :
    List (RangeKey × ℕ) → M κ O Unit
  | [] => pure ()
  | (block, units) :: rest => do
    Call.spawn fun _ =>
      (prefetchTask cache state inner streamId block units).toTask fun _ => none
    spawnPrefetches state inner streamId rest

def maybePrefetch (state : CachedHandle) (inner : FileHandle)
    (offset returned elapsed granularity : ℕ) : M κ O Unit :=
  if granularity = 0 then pure ()
  else
    let capBlocks := policy.readAheadMaxBytes / granularity
    if capBlocks = 0 then pure ()
    else do
      let (streamId, granted) ←
        schedulePrefetch policy state offset returned elapsed granularity capBlocks
      spawnPrefetches cache state inner streamId granted

/-! ## Reading -/

/-- The fetch of one block of a read. -/
def joinBlock (join : ℕ) (inner : FileHandle) (revision : FileRevision) (block : RangeKey) :
    M κ O Unit := do
  let result ← attempt (fetchBlock cache false inner revision block)
  Call.modify fun s => s.setJoin join block result

def spawnBlocks (join : ℕ) (inner : FileHandle) (revision : FileRevision) :
    List RangeKey → M κ O Unit
  | [] => pure ()
  | block :: rest => do
    Call.spawn fun _ =>
      (joinBlock cache join inner revision block).toTask fun _ => none
    spawnBlocks join inner revision rest

/-- `join_all`: fetch the blocks concurrently and wait for them all. -/
def joinAll (inner : FileHandle) (revision : FileRevision) (blocks : List RangeKey) :
    M κ O (List (RangeKey × Except ClientError (List UInt8))) := do
  let join ← access (fun _ => true)
    (fun s => { s with nextJoin := s.nextJoin + 1 }) fun s => s.nextJoin
  spawnBlocks cache join inner revision blocks
  access (fun s => blocks.all fun block => (s.joins join block).isSome) id
    fun s => blocks.filterMap fun block => (s.joins join block).map fun result => (block, result)

/-- The loop of `read_online` over the results: the pieces, and whether one was not to be had. -/
def collect : List (RangeKey × Except ClientError (List UInt8)) → MemoryCache → Bool →
    Except ClientError (MemoryCache × Bool)
  | [], assembled, offlineError => .ok (assembled, offlineError)
  | (block, .ok data) :: rest, assembled, offlineError =>
    if data.length > block.length then .error .unexpectedResponse
    else if data.length > 0 then
      collect rest (assembled.putRange { block with length := data.length } data) offlineError
    else collect rest assembled offlineError
  | (_, .error error) :: rest, assembled, _ =>
    if isOffline error then collect rest assembled true else .error error

/-- The end of `read_online`, once the pieces are there. -/
def assemble (state : CachedHandle) (inner : FileHandle) (offset length elapsed : ℕ)
    (assembled : MemoryCache) (offlineError : Bool) : M κ O RangeRead :=
  match assembled.lookupRange
      ⟨⟨state.node, state.revision⟩, offset, min length (state.size - offset)⟩ with
  | some data => do
    maybePrefetch cache policy state inner offset data.length elapsed (demandBlockSize policy length)
    pure ⟨state.revision, data⟩
  | none => do
    match ← cachedRange cache state offset length with
    | some data => pure ⟨state.revision, data⟩
    | none => Call.throw (if offlineError then .offlineCacheMiss else .unexpectedResponse)

def readOnline (state : CachedHandle) (inner : FileHandle) (offset length : ℕ) :
    M κ O RangeRead := do
  let blocks ← ofExcept (blocksFor policy state offset length)
  if blocks.isEmpty then pure ⟨state.revision, []⟩
  else do
    let started ← ask (S := sig κ O) .now
    let results ← joinAll cache inner state.revision blocks
    let (assembled, offlineError) ← ofExcept (collect results .empty false)
    let now ← ask (S := sig κ O) .now
    assemble cache policy state inner offset length (now - started) assembled offlineError

/-- The loop of `read_range_versioned`, with the number of retries that are left. -/
def readAttempts (handle inner : FileHandle) (offset length : ℕ) :
    ℕ → CachedHandle → M κ O RangeRead
  | retries, state => do
    match ← attempt (readOnline cache policy state inner offset length) with
    | .error .staleRevision =>
      match retries with
      | 0 => Call.throw .staleRevision
      | retries + 1 => do
        let metadata ← demand (.getMetadata state.node)
        cache.storeMetadata metadata
        updateHandle handle metadata.revision metadata.size
        readAttempts handle inner offset length retries
          { state with revision := metadata.revision, size := metadata.size }
    | result => ofExcept result

def readRangeVersioned (logical : FileHandle) (offset length : ℕ) : M κ O RangeRead := do
  let state ← handle logical
  match checkedAdd offset length with
  | none => Call.throw rangeOverflows
  | some _ =>
    match state.inner with
    | none => do
      match ← cachedRange cache state offset length with
      | some data => pure ⟨state.revision, data⟩
      | none => Call.throw .offlineCacheMiss
    | some inner => readAttempts cache policy logical inner offset length staleRevisionRetries state

/-! ## The other operations -/

def capabilities : M κ O FilesystemCapabilities := do
  match ← remote .capabilities with
  | .ok capabilities => do
    Call.modify fun s => { s with capabilities := some capabilities }
    pure capabilities
  | .error error =>
    if isOffline error then do
      match ← Call.read fun s => s.capabilities with
      | some capabilities => pure capabilities
      | none => Call.throw .offline
    else Call.throw error

def statFilesystem : M κ O FilesystemStats := do
  match ← remote .statFilesystem with
  | .ok statistics => do
    cache.storeFilesystemStats statistics
    pure statistics
  | .error error =>
    if isOffline error then do
      match ← cache.getFilesystemStats with
      | some statistics => pure statistics
      | none => Call.throw .offlineCacheMiss
    else Call.throw error

def getMetadata (node : NodeId) : M κ O Metadata := do
  match ← remote (.getMetadata node) with
  | .ok metadata => cacheMetadata cache metadata
  | .error error => if isOffline error then cachedMetadata cache node else Call.throw error

def listDirectorySnapshot (node : NodeId) : M κ O DirectorySnapshot := do
  match ← attempt (offlineDirectory cache node) with
  | .ok snapshot => do
    refreshDirectoryInBackground cache node
    pure snapshot
  | .error _ => do
    match ← remote (.listDirectorySnapshot node) with
    | .ok snapshot => do
      cache.storeSnapshot ⟨node, snapshot.revision⟩ snapshot.entries
      pure snapshot
    | .error error => if isOffline error then offlineDirectory cache node else Call.throw error

/-- `list_directory_view` without the remote. -/
def offlineView (node : NodeId) : M κ O DirectoryView := do
  let snapshot ← offlineDirectory cache node
  let directory ← cachedMetadata cache node
  match ← Call.read fun s => s.directoryParents node with
  | none => Call.throw .offlineCacheMiss
  | some parentNode => do
    let parent ← cachedMetadata cache parentNode
    pure ⟨snapshot.revision, directory, parent, none, snapshot.entries.map fun entry => ⟨entry, none⟩⟩

def listDirectoryView (node : NodeId) (options : DirectoryViewOptions) : M κ O DirectoryView := do
  match ← remote (.listDirectoryView node options) with
  | .ok view => do
    cache.storeSnapshot ⟨node, view.revision⟩ (view.entries.map fun entry => entry.entry)
    cache.storeMetadata view.directory
    cache.storeMetadata view.parent
    Call.modify fun s => s.setParent node (some view.parent.node)
    pure view
  | .error error => if isOffline error then offlineView cache node else Call.throw error

def openFileWithOptions (node : NodeId) (options : FileOpenOptions) : M κ O OpenedFile := do
  match ← remote (.openFileWithOptions node options) with
  | .ok opened => rememberHandle node (some opened.handle) opened.revision opened.size
  | .error error =>
    if isOffline error ∧ options.access = .readOnly ∧ !options.truncate ∧ !options.append then do
      let metadata ← cachedMetadata cache node
      rememberHandle node none metadata.revision metadata.size
    else Call.throw error

def createFile (parent : NodeId) (name : Name) (mode : ℕ) (options : FileOpenOptions) :
    M κ O CreatedFile := do
  let created ← demand (.createFile parent name mode options)
  cache.invalidateNodeState parent
  cache.storeMetadata created.metadata
  let opened ← rememberHandle created.metadata.node (some created.opened.handle)
    created.opened.revision created.opened.size
  pure ⟨created.metadata, opened⟩

/-- The start of the operations that create a node in a directory: the directory is not what it was,
and the node is known. -/
def createNode (parent : NodeId) (operation : M κ O Metadata) : M κ O Metadata := do
  let metadata ← operation
  cache.invalidateNodeState parent
  cache.storeMetadata metadata
  pure metadata

def createDirectory (parent : NodeId) (name : Name) (mode : ℕ) : M κ O Metadata := do
  let metadata ← createNode cache parent (demand (.createDirectory parent name mode))
  Call.modify fun s => s.setParent metadata.node (some parent)
  pure metadata

/-- The target of a symbolic link is kept like the bytes of a file, if it is as long as it should
be. -/
def storeTarget (node : NodeId) (metadata : Metadata) (target : List UInt8) : M κ O Unit :=
  if target.length = metadata.size then
    cache.storeRange ⟨⟨node, metadata.revision⟩, 0, metadata.size⟩ target
  else pure ()

def createSymlink (parent : NodeId) (name : Name) (target : List UInt8) : M κ O Metadata := do
  let metadata ← createNode cache parent (demand (.createSymlink parent name target))
  storeTarget cache metadata.node metadata target
  pure metadata

def createHardLink (node newParent : NodeId) (newName : Name) : M κ O Metadata := do
  let metadata ← demand (.createHardLink node newParent newName)
  cache.invalidateNodeState node
  cache.invalidateNodeState newParent
  cache.storeMetadata metadata
  pure metadata

def createSpecialNode (parent : NodeId) (name : Name) (kind : SpecialNodeKind)
    (mode deviceMajor deviceMinor : ℕ) : M κ O Metadata :=
  createNode cache parent (demand (.createSpecialNode parent name kind mode deviceMajor deviceMinor))

/-- The node that a cached listing has under a name. -/
def cachedChild (parent : NodeId) (name : Name) : M κ O (Option NodeId) := do
  match ← attempt (offlineDirectory cache parent) with
  | .ok snapshot =>
    pure ((snapshot.entries.find? fun entry => decide (entry.name = name)).map fun entry =>
      entry.node)
  | .error _ => pure none

def removeNode (parent : NodeId) (name : Name) (directory : Bool) : M κ O Unit := do
  let child ← cachedChild cache parent name
  let _ ← demand (.removeNode parent name directory)
  cache.invalidateNodeState parent
  match child with
  | some node => do
    cache.invalidateNodeState node
    Call.modify fun s => s.setParent node none
  | none => pure ()

/-- What a rename does to the parents that are on record. -/
def State.renameParents (s : State κ) (parent newParent : NodeId) (mode : RenameMode)
    (source destination : Option NodeId) : State κ :=
  let s := match source with
    | some source => s.setParent source (some newParent)
    | none => s
  match destination with
  | some destination =>
    if mode = .exchange then s.setParent destination (some parent) else s.setParent destination none
  | none => s

def renameNode (parent : NodeId) (name : Name) (newParent : NodeId) (newName : Name)
    (mode : RenameMode) : M κ O Unit := do
  let source ← cachedChild cache parent name
  let destination ← cachedChild cache newParent newName
  let _ ← demand (.renameNode parent name newParent newName mode)
  cache.invalidateNodeState parent
  cache.invalidateNodeState newParent
  Call.modify fun s => s.renameParents parent newParent mode source destination

def readLink (node : NodeId) : M κ O (List UInt8) := do
  match ← remote (.readLink node) with
  | .ok target => do
    match ← remote (.getMetadata node) with
    | .ok metadata => do
      cache.storeMetadata metadata
      storeTarget cache node metadata target
      pure target
    | .error _ => pure target
  | .error error =>
    if isOffline error then do
      let metadata ← cachedMetadata cache node
      match ← cache.getRange ⟨⟨node, metadata.revision⟩, 0, metadata.size⟩ with
      | some target => pure target
      | none => Call.throw .offlineCacheMiss
    else Call.throw error

/-- What `set_attributes` does with the handle of the layer below, if there is one. -/
def setAttributesOn (node : NodeId) (logical inner : Option FileHandle)
    (changes : AttributeChanges) : M κ O Metadata := do
  let metadata ← demand (.setAttributes node inner changes)
  cache.invalidateNodeState node
  cache.storeMetadata metadata
  match logical with
  | some logical => do
    updateHandle logical metadata.revision metadata.size
    pure metadata
  | none => pure metadata

def setAttributes (node : NodeId) (logical : Option FileHandle) (changes : AttributeChanges) :
    M κ O Metadata :=
  match logical with
  | none => setAttributesOn cache node none none changes
  | some logical => do
    let state ← handle logical
    locking state.mutation do
      let inner ← requireOnlineHandle state
      setAttributesOn cache node (some logical) (some inner) changes

def writeRange (logical : FileHandle) (offset : ℕ) (data : List UInt8) : M κ O WriteResult := do
  let state ← handle logical
  locking state.mutation do
    let inner ← requireOnlineHandle state
    let result ← demand (.writeRange inner offset data)
    cache.invalidateNodeMemory state.node
    updateHandle logical result.revision result.size
    pure result

def allocateFile (logical : FileHandle) (offset length : ℕ) : M κ O WriteResult := do
  let state ← handle logical
  locking state.mutation do
    let inner ← requireOnlineHandle state
    let result ← demand (.allocateFile inner offset length)
    cache.invalidateNodeState state.node
    updateHandle logical result.revision result.size
    pure result

/-- `flush_file` and `sync_file`: an offline handle has nothing to flush. -/
def flushThrough (logical : FileHandle) (invoke : FileHandle → M κ O Unit) : M κ O Unit := do
  let state ← handle logical
  locking state.mutation
    (match state.inner with
      | some inner => invoke inner
      | none => pure ())

def flushFile (logical : FileHandle) (lockOwner : Option ℕ) : M κ O Unit :=
  flushThrough logical fun inner => demand (.flushFile inner lockOwner)

def syncFile (logical : FileHandle) (dataOnly : Bool) : M κ O Unit :=
  flushThrough logical fun inner => demand (.syncFile inner dataOnly)

/-- A change of a node that its name alone identifies. -/
def mutateNode (node : NodeId) (operation : M κ O Unit) : M κ O Unit := do
  operation
  cache.invalidateNodeState node

def setXattr (node : NodeId) (name : Name) (value : List UInt8) (mode : XattrSetMode)
    (position : ℕ) : M κ O Unit :=
  mutateNode cache node (demand (.setXattr node name value mode position))

def removeXattr (node : NodeId) (name : Name) : M κ O Unit :=
  mutateNode cache node (demand (.removeXattr node name))

def copyFileRange (input : FileHandle) (inputOffset : ℕ) (output : FileHandle)
    (outputOffset length : ℕ) : M κ O WriteResult := do
  let inputState ← handle input
  let outputState ← handle output
  let inputHandle ← requireOnlineHandle inputState
  let outputHandle ← requireOnlineHandle outputState
  let result ← demand (.copyFileRange inputHandle inputOffset outputHandle outputOffset length)
  cache.invalidateNodeState outputState.node
  updateHandle output result.revision result.size
  pure result

/-- `seek_file`, `safe_ioctl`, `get_lock` and `set_lock`: the same call below. -/
def passOn {α : Type} (logical : FileHandle) (invoke : FileHandle → M κ O α) : M κ O α := do
  let state ← handle logical
  let inner ← requireOnlineHandle state
  invoke inner

def seekFile (logical : FileHandle) (offset : ℕ) (whence : SeekWhence) : M κ O ℕ :=
  passOn logical fun inner => demand (.seekFile inner offset whence)

def safeIoctl (logical : FileHandle) (operation : SafeIoctl) : M κ O ℕ :=
  passOn logical fun inner => demand (.safeIoctl inner operation)

def getLock (logical : FileHandle) (lock : FileLock) : M κ O (Option FileLock) :=
  passOn logical fun inner => demand (.getLock inner lock)

def setLock (logical : FileHandle) (lock : FileLock) (wait : Bool) : M κ O Unit :=
  passOn logical fun inner => demand (.setLock inner lock wait)

def exchangeData (parent : NodeId) (name : Name) (newParent : NodeId) (newName : Name)
    (options : ℕ) : M κ O Unit := do
  let _ ← demand (.exchangeData parent name newParent newName options)
  cache.invalidateNodeState parent
  cache.invalidateNodeState newParent

def closeFile (logical : FileHandle) : M κ O Unit := do
  let state ← handle logical
  locking state.mutation do
    match ← access (fun _ => true) (fun s => s.setHandle logical none)
      fun s => s.handles logical with
    | none => Call.throw unknownHandle
    | some state =>
      match state.inner with
      | some inner => demand (.closeFile inner)
      | none => pure ()

/-- The implementation of `RemoteFilesystem`. -/
def operation : (op : RemoteCall) → M κ O op.Output
  | .ping nonce => demand (.ping nonce)
  | .capabilities => capabilities
  | .statFilesystem => statFilesystem cache
  | .getMetadata node => getMetadata cache node
  | .listDirectorySnapshot node => listDirectorySnapshot cache node
  | .listDirectoryView node options => listDirectoryView cache node options
  | .openFileWithOptions node options => openFileWithOptions cache node options
  | .createFile parent name mode options => createFile cache parent name mode options
  | .createDirectory parent name mode => createDirectory cache parent name mode
  | .createSymlink parent name target => createSymlink cache parent name target
  | .createHardLink node newParent newName => createHardLink cache node newParent newName
  | .createSpecialNode parent name kind mode deviceMajor deviceMinor =>
    createSpecialNode cache parent name kind mode deviceMajor deviceMinor
  | .removeNode parent name directory => removeNode cache parent name directory
  | .renameNode parent name newParent newName mode =>
    renameNode cache parent name newParent newName mode
  | .readLink node => readLink cache node
  | .setAttributes node logical changes => setAttributes cache node logical changes
  | .readRangeVersioned logical offset length =>
    readRangeVersioned cache policy logical offset length
  | .writeRange logical offset data => writeRange cache logical offset data
  | .flushFile logical lockOwner => flushFile logical lockOwner
  | .syncFile logical dataOnly => syncFile logical dataOnly
  | .syncDirectory node => demand (.syncDirectory node)
  | .allocateFile logical offset length => allocateFile cache logical offset length
  | .getXattr node name offset length => demand (.getXattr node name offset length)
  | .setXattr node name value mode position => setXattr cache node name value mode position
  | .listXattrs node => demand (.listXattrs node)
  | .removeXattr node name => removeXattr cache node name
  | .copyFileRange input inputOffset output outputOffset length =>
    copyFileRange cache input inputOffset output outputOffset length
  | .seekFile logical offset whence => seekFile logical offset whence
  | .safeIoctl logical operation => safeIoctl logical operation
  | .mapBlock node blockSize block => demand (.mapBlock node blockSize block)
  | .exchangeData parent name newParent newName options =>
    exchangeData cache parent name newParent newName options
  | .setVolumeName name => demand (.setVolumeName name)
  | .forgetNodes nodes => demand (.forgetNodes nodes)
  | .getLock logical lock => getLock logical lock
  | .setLock logical lock wait => setLock logical lock wait
  | .closeFile logical => closeFile logical

end Program

/-! ## The caches a client can have -/

/-- A cache and what it does on its own. -/
structure Backend (κ : Type) (O : Outside) where
  cache : FilesystemCache (sig κ O) ClientError
  maintain : M κ O Unit

/-- `MemoryCache`, which does nothing on its own. -/
def memoryBackend (O : Outside) : Backend MemoryCache O where
  cache := MemoryCache.implementation (cacheLens MemoryCache)
  maintain := pure ()

/-- `NonBlockingPersistentCache` and its writer thread. -/
def persistentBackend (O : Outside) (config : NonBlockingPersistentCache.Config) :
    Backend NonBlockingPersistentCache O where
  cache := NonBlockingPersistentCache.implementation (cacheLens NonBlockingPersistentCache)
    (ask (S := sig NonBlockingPersistentCache O) .disk) config
  maintain := NonBlockingPersistentCache.writerBatch (cacheLens NonBlockingPersistentCache)
    (ask (S := sig NonBlockingPersistentCache O) .disk) config

/-- The caches a client is built over. -/
inductive CacheKind where
  | memory
  | persistent (config : NonBlockingPersistentCache.Config)

namespace CacheKind

abbrev Cache : CacheKind → Type
  | memory => MemoryCache
  | persistent _ => NonBlockingPersistentCache

def backend (O : Outside) : (kind : CacheKind) → Backend kind.Cache O
  | memory => memoryBackend O
  | persistent config => persistentBackend O config

end CacheKind

/-- Any number of concurrent calls of one `CachedFilesystem`, with everything they leave behind. -/
def program {κ : Type} {O : Outside} (B : Backend κ O) (policy : CachePolicy) :
    Program (sig κ O) where
  code
    | .call op, _ => (operation B.cache policy op).toTask fun r => some ⟨op, r⟩
    | .maintain, _ => B.maintain.toTask fun _ => none
  serve := O.serve

end QuickFS.Cached
