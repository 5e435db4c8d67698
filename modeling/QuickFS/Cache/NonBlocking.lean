import QuickFS.Cache.Disk

/-!
# The cache that does not wait for the disk

`NonBlockingPersistentCache` puts two tiers in memory — a `MemoryCache` and the hot ranges — before
the `PersistentCache`, and a thread behind them.  A lookup asks the memory first, then the disk, and
what it finds on the disk it brings back into memory.  A store or an invalidation changes the memory
at once and leaves the disk to the thread: it becomes a job in a queue, which the thread takes out
in batches (`writerBatch`, one round of the thread's loop).

The queue's atomics count what is in it.  A store that was only read through is dropped when there
is too much; an invalidation never is.  Sending on the channel cannot fail while the thread lives,
and it lives as long as the cache.
-/

namespace QuickFS

open Async Slices
open Call (focus)

/-- What the writer thread is asked to do: the jobs that `CachedFilesystem` gives it. -/
inductive PersistentJob where
  | insertMetadata (value : Metadata)
  | insertDirectorySnapshot (key : RevisionKey) (value : List DirectoryEntry)
  | insertRange (key : RangeKey) (value : List UInt8)
  | insertFilesystemStats (value : FilesystemStats)
  | invalidateNode (node : NodeId)
deriving DecidableEq

/-- What an insertion stores. -/
def PersistentJob.entries : PersistentJob → List (EntryKey × Payload)
  | .insertMetadata value => [(.metadata value.node, .metadata value)]
  | .insertDirectorySnapshot key value =>
    (.directory key, .directory value) ::
      value.map fun entry => (.metadata entry.node, .metadata entry.metadata)
  | .insertRange key value =>
    if validRangePayload key value && !value.isEmpty then [(.range key, .range value)] else []
  | .insertFilesystemStats value => [(.filesystemStats, .filesystemStats value)]
  | .invalidateNode _ => []

structure NonBlockingPersistentCache where
  inner : PersistentState
  memory : MemoryCache
  hotRanges : HotRangeState
  /-- The jobs in the channel, the next one first. -/
  writer : List PersistentJob
  pendingJobs : ℕ
  pendingStoreBytes : ℕ
  /-- The writer thread is in the middle of a batch. -/
  writing : Bool

namespace NonBlockingPersistentCache

structure Config where
  disk : DiskConfig
  hotRangeBytes : ℕ
  storeJobLimit : ℕ
  storeByteLimit : ℕ

/-- `WRITER_BATCH_MAX`. -/
def writerBatchMax : ℕ := 256

/-! ## Its parts -/

def innerLens : Lens NonBlockingPersistentCache PersistentState :=
  ⟨inner, fun s c => { c with inner := s }⟩

def memoryLens : Lens NonBlockingPersistentCache MemoryCache :=
  ⟨memory, fun m c => { c with memory := m }⟩

def hotLens : Lens NonBlockingPersistentCache HotRangeState :=
  ⟨hotRanges, fun h c => { c with hotRanges := h }⟩

/-- Put a job into the channel. -/
def send (c : NonBlockingPersistentCache) (job : PersistentJob) : NonBlockingPersistentCache :=
  { c with writer := c.writer ++ [job] }

/-- `.ok().flatten()`. -/
def flatten {α : Type} : Except CacheError (Option α) → Option α
  | .ok value => value
  | .error _ => none

section Methods

variable {S : Sig} {ε : Type} (L : Lens S.Shared NonBlockingPersistentCache)
  (disk : Call S ε DiskIO) (config : Config)

/-- One section under the state mutex of the disk cache. -/
def onDisk {α : Type}
    (f : DiskIO → PersistentState → Except CacheError α × PersistentState) :
    Call S ε (Except CacheError α) := do
  let io ← disk
  focus (L.comp innerLens) (fun state => (f io state).2) fun state => (f io state).1

/-! ## The queue -/

def enqueue (job : PersistentJob) : Call S ε Unit := do
  focus L (fun c => { c with pendingJobs := c.pendingJobs + 1 }) fun _ => ()
  focus L (fun c => c.send job) fun _ => ()

def enqueueStoreBehind (job : PersistentJob) : Call S ε Unit := do
  let pendingJobs ← focus L id fun c => c.pendingJobs
  if pendingJobs > config.storeJobLimit then pure () else enqueue L job

/-! ## The writer thread -/

/-- `insert_entries`: the lengths, a look at what is there, the payload files, the splice. -/
def insertEntries (entries : List (EntryKey × Payload)) : Call S ε Unit :=
  match PersistentState.prepare config.disk entries with
  | .error _ => pure ()
  | .ok prepared => do
    let prepared ← focus (L.comp innerLens) id fun state => state.dropCurrent prepared
    if prepared.isEmpty then pure ()
    else do
      let io ← disk
      if io.payloadWritten then do
        let _ ← focus (L.comp innerLens)
          (fun state => (state.splice config.disk io prepared).2)
          fun state => (state.splice config.disk io prepared).1
        pure ()
      else pure ()

def runJob (job : PersistentJob) : Call S ε Unit :=
  match job with
  | .insertRange key value => do
    insertEntries L disk config (PersistentJob.insertRange key value).entries
    focus L (fun c => { c with
      pendingStoreBytes := c.pendingStoreBytes - value.length }) fun _ => ()
  | .invalidateNode node => do
    let _ ← onDisk L disk fun io state => state.invalidateNode config.disk io node
    pure ()
  | job => insertEntries L disk config job.entries

/-- `try_recv` until the batch is full or the channel empty. -/
def drain : ℕ → Call S ε (List PersistentJob)
  | 0 => pure []
  | room + 1 => do
    match ← focus L (fun c => { c with writer := c.writer.tail }) fun c => c.writer.head? with
    | none => pure []
    | some next => do
      let rest ← drain room
      pure (next :: rest)

/-- The jobs of a batch, in order. -/
def runBatch : List PersistentJob → Call S ε Unit
  | [] => pure ()
  | job :: rest => do
    runJob L disk config job
    focus L (fun c => { c with pendingJobs := c.pendingJobs - 1 }) fun _ => ()
    runBatch rest

/-- One round of the writer thread: wait for a job, take what else is there, run it all with the
commits deferred. -/
def writerBatch : Call S ε Unit := do
  let first ← Call.access (fun s => !(L.get s).writing && !(L.get s).writer.isEmpty)
    (fun s => L.set { L.get s with writing := true, writer := (L.get s).writer.tail } s)
    fun s => (L.get s).writer.head?
  let rest ← drain L (writerBatchMax - 1)
  let batch := first.toList ++ rest
  focus (L.comp innerLens) (fun state => { state with deferred := true }) fun _ => ()
  runBatch L disk config batch
  focus (L.comp innerLens) (fun state => { state with deferred := false }) fun _ => ()
  focus L (fun c => { c with writing := false }) fun _ => ()

/-! ## The methods -/

def getMetadata (node : NodeId) : Call S ε (Option Metadata) := do
  match ← MemoryCache.getMetadata (L.comp memoryLens) node with
  | some value => pure (some value)
  | none => do
    let loaded ← onDisk L disk fun io state => state.getMetadataValue config.disk io node
    match flatten loaded with
    | none => pure none
    | some value => do
      MemoryCache.insertMetadata (L.comp memoryLens) value
      pure (some value)

def storeMetadata (value : Metadata) : Call S ε Unit := do
  MemoryCache.insertMetadata (L.comp memoryLens) value
  enqueueStoreBehind L config (.insertMetadata value)

def getDirectory (key : RevisionKey) : Call S ε (Option (List DirectoryEntry)) := do
  match ← MemoryCache.getDirectory (L.comp memoryLens) key with
  | some value => pure (some value)
  | none => do
    let loaded ← onDisk L disk fun io state => state.getDirectoryValue config.disk io key
    match flatten loaded with
    | none => pure none
    | some value => do
      MemoryCache.storeSnapshot (L.comp memoryLens) key value
      pure (some value)

def storeSnapshot (key : RevisionKey) (value : List DirectoryEntry) : Call S ε Unit := do
  MemoryCache.storeSnapshot (L.comp memoryLens) key value
  enqueueStoreBehind L config (.insertDirectorySnapshot key value)

def hotGet (key : RangeKey) : Call S ε (Option (List UInt8)) :=
  focus (L.comp hotLens) (fun h => (h.get key).2) fun h => (h.get key).1

def hotInsert (key : RangeKey) (value : List UInt8) : Call S ε Unit :=
  focus (L.comp hotLens) (fun h => h.insert config.hotRangeBytes key value) fun _ => ()

def hotInvalidate (node : NodeId) : Call S ε Unit :=
  focus (L.comp hotLens) (fun h => h.invalidate node) fun _ => ()

/-- What is loaded from the disk when the hot ranges do not have it: one entry that covers the
request, or else what can be assembled. -/
def loadRange (key : RangeKey) : Call S ε (Option (RangeKey × List UInt8)) := do
  match ← onDisk L disk fun io state => state.getCoveringRangeValue config.disk io key with
  | .ok (some loaded) => pure (some loaded)
  | .ok none => do
    let value ← onDisk L disk fun io state => state.getRangeValue config.disk io key
    pure ((flatten value).map fun data => (key, data))
  | .error _ => pure none

def getRange (key : RangeKey) : Call S ε (Option (List UInt8)) := do
  match ← hotGet L key with
  | some value => pure (some value)
  | none => do
    match ← loadRange L disk config key with
    | none => pure none
    | some (loadedKey, value) => do
      hotInsert L config loadedKey value
      hotGet L key

def storeRange (key : RangeKey) (value : List UInt8) : Call S ε Unit := do
  hotInsert L config key value
  let pendingJobs ← focus L id fun c => c.pendingJobs
  if pendingJobs > config.storeJobLimit then pure ()
  else do
    let pendingStoreBytes ← focus L id fun c => c.pendingStoreBytes
    if saturatingAdd pendingStoreBytes value.length > config.storeByteLimit then pure ()
    else do
      focus L (fun c => { c with
        pendingStoreBytes := c.pendingStoreBytes + value.length }) fun _ => ()
      enqueue L (.insertRange key value)

def getFilesystemStats : Call S ε (Option FilesystemStats) := do
  match ← MemoryCache.getFilesystemStats (L.comp memoryLens) with
  | some value => pure (some value)
  | none => do
    let loaded ← onDisk L disk fun io state => state.getFilesystemStatsValue config.disk io
    match flatten loaded with
    | none => pure none
    | some value => do
      MemoryCache.insertFilesystemStats (L.comp memoryLens) value
      pure (some value)

def storeFilesystemStats (value : FilesystemStats) : Call S ε Unit := do
  MemoryCache.insertFilesystemStats (L.comp memoryLens) value
  enqueueStoreBehind L config (.insertFilesystemStats value)

def invalidateNodeMemory (node : NodeId) : Call S ε Unit := do
  MemoryCache.invalidateNodeState (L.comp memoryLens) node
  hotInvalidate L node

def invalidateNodeState (node : NodeId) : Call S ε Unit := do
  MemoryCache.invalidateNodeState (L.comp memoryLens) node
  hotInvalidate L node
  enqueue L (.invalidateNode node)

/-- The implementation of the trait. -/
def implementation : FilesystemCache S ε where
  getMetadata := getMetadata L disk config
  storeMetadata := storeMetadata L config
  getDirectory := getDirectory L disk config
  storeSnapshot := storeSnapshot L config
  getRange := getRange L disk config
  storeRange := storeRange L config
  getFilesystemStats := getFilesystemStats L disk config
  storeFilesystemStats := storeFilesystemStats L config
  invalidateNodeState := invalidateNodeState L
  invalidateNodeMemory := invalidateNodeMemory L

end Methods

/-! ## What the cache holds -/

/-- Every entry of every tier, and of every job under way, is what `content` and `T` say. -/
structure Holds (content : RevisionKey → List UInt8) (T : NodeId → Metadata → Prop)
    (c : NonBlockingPersistentCache) : Prop where
  inner : c.inner.Holds content T
  memory : c.memory.Holds content T
  hotRanges : Faithful content c.hotRanges.entries
  writer : ∀ job ∈ c.writer, ∀ entry ∈ job.entries,
    PersistentState.Payload.Right content T entry.1 entry.2

/-- The range among the entries of a disk. -/
def rangeEntry : EntryKey × Payload → Option (RangeKey × List UInt8)
  | (.range key, .range data) => some (key, data)
  | _ => none

/-- The range entries of every tier, and those that are on their way to the disk. -/
def rangeEntries (c : NonBlockingPersistentCache) : Entries RangeKey (List UInt8) :=
  c.memory.ranges ++ c.hotRanges.entries ++
    (c.inner.entries.filterMap fun entry => rangeEntry (entry.1, entry.2.payload)) ++
    (c.writer.flatMap fun job => job.entries.filterMap rangeEntry)

section Keeps

variable {content : RevisionKey → List UInt8} {T : NodeId → Metadata → Prop}

variable {c : NonBlockingPersistentCache} {key : RangeKey}

/-- All of these are what `content` and `T` say. -/
abbrev AllRight (content : RevisionKey → List UInt8) (T : NodeId → Metadata → Prop)
    (entries : List (EntryKey × Payload)) : Prop :=
  ∀ entry ∈ entries, PersistentState.Payload.Right content T entry.1 entry.2

theorem eq_of_rangeEntry {entry : EntryKey × Payload} {data : List UInt8}
    (h : rangeEntry entry = some (key, data)) : entry = (.range key, .range data) := by
  unfold rangeEntry at h
  split at h
  · cases h
    rfl
  · cases h

theorem Holds.faithful (h : c.Holds content T) : Faithful content c.rangeEntries := by
  intro key data hmem
  rcases List.mem_append.1 hmem with hmem | hqueued
  · rcases List.mem_append.1 hmem with hmem | hdisk
    · rcases List.mem_append.1 hmem with hmemory | hhot
      · exact h.memory.ranges key data hmemory
      · exact h.hotRanges key data hhot
    obtain ⟨entry, hentry, heq⟩ := List.mem_filterMap.1 hdisk
    have heq := Prod.mk.inj (eq_of_rangeEntry heq)
    exact h.inner.ranges key data ⟨entry.2, heq.1 ▸ hentry, heq.2⟩
  · obtain ⟨job, hjob, hentry⟩ := List.mem_flatMap.1 hqueued
    obtain ⟨entry, hentry, heq⟩ := List.mem_filterMap.1 hentry
    have hright := h.writer job hjob entry hentry
    rw [eq_of_rangeEntry heq] at hright
    exact hright

theorem Holds.send (h : c.Holds content T) {job : PersistentJob}
    (hjob : AllRight content T job.entries) : (c.send job).Holds content T := by
  refine ⟨h.inner, h.memory, h.hotRanges, fun queued hmem => ?_⟩
  rcases List.mem_append.1 hmem with hold | hnew
  · exact h.writer queued hold
  · exact List.mem_singleton.1 hnew ▸ hjob

/-- The entries of a snapshot. -/
theorem right_of_snapshot {key : RevisionKey} {value : List DirectoryEntry}
    (h : ∀ entry ∈ value, T entry.node entry.metadata) :
    AllRight content T (PersistentJob.insertDirectorySnapshot key value).entries := by
  intro entry hmem
  rcases List.mem_cons.1 hmem with rfl | hmem
  · exact h
  · obtain ⟨child, hchild, rfl⟩ := List.mem_map.1 hmem
    exact fun _ => h child hchild

theorem right_of_metadata {value : Metadata} (h : T value.node value) :
    AllRight content T (PersistentJob.insertMetadata value).entries := by
  intro entry hmem
  cases List.mem_singleton.1 hmem
  exact fun _ => h

theorem right_of_range {value : List UInt8}
    (h : IsSlice (content key.file) key.offset value) :
    AllRight content T (PersistentJob.insertRange key value).entries := by
  intro entry hmem
  rw [PersistentJob.entries] at hmem
  split at hmem
  · rename_i hvalid
    cases List.mem_singleton.1 hmem
    rw [Bool.and_eq_true] at hvalid
    exact ⟨length_of_validRangePayload hvalid.1, h⟩
  · cases hmem

theorem right_of_stats {value : FilesystemStats} :
    AllRight content T (PersistentJob.insertFilesystemStats value).entries := by
  intro entry hmem
  cases List.mem_singleton.1 hmem
  trivial

variable {S : Sig} {ε : Type} {C : Contract S} {P : Program S}
  {L : Lens S.Shared NonBlockingPersistentCache} {disk : Call S ε DiskIO} {config : Config}
  (hL : C.Hosts L (Holds content T)) (hdisk : ∀ i, C.Obeys P i disk)

section Parts

include hL

theorem hosts_memory : C.Hosts (L.comp memoryLens) (MemoryCache.Holds content T) where
  get s hs := (hL.get s hs).memory
  set s c hs hc := hL.set s { L.get s with memory := c } hs { hL.get s hs with memory := hc }

variable {i : ℕ} {key : RangeKey} {node : NodeId}

variable {α : Type} {job : PersistentJob} {value : List UInt8} {Q : α → Prop}

theorem inner_keeps {update : PersistentState → PersistentState} {read : PersistentState → α}
    (h : ∀ state : PersistentState, state.Holds content T → (update state).Holds content T ∧
      Q (read state)) :
    C.Ensures P i (focus (L.comp innerLens) update read : Call S ε α) Q := by
  refine .focus ⟨fun s hs => (hL.get s hs).inner, fun s state hs hstate => ?_⟩ h
  exact hL.set s { L.get s with inner := state } hs { hL.get s hs with inner := hstate }

theorem hot_keeps {update : HotRangeState → HotRangeState} {read : HotRangeState → α}
    (h : ∀ state : HotRangeState, Faithful content state.entries →
      Faithful content (update state).entries ∧ Q (read state)) :
    C.Ensures P i (focus (L.comp hotLens) update read : Call S ε α) Q := by
  refine .focus (G := fun state : HotRangeState => Faithful content state.entries)
    ⟨fun s hs => (hL.get s hs).hotRanges, fun s state hs hstate => ?_⟩ h
  exact hL.set s { L.get s with hotRanges := state } hs { hL.get s hs with hotRanges := hstate }

/-- A step that changes nothing but the queue and its counters. -/
theorem queue_keeps {update : NonBlockingPersistentCache → NonBlockingPersistentCache}
    (h : ∀ c, c.Holds content T → (update c).Holds content T) :
    C.Obeys P i (focus L update fun _ => () : Call S ε Unit) :=
  .focus hL fun c hc => ⟨h c hc, trivial⟩

theorem enqueue_keeps (h : AllRight content T job.entries) :
    C.Obeys P i (enqueue L job : Call S ε Unit) := by
  refine (queue_keeps hL fun c hc => ?_).bind fun _ _ => ?_
  · exact { hc with }
  · exact queue_keeps hL fun _ hc => hc.send h

theorem enqueueStoreBehind_keeps (h : AllRight content T job.entries) :
    C.Obeys P i (enqueueStoreBehind L config job : Call S ε Unit) := by
  have hread : C.Ensures P i
      (focus L id (fun c => c.pendingJobs) : Call S ε ℕ) fun _ => True :=
    .focus hL fun _ hc => ⟨hc, trivial⟩
  refine hread.bind fun pendingJobs _ => ?_
  split
  · exact .pure trivial
  · exact enqueue_keeps hL h

theorem hotGet_keeps :
    C.Ensures P i (hotGet L key : Call S ε (Option (List UInt8))) fun r => ∀ data, r = some data →
      data.length = key.length ∧ IsSlice (content key.file) key.offset data := by
  refine hot_keeps hL fun state hstate => ⟨?_, fun data hdata => ?_⟩
  · rw [HotRangeState.get_entries]
    exact hstate
  · exact HotRangeState.get_isSlice hstate hdata

theorem hotInsert_keeps (h : IsSlice (content key.file) key.offset value) :
    C.Obeys P i (hotInsert L config key value : Call S ε Unit) :=
  hot_keeps hL fun _ hstate => ⟨HotRangeState.faithful_insert hstate h, trivial⟩

theorem hotInvalidate_keeps : C.Obeys P i (hotInvalidate L node : Call S ε Unit) :=
  hot_keeps hL fun _ hstate => ⟨hstate.mono fun _ => List.mem_of_mem_filter, trivial⟩

theorem invalidateNodeMemory_keeps : C.Obeys P i (invalidateNodeMemory L node : Call S ε Unit) :=
  (MemoryCache.invalidateNodeState_keeps (hosts_memory hL)).bind fun _ _ => hotInvalidate_keeps hL

theorem invalidateNodeState_keeps : C.Obeys P i (invalidateNodeState L node : Call S ε Unit) :=
  (MemoryCache.invalidateNodeState_keeps (hosts_memory hL)).bind
    fun _ _ => (hotInvalidate_keeps hL).bind fun _ _ => enqueue_keeps hL nofun

theorem storeMetadata_keeps {value : Metadata} (h : T value.node value) :
    C.Obeys P i (storeMetadata L config value : Call S ε Unit) :=
  (MemoryCache.update_keeps (hosts_memory hL)
    fun _ hc => hc.putMetadata h).bind fun _ _ =>
      enqueueStoreBehind_keeps hL (right_of_metadata h)

theorem storeSnapshot_keeps {key : RevisionKey} {value : List DirectoryEntry}
    (h : ∀ entry ∈ value, T entry.node entry.metadata) :
    C.Obeys P i (storeSnapshot L config key value : Call S ε Unit) :=
  (MemoryCache.storeSnapshot_keeps (hosts_memory hL) h).bind fun _ _ =>
    enqueueStoreBehind_keeps hL (right_of_snapshot h)

theorem storeFilesystemStats_keeps {value : FilesystemStats} :
    C.Obeys P i (storeFilesystemStats L config value : Call S ε Unit) :=
  (MemoryCache.update_keeps (hosts_memory hL)
    fun _ hc => hc.statistics (some value)).bind fun _ _ =>
      enqueueStoreBehind_keeps hL right_of_stats

theorem storeRange_keeps (h : IsSlice (content key.file) key.offset value) :
    C.Obeys P i (storeRange L config key value : Call S ε Unit) := by
  have hread : ∀ f : NonBlockingPersistentCache → ℕ, C.Obeys P i (focus L id f : Call S ε ℕ) :=
    fun _ => .focus hL fun _ hc => ⟨hc, trivial⟩
  refine (hotInsert_keeps hL h).bind fun _ _ => (hread _).bind fun pendingJobs _ => ?_
  split
  · exact .pure trivial
  refine (hread _).bind fun pendingStoreBytes _ => ?_
  split
  · exact .pure trivial
  refine (queue_keeps hL fun c hc => ?_).bind fun _ _ => ?_
  · exact { hc with }
  · exact enqueue_keeps hL (right_of_range h)

/-- A job that is taken out of the channel is one that was put in. -/
theorem receive_keeps :
    C.Ensures P i (focus L (fun c => { c with writer := c.writer.tail })
      (fun c => c.writer.head?) : Call S ε (Option PersistentJob)) fun next =>
      ∀ job, next = some job → AllRight content T job.entries := by
  refine .focus hL fun c hc => ⟨?_, fun job hjob => ?_⟩
  · exact ⟨hc.inner, hc.memory, hc.hotRanges, fun w hw => hc.writer w (List.mem_of_mem_tail hw)⟩
  · exact hc.writer job (List.mem_of_mem_head? hjob)

theorem drain_keeps {room : ℕ} :
    C.Ensures P i (drain L room : Call S ε (List PersistentJob)) fun batch =>
      ∀ job ∈ batch, AllRight content T job.entries := by
  induction room with
  | zero => exact .pure nofun
  | succ _ ih =>
    refine Contract.Ensures.bind (receive_keeps hL) fun next hnext => ?_
    cases next with
    | none => exact .pure nofun
    | some =>
      refine ih.bind fun rest hrest => .pure fun job hmem => ?_
      rcases List.mem_cons.1 hmem with rfl | hmem
      · exact hnext job rfl
      · exact hrest job hmem

end Parts

section Loads

include hL hdisk

variable {i : ℕ} {key : RangeKey}

/-- A section under the mutex of the disk. -/
theorem onDisk_keeps {α : Type}
    {f : DiskIO → PersistentState → Except CacheError α × PersistentState} {Q : α → Prop}
    (h : ∀ io (state : PersistentState), state.Holds content T → (f io state).2.Within state ∧
      ∀ a, (f io state).1 = .ok a → Q a) :
    C.Ensures P i (onDisk L disk f) fun r => ∀ a, r = .ok a → Q a :=
  (hdisk i).bind fun io _ => inner_keeps hL fun state hstate =>
    ⟨hstate.within (h io state hstate).1, (h io state hstate).2⟩

theorem getMetadata_keeps {node : NodeId} :
    C.Ensures P i (getMetadata L disk config node) fun r =>
      ∀ value, r = some value → T node value := by
  refine (MemoryCache.getMetadata_keeps (hosts_memory hL)).bind fun found hfound => ?_
  cases found with
  | some => exact .pure hfound
  | none =>
    refine (onDisk_keeps hL hdisk (Q := fun r => ∀ value, r = some value →
      value.node = node ∧ T node value) fun io state hstate => ?_).bind fun loaded hloaded => ?_
    · obtain ⟨hwithin, hvalue⟩ := PersistentState.getMetadataValue_spec node config.disk io state
      refine ⟨hwithin, fun r hr value hv => ?_⟩
      subst hv
      obtain ⟨hnode, hstored⟩ := hvalue value hr
      exact ⟨hnode, hstate.metadata node value hstored hnode⟩
    · split
      · exact .pure nofun
      rename_i value hflat
      have hvalue : value.node = node ∧ T node value := by
        cases loaded with
        | ok r => exact hloaded r rfl value hflat
        | error => cases hflat
      refine (MemoryCache.update_keeps (hosts_memory hL)
        fun _ hc => hc.putMetadata (hvalue.1.symm ▸ hvalue.2)).bind fun _ _ => .pure ?_
      rintro value' ⟨⟩
      exact hvalue.2

theorem getDirectory_keeps {key : RevisionKey} :
    C.Ensures P i (getDirectory L disk config key) fun r =>
      ∀ entries, r = some entries → ∀ entry ∈ entries, T entry.node entry.metadata := by
  refine (MemoryCache.getDirectory_keeps (hosts_memory hL)).bind fun found hfound => ?_
  cases found with
  | some => exact .pure hfound
  | none =>
    refine (onDisk_keeps hL hdisk (Q := fun r => ∀ entries, r = some entries →
      ∀ entry ∈ entries, T entry.node entry.metadata) fun io state hstate => ?_).bind
      fun loaded hloaded => ?_
    · obtain ⟨hwithin, hvalue⟩ := PersistentState.getDirectoryValue_spec config.disk io state key
      refine ⟨hwithin, fun r hr entries hv => ?_⟩
      subst hv
      exact hstate.directories key entries (hvalue entries hr)
    · split
      · exact .pure nofun
      rename_i entries hflat
      have hentries : ∀ entry ∈ entries, T entry.node entry.metadata := by
        cases loaded with
        | ok r => exact hloaded r rfl entries hflat
        | error => cases hflat
      refine (MemoryCache.storeSnapshot_keeps (hosts_memory hL) hentries).bind fun _ _ => .pure ?_
      rintro entries' ⟨⟩
      exact hentries

theorem getFilesystemStats_keeps : C.Obeys P i (getFilesystemStats L disk config) := by
  refine (MemoryCache.read_keeps (Q := fun _ => True) (hosts_memory hL)
    fun _ _ => trivial).bind fun found _ => ?_
  cases found with
  | some => exact .pure trivial
  | none =>
    refine (onDisk_keeps hL hdisk (Q := fun _ => True) fun io state _ =>
      ⟨PersistentState.within_getFilesystemStatsValue, fun _ _ => trivial⟩).bind fun loaded _ => ?_
    split
    · exact .pure trivial
    rename_i value _
    exact (MemoryCache.update_keeps (hosts_memory hL)
      fun _ hc => hc.statistics (some value)).bind fun _ _ => .pure trivial

theorem loadRange_keeps :
    C.Ensures P i (loadRange L disk config key) fun r => ∀ loadedKey data,
      r = some (loadedKey, data) → IsSlice (content loadedKey.file) loadedKey.offset data := by
  refine (onDisk_keeps hL hdisk (Q := fun r => ∀ loadedKey data,
    r = some (loadedKey, data) → IsSlice (content loadedKey.file) loadedKey.offset data)
    fun io state hstate => ⟨(PersistentState.getCoveringRangeValue_spec key).1, ?_⟩).bind
    fun loaded hloaded => ?_
  · rintro r hr loadedKey data rfl
    exact hstate.getCoveringRangeValue hr
  split
  · exact .pure (hloaded _ rfl)
  · refine (onDisk_keeps hL hdisk (Q := fun r => ∀ data, r = some data →
      IsSlice (content key.file) key.offset data)
      fun io state hstate => ⟨(PersistentState.getRangeValue_spec key).1, ?_⟩).bind
      fun value hvalue => .pure ?_
    · rintro r hr data rfl
      exact (hstate.getRangeValue hr).2
    intro loadedKey data hdata
    obtain ⟨data', hflat, heq⟩ := Option.map_eq_some_iff.1 hdata
    cases heq
    cases value with
    | ok r => exact hvalue r rfl data hflat
    | error => cases hflat
  · exact .pure nofun

theorem getRange_keeps :
    C.Ensures P i (getRange L disk config key) fun r => ∀ data, r = some data →
      data.length = key.length ∧ IsSlice (content key.file) key.offset data := by
  refine (hotGet_keeps hL).bind fun found hfound => ?_
  cases found with
  | some => exact .pure hfound
  | none =>
    refine (loadRange_keeps hL hdisk).bind fun loaded hloaded => ?_
    cases loaded with
    | none => exact .pure nofun
    | some loaded =>
      exact (hotInsert_keeps hL (hloaded loaded.1 loaded.2 rfl)).bind fun _ _ =>
        hotGet_keeps hL

/-- **The persistent cache keeps the promise.** -/
theorem implementation_keeps : (implementation L disk config).Keeps C P content T where
  getMetadata _ _ := getMetadata_keeps hL hdisk
  storeMetadata _ _ h := storeMetadata_keeps hL h
  getDirectory _ _ := getDirectory_keeps hL hdisk
  storeSnapshot _ _ _ h := storeSnapshot_keeps hL h
  getRange _ _ := getRange_keeps hL hdisk
  storeRange _ _ _ h := storeRange_keeps hL h
  getFilesystemStats _ := getFilesystemStats_keeps hL hdisk
  storeFilesystemStats _ _ := storeFilesystemStats_keeps hL
  invalidateNodeState _ _ := invalidateNodeState_keeps hL
  invalidateNodeMemory _ _ := invalidateNodeMemory_keeps hL

/-! ### The writer thread -/

theorem insertEntries_keeps {entries : List (EntryKey × Payload)} (h : AllRight content T entries) :
    C.Obeys P i (insertEntries L disk config entries) := by
  rw [insertEntries]
  split
  · exact .pure trivial
  rename_i prepared hprepared
  have hmap := PersistentState.mem_of_prepare hprepared
  refine (inner_keeps (Q := fun r => ∀ entry ∈ r, entry ∈ prepared) hL
    fun state hstate => ⟨hstate, fun _ => List.mem_of_mem_filter⟩).bind fun current hcurrent => ?_
  split
  · exact .pure trivial
  refine (hdisk i).bind fun io _ => ?_
  split
  · refine (inner_keeps (Q := fun _ => True) hL fun state hstate =>
      ⟨hstate.adds (PersistentState.splice_adds current) ?_, trivial⟩).bind fun _ _ => .pure trivial
    intro entry hentry
    obtain ⟨p, hp, rfl⟩ := List.mem_map.1 hentry
    exact h _ (hmap ▸ List.mem_map.2 ⟨p, hcurrent p hp, rfl⟩)
  · exact .pure trivial

theorem runJob_keeps {job : PersistentJob} (h : AllRight content T job.entries) :
    C.Obeys P i (runJob L disk config job) := by
  cases job with
  | insertRange =>
    refine (insertEntries_keeps hL hdisk h).bind fun _ _ => ?_
    exact queue_keeps hL fun _ hc => { hc with }
  | invalidateNode node =>
    refine (onDisk_keeps hL hdisk (Q := fun _ => True) fun io state _ => ?_).bind fun _ _ => ?_
    · exact ⟨PersistentState.within_invalidateNode node, fun _ _ => trivial⟩
    · exact .pure trivial
  | insertMetadata | insertDirectorySnapshot | insertFilesystemStats =>
    exact insertEntries_keeps hL hdisk h

theorem runBatch_keeps {batch : List PersistentJob}
    (h : ∀ job ∈ batch, AllRight content T job.entries) :
    C.Obeys P i (runBatch L disk config batch) := by
  induction batch with
  | nil => exact .pure trivial
  | cons job _ ih =>
    refine (runJob_keeps hL hdisk (h job List.mem_cons_self)).bind fun _ _ => ?_
    refine (queue_keeps hL fun _ hc => ?_).bind fun _ _ => ?_
    · exact { hc with }
    · exact ih fun w hw => h w (List.mem_cons_of_mem _ hw)

/-- The writer thread stores nothing but what it was asked to store. -/
theorem writerBatch_keeps : C.Obeys P i (writerBatch L disk config) := by
  refine Contract.Ensures.bind (Q := fun first => ∀ job ∈ first,
    AllRight content T job.entries) ?_ fun first hfirst => ?_
  · refine .access fun s hs _ => ⟨hL.set s _ hs ?_, fun job hjob => ?_⟩
    · exact { hL.get s hs with
        writer := fun w hw => (hL.get s hs).writer w (List.mem_of_mem_tail hw) }
    · exact (hL.get s hs).writer job (List.mem_of_mem_head? hjob)
  refine (drain_keeps hL).bind fun rest hrest => ?_
  refine (inner_keeps hL (Q := fun _ => True) fun state hstate => ?_).bind fun _ _ => ?_
  · exact ⟨hstate.within fun _ _ hs => hs, trivial⟩
  refine (runBatch_keeps hL hdisk fun job hmem => ?_).bind fun _ _ => ?_
  · rcases List.mem_append.1 hmem with hone | hmore
    · exact hfirst job (Option.mem_toList.1 hone)
    · exact hrest job hmore
  refine (inner_keeps hL (Q := fun _ => True) fun state hstate => ?_).bind fun _ _ => ?_
  · exact ⟨hstate.within fun _ _ hs => hs, trivial⟩
  exact queue_keeps hL fun _ hc => { hc with }

end Loads

end Keeps

end NonBlockingPersistentCache

end QuickFS
