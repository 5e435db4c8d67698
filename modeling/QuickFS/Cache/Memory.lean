import QuickFS.Cache.Ranges
import QuickFS.Client.Remote
import QuickFS.Lib.Contract

/-!
# The cache in memory

`FilesystemCache` is the trait of that name: what the caching client asks of a cache, each method a
call of its own.  `MemoryCache` is the simplest implementation.  Its maps are updated one at a time,
so that a method which touches several of them is several steps; what those steps do to the maps is
written as functions of `MemoryCache`, which the client also uses on a cache of its own when it puts
a read together.

The methods are written for a cache that is a part (`Lens`) of some larger state: the cache of a
client, or the memory tier of the persistent cache.
-/

namespace QuickFS

open Async Slices
open Call (focus)

/-- `FilesystemCache`, with the methods that its callers use. -/
structure FilesystemCache (S : Sig) (ε : Type) where
  getMetadata : NodeId → Call S ε (Option Metadata)
  /-- `MetadataCache::store_readthrough`. -/
  storeMetadata : Metadata → Call S ε Unit
  getDirectory : RevisionKey → Call S ε (Option (List DirectoryEntry))
  /-- `DirectoryCache::store_readthrough_snapshot`. -/
  storeSnapshot : RevisionKey → List DirectoryEntry → Call S ε Unit
  getRange : RangeKey → Call S ε (Option (List UInt8))
  /-- `RangeCache::store_readthrough`. -/
  storeRange : RangeKey → List UInt8 → Call S ε Unit
  getFilesystemStats : Call S ε (Option FilesystemStats)
  /-- `store_readthrough_filesystem_stats`. -/
  storeFilesystemStats : FilesystemStats → Call S ε Unit
  invalidateNodeState : NodeId → Call S ε Unit
  invalidateNodeMemory : NodeId → Call S ε Unit

structure MemoryCache where
  metadata : NodeId → Option Metadata
  directories : RevisionKey → Option (List DirectoryEntry)
  ranges : Entries RangeKey (List UInt8)
  statistics : Option FilesystemStats

namespace MemoryCache

/-- `MemoryCache::default`. -/
def empty : MemoryCache := ⟨fun _ => none, fun _ => none, [], none⟩

/-! ## What the methods do to the maps -/

def putMetadata (c : MemoryCache) (node : NodeId) (value : Metadata) : MemoryCache :=
  { c with metadata := fun n => if n = node then some value else c.metadata n }

def removeMetadata (c : MemoryCache) (node : NodeId) : MemoryCache :=
  { c with metadata := fun n => if n = node then none else c.metadata n }

def putDirectory (c : MemoryCache) (key : RevisionKey) (value : List DirectoryEntry) :
    MemoryCache :=
  { c with directories := fun k => if k = key then some value else c.directories k }

def retainDirectories (c : MemoryCache) (keep : RevisionKey → List DirectoryEntry → Bool) :
    MemoryCache :=
  { c with directories := fun k => (c.directories k).filter (keep k) }

/-- Whether a snapshot has an entry for `node`. -/
def lists (entries : List DirectoryEntry) (node : NodeId) : Bool :=
  entries.any fun entry => decide (entry.node = node)

def lookupRange (c : MemoryCache) (key : RangeKey) : Option (List UInt8) :=
  if key.length = 0 then (checkedAdd key.offset key.length).map fun _ => []
  else
    let segments := (c.ranges.filter fun entry => decide (entry.1.file = key.file)).map
      fun entry => (⟨entry.1, entry.1.offset, entry.2⟩ : Segment RangeKey)
    (assembleRange key segments).map Assembled.data

def putRange (c : MemoryCache) (key : RangeKey) (value : List UInt8) : MemoryCache :=
  if validRangePayload key value && !value.isEmpty then
    { c with ranges := c.ranges.insert key value }
  else c

def invalidateRanges (c : MemoryCache) (node : NodeId) : MemoryCache :=
  { c with ranges := c.ranges.filter fun entry => decide (entry.1.file.node ≠ node) }

/-! ## The methods -/

section Methods

variable {S : Sig} {ε : Type} (L : Lens S.Shared MemoryCache)

def getMetadata (node : NodeId) : Call S ε (Option Metadata) :=
  focus L id fun c => c.metadata node

def insertMetadata (value : Metadata) : Call S ε Unit :=
  focus L (fun c => c.putMetadata value.node value) fun _ => ()

def invalidateMetadata (node : NodeId) : Call S ε Unit :=
  focus L (fun c => c.removeMetadata node) fun _ => ()

def getDirectory (key : RevisionKey) : Call S ε (Option (List DirectoryEntry)) :=
  focus L id fun c => c.directories key

def insertDirectory (key : RevisionKey) (value : List DirectoryEntry) : Call S ε Unit :=
  focus L (fun c => c.putDirectory key value) fun _ => ()

/-- The loop of `store_readthrough_snapshot`. -/
def storeChildren : List DirectoryEntry → Call S ε Unit
  | [] => pure ()
  | entry :: rest => do
    focus L (fun c => c.putMetadata entry.node entry.metadata) fun _ => ()
    storeChildren rest

def storeSnapshot (key : RevisionKey) (value : List DirectoryEntry) : Call S ε Unit := do
  storeChildren L value
  insertDirectory L key value

def invalidateNodeState (node : NodeId) : Call S ε Unit := do
  invalidateMetadata L node
  focus L (fun c => c.retainDirectories fun key entries =>
    decide (key.node ≠ node) && !lists entries node) fun _ => ()
  focus L (fun c => c.invalidateRanges node) fun _ => ()

def getRange (key : RangeKey) : Call S ε (Option (List UInt8)) :=
  focus L id fun c => c.lookupRange key

def insertRange (key : RangeKey) (value : List UInt8) : Call S ε Unit :=
  focus L (fun c => c.putRange key value) fun _ => ()

def getFilesystemStats : Call S ε (Option FilesystemStats) :=
  focus L id fun c => c.statistics

def insertFilesystemStats (value : FilesystemStats) : Call S ε Unit :=
  focus L (fun c => { c with statistics := some value }) fun _ => ()

/-- The implementation of the trait.  Nothing here is slow enough to be put off, so that storing
what was read through is inserting it. -/
def implementation : FilesystemCache S ε where
  getMetadata := getMetadata L
  storeMetadata := insertMetadata L
  getDirectory := getDirectory L
  storeSnapshot := storeSnapshot L
  getRange := getRange L
  storeRange := insertRange L
  getFilesystemStats := getFilesystemStats L
  storeFilesystemStats := insertFilesystemStats L
  invalidateNodeState := invalidateNodeState L
  invalidateNodeMemory := invalidateNodeState L

end Methods

/-! ## What the cache holds -/

/-- Every entry is what `content` and `T` say: the ranges are slices, and the metadata of a node —
its own entry, and those in the listings — satisfy `T`. -/
structure Holds (content : RevisionKey → List UInt8) (T : NodeId → Metadata → Prop)
    (c : MemoryCache) : Prop where
  metadata : ∀ node value, c.metadata node = some value → T node value
  directories : ∀ key entries, c.directories key = some entries →
    ∀ entry ∈ entries, T entry.node entry.metadata
  ranges : Faithful content c.ranges

section Holds

variable {content : RevisionKey → List UInt8} {T : NodeId → Metadata → Prop} {c : MemoryCache}

theorem holds_empty : empty.Holds content T :=
  ⟨nofun, nofun, Faithful.nil⟩

section

variable (h : c.Holds content T)

include h

theorem Holds.putMetadata {node : NodeId} {value : Metadata}
    (hvalue : T node value) : (c.putMetadata node value).Holds content T := by
  refine ⟨fun n v hv => ?_, h.directories, h.ranges⟩
  rw [MemoryCache.putMetadata] at hv
  dsimp only at hv
  split at hv
  · rename_i hn
    cases hv
    exact hn ▸ hvalue
  · exact h.metadata n v hv

theorem Holds.removeMetadata (node : NodeId) : (c.removeMetadata node).Holds content T := by
  refine ⟨fun n v hv => ?_, h.directories, h.ranges⟩
  rw [MemoryCache.removeMetadata] at hv
  dsimp only at hv
  split at hv
  · cases hv
  · exact h.metadata n v hv

theorem Holds.putDirectory {key : RevisionKey}
    {value : List DirectoryEntry} (hvalue : ∀ entry ∈ value, T entry.node entry.metadata) :
    (c.putDirectory key value).Holds content T := by
  refine ⟨h.metadata, fun k v hv => ?_, h.ranges⟩
  rw [MemoryCache.putDirectory] at hv
  dsimp only at hv
  split at hv
  · cases hv
    exact hvalue
  · exact h.directories k v hv

theorem Holds.retainDirectories (keep : RevisionKey → List DirectoryEntry → Bool) :
    (c.retainDirectories keep).Holds content T := by
  refine ⟨h.metadata, fun k v hv => ?_, h.ranges⟩
  exact h.directories k v (Option.filter_eq_some_iff.1 hv).1

theorem Holds.invalidateRanges (node : NodeId) : (c.invalidateRanges node).Holds content T :=
  ⟨h.metadata, h.directories, h.ranges.mono fun _ => List.mem_of_mem_filter⟩

theorem Holds.statistics (value : Option FilesystemStats) :
    ({ c with statistics := value } : MemoryCache).Holds content T :=
  ⟨h.metadata, h.directories, h.ranges⟩

theorem Holds.putRange {key : RangeKey} {value : List UInt8}
    (hvalue : IsSlice (content key.file) key.offset value) :
    (c.putRange key value).Holds content T := by
  rw [MemoryCache.putRange]
  split
  · rename_i hvalid
    rw [Bool.and_eq_true] at hvalid
    exact ⟨h.metadata, h.directories, h.ranges.insert (length_of_validRangePayload hvalid.1) hvalue⟩
  · exact h

/-- **The cache answers with the slice that was asked for.** -/
theorem Holds.lookupRange {key : RangeKey} {data : List UInt8}
    (hdata : c.lookupRange key = some data) :
    data.length = key.length ∧ IsSlice (content key.file) key.offset data := by
  rw [MemoryCache.lookupRange] at hdata
  split at hdata
  · rename_i hzero
    obtain ⟨_, _, rfl⟩ := Option.map_eq_some_iff.1 hdata
    exact ⟨hzero.symm, IsSlice.nil⟩
  obtain ⟨assembled, hassembled, rfl⟩ := Option.map_eq_some_iff.1 hdata
  refine (assembleRange_isSlice (fun segment hseg => ?_) hassembled).symm
  obtain ⟨entry, hentry, rfl⟩ := List.mem_map.1 hseg
  obtain ⟨hmem, hfile⟩ := List.mem_filter.1 hentry
  rw [decide_eq_true_eq] at hfile
  exact hfile ▸ (h.ranges entry.1 entry.2 hmem).2

end

end Holds

end MemoryCache

/-! ## What a cache promises -/

/-- What a cache promises a client that only stores what `content` and `T` say: that this is what it
answers with.  `C` is the contract the client's calls keep. -/
structure FilesystemCache.Keeps {S : Sig} {ε : Type} (C : Contract S) (P : Program S)
    (content : RevisionKey → List UInt8) (T : NodeId → Metadata → Prop)
    (cache : FilesystemCache S ε) : Prop where
  getMetadata : ∀ i node, C.Ensures P i (cache.getMetadata node) fun r =>
    ∀ value, r = some value → T node value
  storeMetadata : ∀ i value, T value.node value → C.Obeys P i (cache.storeMetadata value)
  getDirectory : ∀ i key, C.Ensures P i (cache.getDirectory key) fun r =>
    ∀ entries, r = some entries → ∀ entry ∈ entries, T entry.node entry.metadata
  storeSnapshot : ∀ i key entries, (∀ entry ∈ entries, T entry.node entry.metadata) →
    C.Obeys P i (cache.storeSnapshot key entries)
  getRange : ∀ i key, C.Ensures P i (cache.getRange key) fun r => ∀ data, r = some data →
    data.length = key.length ∧ IsSlice (content key.file) key.offset data
  storeRange : ∀ i key data, IsSlice (content key.file) key.offset data →
    C.Obeys P i (cache.storeRange key data)
  getFilesystemStats : ∀ i, C.Obeys P i cache.getFilesystemStats
  storeFilesystemStats : ∀ i value, C.Obeys P i (cache.storeFilesystemStats value)
  invalidateNodeState : ∀ i node, C.Obeys P i (cache.invalidateNodeState node)
  invalidateNodeMemory : ∀ i node, C.Obeys P i (cache.invalidateNodeMemory node)

namespace MemoryCache

section Keeps

variable {S : Sig} {ε : Type} {C : Contract S} {P : Program S} {L : Lens S.Shared MemoryCache}
  {content : RevisionKey → List UInt8} {T : NodeId → Metadata → Prop}
  (hL : C.Hosts L (Holds content T))

include hL

variable {i : ℕ} {key : RevisionKey} {node : NodeId} {entries : List DirectoryEntry}

theorem read_keeps {α : Type} {read : MemoryCache → α} {Q : α → Prop}
    (h : ∀ c : MemoryCache, c.Holds content T → Q (read c)) :
    C.Ensures P i (focus L id read : Call S ε α) Q :=
  .focus hL fun c hc => ⟨hc, h c hc⟩

theorem update_keeps {update : MemoryCache → MemoryCache}
    (h : ∀ c : MemoryCache, c.Holds content T → (update c).Holds content T) :
    C.Obeys P i (focus L update fun _ => () : Call S ε Unit) :=
  .focus hL fun c hc => ⟨h c hc, trivial⟩

theorem storeChildren_keeps (h : ∀ entry ∈ entries, T entry.node entry.metadata) :
    C.Obeys P i (storeChildren L entries : Call S ε Unit) := by
  induction entries with
  | nil => exact .pure trivial
  | cons entry _ ih =>
    refine (update_keeps hL fun _ hc => hc.putMetadata (h entry List.mem_cons_self)).bind
      fun _ _ => ?_
    exact ih fun e he => h e (List.mem_cons_of_mem _ he)

theorem storeSnapshot_keeps (h : ∀ entry ∈ entries, T entry.node entry.metadata) :
    C.Obeys P i (storeSnapshot L key entries : Call S ε Unit) :=
  (storeChildren_keeps hL h).bind fun _ _ =>
    update_keeps hL fun _ hc => hc.putDirectory h

theorem invalidateNodeState_keeps : C.Obeys P i (invalidateNodeState L node : Call S ε Unit) :=
  (update_keeps hL fun _ hc => hc.removeMetadata node).bind fun _ _ =>
    (update_keeps hL fun _ hc => hc.retainDirectories _).bind fun _ _ =>
      update_keeps hL fun _ hc => hc.invalidateRanges node

theorem getMetadata_keeps :
    C.Ensures P i (getMetadata L node : Call S ε (Option Metadata)) fun r =>
      ∀ value, r = some value → T node value :=
  read_keeps hL fun _ hc => hc.metadata node

theorem getDirectory_keeps :
    C.Ensures P i (getDirectory L key : Call S ε (Option (List DirectoryEntry))) fun r =>
      ∀ entries, r = some entries → ∀ entry ∈ entries, T entry.node entry.metadata :=
  read_keeps hL fun _ hc => hc.directories key

theorem getRange_keeps {key : RangeKey} :
    C.Ensures P i (getRange L key : Call S ε (Option (List UInt8))) fun r => ∀ data, r = some data →
      data.length = key.length ∧ IsSlice (content key.file) key.offset data :=
  read_keeps hL fun _ hc _ hdata => hc.lookupRange hdata

/-- **The memory cache keeps the promise.** -/
theorem implementation_keeps : (implementation L : FilesystemCache S ε).Keeps C P content T where
  getMetadata _ _ := getMetadata_keeps hL
  storeMetadata _ _ h := update_keeps hL fun _ hc => hc.putMetadata h
  getDirectory _ _ := getDirectory_keeps hL
  storeSnapshot _ _ _ h := storeSnapshot_keeps hL h
  getRange _ _ := getRange_keeps hL
  storeRange _ _ _ h := update_keeps hL fun _ hc => hc.putRange h
  getFilesystemStats _ := read_keeps hL fun _ _ => trivial
  storeFilesystemStats _ value := update_keeps hL fun _ hc => hc.statistics (some value)
  invalidateNodeState _ _ := invalidateNodeState_keeps hL
  invalidateNodeMemory _ _ := invalidateNodeState_keeps hL

end Keeps

end MemoryCache

end QuickFS
