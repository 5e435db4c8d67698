import QuickFS.Client.Remote
import QuickFS.Lib.Entries

/-!
# The state of the macFUSE adapter

The adapter of `clients/macos/filesystem-macfuse` turns the callbacks of a mounted volume into calls
of a remote file system.  This module is about what it keeps in between, `AdapterState`: the numbers
it has given out for nodes (`InodeTable`), the open files with what was written to them and not sent
yet (`PendingWrite`), and what it has learned of metadata, directories and extended attributes,
which it goes by for half a minute (`CachedMetadata`, `CachedDirectory`, `CachedXattrs`).

Each function here is one section of the source under its locks.  An `Instant` is a reading of
`clock`, in milliseconds.  The locks of open files and of directories are part of the state as well,
under names: that of an open file is the file's handle, which is never given out again; that of a
directory is a number of its own, because a forgotten directory gets a new lock when it comes back.
-/

namespace QuickFS.Adapter

/-! ## Errors -/

inductive AdapterError where
  | callbackTimedOut
  | unknownInode
  | unknownHandle
  | unknownDirectoryHandle
  | handleInodeMismatch
  | notFound
  | invalidName
  | invalidRemoteName
  | ambiguousName
  | inodeSpaceExhausted
  | handleSpaceExhausted
  | unexpectedMetadata
  | unexpectedReadLength
  | unexpectedWriteLength
  | staleRevision
  | requestTooLarge (limit : ℕ)
  | invalidCapabilities
  | readOnly
  | unsupported
  | invalidAccess
  | invalidRange
  | client (error : ClientError)
deriving DecidableEq

def noAttributeError : AdapterError :=
  .client (.server .noAttribute "extended attribute does not exist")

/-! ## Constants -/

/-- `ROOT_INODE`. -/
def rootInode : ℕ := 1

/-- `FILESYSTEM_STATS_TTL`. -/
def filesystemStatsTtl : ℕ := 1000

/-- `MAX_FUSE_IO_SIZE`. -/
def maxFuseIoSize : ℕ := 16 * 1024 * 1024

/-- `MAX_FUSE_XATTR_SIZE`. -/
def maxFuseXattrSize : ℕ := 64 * 1024 * 1024

/-- `DISCOVERED_METADATA_TTL`. -/
def discoveredMetadataTtl : ℕ := 30000

/-- `DISCOVERED_DIRECTORY_TTL`. -/
def discoveredDirectoryTtl : ℕ := 30000

/-! ## Checks of arguments and answers -/

def validateRange (offset length : ℕ) : Except AdapterError Unit :=
  match checkedAdd offset length with
  | some _ => .ok ()
  | none => .error .invalidRange

def validateIoRange (offset length : ℕ) : Except AdapterError Unit :=
  if length > maxFuseIoSize then .error (.requestTooLarge maxFuseIoSize)
  else validateRange offset length

def validateAllocationRange (offset length : ℕ) : Except AdapterError Unit :=
  if length = 0 then .error .invalidRange else validateRange offset length

/-- A path component: not empty, not `.` or `..`, without `/` and without a zero byte. -/
def validName (name : Name) : Bool :=
  !(name.isEmpty || name == [46] || name == [46, 46] || name.contains 47 || name.contains 0)

def validateName (name : Name) : Except AdapterError Unit :=
  if validName name then .ok () else .error .invalidName

def validateMetadata (node : NodeId) (metadata : Metadata) : Except AdapterError Unit :=
  if metadata.node = node then .ok () else .error .unexpectedMetadata

/-- What the adapter is started with.  `normalizedCaseName` is the decomposed lower-case form of a
name, if the name is UTF-8. -/
structure Config where
  normalizedCaseName : Name → Option Name

/-- `select_entry_index`: the one entry that a name may address. -/
def selectEntry {α : Type} (config : Config) (entries : List α) (nameOf : α → Name)
    (requested : Name) : Except AdapterError α :=
  match entries.filter fun entry => nameOf entry == requested with
  | [entry] => .ok entry
  | _ :: _ :: _ => .error .ambiguousName
  | [] =>
    match config.normalizedCaseName requested with
    | none => .error .notFound
    | some requested =>
      match entries.filter fun entry =>
          config.normalizedCaseName (nameOf entry) == some requested with
      | [entry] => .ok entry
      | _ :: _ :: _ => .error .ambiguousName
      | [] => .error .notFound

/-- The loop of `validate_case_insensitive_directory`, with the names it has met. -/
def validateEntryNames (config : Config) : List DirectoryEntry → List Name → Except AdapterError Unit
  | [], _ => .ok ()
  | entry :: rest, names =>
    if validName entry.name then
      match config.normalizedCaseName entry.name with
      | some name =>
        if names.contains name then .error .ambiguousName
        else validateEntryNames config rest (name :: names)
      | none => validateEntryNames config rest names
    else .error .invalidRemoteName

def validateCaseInsensitiveDirectory (config : Config) (entries : List DirectoryEntry) :
    Except AdapterError Unit :=
  validateEntryNames config entries []

/-! ## Records -/

structure InodeRecord where
  node : NodeId
  parentInode : ℕ
deriving DecidableEq

structure InodeTable where
  byInode : ℕ → Option InodeRecord
  byNode : NodeId → Option ℕ
  byEntry : Entries (ℕ × Name) ℕ
  /-- No entry is a count of zero. -/
  lookups : ℕ → ℕ

structure FileHandleRecord where
  remote : FileHandle
  inode : ℕ
  access : FileAccess
  revision : FileRevision
  size : ℕ
  usedLocks : Bool
deriving DecidableEq

/-- Bytes that were accepted for a handle and not transmitted yet. -/
structure PendingWrite where
  inode : ℕ
  start : ℕ
  buffer : List UInt8
deriving DecidableEq

/-- `PendingWrite::end`. -/
def PendingWrite.stop (pending : PendingWrite) : ℕ :=
  saturatingAdd pending.start pending.buffer.length

/-- An entry of a listing, with the number the adapter has given to its node. -/
structure ListedEntry where
  inode : ℕ
  name : Name
  kind : NodeKind
  metadata : Metadata
deriving DecidableEq

structure DirectoryListing where
  parentInode : ℕ
  revision : DirectoryRevision
  entries : List ListedEntry
deriving DecidableEq

structure DirectoryHandleRecord where
  inode : ℕ
  listing : DirectoryListing
  current : Metadata
  parent : Metadata
deriving DecidableEq

structure CachedMetadata where
  value : Metadata
  discoveredAt : ℕ
deriving DecidableEq

structure CachedDirectory where
  listing : DirectoryListing
  discoveredAt : ℕ
deriving DecidableEq

structure CachedXattrs where
  revision : FileRevision
  names : List Name
  sizes : Entries Name ℕ
  values : Entries Name (List UInt8)
  discoveredAt : ℕ
deriving DecidableEq

/-- `AdapterState`, with the time and the locks that are taken: `readers` and `writers` are those of
the handles, `directoryLocks` the mutexes of directories that are locked. -/
structure State where
  clock : ℕ
  capabilities : Option FilesystemCapabilities
  filesystemStats : Option (ℕ × FilesystemStats)
  filesystemStatsRefreshing : Bool
  inodes : InodeTable
  handles : Entries ℕ FileHandleRecord
  pendingWrites : Entries ℕ PendingWrite
  handleOperations : List ℕ
  readers : ℕ → ℕ
  writers : List ℕ
  directoryOperations : NodeId → Option ℕ
  nextDirectoryOperation : ℕ
  directoryLocks : List ℕ
  directoryHandles : Entries ℕ DirectoryHandleRecord
  discoveredMetadata : NodeId → Option CachedMetadata
  discoveredDirectories : ℕ → Option CachedDirectory
  discoveredXattrs : NodeId → Option CachedXattrs
  nextInode : ℕ
  nextHandle : ℕ

/-- `Adapter::with_runtime`. -/
def State.new : State where
  clock := 0
  capabilities := none
  filesystemStats := none
  filesystemStatsRefreshing := false
  inodes :=
    { byInode := fun inode => if inode = rootInode then some ⟨rootNode, rootInode⟩ else none
      byNode := fun node => if node = rootNode then some rootInode else none
      byEntry := []
      lookups := fun inode => if inode = rootInode then u64Max else 0 }
  handles := []
  pendingWrites := []
  handleOperations := []
  readers := fun _ => 0
  writers := []
  directoryOperations := fun _ => none
  nextDirectoryOperation := 0
  directoryLocks := []
  directoryHandles := []
  discoveredMetadata := fun _ => none
  discoveredDirectories := fun _ => none
  discoveredXattrs := fun _ => none
  nextInode := rootInode + 1
  nextHandle := 1

namespace InodeTable

variable (table : InodeTable)

def entryNode (parentInode : ℕ) (name : Name) : Option NodeId :=
  ((table.byEntry.find (parentInode, name)).bind table.byInode).map InodeRecord.node

/-- `find_entry_inode`: the inode of a name that has been seen, or of the one name like it. -/
def findEntryInode (config : Config) (parentInode : ℕ) (requested : Name) :
    Except AdapterError (Option ℕ) :=
  match table.byEntry.find (parentInode, requested) with
  | some inode => .ok (some inode)
  | none =>
    match config.normalizedCaseName requested with
    | none => .ok none
    | some requested =>
      match table.byEntry.filter fun entry => entry.1.1 == parentInode &&
          config.normalizedCaseName entry.1.2 == some requested with
      | [entry] => .ok (some entry.2)
      | [] => .ok none
      | _ => .error .ambiguousName

def reconcileDirectoryEntries (parentInode : ℕ) (currentNames : List Name) : InodeTable :=
  { table with byEntry := table.byEntry.filter fun entry =>
      !(entry.1.1 == parentInode) || currentNames.contains entry.1.2 }

/-- The part of `remember_entry` that gives a new number to a node. -/
def bind (node : NodeId) (inode parentInode : ℕ) : InodeTable :=
  { table with
    byInode := fun i => if i = inode then some ⟨node, parentInode⟩ else table.byInode i
    byNode := fun n => if n = node then some inode else table.byNode n }

def putEntry (parentInode : ℕ) (name : Name) (inode : ℕ) : InodeTable :=
  { table with byEntry := table.byEntry.insert (parentInode, name) inode }

def setLookups (inode count : ℕ) : InodeTable :=
  { table with lookups := fun i => if i = inode then count else table.lookups i }

/-- The section of `evict_inode` that changes the table. -/
def evict (inode amount : ℕ) (inUse : Bool) : Option NodeId × InodeTable :=
  let count := table.lookups inode - amount
  if count ≠ 0 ∨ inUse = true then (none, table.setLookups inode count)
  else
    let table := table.setLookups inode 0
    let byEntry := table.byEntry.filter fun entry => !(entry.2 == inode)
    match table.byInode inode with
    | some record => (some record.node, { table with
        byInode := fun i => if i = inode then none else table.byInode i
        byNode := fun n => if n = record.node then none else table.byNode n
        byEntry := byEntry })
    | none => (none, { table with byEntry := byEntry })

def setParent (inode parentInode : ℕ) : InodeTable :=
  { table with byInode := fun i =>
      if i = inode then (table.byInode i).map fun record => { record with parentInode := parentInode }
      else table.byInode i }

def moveEntry (parentInode : ℕ) (name : Name) (newParentInode : ℕ) (newName : Name)
    (mode : RenameMode) : InodeTable :=
  let source := table.byEntry.find (parentInode, name)
  let byEntry := table.byEntry.erase (parentInode, name)
  let destination := Entries.find byEntry (newParentInode, newName)
  let byEntry := Entries.erase byEntry (newParentInode, newName)
  let table := { table with byEntry := byEntry }
  let table := match destination with
    | some destination =>
      if mode = .exchange then (table.putEntry parentInode name destination).setParent destination
        parentInode
      else table
    | none => table
  match source with
  | some source => (table.putEntry newParentInode newName source).setParent source newParentInode
  | none => table

end InodeTable

namespace State

variable (s : State)

/-! ## Inodes -/

/-- `remember_entry`. -/
def rememberEntry (node : NodeId) (parentInode : ℕ) (name : Name) : Except AdapterError ℕ × State :=
  match s.inodes.byNode node with
  | some inode => (.ok inode, { s with inodes := s.inodes.putEntry parentInode name inode })
  | none =>
    match checkedAdd s.nextInode 1 with
    | none => (.error .inodeSpaceExhausted, s)
    | some next => (.ok s.nextInode, { s with
        inodes := (s.inodes.bind node s.nextInode parentInode).putEntry parentInode name s.nextInode
        nextInode := next })

/-- `add_lookup`. -/
def addLookup (inode amount : ℕ) : State :=
  { s with inodes := s.inodes.setLookups inode (saturatingAdd (s.inodes.lookups inode) amount) }

/-- Whether an open file or directory keeps an inode. -/
def inUse (inode : ℕ) : Bool :=
  (s.handles.any fun entry => entry.2.inode == inode) ||
    s.directoryHandles.any fun entry => entry.2.inode == inode

/-! ## Open files -/

/-- `next_handle`. -/
def takeNextHandle : Except AdapterError ℕ × State :=
  match checkedAdd s.nextHandle 1 with
  | none => (.error .handleSpaceExhausted, s)
  | some next => (.ok s.nextHandle, { s with nextHandle := next })

/-- The section of `remember_file_handle`. -/
def insertFileHandle (handle inode : ℕ) (access : FileAccess) (opened : OpenedFile) : State :=
  { s with
    handles := s.handles.insert handle
      ⟨opened.handle, inode, access, opened.revision, opened.size, false⟩
    handleOperations := s.handleOperations.insert handle }

def updateFileHandle (handle : ℕ) (revision : FileRevision) (size : ℕ) : State :=
  match s.handles.find handle with
  | some record => { s with
      handles := s.handles.insert handle { record with revision := revision, size := size } }
  | none => s

def setUsedLocks (handle : ℕ) : State :=
  match s.handles.find handle with
  | some record => { s with
      handles := s.handles.insert handle { record with usedLocks := true } }
  | none => s

/-- `take_file_handle`: whatever is still buffered for the handle goes with it. -/
def removeFileHandle (handle : ℕ) : State :=
  match s.handles.find handle with
  | some _ => { s with
      handles := s.handles.erase handle
      handleOperations := s.handleOperations.filter fun h => decide (h ≠ handle)
      pendingWrites := s.pendingWrites.erase handle }
  | none => s

/-! ## Pending writes -/

/-- Whether a write continues what is pending for its handle, and there is room for it. -/
def canAppend (handle offset length threshold : ℕ) : Bool :=
  match s.pendingWrites.find handle with
  | some existing => existing.stop == offset &&
      decide (saturatingAdd existing.buffer.length length ≤ threshold)
  | none => false

/-- The section of `write_async` that looks for a run to continue: it is continued, or taken out. -/
def coalesce (handle offset : ℕ) (data : List UInt8) (threshold : ℕ) : State :=
  if s.canAppend handle offset data.length threshold then
    match s.pendingWrites.find handle with
    | some existing =>
      let extended : PendingWrite := { existing with buffer := existing.buffer ++ data }
      { s with pendingWrites := s.pendingWrites.insert handle extended }
    | none => s
  else { s with pendingWrites := s.pendingWrites.erase handle }

def insertPending (handle : ℕ) (pending : PendingWrite) : State :=
  { s with pendingWrites := s.pendingWrites.insert handle pending }

def removePending (handle : ℕ) : State :=
  { s with pendingWrites := s.pendingWrites.erase handle }

/-- The handles with something pending for an inode. -/
def pendingHandles (inode : ℕ) : List ℕ :=
  (s.pendingWrites.filter fun entry => entry.2.inode == inode).map Prod.fst

/-- `pending_end_for_inode`. -/
def pendingEndForInode (inode : ℕ) : Option ℕ :=
  ((s.pendingWrites.filter fun entry => entry.2.inode == inode).map fun entry => entry.2.stop).max?

/-! ## What was discovered -/

def setMetadata (node : NodeId) (cached : Option CachedMetadata) : State :=
  { s with discoveredMetadata := fun n => if n = node then cached else s.discoveredMetadata n }

def setDirectory (inode : ℕ) (cached : Option CachedDirectory) : State :=
  { s with discoveredDirectories := fun i => if i = inode then cached
      else s.discoveredDirectories i }

def setXattrs (node : NodeId) (cached : Option CachedXattrs) : State :=
  { s with discoveredXattrs := fun n => if n = node then cached else s.discoveredXattrs n }

/-- `elapsed() <= DISCOVERED_METADATA_TTL`, of the metadata of a node. -/
def freshMetadata (node : NodeId) : Option Metadata :=
  (s.discoveredMetadata node).bind fun cached =>
    if s.clock - cached.discoveredAt ≤ discoveredMetadataTtl then some cached.value else none

/-- The section of `cached_metadata`: what is too old is dropped. -/
def dropStaleMetadata (node : NodeId) : State :=
  if (s.freshMetadata node).isSome then s else s.setMetadata node none

def rememberMetadata (value : Metadata) : State := s.setMetadata value.node (some ⟨value, s.clock⟩)

def knownMetadataRevision (node : NodeId) : Option FileRevision :=
  (s.discoveredMetadata node).map fun cached => cached.value.revision

def freshDirectory (inode : ℕ) : Option DirectoryListing :=
  (s.discoveredDirectories inode).bind fun cached =>
    if s.clock - cached.discoveredAt ≤ discoveredDirectoryTtl then some cached.listing else none

def dropStaleDirectory (inode : ℕ) : State :=
  if (s.freshDirectory inode).isSome then s else s.setDirectory inode none

def rememberDirectory (inode : ℕ) (listing : DirectoryListing) : State :=
  s.setDirectory inode (some ⟨listing, s.clock⟩)

/-- Attributes go by the revision of the metadata that are known, if any are. -/
def freshXattrs (node : NodeId) : Option CachedXattrs :=
  (s.discoveredXattrs node).bind fun cached =>
    if (s.knownMetadataRevision node).all (fun revision => revision == cached.revision) ∧
        s.clock - cached.discoveredAt ≤ discoveredDirectoryTtl then some cached else none

def dropStaleXattrs (node : NodeId) : State :=
  if (s.freshXattrs node).isSome then s else s.setXattrs node none

/-- The loop of `remember_xattr_snapshot` over the values. -/
def inlineValues (names : List Name) : List InlineXattr → Entries Name (List UInt8) →
    Option (Entries Name (List UInt8))
  | [], values => some values
  | value :: rest, values =>
    if names.contains value.name && (Entries.find values value.name).isNone then
      inlineValues names rest (Entries.insert values value.name value.value)
    else none

/-- What `remember_xattr_snapshot` makes of a snapshot, if the snapshot is in order. -/
def xattrsOfSnapshot (revision : FileRevision) (snapshot : XattrSnapshot) :
    Except AdapterError CachedXattrs :=
  if snapshot.names.Nodup then
    match inlineValues snapshot.names snapshot.inlineValues [] with
    | some values => .ok ⟨revision, snapshot.names, values.map fun entry =>
        (entry.1, entry.2.length), values, s.clock⟩
    | none => .error .unexpectedMetadata
  else .error .unexpectedMetadata

/-- The cached attributes of a node, changed if they are of this revision and have this name. -/
def updateXattrs (node : NodeId) (revision : FileRevision) (name : Name)
    (change : CachedXattrs → CachedXattrs) : State :=
  match s.discoveredXattrs node with
  | some cached =>
    if cached.revision = revision ∧ cached.names.contains name then
      s.setXattrs node (some { change cached with discoveredAt := s.clock })
    else s
  | none => s

def rememberXattrSize (node : NodeId) (revision : FileRevision) (name : Name) (size : ℕ) : State :=
  s.updateXattrs node revision name fun cached =>
    { cached with sizes := cached.sizes.insert name size }

def rememberXattrValue (node : NodeId) (revision : FileRevision) (name : Name)
    (value : List UInt8) : State :=
  s.updateXattrs node revision name fun cached =>
    { cached with
      sizes := cached.sizes.insert name value.length
      values := cached.values.insert name value }

/-- Whether a listing has an entry with the metadata of a node. -/
def Lists (listing : DirectoryListing) (node : NodeId) : Bool :=
  listing.entries.any fun entry => entry.metadata.node == node

/-- The section of `invalidate_node_views` about directories: the directory itself, and every
listing the node is in. -/
def retainDirectories (inode : Option ℕ) (node : NodeId) : State :=
  { s with discoveredDirectories := fun i => (s.discoveredDirectories i).filter fun cached =>
      !(some i == inode) && !Lists cached.listing node }

/-! ## Locks -/

/-- `directory_operation`: the mutex of a directory, made if there is none. -/
def directoryOperation (node : NodeId) : ℕ × State :=
  match s.directoryOperations node with
  | some name => (name, s)
  | none => (s.nextDirectoryOperation, { s with
      directoryOperations := fun n => if n = node then some s.nextDirectoryOperation
        else s.directoryOperations n
      nextDirectoryOperation := s.nextDirectoryOperation + 1 })

def removeDirectoryOperation (node : NodeId) : State :=
  { s with directoryOperations := fun n => if n = node then none else s.directoryOperations n }

def setReaders (handle count : ℕ) : State :=
  { s with readers := fun h => if h = handle then count else s.readers h }

end State

end QuickFS.Adapter
