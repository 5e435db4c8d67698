import QuickFS.Adapter.State
import QuickFS.Lib.Call

/-!
# The calls of the macFUSE adapter

The `_async` functions of `Adapter`, as concurrent programs.  One section under a lock is one step;
an `await` on the remote file system is a question.  All calls of the remote are made under
`execute`, which gives up after a while: such a call is answered by nothing, whether or not the
remote has done what it was asked to.

Calls that work on an open file hold its lock, exclusively or as one of several readers (`writing`,
`reading`); `readdir_async` holds a lock of the directory.  What is spawned — a `close_file` or
`forget_nodes` that nobody waits for, the forgetting after `releasedir`, the refresh of `statfs` —
is a task of its own.

A poisoned mutex (`StateUnavailable`) is not modelled: it takes a panic to poison one.
-/

namespace QuickFS.Adapter

open Async
open Call (ofExcept access attempt)

/-! ## The outside -/

inductive Question where
  | call (operation : RemoteCall)
  /-- `tokio::time::sleep`. -/
  | sleep

/-- A call of the remote that is given up has no reply. -/
abbrev Question.Answer : Question → Type
  | call operation => Option operation.Reply
  | sleep => Unit

/-- What the adapter runs against. -/
structure Outside where
  Env : Type
  Choice : Type
  serve : Env → Choice → (q : Question) → Option (Env × q.Answer)

/-- A node that was created, or found. -/
structure FoundNode where
  inode : ℕ
  metadata : Metadata
deriving DecidableEq

structure CreatedAndOpenedFile where
  inode : ℕ
  metadata : Metadata
  handle : ℕ
deriving DecidableEq

/-- A row of the reply to `readdir`, with the kind of its node, or to `readdirplus`, with its metadata;
the offset is the one to go on from.  The latter hands out a reference to the inode. -/
structure DirectoryRow (β : Type) where
  inode : ℕ
  offset : ℕ
  name : Name
  value : β
deriving DecidableEq

/-- A function of the adapter and its arguments.  The last argument of the calls that fill the reply
to a callback is the number of rows that there is room for. -/
inductive AdapterCall where
  | lookup (parentInode : ℕ) (name : Name)
  | getattr (inode : ℕ)
  | readdir (inode : ℕ)
  | opendir (inode : ℕ)
  | releasedir (handle : ℕ)
  | fillDirectory (inode handle requestedOffset room : ℕ)
  | fillDirectoryPlus (inode handle requestedOffset room : ℕ)
  | openFile (inode : ℕ) (options : FileOpenOptions)
  | createFile (parentInode : ℕ) (name : Name) (mode : ℕ) (options : FileOpenOptions)
  | createDirectory (parentInode : ℕ) (name : Name) (mode : ℕ)
  | createSymlink (parentInode : ℕ) (name : Name) (target : List UInt8)
  | readlink (inode : ℕ)
  | createHardLink (inode newParentInode : ℕ) (newName : Name)
  | createSpecialNode (parentInode : ℕ) (name : Name) (kind : SpecialNodeKind)
      (mode deviceMajor deviceMinor : ℕ)
  | remove (parentInode : ℕ) (name : Name) (directory : Bool)
  | rename (parentInode : ℕ) (name : Name) (newParentInode : ℕ) (newName : Name) (mode : RenameMode)
  | setattr (inode : ℕ) (handle : Option ℕ) (changes : AttributeChanges)
  | read (handle offset length : ℕ)
  | write (handle offset : ℕ) (data : List UInt8)
  | flush (handle : ℕ) (lockOwner : Option ℕ)
  | fsync (handle : ℕ) (dataOnly : Bool)
  | fsyncdir (inode handle : ℕ)
  | allocate (handle offset length : ℕ)
  | copyFileRange (inputHandle inputOffset outputHandle outputOffset length : ℕ)
  | lseek (handle offset : ℕ) (whence : SeekWhence)
  | safeIoctl (handle : ℕ) (operation : SafeIoctl)
  | mapBlock (inode blockSize block : ℕ)
  | exchangeData (parentInode : ℕ) (name : Name) (newParentInode : ℕ) (newName : Name)
      (options : ℕ)
  | setVolumeName (name : Name)
  | getLock (handle : ℕ) (lock : FileLock)
  | setLock (handle : ℕ) (lock : FileLock) (wait : Bool)
  | statfs
  | xattrSize (inode : ℕ) (name : Name)
  | getXattr (inode : ℕ) (name : Name)
  | setXattr (inode : ℕ) (name : Name) (value : List UInt8) (mode : XattrSetMode) (position : ℕ)
  | listXattrs (inode : ℕ)
  | removeXattr (inode : ℕ) (name : Name)
  | release (handle : ℕ) (flush : Bool) (lockOwner : Option ℕ)
  | forgetInodes (requests : List (ℕ × ℕ))
  | destroyMount
deriving DecidableEq

abbrev AdapterCall.Output : AdapterCall → Type
  | lookup .. => FoundNode
  | getattr .. => Metadata
  | readdir .. => DirectoryListing
  | opendir .. => ℕ
  | releasedir .. => Unit
  | fillDirectory .. => List (DirectoryRow NodeKind)
  | fillDirectoryPlus .. => List (DirectoryRow Metadata)
  | openFile .. => ℕ
  | createFile .. => CreatedAndOpenedFile
  | createDirectory .. => FoundNode
  | createSymlink .. => FoundNode
  | readlink .. => List UInt8
  | createHardLink .. => FoundNode
  | createSpecialNode .. => FoundNode
  | remove .. => Unit
  | rename .. => Unit
  | setattr .. => Metadata
  | read .. => List UInt8
  | write .. => ℕ
  | flush .. => Unit
  | fsync .. => Unit
  | fsyncdir .. => Unit
  | allocate .. => Unit
  | copyFileRange .. => ℕ
  | lseek .. => ℕ
  | safeIoctl .. => ℕ
  | mapBlock .. => ℕ
  | exchangeData .. => Unit
  | setVolumeName .. => Unit
  | getLock .. => Option FileLock
  | setLock .. => Unit
  | statfs => FilesystemStats
  | xattrSize .. => ℕ
  | getXattr .. => List UInt8
  | setXattr .. => Unit
  | listXattrs .. => List Name
  | removeXattr .. => Unit
  | release .. => Unit
  | forgetInodes .. => Unit
  | destroyMount => Unit

inductive Op where
  | call (call : AdapterCall)
  /-- Time passes. -/
  | tick (elapsed : ℕ)

/-- A call ends in its reply; other tasks end in nothing. -/
abbrev sig (O : Outside) : Sig where
  Shared := State
  Env := O.Env
  Choice := O.Choice
  Question := Question
  Answer := Question.Answer
  Result := Option ((call : AdapterCall) × Except AdapterError call.Output)
  Op := Op

abbrev M (O : Outside) := Call (sig O) AdapterError

section Program

variable {O : Outside}

/-- A call of the remote, under `execute`. -/
def remote (operation : RemoteCall) : M O operation.Output := do
  match ← Call.ask (S := sig O) (.call operation) with
  | none => Call.throw .callbackTimedOut
  | some (.error error) => Call.throw (.client error)
  | some (.ok output) => pure output

/-- The same where an error of the remote is passed over. -/
def remoteQuietly (operation : RemoteCall) : M O Unit := do
  match ← Call.ask (S := sig O) (.call operation) with
  | none => Call.throw .callbackTimedOut
  | some _ => pure ()

def ensure (condition : Bool) (error : AdapterError) : M O Unit :=
  if condition then pure () else Call.throw error

/-- A section under a lock that may fail. -/
def atomically {α : Type} (f : State → Except AdapterError α × State) : M O α := do
  let result ← access (fun _ => true) (fun s => (f s).2) fun s => (f s).1
  ofExcept result

def spawn (m : M O Unit) : M O Unit :=
  Call.spawn fun _ => m.toTask fun _ => none

/-! ## Locks -/

/-- `operation.write().await`, for the rest of the call. -/
def writing {α : Type} (handle : ℕ) (m : M O α) : M O α :=
  Call.holding
    (access (fun s => decide (s.readers handle = 0 ∧ handle ∉ s.writers))
      (fun s => { s with writers := handle :: s.writers }) fun _ => ())
    (Call.modify fun s =>
      { s with writers := s.writers.filter fun h => decide (h ≠ handle) }) m

/-- `operation.read().await`, for the rest of the call. -/
def reading {α : Type} (handle : ℕ) (m : M O α) : M O α :=
  Call.holding
    (access (fun s => decide (handle ∉ s.writers))
      (fun s => s.setReaders handle (s.readers handle + 1)) fun _ => ())
    (Call.modify fun s => s.setReaders handle (s.readers handle - 1)) m

/-- `operation.lock().await` of a directory, for the rest of the call. -/
def lockingDirectory {α : Type} (operation : ℕ) (m : M O α) : M O α :=
  Call.holding
    (access (fun s => decide (operation ∉ s.directoryLocks))
      (fun s => { s with directoryLocks := operation :: s.directoryLocks }) fun _ => ())
    (Call.modify fun s =>
      { s with directoryLocks := s.directoryLocks.filter fun o => decide (o ≠ operation) }) m

def fileOperation (handle : ℕ) : M O Unit := do
  let found ← Call.read fun s => decide (handle ∈ s.handleOperations)
  ensure found .unknownHandle

/-! ## State -/

def inodeRecord (inode : ℕ) : M O InodeRecord := do
  match ← Call.read fun s => s.inodes.byInode inode with
  | some record => pure record
  | none => Call.throw .unknownInode

def fileHandle (handle : ℕ) : M O FileHandleRecord := do
  match ← Call.read fun s => s.handles.find handle with
  | some record => pure record
  | none => Call.throw .unknownHandle

def updateFileHandle (handle : ℕ) (revision : FileRevision) (size : ℕ) : M O Unit := do
  let found ← access (fun _ => true)
    (fun s => s.updateFileHandle handle revision size)
    fun s => (s.handles.find handle).isSome
  ensure found .unknownHandle

def takeFileHandle (handle : ℕ) : M O FileHandleRecord := do
  match ← access (fun _ => true) (fun s => s.removeFileHandle handle)
    fun s => s.handles.find handle with
  | some record => pure record
  | none => Call.throw .unknownHandle

def nextHandle : M O ℕ := atomically State.takeNextHandle

def rememberFileHandle (inode : ℕ) (access : FileAccess) (opened : OpenedFile) : M O ℕ := do
  let handle ← nextHandle
  Call.modify fun s => s.insertFileHandle handle inode access opened
  pure handle

def rememberEntry (node : NodeId) (parentInode : ℕ) (name : Name) : M O ℕ :=
  atomically fun s => s.rememberEntry node parentInode name

def addLookup (inode amount : ℕ) : M O Unit :=
  Call.modify fun s => s.addLookup inode amount

def entryNode (parentInode : ℕ) (name : Name) : M O (Option NodeId) :=
  Call.read fun s => s.inodes.entryNode parentInode name

def cachedMetadata (node : NodeId) : M O (Option Metadata) :=
  access (fun _ => true) (fun s => s.dropStaleMetadata node)
    fun s => s.freshMetadata node

def rememberMetadata (value : Metadata) : M O Unit :=
  Call.modify fun s => s.rememberMetadata value

def knownMetadataRevision (node : NodeId) : M O (Option FileRevision) :=
  Call.read fun s => s.knownMetadataRevision node

def cachedDirectory (inode : ℕ) : M O (Option DirectoryListing) :=
  access (fun _ => true) (fun s => s.dropStaleDirectory inode)
    fun s => s.freshDirectory inode

def cachedXattrs (node : NodeId) : M O (Option CachedXattrs) :=
  access (fun _ => true) (fun s => s.dropStaleXattrs node)
    fun s => s.freshXattrs node

def rememberXattrSnapshot (node : NodeId) (revision : FileRevision) (snapshot : XattrSnapshot) :
    M O Unit :=
  atomically fun s =>
    match s.xattrsOfSnapshot revision snapshot with
    | .ok cached => (.ok (), s.setXattrs node (some cached))
    | .error error => (.error error, s)

/-- Remove every projection that has the metadata of a node in it. -/
def invalidateNodeViews (node : NodeId) : M O Unit := do
  let inode ← Call.read fun s => s.inodes.byNode node
  Call.modify fun s => s.setMetadata node none
  Call.modify fun s => s.setXattrs node none
  Call.modify fun s => s.retainDirectories inode node

def invalidateDirectory (inode : ℕ) : M O Unit := do
  let record ← inodeRecord inode
  invalidateNodeViews record.node

/-- `if let Some(node) = node { invalidate_node_views(node) }`. -/
def invalidateFound (node : Option NodeId) : M O Unit :=
  match node with
  | some node => invalidateNodeViews node
  | none => pure ()

/-- `evict_inode`, and what `forget_inodes` does after it. -/
def evictInode (inode amount : ℕ) : M O (Option NodeId) :=
  if inode = rootInode then pure none
  else do
    let inUse ← Call.read fun s => s.inUse inode
    match ← access (fun _ => true)
      (fun s => { s with inodes := (s.inodes.evict inode amount inUse).2 })
      fun s => (s.inodes.evict inode amount inUse).1 with
    | some node => do
      Call.modify fun s => s.setDirectory inode none
      Call.modify fun s => s.removeDirectoryOperation node
      pure (some node)
    | none => pure none

/-- The loop of `forget_inodes`. -/
def evictInodes : List (ℕ × ℕ) → M O (List NodeId)
  | [] => pure []
  | (inode, amount) :: rest => do
    let evicted ← evictInode inode amount
    let forgotten ← evictInodes rest
    pure (evicted.toList ++ forgotten)

def forgetInodes (requests : List (ℕ × ℕ)) : M O Unit := do
  let forgotten ← evictInodes requests
  if forgotten.isEmpty then pure () else spawn (remoteQuietly (.forgetNodes forgotten))

/-! ## Capabilities -/

def capabilitiesAsync : M O FilesystemCapabilities := do
  match ← Call.read fun s => s.capabilities with
  | some capabilities => pure capabilities
  | none => do
    let capabilities ← remote .capabilities
    ensure (!(capabilities.maxReadSize == 0 || capabilities.maxWriteSize == 0)) .invalidCapabilities
    access (fun _ => true)
      (fun s => { s with capabilities := s.capabilities.or (some capabilities) })
      fun s => s.capabilities.getD capabilities

def requireWritable : M O FilesystemCapabilities := do
  let capabilities ← capabilitiesAsync
  ensure capabilities.writable .readOnly
  pure capabilities

/-! ## Metadata and directories -/

def getattrAsync (inode : ℕ) : M O Metadata := do
  let record ← inodeRecord inode
  let metadata ← (do
    match ← cachedMetadata record.node with
    | some metadata => pure metadata
    | none => do
      let metadata ← remote (.getMetadata record.node)
      ofExcept (validateMetadata record.node metadata)
      rememberMetadata metadata
      pure metadata)
  match ← Call.read fun s => s.pendingEndForInode inode with
  | some stop => pure (if stop > metadata.size then { metadata with size := stop } else metadata)
  | none => pure metadata

variable (config : Config)

/-- The loop of `remember_directory_snapshot`. -/
def rememberEntries (inode : ℕ) : List DirectoryEntry → M O (List ListedEntry)
  | [] => pure []
  | entry :: rest => do
    ensure (validName entry.name) .invalidRemoteName
    ofExcept (validateMetadata entry.node entry.metadata)
    ensure (decide (entry.kind = entry.metadata.kind)) .unexpectedMetadata
    rememberMetadata entry.metadata
    let entryInode ← rememberEntry entry.node inode entry.name
    let entries ← rememberEntries inode rest
    pure (⟨entryInode, entry.name, entry.kind, entry.metadata⟩ :: entries)

def rememberDirectorySnapshot (inode parentInode : ℕ) (snapshot : DirectorySnapshot) :
    M O DirectoryListing := do
  ofExcept (validateCaseInsensitiveDirectory config snapshot.entries)
  Call.modify fun s => { s with
    inodes := s.inodes.reconcileDirectoryEntries inode (snapshot.entries.map DirectoryEntry.name) }
  let entries ← rememberEntries inode snapshot.entries
  let listing : DirectoryListing := ⟨parentInode, snapshot.revision, entries⟩
  Call.modify fun s => s.rememberDirectory inode listing
  pure listing

/-- The attributes that come with a view, if any do. -/
def rememberViewXattrs (node : NodeId) (revision : FileRevision) (xattrs : Option XattrSnapshot) :
    M O Unit :=
  match xattrs with
  | some xattrs => rememberXattrSnapshot node revision xattrs
  | none => pure ()

def rememberViewEntries : List DirectoryViewEntry → M O Unit
  | [] => pure ()
  | entry :: rest => do
    rememberViewXattrs entry.entry.node entry.entry.metadata.revision entry.xattrs
    rememberViewEntries rest

def rememberDirectoryView (inode : ℕ) (record : InodeRecord) (view : DirectoryView) :
    M O DirectoryListing := do
  ofExcept (validateMetadata record.node view.directory)
  ensure (decide (view.directory.kind = .directory)) .unexpectedMetadata
  let parent ← inodeRecord record.parentInode
  ofExcept (validateMetadata parent.node view.parent)
  ensure (decide (view.parent.kind = .directory)) .unexpectedMetadata
  rememberMetadata view.directory
  rememberMetadata view.parent
  rememberViewXattrs record.node view.directory.revision view.xattrs
  rememberViewEntries view.entries
  rememberDirectorySnapshot config inode record.parentInode
    ⟨view.revision, view.entries.map DirectoryViewEntry.entry⟩

def readdirAsync (inode : ℕ) : M O DirectoryListing := do
  match ← cachedDirectory inode with
  | some listing => pure listing
  | none => do
    let record ← inodeRecord inode
    let operation ← access (fun _ => true)
      (fun s => (s.directoryOperation record.node).2) fun s => (s.directoryOperation record.node).1
    lockingDirectory operation do
      match ← cachedDirectory inode with
      | some listing => pure listing
      | none => do
        let view ← remote (.listDirectoryView record.node .native)
        rememberDirectoryView config inode record view

def lookupFromListing (parentInode : ℕ) (listing : DirectoryListing) (requested : Name) :
    M O FoundNode := do
  let entry ← ofExcept (selectEntry config listing.entries ListedEntry.name requested)
  let inode ← rememberEntry entry.metadata.node parentInode entry.name
  addLookup inode 1
  rememberMetadata entry.metadata
  pure ⟨inode, entry.metadata⟩

def lookupAsync (parentInode : ℕ) (name : Name) : M O FoundNode := do
  ofExcept (validateName name)
  match ← cachedDirectory parentInode with
  | some listing => lookupFromListing config parentInode listing name
  | none => do
    match ← atomically fun s => (s.inodes.findEntryInode config parentInode name, s) with
    | some inode => do
      let metadata ← getattrAsync inode
      addLookup inode 1
      pure ⟨inode, metadata⟩
    | none => do
      let listing ← readdirAsync config parentInode
      lookupFromListing config parentInode listing name

def opendirAsync (inode : ℕ) : M O ℕ := do
  let listing ← (do
    match ← cachedDirectory inode with
    | some listing => pure listing
    | none => readdirAsync config inode)
  let metadata ← getattrAsync inode
  ensure (decide (metadata.kind = .directory))
    (.client (.server .notDirectory "node is not a directory"))
  let parent ← (if listing.parentInode = inode then pure metadata
    else getattrAsync listing.parentInode)
  let handle ← nextHandle
  Call.modify fun s => { s with
    directoryHandles := s.directoryHandles.insert handle ⟨inode, listing, metadata, parent⟩ }
  pure handle

def directoryListing (handle inode : ℕ) : M O DirectoryListing := do
  match ← Call.read fun s => s.directoryHandles.find handle with
  | none => Call.throw .unknownDirectoryHandle
  | some record =>
    if record.inode = inode then pure record.listing else Call.throw .handleInodeMismatch

/-- The listing with the metadata of the directory and of its parent. -/
def directoryListingWithMetadata (handle inode : ℕ) : M O (DirectoryListing × Metadata × Metadata) := do
  match ← Call.read fun s => s.directoryHandles.find handle with
  | none => Call.throw .unknownDirectoryHandle
  | some record =>
    if record.inode = inode then pure (record.listing, record.current, record.parent)
    else Call.throw .handleInodeMismatch

/-- A row of a reply: it is passed over if it comes before the rows that are asked for; and the reply
ends with it if there is no room for it. -/
def addRow {ρ : Type} (requestedOffset index : ℕ) (row : ρ) (added : M O Unit) (room : ℕ)
    (rest : ℕ → M O (List ρ)) : M O (List ρ) :=
  if index < requestedOffset then rest room
  else if room = 0 then pure []
  else do
    added
    let rows ← rest (room - 1)
    pure (row :: rows)

/-- `remember_entry(..).unwrap_or(entry.inode)`. -/
def rememberListed (inode : ℕ) (entry : ListedEntry) : M O ℕ := do
  match ← attempt (rememberEntry entry.metadata.node inode entry.name) with
  | .ok entryInode => pure entryInode
  | .error _ => pure entry.inode

section Rows

variable {β : Type} (inode requestedOffset : ℕ) (value : ListedEntry → β) (added : ℕ → M O Unit)

/-- The loop over the entries. -/
def fillEntries : List ListedEntry → ℕ → ℕ → M O (List (DirectoryRow β))
  | [], _, _ => pure []
  | entry :: rest, index, room => do
    let entryInode ← rememberListed inode entry
    addRow requestedOffset index ⟨entryInode, index + 1, entry.name, value entry⟩ (added entryInode)
      room (fillEntries rest (index + 1))

/-- `fill_directory` and `fill_directory_plus`: the rows of `.` and `..` and those of the entries. -/
def fillListing (listing : DirectoryListing) (current parent : β) (room : ℕ) :
    M O (List (DirectoryRow β)) :=
  addRow requestedOffset 0 ⟨inode, 1, [46], current⟩ (added inode) room fun room =>
    addRow requestedOffset 1 ⟨listing.parentInode, 2, [46, 46], parent⟩ (added listing.parentInode)
      room (fillEntries inode requestedOffset value added listing.entries 2)

end Rows

/-- `readdir` of the volume. -/
def fillDirectory (inode handle requestedOffset room : ℕ) : M O (List (DirectoryRow NodeKind)) := do
  let listing ← directoryListing handle inode
  fillListing inode requestedOffset ListedEntry.kind (fun _ => pure ()) listing .directory .directory
    room

/-- `readdirplus` of the volume. -/
def fillDirectoryPlus (inode handle requestedOffset room : ℕ) :
    M O (List (DirectoryRow Metadata)) := do
  let (listing, current, parent) ← directoryListingWithMetadata handle inode
  fillListing inode requestedOffset ListedEntry.metadata (addLookup · 1) listing current parent room

def releasedir (handle : ℕ) : M O Unit := do
  match ← access (fun _ => true)
    (fun s => { s with directoryHandles := s.directoryHandles.erase handle })
    fun s => s.directoryHandles.find handle with
  | none => Call.throw .unknownDirectoryHandle
  | some record =>
    spawn do
      Call.ask (S := sig O) .sleep
      forgetInodes (record.listing.entries.map fun entry => (entry.inode, 0))

/-! ## Creating, removing and renaming -/

def openAsync (inode : ℕ) (options : FileOpenOptions) : M O ℕ := do
  if options.access.canWrite then do
    let _ ← requireWritable
    pure ()
  else pure ()
  let record ← inodeRecord inode
  let opened ← remote (.openFileWithOptions record.node options)
  match ← attempt (rememberFileHandle inode options.access opened) with
  | .ok handle => pure handle
  | .error error => do
    remoteQuietly (.closeFile opened.handle)
    Call.throw error

def createFileAsync (parentInode : ℕ) (name : Name) (mode : ℕ) (options : FileOpenOptions) :
    M O CreatedAndOpenedFile := do
  let _ ← requireWritable
  ofExcept (validateName name)
  let parent ← inodeRecord parentInode
  let created ← remote (.createFile parent.node name mode options)
  rememberMetadata created.metadata
  invalidateDirectory parentInode
  let inode ← rememberEntry created.metadata.node parentInode name
  addLookup inode 1
  match ← attempt (rememberFileHandle inode options.access created.opened) with
  | .ok handle => pure ⟨inode, created.metadata, handle⟩
  | .error error => do
    remoteQuietly (.closeFile created.opened.handle)
    Call.throw error

/-- What follows on the creation of a node in a directory. -/
def rememberCreated (parentInode : ℕ) (name : Name) (metadata : Metadata) : M O FoundNode := do
  rememberMetadata metadata
  invalidateDirectory parentInode
  let inode ← rememberEntry metadata.node parentInode name
  addLookup inode 1
  pure ⟨inode, metadata⟩

def createDirectoryAsync (parentInode : ℕ) (name : Name) (mode : ℕ) : M O FoundNode := do
  let _ ← requireWritable
  ofExcept (validateName name)
  let parent ← inodeRecord parentInode
  let metadata ← remote (.createDirectory parent.node name mode)
  rememberCreated parentInode name metadata

def createSymlinkAsync (parentInode : ℕ) (name : Name) (target : List UInt8) : M O FoundNode := do
  let capabilities ← requireWritable
  ensure capabilities.supportsSymlinks .unsupported
  ofExcept (validateName name)
  let parent ← inodeRecord parentInode
  let metadata ← remote (.createSymlink parent.node name target)
  rememberCreated parentInode name metadata

def readlinkAsync (inode : ℕ) : M O (List UInt8) := do
  let capabilities ← capabilitiesAsync
  ensure capabilities.supportsSymlinks .unsupported
  let record ← inodeRecord inode
  remote (.readLink record.node)

def createHardLinkAsync (inode newParentInode : ℕ) (newName : Name) : M O FoundNode := do
  let capabilities ← requireWritable
  ensure capabilities.supportsHardLinks .unsupported
  ofExcept (validateName newName)
  let record ← inodeRecord inode
  let newParent ← inodeRecord newParentInode
  let metadata ← remote (.createHardLink record.node newParent.node newName)
  ofExcept (validateMetadata record.node metadata)
  invalidateNodeViews record.node
  invalidateDirectory newParentInode
  rememberMetadata metadata
  let linkedInode ← rememberEntry record.node newParentInode newName
  addLookup linkedInode 1
  pure ⟨linkedInode, metadata⟩

def createSpecialNodeAsync (parentInode : ℕ) (name : Name) (kind : SpecialNodeKind)
    (mode deviceMajor deviceMinor : ℕ) : M O FoundNode := do
  let capabilities ← requireWritable
  ensure capabilities.supportsSpecialNodes .unsupported
  ofExcept (validateName name)
  let parent ← inodeRecord parentInode
  let metadata ← remote (.createSpecialNode parent.node name kind mode deviceMajor deviceMinor)
  rememberCreated parentInode name metadata

def removeAsync (parentInode : ℕ) (name : Name) (directory : Bool) : M O Unit := do
  let _ ← requireWritable
  ofExcept (validateName name)
  let parent ← inodeRecord parentInode
  let removedNode ← entryNode parentInode name
  remote (.removeNode parent.node name directory)
  invalidateDirectory parentInode
  invalidateFound removedNode
  Call.modify fun s => { s with inodes := { s.inodes with
    byEntry := s.inodes.byEntry.erase (parentInode, name) } }

def renameAsync (parentInode : ℕ) (name : Name) (newParentInode : ℕ) (newName : Name)
    (mode : RenameMode) : M O Unit := do
  let capabilities ← requireWritable
  ensure capabilities.supportsAtomicRename .unsupported
  ofExcept (validateName name)
  ofExcept (validateName newName)
  let parent ← inodeRecord parentInode
  let newParent ← inodeRecord newParentInode
  let sourceNode ← entryNode parentInode name
  let destinationNode ← entryNode newParentInode newName
  remote (.renameNode parent.node name newParent.node newName mode)
  invalidateDirectory parentInode
  invalidateDirectory newParentInode
  invalidateFound sourceNode
  invalidateFound destinationNode
  Call.modify fun s => { s with
    inodes := s.inodes.moveEntry parentInode name newParentInode newName mode }

def exchangeDataAsync (parentInode : ℕ) (name : Name) (newParentInode : ℕ) (newName : Name)
    (options : ℕ) : M O Unit := do
  let capabilities ← requireWritable
  ensure capabilities.supportsExchangeData .unsupported
  ofExcept (validateName name)
  ofExcept (validateName newName)
  let sourceNode ← entryNode parentInode name
  let destinationNode ← entryNode newParentInode newName
  let parent ← inodeRecord parentInode
  let newParent ← inodeRecord newParentInode
  remote (.exchangeData parent.node name newParent.node newName options)
  invalidateFound sourceNode
  invalidateFound destinationNode

/-! ## Writing -/

/-- The loop of `write_through`, over the bytes that are left.  A round sends at least one. -/
def writeChunks (file : FileHandle) (chunkLimit : ℕ) : ℕ → ℕ → List UInt8 → FileRevision → ℕ →
    M O (FileRevision × ℕ)
  | 0, _, _, revision, size => pure (revision, size)
  | rounds + 1, position, data, revision, size =>
    if data.isEmpty then pure (revision, size)
    else do
      let chunk := data.take chunkLimit
      let result ← remote (.writeRange file position chunk)
      ensure (decide (result.written = chunk.length)) .unexpectedWriteLength
      match checkedAdd position result.written with
      | none => Call.throw .invalidRange
      | some position =>
        writeChunks file chunkLimit rounds position (data.drop chunkLimit) result.revision result.size

def writeThrough (handle offset : ℕ) (data : List UInt8) : M O Unit :=
  if data.isEmpty then pure ()
  else do
    let opened ← fileHandle handle
    let capabilities ← capabilitiesAsync
    let chunkLimit := min capabilities.maxWriteSize maxClientWriteSize
    ensure (decide (chunkLimit ≠ 0)) .invalidCapabilities
    let (revision, size) ←
      writeChunks opened.remote chunkLimit data.length offset data opened.revision opened.size
    updateFileHandle handle revision size
    let record ← inodeRecord opened.inode
    invalidateNodeViews record.node

def transmit (handle : ℕ) (run : Option (ℕ × List UInt8)) : M O Unit :=
  match run with
  | some (start, buffer) => writeThrough handle start buffer
  | none => pure ()

def flushPending (handle : ℕ) : M O Unit := do
  let pending ← access (fun _ => true) (fun s => s.removePending handle)
    fun s => s.pendingWrites.find handle
  transmit handle (pending.map fun pending => (pending.start, pending.buffer))

def hasPending (handle : ℕ) : M O Bool :=
  Call.read fun s => (s.pendingWrites.find handle).isSome

def flushHandles : List ℕ → M O Unit
  | [] => pure ()
  | handle :: rest => do
    flushPending handle
    flushHandles rest

def flushPendingForInode (inode : ℕ) : M O Unit := do
  let handles ← Call.read fun s => s.pendingHandles inode
  flushHandles handles

def writeAsync (handle offset : ℕ) (data : List UInt8) : M O ℕ := do
  ofExcept (validateIoRange offset data.length)
  fileOperation handle
  writing handle do
    let capabilities ← requireWritable
    let opened ← fileHandle handle
    ensure opened.access.canWrite .invalidAccess
    let threshold := min capabilities.maxWriteSize maxClientWriteSize
    ensure (decide (threshold ≠ 0)) .invalidCapabilities
    let (appended, toFlush) ← access (fun _ => true)
      (fun s => s.coalesce handle offset data threshold)
      fun s => (s.canAppend handle offset data.length threshold, s.pendingWrites.find handle)
    if appended then pure data.length
    else do
      transmit handle (toFlush.map fun pending => (pending.start, pending.buffer))
      if data.length < threshold then do
        Call.modify fun s => s.insertPending handle ⟨opened.inode, offset, data⟩
        pure data.length
      else do
        writeThrough handle offset data
        pure data.length

/-! ## Reading -/

/-- The loop of `read_async`.  A round receives bytes, ends the read, or starts it over, which
happens once at most. -/
def readChunks (file : FileHandle) (chunkLimit offset length : ℕ) :
    ℕ → ℕ → ℕ → FileRevision → Bool → List UInt8 → M O (List UInt8)
  | 0, _, _, _, _, data => pure data
  | rounds + 1, remaining, position, expectedRevision, restarted, data =>
    if remaining = 0 then pure data
    else do
      let requested := min remaining chunkLimit
      let result ← remote (.readRangeVersioned file position requested)
      if result.data.length > requested then Call.throw .unexpectedReadLength
      else if result.revision ≠ 0 ∧ expectedRevision ≠ 0 ∧ result.revision ≠ expectedRevision then
        if restarted then Call.throw .staleRevision
        else readChunks file chunkLimit offset length rounds length offset 0 true []
      else
        let expectedRevision := if result.revision ≠ 0 then result.revision else expectedRevision
        let data := data ++ result.data
        if result.data.length < requested then pure data
        else
          match checkedAdd position result.data.length with
          | none => Call.throw .invalidRange
          | some position =>
            readChunks file chunkLimit offset length rounds (remaining - result.data.length) position
              expectedRevision restarted data

/-- The part of `read_async` that sends what the handle itself has written. -/
def flushBeforeRead (handle : ℕ) : M O Unit := do
  if ← hasPending handle then writing handle (flushPending handle) else pure ()

def readAsync (handle offset length : ℕ) : M O (List UInt8) := do
  ofExcept (validateIoRange offset length)
  fileOperation handle
  flushBeforeRead handle
  reading handle do
    let opened ← fileHandle handle
    ensure opened.access.canRead .invalidAccess
    let capabilities ← capabilitiesAsync
    let chunkLimit := min capabilities.maxReadSize maxClientReadSize
    ensure (decide (chunkLimit ≠ 0)) .invalidCapabilities
    readChunks opened.remote chunkLimit offset length (2 * length + 1) length offset 0 false []

/-! ## Other calls on open files -/

/-- The handle of the remote that `set_attributes` is called with. -/
def remoteHandle (inode : ℕ) : Option ℕ → M O (Option FileHandle)
  | none => pure none
  | some handle => do
    let opened ← fileHandle handle
    ensure (decide (opened.inode = inode)) .handleInodeMismatch
    pure (some opened.remote)

/-- The end of `setattr_async`, once what is pending was sent. -/
def changeAttributes (inode : ℕ) (record : InodeRecord) (handle : Option ℕ)
    (changes : AttributeChanges) : M O Metadata := do
  let file ← remoteHandle inode handle
  let metadata ← remote (.setAttributes record.node file changes)
  ofExcept (validateMetadata record.node metadata)
  invalidateNodeViews record.node
  rememberMetadata metadata
  match handle with
  | some handle => do
    updateFileHandle handle metadata.revision metadata.size
    pure metadata
  | none => pure metadata

def setattrAsync (inode : ℕ) (handle : Option ℕ) (changes : AttributeChanges) : M O Metadata := do
  let _ ← requireWritable
  let record ← inodeRecord inode
  match handle with
  | some handle => do
    fileOperation handle
    writing handle do
      flushPending handle
      changeAttributes inode record (some handle) changes
  | none => do
    if changes.size.isSome then flushPendingForInode inode else pure ()
    changeAttributes inode record none changes

def flushAsync (handle : ℕ) (lockOwner : Option ℕ) : M O Unit := do
  fileOperation handle
  writing handle do
    flushPending handle
    let opened ← fileHandle handle
    if !opened.access.canWrite && !opened.usedLocks then pure ()
    else remote (.flushFile opened.remote lockOwner)

def fsyncAsync (handle : ℕ) (dataOnly : Bool) : M O Unit := do
  fileOperation handle
  writing handle do
    flushPending handle
    let opened ← fileHandle handle
    remote (.syncFile opened.remote dataOnly)

def fsyncdirAsync (inode handle : ℕ) : M O Unit := do
  let capabilities ← capabilitiesAsync
  if capabilities.supportsDirectorySync then do
    let _ ← directoryListing handle inode
    let record ← inodeRecord inode
    remote (.syncDirectory record.node)
  else if capabilities.writable then Call.throw .unsupported
  else pure ()

/-- What follows on a change of the content of an open file. -/
def contentChanged (handle : ℕ) (opened : FileHandleRecord) (result : WriteResult) : M O Unit := do
  updateFileHandle handle result.revision result.size
  let record ← inodeRecord opened.inode
  invalidateNodeViews record.node

def allocateAsync (handle offset length : ℕ) : M O Unit := do
  ofExcept (validateAllocationRange offset length)
  fileOperation handle
  writing handle do
    let capabilities ← requireWritable
    ensure capabilities.supportsPreallocation .unsupported
    let opened ← fileHandle handle
    ensure opened.access.canWrite .invalidAccess
    flushPending handle
    let opened ← fileHandle handle
    let result ← remote (.allocateFile opened.remote offset length)
    contentChanged handle opened result

/-- The locks of the files of a copy, in the order of their handles. -/
def writingBoth {α : Type} (inputHandle outputHandle : ℕ) (m : M O α) : M O α :=
  if inputHandle = outputHandle then writing inputHandle m
  else if inputHandle < outputHandle then writing inputHandle (writing outputHandle m)
  else writing outputHandle (writing inputHandle m)

def flushBoth (inputHandle outputHandle : ℕ) : M O Unit := do
  flushPending inputHandle
  if inputHandle ≠ outputHandle then flushPending outputHandle else pure ()

def copyFileRangeAsync (inputHandle inputOffset outputHandle outputOffset length : ℕ) : M O ℕ := do
  ofExcept (validateRange inputOffset length)
  ofExcept (validateRange outputOffset length)
  let capabilities ← requireWritable
  ensure capabilities.supportsCopyFileRange .unsupported
  let input ← fileHandle inputHandle
  let output ← fileHandle outputHandle
  ensure (input.access.canRead && output.access.canWrite) .invalidAccess
  fileOperation inputHandle
  fileOperation outputHandle
  writingBoth inputHandle outputHandle do
    flushBoth inputHandle outputHandle
    let input ← fileHandle inputHandle
    let output ← fileHandle outputHandle
    let result ← remote (.copyFileRange input.remote inputOffset output.remote outputOffset length)
    ensure (decide (result.written ≤ length)) .unexpectedWriteLength
    contentChanged outputHandle output result
    pure result.written

def lseekAsync (handle offset : ℕ) (whence : SeekWhence) : M O ℕ := do
  let capabilities ← capabilitiesAsync
  ensure capabilities.supportsSeekDataHole .unsupported
  fileOperation handle
  writing handle do
    flushPending handle
    let opened ← fileHandle handle
    remote (.seekFile opened.remote offset whence)

def safeIoctlAsync (handle : ℕ) (operation : SafeIoctl) : M O ℕ := do
  let capabilities ← capabilitiesAsync
  ensure capabilities.supportsSafeIoctl .unsupported
  let opened ← fileHandle handle
  remote (.safeIoctl opened.remote operation)

def getLockAsync (handle : ℕ) (lock : FileLock) : M O (Option FileLock) := do
  let capabilities ← capabilitiesAsync
  ensure capabilities.supportsLocks .unsupported
  fileOperation handle
  writing handle do
    let opened ← fileHandle handle
    remote (.getLock opened.remote lock)

def setLockAsync (handle : ℕ) (lock : FileLock) (wait : Bool) : M O Unit := do
  let capabilities ← capabilitiesAsync
  ensure capabilities.supportsLocks .unsupported
  fileOperation handle
  writing handle do
    let opened ← fileHandle handle
    remote (.setLock opened.remote lock wait)
    Call.modify fun s => s.setUsedLocks handle

/-- The end of `release_async` for a handle that may have been written to.  Whatever fails, the
handle is closed; the first error is the one that is reported. -/
def releaseWritten (handle : ℕ) (flush : Bool) (lockOwner : Option ℕ) : M O Unit := do
  let pendingResult ← attempt (flushPending handle)
  let opened ← takeFileHandle handle
  let flushResult ← attempt
    (if flush then remote (.flushFile opened.remote lockOwner) else pure ())
  let closeResult ← attempt (remote (.closeFile opened.remote))
  forgetInodes [(opened.inode, 0)]
  ofExcept (pendingResult.bind fun _ => flushResult.bind fun _ => closeResult)

def releaseAsync (handle : ℕ) (flush : Bool) (lockOwner : Option ℕ) : M O Unit := do
  fileOperation handle
  writing handle do
    let quiet ← Call.read fun s => match s.handles.find handle with
      | some opened => !opened.access.canWrite && !opened.usedLocks
      | none => false
    if quiet then do
      let opened ← takeFileHandle handle
      spawn (remoteQuietly (.closeFile opened.remote))
      forgetInodes [(opened.inode, 0)]
    else releaseWritten handle flush lockOwner

/-! ## Extended attributes -/

def xattrSizeAsync (inode : ℕ) (name : Name) : M O ℕ := do
  let capabilities ← capabilitiesAsync
  ensure capabilities.supportsXattrs .unsupported
  let record ← inodeRecord inode
  let known ← knownMetadataRevision record.node
  let cached ← cachedXattrs record.node
  ensure (cached.all fun cached => cached.names.contains name) noAttributeError
  match cached.bind fun cached => cached.sizes.find name with
  | some size => pure size
  | none => do
    let read ← remote (.getXattr record.node name 0 0)
    ensure (decide (read.totalSize ≤ maxFuseXattrSize)) (.requestTooLarge maxFuseXattrSize)
    Call.modify fun s =>
      s.rememberXattrSize record.node (known.getD 0) name read.totalSize
    pure read.totalSize

/-- The loop of `get_xattr_async`. -/
def readXattrChunks (node : NodeId) (name : Name) (chunk totalSize : ℕ) :
    ℕ → List UInt8 → M O (List UInt8)
  | 0, value => pure value
  | rounds + 1, value =>
    if value.length < totalSize then do
      let amount := min (totalSize - value.length) chunk
      let read ← remote (.getXattr node name value.length amount)
      ensure (decide (read.totalSize = totalSize ∧ read.data.length = amount)) .unexpectedReadLength
      readXattrChunks node name chunk totalSize rounds (value ++ read.data)
    else pure value

/-- The size of an attribute, and what was read of it to find that out. -/
def firstXattrChunk (node : NodeId) (name : Name) (chunk : ℕ) (knownSize : Option ℕ) :
    M O (ℕ × List UInt8) :=
  match knownSize with
  | some totalSize => pure (totalSize, [])
  | none => do
    let first ← remote (.getXattr node name 0 chunk)
    ensure (decide (first.data.length = min first.totalSize chunk)) .unexpectedReadLength
    pure (first.totalSize, first.data)

def getXattrAsync (inode : ℕ) (name : Name) : M O (List UInt8) := do
  let capabilities ← capabilitiesAsync
  ensure capabilities.supportsXattrs .unsupported
  let record ← inodeRecord inode
  let chunk := min capabilities.maxReadSize maxClientReadSize
  ensure (decide (chunk ≠ 0)) .invalidCapabilities
  let known ← knownMetadataRevision record.node
  let cached ← cachedXattrs record.node
  ensure (cached.all fun cached => cached.names.contains name) noAttributeError
  match cached.bind fun cached => cached.values.find name with
  | some value => pure value
  | none => do
    let (totalSize, start) ← firstXattrChunk record.node name chunk
      (cached.bind fun cached => cached.sizes.find name)
    ensure (decide (totalSize ≤ maxFuseXattrSize)) (.requestTooLarge maxFuseXattrSize)
    let value ← readXattrChunks record.node name chunk totalSize totalSize start
    Call.modify fun s => s.rememberXattrValue record.node (known.getD 0) name value
    pure value

/-- The loop of `set_xattr_async`, over the bytes that are left. -/
def writeXattrChunks (node : NodeId) (name : Name) (chunk position : ℕ) :
    ℕ → ℕ → XattrSetMode → List UInt8 → M O Unit
  | 0, _, _, _ => pure ()
  | rounds + 1, consumed, mode, value =>
    if value.isEmpty then pure ()
    else
      if position + consumed < 2 ^ 32 then do
        remote (.setXattr node name (value.take chunk) mode (position + consumed))
        writeXattrChunks node name chunk position rounds (consumed + (value.take chunk).length) .replace
          (value.drop chunk)
      else Call.throw .invalidRange

def setXattrAsync (inode : ℕ) (name : Name) (value : List UInt8) (mode : XattrSetMode)
    (position : ℕ) : M O Unit := do
  let capabilities ← requireWritable
  ensure capabilities.supportsXattrs .unsupported
  ensure (decide (value.length ≤ maxFuseXattrSize)) (.requestTooLarge maxFuseXattrSize)
  let chunk := min capabilities.maxWriteSize maxClientWriteSize
  ensure (decide (chunk ≠ 0)) .invalidCapabilities
  let record ← inodeRecord inode
  if value.isEmpty then remote (.setXattr record.node name [] mode position)
  else writeXattrChunks record.node name chunk position value.length 0 mode value
  invalidateNodeViews record.node

def listXattrsAsync (inode : ℕ) : M O (List Name) := do
  let capabilities ← capabilitiesAsync
  ensure capabilities.supportsXattrs .unsupported
  let record ← inodeRecord inode
  match ← cachedXattrs record.node with
  | some cached => pure cached.names
  | none => do
    let known ← knownMetadataRevision record.node
    let names ← remote (.listXattrs record.node)
    rememberXattrSnapshot record.node (known.getD 0) ⟨names, []⟩
    pure names

def removeXattrAsync (inode : ℕ) (name : Name) : M O Unit := do
  let capabilities ← requireWritable
  ensure capabilities.supportsXattrs .unsupported
  let record ← inodeRecord inode
  remote (.removeXattr record.node name)
  invalidateNodeViews record.node

/-! ## The volume -/

def mapBlockAsync (inode blockSize block : ℕ) : M O ℕ := do
  let capabilities ← capabilitiesAsync
  ensure capabilities.supportsBmap .unsupported
  let record ← inodeRecord inode
  remote (.mapBlock record.node blockSize block)

def setVolumeNameAsync (name : Name) : M O Unit := do
  let capabilities ← requireWritable
  ensure capabilities.supportsVolumeRename .unsupported
  match String.fromUTF8? ⟨name.toArray⟩ with
  | none => Call.throw .invalidName
  | some cachedName => do
    remote (.setVolumeName name)
    Call.modify fun s => { s with
      capabilities := s.capabilities.map fun capabilities =>
        { capabilities with volumeName := cachedName } }

/-- The task that `statfs_async` leaves behind. -/
def refreshStats : M O Unit := do
  match ← attempt (remote .statFilesystem) with
  | .ok statistics =>
    Call.modify fun s => { s with filesystemStats := some (s.clock, statistics) }
  | .error _ => pure ()
  Call.modify fun s => { s with filesystemStatsRefreshing := false }

def statfsAsync : M O FilesystemStats := do
  match ← Call.read fun s => (s.filesystemStats, s.clock) with
  | (some (fetchedAt, statistics), clock) =>
    if clock - fetchedAt ≥ filesystemStatsTtl then do
      let refreshing ← access (fun _ => true)
        (fun s => { s with filesystemStatsRefreshing := true })
        fun s => s.filesystemStatsRefreshing
      if refreshing then pure () else spawn refreshStats
      pure statistics
    else pure statistics
  | (none, _) => do
    let statistics ← remote .statFilesystem
    Call.modify fun s => { s with filesystemStats := some (s.clock, statistics) }
    pure statistics

/-- The loop of `destroy_mount` over the files that were open. -/
def closeAll (operations : List ℕ) : List (ℕ × FileHandle) → M O Unit
  | [] => pure ()
  | (handle, file) :: rest => do
    spawn (if operations.contains handle then writing handle (remoteQuietly (.closeFile file))
      else remoteQuietly (.closeFile file))
    closeAll operations rest

def destroyMount : M O Unit := do
  let handles ← access (fun _ => true) (fun s => { s with handles := [] })
    fun s => s.handles.map fun entry => (entry.1, entry.2.remote)
  let operations ← access (fun _ => true)
    (fun s => { s with handleOperations := [] }) fun s => s.handleOperations
  Call.modify fun s => { s with directoryHandles := [] }
  Call.modify fun s => { s with discoveredDirectories := fun _ => none }
  Call.modify fun s => { s with discoveredXattrs := fun _ => none }
  Call.modify fun s => { s with directoryOperations := fun _ => none }
  closeAll operations handles

/-! ## The program -/

def operation : (call : AdapterCall) → M O call.Output
  | .lookup parentInode name => lookupAsync config parentInode name
  | .getattr inode => getattrAsync inode
  | .readdir inode => readdirAsync config inode
  | .opendir inode => opendirAsync config inode
  | .releasedir handle => releasedir handle
  | .fillDirectory inode handle requestedOffset room =>
    fillDirectory inode handle requestedOffset room
  | .fillDirectoryPlus inode handle requestedOffset room =>
    fillDirectoryPlus inode handle requestedOffset room
  | .openFile inode options => openAsync inode options
  | .createFile parentInode name mode options => createFileAsync parentInode name mode options
  | .createDirectory parentInode name mode => createDirectoryAsync parentInode name mode
  | .createSymlink parentInode name target => createSymlinkAsync parentInode name target
  | .readlink inode => readlinkAsync inode
  | .createHardLink inode newParentInode newName =>
    createHardLinkAsync inode newParentInode newName
  | .createSpecialNode parentInode name kind mode deviceMajor deviceMinor =>
    createSpecialNodeAsync parentInode name kind mode deviceMajor deviceMinor
  | .remove parentInode name directory => removeAsync parentInode name directory
  | .rename parentInode name newParentInode newName mode =>
    renameAsync parentInode name newParentInode newName mode
  | .setattr inode handle changes => setattrAsync inode handle changes
  | .read handle offset length => readAsync handle offset length
  | .write handle offset data => writeAsync handle offset data
  | .flush handle lockOwner => flushAsync handle lockOwner
  | .fsync handle dataOnly => fsyncAsync handle dataOnly
  | .fsyncdir inode handle => fsyncdirAsync inode handle
  | .allocate handle offset length => allocateAsync handle offset length
  | .copyFileRange inputHandle inputOffset outputHandle outputOffset length =>
    copyFileRangeAsync inputHandle inputOffset outputHandle outputOffset length
  | .lseek handle offset whence => lseekAsync handle offset whence
  | .safeIoctl handle operation => safeIoctlAsync handle operation
  | .mapBlock inode blockSize block => mapBlockAsync inode blockSize block
  | .exchangeData parentInode name newParentInode newName options =>
    exchangeDataAsync parentInode name newParentInode newName options
  | .setVolumeName name => setVolumeNameAsync name
  | .getLock handle lock => getLockAsync handle lock
  | .setLock handle lock wait => setLockAsync handle lock wait
  | .statfs => statfsAsync
  | .xattrSize inode name => xattrSizeAsync inode name
  | .getXattr inode name => getXattrAsync inode name
  | .setXattr inode name value mode position => setXattrAsync inode name value mode position
  | .listXattrs inode => listXattrsAsync inode
  | .removeXattr inode name => removeXattrAsync inode name
  | .release handle flush lockOwner => releaseAsync handle flush lockOwner
  | .forgetInodes requests => forgetInodes requests
  | .destroyMount => destroyMount

/-- Time passes, in one step. -/
def tick (elapsed : ℕ) : M O Unit :=
  Call.modify fun s => { s with clock := s.clock + elapsed }

/-- Any number of concurrent calls of one adapter. -/
def program (O : Outside) (config : Config) : Program (sig O) where
  code
    | .call call, _ => (operation config call).toTask fun r => some ⟨call, r⟩
    | .tick elapsed, _ => (tick elapsed).toTask fun _ => none
  serve := O.serve

end Program

end QuickFS.Adapter
