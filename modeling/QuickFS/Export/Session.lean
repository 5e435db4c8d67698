import QuickFS.Export.Xattrs

/-!
# The requests of a session

`ExportSession`, request by request.  Each is a program over the export's state that asks the host.
What a request has acquired before it fails is dropped (`releasing`): the permit of a handle, and
the two of a node that was to be created.

Requests on one file are ordered by gates in the source; here they are not, so that there are more
interleavings than there really are.  The entries of a directory are scanned one after another, and
the table of advisory locks is the subject of `QuickFS.Server.Posix`: of a lock request there is
only what it checks.
-/

namespace QuickFS.Export

open Server Async
open Call (ofExcept attempt)

variable {F : Frame}

/-! ## Permission and handles -/

section Requests

variable (config : Config) (i : ℕ)

/-- `can_write`. -/
def canWrite (s : State) : Bool := config.writable && (s.session i).writeAuthorized

/-- `require_writable`. -/
def requireWritable : Run F Unit := do
  let allowed ← Call.read (canWrite config i)
  if allowed then pure () else Call.throw .readOnly

/-- `open_handle`. -/
def openHandle (handle : FileHandle) : Run F OpenFile := do
  let opened ← Call.read fun s => (s.session i).handles.find handle
  match opened with
  | some opened => pure opened
  | none => Call.throw .invalidHandle

/-- A handle that is not in use: new identifiers are drawn until there is one. -/
def freeHandle (handles : Entries FileHandle OpenFile) (uuid : Uuid) : FileHandle :=
  (((List.range (handles.length + 1)).map (uuid + ·)).find? fun handle =>
    (handles.find handle).isNone).getD uuid

/-- A handle is added. -/
def addHandle (uuid : Uuid) (opened : OpenFile) (s : State) :
    Except ServerError FileHandle × State :=
  let session := s.session i
  let handle := freeHandle session.handles uuid
  (.ok handle, s.setSession i { session with handles := session.handles.insert handle opened })

/-- `insert_handle`. -/
def insertHandle (opened : OpenFile) : Run F FileHandle := do
  let uuid ← host .newUuid
  atomically (addHandle i uuid opened)

/-- `try_acquire_owned` of the permits of handles. -/
def takeHandlePermit (s : State) : Except ServerError Unit × State :=
  if s.handlePermits = 0 then (.error .tooManyHandles, s)
  else (.ok (), { s with handlePermits := s.handlePermits - 1 })

/-- A permit of a handle is dropped. -/
def dropHandlePermit (s : State) : State := { s with handlePermits := s.handlePermits + 1 }

/-- The two permits of a node are dropped. -/
def dropNodePermits (s : State) : State := (s.dropSessionPermit i).dropNodePermit

/-- `handles.remove` in `close`. -/
def removeHandle (handle : FileHandle) (s : State) : Except ServerError Unit × State :=
  let session := s.session i
  match session.handles.find handle with
  | none => (.error .invalidHandle, s)
  | some _ => (.ok (), dropHandlePermit
      (s.setSession i { session with handles := session.handles.erase handle }))

/-- `close`, but for the locks. -/
def close (handle : FileHandle) : Run F Unit := atomically (removeHandle i handle)

/-! ## Looking at nodes -/

/-- `open_xattr_file`. -/
def openXattrFile (snapshot : NodeSnapshot) : Run F Fd := do
  let stat ← pathStat snapshot
  match stat with
  | none => Call.throw .notFound
  | some stat => do
    let kind ← ofExcept stat.nodeKindFromMode
    if kind = .symlink then Call.throw .notSupported
    else do
      let flags := if kind = .directory then OFlags.rdonlyDirectory else OFlags.rdonlyNonblock
      let (file, _, _) ← openSnapshot snapshot flags none
      pure file

/-- `read_backup_time`. -/
def readBackupTime (snapshot : NodeSnapshot) : Run F (Option ℕ) := do
  let outcome ← attempt (openXattrFile snapshot)
  match outcome with
  | .ok file => readFdBackupTime file
  | .error .notSupported => pure none
  | .error error => Call.throw error

/-- `metadata`. -/
def metadata (node : NodeId) : Run F Metadata := do
  let snapshot ← nodeSnapshot config i node
  let stat ← pathStat snapshot
  match stat with
  | none => Call.throw .notFound
  | some stat => do
    let metadata ← ofExcept (toMetadataFromStat config.digests node stat)
    let backup ← backupTimeOrNone (readBackupTime snapshot)
    enrichResourceForkRevision config node { metadata with backupUnixMs := backup }

/-- The directory a request is about, and its path. -/
def openParentNode (parent : NodeId) : Run F (Fd × PathBuf) := do
  let snapshot ← nodeSnapshot config i parent
  let (directory, path, _) ← openSnapshot snapshot .rdonlyDirectory (some .directory)
  pure (directory, path)

/-! ## Listings -/

/-- `MAX_DIRECTORY_ENTRIES`. -/
def maxDirectoryEntries : ℕ := 1024 * 1024

/-- `DirectoryViewOptions::METADATA_ONLY`. -/
def metadataOnly : DirectoryViewOptions := ⟨false, 0, 0⟩

/-- `validate_directory_view_options`. -/
def validateDirectoryViewOptions (options : DirectoryViewOptions) : Except ServerError Unit :=
  if options.inlineXattrSize > 4 * 1024 ∨ options.inlineXattrTotalSize > 256 * 1024 ∨
      (options.includeXattrs = false ∧
        (options.inlineXattrSize ≠ 0 ∨ options.inlineXattrTotalSize ≠ 0)) then
    .error (.invalidRequest "directory xattr projection exceeds the protocol budget")
  else .ok ()

/-- The names that a directory yields, without `.` and `..`. -/
def entryNames : ℕ → List (Except Errno Name) → Except ServerError (List Name)
  | _, [] => .ok []
  | _, .error errno :: _ => .error (fromErrno errno)
  | count, .ok name :: rest =>
    if name = [46] ∨ name = [46, 46] then entryNames count rest
    else if count ≥ maxDirectoryEntries then .error .directoryTooLarge
    else (entryNames (count + 1) rest).map (name :: ·)

structure PreparedDirectoryScan where
  directory : Fd
  relative : PathBuf
  before : Stat
  names : List Name

/-- `prepare_directory_scan`. -/
def prepareDirectoryScan (root : Fd) (snapshot : NodeSnapshot) : Run F PreparedDirectoryScan := do
  let (directory, relative, before) ←
    openNodeSnapshot root snapshot .rdonlyDirectory (some .directory)
  let stream ← system (.readdir directory false) id
  let names ← ofExcept (entryNames 0 stream)
  pure ⟨directory, relative, before, names⟩

structure ScannedDirectoryEntry where
  identity : FileIdentity
  relative : PathBuf
  entry : DirectoryEntry
  xattrs : Option XattrSnapshot

/-- `open_directory_entry_for_xattrs`. -/
def openDirectoryEntryForXattrs (directory : Fd) (name : Name) (kind : NodeKind) : Run F Fd :=
  let flags := if kind = .directory then OFlags.rdonlyDirectory else OFlags.rdonlyNonblock
  system (.openat directory name { flags with nofollow := true } 0) id

/-- The attributes of an entry, if they are asked for and can be read. -/
def scanXattrs (directory : Fd) (name : Name) (metadata : Metadata)
    (options : DirectoryViewOptions) (remaining : ℕ) :
    Run F (Metadata × Option XattrSnapshot × ℕ) :=
  if options.includeXattrs && decide (metadata.kind ≠ .symlink) then do
    let opened ← attempt (openDirectoryEntryForXattrs directory name metadata.kind)
    match opened with
    | .error _ => pure (metadata, none, remaining)
    | .ok file => do
      let backup ← backupTimeOrNone (readFdBackupTime file)
      let snapshot ← attempt
        (xattrSnapshotForOpenFile config file metadata.node options.inlineXattrSize remaining)
      let after ← system (.fstat file) id
      if after.revision config.digests ≠ metadata.revision then Call.throw .conflict
      else
        match snapshot with
        | .ok (xattrs, left) =>
          pure ({ metadata with backupUnixMs := backup }, some xattrs, left)
        | .error _ => pure ({ metadata with backupUnixMs := backup }, none, remaining)
  else pure (metadata, none, remaining)

/-- `scan_directory_entry`, with what is left of the budget. -/
def scanDirectoryEntry (directory : Fd) (parent : PathBuf) (options : DirectoryViewOptions)
    (name : Name) (remaining : ℕ) : Run F (ScannedDirectoryEntry × ℕ) := do
  let stat ← system (.statat directory name) id
  let node := config.digests.stableNodeId stat.identity
  let kind ← ofExcept stat.nodeKindFromMode
  let metadata ← ofExcept (toMetadataFromStat config.digests node stat)
  let (metadata, xattrs, left) ← scanXattrs config directory name metadata options remaining
  let metadata ← enrichResourceForkRevision config node metadata
  pure (⟨stat.identity, parent ++ [name], ⟨node, name, kind, metadata⟩, xattrs⟩, left)

/-- The entries of a directory, one after another. -/
def scanEntries (directory : Fd) (parent : PathBuf) (options : DirectoryViewOptions) :
    List Name → ℕ → Run F (List ScannedDirectoryEntry × ℕ)
  | [], remaining => pure ([], remaining)
  | name :: rest, remaining => do
    let (entry, remaining) ← scanDirectoryEntry config directory parent options name remaining
    let (entries, remaining) ← scanEntries directory parent options rest remaining
    pure (entry :: entries, remaining)

/-- An entry with the node it is remembered as. -/
def ScannedDirectoryEntry.named (scanned : ScannedDirectoryEntry) (node : NodeId) :
    ScannedDirectoryEntry :=
  { scanned with entry := { scanned.entry with
      node := node, metadata := { scanned.entry.metadata with node := node } } }

/-- The entries are remembered. -/
def rememberEntries : List ScannedDirectoryEntry → Run F (List ScannedDirectoryEntry)
  | [] => pure []
  | scanned :: rest => do
    let node ← remember config i scanned.identity scanned.relative
    let others ← rememberEntries rest
    pure (scanned.named node :: others)

/-- `scan_directory`: the revision, the scan, its entries and what is left of the budget. -/
def scanDirectory (node : NodeId) (options : DirectoryViewOptions) (remaining : ℕ) :
    Run F (DirectoryRevision × PreparedDirectoryScan × List ScannedDirectoryEntry × ℕ) := do
  let snapshot ← nodeSnapshot config i node
  let root ← system (.dup rootFile) id
  let prepared ← prepareDirectoryScan root snapshot
  let (entries, left) ←
    scanEntries config prepared.directory prepared.relative options prepared.names remaining
  let after ← system (.fstat prepared.directory) id
  if prepared.before.revision config.digests ≠ after.revision config.digests then
    Call.throw .conflict
  else do
    let entries ← rememberEntries config i entries
    pure (after.revision config.digests, prepared,
      entries.insertionSort (fun a b => a.entry.name ≤ b.entry.name), left)

/-- `list_with_revision`. -/
def listWithRevision (node : NodeId) : Run F (DirectoryRevision × List DirectoryEntry) := do
  let (revision, _, entries, _) ← scanDirectory config i node metadataOnly 0
  pure (revision, entries.map (·.entry))

/-- The loop of `list_with_revision_blocking`. -/
def listEntries (directory : Fd) (relative : PathBuf) :
    ℕ → List (Except Errno Name) → Run F (List DirectoryEntry)
  | _, [] => pure []
  | _, .error errno :: _ => Call.throw (fromErrno errno)
  | count, .ok name :: rest =>
    if name = [46] ∨ name = [46, 46] then listEntries directory relative count rest
    else do
      let stat ← system (.statat directory name) id
      let kind ← ofExcept stat.nodeKindFromMode
      if count ≥ maxDirectoryEntries then Call.throw .directoryTooLarge
      else do
        let node ← remember config i stat.identity (relative ++ [name])
        let metadata ← ofExcept (toMetadataFromStat config.digests node stat)
        let metadata ← enrichResourceForkRevision config node metadata
        let others ← listEntries directory relative (count + 1) rest
        pure (⟨node, name, kind, metadata⟩ :: others)

/-- `list_with_revision_blocking`. -/
def listWithRevisionBlocking (node : NodeId) :
    Run F (DirectoryRevision × List DirectoryEntry) := do
  let snapshot ← nodeSnapshot config i node
  let (directory, relative, before) ← openSnapshot snapshot .rdonlyDirectory (some .directory)
  let stream ← system (.readdir directory false) id
  let discovered ← listEntries config i directory relative 0 stream
  let after ← system (.fstat directory) id
  if before.revision config.digests ≠ after.revision config.digests then Call.throw .conflict
  else pure (after.revision config.digests, discovered.insertionSort fun a b => a.name ≤ b.name)

/-- The metadata of the parent in a view. -/
def parentMetadata (relative : PathBuf) (directory : Metadata) : Run F Metadata :=
  if relative = [] then pure directory
  else do
    let root ← system (.dup rootFile) id
    let stat ← secureLstat root relative.dropLast
    let node := config.digests.stableNodeId stat.identity
    let metadata ← ofExcept (toMetadataFromStat config.digests node stat)
    let metadata ← enrichResourceForkRevision config node metadata
    let remembered ← remember config i stat.identity relative.dropLast
    pure { metadata with node := remembered }

/-- The attributes of the directory itself in a view. -/
def viewXattrs (directory : Fd) (node : NodeId) (options : DirectoryViewOptions)
    (remaining : ℕ) : Run F (Option XattrSnapshot) :=
  if options.includeXattrs then do
    let (xattrs, _) ←
      xattrSnapshotForOpenFile config directory node options.inlineXattrSize remaining
    pure (some xattrs)
  else pure none

/-- `directory_view`. -/
def directoryView (node : NodeId) (options : DirectoryViewOptions) : Run F DirectoryView := do
  ofExcept (validateDirectoryViewOptions options)
  let (revision, prepared, entries, left) ←
    scanDirectory config i node options options.inlineXattrTotalSize
  let backup ← backupTimeOrNone (readFdBackupTime prepared.directory)
  let directory ← enrichResourceForkRevision config node
    { toMetadata config.digests node prepared.before with backupUnixMs := backup }
  let xattrs ← viewXattrs config prepared.directory node options left
  let parent ← parentMetadata config i prepared.relative directory
  let final ← system (.fstat prepared.directory) id
  if final.revision config.digests ≠ revision then Call.throw .conflict
  else pure ⟨revision, directory, parent, xattrs, entries.map fun e => ⟨e.entry, e.xattrs⟩⟩

/-! ## Opening and creating -/

/-- `open`. -/
def openNode (node : NodeId) (options : FileOpenOptions) : Run F (FileHandle × FileRevision × ℕ) := do
  let writable ← Call.read (canWrite config i)
  ofExcept (validateOpenOptions options writable)
  atomically takeHandlePermit
  releasing dropHandlePermit do
    let snapshot ← nodeSnapshot config i node
    let (file, _, _) ← openSnapshot snapshot (.openFlags options.access options.append) (some .file)
    provided options.truncate (system (.setLen file 0) id)
    let metadata ← system (.fstat file) id
    let handle ← insertHandle i ⟨file, node, snapshot.identity, options.access, options.append⟩
    pure (handle, metadata.revision config.digests, metadata.size)

/-- The file of `create_file`: its descriptor, its path and its metadata. -/
def makeFile (parent : NodeId) (name : Name) (mode : ℕ) (options : FileOpenOptions) :
    Run F (Fd × PathBuf × Stat) := do
  let (directory, path) ← openParentNode config i parent
  let file ← system (.openat directory name
    { OFlags.openFlags options.access options.append with
      create := true, excl := true, nofollow := true } (mode % 4096)) id
  let metadata ← system (.fstat file) id
  pure (file, path ++ [name], metadata)

/-- `create_file`. -/
def createFile (parent : NodeId) (name : Name) (mode : ℕ) (options : FileOpenOptions) :
    Run F (Metadata × FileHandle × FileRevision × ℕ) := do
  requireWritable config i
  ofExcept (validateName name)
  ofExcept (validateOpenOptions options true)
  atomically takeHandlePermit
  releasing dropHandlePermit do
    reserveNode config i
    let (file, path, metadata) ←
      releasing (dropNodePermits i) (makeFile config i parent name mode options)
    let node ← rememberReserved config i metadata.identity path
    let handle ← insertHandle i ⟨file, node, metadata.identity, options.access, options.append⟩
    pure (toMetadata config.digests node metadata, handle, metadata.revision config.digests,
      metadata.size)

/-- The directory of `create_directory`: its path and its metadata. -/
def makeDirectory (parent : NodeId) (name : Name) (mode : ℕ) : Run F (PathBuf × Stat) := do
  let (directory, path) ← openParentNode config i parent
  system (.mkdirat directory name (mode % 4096)) id
  let (_, _, metadata) ← openRelative rootFile (path ++ [name]) .rdonlyDirectory
  pure (path ++ [name], metadata)

/-- `create_directory`. -/
def createDirectory (parent : NodeId) (name : Name) (mode : ℕ) : Run F Metadata := do
  requireWritable config i
  ofExcept (validateName name)
  reserveNode config i
  let (path, metadata) ← releasing (dropNodePermits i) (makeDirectory config i parent name mode)
  let node ← rememberReserved config i metadata.identity path
  pure (toMetadata config.digests node metadata)

/-- What `create_symlink` and `create_special_node` make: its path and its metadata. -/
def makeNode (parent : NodeId) (name : Name) (make : Fd → HostCall)
    (read : (directory : Fd) → (make directory).Answer → Except Errno Unit) :
    Run F (PathBuf × Stat) := do
  let (directory, path) ← openParentNode config i parent
  system (make directory) (read directory)
  let stat ← secureLstat rootFile (path ++ [name])
  pure (path ++ [name], stat)

/-- `create_symlink`. -/
def createSymlink (parent : NodeId) (name : Name) (target : Bytes) : Run F Metadata := do
  requireWritable config i
  ofExcept (validateName name)
  ofExcept (validateSymlinkTarget target)
  reserveNode config i
  let (path, stat) ← releasing (dropNodePermits i)
    (makeNode config i parent name (.symlinkat target · name) fun _ => id)
  let node ← rememberReserved config i stat.identity path
  metadata config i node

/-- `create_special_node`. -/
def createSpecialNode (parent : NodeId) (name : Name) (kind : SpecialNodeKind)
    (mode deviceMajor deviceMinor : ℕ) : Run F Metadata := do
  requireWritable config i
  ofExcept (validateName name)
  reserveNode config i
  let (path, stat) ← releasing (dropNodePermits i)
    (makeNode config i parent name
      (.mknodat · name kind (mode % 4096) deviceMajor deviceMinor) fun _ => id)
  let node ← rememberReserved config i stat.identity path
  metadata config i node

/-- The loop of `create_hard_link` over the paths of the source. -/
def linkFrom (node : NodeId) (source : NodeSnapshot) (directory : Fd) (newPath : PathBuf)
    (newName : Name) : List PathBuf → Run F Metadata
  | [] => Call.throw .notFound
  | path :: rest =>
    if path = [] then Call.throw .permissionDenied
    else do
      let outcome ← attempt (secureLstat rootFile path)
      match outcome with
      | .error _ => linkFrom node source directory newPath newName rest
      | .ok stat =>
        if stat.identity ≠ source.identity then
          linkFrom node source directory newPath newName rest
        else do
          let kind ← ofExcept stat.nodeKindFromMode
          if kind = .directory then Call.throw .permissionDenied
          else do
            let (parent, name) ← openParent rootFile path
            system (.linkat parent name directory newName) id
            let _ ← remember config i source.identity newPath
            metadata config i node

/-- `create_hard_link`. -/
def createHardLink (node newParent : NodeId) (newName : Name) : Run F Metadata := do
  requireWritable config i
  ofExcept (validateName newName)
  let source ← nodeSnapshot config i node
  let (directory, path) ← openParentNode config i newParent
  linkFrom config i node source directory (path ++ [newName]) newName source.paths

/-! ## Removing and renaming -/

/-- `remove_node`. -/
def removeNode (parent : NodeId) (name : Name) (directory : Bool) : Run F Unit := do
  requireWritable config i
  ofExcept (validateName name)
  let (parentFile, path) ← openParentNode config i parent
  let stat ← system (.statat parentFile name) id
  let kind ← ofExcept stat.nodeKindFromMode
  if directory && decide (kind ≠ .directory) then Call.throw .notDirectory
  else if !directory && decide (kind = .directory) then Call.throw .isDirectory
  else do
    system (.unlinkat parentFile name directory) id
    atomically (removeRegistryPath (path ++ [name]) directory)
    provided (decide (stat.linkCount ≤ 1) && config.persistent) do
      let _ ← attempt
        (removeResourceFork (config.digests.stableNodeId stat.identity) : Run F Unit)
      pure ()

/-- The identity of what a name stands for, if there is anything. -/
def destinationIdentity (directory : Fd) (name : Name) : Run F (Option FileIdentity) := do
  let answer ← host (.statat directory name)
  match answer with
  | .ok stat => pure (some stat.identity)
  | .error .noent => pure none
  | .error errno => Call.throw (fromErrno errno)

/-- `rename_node`. -/
def renameNode (parent : NodeId) (name : Name) (newParent : NodeId) (newName : Name)
    (mode : RenameMode) : Run F Unit := do
  requireWritable config i
  ofExcept (validateName name)
  ofExcept (validateName newName)
  let oldSnapshot ← nodeSnapshot config i parent
  let newSnapshot ← nodeSnapshot config i newParent
  let (oldDirectory, oldPath, _) ← openSnapshot oldSnapshot .rdonlyDirectory (some .directory)
  let (newDirectory, newPath, _) ← openSnapshot newSnapshot .rdonlyDirectory (some .directory)
  let source ← system (.statat oldDirectory name) id
  let destination ← destinationIdentity newDirectory newName
  system (.renameat oldDirectory name newDirectory newName mode) id
  atomically (updateRegistryAfterRename (oldPath ++ [name]) (newPath ++ [newName]) mode
    source.identity destination)

/-! ## Links and attributes -/

/-- The loop of `read_link`. -/
def readLinkFrom (snapshot : NodeSnapshot) : List PathBuf → Run F Bytes
  | [] => Call.throw .notFound
  | path :: rest => do
    let outcome ← attempt (secureLstat rootFile path)
    match outcome with
    | .error _ => readLinkFrom snapshot rest
    | .ok stat =>
      if stat.identity ≠ snapshot.identity then readLinkFrom snapshot rest
      else do
        let kind ← ofExcept stat.nodeKindFromMode
        if kind ≠ .symlink then readLinkFrom snapshot rest
        else do
          let (parent, name) ← openParent rootFile path
          let target ← system (.readlinkat parent name) id
          ofExcept (validateSymlinkTarget target)
          pure target

/-- `read_link`. -/
def readLink (node : NodeId) : Run F Bytes := do
  let snapshot ← nodeSnapshot config i node
  readLinkFrom snapshot snapshot.paths

/-- What `get_xattr` reads of a node whose file can be opened. -/
def readXattr (node : NodeId) (name : Name) (offset length : ℕ) (openFile : Run F Fd) :
    Run F (ℕ × Bytes) :=
  if isResourceFork name && config.persistent then readResourceForkRange node offset length
  else do
    let file ← openFile
    let hostName ← ofExcept (logicalXattrName name)
    let value ← readFdXattr file hostName maxXattrSize
    pure (value.length, (value.drop offset).take length)

/-- `get_xattr`: the length of the value, and a part of it. -/
def getXattr (node : NodeId) (name : Name) (offset length : ℕ) : Run F (ℕ × Bytes) := do
  ofExcept (validateXattrName name)
  ofExcept (validateRange offset length config.limits.maxReadSize)
  let snapshot ← nodeSnapshot config i node
  readXattr config node name offset length (openXattrFile snapshot)

/-- `list_xattrs`. -/
def listXattrs (node : NodeId) : Run F (List Name) := do
  let snapshot ← nodeSnapshot config i node
  let file ← openXattrFile snapshot
  listXattrNames config file node

/-- The bytes of `old` with those from `position` on replaced by `value`, and zeros where there was
nothing. -/
def overwrite (old : Bytes) (position : ℕ) (value : Bytes) : Bytes :=
  (old ++ List.replicate (position - old.length) 0).take position ++ value ++
    old.drop (position + value.length)

/-- What `set_xattr` does with a value that is an attribute of the host. -/
def setHostXattr (file : Fd) (hostName : Name) (value : Bytes) (mode : XattrSetMode)
    (position : ℕ) : Run F Unit := do
  let existing ← optionalXattr file hostName
  ofExcept (validateSetMode mode existing.isSome)
  if position = 0 then system (.fsetxattr file hostName value) id
  else if position + value.length > maxXattrSize then
    Call.throw (.invalidRequest "extended attribute is too large")
  else system (.fsetxattr file hostName (overwrite (existing.getD []) position value)) id

/-- `set_xattr`. -/
def setXattr (node : NodeId) (name : Name) (value : Bytes) (mode : XattrSetMode)
    (position : ℕ) : Run F Unit := do
  requireWritable config i
  ofExcept (validateXattrName name)
  if value.length > maxXattrSize then
    Call.throw (.invalidRequest "extended attribute is too large")
  else do
    let snapshot ← nodeSnapshot config i node
    if isResourceFork name && config.persistent then writeResourceFork node value mode position
    else do
      let file ← openXattrFile snapshot
      let hostName ← ofExcept (logicalXattrName name)
      setHostXattr file hostName value mode position

/-- `remove_xattr`. -/
def removeXattr (node : NodeId) (name : Name) : Run F Unit := do
  requireWritable config i
  ofExcept (validateXattrName name)
  let snapshot ← nodeSnapshot config i node
  if isResourceFork name && config.persistent then removeResourceFork node
  else do
    let file ← openXattrFile snapshot
    let hostName ← ofExcept (logicalXattrName name)
    system (.fremovexattr file hostName) id

/-- What `set_path_attributes` does at a path that leads to the node. -/
def changeAt (path : PathBuf) (changes : AttributeChanges) : Run F Unit := do
  let (parent, name) ← openParent rootFile path
  optionally changes.mode fun mode => system (.chmodat parent name (mode % 4096)) id
  provided (changes.accessedUnixMs.isSome || changes.modifiedUnixMs.isSome)
    (system (.utimensat parent name changes.accessedUnixMs changes.modifiedUnixMs) id)

/-- The loop of `set_path_attributes`. -/
def setPathAttributes (identity : FileIdentity) (changes : AttributeChanges) :
    List PathBuf → Run F Unit
  | [] => Call.throw .notFound
  | path :: rest => do
    let outcome ← attempt (secureLstat rootFile path)
    match outcome with
    | .error _ => setPathAttributes identity changes rest
    | .ok stat =>
      if stat.identity ≠ identity then setPathAttributes identity changes rest
      else if changes.mode.isSome then do
        let kind ← ofExcept stat.nodeKindFromMode
        if kind = .symlink then Call.throw .notSupported else changeAt path changes
      else changeAt path changes

/-- A file is changed, with the time of its backup. -/
def changeFile (file : Fd) (changes : AttributeChanges) : Run F Stat := do
  let metadata ← applyFileChanges file changes
  writeBackupTime file changes.backupUnixMs
  pure metadata

/-- The time of the last backup: the one that was set, or what the file says. -/
def backupAfter (file : Fd) (requested : Option ℕ) : Run F (Option ℕ) :=
  match requested with
  | some time => pure (some time)
  | none => backupTimeOrNone (readFdBackupTime file)

/-- `set_attributes` through a handle. -/
def setHandleAttributes (node : NodeId) (handle : FileHandle) (changes : AttributeChanges) :
    Run F Metadata := do
  let opened ← openHandle i handle
  if opened.node ≠ node then
    Call.throw (.invalidRequest "attribute handle does not belong to the node")
  else if changes.size.isSome && !opened.access.canWrite then Call.throw .permissionDenied
  else do
    let stat ← changeFile opened.file changes
    let backup ← backupAfter opened.file changes.backupUnixMs
    pure { toMetadata config.digests node stat with backupUnixMs := backup }

/-- `set_attributes` without a handle. -/
def setNodeAttributes (node : NodeId) (changes : AttributeChanges) : Run F Metadata := do
  let snapshot ← nodeSnapshot config i node
  let flags := { OFlags.rdonly with
    access := if changes.size.isSome then .writeOnly else .readOnly }
  let opened ← attempt (openSnapshot snapshot flags none)
  match opened with
  | .ok (file, _, stat) =>
    if changes.size.isSome && decide (stat.nodeKind = .directory) then Call.throw .isDirectory
    else do
      let stat ← changeFile file changes
      pure { toMetadata config.digests node stat with backupUnixMs := changes.backupUnixMs }
  | .error error =>
    if changes.size.isSome then Call.throw error
    else do
      setPathAttributes snapshot.identity changes snapshot.paths
      metadata config i node

/-- `set_attributes`. -/
def setAttributes (node : NodeId) (handle : Option FileHandle) (changes : AttributeChanges) :
    Run F Metadata :=
  if changes = ⟨none, none, none, none, none⟩ then metadata config i node
  else do
    requireWritable config i
    match handle with
    | some handle => setHandleAttributes config i node handle changes
    | none => setNodeAttributes config i node changes

/-! ## Contents -/

/-- `read`. -/
def read (handle : FileHandle) (offset length : ℕ) : Run F (FileRevision × Bytes) := do
  ofExcept (validateRange offset length config.limits.maxReadSize)
  let opened ← openHandle i handle
  if opened.access.canRead then readConsistent config opened.file offset length
  else Call.throw .permissionDenied

/-- What a request that has changed a file says of it. -/
def changed (file : Fd) : Run F (FileRevision × ℕ) := do
  let metadata ← system (.fstat file) id
  pure (metadata.revision config.digests, metadata.size)

/-- `write_owned`. -/
def writeOwned (handle : FileHandle) (offset : ℕ) (data : Bytes) :
    Run F (ℕ × FileRevision × ℕ) := do
  requireWritable config i
  ofExcept (validateRange offset data.length config.limits.maxWriteSize)
  let opened ← openHandle i handle
  if opened.access.canWrite then do
    writeAllAt opened.file offset data opened.append
    let (revision, size) ← changed config opened.file
    pure (data.length, revision, size)
  else Call.throw .permissionDenied

/-- `flush`, but for the locks. -/
def flush (handle : FileHandle) : Run F Unit := do
  let _ ← openHandle i handle
  pure ()

/-- `sync`. -/
def sync (handle : FileHandle) (dataOnly : Bool) : Run F Unit := do
  let opened ← openHandle i handle
  system (.fsync opened.file dataOnly) id

/-- `sync_directory`. -/
def syncDirectory (node : NodeId) : Run F Unit := do
  let (directory, _) ← openParentNode config i node
  system (.fsync directory false) id

/-- `allocate`. -/
def allocate (handle : FileHandle) (offset length : ℕ) : Run F (FileRevision × ℕ) := do
  requireWritable config i
  if length = 0 ∨ checkedAdd offset length = none then
    Call.throw (.invalidRequest "invalid allocation range")
  else do
    let opened ← openHandle i handle
    if opened.access.canWrite then do
      system (.fallocate opened.file offset length) id
      changed config opened.file
    else Call.throw .permissionDenied

/-- `copy_file_range`. -/
def copyFileRange (input : FileHandle) (inputOffset : ℕ) (output : FileHandle)
    (outputOffset length : ℕ) : Run F (ℕ × FileRevision × ℕ) := do
  requireWritable config i
  if checkedAdd inputOffset length = none ∨ checkedAdd outputOffset length = none then
    Call.throw (.invalidRequest "copy range overflows the file-offset space")
  else do
    let input ← openHandle i input
    let output ← openHandle i output
    if input.access.canRead && output.access.canWrite then do
      let copied ← copyRangeServer input.file inputOffset output.file outputOffset length
      let (revision, size) ← changed config output.file
      pure (copied, revision, size)
    else Call.throw .permissionDenied

/-- `seek_file`. -/
def seekFile (handle : FileHandle) (offset : ℕ) (whence : SeekWhence) : Run F ℕ := do
  let opened ← openHandle i handle
  if opened.access.canRead then system (.seek opened.file offset whence) id
  else Call.throw .permissionDenied

/-- `safe_ioctl`. -/
def safeIoctl (handle : FileHandle) (operation : SafeIoctl) : Run F ℕ := do
  let opened ← openHandle i handle
  match operation with
  | .bytesAvailable =>
    if opened.access.canRead then do
      let metadata ← system (.fstat opened.file) id
      pure metadata.size
    else Call.throw .permissionDenied

/-- `map_block`. -/
def mapBlock (node : NodeId) (blockSize block : ℕ) : Run F ℕ :=
  if blockSize = 0 then Call.throw (.invalidRequest "block size must be nonzero")
  else if block * blockSize > u64Max then Call.throw (.invalidRequest "block offset overflow")
  else do
    let snapshot ← nodeSnapshot config i node
    let (file, _, _) ← openSnapshot snapshot .rdonly (some .file)
    let data ← system (.seek file (block * blockSize) .data) id
    if data < saturatingAdd (block * blockSize) blockSize then pure block else Call.throw .noData

/-! ## Exchanging -/

/-- A digit of a UUID. -/
def hexDigit (value : ℕ) : UInt8 := if value < 10 then .ofNat (48 + value) else .ofNat (87 + value)

/-- The digits of a UUID from the `start`th on. -/
def uuidDigits (uuid : Uuid) (start count : ℕ) : Name :=
  (List.range count).map fun k => hexDigit (uuid / 16 ^ (31 - (start + k)) % 16)

/-- The name of the temporary file: `.quickfs-exchange-` and a UUID. -/
def temporaryName (uuid : Uuid) : Name :=
  [46, 113, 117, 105, 99, 107, 102, 115, 45, 101, 120, 99, 104, 97, 110, 103, 101, 45] ++
    uuidDigits uuid 0 8 ++ 45 :: uuidDigits uuid 8 4 ++ 45 :: uuidDigits uuid 12 4 ++
    45 :: uuidDigits uuid 16 4 ++ 45 :: uuidDigits uuid 20 12

/-- An entry of a directory, by its name. -/
def findEntry (parent : NodeId) (name : Name) : Run F DirectoryEntry := do
  let (_, entries) ← listWithRevision config i parent
  match entries.find? fun entry => decide (entry.name = name) with
  | some entry => pure entry
  | none => Call.throw .notFound

/-- What `exchange_data` does in the end, on a blocking worker. -/
def exchangeFiles (leftFile rightFile temporary root : Fd) (name : Name) (left right : NodeId) :
    Run F Unit := do
  let result ← attempt do
    exchangeFileContents leftFile rightFile temporary
    provided config.persistent (exchangeResourceForks left right)
  let remove ← attempt (system (.unlinkat root name false) id)
  match result with
  | .error error => Call.throw error
  | .ok () => ofExcept remove

/-- The rest of `exchange_data`, once the two entries have been found. -/
def exchangeNodes (left right : NodeId) : Run F Unit := do
  let leftSnapshot ← nodeSnapshot config i left
  let rightSnapshot ← nodeSnapshot config i right
  let (leftFile, _, _) ← openSnapshot leftSnapshot (.openFlags .readWrite false) (some .file)
  let (rightFile, _, _) ← openSnapshot rightSnapshot (.openFlags .readWrite false) (some .file)
  let uuid ← host .newUuid
  let temporary ← system (.openat rootFile (temporaryName uuid)
    { OFlags.openFlags .readWrite false with create := true, excl := true } 0o600) id
  let root ← system (.dup rootFile) id
  exchangeFiles config leftFile rightFile temporary root (temporaryName uuid) left right

/-- `exchange_data`. -/
def exchangeData (parent : NodeId) (name : Name) (newParent : NodeId) (newName : Name)
    (options : ℕ) : Run F Unit := do
  requireWritable config i
  ofExcept (validateName name)
  ofExcept (validateName newName)
  if options ≠ 0 then Call.throw .notSupported
  else do
    let left ← findEntry config i parent name
    let right ← findEntry config i newParent newName
    if left.kind ≠ .file ∨ right.kind ≠ .file then
      Call.throw (.invalidRequest "exchangedata requires two regular files")
    else if left.node = right.node then pure ()
    else exchangeNodes config i left.node right.node

/-! ## The export as a whole -/

/-- What `set_volume_name` checks. -/
def validateVolumeName (name : Name) : Except ServerError Unit :=
  if ByteArray.validateUTF8 ⟨name.toArray⟩ = false then
    .error (.invalidRequest "volume name must be UTF-8")
  else if name.isEmpty || decide (name.length > 255) ||
      name.any (fun byte => [47, 58, 44, 0].contains byte) then
    .error (.invalidRequest "invalid volume name")
  else .ok ()

/-- `set_volume_name`. -/
def setVolumeName (name : Name) : Run F Unit := do
  requireWritable config i
  ofExcept (validateVolumeName name)
  provided config.persistent do
    let saved ← host (.saveExportRecord name)
    ofExcept saved
  Call.modify fun s => { s with volumeName := name }

/-- `stat_filesystem`. -/
def statFilesystem : Run F FilesystemStats := system .fstatvfs id

/-- What `get_lock` and `set_lock` check before they look at the table of locks. -/
def checkLock (handle : FileHandle) (requested : FileLock) (allowUnlock : Bool) : Run F Unit := do
  if requested.start > requested.stop ∨ (allowUnlock = false ∧ requested.kind = .unlock) then
    Call.throw (.invalidRequest "invalid advisory lock")
  else do
    provided (allowUnlock && decide (requested.kind = .write)) (requireWritable config i)
    let opened ← openHandle i handle
    match requested.kind with
    | .read => if opened.access.canRead then pure () else Call.throw .permissionDenied
    | .write => if opened.access.canWrite then pure () else Call.throw .permissionDenied
    | .unlock => pure ()

/-- `set_write_authorized`. -/
def setWriteAuthorized (authorized : Bool) (s : State) : State :=
  s.setSession i { s.session i with writeAuthorized := authorized }

end Requests

/-! ## Requests -/

inductive Request where
  | setWriteAuthorized (authorized : Bool)
  | statFilesystem
  | setVolumeName (name : Name)
  | forgetNodes (requested : List NodeId)
  | metadata (node : NodeId)
  | listWithRevision (node : NodeId)
  | listWithRevisionBlocking (node : NodeId)
  | directoryView (node : NodeId) (options : DirectoryViewOptions)
  | openNode (node : NodeId) (options : FileOpenOptions)
  | createFile (parent : NodeId) (name : Name) (mode : ℕ) (options : FileOpenOptions)
  | createDirectory (parent : NodeId) (name : Name) (mode : ℕ)
  | createSymlink (parent : NodeId) (name : Name) (target : Bytes)
  | createSpecialNode (parent : NodeId) (name : Name) (kind : SpecialNodeKind)
      (mode deviceMajor deviceMinor : ℕ)
  | createHardLink (node newParent : NodeId) (newName : Name)
  | removeNode (parent : NodeId) (name : Name) (directory : Bool)
  | renameNode (parent : NodeId) (name : Name) (newParent : NodeId) (newName : Name)
      (mode : RenameMode)
  | readLink (node : NodeId)
  | getXattr (node : NodeId) (name : Name) (offset length : ℕ)
  | listXattrs (node : NodeId)
  | setXattr (node : NodeId) (name : Name) (value : Bytes) (mode : XattrSetMode) (position : ℕ)
  | removeXattr (node : NodeId) (name : Name)
  | setAttributes (node : NodeId) (handle : Option FileHandle) (changes : AttributeChanges)
  | read (handle : FileHandle) (offset length : ℕ)
  | writeOwned (handle : FileHandle) (offset : ℕ) (data : Bytes)
  | flush (handle : FileHandle)
  | sync (handle : FileHandle) (dataOnly : Bool)
  | syncDirectory (node : NodeId)
  | allocate (handle : FileHandle) (offset length : ℕ)
  | copyFileRange (input : FileHandle) (inputOffset : ℕ) (output : FileHandle)
      (outputOffset length : ℕ)
  | seekFile (handle : FileHandle) (offset : ℕ) (whence : SeekWhence)
  | safeIoctl (handle : FileHandle) (operation : SafeIoctl)
  | mapBlock (node : NodeId) (blockSize block : ℕ)
  | exchangeData (parent : NodeId) (name : Name) (newParent : NodeId) (newName : Name)
      (options : ℕ)
  | checkLock (handle : FileHandle) (requested : FileLock) (allowUnlock : Bool)
  | close (handle : FileHandle)

/-- What a request returns. -/
inductive Reply where
  | done
  | stats (stats : FilesystemStats)
  | metadata (metadata : Metadata)
  | listing (revision : DirectoryRevision) (entries : List DirectoryEntry)
  | view (view : DirectoryView)
  | opened (handle : FileHandle) (revision : FileRevision) (size : ℕ)
  | created (metadata : Metadata) (handle : FileHandle) (revision : FileRevision) (size : ℕ)
  | link (target : Bytes)
  | value (total : ℕ) (data : Bytes)
  | names (names : List Name)
  | data (revision : FileRevision) (data : Bytes)
  | written (count : ℕ) (revision : FileRevision) (size : ℕ)
  | allocated (revision : FileRevision) (size : ℕ)
  | number (value : ℕ)
deriving DecidableEq

/-- A request of session `i`. -/
def Request.run (config : Config) (i : ℕ) : Request → Run F Reply
  | setWriteAuthorized authorized => do
    Call.modify (Export.setWriteAuthorized i authorized)
    pure .done
  | statFilesystem => return .stats (← Export.statFilesystem)
  | setVolumeName name => do
    Export.setVolumeName config i name
    pure .done
  | forgetNodes requested => do
    Export.forgetNodes i requested
    pure .done
  | metadata node => return .metadata (← Export.metadata config i node)
  | listWithRevision node => do
    let (revision, entries) ← Export.listWithRevision config i node
    pure (.listing revision entries)
  | listWithRevisionBlocking node => do
    let (revision, entries) ← Export.listWithRevisionBlocking config i node
    pure (.listing revision entries)
  | directoryView node options => return .view (← Export.directoryView config i node options)
  | openNode node options => do
    let (handle, revision, size) ← Export.openNode config i node options
    pure (.opened handle revision size)
  | createFile parent name mode options => do
    let (found, handle, revision, size) ← Export.createFile config i parent name mode options
    pure (.created found handle revision size)
  | createDirectory parent name mode =>
    return .metadata (← Export.createDirectory config i parent name mode)
  | createSymlink parent name target =>
    return .metadata (← Export.createSymlink config i parent name target)
  | createSpecialNode parent name kind mode deviceMajor deviceMinor => do
    let found ← Export.createSpecialNode config i parent name kind mode deviceMajor deviceMinor
    pure (.metadata found)
  | createHardLink node newParent newName =>
    return .metadata (← Export.createHardLink config i node newParent newName)
  | removeNode parent name directory => do
    Export.removeNode config i parent name directory
    pure .done
  | renameNode parent name newParent newName mode => do
    Export.renameNode config i parent name newParent newName mode
    pure .done
  | readLink node => return .link (← Export.readLink config i node)
  | getXattr node name offset length => do
    let (total, data) ← Export.getXattr config i node name offset length
    pure (.value total data)
  | listXattrs node => return .names (← Export.listXattrs config i node)
  | setXattr node name value mode position => do
    Export.setXattr config i node name value mode position
    pure .done
  | removeXattr node name => do
    Export.removeXattr config i node name
    pure .done
  | setAttributes node handle changes =>
    return .metadata (← Export.setAttributes config i node handle changes)
  | read handle offset length => do
    let (revision, data) ← Export.read config i handle offset length
    pure (.data revision data)
  | writeOwned handle offset data => do
    let (count, revision, size) ← Export.writeOwned config i handle offset data
    pure (.written count revision size)
  | flush handle => do
    Export.flush i handle
    pure .done
  | sync handle dataOnly => do
    Export.sync i handle dataOnly
    pure .done
  | syncDirectory node => do
    Export.syncDirectory config i node
    pure .done
  | allocate handle offset length => do
    let (revision, size) ← Export.allocate config i handle offset length
    pure (.allocated revision size)
  | copyFileRange input inputOffset output outputOffset length => do
    let (count, revision, size) ←
      Export.copyFileRange config i input inputOffset output outputOffset length
    pure (.written count revision size)
  | seekFile handle offset whence => return .number (← Export.seekFile i handle offset whence)
  | safeIoctl handle operation => return .number (← Export.safeIoctl i handle operation)
  | mapBlock node blockSize block =>
    return .number (← Export.mapBlock config i node blockSize block)
  | exchangeData parent name newParent newName options => do
    Export.exchangeData config i parent name newParent newName options
    pure .done
  | checkLock handle requested allowUnlock => do
    Export.checkLock config i handle requested allowUnlock
    pure .done
  | close handle => do
    Export.close i handle
    pure .done

/-- What can happen to an export: a session begins, makes a request or ends. -/
inductive ExportOp where
  | newSession (writeAuthorized : Bool)
  | request (session : ℕ) (asked : Request)
  | dropSession (session : ℕ)

/-- The server over a host whose state is an `Env`. -/
@[reducible]
def exportFrame (Env Choice : Type) : Frame := ⟨Env, Choice, ExportOp, Except ServerError Reply⟩

def ExportOp.run (config : Config) : ExportOp → Run F Reply
  | newSession writeAuthorized => do
    Call.modify fun s => { s with sessions := s.sessions ++ [Session.new config writeAuthorized] }
    pure .done
  | request i asked => asked.run config i
  | dropSession i => do
    Export.dropSession i
    pure .done

/-- The server, over a host that answers as `serve` says. -/
def server {Env Choice : Type} (config : Config)
    (serve : Env → Choice → (call : HostCall) → Option (Env × call.Answer)) :
    Program (exportFrame Env Choice).sig where
  code op _ := (op.run config : Run (exportFrame Env Choice) Reply).toTask id
  serve := serve

end QuickFS.Export
