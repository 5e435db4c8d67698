import QuickFS.Protocol

/-!
# The remote file system, as its callers see it

The trait `RemoteFilesystem` of `crates/client-core`: its methods with their arguments
(`RemoteCall`), what each of them returns (`RemoteCall.Output`), and the errors a call can end in.
A connection implements it, and so do the layers on top of one — the resilient client, the cache —
each in terms of the layer below.

Three methods are not listed, because every layer writes them as a projection of another one:
`open_file` is `open_file_with_options` with `READ_ONLY`, `list_directory` the entries of
`list_directory_snapshot`, and `read_range` the bytes of `read_range_versioned`.  Neither is
`get_metadata_batch`, a loop over `get_metadata`.
-/

namespace QuickFS

/-- `ClientError`.  The value inside `Transport` is never looked at. -/
inductive ClientError where
  | transport
  | server (code : ErrorCode) (message : String)
  | unexpectedResponse
  | readTooLarge (limit : ℕ)
  | writeTooLarge (limit : ℕ)
  | staleRevision
  | offline
  | offlineCacheMiss
  | ambiguousMutation
deriving DecidableEq

/-- `MAX_CLIENT_READ_SIZE`. -/
def maxClientReadSize : ℕ := 16 * 1024 * 1024

/-- `MAX_CLIENT_WRITE_SIZE`. -/
def maxClientWriteSize : ℕ := 8 * 1024 * 1024

/-! ## Answers -/

structure DirectorySnapshot where
  revision : DirectoryRevision
  entries : List DirectoryEntry
deriving DecidableEq

structure OpenedFile where
  handle : FileHandle
  revision : FileRevision
  size : ℕ
deriving DecidableEq

structure RangeRead where
  revision : FileRevision
  data : List UInt8
deriving DecidableEq

structure XattrRead where
  totalSize : ℕ
  data : List UInt8
deriving DecidableEq

structure WriteResult where
  written : ℕ
  revision : FileRevision
  size : ℕ
deriving DecidableEq

structure CreatedFile where
  metadata : Metadata
  opened : OpenedFile
deriving DecidableEq

/-! ## Calls -/

/-- A method of `RemoteFilesystem` and its arguments. -/
inductive RemoteCall where
  | ping (nonce : ℕ)
  | capabilities
  | statFilesystem
  | getMetadata (node : NodeId)
  | listDirectorySnapshot (node : NodeId)
  | listDirectoryView (node : NodeId) (options : DirectoryViewOptions)
  | openFileWithOptions (node : NodeId) (options : FileOpenOptions)
  | createFile (parent : NodeId) (name : Name) (mode : ℕ) (options : FileOpenOptions)
  | createDirectory (parent : NodeId) (name : Name) (mode : ℕ)
  | createSymlink (parent : NodeId) (name : Name) (target : List UInt8)
  | createHardLink (node newParent : NodeId) (newName : Name)
  | createSpecialNode (parent : NodeId) (name : Name) (kind : SpecialNodeKind)
      (mode deviceMajor deviceMinor : ℕ)
  | removeNode (parent : NodeId) (name : Name) (directory : Bool)
  | renameNode (parent : NodeId) (name : Name) (newParent : NodeId) (newName : Name)
      (mode : RenameMode)
  | readLink (node : NodeId)
  | setAttributes (node : NodeId) (handle : Option FileHandle) (changes : AttributeChanges)
  | readRangeVersioned (handle : FileHandle) (offset length : ℕ)
  | writeRange (handle : FileHandle) (offset : ℕ) (data : List UInt8)
  | flushFile (handle : FileHandle) (lockOwner : Option ℕ)
  | syncFile (handle : FileHandle) (dataOnly : Bool)
  | syncDirectory (node : NodeId)
  | allocateFile (handle : FileHandle) (offset length : ℕ)
  | getXattr (node : NodeId) (name : Name) (offset length : ℕ)
  | setXattr (node : NodeId) (name : Name) (value : List UInt8) (mode : XattrSetMode)
      (position : ℕ)
  | listXattrs (node : NodeId)
  | removeXattr (node : NodeId) (name : Name)
  | copyFileRange (input : FileHandle) (inputOffset : ℕ) (output : FileHandle)
      (outputOffset length : ℕ)
  | seekFile (handle : FileHandle) (offset : ℕ) (whence : SeekWhence)
  | safeIoctl (handle : FileHandle) (operation : SafeIoctl)
  | mapBlock (node : NodeId) (blockSize block : ℕ)
  | exchangeData (parent : NodeId) (name : Name) (newParent : NodeId) (newName : Name)
      (options : ℕ)
  | setVolumeName (name : Name)
  | forgetNodes (nodes : List NodeId)
  | getLock (handle : FileHandle) (lock : FileLock)
  | setLock (handle : FileHandle) (lock : FileLock) (wait : Bool)
  | closeFile (handle : FileHandle)
deriving DecidableEq

namespace RemoteCall

/-- What a successful call returns. -/
abbrev Output : RemoteCall → Type
  | ping .. => ℕ
  | capabilities => FilesystemCapabilities
  | statFilesystem => FilesystemStats
  | getMetadata .. => Metadata
  | listDirectorySnapshot .. => DirectorySnapshot
  | listDirectoryView .. => DirectoryView
  | openFileWithOptions .. => OpenedFile
  | createFile .. => CreatedFile
  | createDirectory .. => Metadata
  | createSymlink .. => Metadata
  | createHardLink .. => Metadata
  | createSpecialNode .. => Metadata
  | removeNode .. => Unit
  | renameNode .. => Unit
  | readLink .. => List UInt8
  | setAttributes .. => Metadata
  | readRangeVersioned .. => RangeRead
  | writeRange .. => WriteResult
  | flushFile .. => Unit
  | syncFile .. => Unit
  | syncDirectory .. => Unit
  | allocateFile .. => WriteResult
  | getXattr .. => XattrRead
  | setXattr .. => Unit
  | listXattrs .. => List Name
  | removeXattr .. => Unit
  | copyFileRange .. => WriteResult
  | seekFile .. => ℕ
  | safeIoctl .. => ℕ
  | mapBlock .. => ℕ
  | exchangeData .. => Unit
  | setVolumeName .. => Unit
  | forgetNodes .. => Unit
  | getLock .. => Option FileLock
  | setLock .. => Unit
  | closeFile .. => Unit

/-- How a call can end. -/
abbrev Reply (call : RemoteCall) : Type := Except ClientError call.Output

/-- The same call with the handles in it forgotten: a layer that keeps handles of its own passes a
call on with the handles of the layer below. -/
def eraseHandles : RemoteCall → RemoteCall
  | setAttributes node handle changes => setAttributes node (handle.map fun _ => 0) changes
  | readRangeVersioned _ offset length => readRangeVersioned 0 offset length
  | writeRange _ offset data => writeRange 0 offset data
  | flushFile _ lockOwner => flushFile 0 lockOwner
  | syncFile _ dataOnly => syncFile 0 dataOnly
  | allocateFile _ offset length => allocateFile 0 offset length
  | copyFileRange _ inputOffset _ outputOffset length =>
    copyFileRange 0 inputOffset 0 outputOffset length
  | seekFile _ offset whence => seekFile 0 offset whence
  | safeIoctl _ operation => safeIoctl 0 operation
  | getLock _ lock => getLock 0 lock
  | setLock _ lock wait => setLock 0 lock wait
  | closeFile _ => closeFile 0
  | call => call

end RemoteCall

end QuickFS
