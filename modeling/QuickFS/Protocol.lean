import Mathlib.Algebra.GroupWithZero.Nat
import Mathlib.Data.Nat.Basic
import Mathlib.Order.Basic

/-!
# The values that cross the wire

The types of `crates/protocol` that the other modules are about, with the names the protocol gives
them.  Identifiers that the program only ever compares — UUIDs, node ids, file handles — are
natural numbers.  A `u64` is a natural number too: where the program's arithmetic can reach the end
of the range it says which of `saturating_add` and `checked_add` it means, and those are
`saturatingAdd` and `checkedAdd` here.
-/

namespace QuickFS

/-! ## Machine integers -/

/-- `u64::MAX`. -/
def u64Max : ℕ := 2 ^ 64 - 1

/-- `u64::saturating_add`. -/
def saturatingAdd (a b : ℕ) : ℕ := min (a + b) u64Max

/-- `u64::checked_add`. -/
def checkedAdd (a b : ℕ) : Option ℕ := if a + b ≤ u64Max then some (a + b) else none

theorem saturatingAdd_le (a b : ℕ) : saturatingAdd a b ≤ u64Max := min_le_right _ _

theorem saturatingAdd_eq {a b : ℕ} (h : a + b ≤ u64Max) : saturatingAdd a b = a + b :=
  min_eq_left h

/-! ## Identifiers -/

/-- A UUID: a session, or a server epoch. -/
abbrev Uuid := ℕ

/-- The server's opaque name of a file system object. -/
abbrev NodeId := ℕ

/-- `ROOT_NODE`. -/
def rootNode : NodeId := 0

/-- The name of an open file, on whichever side of whichever layer. -/
abbrev FileHandle := ℕ

/-- A file name or the name of an extended attribute: any bytes. -/
abbrev Name := List UInt8

instance : LawfulBEq Name := inferInstance

instance : LawfulBEq (List Name) := inferInstance

abbrev FileRevision := ℕ

abbrev DirectoryRevision := ℕ

/-! ## Open files -/

inductive FileAccess where
  | readOnly
  | writeOnly
  | readWrite
deriving DecidableEq

namespace FileAccess

def canRead : FileAccess → Bool
  | readOnly | readWrite => true
  | writeOnly => false

def canWrite : FileAccess → Bool
  | writeOnly | readWrite => true
  | readOnly => false

end FileAccess

structure FileOpenOptions where
  access : FileAccess
  truncate : Bool
  append : Bool
deriving DecidableEq

/-- `FileOpenOptions::READ_ONLY`. -/
def FileOpenOptions.readOnly : FileOpenOptions := ⟨.readOnly, false, false⟩

/-! ## Advisory locks -/

inductive LockKind where
  | read
  | write
  | unlock
deriving DecidableEq

/-- `kind as u8`. -/
def LockKind.code : LockKind → ℕ
  | read => 0
  | write => 1
  | unlock => 2

/-- A byte-range lock, or a request for one.  `stop` is the source's `end`: the last byte, which is
`u64Max` for a lock through the end of the file.  Both bounds are `u64`s. -/
structure FileLock where
  owner : ℕ
  start : ℕ
  stop : ℕ
  kind : LockKind
  pid : ℕ
  start_le : start ≤ u64Max
  stop_le : stop ≤ u64Max
deriving DecidableEq

/-! ## Nodes and their attributes -/

inductive NodeKind where
  | file
  | directory
  | symlink
  | namedPipe
  | characterDevice
  | blockDevice
  | socket
deriving DecidableEq

structure Metadata where
  node : NodeId
  kind : NodeKind
  size : ℕ
  mode : ℕ
  allocatedBlocks : ℕ
  revision : FileRevision
  accessedUnixMs : ℕ
  modifiedUnixMs : ℕ
  createdUnixMs : Option ℕ
  backupUnixMs : Option ℕ
  linkCount : ℕ
  deviceMajor : ℕ
  deviceMinor : ℕ
deriving DecidableEq

structure AttributeChanges where
  size : Option ℕ
  mode : Option ℕ
  accessedUnixMs : Option ℕ
  modifiedUnixMs : Option ℕ
  backupUnixMs : Option ℕ
deriving DecidableEq

structure DirectoryEntry where
  node : NodeId
  name : Name
  kind : NodeKind
  metadata : Metadata
deriving DecidableEq

structure DirectoryViewOptions where
  includeXattrs : Bool
  inlineXattrSize : ℕ
  inlineXattrTotalSize : ℕ
deriving DecidableEq

/-- `DirectoryViewOptions::NATIVE`. -/
def DirectoryViewOptions.native : DirectoryViewOptions := ⟨true, 4 * 1024, 256 * 1024⟩

structure InlineXattr where
  name : Name
  value : List UInt8
deriving DecidableEq

/-- The names of all extended attributes of a node, with the values that were small enough. -/
structure XattrSnapshot where
  names : List Name
  inlineValues : List InlineXattr
deriving DecidableEq

structure DirectoryViewEntry where
  entry : DirectoryEntry
  xattrs : Option XattrSnapshot
deriving DecidableEq

structure DirectoryView where
  revision : DirectoryRevision
  directory : Metadata
  parent : Metadata
  xattrs : Option XattrSnapshot
  entries : List DirectoryViewEntry
deriving DecidableEq

/-! ## Arguments of requests -/

inductive RenameMode where
  | replace
  | noReplace
  | exchange
deriving DecidableEq

inductive SpecialNodeKind where
  | namedPipe
  | characterDevice
  | blockDevice
  | socket
deriving DecidableEq

inductive XattrSetMode where
  | upsert
  | create
  | replace
deriving DecidableEq

inductive SeekWhence where
  | data
  | hole
deriving DecidableEq

inductive SafeIoctl where
  | bytesAvailable
deriving DecidableEq

/-! ## What a server says about itself -/

structure FilesystemCapabilities where
  serverEpoch : Uuid
  writable : Bool
  supportsLocks : Bool
  supportsAtomicRename : Bool
  supportsDirectorySync : Bool
  supportsPreallocation : Bool
  supportsSymlinks : Bool
  supportsXattrs : Bool
  supportsHardLinks : Bool
  supportsSpecialNodes : Bool
  supportsCopyFileRange : Bool
  supportsSeekDataHole : Bool
  supportsSafeIoctl : Bool
  supportsPoll : Bool
  supportsBmap : Bool
  supportsExchangeData : Bool
  supportsVolumeRename : Bool
  supportsBackupTime : Bool
  supportsReaddirplus : Bool
  persistentNodeIds : Bool
  restartLockReplay : Bool
  volumeName : String
  maxReadSize : ℕ
  maxWriteSize : ℕ
deriving DecidableEq

structure FilesystemStats where
  blocks : ℕ
  blocksFree : ℕ
  blocksAvailable : ℕ
  files : ℕ
  filesFree : ℕ
  blockSize : ℕ
  nameLength : ℕ
  fragmentSize : ℕ
deriving DecidableEq

inductive ErrorCode where
  | unauthenticated
  | notFound
  | permissionDenied
  | alreadyExists
  | notDirectory
  | isDirectory
  | notEmpty
  | noAttribute
  | noData
  | notTty
  | readOnly
  | conflict
  | wouldBlock
  | noSpace
  | busy
  | notSupported
  | offline
  | invalidNode
  | invalidHandle
  | invalidRequest
  | unsupportedVersion
  | tooLarge
  | timeout
  | internal
deriving DecidableEq

end QuickFS
