import QuickFS.Server.Locks

/-!
# What the server asks of the host

The system calls that `crates/server-core` makes, as questions: each with its arguments and with
what the host may answer.  A descriptor is a number, and `rootFile` is the one of the export's root
that the server has kept since it started.  Resource forks that have a file of their own, and the
record of the export, lie in the server's state directory; they are asked for by the node they
belong to.

With the questions come the functions that read the answers: what becomes of an error number, and
how a `stat` becomes the `Metadata` of the protocol.  The two hashes taken of a `stat` are
parameters (`Digests`).
-/

namespace QuickFS.Export

open Server

abbrev Bytes := List UInt8

/-! ## Errors -/

/-- The error numbers that are told apart. -/
inductive Errno where
  | noent
  | access
  | perm
  | loop
  | exist
  | notdir
  | isdir
  | notempty
  | nodata
  | nxio
  | notty
  | rofs
  | nospc
  | busy
  | notsup
  | again
  | range
  | xdev
  | inval
  | nosys
  | other
deriving DecidableEq

/-- `From<std::io::Error>`. -/
def fromErrno : Errno → ServerError
  | .noent => .notFound
  | .access | .perm | .loop => .permissionDenied
  | .exist => .alreadyExists
  | .notdir => .notDirectory
  | .isdir => .isDirectory
  | .notempty => .notEmpty
  | .nodata => .noAttribute
  | .nxio => .noData
  | .notty => .notTty
  | .rofs => .readOnly
  | .nospc => .noSpace
  | .busy => .busy
  | .notsup => .notSupported
  | .again => .wouldBlock
  | .range | .xdev | .inval | .nosys | .other => .io

/-! ## What a `stat` says -/

structure Timespec where
  seconds : Int
  nanoseconds : ℕ
deriving DecidableEq

structure Stat where
  device : ℕ
  inode : ℕ
  size : ℕ
  mode : ℕ
  linkCount : ℕ
  rawDevice : ℕ
  blocks : ℕ
  accessed : Timespec
  modified : Timespec
  changed : Timespec
  created : Option Timespec
deriving DecidableEq

/-- What `std::fs::metadata` says of the file of a resource fork. -/
structure ForkStat where
  isFile : Bool
  length : ℕ
  modified : Option ℕ
deriving DecidableEq

/-- The first eight bytes of the two SHA-256 digests, and the stable identifier of a node. -/
structure Digests where
  revision : List Int → FileRevision
  forkRevision : FileRevision → ℕ → Option ℕ → FileRevision
  stableNodeId : FileIdentity → NodeId

namespace Stat

variable (stat : Stat)

/-- `identity` and `identity_from_stat`. -/
def identity : FileIdentity := ⟨stat.device, stat.inode⟩

/-- `FileType::from_raw_mode`. -/
def fileType : Option NodeKind :=
  match stat.mode / 4096 % 16 with
  | 8 => some .file
  | 4 => some .directory
  | 10 => some .symlink
  | 1 => some .namedPipe
  | 2 => some .characterDevice
  | 6 => some .blockDevice
  | 12 => some .socket
  | _ => none

/-- `node_kind`. -/
def nodeKind : NodeKind := stat.fileType.getD .symlink

/-- `node_kind_from_mode`. -/
def nodeKindFromMode : Except ServerError NodeKind :=
  match stat.fileType with
  | some kind => .ok kind
  | none => .error .notSupported

/-- `revision` and `revision_from_stat`: both hash these fields, in this order. -/
def revision (digests : Digests) : FileRevision :=
  digests.revision [stat.device, stat.inode, stat.size, stat.modified.seconds,
    stat.modified.nanoseconds, stat.changed.seconds, stat.changed.nanoseconds, stat.mode,
    stat.linkCount, stat.rawDevice]

end Stat

/-- `unix_timestamp_millis`, and what `system_time_millis` makes of the same time. -/
def unixTimestampMillis (time : Timespec) : Option ℕ :=
  if time.seconds < 0 ∨ time.nanoseconds ≥ 10 ^ 9 then none
  else some (saturatingAdd (min (time.seconds.toNat * 1000) u64Max) (time.nanoseconds / 10 ^ 6))

/-- `rustix::fs::major`. -/
def deviceMajor (device : ℕ) : ℕ := ((device >>> 32) &&& 0xfffff000) ||| ((device >>> 8) &&& 0xfff)

/-- `rustix::fs::minor`. -/
def deviceMinor (device : ℕ) : ℕ := ((device >>> 12) &&& 0xffffff00) ||| (device &&& 0xff)

/-- What `to_metadata` and `to_metadata_from_stat` have in common. -/
def metadataOf (digests : Digests) (node : NodeId) (stat : Stat) (kind : NodeKind)
    (created : Option ℕ) : Metadata where
  node := node
  kind := kind
  size := stat.size
  mode := stat.mode % 4096
  allocatedBlocks := stat.blocks
  revision := stat.revision digests
  accessedUnixMs := (unixTimestampMillis stat.accessed).getD 0
  modifiedUnixMs := (unixTimestampMillis stat.modified).getD 0
  createdUnixMs := created
  backupUnixMs := none
  linkCount := min stat.linkCount (2 ^ 32 - 1)
  deviceMajor := deviceMajor stat.rawDevice
  deviceMinor := deviceMinor stat.rawDevice

/-- `to_metadata`. -/
def toMetadata (digests : Digests) (node : NodeId) (stat : Stat) : Metadata :=
  metadataOf digests node stat stat.nodeKind (stat.created.bind unixTimestampMillis)

/-- `to_metadata_from_stat`. -/
def toMetadataFromStat (digests : Digests) (node : NodeId) (stat : Stat) :
    Except ServerError Metadata :=
  match stat.nodeKindFromMode with
  | .error error => .error error
  | .ok kind => .ok (metadataOf digests node stat kind none)

/-! ## System calls -/

/-- A descriptor. -/
abbrev Fd := ℕ

/-- `root_file`. -/
def rootFile : Fd := 0

/-- A path below the root: its components. -/
abbrev PathBuf := List Name

structure OFlags where
  access : FileAccess
  append : Bool
  directory : Bool
  nonblock : Bool
  create : Bool
  excl : Bool
  nofollow : Bool
deriving DecidableEq

namespace OFlags

/-- `OFlags::RDONLY`. -/
def rdonly : OFlags := ⟨.readOnly, false, false, false, false, false, false⟩

/-- `OFlags::RDONLY | OFlags::DIRECTORY`. -/
def rdonlyDirectory : OFlags := { rdonly with directory := true }

/-- `OFlags::RDONLY | OFlags::NONBLOCK`. -/
def rdonlyNonblock : OFlags := { rdonly with nonblock := true }

/-- `open_flags`. -/
def openFlags (access : FileAccess) (append : Bool) : OFlags :=
  { rdonly with access := access, append := append }

end OFlags

/-- A time to be set, or none (`UTIME_OMIT`). -/
abbrev NewTime := Option ℕ

/-- The system calls of the server. -/
inductive HostCall where
  | dup (file : Fd)
  | openat (directory : Fd) (name : Name) (flags : OFlags) (mode : ℕ)
  | fstat (file : Fd)
  /-- `statat` with `SYMLINK_NOFOLLOW`. -/
  | statat (directory : Fd) (name : Name)
  /-- `Dir::read_from`, and all that it yields.  The stream is one that `discover_node` searches, or
  one of a directory that is listed, which makes no difference to the host. -/
  | readdir (directory : Fd) (search : Bool)
  | mkdirat (directory : Fd) (name : Name) (mode : ℕ)
  | symlinkat (target : Bytes) (directory : Fd) (name : Name)
  | mknodat (directory : Fd) (name : Name) (kind : SpecialNodeKind) (mode major minor : ℕ)
  /-- `linkat` with no flags: the source is not followed. -/
  | linkat (oldDirectory : Fd) (oldName : Name) (newDirectory : Fd) (newName : Name)
  | unlinkat (directory : Fd) (name : Name) (removeDirectory : Bool)
  | renameat (oldDirectory : Fd) (oldName : Name) (newDirectory : Fd) (newName : Name)
      (mode : RenameMode)
  | readlinkat (directory : Fd) (name : Name)
  /-- `chmodat` with `SYMLINK_NOFOLLOW`. -/
  | chmodat (directory : Fd) (name : Name) (mode : ℕ)
  /-- `utimensat` with `SYMLINK_NOFOLLOW`. -/
  | utimensat (directory : Fd) (name : Name) (accessed modified : NewTime)
  | setLen (file : Fd) (size : ℕ)
  | setPermissions (file : Fd) (mode : ℕ)
  | setTimes (file : Fd) (accessed modified : NewTime)
  | fsync (file : Fd) (dataOnly : Bool)
  | fallocate (file : Fd) (offset length : ℕ)
  | readAt (file : Fd) (offset length : ℕ)
  | writeAt (file : Fd) (offset : ℕ) (data : Bytes)
  /-- `write` on a file that was opened with `APPEND`. -/
  | append (file : Fd) (data : Bytes)
  | copyFileRange (input : Fd) (inputOffset : ℕ) (output : Fd) (outputOffset length : ℕ)
  | ficlone (output input : Fd)
  | seek (file : Fd) (offset : ℕ) (whence : SeekWhence)
  | fgetxattr (file : Fd) (name : Name) (capacity : ℕ)
  | flistxattr (file : Fd) (capacity : ℕ)
  | fsetxattr (file : Fd) (name : Name) (value : Bytes)
  | fremovexattr (file : Fd) (name : Name)
  | fstatvfs
  /-- `std::fs::metadata` or `std::fs::symlink_metadata` of the file of a resource fork. -/
  | statFork (node : NodeId)
  | openFork (node : NodeId) (write create : Bool)
  | removeFork (node : NodeId)
  /-- `save_export_record`. -/
  | saveExportRecord (volumeName : Bytes)
  /-- `Uuid::new_v4`. -/
  | newUuid

/-- What the host may answer. -/
@[reducible]
def HostCall.Answer : HostCall → Type
  | dup .. | openat .. | openFork .. => Except Errno Fd
  | fstat _ | statat .. => Except Errno Stat
  | readdir .. => Except Errno (List (Except Errno Name))
  | mkdirat .. | symlinkat .. | mknodat .. | linkat .. | unlinkat .. | renameat .. | chmodat ..
  | utimensat .. | setLen .. | setPermissions .. | setTimes .. | fsync .. | fallocate ..
  | ficlone .. | fsetxattr .. | fremovexattr .. | removeFork _ => Except Errno Unit
  | readlinkat .. | readAt .. | fgetxattr .. => Except Errno Bytes
  | writeAt .. | append .. | copyFileRange .. | seek .. => Except Errno ℕ
  | flistxattr .. => Except Errno (List Name)
  | fstatvfs => Except Errno FilesystemStats
  | statFork _ => Except Errno ForkStat
  | saveExportRecord _ => Except ServerError Unit
  | newUuid => Uuid

/-- The answer of a host that does nothing. -/
def HostCall.refuse : (call : HostCall) → call.Answer
  | dup .. | openat .. | openFork .. | fstat _ | statat .. | readdir .. | mkdirat .. | symlinkat ..
  | mknodat .. | linkat .. | unlinkat .. | renameat .. | chmodat .. | utimensat .. | setLen ..
  | setPermissions .. | setTimes .. | fsync .. | fallocate .. | ficlone .. | fsetxattr ..
  | fremovexattr .. | removeFork _ | readlinkat .. | readAt .. | fgetxattr .. | writeAt ..
  | append .. | copyFileRange .. | seek .. | flistxattr .. | fstatvfs | statFork _ => .error .other
  | saveExportRecord _ => .error .io
  | newUuid => (0 : ℕ)

/-- Whether a call may change anything but a time of access: the tree, the files or the server's own
state. -/
def HostCall.mutates : HostCall → Bool
  | openat _ _ flags _ => flags.create
  | mkdirat .. | symlinkat .. | mknodat .. | linkat .. | unlinkat .. | renameat .. | chmodat ..
  | utimensat .. | setLen .. | setPermissions .. | setTimes .. | fallocate .. | writeAt ..
  | append .. | copyFileRange .. | ficlone .. | fsetxattr .. | fremovexattr .. | removeFork _
  | saveExportRecord _ => true
  | openFork _ _ create => create
  | dup _ | fstat _ | statat .. | readdir .. | readlinkat .. | fsync .. | readAt .. | seek ..
  | fgetxattr .. | flistxattr .. | fstatvfs | statFork _ | newUuid => false

end QuickFS.Export
