import QuickFS.Export.Walk
import QuickFS.Export.Contents

/-!
# Extended attributes and resource forks

An attribute of a file is one of the host's under another name: a client's name is kept if it begins
with `user.`, and is spelled in base64 below `user.quickfs.mac.` otherwise.  The time of the last
backup is such an attribute too, which clients do not see.  The resource fork is the exception: if
the server has a state directory, each node may have a file there that holds its fork.

The server is one that runs on Linux.
-/

namespace QuickFS.Export

open Server Async
open Call (attempt)

variable {F : Frame}

/-! ## Names -/

/-- A digit of `URL_SAFE_NO_PAD`. -/
def urlSafeDigit (value : ℕ) : UInt8 :=
  if value < 26 then .ofNat (65 + value)
  else if value < 52 then .ofNat (71 + value)
  else if value < 62 then .ofNat (value - 4)
  else if value = 62 then 45
  else 95

/-- The value of such a digit. -/
def urlSafeValue (digit : UInt8) : Option ℕ :=
  if 65 ≤ digit ∧ digit ≤ 90 then some (digit.toNat - 65)
  else if 97 ≤ digit ∧ digit ≤ 122 then some (digit.toNat - 71)
  else if 48 ≤ digit ∧ digit ≤ 57 then some (digit.toNat + 4)
  else if digit = 45 then some 62
  else if digit = 95 then some 63
  else none

/-- `URL_SAFE_NO_PAD.encode`. -/
def encodeUrlSafe : Bytes → Bytes
  | a :: b :: c :: rest =>
    urlSafeDigit (a.toNat / 4) :: urlSafeDigit (a.toNat % 4 * 16 + b.toNat / 16) ::
      urlSafeDigit (b.toNat % 16 * 4 + c.toNat / 64) :: urlSafeDigit (c.toNat % 64) ::
      encodeUrlSafe rest
  | [a, b] => [urlSafeDigit (a.toNat / 4), urlSafeDigit (a.toNat % 4 * 16 + b.toNat / 16),
      urlSafeDigit (b.toNat % 16 * 4)]
  | [a] => [urlSafeDigit (a.toNat / 4), urlSafeDigit (a.toNat % 4 * 16)]
  | [] => []

/-- `URL_SAFE_NO_PAD.decode`: bits that are left over have to be zero. -/
def decodeUrlSafe : Bytes → Option Bytes
  | p :: q :: r :: s :: rest => do
    let p ← urlSafeValue p
    let q ← urlSafeValue q
    let r ← urlSafeValue r
    let s ← urlSafeValue s
    let rest ← decodeUrlSafe rest
    pure (.ofNat (p * 4 + q / 16) :: .ofNat (q % 16 * 16 + r / 4) :: .ofNat (r % 4 * 64 + s) :: rest)
  | [p, q, r] => do
    let p ← urlSafeValue p
    let q ← urlSafeValue q
    let r ← urlSafeValue r
    if r % 4 = 0 then pure [.ofNat (p * 4 + q / 16), .ofNat (q % 16 * 16 + r / 4)] else none
  | [p, q] => do
    let p ← urlSafeValue p
    let q ← urlSafeValue q
    if q % 16 = 0 then pure [.ofNat (p * 4 + q / 16)] else none
  | [_] => none
  | [] => some []

/-- `com.apple.ResourceFork`. -/
def resourceForkName : Name :=
  [99, 111, 109, 46, 97, 112, 112, 108, 101, 46, 82, 101, 115, 111, 117, 114, 99, 101, 70, 111, 114,
    107]

/-- `user.`. -/
def userNames : Name := [117, 115, 101, 114, 46]

/-- `user.quickfs.`. -/
def quickfsNames : Name := userNames ++ [113, 117, 105, 99, 107, 102, 115, 46]

/-- `user.quickfs.mac.`. -/
def macNames : Name := quickfsNames ++ [109, 97, 99, 46]

/-- `user.quickfs.backup-time`. -/
def backupTimeXattr : Name :=
  quickfsNames ++ [98, 97, 99, 107, 117, 112, 45, 116, 105, 109, 101]

/-- `is_resource_fork`. -/
def isResourceFork (name : Name) : Bool := name == resourceForkName

/-- `logical_xattr_name`. -/
def logicalXattrName (name : Name) : Except ServerError Name := do
  validateXattrName name
  if userNames.isPrefixOf name && !quickfsNames.isPrefixOf name then .ok name
  else if (macNames ++ encodeUrlSafe name).length > 255 then
    .error (.invalidRequest "extended-attribute name is too large for the server filesystem")
  else .ok (macNames ++ encodeUrlSafe name)

/-- `host_xattr_name`. -/
def hostXattrName (name : Name) : Option Name :=
  if name = backupTimeXattr then none
  else if macNames.isPrefixOf name then decodeUrlSafe (name.drop macNames.length)
  else if userNames.isPrefixOf name then some name
  else none

/-! ## Attributes of open files -/

/-- `MAX_XATTR_SIZE`. -/
def maxXattrSize : ℕ := 64 * 1024 * 1024

/-- `MAX_FRAME_SIZE`. -/
def maxFrameSize : ℕ := 1024 * 1024

/-- Ask with a buffer of this capacity, and with one twice as large when it is too small.  A
capacity is a `usize`, so there are no more than 64 doublings. -/
def withBuffer {α : Type} (ask : ℕ → Run F (Except Errno α)) (maximum : ℕ) :
    ℕ → ℕ → Run F (Except Errno α)
  | 0, capacity => ask capacity
  | doublings + 1, capacity => do
    let answer ← ask capacity
    match answer with
    | .error .range =>
      if capacity < maximum then withBuffer ask maximum doublings (min (2 * capacity) maximum)
      else pure answer
    | _ => pure answer

/-- `read_fd_xattr`. -/
def readFdXattr (file : Fd) (name : Name) (maximum : ℕ) : Run F Bytes := do
  let answer ← withBuffer (fun capacity => host (.fgetxattr file name capacity)) maximum 64
    (min 256 (max maximum 1))
  match answer with
  | .ok value => pure value
  | .error errno => Call.throw (fromErrno errno)

/-- `read_fd_xattr_bounded`. -/
def readFdXattrBounded (file : Fd) (name : Name) (maximum : ℕ) : Run F (Option Bytes) :=
  if maximum = 0 then pure none
  else do
    let answer ← withBuffer (fun capacity => host (.fgetxattr file name capacity)) maximum 64
      (max (min 256 maximum) 1)
    match answer with
    | .ok value => pure (some value)
    | .error .range => pure none
    | .error errno => Call.throw (fromErrno errno)

/-- `names.sort()` and `names.dedup()`. -/
def sortNames (names : List Name) : List Name := names.dedup.insertionSort fun a b => a ≤ b

/-- `list_fd_xattrs`. -/
def listFdXattrs (file : Fd) : Run F (List Name) := do
  let answer ← withBuffer (fun capacity => host (.flistxattr file capacity)) maxFrameSize 64 1024
  match answer with
  | .ok names => pure (sortNames ((names.filter fun name => !name.isEmpty).filterMap hostXattrName))
  | .error errno => Call.throw (fromErrno errno)

/-- An attribute, or `none` if there is no such attribute. -/
def optionalXattr (file : Fd) (name : Name) : Run F (Option Bytes) := do
  let outcome ← attempt (readFdXattr file name maxXattrSize)
  match outcome with
  | .ok value => pure (some value)
  | .error .noAttribute => pure none
  | .error error => Call.throw error

/-- `replace_optional_xattr`. -/
def replaceOptionalXattr (file : Fd) (name : Name) (value : Option Bytes) : Run F Unit :=
  match value with
  | some value => system (.fsetxattr file name value) id
  | none => do
    let outcome ← attempt (system (.fremovexattr file name) id)
    match outcome with
    | .ok () | .error .noAttribute => pure ()
    | .error error => Call.throw error

/-! ## Backup times -/

/-- `to_le_bytes` of a `u64`. -/
def leBytes (value : ℕ) : Bytes := (List.range 8).map fun k => .ofNat (value / 256 ^ k)

/-- `u64::from_le_bytes`. -/
def fromLeBytes (bytes : Bytes) : ℕ := bytes.foldr (fun byte rest => byte.toNat + 256 * rest) 0

/-- `write_backup_time`. -/
def writeBackupTime (file : Fd) (value : Option ℕ) : Run F Unit :=
  optionally value fun value => system (.fsetxattr file backupTimeXattr (leBytes value)) id

/-- `read_fd_backup_time`. -/
def readFdBackupTime (file : Fd) : Run F (Option ℕ) := do
  let outcome ← attempt (readFdXattr file backupTimeXattr 8)
  match outcome with
  | .ok bytes =>
    if bytes.length = 8 then pure (some (fromLeBytes bytes)) else Call.throw .stateUnavailable
  | .error .noAttribute => pure none
  | .error error => Call.throw error

/-- `.ok().flatten()`. -/
def backupTimeOrNone (m : Run F (Option ℕ)) : Run F (Option ℕ) := do
  let outcome ← attempt m
  match outcome with
  | .ok time => pure time
  | .error _ => pure none

/-! ## Resource forks -/

/-- `open_resource_fork`. -/
def openResourceFork (node : NodeId) (write create : Bool) : Run F Fd := do
  let file ← system (.openFork node write create) id
  let metadata ← system (.fstat file) id
  if metadata.fileType = some .file then pure file else Call.throw .stateUnavailable

/-- `read_resource_fork_range`. -/
def readResourceForkRange (node : NodeId) (offset length : ℕ) : Run F (ℕ × Bytes) := do
  let outcome ← attempt (openResourceFork node false false)
  match outcome with
  | .error .notFound => Call.throw .noAttribute
  | .error error => Call.throw error
  | .ok file => do
    let metadata ← system (.fstat file) id
    let data ← readAllAt file offset (min length (metadata.size - offset))
    pure (metadata.size, data)

/-- Whether there is a file for the fork. -/
def resourceForkExists (node : NodeId) : Run F Bool := do
  let answer ← host (.statFork node)
  match answer with
  | .ok metadata => if metadata.isFile then pure true else Call.throw .stateUnavailable
  | .error .noent => pure false
  | .error errno => Call.throw (fromErrno errno)

/-- The modes of `set_xattr`. -/
def validateSetMode (mode : XattrSetMode) (isPresent : Bool) : Except ServerError Unit :=
  match mode, isPresent with
  | .create, true => .error .alreadyExists
  | .replace, false => .error .noAttribute
  | _, _ => .ok ()

/-- `write_resource_fork`. -/
def writeResourceFork (node : NodeId) (value : Bytes) (mode : XattrSetMode) (position : ℕ) :
    Run F Unit := do
  let isPresent ← resourceForkExists node
  Call.ofExcept (validateSetMode mode isPresent)
  if position + value.length > maxXattrSize then
    Call.throw (.invalidRequest "resource fork is too large")
  else do
    let file ← openResourceFork node true !isPresent
    provided (decide (position = 0)) (system (.setLen file 0) id)
    writeAllAt file position value false

/-- `remove_resource_fork`. -/
def removeResourceFork (node : NodeId) : Run F Unit := do
  let isPresent ← resourceForkExists node
  if isPresent then system (.removeFork node) id else Call.throw .noAttribute

/-- `optional_resource_fork`. -/
def optionalResourceFork (node : NodeId) : Run F (Option Bytes) := do
  let outcome ← attempt (readResourceForkRange node 0 maxXattrSize)
  match outcome with
  | .ok (_, value) => pure (some value)
  | .error .noAttribute => pure none
  | .error error => Call.throw error

/-- `replace_resource_fork`. -/
def replaceResourceFork (node : NodeId) (value : Option Bytes) : Run F Unit :=
  match value with
  | some value => writeResourceFork node value .upsert 0
  | none => do
    let outcome ← attempt (removeResourceFork node)
    match outcome with
    | .ok () | .error .noAttribute => pure ()
    | .error error => Call.throw error

/-! ## What a listing says of attributes -/

section Listing

variable (config : Config)

/-- `path.is_file()` of the file of a fork, if forks have files. -/
def forkIsFile (node : NodeId) : Run F Bool :=
  if config.persistent then do
    let answer ← host (.statFork node)
    match answer with
    | .ok metadata => pure metadata.isFile
    | .error _ => pure false
  else pure false

/-- `enrich_resource_fork_revision_at`. -/
def enrichResourceForkRevision (node : NodeId) (metadata : Metadata) : Run F Metadata :=
  if config.persistent then do
    let answer ← host (.statFork node)
    match answer with
    | .ok sidecar => pure { metadata with
        revision := config.digests.forkRevision metadata.revision sidecar.length sidecar.modified }
    | .error _ => pure metadata
  else pure metadata

/-- The names of the attributes of an open file, with the resource fork if it has a file. -/
def listXattrNames (file : Fd) (node : NodeId) : Run F (List Name) := do
  let names ← listFdXattrs file
  let fork ← forkIsFile config node
  if fork && !names.any isResourceFork then pure (sortNames (resourceForkName :: names))
  else pure names

/-- The value of an attribute if it is small enough to be sent along. -/
def inlineValue (file : Fd) (node : NodeId) (inlineMaximum : ℕ) (name : Name) :
    Run F (Option Bytes) :=
  if isResourceFork name then
    if config.persistent then do
      let outcome ← attempt (readResourceForkRange node 0 inlineMaximum)
      match outcome with
      | .ok (total, value) => if total ≤ inlineMaximum then pure (some value) else pure none
      | .error _ => pure none
    else pure none
  else
    match logicalXattrName name with
    | .error _ => pure none
    | .ok hostName => do
      let outcome ← attempt (readFdXattrBounded file hostName inlineMaximum)
      match outcome with
      | .ok value => pure value
      | .error _ => pure none

/-- The loop over the names, with what is left of the budget for values (`claim_inline_budget`). -/
def inlineValues (file : Fd) (node : NodeId) (inlineMaximum : ℕ) :
    ℕ → List Name → Run F (List InlineXattr × ℕ)
  | remaining, [] => pure ([], remaining)
  | remaining, name :: rest => do
    let value ← inlineValue config file node inlineMaximum name
    match value with
    | some value =>
      if value.length ≤ remaining then do
        let (values, left) ← inlineValues file node inlineMaximum (remaining - value.length) rest
        pure (⟨name, value⟩ :: values, left)
      else inlineValues file node inlineMaximum remaining rest
    | none => inlineValues file node inlineMaximum remaining rest

/-- `xattr_snapshot_for_open_file`. -/
def xattrSnapshotForOpenFile (file : Fd) (node : NodeId) (inlineMaximum remaining : ℕ) :
    Run F (XattrSnapshot × ℕ) := do
  let names ← listXattrNames config file node
  if inlineMaximum > 0 then do
    let (values, left) ← inlineValues config file node inlineMaximum remaining names
    pure (⟨names, values⟩, left)
  else pure (⟨names, []⟩, remaining)

end Listing

/-! ## Exchanging two files -/

/-- `exchange_resource_forks`. -/
def exchangeResourceForks (left right : NodeId) : Run F Unit := do
  let leftValue ← optionalResourceFork left
  let rightValue ← optionalResourceFork right
  replaceResourceFork left rightValue
  let outcome ← attempt (replaceResourceFork right leftValue)
  match outcome with
  | .ok () => pure ()
  | .error error => do
    let _ ← attempt (replaceResourceFork left leftValue : Run F Unit)
    Call.throw error

/-- `exchange_file_contents`. -/
def exchangeFileContents (left right temporary : Fd) : Run F Unit := do
  let leftSize ← system (.fstat left) id
  let rightSize ← system (.fstat right) id
  system (.setLen temporary 0) id
  copyRangeInChunks left temporary leftSize.size
  system (.setLen left 0) id
  copyRangeInChunks right left rightSize.size
  system (.setLen right 0) id
  copyRangeInChunks temporary right leftSize.size
  let resourceName ← Call.ofExcept (logicalXattrName resourceForkName)
  let leftResource ← optionalXattr left resourceName
  let rightResource ← optionalXattr right resourceName
  replaceOptionalXattr left resourceName rightResource
  replaceOptionalXattr right resourceName leftResource
  system (.fsync left false) id
  system (.fsync right false) id

end QuickFS.Export
