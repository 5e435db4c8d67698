import QuickFS.Protocol

/-!
# What the server checks of a request before it looks at the export

The `validate_*` functions of `crates/server-core` and of `crates/common`, which the former uses, and
the errors of the server.
-/

namespace QuickFS.Server

/-- The operating system's own errors arrive as `Errno`; the value inside an error that has no name of
its own is never looked at. -/
inductive ServerError where
  | notFound
  | permissionDenied
  | alreadyExists
  | notDirectory
  | isDirectory
  | notEmpty
  | noAttribute
  | noData
  | notTty
  | readOnly
  | conflict
  | wouldBlock
  | noSpace
  | busy
  | notSupported
  | invalidNode
  | invalidHandle
  | invalidRequest (message : String)
  | tooManyHandles
  | tooManyNodes
  | tooManyLocks
  | directoryTooLarge
  | stateUnavailable
  | taskFailed
  | io
deriving DecidableEq

/-- `validate_open_options`. -/
def validateOpenOptions (options : FileOpenOptions) (writable : Bool) : Except ServerError Unit :=
  if (options.truncate || options.append) && !options.access.canWrite then
    .error (.invalidRequest "truncate and append require write access")
  else if options.access.canWrite && !writable then .error .readOnly
  else .ok ()

/-- `validate_filename`. -/
def isFilename (name : Name) : Bool :=
  !(name.isEmpty || name == [46] || name == [46, 46] || name.contains 47 || name.contains 0)

/-- `validate_name`. -/
def validateName (name : Name) : Except ServerError Unit :=
  if isFilename name then .ok () else .error (.invalidRequest "invalid filename")

/-- `validate_xattr_name`. -/
def validateXattrName (name : Name) : Except ServerError Unit :=
  if name.isEmpty || decide (name.length > 255) || name.contains 0 then
    .error (.invalidRequest "invalid extended-attribute name")
  else .ok ()

/-- `validate_range`, with the error of the server. -/
def validateRange (offset length maximum : ℕ) : Except ServerError Unit :=
  if length > maximum ∨ checkedAdd offset length = none then
    .error (.invalidRequest "invalid byte range")
  else .ok ()

/-- `MAX_SYMLINK_TARGET_SIZE`. -/
def maxSymlinkTargetSize : ℕ := 16 * 1024

/-- The components of a path that are not `.`, where the path is not absolute. -/
def pathComponents (path : List UInt8) : List Name :=
  (path.splitOn 47).filter fun component => !(component.isEmpty || component == [46])

/-- `validate_symlink_target`. -/
def validateSymlinkTarget (target : List UInt8) : Except ServerError Unit :=
  if target.isEmpty || decide (target.length > maxSymlinkTargetSize) || target.contains 0 then
    .error (.invalidRequest "invalid symbolic-link target")
  else if target.head? = some 47 ∨ [46, 46] ∈ pathComponents target then .error .permissionDenied
  else if pathComponents target = [] then
    .error (.invalidRequest "symbolic-link target must name an in-export object")
  else .ok ()

end QuickFS.Server
