import QuickFS.Export.Registry
import QuickFS.Server.Checks

/-!
# From a node to an object

A request names nodes.  What the registry knows of a node are paths, and a path is walked from the
descriptor of the root, one component at a time and without following a symbolic link
(`openDirectory`); what is found at its end has to have the identity of the node (`openSnapshot`,
`pathStat`).  A node that the registry does not know is looked for in the whole export
(`discoverNode`).
-/

namespace QuickFS.Export

open Server Async
open Call (Maintains)

variable {F : Frame}

/-! ## Walking -/

/-- `Component::Normal`. -/
def isNormal (name : Name) : Bool :=
  !(name.isEmpty || name == [46] || name == [46, 46] || name.contains 47)

/-- `open` of a component of a path. -/
def openComponents : Fd → PathBuf → Run F Fd
  | current, [] => pure current
  | current, name :: rest =>
    if isNormal name then do
      let next ← system (.openat current name { OFlags.rdonlyDirectory with nofollow := true } 0) id
      openComponents next rest
    else Call.throw .permissionDenied

/-- `open_directory`. -/
def openDirectory (root : Fd) (path : PathBuf) : Run F Fd := do
  let current ← system (.dup root) id
  openComponents current path

/-- `Path::file_name`. -/
def fileName (path : PathBuf) : Option Name := path.getLast?.filter isNormal

/-- `open_parent`. -/
def openParent (root : Fd) (path : PathBuf) : Run F (Fd × Name) :=
  match fileName path with
  | none => Call.throw (.invalidRequest "root has no parent entry")
  | some name => do
    let parent ← openDirectory root path.dropLast
    pure (parent, name)

/-- `open_relative`. -/
def openRelative (root : Fd) (path : PathBuf) (flags : OFlags) : Run F (Fd × PathBuf × Stat) :=
  if path = [] then do
    let file ← system (.dup root) id
    let metadata ← system (.fstat file) id
    pure (file, [], metadata)
  else do
    let (parent, name) ← openParent root path
    let file ← system (.openat parent name { flags with nofollow := true } 0) id
    let metadata ← system (.fstat file) id
    pure (file, path, metadata)

/-- `secure_lstat`. -/
def secureLstat (root : Fd) (path : PathBuf) : Run F Stat :=
  if path = [] then system (.fstat root) id
  else do
    let (parent, name) ← openParent root path
    system (.statat parent name) id

/-! ## Snapshots -/

structure NodeSnapshot where
  identity : FileIdentity
  paths : List PathBuf
deriving DecidableEq

/-- The error of an object that is not of the expected kind. -/
def unexpectedKind : NodeKind → ServerError
  | .directory => .notDirectory
  | .file => .isDirectory
  | .symlink => .invalidRequest "node is not a symbolic link"
  | .namedPipe | .characterDevice | .blockDevice | .socket =>
    .invalidRequest "node has a different special-file type"

/-- An error that does not end the search among the paths of a node. -/
def isAbsence : ServerError → Bool
  | .notFound | .notDirectory => true
  | _ => false

/-- The first error that is worth to be told. -/
def noteError (firstError : Option ServerError) (error : ServerError) : Option ServerError :=
  if isAbsence error then firstError else some (firstError.getD error)

/-- The loop of `open_node_snapshot`. -/
def openSnapshotFrom (root : Fd) (identity : FileIdentity) (flags : OFlags)
    (expected : Option NodeKind) :
    Option ServerError → List PathBuf → Run F (Fd × PathBuf × Stat)
  | firstError, [] => Call.throw (firstError.getD .notFound)
  | firstError, path :: rest => do
    let outcome ← Call.attempt (openRelative root path flags)
    match outcome with
    | .error error =>
      openSnapshotFrom root identity flags expected (noteError firstError error) rest
    | .ok (file, openedPath, metadata) =>
      if metadata.identity ≠ identity then
        openSnapshotFrom root identity flags expected firstError rest
      else
        match expected with
        | some kind =>
          if metadata.nodeKind ≠ kind then Call.throw (unexpectedKind kind)
          else pure (file, openedPath, metadata)
        | none => pure (file, openedPath, metadata)

/-- `open_node_snapshot`. -/
def openNodeSnapshot (root : Fd) (snapshot : NodeSnapshot) (flags : OFlags)
    (expected : Option NodeKind) : Run F (Fd × PathBuf × Stat) :=
  openSnapshotFrom root snapshot.identity flags expected none snapshot.paths

/-- `open_snapshot`. -/
def openSnapshot (snapshot : NodeSnapshot) (flags : OFlags) (expected : Option NodeKind) :
    Run F (Fd × PathBuf × Stat) :=
  openNodeSnapshot rootFile snapshot flags expected

/-- The loop of `path_stat`. -/
def pathStatFrom (identity : FileIdentity) : Option ServerError → List PathBuf → Run F (Option Stat)
  | some error, [] => Call.throw error
  | none, [] => pure none
  | firstError, path :: rest => do
    let outcome ← Call.attempt (secureLstat rootFile path)
    match outcome with
    | .error error => pathStatFrom identity (noteError firstError error) rest
    | .ok stat =>
      if stat.identity ≠ identity then pathStatFrom identity firstError rest
      else pure (some stat)

/-- `path_stat`. -/
def pathStat (snapshot : NodeSnapshot) : Run F (Option Stat) :=
  if [] ∈ snapshot.paths then do
    let stat ← system (.fstat rootFile) id
    pure (if stat.identity = snapshot.identity then some stat else none)
  else pathStatFrom snapshot.identity none snapshot.paths

/-! ## Discovery -/

/-- The entries of a directory with what `statat` says of each. -/
def statEntries (directory : Fd) : List (Except Errno Name) → Run F (List (Name × Stat))
  | [] => pure []
  | .error errno :: _ => Call.throw (fromErrno errno)
  | .ok name :: rest => do
    let stat ← system (.statat directory name) id
    let others ← statEntries directory rest
    pure ((name, stat) :: others)

/-- What the entries of a directory lead to: the object that was looked for, an error, or more
directories to go through. -/
inductive Examined where
  | found (identity : FileIdentity) (path : PathBuf)
  | failed (error : ServerError)
  | more (visited : ℕ) (pending : List PathBuf)

section Discovery

variable (config : Config)

/-- The loop over the entries of one directory. -/
def examine (requested : NodeId) (relative : PathBuf) : ℕ → List PathBuf → List (Name × Stat) → Examined
  | visited, pending, [] => .more visited pending
  | visited, pending, (name, stat) :: rest =>
    if name = [46] ∨ name = [46, 46] then examine requested relative visited pending rest
    else if visited + 1 > config.limits.maxTotalKnownNodes then .failed .tooManyNodes
    else if config.digests.stableNodeId stat.identity = requested then
      .found stat.identity (relative ++ [name])
    else
      match stat.nodeKindFromMode with
      | .error error => .failed error
      | .ok .directory =>
        examine requested relative (visited + 1) ((relative ++ [name]) :: pending) rest
      | .ok _ => examine requested relative (visited + 1) pending rest

variable {config}

variable {requested : NodeId} {relative : PathBuf} {visited : ℕ} {pending : List PathBuf}
  {entries : List (Name × Stat)}

/-- Every entry that is gone through is counted, and pushes one directory at most. -/
theorem examine_measure {visited' : ℕ} {pending' : List PathBuf}
    (h : examine config requested relative visited pending entries = .more visited' pending') :
    2 * (config.limits.maxTotalKnownNodes - visited') + pending'.length ≤
      2 * (config.limits.maxTotalKnownNodes - visited) + pending.length := by
  induction entries generalizing visited pending with
  | nil =>
    cases h
    exact Nat.le_refl _
  | cons _ _ ih =>
    rw [examine] at h
    split at h
    · exact ih h
    split at h
    · cases h
    split at h
    · cases h
    split at h
    · cases h
    · have hrest := ih h
      rw [List.length_cons] at hrest
      omega
    · have hrest := ih h
      omega

/-- What is found is what was looked for. -/
theorem examine_found {identity : FileIdentity} {path : PathBuf}
    (h : examine config requested relative visited pending entries = .found identity path) :
    config.digests.stableNodeId identity = requested := by
  induction entries generalizing visited pending with
  | nil => cases h
  | cons _ _ ih =>
    rw [examine] at h
    split at h
    · exact ih h
    split at h
    · cases h
    split at h
    · rename_i hid
      cases h
      exact hid
    split at h
    · cases h
    · exact ih h
    · exact ih h

variable (config)

/-- The loop of `discover_node`; the last of the pending paths comes first. -/
def discoverFrom (i : ℕ) (requested : NodeId) (visited : ℕ) : List PathBuf → Run F Unit
  | [] => Call.throw .invalidNode
  | relative :: pending => do
    let directory ← openDirectory rootFile relative
    let names ← system (.readdir directory true) id
    let entries ← statEntries directory names
    match _h : examine config requested relative visited pending entries with
    | .failed error => Call.throw error
    | .found identity path => do
      let remembered ← remember config i identity path
      if remembered = requested then pure () else Call.throw .stateUnavailable
    | .more visited' pending' => discoverFrom i requested visited' pending'
termination_by pending => 2 * (config.limits.maxTotalKnownNodes - visited) + pending.length
decreasing_by
  have hmeasure := examine_measure _h
  rw [List.length_cons]
  omega

/-- `discover_node`. -/
def discoverNode (i : ℕ) (requested : NodeId) : Run F Unit :=
  if requested = rootNode then pure () else discoverFrom config i requested 0 [[]]

/-- What the registry knows of a node. -/
def lookUp (node : NodeId) (s : State) : Except ServerError NodeSnapshot × State :=
  match s.nodes.byNode.find node with
  | none => (.error .invalidNode, s)
  | some known => (.ok ⟨known.identity, known.paths⟩, s)

/-- `node_snapshot`. -/
def nodeSnapshot (i : ℕ) (node : NodeId) : Run F NodeSnapshot := do
  let registered ← Call.read fun s => (s.nodes.byNode.find node).isSome
  if registered then pure () else discoverNode config i node
  let snapshot ← atomically (lookUp node)
  trackNode config i node
  pure snapshot

end Discovery

/-! ## Walking changes nothing -/

section Maintains

variable {E : Type} {answer : E → (q : HostCall) → E × q.Answer} {K : Point F.sig E → Prop}

variable (answer K) in
/-- Calls that only look do not concern `K`. -/
def Unseen : Prop :=
  ∀ q : HostCall, q.mutates = false → ∀ c, K c → K { c with env := (answer c.env q).1 }

theorem Unseen.system {α : Type} (hK : Unseen answer K) {call : HostCall}
    {read : call.Answer → Except Errno α} (hcall : call.mutates = false) :
    Maintains answer K (Export.system call read : Run F α) :=
  maintains_system (hK call hcall)

theorem maintains_openComponents (hK : Unseen answer K) (current : Fd) (path : PathBuf) :
    Maintains answer K (openComponents current path : Run F Fd) := by
  induction path generalizing current with
  | nil => exact Maintains.pure
  | cons _ _ ih =>
    rw [openComponents]
    split
    · exact (hK.system rfl).bind ih
    · exact Maintains.throw

theorem maintains_statEntries (hK : Unseen answer K) (directory : Fd)
    (names : List (Except Errno Name)) :
    Maintains answer K (statEntries directory names : Run F (List (Name × Stat))) := by
  induction names with
  | nil => exact Maintains.pure
  | cons name _ ih =>
    cases name with
    | error => exact Maintains.throw
    | ok => exact (hK.system rfl).bind fun _ => ih.bind fun _ => Maintains.pure

end Maintains

end QuickFS.Export
