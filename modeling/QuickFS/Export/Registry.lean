import QuickFS.Export.Host
import QuickFS.Lib.Sequential
import QuickFS.Lib.Entries
import Mathlib.Data.List.Dedup

/-!
# The registry of nodes

An export knows some of the objects below its root: each has a node identifier, the host's identity
of it, the paths it has been seen under, and the number of sessions that refer to it.  A session in
turn lists the nodes it refers to.  Both are bounded, by permits: a node in the registry holds one
of the export's, an entry of a session's list one of the session's, and when there are none left
something is evicted.

The functions here are those of `ExportSession` that work on the two, from `track_node` to
`update_registry_after_rename`.  What the source does under a lock is one access to the state
(`atomically`), and so is a permit taken from an eviction that was made for it.  Which entry of a
hash map comes first is not specified; `hashOrder` decides.
-/

namespace QuickFS.Export

open Server Async
open Call (Wp Maintains)

/-! ## State -/

structure Limits where
  maxReadSize : ℕ
  maxWriteSize : ℕ
  maxOpenHandles : ℕ
  maxKnownNodes : ℕ
  maxTotalKnownNodes : ℕ
deriving DecidableEq

/-- What does not change while the server runs: `persistent` is whether there is a state directory.
-/
structure Config where
  limits : Limits
  writable : Bool
  persistent : Bool
  digests : Digests
  hashOrder : List NodeId → ℕ

structure KnownNode where
  identity : FileIdentity
  paths : List PathBuf
  sessionReferences : ℕ
deriving DecidableEq

structure NodeRegistry where
  byNode : Entries NodeId KnownNode
  byIdentity : Entries FileIdentity NodeId
deriving DecidableEq

structure OpenFile where
  file : Fd
  node : NodeId
  identity : FileIdentity
  access : FileAccess
  append : Bool
deriving DecidableEq

/-- `ExportSession`. -/
structure Session where
  writeAuthorized : Bool
  knownNodes : List NodeId
  nodePermits : ℕ
  handles : Entries FileHandle OpenFile
deriving DecidableEq

/-- `ExportShared`, what of it changes, and the sessions there are.  A session that has ended lists
nothing. -/
structure State where
  nodes : NodeRegistry
  nodePermits : ℕ
  handlePermits : ℕ
  sessions : List Session
  volumeName : Bytes
deriving DecidableEq

/-- `usize::MAX`. -/
def usizeMax : ℕ := 2 ^ 64 - 1

/-- The export when it is opened. -/
def State.new (config : Config) (rootIdentity : FileIdentity) (volumeName : Bytes) : State where
  nodes := ⟨[(rootNode, ⟨rootIdentity, [[]], usizeMax⟩)], [(rootIdentity, rootNode)]⟩
  nodePermits := config.limits.maxTotalKnownNodes - 1
  handlePermits := config.limits.maxOpenHandles
  sessions := []
  volumeName := volumeName

/-- `session_with_writes`. -/
def Session.new (config : Config) (writeAuthorized : Bool) : Session :=
  ⟨writeAuthorized, [rootNode], config.limits.maxKnownNodes - 1, []⟩

/-- A session that there is not. -/
def Session.ended : Session := ⟨false, [], 0, []⟩

namespace State

variable (s : State)

def session (i : ℕ) : Session := s.sessions.getD i .ended

def setSession (i : ℕ) (session : Session) : State :=
  { s with sessions := s.sessions.set i session }

/-- A permit of a session is dropped. -/
def dropSessionPermit (i : ℕ) : State :=
  s.setSession i { s.session i with nodePermits := (s.session i).nodePermits + 1 }

/-- A permit of the export is dropped. -/
def dropNodePermit : State := { s with nodePermits := s.nodePermits + 1 }

end State

/-! ## Programs -/

/-- What a program made of these functions is about, besides the export: the host, and what can be
called. -/
structure Frame where
  Env : Type
  Choice : Type
  Op : Type
  Result : Type

@[reducible]
def Frame.sig (F : Frame) : Sig where
  Shared := State
  Env := F.Env
  Choice := F.Choice
  Question := HostCall
  Answer := HostCall.Answer
  Result := F.Result
  Op := F.Op

/-- A function of the server. -/
abbrev Run (F : Frame) (α : Type) := Call F.sig ServerError α

variable {F : Frame} {α : Type}

/-- What is done under a lock. -/
def atomically (f : State → Except ServerError α × State) : Run F α := do
  let outcome ← Call.access (fun _ => true) (fun s => (f s).2) fun s => (f s).1
  Call.ofExcept outcome

/-- A call of the system, and what it answers. -/
def host (call : HostCall) : Run F call.Answer := Call.ask (S := F.sig) call

/-- A call of the system, and its error as one of the server. -/
def system (call : HostCall) (read : call.Answer → Except Errno α) : Run F α := do
  let answer ← host call
  match read answer with
  | .ok a => pure a
  | .error errno => Call.throw (fromErrno errno)

/-- `m`, and if it fails `release`: what has been acquired for the rest is dropped. -/
def releasing (release : State → State) (m : Run F α) : Run F α := do
  let outcome ← Call.attempt m
  match outcome with
  | .ok a => pure a
  | .error error => do
    Call.modify release
    Call.throw error

/-- `m`, if the condition is met. -/
def provided (condition : Bool) (m : Run F Unit) : Run F Unit := if condition then m else pure ()

/-- `m` of the value, if there is one. -/
def optionally {β : Type} (value : Option β) (m : β → Run F Unit) : Run F Unit :=
  match value with
  | some value => m value
  | none => pure ()

section Rules

variable {E : Type} {answer : E → (q : HostCall) → E × q.Answer} {c : Point F.sig E}
  {Q : Except ServerError α → Point F.sig E → Prop} {K : Point F.sig E → Prop}

theorem wp_atomically {f : State → Except ServerError α × State}
    (h : Q (f c.shared).1 { c with shared := (f c.shared).2 }) :
    Wp answer (atomically f : Run F α) c Q :=
  Wp.bind_access rfl (Wp.ofExcept h)

theorem wp_system {call : HostCall} {read : call.Answer → Except Errno α}
    (h : match read (answer c.env call).2 with
      | .ok a => Q (.ok a) { c with env := (answer c.env call).1 }
      | .error errno => Q (.error (fromErrno errno)) { c with env := (answer c.env call).1 }) :
    Wp answer (system call read : Run F α) c Q := by
  refine Wp.bind_ask ?_
  split
  · rename_i a ha
    rw [ha] at h
    exact Wp.pure h
  rename_i errno herrno
  rw [herrno] at h
  exact Wp.throw h

theorem wp_releasing {release : State → State} {m : Run F α}
    (h : Wp answer m c fun r c' => match r with
      | .ok a => Q (.ok a) c'
      | .error e => Q (.error e) { c' with shared := release c'.shared }) :
    Wp answer (releasing release m) c Q := by
  refine Wp.bind (Wp.attempt (h.conseq fun r c' hr => ?_))
  cases r with
  | ok => exact Wp.pure hr
  | error => exact Wp.bind_modify (Wp.throw hr)

theorem maintains_atomically {f : State → Except ServerError α × State}
    (h : ∀ c, K c → K { c with shared := (f c.shared).2 }) :
    Maintains answer K (atomically f : Run F α) :=
  fun c hc => wp_atomically (h c hc)

theorem maintains_releasing {release : State → State} {m : Run F α}
    (hm : Maintains answer K m) (h : ∀ c, K c → K { c with shared := release c.shared }) :
    Maintains answer K (releasing release m) := by
  refine fun c hc => wp_releasing ((hm c hc).conseq fun r c' hc' => ?_)
  cases r with
  | ok => exact hc'
  | error => exact h c' hc'

theorem maintains_system {call : HostCall} {read : call.Answer → Except Errno α}
    (h : ∀ c, K c → K { c with env := (answer c.env call).1 }) :
    Maintains answer K (system call read : Run F α) := by
  refine Maintains.bind (Maintains.ask h) fun a => ?_
  split
  · exact Maintains.pure
  · exact Maintains.throw

end Rules

/-! ## Evictions -/

section Functions

variable (config : Config)

/-- The one of several entries of a hash map that comes first. -/
def firstOf (candidates : List NodeId) : Option NodeId :=
  candidates[config.hashOrder candidates % candidates.length]?

/-- What is known of a node is replaced. -/
def NodeRegistry.put (nodes : NodeRegistry) (node : NodeId) (known : KnownNode) : NodeRegistry :=
  { nodes with byNode := nodes.byNode.insert node known }

/-- The registry with one reference to a node less. -/
def NodeRegistry.release (nodes : NodeRegistry) (node : NodeId) : NodeRegistry :=
  match nodes.byNode.find node with
  | some known =>
    nodes.put node { known with sessionReferences := known.sessionReferences - 1 }
  | none => nodes

/-- `evict_unreferenced_session_node`. -/
def evictUnreferencedSessionNode (i : ℕ) (s : State) : Bool × State :=
  let session := s.session i
  let pinned := session.handles.map fun handle => handle.2.node
  let candidates := session.knownNodes.filter fun node =>
    decide (node ≠ rootNode) && decide (node ∉ pinned)
  match firstOf config candidates with
  | none => (false, s)
  | some node =>
    (true, { s.setSession i { session with
        knownNodes := session.knownNodes.filter fun other => decide (other ≠ node)
        nodePermits := session.nodePermits + 1 } with nodes := s.nodes.release node })

/-- `evict_unreferenced_global_node`. -/
def evictUnreferencedGlobalNode (s : State) : Bool × State :=
  let candidates := (s.nodes.byNode.filter fun entry =>
    decide (entry.1 ≠ rootNode) && decide (entry.2.sessionReferences = 0)).map Prod.fst
  match firstOf config candidates with
  | none => (false, s)
  | some node =>
    match s.nodes.byNode.find node with
    | none => (false, s)
    | some known =>
      (true, { s.dropNodePermit with
        nodes := ⟨s.nodes.byNode.erase node, s.nodes.byIdentity.erase known.identity⟩ })

/-- `try_acquire_owned` of the session's permits. -/
def takeSessionPermit (i : ℕ) (s : State) : Except ServerError Unit × State :=
  let session := s.session i
  if session.nodePermits = 0 then (.error .tooManyNodes, s)
  else (.ok (), s.setSession i { session with nodePermits := session.nodePermits - 1 })

/-- `acquire_session_permit`. -/
def acquireSessionPermit (i : ℕ) (s : State) : Except ServerError Unit × State :=
  match takeSessionPermit i s with
  | (.ok (), s) => (.ok (), s)
  | (.error _, s) =>
    match evictUnreferencedSessionNode config i s with
    | (false, s) => (.error .tooManyNodes, s)
    | (true, s) => takeSessionPermit i s

variable {config} in
/-- What taking a permit keeps, and making room for one, is kept. -/
theorem acquireSessionPermit_keeps {P : State → Prop} {i : ℕ} {s : State}
    (htake : ∀ s, P s → P (takeSessionPermit i s).2)
    (hevict : ∀ s, P s → P (evictUnreferencedSessionNode config i s).2) (h : P s) :
    P (acquireSessionPermit config i s).2 := by
  have h1 := htake s h
  have h2 := hevict _ h1
  rw [acquireSessionPermit]
  split
  · rename_i heq
    rwa [heq] at h1
  rename_i heq
  rw [heq] at h2
  split
  · rename_i heq'
    rwa [heq'] at h2
  rename_i heq'
  rw [heq'] at h2
  exact htake _ h2

/-- `try_acquire_owned` of the export's permits. -/
def takeNodePermit (s : State) : Except ServerError Unit × State :=
  if s.nodePermits = 0 then (.error .tooManyNodes, s)
  else (.ok (), { s with nodePermits := s.nodePermits - 1 })

/-- The rest of `reserve_node`. -/
def acquireNodePermit (s : State) : Except ServerError Unit × State :=
  match takeNodePermit s with
  | (.ok (), s) => (.ok (), s)
  | (.error _, s) =>
    match evictUnreferencedGlobalNode config s with
    | (false, s) => (.error .tooManyNodes, s)
    | (true, s) => takeNodePermit s

variable {config} in
theorem acquireNodePermit_keeps {P : State → Prop} {s : State}
    (htake : ∀ s, P s → P (takeNodePermit s).2)
    (hevict : ∀ s, P s → P (evictUnreferencedGlobalNode config s).2) (h : P s) :
    P (acquireNodePermit config s).2 := by
  have h1 := htake s h
  have h2 := hevict _ h1
  rw [acquireNodePermit]
  split
  · rename_i heq
    rwa [heq] at h1
  rename_i heq
  rw [heq] at h2
  split
  · rename_i heq'
    rwa [heq'] at h2
  rename_i heq'
  rw [heq'] at h2
  exact htake _ h2

/-- `reserve_node`: a permit of the session and one of the export. -/
def reserveNode (i : ℕ) : Run F Unit := do
  atomically (acquireSessionPermit config i)
  releasing (·.dropSessionPermit i) (atomically (acquireNodePermit config))

/-! ## References -/

/-- `track_node_with_permit`. -/
def trackNodeWithPermit (i : ℕ) (node : NodeId) (s : State) : Except ServerError Unit × State :=
  let session := s.session i
  if node ∈ session.knownNodes then (.ok (), s.dropSessionPermit i)
  else
    match s.nodes.byNode.find node with
    | none => (.error .invalidNode, s.dropSessionPermit i)
    | some known =>
      if known.sessionReferences + 1 > usizeMax then
        (.error .stateUnavailable, s.dropSessionPermit i)
      else
        (.ok (), { s.setSession i { session with knownNodes := node :: session.knownNodes } with
          nodes := s.nodes.put node
            { known with sessionReferences := known.sessionReferences + 1 } })

/-- `track_node`. -/
def trackNode (i : ℕ) (node : NodeId) : Run F Unit := do
  let known ← Call.read fun s => decide (node ∈ (s.session i).knownNodes)
  if known then pure ()
  else do
    atomically (acquireSessionPermit config i)
    atomically (trackNodeWithPermit i node)

/-- `release_node_reference`. -/
def releaseNodeReference (node : NodeId) (s : State) : Except ServerError Unit × State :=
  if node = rootNode then (.ok (), s)
  else
    match s.nodes.byNode.find node with
    | none => (.ok (), s)
    | some known =>
      if known.sessionReferences = 0 then (.error .stateUnavailable, s)
      else (.ok (), { s with nodes := s.nodes.release node })

/-- `known.paths.insert(path)`. -/
def insertPath (path : PathBuf) (paths : List PathBuf) : List PathBuf :=
  if path ∈ paths then paths else paths.orderedInsert (fun a b => a ≤ b) path

/-- A node that is known by its identity gets another path. -/
def rememberExisting (identity : FileIdentity) (path : PathBuf) (s : State) :
    Except ServerError (Option NodeId) × State :=
  match s.nodes.byIdentity.find identity with
  | none => (.ok none, s)
  | some node =>
    (.ok (some node),
      match s.nodes.byNode.find node with
      | none => s
      | some known =>
        { s with nodes := s.nodes.put node { known with paths := insertPath path known.paths } })

/-- What `remember_reserved` does under the lock of the registry: the node, which holds the permit
of the export if it is new. -/
def insertReserved (identity : FileIdentity) (path : PathBuf) (s : State) :
    Except ServerError NodeId × State :=
  match rememberExisting identity path s with
  | (.ok (some node), s) => (.ok node, s.dropNodePermit)
  | (_, s) =>
    let node := config.digests.stableNodeId identity
    if node = rootNode ∨ (∃ known ∈ s.nodes.byNode.find node, known.identity ≠ identity) then
      (.error .stateUnavailable, s.dropNodePermit)
    else
      (.ok node, { s with nodes :=
        ⟨s.nodes.byNode.insert node ⟨identity, [path], 0⟩, s.nodes.byIdentity.insert identity node⟩ })

/-- `remember_reserved`, with the two permits. -/
def rememberReserved (i : ℕ) (identity : FileIdentity) (path : PathBuf) : Run F NodeId := do
  let node ← releasing (·.dropSessionPermit i) (atomically (insertReserved config identity path))
  atomically (trackNodeWithPermit i node)
  pure node

/-- `remember`. -/
def remember (i : ℕ) (identity : FileIdentity) (path : PathBuf) : Run F NodeId := do
  let existing ← atomically (rememberExisting identity path)
  match existing with
  | some node => do
    trackNode config i node
    pure node
  | none => do
    reserveNode config i
    rememberReserved config i identity path

/-- `MAX_FORGET_NODES`. -/
def maxForgetNodes : ℕ := 65536

/-- What `forget_nodes` does under the lock of the session's list. -/
def forgetKnown (i : ℕ) (requested : List NodeId) (s : State) :
    Except ServerError (List NodeId) × State :=
  let session := s.session i
  let released := requested.dedup.filter fun node =>
    decide (node ≠ rootNode) && decide (node ∈ session.knownNodes)
  (.ok released, s.setSession i { session with
    knownNodes := session.knownNodes.filter fun node => decide (node ∉ released)
    nodePermits := session.nodePermits + released.length })

/-- `forget_nodes`. -/
def forgetNodes (i : ℕ) (requested : List NodeId) : Run F Unit :=
  if requested.length > maxForgetNodes then
    Call.throw (.invalidRequest "too many nodes in one forget request")
  else do
    let released ← atomically (forgetKnown i requested)
    released.forM fun node => atomically (releaseNodeReference node)

/-- What `drop` does with the session's list; its handles go with it. -/
def drainKnown (i : ℕ) (s : State) : Except ServerError (List NodeId) × State :=
  let session := s.session i
  (.ok (session.knownNodes.filter fun node => decide (node ≠ rootNode)),
    { s.setSession i { session with knownNodes := [], handles := [] } with
      handlePermits := s.handlePermits + session.handles.length })

/-- `drop` of a session, but for its locks.  An error is ignored. -/
def dropSession (i : ℕ) : Run F Unit := do
  let nodes ← atomically (drainKnown i)
  nodes.forM fun node => do
    let _ ← Call.attempt (atomically (releaseNodeReference node) : Run F Unit)
    pure ()

end Functions

/-! ## Paths -/

/-- `is_path_or_descendant`. -/
def isPathOrDescendant (candidate path : PathBuf) : Bool := path.isPrefixOf candidate

/-- `replace_prefix`. -/
def replacePrefix (path old new : PathBuf) : PathBuf :=
  if old.isPrefixOf path then new ++ path.drop old.length else path

namespace NodeRegistry

variable (nodes : NodeRegistry)

/-- The paths of a node are changed if `which` is true of it. -/
def repath (which : NodeId → KnownNode → Bool) (f : List PathBuf → List PathBuf) (node : NodeId)
    (known : KnownNode) : KnownNode :=
  if which node known then { known with paths := f known.paths } else known

/-- The paths of every node that `which` is true of are changed. -/
def mapPaths (which : NodeId → KnownNode → Bool) (f : List PathBuf → List PathBuf) : NodeRegistry :=
  { nodes with byNode := nodes.byNode.map fun entry => (entry.1, repath which f entry.1 entry.2) }

/-- A node other than the root that has no path left. -/
def isEmpty (entry : NodeId × KnownNode) : Bool :=
  decide (entry.1 ≠ rootNode) && entry.2.paths.isEmpty

/-- The nodes that have no path left. -/
def empty : Entries NodeId KnownNode := nodes.byNode.filter isEmpty

/-- They are removed. -/
def removeEmpty : NodeRegistry where
  byNode := nodes.byNode.filter fun entry => !isEmpty entry
  byIdentity := nodes.byIdentity.filter fun entry =>
    decide (entry.1 ∉ nodes.empty.map fun removed => removed.2.identity)

end NodeRegistry

/-- The nodes that have no path left are removed, and drop their permits. -/
def State.removeEmpty (s : State) : State :=
  { s with nodes := s.nodes.removeEmpty, nodePermits := s.nodePermits + s.nodes.empty.length }

/-- `remove_registry_path`. -/
def removeRegistryPath (path : PathBuf) (descendants : Bool) (s : State) :
    Except ServerError Unit × State :=
  (.ok (), State.removeEmpty { s with
    nodes := s.nodes.mapPaths (fun node _ => decide (node ≠ rootNode)) fun paths =>
      paths.filter fun candidate =>
        if descendants then !isPathOrDescendant candidate path else decide (candidate ≠ path) })

/-- Where a path leads after a rename. -/
def renamedPath (old new : PathBuf) (mode : RenameMode) (path : PathBuf) : PathBuf :=
  match mode with
  | .exchange =>
    if isPathOrDescendant path old then replacePrefix path old new
    else if isPathOrDescendant path new then replacePrefix path new old
    else path
  | .replace | .noReplace =>
    if isPathOrDescendant path old then replacePrefix path old new else path

/-- `update_registry_after_rename`. -/
def updateRegistryAfterRename (old new : PathBuf) (mode : RenameMode)
    (sourceIdentity : FileIdentity) (destinationIdentity : Option FileIdentity) (s : State) :
    Except ServerError Unit × State :=
  if destinationIdentity = some sourceIdentity then (.ok (), s)
  else
    let nodes := if mode = .replace then
        s.nodes.mapPaths (fun _ known => decide (known.identity ≠ sourceIdentity)) fun paths =>
          paths.filter fun candidate => !isPathOrDescendant candidate new
      else s.nodes
    let nodes := nodes.mapPaths (fun _ _ => true) fun paths =>
      (paths.map (renamedPath old new mode)).foldr insertPath []
    (.ok (), State.removeEmpty { s with nodes := nodes })

end QuickFS.Export
