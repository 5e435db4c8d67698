import QuickFS.Client.Remote
import QuickFS.Lib.Call

/-!
# The resilient client

`ResilientFilesystem` of `crates/client-core/src/resilient.rs`: a remote file system that outlives
the connection it started with.  It keeps one connection at a time, numbered by a generation; when a
call finds the connection broken it says so (`markFailed`) and whoever needs a connection next
replaces it (`reconnectAfter`).  Callers hold *logical* handles, which name an entry of a table with
what is needed to open the file again on another connection (`remoteHandle`).

Calls run concurrently.  Every method is a `Call` over the fields of the structure, with one step
for each access the source makes to a lock or an atomic, and one question for each `await` on
something outside: the connector, a connection, and the clock.  A guard held across an `await` is a
field that says which task holds it; a guard taken and dropped within one statement is part of the
step.

The UUID of a new logical handle is modelled by a counter, which is what its freshness amounts to.
-/

namespace QuickFS.Resilient

open Async
open Call (ofExcept ask access)

/-! ## State -/

/-- One of the connections the connector has made. -/
abbrev Connection := ℕ

/-- A point in time, in the unit of `Duration`. -/
abbrev Instant := ℕ

structure ReconnectPolicy where
  attempts : ℕ
  initialBackoff : ℕ
  maximumBackoff : ℕ
deriving DecidableEq

structure ConnectionSlot where
  generation : ℕ
  filesystem : Connection
deriving DecidableEq

/-- `mutation` is the name of the mutex that the clones of one entry share. -/
structure HandleState where
  node : NodeId
  options : FileOpenOptions
  remote : FileHandle
  revision : FileRevision
  size : ℕ
  generation : ℕ
  lockHistory : List FileLock
  mutation : ℕ
deriving DecidableEq

/-- The fields of `ResilientFilesystem` that never change. -/
structure Config where
  policy : ReconnectPolicy
  serverEpoch : Option Uuid

/-- The fields that do.  `reconnect` and `handlesWriter` are the tasks that hold the reconnect mutex
and the write guard of `handles`; `mutations` are the per-handle mutexes that are locked. -/
structure State where
  connection : ConnectionSlot
  failedGeneration : ℕ
  reconnect : Option ℕ
  lastFailure : Option (ℕ × Instant)
  handles : FileHandle → Option HandleState
  handlesWriter : Option ℕ
  mutations : List ℕ
  nextHandle : FileHandle

/-- `ResilientFilesystem::new`, once the epoch of the initial connection is known. -/
def State.new (initial : Connection) : State where
  connection := ⟨1, initial⟩
  failedGeneration := 0
  reconnect := none
  lastFailure := none
  handles := fun _ => none
  handlesWriter := none
  mutations := []
  nextHandle := 0

/-- Replace one entry of the handle table. -/
def State.setHandle (s : State) (logical : FileHandle) (state : Option HandleState) : State :=
  { s with handles := fun h => if h = logical then state else s.handles h }

/-! ## The outside -/

inductive Question where
  | connect
  | call (slot : ConnectionSlot) (operation : RemoteCall)
  | now
  | sleep (duration : ℕ)

abbrev Question.Answer : Question → Type
  | connect => Except ClientError Connection
  | call _ operation => operation.Reply
  | now => Instant
  | sleep _ => Unit

abbrev sig : Sig where
  Shared := State
  Env := Unit
  Choice := (q : Question) → q.Answer
  Question := Question
  Answer := Question.Answer
  Result := (operation : RemoteCall) × operation.Reply
  Op := RemoteCall

/-- Connections and clock answer as they like, except that a connection never reports
`AmbiguousMutation`: that error is this layer's own. -/
def serve (_ : Unit) (choice : (q : Question) → q.Answer) (q : Question) :
    Option (Unit × q.Answer) :=
  match q with
  | .call slot operation =>
    match choice (.call slot operation) with
    | .error .ambiguousMutation => none
    | answer => some ((), answer)
  | q => some ((), choice q)

abbrev M := Call sig ClientError

/-- A method of `slot.filesystem`. -/
def call (slot : ConnectionSlot) (operation : RemoteCall) : M operation.Reply :=
  ask (S := sig) (.call slot operation)

/-- Access the handle table for one statement, which has to wait for a guard that is held. -/
def withHandles {α : Type} (update : State → State) (read : State → α) : M α :=
  access (fun s => s.handlesWriter.isNone) update read

/-- `mutation.lock()`, for the rest of the call. -/
def locking {α : Type} (mutation : ℕ) (m : M α) : M α :=
  Call.holding
    (access (fun s => decide (mutation ∉ s.mutations))
      (fun s => { s with mutations := mutation :: s.mutations }) fun _ => ())
    (Call.modify fun s => { s with mutations := s.mutations.erase mutation }) m

/-! ## Connections -/

def capabilityEpoch (slot : ConnectionSlot) : M (Option Uuid) := do
  match ← call slot .capabilities with
  | .ok capabilities => pure (some capabilities.serverEpoch)
  | .error (.server .notSupported _) => pure none
  | .error error => Call.throw error

def markFailed (generation : ℕ) : M Unit :=
  Call.modify fun s => { s with failedGeneration := generation }

def epochChanged : ClientError :=
  .server .conflict "server epoch changed; existing inode and cache state is stale"

section Program

variable (config : Config) (me : ℕ)

/-- The loop of `reconnect_after`, with the number of attempts that are left. -/
def reconnectAttempts (failedGeneration : ℕ) : ℕ → ℕ → M ConnectionSlot
  | 0, _ => Call.throw .offline
  | left + 1, backoff => do
    match ← ask (S := sig) .connect with
    | .ok filesystem =>
      let slot : ConnectionSlot := ⟨saturatingAdd failedGeneration 1, filesystem⟩
      let epoch ← capabilityEpoch slot
      if config.serverEpoch.isSome && epoch != config.serverEpoch then
        Call.throw epochChanged
      else do
        Call.modify fun s => { s with connection := slot }
        Call.modify fun s => { s with failedGeneration := 0 }
        Call.modify fun s => { s with lastFailure := none }
        pure slot
    | .error _ =>
      if left = 0 then do
        let now ← ask (S := sig) .now
        Call.modify fun s => { s with lastFailure := some (failedGeneration, now) }
        Call.throw .offline
      else do
        let _ ← ask (S := sig) (.sleep backoff)
        reconnectAttempts failedGeneration left (min (backoff * 2) config.policy.maximumBackoff)

/-- Whether a failed batch of attempts is recent enough to be shared. -/
def recentlyFailed (failedGeneration : ℕ) : M Bool := do
  match ← Call.read (fun s => s.lastFailure) with
  | none => pure false
  | some (generation, failedAt) =>
    if generation = failedGeneration then do
      let now ← ask (S := sig) .now
      pure (decide (now - failedAt < config.policy.maximumBackoff))
    else pure false

/-- The body of `reconnect_after`, under the mutex. -/
def reconnectLocked (failedGeneration : ℕ) : M ConnectionSlot := do
  let current ← Call.read fun s => s.connection
  if current.generation ≠ failedGeneration then pure current
  else do
    let failed ← Call.read fun s => s.failedGeneration
    if failed ≠ failedGeneration then pure current
    else do
      let recent ← recentlyFailed config failedGeneration
      if recent then Call.throw .offline
      else
        reconnectAttempts config failedGeneration config.policy.attempts
          config.policy.initialBackoff

def reconnectAfter (failedGeneration : ℕ) : M ConnectionSlot :=
  Call.holding
    (access (fun s => s.reconnect.isNone)
      (fun s => { s with reconnect := some me }) fun _ => ())
    (Call.modify fun s => { s with reconnect := none })
    (reconnectLocked config failedGeneration)

def healthyConnection : M ConnectionSlot := do
  let current ← Call.read fun s => s.connection
  let failed ← Call.read fun s => s.failedGeneration
  if failed = current.generation then reconnectAfter config me current.generation
  else pure current

/-- A call that may be made twice. -/
def safeCall (operation : RemoteCall) : M operation.Output := do
  let first ← healthyConnection config me
  match ← call first operation with
  | .error .transport => do
    markFailed first.generation
    let replacement ← reconnectAfter config me first.generation
    match ← call replacement operation with
    | .error .transport => do
      markFailed replacement.generation
      Call.throw .transport
    | result => ofExcept result
  | result => ofExcept result

/-- The end of a call whose one invocation may have been executed: a transport failure is
ambiguous. -/
def settle {α : Type} (generation : ℕ) : Except ClientError α → M α
  | .error .transport => do
    markFailed generation
    Call.throw .ambiguousMutation
  | result => ofExcept result

/-- A call that is made once. -/
def mutationCall (operation : RemoteCall) : M operation.Output := do
  let slot ← healthyConnection config me
  let result ← call slot operation
  settle slot.generation result

/-! ## Handles -/

def invalidHandle : ClientError := .server .invalidHandle "unknown logical file handle"

def openRemote (node : NodeId) (options : FileOpenOptions) : M (ConnectionSlot × OpenedFile) := do
  let slot ← healthyConnection config me
  match ← call slot (.openFileWithOptions node options) with
  | .ok opened => pure (slot, opened)
  | .error .transport =>
    if options.truncate then do
      markFailed slot.generation
      Call.throw .ambiguousMutation
    else do
      markFailed slot.generation
      let replacement ← reconnectAfter config me slot.generation
      let opened ← call replacement (.openFileWithOptions node options)
      let opened ← ofExcept opened
      pure (replacement, opened)
  | .error error => Call.throw error

/-- The table with a new entry, at the next logical handle. -/
def State.insertHandle (s : State) (node : NodeId) (options : FileOpenOptions)
    (slot : ConnectionSlot) (opened : OpenedFile) : State :=
  { s.setHandle s.nextHandle (some {
      node := node
      options := options
      remote := opened.handle
      revision := opened.revision
      size := opened.size
      generation := slot.generation
      lockHistory := []
      mutation := s.nextHandle }) with nextHandle := s.nextHandle + 1 }

def rememberOpen (node : NodeId) (options : FileOpenOptions) (slot : ConnectionSlot)
    (opened : OpenedFile) : M OpenedFile := do
  let logical ← withHandles (fun s => s.insertHandle node options slot opened) fun s => s.nextHandle
  pure ⟨logical, opened.revision, opened.size⟩

/-- Replay the locks of a handle on the connection it has just been opened on. -/
def replayLocks (slot : ConnectionSlot) (remote : FileHandle) : List FileLock → M Unit
  | [] => pure ()
  | lock :: rest => do
    let result ← call slot (.setLock remote lock false)
    let _ ← ofExcept result
    replayLocks slot remote rest

/-- The entry to go on with after a reopen: the one on record if the revision is the one on record,
and otherwise, for a handle that only reads and holds no locks, the same with the revision found. -/
def adoptReopened (logical : FileHandle) (state : HandleState) (current : ConnectionSlot)
    (reopened : OpenedFile) : M HandleState := do
  if reopened.revision = state.revision then pure state
  else if state.options.access = .readOnly ∧ state.lockHistory = [] then do
    Call.modify fun s =>
      s.setHandle logical (some { state with revision := reopened.revision })
    pure { state with revision := reopened.revision }
  else do
    let _ ← call current (.closeFile reopened.handle)
    Call.throw .staleRevision

/-- The call that opens the file of a handle again: with the options it had, but not truncating. -/
abbrev HandleState.reopenCall (state : HandleState) : RemoteCall :=
  .openFileWithOptions state.node { state.options with truncate := false }

/-- Open the file of a handle again, on a connection that does not know it, and bring the entry up
to date.  The caller holds the write guard. -/
def reopen (logical : FileHandle) (state : HandleState) (current : ConnectionSlot) :
    M (ConnectionSlot × HandleState) := do
  let result ← call current state.reopenCall
  let reopened ← ofExcept result
  let state ← adoptReopened logical state current reopened
  replayLocks current reopened.handle state.lockHistory
  let fresh := { state with
    remote := reopened.handle, size := reopened.size, generation := current.generation }
  Call.modify fun s => s.setHandle logical (some fresh)
  pure (current, fresh)

/-- The slow path of `remote_handle`, under the write guard. -/
def refreshHandle (logical : FileHandle) : M (ConnectionSlot × HandleState) := do
  match ← Call.read fun s => s.handles logical with
  | none => Call.throw invalidHandle
  | some state => do
    let current ← healthyConnection config me
    if state.generation = current.generation then pure (current, state)
    else reopen logical state current

def remoteHandle (logical : FileHandle) : M (ConnectionSlot × HandleState) := do
  let slot ← healthyConnection config me
  match ← withHandles id fun s => s.handles logical with
  | none => Call.throw invalidHandle
  | some existing =>
    if existing.generation = slot.generation then pure (slot, existing)
    else
      Call.holding (withHandles (fun s => { s with handlesWriter := some me }) fun _ => ())
        (Call.modify fun s => { s with handlesWriter := none })
        (refreshHandle config me logical)

/-- Change the entry of a handle, if it is still there. -/
def State.updateHandle (s : State) (logical : FileHandle) (f : HandleState → HandleState) : State :=
  s.setHandle logical ((s.handles logical).map f)

def adoptRevision (logical : FileHandle) (revision : FileRevision) : M Unit :=
  withHandles (fun s => s.updateHandle logical fun state =>
    if revision > state.revision then { state with revision := revision } else state) fun _ => ()

def updateWrittenHandle (logical remote : FileHandle) (generation : ℕ) (result : WriteResult) :
    M Unit :=
  withHandles (fun s => s.updateHandle logical fun state =>
    if state.remote = remote ∧ state.generation = generation then
      { state with revision := result.revision, size := result.size }
    else state) fun _ => ()

/-! ## Operations -/

def openFileWithOptions (node : NodeId) (options : FileOpenOptions) : M OpenedFile := do
  let (slot, opened) ← openRemote config me node options
  rememberOpen node options slot opened

def createFile (parent : NodeId) (name : Name) (mode : ℕ) (options : FileOpenOptions) :
    M CreatedFile := do
  let slot ← healthyConnection config me
  let result ← call slot (.createFile parent name mode options)
  let created ← settle slot.generation result
  let opened ← rememberOpen created.metadata.node options slot created.opened
  pure ⟨created.metadata, opened⟩

/-- What `set_attributes` does once it knows the handle, if there is one. -/
def setAttributesOn (node : NodeId) (handle : Option FileHandle) (remote : Option FileHandle)
    (changes : AttributeChanges) : M Metadata := do
  let metadata ← mutationCall config me (.setAttributes node remote changes)
  match handle with
  | none => pure metadata
  | some logical => do
    withHandles (fun s => s.updateHandle logical fun state =>
      { state with revision := metadata.revision, size := metadata.size }) fun _ => ()
    pure metadata

def setAttributes (node : NodeId) (handle : Option FileHandle) (changes : AttributeChanges) :
    M Metadata :=
  match handle with
  | none => setAttributesOn config me node none none changes
  | some logical => do
    let (_, state) ← remoteHandle config me logical
    locking state.mutation
      (setAttributesOn config me node (some logical) (some state.remote) changes)

/-- `write_range` and `allocate_file`: one invocation, on the connection of the handle, and then the
handle's revision and size are those of the result. -/
def writeThrough (logical : FileHandle)
    (invoke : ConnectionSlot → FileHandle → M (Except ClientError WriteResult)) : M WriteResult := do
  let (slot, state) ← remoteHandle config me logical
  locking state.mutation do
    let result ← invoke slot state.remote
    let result ← settle slot.generation result
    updateWrittenHandle logical state.remote slot.generation result
    pure result

def writeRange (handle : FileHandle) (offset : ℕ) (data : List UInt8) : M WriteResult :=
  writeThrough config me handle fun slot remote =>
    call slot (.writeRange remote offset data)

def allocateFile (handle : FileHandle) (offset length : ℕ) : M WriteResult :=
  writeThrough config me handle fun slot remote =>
    call slot (.allocateFile remote offset length)

/-- `flush_file` and `sync_file`. -/
def flushThrough (logical : FileHandle)
    (invoke : ConnectionSlot → FileHandle → M (Except ClientError Unit)) : M Unit := do
  let (slot, state) ← remoteHandle config me logical
  locking state.mutation do
    let result ← invoke slot state.remote
    settle slot.generation result

def flushFile (handle : FileHandle) (lockOwner : Option ℕ) : M Unit :=
  flushThrough config me handle fun slot remote =>
    call slot (.flushFile remote lockOwner)

def syncFile (handle : FileHandle) (dataOnly : Bool) : M Unit :=
  flushThrough config me handle fun slot remote =>
    call slot (.syncFile remote dataOnly)

def copyFileRange (input : FileHandle) (inputOffset : ℕ) (output : FileHandle)
    (outputOffset length : ℕ) : M WriteResult := do
  let (inputSlot, inputState) ← remoteHandle config me input
  let (outputSlot, outputState) ← remoteHandle config me output
  if inputSlot.generation ≠ outputSlot.generation then Call.throw .staleRevision
  else
    locking outputState.mutation do
      let result ← call inputSlot
        (.copyFileRange inputState.remote inputOffset outputState.remote outputOffset length)
      let result ← settle outputSlot.generation result
      updateWrittenHandle output outputState.remote outputSlot.generation result
      pure result

/-- A read that finds a revision the handle has not seen yet makes it the handle's. -/
def adoptRead (handle : FileHandle) (revision : FileRevision) (read : RangeRead) : M RangeRead :=
  if read.revision ≠ revision then do
    adoptRevision handle read.revision
    pure read
  else pure read

def readRangeVersioned (handle : FileHandle) (offset length : ℕ) : M RangeRead := do
  let (slot, state) ← remoteHandle config me handle
  match ← call slot (.readRangeVersioned state.remote offset length) with
  | .ok read => adoptRead handle state.revision read
  | .error .transport => do
    markFailed slot.generation
    let (_, reopened) ← remoteHandle config me handle
    let replacement ← healthyConnection config me
    let result ← call replacement (.readRangeVersioned reopened.remote offset length)
    let read ← ofExcept result
    adoptRead handle reopened.revision read
  | .error error => Call.throw error

/-- `seek_file`, `safe_ioctl` and `get_lock`: a call on a handle that may be made twice. -/
def safeHandleCall {α : Type} (logical : FileHandle)
    (invoke : ConnectionSlot → FileHandle → M (Except ClientError α)) : M α := do
  let (slot, state) ← remoteHandle config me logical
  match ← invoke slot state.remote with
  | .error .transport => do
    markFailed slot.generation
    let (_, reopened) ← remoteHandle config me logical
    let replacement ← healthyConnection config me
    let result ← invoke replacement reopened.remote
    ofExcept result
  | result => ofExcept result

def seekFile (handle : FileHandle) (offset : ℕ) (whence : SeekWhence) : M ℕ :=
  safeHandleCall config me handle fun slot remote =>
    call slot (.seekFile remote offset whence)

def safeIoctl (handle : FileHandle) (operation : SafeIoctl) : M ℕ :=
  safeHandleCall config me handle fun slot remote =>
    call slot (.safeIoctl remote operation)

def getLock (handle : FileHandle) (lock : FileLock) : M (Option FileLock) :=
  safeHandleCall config me handle fun slot remote =>
    call slot (.getLock remote lock)

/-- The lock history after one more lock. -/
def HandleState.pushLock (state : HandleState) (lock : FileLock) : HandleState :=
  let history := state.lockHistory ++ [lock]
  { state with lockHistory :=
      if lock.kind = .unlock ∧ history.length > 4096 then [] else history }

def setLock (handle : FileHandle) (lock : FileLock) (wait : Bool) : M Unit := do
  let (slot, state) ← remoteHandle config me handle
  let result ← call slot (.setLock state.remote lock wait)
  let _ ← settle slot.generation result
  withHandles (fun s => s.updateHandle handle fun state => state.pushLock lock) fun _ => ()

/-- What `close_file` does under the mutex of the handle. -/
def closeLocked (handle : FileHandle) : M Unit := do
  match ← withHandles (fun s => s.setHandle handle none) fun s => s.handles handle with
  | none => Call.throw invalidHandle
  | some state => do
    let slot ← Call.read fun s => s.connection
    if state.generation ≠ slot.generation then pure ()
    else do
      match ← call slot (.closeFile state.remote) with
      | .error .transport => markFailed slot.generation
      | result => ofExcept result

def closeFile (handle : FileHandle) : M Unit := do
  match ← withHandles id fun s => s.handles handle with
  | none => Call.throw invalidHandle
  | some state => locking state.mutation (closeLocked handle)

/-- The implementation of `RemoteFilesystem`. -/
def operation : (op : RemoteCall) → M op.Output
  | .ping nonce => safeCall config me (.ping nonce)
  | .capabilities => safeCall config me .capabilities
  | .statFilesystem => safeCall config me .statFilesystem
  | .getMetadata node => safeCall config me (.getMetadata node)
  | .listDirectorySnapshot node => safeCall config me (.listDirectorySnapshot node)
  | .listDirectoryView node options => safeCall config me (.listDirectoryView node options)
  | .openFileWithOptions node options => openFileWithOptions config me node options
  | .createFile parent name mode options => createFile config me parent name mode options
  | .createDirectory parent name mode => mutationCall config me (.createDirectory parent name mode)
  | .createSymlink parent name target => mutationCall config me (.createSymlink parent name target)
  | .createHardLink node newParent newName =>
    mutationCall config me (.createHardLink node newParent newName)
  | .createSpecialNode parent name kind mode deviceMajor deviceMinor =>
    mutationCall config me (.createSpecialNode parent name kind mode deviceMajor deviceMinor)
  | .removeNode parent name directory => mutationCall config me (.removeNode parent name directory)
  | .renameNode parent name newParent newName mode =>
    mutationCall config me (.renameNode parent name newParent newName mode)
  | .readLink node => safeCall config me (.readLink node)
  | .setAttributes node handle changes => setAttributes config me node handle changes
  | .readRangeVersioned handle offset length => readRangeVersioned config me handle offset length
  | .writeRange handle offset data => writeRange config me handle offset data
  | .flushFile handle lockOwner => flushFile config me handle lockOwner
  | .syncFile handle dataOnly => syncFile config me handle dataOnly
  | .syncDirectory node => mutationCall config me (.syncDirectory node)
  | .allocateFile handle offset length => allocateFile config me handle offset length
  | .getXattr node name offset length => safeCall config me (.getXattr node name offset length)
  | .setXattr node name value mode position =>
    mutationCall config me (.setXattr node name value mode position)
  | .listXattrs node => safeCall config me (.listXattrs node)
  | .removeXattr node name => mutationCall config me (.removeXattr node name)
  | .copyFileRange input inputOffset output outputOffset length =>
    copyFileRange config me input inputOffset output outputOffset length
  | .seekFile handle offset whence => seekFile config me handle offset whence
  | .safeIoctl handle operation => safeIoctl config me handle operation
  | .mapBlock node blockSize block => safeCall config me (.mapBlock node blockSize block)
  | .exchangeData parent name newParent newName options =>
    mutationCall config me (.exchangeData parent name newParent newName options)
  | .setVolumeName name => mutationCall config me (.setVolumeName name)
  | .forgetNodes nodes => safeCall config me (.forgetNodes nodes)
  | .getLock handle lock => getLock config me handle lock
  | .setLock handle lock wait => setLock config me handle lock wait
  | .closeFile handle => closeFile handle

end Program

/-! ## Getting a connection -/

/-- The questions that are asked to get a connection. -/
def Connecting : Question → Prop
  | .call _ op => op = .capabilities
  | _ => True

/-- What is done to get a connection: no other question is asked, and the handles are left alone. -/
inductive Connects : {α : Type} → M α → Prop
  | ofExcept {α : Type} (r : Except ClientError α) : Connects (ofExcept r)
  | bind {α β : Type} {m : M β} {f : β → M α} (hm : Connects m) (hf : ∀ b, Connects (f b)) :
      Connects (m >>= f)
  | attempt {α : Type} {m : M α} (hm : Connects m) : Connects (Call.attempt m)
  | ask {q : Question} (h : Connecting q) : Connects (ask (S := sig) q)
  | access {α : Type} {ready : State → Bool} {update : State → State} {read : State → α}
      (h : ∀ s, (update s).handles = s.handles) :
      Connects (access ready update read)

namespace Connects

variable {α : Type} {config : Config} {me : ℕ} (failedGeneration : ℕ)

theorem pure (a : α) : Connects (Pure.pure a) := ofExcept (.ok a)

theorem throw (e : ClientError) : Connects (Call.throw e : M α) := ofExcept (.error e)

theorem read {f : State → α} : Connects (Call.read f) := access fun _ => rfl

theorem modify {f : State → State} (h : ∀ s, (f s).handles = s.handles) :
    Connects (Call.modify f) :=
  access h

theorem capabilityEpoch (slot : ConnectionSlot) : Connects (capabilityEpoch slot) := by
  refine bind (ask (q := .call slot .capabilities) rfl) fun a => ?_
  split
  · exact pure _
  · exact pure _
  · exact throw _

theorem reconnectAttempts (left backoff : ℕ) :
    Connects (reconnectAttempts config failedGeneration left backoff) := by
  induction left generalizing backoff with
  | zero => exact throw _
  | succ left ih =>
    refine bind (ask trivial) fun a => ?_
    cases a with
    | ok =>
      refine bind (capabilityEpoch _) fun epoch => ?_
      split
      · exact throw _
      · exact bind (modify fun _ => rfl) fun _ => bind (modify fun _ => rfl) fun _ =>
          bind (modify fun _ => rfl) fun _ => pure _
    | error =>
      change Connects (if left = 0 then _ else _)
      split
      · exact bind (ask trivial) fun _ => bind (modify fun _ => rfl) fun _ => throw _
      · exact bind (ask trivial) fun _ => ih _

theorem recentlyFailed : Connects (recentlyFailed config failedGeneration) := by
  refine bind read fun a => ?_
  split
  · exact pure _
  split
  · exact bind (ask trivial) fun _ => pure _
  · exact pure _

theorem reconnectLocked : Connects (reconnectLocked config failedGeneration) := by
  refine bind read fun current => ?_
  split
  · exact pure _
  refine bind read fun failed => ?_
  split
  · exact pure _
  refine bind (recentlyFailed _) fun recent => ?_
  split
  · exact throw _
  · exact reconnectAttempts _ _ _

theorem reconnectAfter : Connects (reconnectAfter config me failedGeneration) :=
  bind (access fun _ => rfl) fun _ => bind (attempt (reconnectLocked _)) fun _ =>
    bind (modify fun _ => rfl) fun _ => ofExcept _

theorem healthyConnection : Connects (healthyConnection config me) := by
  refine bind read fun current => bind read fun failed => ?_
  split
  · exact reconnectAfter _
  · exact pure _

end Connects

/-! ## What operations are made of -/

/-- A kind of call that has what an operation does besides its invocations. -/
structure Closed (config : Config) (me : ℕ) (K : {α : Type} → M α → Prop) : Prop where
  ofExcept : ∀ {α : Type} (r : Except ClientError α), K (ofExcept r)
  bind : ∀ {α β : Type} {m : M β} {f : β → M α}, K m → (∀ b, K (f b)) → K (m >>= f)
  markFailed : ∀ generation, K (markFailed generation)
  healthy : K (healthyConnection config me)
  reconnect : ∀ generation, K (reconnectAfter config me generation)

/-- The same for operations on handles. -/
structure ClosedOnHandles (config : Config) (me : ℕ) (K : {α : Type} → M α → Prop) : Prop
    extends Closed config me K where
  remoteHandle : ∀ logical, K (remoteHandle config me logical)
  updateHandle : ∀ logical (f : HandleState → HandleState),
    (∀ state, ((f state).generation, (f state).options) = (state.generation, state.options)) →
    K (withHandles (fun s => s.updateHandle logical f) fun _ => ())

section

variable {config : Config} {me : ℕ} {K : {α : Type} → M α → Prop} {α : Type} {op : RemoteCall}

theorem Closed.settle (h : Closed config me K) (generation : ℕ) (r : Except ClientError α) :
    K (settle generation r) := by
  rw [Resilient.settle.eq_def]
  split
  · exact h.bind (h.markFailed _) fun _ => h.ofExcept (.error _)
  · exact h.ofExcept _

theorem Closed.safeCall (h : Closed config me K) (hcall : ∀ slot, K (call slot op)) :
    K (safeCall config me op) := by
  refine h.bind h.healthy fun first => h.bind (hcall first) fun a => ?_
  split
  · refine h.bind (h.markFailed _) fun _ => h.bind (h.reconnect _) fun replacement =>
      h.bind (hcall replacement) fun b => ?_
    split
    · exact h.bind (h.markFailed _) fun _ => h.ofExcept (.error _)
    · exact h.ofExcept _
  · exact h.ofExcept _

theorem Closed.mutationCall (h : Closed config me K) (hcall : ∀ slot, K (call slot op)) :
    K (mutationCall config me op) :=
  h.bind h.healthy fun slot => h.bind (hcall slot) fun _ => h.settle _ _

namespace ClosedOnHandles

variable (h : ClosedOnHandles config me K) (handle : FileHandle)

include h

theorem safeHandleCall {invoke : ConnectionSlot → FileHandle → M (Except ClientError α)}
    (hinvoke : ∀ slot remote, K (invoke slot remote)) :
    K (safeHandleCall config me handle invoke) := by
  refine h.bind (h.remoteHandle _) fun p => h.bind (hinvoke _ _) fun a => ?_
  split
  · exact h.bind (h.markFailed _) fun _ => h.bind (h.remoteHandle _) fun _ => h.bind h.healthy
      fun _ => h.bind (hinvoke _ _) fun _ => h.ofExcept _
  · exact h.ofExcept _

theorem adoptRead (revision : FileRevision) (read : RangeRead) :
    K (adoptRead handle revision read) := by
  rw [Resilient.adoptRead]
  split
  · exact h.bind (h.updateHandle _ _ fun _ => by split <;> rfl) fun _ => h.ofExcept (.ok _)
  · exact h.ofExcept (.ok _)

theorem readRangeVersioned {offset length : ℕ}
    (hcall : ∀ slot remote, K (call slot (.readRangeVersioned remote offset length))) :
    K (readRangeVersioned config me handle offset length) := by
  refine h.bind (h.remoteHandle _) fun p => h.bind (hcall _ _) fun a => ?_
  split
  · exact h.adoptRead _ _ _
  · exact h.bind (h.markFailed _) fun _ => h.bind (h.remoteHandle _) fun _ => h.bind h.healthy
      fun _ => h.bind (hcall _ _) fun _ => h.bind (h.ofExcept _) fun _ => h.adoptRead _ _ _
  · exact h.ofExcept (.error _)

theorem setLock {lock : FileLock} {wait : Bool}
    (hcall : ∀ slot remote, K (call slot (.setLock remote lock wait))) :
    K (setLock config me handle lock wait) :=
  h.bind (h.remoteHandle _) fun _ => h.bind (hcall _ _) fun _ => h.bind (h.settle _ _) fun _ =>
    h.updateHandle _ _ fun _ => rfl

end ClosedOnHandles

end

/-- Any number of concurrent calls of one `ResilientFilesystem`. -/
def program (config : Config) : Program sig where
  code op me := (operation config me op).toTask fun r => ⟨op, r⟩
  serve := serve

end QuickFS.Resilient
