import QuickFS.Server.Locks
import QuickFS.Lib.Machine

/-!
# Advisory locks: the server against POSIX

`ExportSession::set_lock`, `get_lock`, `flush`, `close` and `cleanup_locks`, as operations of the
export on its vector of lock records, and next to them the same operations as POSIX describes them:
on a map that says, for every lock owner and every byte, which lock is held there (`Posix`).  The
reference has no records, no splitting and no merging.  It refuses a lock that somebody else's lock
is in the way of, and otherwise writes the requested bytes of the requester.

The server is bounded: it keeps at most `maxLockRecords` records, and refuses a request whose result
would need more.  The reference has the same bound without knowing about records, because a table in
normal form has one record for each maximal run of bytes with equal kind and process id
(`SegmentTable.length_of_canonical`).
-/

namespace QuickFS.Server

open SegmentTable

/-! ## Sessions -/

/-- The part of an open file that locking reads. -/
structure OpenFile where
  identity : FileIdentity
  access : FileAccess
deriving DecidableEq

/-- The sessions of an export: the open handles of each, and whether it `can_write`. -/
structure Sessions where
  handles : Uuid → FileHandle → Option OpenFile
  canWrite : Uuid → Bool

namespace Sessions

/-- `require_writable`. -/
def requireWritable (s : Sessions) (session : Uuid) : Except ServerError Unit :=
  if s.canWrite session then .ok () else .error .readOnly

/-- `open_handle`. -/
def openHandle (s : Sessions) (session : Uuid) (handle : FileHandle) :
    Except ServerError OpenFile :=
  match s.handles session handle with
  | some opened => .ok opened
  | none => .error .invalidHandle

/-- `insert_handle`, at a handle the session does not use yet. -/
def insertHandle (s : Sessions) (session : Uuid) (handle : FileHandle) (opened : OpenFile) :
    Sessions :=
  if (s.handles session handle).isSome then s
  else { s with handles := fun session' handle' =>
    if session' = session ∧ handle' = handle then some opened else s.handles session' handle' }

/-- `self.handles.remove`. -/
def removeHandle (s : Sessions) (session : Uuid) (handle : FileHandle) : Sessions :=
  { s with handles := fun session' handle' =>
      if session' = session ∧ handle' = handle then none else s.handles session' handle' }

end Sessions

/-- `validate_lock`. -/
def validateLock (lock : FileLock) (allowUnlock : Bool) : Except ServerError Unit :=
  if lock.start > lock.stop ∨ (allowUnlock = false ∧ lock.kind = .unlock) then
    .error (.invalidRequest "invalid advisory lock")
  else .ok ()

/-- `validate_lock_access`. -/
def validateLockAccess (opened : OpenFile) (kind : LockKind) : Except ServerError Unit :=
  match kind with
  | .read => if opened.access.canRead then .ok () else .error .permissionDenied
  | .write => if opened.access.canWrite then .ok () else .error .permissionDenied
  | .unlock => .ok ()

/-- What `set_lock` does before it takes the table: the checks, in order, and the file the handle
is open on. -/
def Sessions.setLockTarget (s : Sessions) (session : Uuid) (handle : FileHandle)
    (requested : FileLock) : Except ServerError FileIdentity := do
  validateLock requested true
  if requested.kind = .write then s.requireWritable session
  let opened ← s.openHandle session handle
  validateLockAccess opened requested.kind
  return opened.identity

/-- The same for `get_lock`. -/
def Sessions.getLockTarget (s : Sessions) (session : Uuid) (handle : FileHandle)
    (requested : FileLock) : Except ServerError FileIdentity := do
  validateLock requested false
  let opened ← s.openHandle session handle
  validateLockAccess opened requested.kind
  return opened.identity

theorem validateLock_ok {lock : FileLock} {allowUnlock : Bool}
    (h : validateLock lock allowUnlock = .ok ()) : lock.start ≤ lock.stop := by
  rw [validateLock] at h
  split at h
  · exact absurd h (by simp)
  · omega

variable {s : Sessions} {session : Uuid} {handle : FileHandle} {requested : FileLock}
  {identity : FileIdentity}

theorem start_le_of_setLockTarget (h : s.setLockTarget session handle requested = .ok identity) :
    requested.start ≤ requested.stop := by
  rw [Sessions.setLockTarget] at h
  cases hv : validateLock requested true with
  | error => rw [hv] at h; exact absurd h (by simp [bind, Except.bind])
  | ok => exact validateLock_ok hv

theorem start_le_of_getLockTarget (h : s.getLockTarget session handle requested = .ok identity) :
    requested.start ≤ requested.stop := by
  rw [Sessions.getLockTarget] at h
  cases hv : validateLock requested false with
  | error => rw [hv] at h; exact absurd h (by simp [bind, Except.bind])
  | ok => exact validateLock_ok hv

/-- The file a lock is set on is the one the handle is open on. -/
theorem openHandle_of_setLockTarget (h : s.setLockTarget session handle requested = .ok identity) :
    ∃ opened, s.openHandle session handle = .ok opened ∧ opened.identity = identity := by
  rw [Sessions.setLockTarget] at h
  cases hopen : s.openHandle session handle with
  | ok opened =>
    refine ⟨opened, rfl, ?_⟩
    rw [hopen] at h
    simp only [bind, Except.bind, pure, Except.pure] at h
    repeat' split at h
    all_goals cases h
    all_goals rfl
  | error =>
    rw [hopen] at h
    simp only [bind, Except.bind] at h
    repeat' split at h
    all_goals cases h

/-! ## The server -/

/-- The export, as far as locks are concerned. -/
structure Export where
  sessions : Sessions
  locks : List LockRecord

namespace Export

/-- One turn of the loop of `set_lock`: the answer, or `none` when somebody's lock is in the way. -/
def lockAttempt (locks : List LockRecord) (identity : FileIdentity) (session : Uuid)
    (requested : FileLock) : Option (Except ServerError (List LockRecord)) :=
  if requested.kind = .unlock then
    some (replaceOwnerRange locks identity session requested false)
  else if (firstConflict locks identity session requested).isNone then
    some (replaceOwnerRange locks identity session requested true)
  else none

/-- `set_lock` with `wait = false`. -/
def setLock (e : Export) (session : Uuid) (handle : FileHandle) (requested : FileLock) :
    Export × Except ServerError Unit :=
  match e.sessions.setLockTarget session handle requested with
  | .error error => (e, .error error)
  | .ok identity =>
    match lockAttempt e.locks identity session requested with
    | some (.ok locks) => ({ e with locks := locks }, .ok ())
    | some (.error error) => (e, .error error)
    | none => (e, .error .wouldBlock)

/-- `get_lock`. -/
def getLock (e : Export) (session : Uuid) (handle : FileHandle) (requested : FileLock) :
    Except ServerError (Option FileLock) :=
  match e.sessions.getLockTarget session handle requested with
  | .error error => .error error
  | .ok identity =>
    .ok ((firstConflict e.locks identity session requested).map LockRecord.lock)

/-- `remove_locks`. -/
def removeLocks (e : Export) (remove : LockRecord → Bool) : Export :=
  { e with locks := e.locks.filter fun record => !remove record }

/-- `flush`. -/
def flush (e : Export) (session : Uuid) (handle : FileHandle) (lockOwner : Option ℕ) :
    Export × Except ServerError Unit :=
  match e.sessions.openHandle session handle with
  | .error error => (e, .error error)
  | .ok opened =>
    match lockOwner with
    | some owner =>
      (e.removeLocks fun record => decide (record.session = session) &&
        decide (record.identity = opened.identity) && decide (record.lock.owner = owner), .ok ())
    | none => (e, .ok ())

/-- `close`. -/
def close (e : Export) (session : Uuid) (handle : FileHandle) : Export × Except ServerError Unit :=
  match e.sessions.openHandle session handle with
  | .error error => (e, .error error)
  | .ok opened =>
    let closed := { e with sessions := e.sessions.removeHandle session handle }
    (closed.removeLocks fun record =>
      decide (record.session = session) && decide (record.identity = opened.identity), .ok ())

/-- `cleanup_locks`, which the end of a session runs too. -/
def cleanupLocks (e : Export) (session : Uuid) : Export :=
  e.removeLocks fun record => decide (record.session = session)

end Export

/-- What sessions ask of the export. -/
inductive LockOp where
  | openFile (session : Uuid) (handle : FileHandle) (opened : OpenFile)
  | setLock (session : Uuid) (handle : FileHandle) (requested : FileLock)
  | getLock (session : Uuid) (handle : FileHandle) (requested : FileLock)
  | flush (session : Uuid) (handle : FileHandle) (lockOwner : Option ℕ)
  | close (session : Uuid) (handle : FileHandle)
  | cleanup (session : Uuid)

inductive LockReply where
  | done (result : Except ServerError Unit)
  | lock (result : Except ServerError (Option FileLock))

def Export.step (e : Export) : LockOp → Export × LockReply
  | .openFile session handle opened =>
    ({ e with sessions := e.sessions.insertHandle session handle opened }, .done (.ok ()))
  | .setLock session handle requested =>
    let answer := e.setLock session handle requested
    (answer.1, .done answer.2)
  | .getLock session handle requested => (e, .lock (e.getLock session handle requested))
  | .flush session handle lockOwner =>
    let answer := e.flush session handle lockOwner
    (answer.1, .done answer.2)
  | .close session handle =>
    let answer := e.close session handle
    (answer.1, .done answer.2)
  | .cleanup session => (e.cleanupLocks session, .done (.ok ()))

/-! ## The reference

The state is the map the claim of POSIX semantics is about.  The process id is part of the value
because `get_lock` reports it and because it decides what counts as one run of bytes. -/

/-- Which lock each owner holds at each byte: its kind, and the process that asked for it. -/
abbrev PosixLocks := LockOwner → ℕ → Option (LockKind × ℕ)

/-- Somebody else holds a byte of the requested range in a way that excludes the request. -/
def PosixLocks.Conflict (held : PosixLocks) (identity : FileIdentity) (session : Uuid)
    (requested : FileLock) : Prop :=
  ∃ other : LockOwner, other.identity = identity ∧
    ¬ (other.session = session ∧ other.owner = requested.owner) ∧
    ∃ byte kind pid, requested.start ≤ byte ∧ byte ≤ requested.stop ∧
      held other byte = some (kind, pid) ∧ (kind = .write ∨ requested.kind = .write)

/-- The table after a grant or an unlock: only the requester's bytes of the range change. -/
def PosixLocks.apply (held : PosixLocks) (identity : FileIdentity) (session : Uuid)
    (requested : FileLock) : PosixLocks :=
  overwrite held ⟨identity, session, requested.owner⟩ requested.start requested.stop
    (if requested.kind = .unlock then none else some (requested.kind, requested.pid))

/-- The table without the locks of the owners that `gone` describes. -/
def PosixLocks.release (held : PosixLocks) (gone : LockOwner → Bool) : PosixLocks :=
  fun owner byte => if gone owner then none else held owner byte

structure Posix where
  sessions : Sessions
  held : PosixLocks

/-- What the reference answers: whether there is a conflict, not which record it is. -/
inductive Outcome where
  | granted
  | failed (error : ServerError)
  | conflict (found : Bool)

namespace Posix

open Classical in
noncomputable def setLock (p : Posix) (session : Uuid) (handle : FileHandle)
    (requested : FileLock) : Posix × Outcome :=
  match p.sessions.setLockTarget session handle requested with
  | .error error => (p, .failed error)
  | .ok identity =>
    if requested.kind ≠ .unlock ∧ p.held.Conflict identity session requested then
      (p, .failed .wouldBlock)
    else if (runStarts (p.held.apply identity session requested)).ncard > maxLockRecords then
      (p, .failed .tooManyLocks)
    else ({ p with held := p.held.apply identity session requested }, .granted)

open Classical in
noncomputable def getLock (p : Posix) (session : Uuid) (handle : FileHandle)
    (requested : FileLock) : Outcome :=
  match p.sessions.getLockTarget session handle requested with
  | .error error => .failed error
  | .ok identity => .conflict (decide (p.held.Conflict identity session requested))

def flush (p : Posix) (session : Uuid) (handle : FileHandle) (lockOwner : Option ℕ) :
    Posix × Outcome :=
  match p.sessions.openHandle session handle with
  | .error error => (p, .failed error)
  | .ok opened =>
    match lockOwner with
    | some owner =>
      ({ p with held := p.held.release fun o => decide (o = ⟨opened.identity, session, owner⟩) },
        .granted)
    | none => (p, .granted)

def close (p : Posix) (session : Uuid) (handle : FileHandle) : Posix × Outcome :=
  match p.sessions.openHandle session handle with
  | .error error => (p, .failed error)
  | .ok opened =>
    ({ sessions := p.sessions.removeHandle session handle
       held := p.held.release fun o =>
        decide (o.session = session) && decide (o.identity = opened.identity) }, .granted)

noncomputable def step (p : Posix) : LockOp → Posix × Outcome
  | .openFile session handle opened =>
    ({ p with sessions := p.sessions.insertHandle session handle opened }, .granted)
  | .setLock session handle requested => p.setLock session handle requested
  | .getLock session handle requested => (p, p.getLock session handle requested)
  | .flush session handle lockOwner => p.flush session handle lockOwner
  | .close session handle => p.close session handle
  | .cleanup session =>
    ({ p with held := p.held.release fun o => decide (o.session = session) }, .granted)

end Posix

/-- A reply of the server, as the reference sees it. -/
def LockReply.outcome : LockReply → Outcome
  | .done (.ok ()) => .granted
  | .done (.error error) => .failed error
  | .lock (.ok found) => .conflict found.isSome
  | .lock (.error error) => .failed error

/-! ## The server refines the reference -/

/-- The vector is in normal form and represents the map of the reference. -/
structure Represents (e : Export) (p : Posix) : Prop where
  sessions : e.sessions = p.sessions
  canonical : Canonical LockRecord.segment e.locks
  denotes : Denotes LockRecord.segment e.locks p.held

variable {locks : List LockRecord} {e : Export} {held : PosixLocks} {p : Posix}
  {requested : FileLock}

theorem conflict_iff (hc : Canonical LockRecord.segment locks)
    (hd : Denotes LockRecord.segment locks held) (identity : FileIdentity) (session : Uuid)
    (hreq : requested.start ≤ requested.stop) :
    firstConflict locks identity session requested = none ↔
      ¬ held.Conflict identity session requested := by
  rw [firstConflict_eq_none]
  constructor
  · rintro hnone ⟨other, hid, hother, byte, kind, pid, h1, h2, hheld, hkind⟩
    obtain ⟨record, hr, hkey, hr1, hr2, hval⟩ := (hd _ _ _).1 hheld
    refine hnone record hr ((conflicts_iff _ _ _ _).2 ?_)
    subst hkey
    obtain ⟨rfl, rfl⟩ := Prod.mk.inj hval
    simp only [LockRecord.segment] at hid hother hr1 hr2 hkind
    exact ⟨hid, hother, ⟨by omega, by omega⟩, hkind⟩
  · intro hno record hr hconf
    obtain ⟨hid, hother, ⟨h1, h2⟩, hkind⟩ := (conflicts_iff _ _ _ _).1 hconf
    have hne : record.lock.start ≤ record.lock.stop := hc.inhabited record hr
    -- the first byte the two ranges share
    refine hno ⟨record.segment.key, hid, hother, max record.lock.start requested.start,
      record.lock.kind, record.lock.pid, le_max_right _ _, max_le h1 hreq, ?_, hkind⟩
    exact (hd _ _ _).2 ⟨record, hr, rfl, le_max_left _ _, max_le hne h2, rfl⟩

/-- A turn of the loop that finds nothing in its way does what the reference does. -/
theorem replaceOwnerRange_represents (hc : Canonical LockRecord.segment locks)
    (hd : Denotes LockRecord.segment locks held)
    (hreq : requested.start ≤ requested.stop) {insert : Bool}
    (hins : insert = decide (requested.kind ≠ .unlock)) :
    (∃ next, replaceOwnerRange locks identity session requested insert = .ok next ∧
        Canonical LockRecord.segment next ∧
        Denotes LockRecord.segment next (held.apply identity session requested) ∧
        ¬ (runStarts (held.apply identity session requested)).ncard > maxLockRecords) ∨
      (replaceOwnerRange locks identity session requested insert = .error .tooManyLocks ∧
        (runStarts (held.apply identity session requested)).ncard > maxLockRecords) := by
  obtain ⟨hcan, hden⟩ := replaced_spec identity session hreq hc hd insert
  have happly : (if insert then some (requested.kind, requested.pid) else none) =
      if requested.kind = .unlock then none else some (requested.kind, requested.pid) := by
    subst hins
    by_cases hk : requested.kind = .unlock <;> simp [hk]
  rw [happly] at hden
  have hlen := length_of_canonical hden hcan
  rw [replaceOwnerRange]
  simp only [hlen]
  by_cases hmany : (runStarts (held.apply identity session requested)).ncard > maxLockRecords
  · right
    exact ⟨if_pos hmany, hmany⟩
  · left
    exact ⟨_, if_neg hmany, hcan, hden, hmany⟩

/-- **One `set_lock` against the reference.** -/
theorem setLock_represents (h : Represents e p) (session : Uuid) (handle : FileHandle)
    (requested : FileLock) :
    Represents (e.setLock session handle requested).1 (p.setLock session handle requested).1 ∧
      (LockReply.done (e.setLock session handle requested).2).outcome =
        (p.setLock session handle requested).2 := by
  rw [Export.setLock, Posix.setLock, h.sessions]
  cases htarget : p.sessions.setLockTarget session handle requested with
  | error => exact ⟨h, rfl⟩
  | ok identity =>
    have hreq := start_le_of_setLockTarget htarget
    have hconf := conflict_iff h.canonical h.denotes identity session hreq
    simp only
    by_cases hblocked : requested.kind ≠ .unlock ∧ p.held.Conflict identity session requested
    · have hsome : firstConflict e.locks identity session requested ≠ none :=
        fun hn => hconf.1 hn hblocked.2
      have hnone : Export.lockAttempt e.locks identity session requested = none := by
        rw [Export.lockAttempt, if_neg hblocked.1, if_neg (by simpa using hsome)]
      rw [hnone, if_pos hblocked]
      exact ⟨h, rfl⟩
    · have hattempt : Export.lockAttempt e.locks identity session requested =
          some (replaceOwnerRange e.locks identity session requested
            (decide (requested.kind ≠ .unlock))) := by
        rw [Export.lockAttempt]
        by_cases hk : requested.kind = .unlock
        · simp [hk]
        have hfree : firstConflict e.locks identity session requested = none :=
          hconf.2 fun hc => hblocked ⟨hk, hc⟩
        simp [hk, hfree]
      rw [hattempt, if_neg hblocked]
      obtain ⟨next, hok, hcan, hden, hfew⟩ | ⟨herr, hmany⟩ :=
        replaceOwnerRange_represents h.canonical h.denotes hreq rfl
      · rw [hok, if_neg hfew]
        exact ⟨⟨rfl, hcan, hden⟩, rfl⟩
      · rw [herr, if_pos hmany]
        exact ⟨h, rfl⟩

/-- Dropping the records of some owners releases those owners. -/
theorem removeLocks_represents (h : Represents e p) {remove : LockRecord → Bool}
    {gone : LockOwner → Bool} (hremove : ∀ record, remove record = gone record.segment.key) :
    Represents (e.removeLocks remove) { p with held := p.held.release gone } := by
  refine ⟨h.sessions, h.canonical.filter _, ?_⟩
  exact h.denotes.filter_key (P := fun owner => gone owner = true)
    fun record _ => by simp [hremove record]

/-- **One operation against the reference**: the vector keeps representing the map, and the
answers agree. -/
theorem step_represents (op : LockOp) (h : Represents e p) :
    Represents (e.step op).1 (p.step op).1 ∧ (e.step op).2.outcome = (p.step op).2 := by
  cases op with
  | openFile session handle opened =>
    refine ⟨⟨?_, h.canonical, h.denotes⟩, rfl⟩
    show e.sessions.insertHandle session handle opened = _
    rw [h.sessions]
    rfl
  | setLock session handle requested => exact setLock_represents h session handle requested
  | getLock session handle requested =>
    refine ⟨h, ?_⟩
    show (LockReply.lock (e.getLock session handle requested)).outcome = _
    show _ = p.getLock session handle requested
    rw [Export.getLock, Posix.getLock, h.sessions]
    cases htarget : p.sessions.getLockTarget session handle requested with
    | error => rfl
    | ok identity =>
      have hreq := start_le_of_getLockTarget htarget
      have hconf := conflict_iff h.canonical h.denotes identity session hreq
      show Outcome.conflict _ = Outcome.conflict _
      congr 1
      cases hfirst : firstConflict e.locks identity session requested with
      | none => simpa using hconf.1 hfirst
      | some =>
        have : p.held.Conflict identity session requested := by
          by_contra hno
          rw [hconf.2 hno] at hfirst
          exact absurd hfirst (by simp)
        simpa using this
  | flush session handle lockOwner =>
    rw [Export.step, Posix.step, Export.flush, Posix.flush, h.sessions]
    cases p.sessions.openHandle session handle with
    | error => exact ⟨h, rfl⟩
    | ok =>
      cases lockOwner with
      | none => exact ⟨h, rfl⟩
      | some =>
        refine ⟨removeLocks_represents h fun record => ?_, rfl⟩
        simp only [LockRecord.segment, LockOwner.mk.injEq, Bool.decide_and]
        rw [Bool.and_assoc, Bool.and_left_comm]
  | close session handle =>
    rw [Export.step, Posix.step, Export.close, Posix.close, h.sessions]
    cases p.sessions.openHandle session handle with
    | error => exact ⟨h, rfl⟩
    | ok =>
      have hclosed : Represents { e with sessions := p.sessions.removeHandle session handle }
          { p with sessions := p.sessions.removeHandle session handle } :=
        ⟨rfl, h.canonical, h.denotes⟩
      exact ⟨removeLocks_represents hclosed fun record => rfl, rfl⟩
  | cleanup => exact ⟨removeLocks_represents h fun record => rfl, rfl⟩

/-- A request that is refused leaves the vector as it was. -/
theorem locks_eq_of_failed {op : LockOp} {error : ServerError}
    (h : (e.step op).2.outcome = .failed error) : (e.step op).1.locks = e.locks := by
  cases op with
  | openFile => rfl
  | setLock =>
    simp only [Export.step, Export.setLock] at h ⊢
    split at h
    · rfl
    split at h
    · exact absurd h (by simp [LockReply.outcome])
    · rfl
    · rfl
  | getLock => rfl
  | flush =>
    simp only [Export.step, Export.flush] at h ⊢
    split at h
    · rfl
    · split at h <;> exact absurd h (by simp [LockReply.outcome])
  | close =>
    simp only [Export.step, Export.close] at h ⊢
    split at h
    · rfl
    · exact absurd h (by simp [LockReply.outcome])
  | cleanup => exact absurd h (by simp [Export.step, LockReply.outcome])

/-- The export before anybody has locked anything. -/
def Export.new (sessions : Sessions) : Export := ⟨sessions, []⟩

def Posix.new (sessions : Sessions) : Posix := ⟨sessions, fun _ _ => none⟩

theorem new_represents (sessions : Sessions) :
    Represents (Export.new sessions) (Posix.new sessions) :=
  ⟨rfl, ⟨by intro a ha; simp [Export.new] at ha, List.Pairwise.nil, List.Pairwise.nil⟩,
    by intro k b v; simp [Posix.new, Export.new]⟩

/-- **The server's locks are POSIX locks.**  Over every sequence of requests, from any sessions with
any open files, the server answers as the reference does, its vector represents exactly the map of
the reference and is in normal form (the records of one owner are disjoint, and no two that could be
one are left apart), and a request it refuses leaves the vector unchanged. -/
theorem lockTable_refines_posix (sessions : Sessions) (ops : List LockOp) :
    let server := Machine.run Export.step (Export.new sessions) ops
    let reference := Machine.run Posix.step (Posix.new sessions) ops
    server.2.map LockReply.outcome = reference.2 ∧
      Denotes LockRecord.segment server.1.locks reference.1.held ∧
      Canonical LockRecord.segment server.1.locks ∧
      ∀ op error, (server.1.step op).2.outcome = .failed error →
        (server.1.step op).1.locks = server.1.locks := by
  obtain ⟨hrep, hanswers⟩ := Machine.run_simulates
    (fun _ _ op h => step_represents op h) (new_represents sessions) ops
  exact ⟨hanswers, hrep.denotes, hrep.canonical, fun _ _ h => locks_eq_of_failed h⟩

end QuickFS.Server
