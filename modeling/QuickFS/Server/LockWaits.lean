import QuickFS.Server.LockLifetime
import QuickFS.Lib.Entries

/-!
# Calls that wait for a lock

`set_lock` may wait.  It looks its handle up once, and then goes round a loop: it asks for a
notification, takes the table, and either gets its lock or gives the table back and sleeps until it
is notified.  In the meantime handles are closed, owners are flushed and sessions end, and whoever
takes a record out of the table, or puts one in, notifies the sleepers after the table has been
given back.

The machine below is the server as its threads see it: one step is one section of a call, from one
mutex or map to the next, so that between any two sections of a call there may be any sections of
the others.  A notification is modelled by the number of those that there have been: a future that
was created when there had been `since` of them is ready as soon as there have been more, which is
what `Notify` promises.

Two things are asked of it.

* *A record has a handle.*  It need not: a call that has waited puts its record into the table without
  looking at the handle again, and if the handle has been closed in the meantime nobody is left who
  could take the record out (`lock_after_close`).  If no handle is closed while a call through it is
  under way, every record belongs to a session with an open handle on the file, but for the time
  between the two sections of a close (`records_have_handles`).
* *Nobody sleeps through a release.*  A sleeper is in somebody's way, or is about to be woken up, or
  the call that has changed the table has yet to notify, which is the next thing that it does
  (`sleepers_are_woken`).  The last case is there: a sleeper may be looked at in between
  (`released_before_notified`).
-/

namespace QuickFS.Server

/-! ## Records of a session -/

/-- What `replace_owner_range` leaves comes from a record of the same session and file, or is the
one that was asked for. -/
theorem mem_replaced {locks : List LockRecord} {identity : FileIdentity} {session : Uuid}
    {requested : FileLock} {insert : Bool} {record : LockRecord}
    (h : record ∈ replaced locks identity session requested insert) :
    (insert = true ∧ record.session = session ∧ record.identity = identity) ∨
      ∃ old ∈ locks, old.session = record.session ∧ old.identity = record.identity := by
  let P : LockRecord → Prop := fun record =>
    (insert = true ∧ record.session = session ∧ record.identity = identity) ∨
      ∃ old ∈ locks, old.session = record.session ∧ old.identity = record.identity
  have hpieces : ∀ piece ∈ locks.flatMap (remains identity session requested) ++
      (if insert then [⟨identity, session, requested⟩] else []), P piece := by
    intro piece hpiece
    rcases List.mem_append.1 hpiece with hpiece | hpiece
    · obtain ⟨old, hold, hpiece⟩ := List.mem_flatMap.1 hpiece
      refine .inr ⟨old, hold, ?_⟩
      rw [remains] at hpiece
      split at hpiece
      · rw [List.mem_singleton.1 hpiece]
        exact ⟨rfl, rfl⟩
      rcases List.mem_append.1 hpiece with hpiece | hpiece
      · split at hpiece <;> simp at hpiece
        rw [hpiece]
        exact ⟨rfl, rfl⟩
      split at hpiece <;> simp at hpiece
      rw [hpiece]
      exact ⟨rfl, rfl⟩
    · cases insert with
      | false => simp at hpiece
      | true =>
        rw [if_pos rfl, List.mem_singleton] at hpiece
        rw [hpiece]
        exact .inl ⟨rfl, rfl, rfl⟩
  rw [replaced, mergeOwnerLocks] at h
  split at h
  · cases h
  rename_i first rest heq
  have hextend : ∀ a b, P a → P b → P (LockRecord.extend a b) := fun _ _ ha _ => ha
  refine SegmentTable.forall_mem_coalesce hextend first rest ?_ record h
  intro piece hpiece
  rw [← heq] at hpiece
  exact hpieces piece ((List.mem_insertionSort _).1 hpiece)

/-! ## The machine -/

/-- A call of `set_lock` that has passed its checks, with the file its handle is open on. -/
structure LockCall where
  session : Uuid
  handle : FileHandle
  identity : FileIdentity
  requested : FileLock
  wait : Bool
deriving DecidableEq

/-- What `remove_locks` is called for. -/
inductive Removal where
  | closed (identity : FileIdentity)
  | flushed (identity : FileIdentity) (owner : ℕ)
  | dropped
deriving DecidableEq

/-- The records that are to go. -/
def Removal.removes (session : Uuid) : Removal → LockRecord → Bool
  | closed identity, record =>
    decide (record.session = session) && decide (record.identity = identity)
  | flushed identity owner, record =>
    decide (record.session = session) && decide (record.identity = identity) &&
      decide (record.lock.owner = owner)
  | dropped, record => decide (record.session = session)

/-- Where a call is: at the head of the loop of `set_lock`, with a future about to take the table,
or asleep; about to take the table in `remove_locks`; or about to notify. -/
inductive LockStage where
  | looping (call : LockCall)
  | trying (call : LockCall) (since : ℕ)
  | parked (call : LockCall) (since : ℕ)
  | removing (session : Uuid) (removal : Removal)
  | notifying (session : Uuid)
deriving DecidableEq

/-- Whose call it is. -/
def LockStage.session : LockStage → Uuid
  | looping call | trying call _ | parked call _ => call.session
  | removing session _ | notifying session => session

/-- The server, the number of times that sleepers have been notified, the calls that are under way
and the sessions that are over. -/
structure Waits where
  server : Export
  notified : ℕ
  calls : Entries ℕ LockStage
  ended : List Uuid

/-- Something happens: a call begins, under a number of its own, a call that is under way goes on,
or one that is asleep is given up. -/
inductive LockAction where
  | openFile (session : Uuid) (handle : FileHandle) (opened : OpenFile)
  | setLock (t : ℕ) (session : Uuid) (handle : FileHandle) (requested : FileLock) (wait : Bool)
  | flush (t : ℕ) (session : Uuid) (handle : FileHandle) (lockOwner : Option ℕ)
  | close (t : ℕ) (session : Uuid) (handle : FileHandle)
  | drop (t : ℕ) (session : Uuid)
  | resume (t : ℕ)
  | cancel (t : ℕ)

namespace Waits

/-- A number that is free, and a session that is not over. -/
def admits (s : Waits) (t : ℕ) (session : Uuid) : Bool :=
  (s.calls.find t).isNone && decide (session ∉ s.ended)

def goOn (s : Waits) (t : ℕ) (stage : LockStage) : Waits :=
  { s with calls := s.calls.insert t stage }

def finish (s : Waits) (t : ℕ) : Waits := { s with calls := s.calls.erase t }

/-- The section of `set_lock` that has the table. -/
def tryLock (s : Waits) (t : ℕ) (call : LockCall) (since : ℕ) :
    Waits × Option (Except ServerError Unit) :=
  match Export.lockAttempt s.server.locks call.identity call.session call.requested with
  | some (.ok locks) =>
    ({ s with server := { s.server with locks := locks } }.goOn t (.notifying call.session), none)
  | some (.error error) => (s.finish t, some (.error error))
  | none =>
    if call.wait then (s.goOn t (.parked call since), none)
    else (s.finish t, some (.error .wouldBlock))

/-- The files of a session are closed when it is dropped.  Its last call is the drop itself, so
nobody can tell when exactly. -/
def closeAll (s : Sessions) (session : Uuid) : Sessions :=
  { s with handles := fun session' handle =>
      if session' = session then none else s.handles session' handle }

/-- The section of `remove_locks` that has the table. -/
def remove (s : Waits) (t : ℕ) (session : Uuid) (removal : Removal) :
    Waits × Option (Except ServerError Unit) :=
  let server := s.server.removeLocks (removal.removes session)
  let sessions := if removal = .dropped then closeAll server.sessions session else server.sessions
  let after := { s with server := { server with sessions := sessions } }
  if server.locks.length ≠ s.server.locks.length then (after.goOn t (.notifying session), none)
  else (after.finish t, some (.ok ()))

/-- The next section of a call. -/
def resume (s : Waits) (t : ℕ) : LockStage → Waits × Option (Except ServerError Unit)
  | .looping call => (s.goOn t (.trying call s.notified), none)
  | .trying call since => s.tryLock t call since
  | .parked call since =>
    if since < s.notified then (s.goOn t (.looping call), none) else (s, none)
  | .removing session removal => s.remove t session removal
  | .notifying _ => ({ s with notified := s.notified + 1 }.finish t, some (.ok ()))

/-- One action, and the answer of the call if that was its last section. -/
def step (s : Waits) : LockAction → Waits × Option (Except ServerError Unit)
  | .openFile session handle opened =>
    if session ∈ s.ended then (s, none)
    else ({ s with server := { s.server with
      sessions := s.server.sessions.insertHandle session handle opened } }, none)
  | .setLock t session handle requested wait =>
    if s.admits t session then
      match s.server.sessions.setLockTarget session handle requested with
      | .error error => (s, some (.error error))
      | .ok identity => (s.goOn t (.looping ⟨session, handle, identity, requested, wait⟩), none)
    else (s, none)
  | .flush t session handle lockOwner =>
    if s.admits t session then
      match s.server.sessions.openHandle session handle with
      | .error error => (s, some (.error error))
      | .ok opened =>
        match lockOwner with
        | some owner => (s.goOn t (.removing session (.flushed opened.identity owner)), none)
        | none => (s, some (.ok ()))
    else (s, none)
  | .close t session handle =>
    if s.admits t session then
      match s.server.sessions.openHandle session handle with
      | .error error => (s, some (.error error))
      | .ok opened =>
        ({ s with server := { s.server with
            sessions := s.server.sessions.removeHandle session handle } }.goOn t
          (.removing session (.closed opened.identity)), none)
    else (s, none)
  | .drop t session =>
    -- A session is dropped when nobody has it any more, and its calls do.
    if s.admits t session && s.calls.all fun entry => decide (entry.2.session ≠ session) then
      ({ s with ended := session :: s.ended }.goOn t (.removing session .dropped), none)
    else (s, none)
  | .resume t =>
    match s.calls.find t with
    | some stage => s.resume t stage
    | none => (s, none)
  | .cancel t =>
    match s.calls.find t with
    | some (.parked _ _) => (s.finish t, none)
    | _ => (s, none)

/-- The server before anybody has asked for a lock. -/
def new (sessions : Sessions) : Waits := ⟨Export.new sessions, 0, [], []⟩

end Waits

namespace Waits

variable {s s' : Waits} {t t' : ℕ} {stage : LockStage}

theorem find_goOn_self : Entries.find (s.goOn t stage).calls t = some stage :=
  Entries.find_insert_self

theorem find_goOn_of_ne (h : t' ≠ t) :
    Entries.find (s.goOn t stage).calls t' = s.calls.find t' :=
  Entries.find_insert_of_ne h

theorem find_finish_self : Entries.find (s.finish t).calls t = none := Entries.find_erase_self

theorem find_finish_of_ne (h : t' ≠ t) :
    Entries.find (s.finish t).calls t' = s.calls.find t' :=
  Entries.find_erase_of_ne h

/-- Only the call `t` has moved. -/
def Moves (t : ℕ) (s s' : Waits) : Prop :=
  ∀ t', t' ≠ t → s'.calls.find t' = s.calls.find t'

theorem moves_goOn : Moves t s (s.goOn t stage) := fun _ h => find_goOn_of_ne h

theorem moves_finish : Moves t s (s.finish t) := fun _ h => find_finish_of_ne h

/-- A call after the section is the one that has moved, or is where it was. -/
theorem Moves.cases (h : Moves t s s') {next : Option LockStage}
    (hnext : s'.calls.find t = next) (hfind : s'.calls.find t' = some stage) :
    next = some stage ∨ s.calls.find t' = some stage := by
  by_cases heq : t' = t
  · exact .inl (hnext.symm.trans (heq ▸ hfind))
  · exact .inr ((h t' heq).symm.trans hfind)

theorem find_of_admits {session : Uuid} (h : s.admits t session = true) :
    s.calls.find t = none ∧ session ∉ s.ended := by
  rw [admits, Bool.and_eq_true, Option.isNone_iff_eq_none, decide_eq_true_eq] at h
  exact h

end Waits

/-! ## Sleepers -/

/-- Somebody's lock is in the way of a call. -/
def LockCall.Blocked (call : LockCall) (locks : List LockRecord) : Prop :=
  ∃ record ∈ locks, conflicts call.identity call.session call.requested record = true

/-- Some call has given the table back and has yet to notify. -/
def Waits.Notifying (s : Waits) : Prop :=
  ∃ t session, s.calls.find t = some (.notifying session)

/-- Where the call is in its loop, it has a future that is not older than the number of
notifications says. -/
def LockStage.since : LockStage → ℕ
  | .trying _ since | .parked _ since => since
  | _ => 0

/-- Nobody sleeps for nothing. -/
structure Waits.Awake (s : Waits) : Prop where
  since_le : ∀ t stage, s.calls.find t = some stage → stage.since ≤ s.notified
  sleeper : ∀ t call since, s.calls.find t = some (.parked call since) →
    call.Blocked s.server.locks ∨ since < s.notified ∨ s.Notifying

namespace Waits

variable {s s' : Waits} {t : ℕ}

theorem awake_new {sessions : Sessions} : (new sessions).Awake := ⟨nofun, nofun⟩

variable {stage : LockStage} {server : Export} {session : Uuid}

section

-- The section is not a notification.
variable (h : s.Awake)
  (hstage : ∀ session, s.calls.find t ≠ some (.notifying session))

include h hstage

/-- It leaves the table as it is, or is to be followed by a notification. -/
theorem Awake.moves (hmoves : Moves t s s') {next : Option LockStage}
    (hnext : s'.calls.find t = next) (hnotified : s'.notified = s.notified)
    (hlocks : s'.server.locks = s.server.locks ∨ ∃ session, next = some (.notifying session))
    (hsince : ∀ stage, next = some stage → stage.since ≤ s.notified)
    (hparked : ∀ call since, next = some (.parked call since) → call.Blocked s'.server.locks) :
    s'.Awake := by
  have hpending : s.Notifying → s'.Notifying := by
    rintro ⟨t', session, hfind⟩
    have hne : t' ≠ t := fun heq => hstage session (heq ▸ hfind)
    exact ⟨t', session, (hmoves t' hne).trans hfind⟩
  refine ⟨fun t' stage hfind => ?_, fun t' call since hfind => ?_⟩
  · rw [hnotified]
    rcases hmoves.cases hnext hfind with hself | hold
    · exact hsince stage hself
    · exact h.since_le t' stage hold
  rw [hnotified]
  rcases hmoves.cases hnext hfind with hself | hold
  · exact .inl (hparked call since hself)
  rcases hlocks with hlocks | ⟨session, hpend⟩
  · rw [hlocks]
    exact (h.sleeper t' call since hold).imp_right fun hor => hor.imp_right hpending
  · exact .inr (.inr ⟨t, session, hnext.trans hpend⟩)

/-- A call that returns without having changed the table. -/
theorem Awake.finish : (s.finish t).Awake :=
  h.moves hstage moves_finish find_finish_self rfl (.inl rfl) nofun nofun

/-- A call that goes on, without having changed the table. -/
theorem Awake.goOn (hsince : stage.since ≤ s.notified)
    (hparked : ∀ call since, stage = .parked call since → call.Blocked s.server.locks) :
    (s.goOn t stage).Awake := by
  refine h.moves hstage moves_goOn find_goOn_self rfl (.inl rfl) ?_ fun call since hself =>
    hparked call since (Option.some.inj hself)
  rintro _ ⟨⟩
  exact hsince

/-- A call that has changed the table. -/
theorem Awake.changed : ({ s with server := server }.goOn t (.notifying session)).Awake := by
  refine h.moves hstage moves_goOn find_goOn_self rfl (.inr ⟨session, rfl⟩) ?_ nofun
  rintro _ ⟨⟩
  exact Nat.zero_le _

end

theorem Awake.tryLock (h : s.Awake) {call : LockCall} {since : ℕ}
    (hfind : s.calls.find t = some (.trying call since)) :
    (s.tryLock t call since).1.Awake := by
  have hstage : ∀ session, s.calls.find t ≠ some (.notifying session) := by
    rw [hfind]
    nofun
  rw [Waits.tryLock]
  split
  · exact h.changed hstage
  · exact h.finish hstage
  rename_i hattempt
  split
  · refine h.goOn hstage (h.since_le t (.trying call since) hfind) ?_
    rintro _ _ ⟨⟩
    -- No answer from the table means that there is a conflict.
    rw [Export.lockAttempt] at hattempt
    split at hattempt
    · cases hattempt
    split at hattempt
    · cases hattempt
    rename_i hconflict
    obtain ⟨record, hrecord⟩ := Option.ne_none_iff_exists'.1 (fun hnone =>
      hconflict (Option.isNone_iff_eq_none.2 hnone))
    exact ⟨record, List.mem_filter.1 (List.argmin_mem hrecord)⟩
  · exact h.finish hstage

/-- The sessions do not matter to a sleeper. -/
theorem Awake.withServer (h : s.Awake) (hlocks : server.locks = s.server.locks) :
    { s with server := server }.Awake :=
  ⟨h.since_le, fun t call since hfind => by
    rcases h.sleeper t call since hfind with hblocked | hor
    · exact .inl (hlocks ▸ hblocked)
    · exact .inr hor⟩

theorem Awake.remove (h : s.Awake) {removal : Removal}
    (hfind : s.calls.find t = some (.removing session removal)) :
    (s.remove t session removal).1.Awake := by
  have hstage : ∀ session, s.calls.find t ≠ some (.notifying session) := by
    rw [hfind]
    nofun
  rw [Waits.remove]
  split
  · exact h.changed hstage
  rename_i hlength
  rw [not_not] at hlength
  have hsame : (s.server.removeLocks (removal.removes session)).locks = s.server.locks :=
    List.filter_sublist.eq_of_length hlength
  exact (h.withServer (by exact hsame)).finish hstage

theorem Awake.notify (h : s.Awake) : ({ s with notified := s.notified + 1 }.finish t).Awake := by
  refine ⟨fun t' stage hfind => ?_, fun t' call since hfind => .inr (.inl ?_)⟩
  · by_cases heq : t' = t
    · rw [heq, find_finish_self] at hfind
      cases hfind
    · rw [find_finish_of_ne heq] at hfind
      exact Nat.le_succ_of_le (h.since_le t' stage hfind)
  · by_cases heq : t' = t
    · rw [heq, find_finish_self] at hfind
      cases hfind
    · rw [find_finish_of_ne heq] at hfind
      exact Nat.lt_succ_of_le (h.since_le t' _ hfind)

theorem Awake.resume (h : s.Awake) (hfind : s.calls.find t = some stage) :
    (s.resume t stage).1.Awake := by
  cases stage with
  | looping => exact h.goOn (by rw [hfind]; nofun) (Nat.le_refl _) nofun
  | trying => exact h.tryLock hfind
  | parked =>
    rw [Waits.resume]
    split
    · exact h.goOn (by rw [hfind]; nofun) (Nat.zero_le _) nofun
    · exact h
  | removing => exact h.remove hfind
  | notifying => exact h.notify

/-- **No section puts anybody to sleep for nothing.** -/
theorem Awake.step (h : s.Awake) (action : LockAction) : (s.step action).1.Awake := by
  have hfree : ∀ {t session}, s.admits t session = true →
      ∀ session', s.calls.find t ≠ some (.notifying session') := by
    intro t session hadmits
    rw [(find_of_admits hadmits).1]
    simp
  cases action with
  | openFile =>
    rw [Waits.step]
    split
    · exact h
    · exact h.withServer rfl
  | setLock =>
    rw [Waits.step]
    split
    · rename_i hadmits
      split
      · exact h
      · exact h.goOn (hfree hadmits) (Nat.zero_le _) (by simp)
    · exact h
  | flush =>
    rw [Waits.step]
    split
    · rename_i hadmits
      split
      · exact h
      split
      · exact h.goOn (hfree hadmits) (Nat.zero_le _) (by simp)
      · exact h
    · exact h
  | close t session handle =>
    rw [Waits.step]
    split
    · rename_i hadmits
      split
      · exact h
      have hclosed : { s with server := { s.server with
          sessions := s.server.sessions.removeHandle session handle } }.Awake := h.withServer rfl
      exact hclosed.goOn (hfree hadmits) (Nat.zero_le _) (by simp)
    · exact h
  | drop t session =>
    rw [Waits.step]
    split
    · rename_i hadmits
      rw [Bool.and_eq_true] at hadmits
      have hover : { s with ended := session :: s.ended }.Awake := ⟨h.since_le, h.sleeper⟩
      exact hover.goOn (hfree hadmits.1) (Nat.zero_le _) (by simp)
    · exact h
  | resume =>
    rw [Waits.step]
    split
    · rename_i stage hfind
      exact h.resume hfind
    · exact h
  | cancel =>
    rw [Waits.step]
    split
    · rename_i hfind
      exact h.finish (by rw [hfind]; simp)
    · exact h

end Waits

/-- **Nobody sleeps through a release.**  Whatever the sections of the calls are and in whatever
order they come: a call that is asleep is in the way of a record that is in the table, or has been
notified since it went to sleep, or some call has given the table back and notifies next. -/
theorem sleepers_are_woken (sessions : Sessions) (actions : List LockAction) :
    let s := (Machine.run Waits.step (Waits.new sessions) actions).1
    ∀ t call since, s.calls.find t = some (.parked call since) →
      call.Blocked s.server.locks ∨ since < s.notified ∨ s.Notifying :=
  (Machine.run_invariant (fun _ action h => h.step action) Waits.awake_new actions).sleeper

/-! ### A sleeper between a release and its notification -/

/-- Two sessions with one handle each, on one file. -/
def twoSessions : Sessions where
  handles session handle := if session < 2 ∧ handle = 0 then some ⟨⟨1, 1⟩, .readWrite⟩ else none
  canWrite _ := true

/-- A call goes through its next three sections: it asks for a notification, takes the table, and
notifies. -/
def threeSections (t : ℕ) : List LockAction := [.resume t, .resume t, .resume t]

/-- The first session locks the bytes, and the second one waits for them. -/
def sleeping : List LockAction :=
  .setLock 0 0 0 (firstTen .write) false :: threeSections 0 ++
    [.setLock 1 1 0 (firstTen .write) true, .resume 1, .resume 1]

/-- The first session unlocks them, and has yet to notify. -/
def releasing : List LockAction :=
  sleeping ++ [.setLock 0 0 0 (firstTen .unlock) false, .resume 0, .resume 0]

/-- **A sleeper that nothing is in the way of, and that has not been notified.** -/
theorem released_before_notified :
    let s := (Machine.run Waits.step (Waits.new twoSessions) releasing).1
    ∃ t call since, s.calls.find t = some (.parked call since) ∧
      ¬ call.Blocked s.server.locks ∧ ¬ since < s.notified := by
  refine ⟨1, ⟨1, 0, ⟨1, 1⟩, firstTen .write, true⟩, 1, by decide +kernel, ?_, by decide +kernel⟩
  rintro ⟨record, hrecord, -⟩
  have hnone : (Machine.run Waits.step (Waits.new twoSessions) releasing).1.server.locks = [] := by
    decide +kernel
  rw [hnone] at hrecord
  cases hrecord

/-! ## Handles -/

/-- The session has a handle open on the file. -/
def Sessions.HasOpen (sessions : Sessions) (session : Uuid) (identity : FileIdentity) : Prop :=
  ∃ handle opened, sessions.handles session handle = some opened ∧ opened.identity = identity

/-- A close of the session on the file has removed its handle, and has yet to remove the locks. -/
def Waits.Closing (s : Waits) (session : Uuid) (identity : FileIdentity) : Prop :=
  ∃ t, s.calls.find t = some (.removing session (.closed identity))

/-- The call of `set_lock` that has yet to put its record into the table. -/
def LockStage.locking : LockStage → Option LockCall
  | .looping call | .trying call _ | .parked call _ => some call
  | _ => none

/-- A handle is closed when no call of `set_lock` through it is under way. -/
def Unhurried (s : Waits) : LockAction → Prop
  | .close _ session handle => ∀ entry ∈ s.calls, ∀ call ∈ entry.2.locking,
    ¬(call.session = session ∧ call.handle = handle)
  | _ => True

instance (s : Waits) (action : LockAction) : Decidable (Unhurried s action) :=
  match action with
  | .close _ session handle => inferInstanceAs (Decidable (∀ entry ∈ s.calls,
      ∀ call ∈ entry.2.locking, ¬(call.session = session ∧ call.handle = handle)))
  | .openFile .. | .setLock .. | .flush .. | .drop .. | .resume _ | .cancel _ => isTrue trivial

/-- Every record has a handle, and so has every call that is to make one. -/
structure Waits.Covered (s : Waits) : Prop where
  handle : ∀ t stage call, s.calls.find t = some stage → stage.locking = some call →
    ∃ opened, s.server.sessions.handles call.session call.handle = some opened ∧
      opened.identity = call.identity
  record : ∀ record ∈ s.server.locks,
    s.server.sessions.HasOpen record.session record.identity ∨
      s.Closing record.session record.identity
  ended : ∀ t stage, s.calls.find t = some stage → stage.session ∈ s.ended →
    stage.locking = none
  dropped : ∀ t session, s.calls.find t = some (.removing session .dropped) →
    session ∈ s.ended

theorem session_of_locking {stage : LockStage} {call : LockCall} (h : stage.locking = some call) :
    stage.session = call.session := by
  cases stage <;> cases h <;> rfl

namespace Waits

variable {s s' : Waits} {t : ℕ}

theorem covered_new {sessions : Sessions} : (new sessions).Covered := ⟨nofun, nofun, nofun, nofun⟩

/-- A section that leaves the handles alone, and in which only the call `t` moves. -/
theorem Covered.moves (h : s.Covered) (hmoves : Moves t s s') {next : Option LockStage}
    (hnext : s'.calls.find t = next)
    (hsessions : s'.server.sessions = s.server.sessions) (hover : s'.ended = s.ended)
    (hrecord : ∀ record ∈ s'.server.locks,
      s.server.sessions.HasOpen record.session record.identity ∨
        s'.Closing record.session record.identity)
    (hstage : ∀ stage, next = some stage →
      (∀ call, stage.locking = some call → call.session ∉ s.ended ∧
        ∃ opened, s.server.sessions.handles call.session call.handle = some opened ∧
          opened.identity = call.identity) ∧
      ∀ session, stage = .removing session .dropped → session ∈ s.ended) : s'.Covered := by
  refine ⟨fun t' stage call hfind hcall => ?_, ?_, fun t' stage hfind hmem => ?_,
    fun t' session hfind => ?_⟩
  · rw [hsessions]
    rcases hmoves.cases hnext hfind with hself | hold
    · exact ((hstage stage hself).1 call hcall).2
    · exact h.handle t' stage call hold hcall
  · rw [hsessions]
    exact hrecord
  · rw [hover] at hmem
    rcases hmoves.cases hnext hfind with hself | hold
    · cases hlocking : stage.locking with
      | none => rfl
      | some call =>
        rw [session_of_locking hlocking] at hmem
        exact absurd hmem ((hstage stage hself).1 call hlocking).1
    · exact h.ended t' stage hold hmem
  · rw [hover]
    rcases hmoves.cases hnext hfind with hself | hold
    · exact (hstage _ hself).2 session rfl
    · exact h.dropped t' session hold

variable {session : Uuid} {stage : LockStage}

/-- A close that is under way in another call still is. -/
theorem Closing.moves {identity : FileIdentity} (h : s.Closing session identity)
    (hmoves : Moves t s s')
    (hother : s.calls.find t ≠ some (.removing session (.closed identity))) :
    s'.Closing session identity := by
  obtain ⟨t', hfind⟩ := h
  have hne : t' ≠ t := fun heq => hother (heq ▸ hfind)
  exact ⟨t', (hmoves t' hne).trans hfind⟩

variable (h : s.Covered)

include h

theorem Covered.record_moves (hmoves : Moves t s s')
    (hother : ∀ session identity,
      s.calls.find t ≠ some (.removing session (.closed identity))) {record : LockRecord}
    (hrecord : record ∈ s.server.locks) :
    s.server.sessions.HasOpen record.session record.identity ∨
      s'.Closing record.session record.identity :=
  (h.record record hrecord).imp_right fun hclosing => hclosing.moves hmoves (hother _ _)

section

variable (hother : ∀ session identity, s.calls.find t ≠ some (.removing session (.closed identity)))

include hother

/-- A call that returns, other than a close before its removal. -/
theorem Covered.finish : (s.finish t).Covered :=
  h.moves moves_finish find_finish_self rfl rfl
    (fun _ hrecord => h.record_moves moves_finish hother hrecord) nofun

/-- A call that goes on. -/
theorem Covered.goOn (hcall : ∀ call, stage.locking = some call → call.session ∉ s.ended ∧
      ∃ opened, s.server.sessions.handles call.session call.handle = some opened ∧
      opened.identity = call.identity)
    (hdropped : ∀ session, stage = .removing session .dropped → session ∈ s.ended) :
    (s.goOn t stage).Covered := by
  refine h.moves moves_goOn find_goOn_self rfl rfl
    (fun _ hrecord => h.record_moves moves_goOn hother hrecord) ?_
  rintro _ ⟨⟩
  exact ⟨hcall, hdropped⟩

end

/-- What is known of a call that is in its loop. -/
theorem Covered.locking {call : LockCall} (hfind : s.calls.find t = some stage)
    (hcall : stage.locking = some call) :
    call.session ∉ s.ended ∧
      ∃ opened, s.server.sessions.handles call.session call.handle = some opened ∧
        opened.identity = call.identity := by
  refine ⟨fun hmem => ?_, h.handle t stage call hfind hcall⟩
  rw [← session_of_locking hcall] at hmem
  rw [h.ended t stage hfind hmem] at hcall
  cases hcall

theorem Covered.tryLock {call : LockCall} {since : ℕ}
    (hfind : s.calls.find t = some (.trying call since)) :
    (s.tryLock t call since).1.Covered := by
  have hother : ∀ session identity,
      s.calls.find t ≠ some (.removing session (.closed identity)) := by
    rw [hfind]
    simp
  obtain ⟨hlive, opened, hopened, hidentity⟩ := h.locking hfind rfl
  rw [Waits.tryLock]
  split
  · rename_i locks hattempt
    have hlocks : ∃ insert, locks = replaced s.server.locks call.identity call.session
        call.requested insert := by
      rw [Export.lockAttempt] at hattempt
      have hreplace : ∀ insert, replaceOwnerRange s.server.locks call.identity call.session
          call.requested insert = .ok locks → locks = replaced s.server.locks call.identity
            call.session call.requested insert := by
        intro insert hok
        rw [replaceOwnerRange] at hok
        split at hok
        · cases hok
        · exact (Except.ok.inj hok).symm
      split at hattempt
      · exact ⟨false, hreplace false (Option.some.inj hattempt)⟩
      split at hattempt
      · exact ⟨true, hreplace true (Option.some.inj hattempt)⟩
      · cases hattempt
    obtain ⟨insert, hlocks⟩ := hlocks
    refine h.moves moves_goOn find_goOn_self rfl rfl (fun record hrecord => ?_) ?_
    · have hrecord' : record ∈ locks := hrecord
      rw [hlocks] at hrecord'
      rcases mem_replaced hrecord' with ⟨-, hsession, hfile⟩ | ⟨old, hold, hsession, hfile⟩
      · rw [hsession, hfile]
        exact .inl ⟨call.handle, opened, hopened, hidentity⟩
      · rw [← hsession, ← hfile]
        exact h.record_moves moves_goOn hother hold
    · rintro _ ⟨⟩
      exact ⟨by simp [LockStage.locking], by simp⟩
  · exact h.finish hother
  · split
    · refine h.goOn hother ?_ (by simp)
      rintro _ ⟨⟩
      exact ⟨hlive, opened, hopened, hidentity⟩
    · exact h.finish hother

/-- After a removal: what is left is of another session, or, if it was for a close, of another file.
-/
theorem Covered.removed {removal : Removal}
    (hfind : s.calls.find t = some (.removing session removal)) (hmoves : Moves t s s')
    {next : Option LockStage} (hnext : s'.calls.find t = next)
    (hlocks : s'.server.locks = (s.server.removeLocks (removal.removes session)).locks)
    (hsessions : s'.server.sessions = if removal =
      .dropped then closeAll s.server.sessions session else s.server.sessions)
    (hover : s'.ended = s.ended)
    (hstage : ∀ stage, next = some stage → stage = .notifying session) : s'.Covered := by
  have hsame : ∀ session', (removal = .dropped → session' ≠ session) →
      s'.server.sessions.handles session' = s.server.sessions.handles session' := by
    intro session' hne
    rw [hsessions]
    split
    · rename_i hdropped
      funext handle
      exact if_neg (hne hdropped)
    · rfl
  have hother : ∀ t' stage, s'.calls.find t' = some stage →
      stage = .notifying session ∨ s.calls.find t' = some stage :=
    fun _ stage hfind' => (hmoves.cases hnext hfind').imp_left (hstage stage)
  refine ⟨fun t' stage call hfind' hcall => ?_, fun record hrecord => ?_,
    fun t' stage hfind' hmem => ?_, fun t' session' hfind' => ?_⟩
  · rcases hother t' stage hfind' with rfl | hfind'
    · cases hcall
    obtain ⟨hlive, hopened⟩ := h.locking hfind' hcall
    rw [hsame call.session]
    · exact hopened
    -- A session that is dropped is over, and this one is not.
    rintro rfl rfl
    exact hlive (h.dropped t _ hfind)
  · rw [hlocks] at hrecord
    obtain ⟨hmem, hnot⟩ := List.mem_filter.1 hrecord
    rw [Bool.not_eq_true'] at hnot
    rcases h.record record hmem with ⟨handle, hopened⟩ | hclosing
    · refine .inl ⟨handle, ?_⟩
      rw [hsame record.session]
      · exact hopened
      · rintro rfl
        exact of_decide_eq_false hnot
    · refine .inr (hclosing.moves hmoves fun heq => ?_)
      rw [hfind] at heq
      cases heq
      simp [Removal.removes] at hnot
  · rcases hother t' stage hfind' with rfl | hfind'
    · rfl
    · exact h.ended t' stage hfind' (hover ▸ hmem)
  · rcases hother t' _ hfind' with heq | hfind'
    · cases heq
    · rw [hover]
      exact h.dropped t' session' hfind'

theorem Covered.remove {removal : Removal}
    (hfind : s.calls.find t = some (.removing session removal)) :
    (s.remove t session removal).1.Covered := by
  rw [Waits.remove]
  split
  · exact h.removed hfind moves_goOn find_goOn_self rfl rfl rfl fun _ hself =>
      (Option.some.inj hself).symm
  · exact h.removed hfind moves_finish find_finish_self rfl rfl rfl nofun

theorem Covered.resume (hfind : s.calls.find t = some stage) :
    (s.resume t stage).1.Covered := by
  cases stage with
  | looping =>
    refine h.goOn (by rw [hfind]; nofun) ?_ nofun
    rintro _ ⟨⟩
    exact h.locking hfind rfl
  | trying => exact h.tryLock hfind
  | parked =>
    rw [Waits.resume]
    split
    · refine h.goOn (by rw [hfind]; nofun) ?_ nofun
      rintro _ ⟨⟩
      exact h.locking hfind rfl
    · exact h
  | removing => exact h.remove hfind
  | notifying =>
    have hnotified : { s with notified := s.notified + 1 }.Covered :=
      ⟨h.handle, h.record, h.ended, h.dropped⟩
    exact hnotified.finish (by rw [hfind]; nofun)

theorem Covered.openFile (session : Uuid) (handle : FileHandle) (opened : OpenFile) :
    { s with server := { s.server with
      sessions := s.server.sessions.insertHandle session handle opened } }.Covered := by
  have hkept : ∀ session' handle' opened', s.server.sessions.handles session' handle' = some opened' →
      (s.server.sessions.insertHandle session handle opened).handles session' handle' =
        some opened' := by
    intro session' handle' opened' hopened
    rw [Sessions.insertHandle]
    split
    · exact hopened
    rename_i hfree
    dsimp only
    rw [if_neg]
    · exact hopened
    rintro ⟨rfl, rfl⟩
    rw [hopened] at hfree
    exact hfree rfl
  refine ⟨fun t stage call hfind hcall => ?_, fun record hrecord => ?_, h.ended, h.dropped⟩
  · obtain ⟨opened', hopened, hidentity⟩ := h.handle t stage call hfind hcall
    exact ⟨opened', hkept _ _ _ hopened, hidentity⟩
  rcases h.record record hrecord with ⟨handle', opened', hopened, hidentity⟩ | hclosing
  · exact .inl ⟨handle', opened', hkept _ _ _ hopened, hidentity⟩
  · exact .inr hclosing

/-- The first section of a close: the records that only this handle stood for are about to go. -/
theorem Covered.close {handle : FileHandle} {opened : OpenFile}
    (hadmits : s.admits t session = true)
    (hopened : s.server.sessions.openHandle session handle = .ok opened)
    (hunhurried : Unhurried s (.close t session handle)) : ({ s with server := { s.server with
        sessions := s.server.sessions.removeHandle session handle } }.goOn t
      (.removing session (.closed opened.identity))).Covered := by
  have hfree := (find_of_admits hadmits).1
  have hother : ∀ t' stage, Entries.find (s.calls.insert t
      (.removing session (.closed opened.identity))) t' = some stage →
      stage = .removing session (.closed opened.identity) ∨ s.calls.find t' = some stage :=
    fun t' stage hfind => ((moves_goOn (s := s)).cases find_goOn_self hfind).imp_left
      fun hself => (Option.some.inj hself).symm
  refine ⟨fun t' stage call hfind hcall => ?_, fun record hrecord => ?_,
    fun t' stage hfind hmem => ?_, fun t' session' hfind => ?_⟩
  · rcases hother t' stage hfind with rfl | hfind
    · cases hcall
    · obtain ⟨opened', hopened', hidentity⟩ := h.handle t' stage call hfind hcall
      exact ⟨opened', (if_neg (hunhurried _ (Entries.mem_of_find hfind) call hcall)).trans hopened',
        hidentity⟩
  · rcases h.record record hrecord with ⟨handle', opened', hopened', hidentity⟩ | ⟨t', hfind⟩
    · by_cases heq : record.session = session ∧ handle' = handle
      · refine .inr ⟨t, ?_⟩
        obtain ⟨hsession, rfl⟩ := heq
        rw [Sessions.openHandle, ← hsession, hopened'] at hopened
        obtain rfl := Except.ok.inj hopened
        rw [hsession, ← hidentity]
        exact find_goOn_self
      · exact .inl ⟨handle', opened', (if_neg heq).trans hopened', hidentity⟩
    · refine .inr ⟨t', (find_goOn_of_ne ?_).trans hfind⟩
      rintro rfl
      rw [hfree] at hfind
      cases hfind
  · rcases hother t' stage hfind with rfl | hfind
    · rfl
    · exact h.ended t' stage hfind hmem
  · rcases hother t' _ hfind with heq | hfind
    · cases heq
    · exact h.dropped t' session' hfind

/-- **A section keeps a handle for every record**, if no handle is closed under a call. -/
theorem Covered.step (action : LockAction) (hunhurried : Unhurried s action) :
    (s.step action).1.Covered := by
  have hfree : ∀ {t session}, s.admits t session = true → ∀ session' identity,
      s.calls.find t ≠ some (.removing session' (.closed identity)) := by
    intro t session hadmits
    rw [(find_of_admits hadmits).1]
    simp
  cases action with
  | openFile session handle opened =>
    rw [Waits.step]
    split
    · exact h
    · exact h.openFile session handle opened
  | setLock =>
    rw [Waits.step]
    split
    · rename_i hadmits
      split
      · exact h
      rename_i identity htarget
      obtain ⟨opened, hopened, hidentity⟩ := openHandle_of_setLockTarget htarget
      refine h.goOn (hfree hadmits) ?_ (by simp)
      rintro _ ⟨⟩
      refine ⟨(find_of_admits hadmits).2, opened, ?_, hidentity⟩
      rw [Sessions.openHandle] at hopened
      split at hopened
      · rename_i opened' hfind
        rw [← Except.ok.inj hopened]
        exact hfind
      · cases hopened
    · exact h
  | flush =>
    rw [Waits.step]
    split
    · rename_i hadmits
      split
      · exact h
      split
      · exact h.goOn (hfree hadmits) (by simp [LockStage.locking]) (by simp)
      · exact h
    · exact h
  | close =>
    rw [Waits.step]
    split
    · rename_i hadmits
      split
      · exact h
      · rename_i opened hopened
        exact h.close hadmits hopened hunhurried
    · exact h
  | drop t session =>
    rw [Waits.step]
    split
    · rename_i hadmits
      rw [Bool.and_eq_true, List.all_eq_true] at hadmits
      obtain ⟨hadmits, halone⟩ := hadmits
      have hover : { s with ended := session :: s.ended }.Covered := by
        refine ⟨h.handle, h.record, fun t' stage hfind hmem => ?_, fun t' session' hfind =>
          List.mem_cons_of_mem _ (h.dropped t' session' hfind)⟩
        rcases List.mem_cons.1 hmem with heq | hmem
        · exact absurd heq (of_decide_eq_true (halone _ (Entries.mem_of_find hfind)))
        · exact h.ended t' stage hfind hmem
      refine hover.goOn (hfree hadmits) (by simp [LockStage.locking]) ?_
      rintro _ ⟨⟩
      exact List.mem_cons_self
    · exact h
  | resume =>
    rw [Waits.step]
    split
    · rename_i stage hfind
      exact h.resume hfind
    · exact h
  | cancel =>
    rw [Waits.step]
    split
    · rename_i hfind
      exact h.finish (by rw [hfind]; simp)
    · exact h

end Waits

/-- **A record has a handle**, if no handle is closed while a call through it is under way.
Whatever the sections of the calls are and in whatever order they come, a record in the table is one
of a session with an open handle on the file, or a close of the session has just removed the last
one and removes the record next. -/
theorem records_have_handles (sessions : Sessions) (actions : List LockAction)
    (hunhurried : ∀ met ∈ Machine.trace Waits.step (Waits.new sessions) actions,
      Unhurried met.1 met.2) :
    let s := (Machine.run Waits.step (Waits.new sessions) actions).1
    ∀ record ∈ s.server.locks, s.server.sessions.HasOpen record.session record.identity ∨
      s.Closing record.session record.identity :=
  (Machine.run_invariant_when (fun _ action h hC => h.step action hC) Waits.covered_new
    actions hunhurried).record

/-- Somebody waits for a lock, gets it in the end and closes the file. -/
def waitingTurn : List LockAction :=
  releasing ++ .resume 0 :: .resume 1 :: threeSections 1 ++ [.close 2 1 0]

/-- In the middle of the close there is a record, and no handle. -/
theorem waiting_call_has_handle :
    let s := (Machine.run Waits.step (Waits.new twoSessions) waitingTurn).1
    s.server.locks = [⟨⟨1, 1⟩, 1, firstTen .write⟩] ∧
      ∀ record ∈ s.server.locks, s.server.sessions.HasOpen record.session record.identity ∨
        s.Closing record.session record.identity :=
  ⟨by decide +kernel, records_have_handles twoSessions waitingTurn (by decide +kernel)⟩

/-! ### A lock without a handle -/

/-- The second session closes its handle in its sleep, and the first one unlocks. -/
def closingAsleep : List LockAction :=
  sleeping ++ [.close 2 1 0, .resume 2] ++
    .setLock 0 0 0 (firstTen .unlock) false :: threeSections 0 ++ .resume 1 :: threeSections 1

/-- **The call that has waited locks a file that its session has closed.**  Nothing is under way any
more, every call has succeeded, and the second session has a lock and no handle. -/
theorem lock_after_close :
    let ran := Machine.run Waits.step (Waits.new twoSessions) closingAsleep
    ran.1.server.locks = [⟨⟨1, 1⟩, 1, firstTen .write⟩] ∧ ran.1.calls = [] ∧
      ran.2.filterMap id = [.ok (), .ok (), .ok (), .ok ()] ∧
      ¬ ran.1.server.sessions.HasOpen 1 ⟨1, 1⟩ := by
  refine ⟨by decide +kernel, by decide +kernel, by rfl, ?_⟩
  rintro ⟨handle, opened, hopened, -⟩
  have hclosed : (twoSessions.removeHandle 1 0).handles 1 handle = some opened := hopened
  rw [Sessions.removeHandle] at hclosed
  dsimp only [twoSessions] at hclosed
  split at hclosed
  · cases hclosed
  rename_i hne
  rw [if_neg fun h => hne ⟨rfl, h.2⟩] at hclosed
  cases hclosed

end QuickFS.Server
