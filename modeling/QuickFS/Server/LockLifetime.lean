import QuickFS.Server.Posix

/-!
# How long a lock lasts

One session carries every process of a mount, so a lock belongs to an owner within a session, and
the owners of one session know nothing of each other.  A lock should then last until something ends
it that its owner has to do with (`Ends`): the owner unlocks the bytes or is granted another lock of
them, a flush names the owner, a handle is closed through which the owner has acquired a lock, or the
session is over.

`flush` goes by the owner it is given.  `close` does not: it drops whatever the session holds on the
file, and the owner of a lock that is lost in this way need not have had anything to do with the
handle (`close_drops_lock_of_another_owner`).  What a close does is right exactly when everything
the session holds on the file belongs to owners who have locked through the handle (`ClosesOwn`),
and that is the only thing that can go wrong (`locks_last_iff`).
-/

namespace QuickFS.Server

open SegmentTable

/-! ## Who has locked through which handle -/

/-- The export, and the owners that have acquired a lock through each handle since it was opened. -/
structure Observed where
  server : Export
  acquired : Uuid → FileHandle → List ℕ

namespace Observed

/-- The owners of one handle, changed. -/
def setAcquired (o : Observed) (session : Uuid) (handle : FileHandle) (owners : List ℕ) :
    Uuid → FileHandle → List ℕ :=
  fun session' handle' =>
    if session' = session ∧ handle' = handle then owners else o.acquired session' handle'

/-- What an operation that was answered by `reply` does to the record of owners. -/
def record (o : Observed) : LockOp → LockReply → Uuid → FileHandle → List ℕ
  | .setLock session handle requested, .done (.ok ()) =>
    if requested.kind = .unlock then o.acquired
    else o.setAcquired session handle (requested.owner :: o.acquired session handle)
  | .close session handle, .done (.ok ()) => o.setAcquired session handle []
  | _, _ => o.acquired

def step (o : Observed) (op : LockOp) : Observed × LockReply :=
  let answer := o.server.step op
  (⟨answer.1, o.record op answer.2⟩, answer.2)

def new (sessions : Sessions) : Observed := ⟨Export.new sessions, fun _ _ => []⟩

end Observed

/-! ## What may end a lock -/

/-- The operation has to do with the owner of a lock, at a byte of it. -/
def Ends (o : Observed) (owner : LockOwner) (byte : ℕ) : LockOp → Prop
  | .setLock session handle requested =>
    (o.server.setLock session handle requested).2 = .ok () ∧ ∃ opened,
      o.server.sessions.openHandle session handle = .ok opened ∧
        owner = ⟨opened.identity, session, requested.owner⟩ ∧
        requested.start ≤ byte ∧ byte ≤ requested.stop
  | .flush session handle lockOwner => ∃ opened,
      o.server.sessions.openHandle session handle = .ok opened ∧
        ∃ named ∈ lockOwner, owner = ⟨opened.identity, session, named⟩
  | .close session handle => ∃ opened,
      o.server.sessions.openHandle session handle = .ok opened ∧
        owner.session = session ∧ owner.identity = opened.identity ∧
        owner.owner ∈ o.acquired session handle
  | .cleanup session => owner.session = session
  | .openFile .. => False
  | .getLock .. => False

/-- Every lock survives the operation, but for bytes the operation may end. -/
def KeepsLocks (o : Observed) (op : LockOp) : Prop := ∀ owner byte value,
  Holds LockRecord.segment o.server.locks owner byte value →
    Holds LockRecord.segment (o.step op).1.server.locks owner byte value ∨ Ends o owner byte op

/-- A handle is closed only when all that its session holds on the file belongs to owners who have
locked through the handle. -/
def ClosesOwn (o : Observed) : LockOp → Prop
  | .close session handle => ∀ opened, o.server.sessions.openHandle session handle = .ok opened →
      ∀ record ∈ o.server.locks, record.session = session → record.identity = opened.identity →
        record.lock.owner ∈ o.acquired session handle
  | _ => True

/-! ## One operation -/

section Step

variable {o : Observed} {p : Posix} {owner : LockOwner} {byte : ℕ} {value : LockKind × ℕ}
  {session : Uuid} {handle : FileHandle}

/-- `set_lock` of the reference changes the requested bytes of the requester if it is granted. -/
theorem held_setLock {requested : FileLock} :
    (p.setLock session handle requested).1.held = p.held ∨
      ∃ identity, p.sessions.setLockTarget session handle requested = .ok identity ∧
        p.setLock session handle requested =
          ({ p with held := p.held.apply identity session requested }, .granted) := by
  rw [Posix.setLock]
  split
  · exact .inl rfl
  rename_i identity htarget
  split
  · exact .inl rfl
  split
  · exact .inl rfl
  · exact .inr ⟨identity, htarget, rfl⟩

theorem keepsLocks_setLock (h : Represents o.server p) {requested : FileLock} :
    KeepsLocks o (.setLock session handle requested) := by
  intro owner byte value hheld
  obtain ⟨hrep, houtcome⟩ := setLock_represents h session handle requested
  rw [← h.denotes owner byte value] at hheld
  show Holds LockRecord.segment (o.server.setLock session handle requested).1.locks _ _ _ ∨ _
  rw [← hrep.denotes owner byte value]
  rcases held_setLock with hsame | ⟨identity, htarget, happly⟩
  · rw [hsame]
    exact .inl hheld
  rw [happly] at houtcome ⊢
  have hgranted : (o.server.setLock session handle requested).2 = .ok () := by
    cases hreply : (o.server.setLock session handle requested).2 with
    | ok => rfl
    | error =>
      rw [hreply] at houtcome
      cases houtcome
  dsimp only
  rw [PosixLocks.apply, overwrite]
  split
  · rename_i hin
    rw [← h.sessions] at htarget
    obtain ⟨opened, hopened, rfl⟩ := openHandle_of_setLockTarget htarget
    exact .inr ⟨hgranted, opened, hopened, hin⟩
  · exact .inl hheld

/-- Records that are not dropped still hold what they held. -/
theorem holds_removeLocks {e : Export} {remove : LockRecord → Bool}
    (h : Holds LockRecord.segment e.locks owner byte value) :
    Holds LockRecord.segment (e.removeLocks remove).locks owner byte value ∨
      ∃ record ∈ e.locks, remove record = true ∧ record.segment.key = owner := by
  obtain ⟨record, hrecord, hkey, hbytes⟩ := h
  cases hremove : remove record with
  | true => exact .inr ⟨record, hrecord, hremove, hkey⟩
  | false =>
    refine .inl ⟨record, List.mem_filter.2 ⟨hrecord, ?_⟩, hkey, hbytes⟩
    rw [hremove]
    rfl

theorem keepsLocks_flush {lockOwner : Option ℕ} :
    KeepsLocks o (.flush session handle lockOwner) := by
  intro owner byte value hheld
  simp only [Observed.step, Export.step, Export.flush]
  split
  · exact .inl hheld
  rename_i opened hopened
  split
  · rename_i named
    refine (holds_removeLocks hheld).imp_right ?_
    rintro ⟨record, -, hremove, rfl⟩
    simp only [Bool.and_eq_true, decide_eq_true_eq] at hremove
    obtain ⟨⟨rfl, hidentity⟩, rfl⟩ := hremove
    exact ⟨opened, hopened, _, rfl, by rw [← hidentity]; rfl⟩
  · exact .inl hheld

/-- **A close is right exactly when it drops nothing but what its own handle has to do with.** -/
theorem keepsLocks_close_iff (h : Represents o.server p) :
    KeepsLocks o (.close session handle) ↔ ClosesOwn o (.close session handle) := by
  constructor
  · intro hkeeps opened hopened record hrecord hsession hidentity
    -- The first byte of the record is held, and no record that is left can hold it.
    have hfirst := hkeeps record.segment.key record.lock.start record.segment.value
      ⟨record, hrecord, rfl, le_refl _, h.canonical.inhabited record hrecord, rfl⟩
    simp only [Observed.step, Export.step, Export.close, hopened] at hfirst
    rcases hfirst with ⟨left, hleft, hkey, -⟩ | ⟨_, -, -, -, hacquired⟩
    · obtain ⟨-, hkept⟩ := List.mem_filter.1 hleft
      simp only [LockRecord.segment, LockOwner.mk.injEq] at hkey
      obtain ⟨hkeyIdentity, hkeySession, -⟩ := hkey
      simp [hkeyIdentity, hkeySession, hsession, hidentity] at hkept
    · exact hacquired
  · intro hown owner byte value hheld
    simp only [Observed.step, Export.step, Export.close]
    split
    · exact .inl hheld
    rename_i opened hopened
    refine (holds_removeLocks hheld).imp_right ?_
    rintro ⟨record, hrecord, hremove, rfl⟩
    simp only [Bool.and_eq_true, decide_eq_true_eq] at hremove
    exact ⟨opened, hopened, hremove.1, hremove.2,
      hown opened hopened record hrecord hremove.1 hremove.2⟩

theorem keepsLocks_cleanup : KeepsLocks o (.cleanup session) := by
  intro owner byte value hheld
  refine (holds_removeLocks hheld).imp_right ?_
  rintro ⟨record, -, hremove, rfl⟩
  have hsession : record.session = session := of_decide_eq_true hremove
  exact hsession

theorem keepsLocks_iff (h : Represents o.server p) {op : LockOp} :
    KeepsLocks o op ↔ ClosesOwn o op := by
  cases op with
  | openFile | getLock => exact iff_of_true (fun _ _ _ hheld => .inl hheld) trivial
  | setLock => exact iff_of_true (keepsLocks_setLock h) trivial
  | flush => exact iff_of_true keepsLocks_flush trivial
  | close => exact keepsLocks_close_iff h
  | cleanup => exact iff_of_true keepsLocks_cleanup trivial

end Step

/-! ## Every run -/

/-- **Locks last as long as they should in exactly those runs in which every close finds only locks
of owners who have locked through the handle it closes.** -/
theorem locks_last_iff (sessions : Sessions) (ops : List LockOp) :
    (∀ met ∈ Machine.trace Observed.step (Observed.new sessions) ops, KeepsLocks met.1 met.2) ↔
      ∀ met ∈ Machine.trace Observed.step (Observed.new sessions) ops, ClosesOwn met.1 met.2 := by
  refine forall₂_congr fun met hmet => ?_
  have hrep : ∃ p, Represents met.1.server p := by
    refine Machine.trace_invariant (I := fun o : Observed => ∃ p, Represents o.server p)
      ?_ ⟨_, new_represents sessions⟩ hmet
    rintro o op ⟨p, hp⟩
    exact ⟨_, (step_represents op hp).1⟩
  obtain ⟨p, hp⟩ := hrep
  exact keepsLocks_iff hp

/-- Two handles of one session on one file, for reading and writing. -/
def twoHandles : Sessions where
  handles _ handle := if handle < 2 then some ⟨⟨1, 1⟩, .readWrite⟩ else none
  canWrite _ := true

/-- The owner 7 is to lock ten bytes. -/
def firstTen (kind : LockKind) : FileLock := ⟨7, 0, 9, kind, 100, by decide, by decide⟩

/-- The owner 7 locks ten bytes through the first handle, and the second one is closed, through
which nobody has locked anything. -/
def closeOther : List LockOp := [.setLock 0 0 (firstTen .write), .close 0 1]

/-- The lock is granted, the close succeeds, and the lock is gone. -/
theorem close_drops_lock_of_another_owner :
    (Machine.run Observed.step (Observed.new twoHandles) closeOther).2 =
        [.done (.ok ()), .done (.ok ())] ∧
      (Machine.run Observed.step (Observed.new twoHandles) closeOther).1.server.locks = [] ∧
      ¬ ∀ met ∈ Machine.trace Observed.step (Observed.new twoHandles) closeOther,
        KeepsLocks met.1 met.2 := by
  have hgone : (Machine.run Observed.step (Observed.new twoHandles) closeOther).1.server.locks = [] :=
    by decide +kernel
  refine ⟨rfl, hgone, fun hkeeps => ?_⟩
  have hlocked : ((Observed.new twoHandles).step (.setLock 0 0 (firstTen .write))).1.server.locks =
      [⟨⟨1, 1⟩, 0, firstTen .write⟩] := by decide +kernel
  rcases hkeeps _ (List.mem_cons_of_mem _ List.mem_cons_self) ⟨⟨1, 1⟩, 0, 7⟩ 0 (.write, 100)
      (hlocked ▸ ⟨_, List.mem_singleton_self _, rfl, by decide, by decide, rfl⟩) with
    ⟨record, hrecord, -⟩ | ⟨_, -, -, -, hacquired⟩
  · have hnone : record ∈ ([] : List LockRecord) := hgone ▸ hrecord
    cases hnone
  · exact absurd hacquired (by decide +kernel)

end QuickFS.Server
