import Mathlib.Logic.Relation
import QuickFS.Client.Resilient
import QuickFS.Lib.Sequential

/-!
# Opening files again

When its connection has been replaced, `remoteHandle` opens the file of a logical handle again.  Two
questions about that, both for one call that nobody interferes with.

*Does it find what it expects?*  A handle that can be written is opened again only at the revision
on record, and a read that sees another one puts it on record — if it is greater (`adoptRevision`).
But revisions are hashes.  So a file that another client has changed may be read at a revision that
the handle does not adopt; the next reconnection then fails with `StaleRevision` although the file
has not changed since (`smaller_revision_not_adopted`).  `reopen_after_read_iff` says that it is
only the order of the two revisions that matters.

*Does it clean up?*  `remoteHandle` may give up after the file has been opened: because the revision
is another one, in which case it closes the file but does not look at the answer, and because a lock
is refused, in which case it does not close it.  A `Ledger` keeps what the client holds on its
connections, as the answers tell it.  `failed_reopen_keeps_iff` says that a call that fails leaves
it as it was, unless the file was opened and the last answer was an error; and then every further
attempt leaves one more file open (`refused_lock_leaves_file_open`).
-/

namespace QuickFS.Resilient.Reopening

open Async
open Call (Wp Wlp Preserves)

variable {E : Type} {config : Config} {me : ℕ}

/-! ## Getting a connection -/

section Connecting

variable {answer : E → (q : Question) → E × q.Answer} {K : Point sig E → Prop}

/-- What does not depend on the connection. -/
structure Unmoved (answer : E → (q : Question) → E × q.Answer) (K : Point sig E → Prop) : Prop where
  access : ∀ c s', K c → s'.handles = c.shared.handles → K { c with shared := s' }
  ask : ∀ c q, Connecting q → K c → K { c with env := (answer c.env q).1 }

theorem Unmoved.preserves (hK : Unmoved answer K) {α : Type} {m : M α} (h : Connects m) :
    Preserves answer K m := by
  induction h with
  | ofExcept => exact .ofExcept
  | bind _ _ hm hf => exact hm.bind hf
  | attempt _ hm => exact hm.attempt
  | ask hq => exact .ask fun c hc => hK.ask c _ hq hc
  | access h => exact .access fun c hc => hK.access c _ hc (h _)

theorem Unmoved.healthyConnection (hK : Unmoved answer K) :
    Preserves answer K (healthyConnection config me) :=
  hK.preserves .healthyConnection

end Connecting

/-! ## Revisions -/

section Revisions

variable {answer : E → (q : Question) → E × q.Answer} {c : Point sig E}

/-- Whoever answers comes from one state to another by answering questions. -/
abbrev Reaches (answer : E → (q : Question) → E × q.Answer) : E → E → Prop :=
  Relation.ReflTransGen fun e e' => ∃ q, e' = (answer e q).1

/-- The entry `found` is the entry `state`, brought up to date while whoever answers came from
`start` to `last`.  Its revision is the same, unless the handle only reads and holds no locks: then
it may be one the file was opened again at on the way. -/
structure Updated (answer : E → (q : Question) → E × q.Answer) (start last : E)
    (state found : HandleState) : Prop where
  reached : Reaches answer start last
  node : found.node = state.node
  options : found.options = state.options
  lockHistory : found.lockHistory = state.lockHistory
  revision : found.revision = state.revision ∨
    (state.options.access = .readOnly ∧ state.lockHistory = [] ∧
      ∃ e slot opened, Reaches answer start e ∧
        (answer e (.call slot state.reopenCall)).2 = .ok opened ∧
        opened.revision = found.revision ∧
        Reaches answer (answer e (.call slot state.reopenCall)).1 last)

/-- The entry of a handle is the entry `state`, brought up to date. -/
def Entry (answer : E → (q : Question) → E × q.Answer) (start : E) (handle : FileHandle)
    (state found : HandleState) (c : Point sig E) : Prop :=
  c.shared.handles handle = some found ∧ Updated answer start c.env state found

variable {start : E} {slot : ConnectionSlot} {handle : FileHandle} {found state : HandleState}
  {revision : FileRevision} {offset length : ℕ} {read : RangeRead}

theorem Updated.ask {last : E} (h : Updated answer start last state found) (q : Question) :
    Updated answer start (answer last q).1 state found where
  reached := h.reached.tail ⟨q, rfl⟩
  node := h.node
  options := h.options
  lockHistory := h.lockHistory
  revision := h.revision.imp_right
    fun ⟨haccess, hlocks, e, slot, opened, he, hopened, heq, hlast⟩ =>
      ⟨haccess, hlocks, e, slot, opened, he, hopened, heq, hlast.tail ⟨q, rfl⟩⟩

theorem unmoved_entry : Unmoved answer (Entry answer start handle state found) where
  access _ _ hc hs := ⟨hs ▸ hc.1, hc.2⟩
  ask _ q _ hc := ⟨hc.1, hc.2.ask q⟩

theorem setHandle_self {s : State} {entry : Option HandleState} :
    (s.setHandle handle entry).handles handle = entry :=
  if_pos rfl

theorem replayLocks_entry {remote : FileHandle} {locks : List FileLock} :
    Preserves answer (Entry answer start handle state found) (replayLocks slot remote locks) := by
  induction locks with
  | nil => exact .pure
  | cons _ _ ih =>
    exact Preserves.bind (Preserves.ask fun _ hc => ⟨hc.1, hc.2.ask _⟩) fun _ =>
      Preserves.ofExcept.bind fun _ => ih

/-- What a call leaves of the entry of a handle: the entry it returns. -/
def Found (answer : E → (q : Question) → E × q.Answer) (start : E) (handle : FileHandle)
    (state : HandleState) (r : Except ClientError (ConnectionSlot × HandleState))
    (c : Point sig E) : Prop :=
  ∀ p, r = .ok p → Entry answer start handle state p.2 c

theorem reopen_found {current : ConnectionSlot} (hentry : Entry answer start handle state found c) :
    Wlp answer (reopen handle found current) c (Found answer start handle state) := by
  obtain ⟨hfound, hupdated⟩ := hentry
  refine Wlp.bind (Wlp.ask (Wlp.bind (Wlp.ofExcept ?_)))
  cases hopened : (answer c.env (.call current found.reopenCall)).2 with
  | error => exact fun _ h => nomatch h
  | ok reopened =>
    -- The entry after the revisions have been compared, if the call goes on.
    have hadopt : Wlp answer (adoptReopened handle found current reopened)
        { c with env := (answer c.env (.call current found.reopenCall)).1 }
        fun r c' => ∀ kept, r = .ok kept → Entry answer start handle state kept c' := by
      have hasked := hupdated.ask (.call current found.reopenCall)
      rw [adoptReopened]
      split
      · exact Wlp.pure fun _ h => by cases h; exact ⟨hfound, hasked⟩
      split
      · rename_i hreads
        refine Wlp.bind (Wlp.access (Wlp.pure fun _ h => ?_))
        cases h
        refine ⟨setHandle_self, hasked.reached, hasked.node, hasked.options, hasked.lockHistory,
          .inr ⟨hupdated.options ▸ hreads.1, hupdated.lockHistory ▸ hreads.2, c.env, current,
            reopened, hupdated.reached, ?_⟩⟩
        change (answer c.env (.call current (.openFileWithOptions found.node
          { found.options with truncate := false }))).2 = .ok reopened at hopened
        rw [hupdated.node, hupdated.options] at hopened
        refine ⟨hopened, rfl, ?_⟩
        change Reaches answer _ (answer c.env (.call current (.openFileWithOptions found.node
          { found.options with truncate := false }))).1
        rw [hupdated.node, hupdated.options]
      · exact Wlp.bind (Wlp.ask (Wlp.throw fun _ h => nomatch h))
    refine Wlp.bind (hadopt.conseq fun r c' h => ?_)
    cases r with
    | error => exact fun _ h => nomatch h
    | ok kept =>
      refine Wlp.bind ((replayLocks_entry c' (h kept rfl)).conseq fun r c'' hkept => ?_)
      cases r with
      | error => exact fun _ h => nomatch h
      | ok =>
        refine Wlp.bind (Wlp.access (Wlp.pure fun _ h => ?_))
        cases h
        exact ⟨setHandle_self, { hkept.2 with }⟩

theorem remoteHandle_found (hentry : Entry answer start handle state found c) :
    Wlp answer (remoteHandle config me handle) c (Found answer start handle state) := by
  have hnone : ∀ (e : ClientError) (c' : Point sig E), Found answer start handle state (.error e) c' :=
    fun _ _ _ h => nomatch h
  refine Wlp.bind ((unmoved_entry.healthyConnection c hentry).conseq fun r c1 hc1 => ?_)
  cases r with
  | error e => exact hnone e c1
  | ok =>
    refine Wlp.bind (Wlp.access ?_)
    dsimp only
    rw [hc1.1]
    dsimp only
    split
    · exact Wlp.pure fun _ h => by cases h; exact hc1
    refine Wlp.holding (Wlp.access ?_)
    refine Wlp.conseq (Q := Found answer start handle state) ?_ fun r c2 hfound => Wlp.access hfound
    refine Wlp.bind (Wlp.access ?_)
    dsimp only [id]
    rw [hc1.1]
    refine Wlp.bind ((unmoved_entry.healthyConnection _ (by exact hc1)).conseq fun r c2 hc2 => ?_)
    cases r with
    | error e => exact hnone e c2
    | ok =>
      dsimp only
      split
      · exact Wlp.pure fun _ h => by cases h; exact hc2
      · exact reopen_found hc2

/-- What a read leaves of the entry of a handle: the greater of the two revisions. -/
def Adopted (answer : E → (q : Question) → E × q.Answer) (start : E) (handle : FileHandle)
    (state : HandleState) (r : Except ClientError RangeRead) (c : Point sig E) : Prop :=
  ∀ read, r = .ok read → ∃ found, Updated answer start c.env state found ∧
    c.shared.handles handle = some { found with revision := max found.revision read.revision }

theorem adoptRead_adopted (hentry : Entry answer start handle state found c) :
    Wlp answer (adoptRead handle found.revision read) c (Adopted answer start handle state) := by
  obtain ⟨hfound, hupdated⟩ := hentry
  rw [adoptRead]
  split
  · refine Wlp.bind (Wlp.access (Wlp.pure fun _ h => ?_))
    cases h
    refine ⟨found, hupdated, ?_⟩
    change (c.shared.updateHandle handle _).handles handle = _
    rw [State.updateHandle, setHandle_self, hfound, Option.map_some, Option.some_inj]
    split
    · rename_i hlt
      rw [max_eq_right (le_of_lt hlt)]
    · rename_i hle
      rw [max_eq_left (not_lt.1 hle)]
  · rename_i heq
    rw [not_not] at heq
    refine Wlp.pure fun _ h => ?_
    cases h
    refine ⟨found, hupdated, ?_⟩
    rw [heq, max_self]
    exact hfound

theorem readRangeVersioned_adopted (hstate : c.shared.handles handle = some state) :
    Wlp answer (readRangeVersioned config me handle offset length) c
      (Adopted answer c.env handle state) := by
  have herror : ∀ (e : ClientError) (c' : Point sig E),
      Adopted answer c.env handle state (.error e) c' := fun _ _ _ h => nomatch h
  have hentry : Entry answer c.env handle state state c :=
    ⟨hstate, Relation.ReflTransGen.refl, rfl, rfl, rfl, .inl rfl⟩
  refine Wlp.bind ((remoteHandle_found hentry).conseq fun r c1 h1 => ?_)
  cases r with
  | error e => exact herror e c1
  | ok p =>
    obtain ⟨hfound, hupdated⟩ := h1 p rfl
    refine Wlp.bind (Wlp.ask ?_)
    dsimp only
    split
    · exact adoptRead_adopted ⟨hfound, hupdated.ask _⟩
    · refine Wlp.bind (Wlp.access (Wlp.bind ?_))
      refine Wlp.conseq (remoteHandle_found ⟨hfound, hupdated.ask _⟩) fun r c2 h2 => ?_
      cases r with
      | error e => exact herror e c2
      | ok q =>
        refine Wlp.bind ((unmoved_entry.healthyConnection c2 (h2 q rfl)).conseq fun r c3 hc3 => ?_)
        cases r with
        | error e => exact herror e c3
        | ok replacement =>
          refine Wlp.bind (Wlp.ask (Wlp.bind (Wlp.ofExcept ?_)))
          cases (answer c3.env (.call replacement
            (.readRangeVersioned q.2.remote offset length))).2 with
          | error e => exact herror e _
          | ok => exact adoptRead_adopted ⟨hc3.1, hc3.2.ask _⟩
    · exact Wlp.throw (herror _ _)

/-- The connection has been replaced, by one on which the file is found at this revision and the
locks of the handle are granted. -/
structure Replaced (answer : E → (q : Question) → E × q.Answer) (handle : FileHandle)
    (state : HandleState) (revision : FileRevision) (c : Point sig E) : Prop where
  entry : c.shared.handles handle = some state
  free : c.shared.handlesWriter = none
  healthy : c.shared.failedGeneration ≠ c.shared.connection.generation
  other : state.generation ≠ c.shared.connection.generation
  unchanged : ∃ opened, (answer c.env (.call c.shared.connection state.reopenCall)).2 = .ok opened ∧
    opened.revision = revision
  granted : ∀ e remote lock,
    (answer e (.call c.shared.connection (.setLock remote lock false))).2 = .ok ()

theorem healthyConnection_wp
    (hhealthy : c.shared.failedGeneration ≠ c.shared.connection.generation) :
    Wp answer (healthyConnection config me) c fun r c' =>
      r = .ok c.shared.connection ∧ c' = c := by
  refine Wp.bind_read (Wp.bind_read ?_)
  rw [if_neg hhealthy]
  exact Wp.pure ⟨rfl, rfl⟩

theorem replayLocks_granted (remote : FileHandle) (locks : List FileLock)
    (hgranted : ∀ e lock, (answer e (.call slot (.setLock remote lock false))).2 = .ok ())
    (c : Point sig E) : Wp answer (replayLocks slot remote locks) c fun r _ => r = .ok () := by
  induction locks generalizing c with
  | nil => exact Wp.pure rfl
  | cons lock _ ih =>
    refine Wp.bind (Wp.ask ?_)
    dsimp only
    rw [hgranted c.env lock]
    exact Wp.bind (Wp.ofExcept (ih _))

/-- A handle that can be written is opened again at the revision on record, and at no other. -/
theorem reopen_wp (h : Replaced answer handle state revision c)
    (hwritable : state.options.access ≠ .readOnly) {c' : Point sig E} (henv : c'.env = c.env) :
    Wp answer (reopen handle state c.shared.connection) c' fun r _ =>
      (state.revision = revision → ∃ found, r = .ok found) ∧
        (state.revision ≠ revision → r = .error .staleRevision) := by
  obtain ⟨opened, hopened, hrevision⟩ := h.unchanged
  refine Wp.bind (Wp.ask (Wp.bind (Wp.ofExcept ?_)))
  rw [henv, hopened]
  refine Wp.bind ?_
  rw [adoptReopened, hrevision]
  split
  · rename_i heq
    refine Wp.pure (Wp.bind ((replayLocks_granted opened.handle _ (h.granted · _) _).conseq
      fun r c1 hr => ?_))
    subst hr
    exact Wp.bind_modify (Wp.pure ⟨fun _ => ⟨_, rfl⟩, fun hne => absurd heq.symm hne⟩)
  · rename_i hne
    rw [if_neg fun hreads => hwritable hreads.1]
    exact Wp.bind (Wp.ask (Wp.throw ⟨fun heq => absurd heq.symm hne, fun _ => rfl⟩))

theorem remoteHandle_replaced (h : Replaced answer handle state revision c)
    (hwritable : state.options.access ≠ .readOnly) :
    Wp answer (remoteHandle config me handle) c fun r _ =>
      (state.revision = revision → ∃ found, r = .ok found) ∧
        (state.revision ≠ revision → r = .error .staleRevision) := by
  refine Wp.bind ((healthyConnection_wp h.healthy).conseq fun r c1 ⟨hr, hc1⟩ => ?_)
  subst hr hc1
  refine Wp.bind (Wp.access (by rw [h.free]; rfl) ?_)
  dsimp only [id]
  rw [h.entry]
  dsimp only
  rw [if_neg h.other]
  refine Wp.holding (Wp.access (by rw [h.free]; rfl) ?_)
  refine Wp.conseq (Q := fun r _ => (state.revision = revision → ∃ found, r = .ok found) ∧
    (state.revision ≠ revision → r = .error .staleRevision)) ?_ fun r c2 hr => Wp.modify hr
  refine Wp.bind_read ?_
  dsimp only
  rw [h.entry]
  refine Wp.bind ((healthyConnection_wp (by exact h.healthy)).conseq fun r c2 ⟨hr, hc2⟩ => ?_)
  subst hr hc2
  dsimp only
  rw [if_neg h.other]
  exact reopen_wp h hwritable rfl

/-- **Only a greater revision is adopted.**  After a read that saw revision `r`, the revision on
record for the handle is `r` exactly if the one before was not greater; and exactly then a handle
that can be written is opened again on a connection on which the file is still at `r`.  (The
revision before is the one on record when the read was called, or, for a handle that only reads and
holds no locks, one that it was opened again at in the course of the read.) -/
theorem reopen_after_read_iff {c c' : Point sig E} {handle : FileHandle} {offset length : ℕ}
    {state : HandleState} {read : RangeRead} (hstate : c.shared.handles handle = some state)
    (heval : evalOp (program config) answer (.readRangeVersioned handle offset length) c =
      some (⟨.readRangeVersioned handle offset length, .ok read⟩, c')) :
    ∃ recorded found, Updated answer c.env c'.env state recorded ∧
      c'.shared.handles handle = some found ∧
      (found.revision = read.revision ↔ recorded.revision ≤ read.revision) ∧
      ∀ me c'', Replaced answer handle found read.revision c'' →
        state.options.access ≠ .readOnly →
        Wp answer (remoteHandle config me handle) c'' fun r _ =>
          (recorded.revision ≤ read.revision → ∃ p, r = .ok p) ∧
            (¬ recorded.revision ≤ read.revision → r = .error .staleRevision) := by
  have hread : Wlp answer (readRangeVersioned config c.tasks handle offset length)
      { c with tasks := c.tasks + 1 } (Adopted answer c.env handle state) :=
    readRangeVersioned_adopted hstate
  obtain ⟨r, hr, hadopted⟩ := Wlp.of_eval hread heval
  cases hr
  obtain ⟨recorded, hupdated, hfound⟩ := hadopted read rfl
  have hiff : max recorded.revision read.revision = read.revision ↔
      recorded.revision ≤ read.revision :=
    ⟨fun h => h ▸ Nat.le_max_left .., Nat.max_eq_right⟩
  refine ⟨recorded, _, hupdated, hfound, hiff, fun me c'' hreplaced hwritable => ?_⟩
  refine (remoteHandle_replaced hreplaced (by exact hupdated.options ▸ hwritable)).conseq
    fun r _ h => ⟨fun hle => h.1 (hiff.2 hle), fun hle => h.2 fun heq => hle (hiff.1 heq)⟩

/-! ### A smaller revision -/

/-- A server with one file, which another client changes once this one has opened it: its revision,
a hash, was `before` and is then `after`. -/
def changing (before after : FileRevision) (changed : Bool) : (q : Question) → Bool × q.Answer
  | .connect => (changed, .ok 1)
  | .call _ (.openFileWithOptions ..) => (true, .ok ⟨0, if changed then after else before, 0⟩)
  | .call _ (.readRangeVersioned ..) => (changed, .ok ⟨after, []⟩)
  | .call _ (.setLock ..) => (changed, .ok ())
  | .call _ .capabilities => (changed, .error (.server .notSupported "not supported"))
  | .call _ _ => (changed, .error .transport)
  | .now => (changed, 0)
  | .sleep _ => (changed, ())

/-- The error a call ends in, and the revision on record after it. -/
def reported (handle : FileHandle) (p : sig.Result × Point sig Bool) :
    Option ClientError × Option FileRevision :=
  (match p.1 with
    | ⟨_, .ok _⟩ => none
    | ⟨_, .error e⟩ => some e,
   (p.2.shared.handles handle).map HandleState.revision)

/-- **A smaller revision is not adopted.**  A file opened at revision 5 is read at revision 3, and
the connection breaks; the file is still at 3, but it is not opened again. -/
theorem smaller_revision_not_adopted :
    (evalOps (program ⟨⟨1, 0, 0⟩, none⟩) (changing 5 3)
      [.openFileWithOptions 3 ⟨.readWrite, false, false⟩, .readRangeVersioned 0 0 1, .seekFile 0 0 .data]
      ⟨State.new 0, false, 0⟩).map (·.map (reported 0)) =
    some [(none, some 5), (none, some 5), (some .staleRevision, some 5)] := by
  decide +kernel

/-- The owner 1 has ten bytes to write. -/
def tenBytes : FileLock := ⟨1, 10, 19, .write, 1, by decide, by decide⟩

/-- A file that is open and locked, at this revision. -/
def openedAt (revision : FileRevision) : Point sig Bool where
  shared := (State.new 0).setHandle 0
    (some ⟨3, ⟨.readWrite, false, false⟩, 0, revision, 0, 1, [tenBytes], 0⟩)
  env := true
  tasks := 0

/-- The file is opened at revision 3 and read at revision 5, and the connection is replaced: it is
opened and locked again. -/
theorem greater_revision_adopted :
    ∃ state c' recorded found, (openedAt 3).shared.handles 0 = some state ∧
      evalOp (program ⟨⟨1, 0, 0⟩, none⟩) (changing 3 5) (.readRangeVersioned 0 0 1) (openedAt 3) =
        some (⟨.readRangeVersioned 0 0 1, .ok ⟨5, []⟩⟩, c') ∧
      Updated (changing 3 5) (openedAt 3).env c'.env state recorded ∧
      c'.shared.handles 0 = some found ∧ (found.revision = 5 ↔ recorded.revision ≤ 5) ∧
      Wp (changing 3 5) (remoteHandle ⟨⟨1, 0, 0⟩, none⟩ 1 0)
        { c' with shared := { c'.shared with connection := ⟨2, 1⟩ } } fun r _ => ∃ p, r = .ok p := by
  obtain ⟨c', hread, hentry, hfree, hfailed, henv⟩ : ∃ c',
      evalOp (program ⟨⟨1, 0, 0⟩, none⟩) (changing 3 5) (.readRangeVersioned 0 0 1) (openedAt 3) =
        some (⟨.readRangeVersioned 0 0 1, .ok ⟨5, []⟩⟩, c') ∧
      c'.shared.handles 0 = some ⟨3, ⟨.readWrite, false, false⟩, 0, 5, 0, 1, [tenBytes], 0⟩ ∧
      c'.shared.handlesWriter = none ∧ c'.shared.failedGeneration = 0 ∧ c'.env = true :=
    ⟨_, rfl, rfl, rfl, rfl, rfl⟩
  obtain ⟨recorded, found, hupdated, hfound, hiff, hreopens⟩ :=
    reopen_after_read_iff (c := openedAt 3) rfl hread
  cases hentry.symm.trans hfound
  refine ⟨_, c', recorded, _, rfl, hread, hupdated, hentry, hiff, ?_⟩
  refine (hreopens 1 { c' with shared := { c'.shared with connection := ⟨2, 1⟩ } }
    ⟨hentry, hfree, ?_, (by decide : 1 ≠ 2), ⟨⟨0, 5, 0⟩, ?_, rfl⟩, fun _ _ _ => rfl⟩ (by decide)).conseq
    fun _ _ h => h.1 (hiff.1 rfl)
  · change c'.shared.failedGeneration ≠ 2
    rw [hfailed]
    decide
  · change (changing 3 5 c'.env _).2 = _
    rw [henv]
    rfl

end Revisions

/-! ## What is left behind -/

/-- A file that the client has open on a connection, and the locks it was granted on it. -/
structure Held where
  connection : Connection
  handle : FileHandle
  locks : List FileLock
deriving DecidableEq

def Held.isAt (slot : ConnectionSlot) (handle : FileHandle) (held : Held) : Bool :=
  held.connection = slot.filesystem && held.handle = handle

/-- A lock granted on the file that was last opened with this handle. -/
def grant (slot : ConnectionSlot) (handle : FileHandle) (lock : FileLock) : List Held → List Held
  | [] => []
  | file :: rest =>
    if file.isAt slot handle then { file with locks := lock :: file.locks } :: rest
    else file :: grant slot handle lock rest

/-- What the client holds after an answer. -/
def note (held : List Held) : (q : Question) → q.Answer → List Held
  | .call slot (.openFileWithOptions ..), .ok opened => ⟨slot.filesystem, opened.handle, []⟩ :: held
  | .call slot (.createFile ..), .ok created => ⟨slot.filesystem, created.opened.handle, []⟩ :: held
  | .call slot (.setLock handle lock _), .ok _ => grant slot handle lock held
  | .call slot (.closeFile handle), .ok _ => held.eraseP (Held.isAt slot handle)
  | _, _ => held

/-- An answer that refuses a lock, or to close a file. -/
def Refused : (q : Question) × q.Answer → Prop
  | ⟨.call _ (.setLock ..), .error _⟩ => True
  | ⟨.call _ (.closeFile _), .error _⟩ => True
  | _ => False

/-- The surroundings of the client, what it holds there, and the answers it was given. -/
structure Ledger (E : Type) where
  env : E
  held : List Held
  log : List ((q : Question) × q.Answer)

/-- Surroundings that answer as `answer` does, with a ledger of it. -/
def keeping (answer : E → (q : Question) → E × q.Answer) (ledger : Ledger E) (q : Question) :
    Ledger E × q.Answer :=
  let (env, a) := answer ledger.env q
  (⟨env, note ledger.held q a, ⟨q, a⟩ :: ledger.log⟩, a)

section Ledger

variable {answer : E → (q : Question) → E × q.Answer} {c : Point sig (Ledger E)} {held : List Held}

/-- These files are held, and nothing has been refused. -/
def Holds (held : List Held) (c : Point sig (Ledger E)) : Prop :=
  c.env.held = held ∧ ∀ x ∈ c.env.log, ¬ Refused x

theorem unmoved_holds (held : List Held) : Unmoved (keeping answer) (Holds (E := E) held) where
  access _ _ h _ := h
  ask c q hq h := by
    match q, hq with
    | .connect, _ | .now, _ | .sleep _, _ => exact ⟨h.1, List.forall_mem_cons.2 ⟨fun hr => hr, h.2⟩⟩
    | .call _ _, rfl => exact ⟨h.1, List.forall_mem_cons.2 ⟨fun hr => hr, h.2⟩⟩

/-- A call that fails leaves what is held as it was, exactly if nothing was refused. -/
def Cleans {α : Type} (held : List Held) (r : Except ClientError α) (c : Point sig (Ledger E)) :
    Prop :=
  ∀ error, r = .error error → (c.env.held = held ↔ ∀ x ∈ c.env.log, ¬ Refused x)

variable {α : Type} {handle : FileHandle} {r : Except ClientError α} {state : HandleState}
  {slot : ConnectionSlot}

theorem Holds.cleans (h : Holds held c) : Cleans held r c :=
  fun _ _ => ⟨fun _ => h.2, fun _ => h.1⟩

theorem Cleans.error {β : Type} {e e' : ClientError} (h : Cleans (α := α) held (.error e) c) :
    Cleans (α := β) held (.error e') c :=
  fun _ _ => h e rfl

theorem cleans_of_refused {file : Held} {x : (q : Question) × q.Answer}
    (hheld : c.env.held = file :: held) (hx : x ∈ c.env.log) (hrefused : Refused x) :
    Cleans held r c := by
  refine fun _ _ => ⟨fun h => ?_, fun h => absurd hrefused (h x hx)⟩
  rw [hheld] at h
  exact absurd h (List.cons_ne_self file held)

theorem replayLocks_cleans {remote : FileHandle} {locks : List FileLock} (granted : List FileLock)
    (h : Holds (⟨slot.filesystem, remote, granted⟩ :: held) c) :
    Wlp (keeping answer) (replayLocks slot remote locks) c (Cleans held) := by
  induction locks generalizing c granted with
  | nil => exact Wlp.pure fun _ hr => nomatch hr
  | cons lock _ ih =>
    refine Wlp.bind (Wlp.ask ?_)
    obtain ⟨hheld, hlog⟩ := h
    dsimp only [keeping]
    generalize (answer c.env.env (.call slot (.setLock remote lock false))) = reply
    obtain ⟨env, a⟩ := reply
    cases a with
    | ok =>
      refine Wlp.bind (Wlp.ofExcept (ih (lock :: granted) ⟨?_, ?_⟩))
      · change grant slot remote lock c.env.held = _
        rw [hheld, grant, if_pos (by simp [Held.isAt])]
      · exact List.forall_mem_cons.2 ⟨fun hr => hr, hlog⟩
    | error => exact Wlp.bind (Wlp.ofExcept (cleans_of_refused hheld List.mem_cons_self trivial))

/-- Once the file is open: it is closed again, or kept. -/
theorem adoptReopened_cleans {opened : OpenedFile}
    (h : Holds (⟨slot.filesystem, opened.handle, []⟩ :: held) c) :
    Wlp (keeping answer) (adoptReopened handle state slot opened) c fun r c' =>
      Cleans held r c' ∧
        ∀ found, r = .ok found → Holds (⟨slot.filesystem, opened.handle, []⟩ :: held) c' := by
  rw [adoptReopened]
  split
  · exact Wlp.pure ⟨fun _ hr => (nomatch hr), fun _ _ => h⟩
  split
  · exact Wlp.bind (Wlp.access (Wlp.pure ⟨fun _ hr => (nomatch hr), fun _ _ => h⟩))
  refine Wlp.bind (Wlp.ask (Wlp.throw ⟨?_, fun _ hr => nomatch hr⟩))
  obtain ⟨hheld, hlog⟩ := h
  dsimp only [keeping]
  generalize (answer c.env.env (.call slot (.closeFile opened.handle))) = reply
  obtain ⟨env, a⟩ := reply
  cases a with
  | ok =>
    refine Holds.cleans ⟨?_, List.forall_mem_cons.2 ⟨fun hr => hr, hlog⟩⟩
    change c.env.held.eraseP (Held.isAt slot opened.handle) = held
    rw [hheld, List.eraseP_cons_of_pos (by simp [Held.isAt])]
  | error => exact cleans_of_refused hheld List.mem_cons_self trivial

theorem reopen_cleans (h : Holds held c) :
    Wlp (keeping answer) (reopen handle state slot) c (Cleans held) := by
  refine Wlp.bind (Wlp.ask (Wlp.bind (Wlp.ofExcept ?_)))
  obtain ⟨hheld, hlog⟩ := h
  dsimp only [keeping]
  generalize (answer c.env.env (.call slot state.reopenCall)) = reply
  obtain ⟨env, a⟩ := reply
  cases a with
  | error => exact Holds.cleans ⟨hheld, List.forall_mem_cons.2 ⟨fun hr => hr, hlog⟩⟩
  | ok =>
    refine Wlp.bind ((adoptReopened_cleans
      ⟨congrArg (_ :: ·) hheld, List.forall_mem_cons.2 ⟨fun hr => hr, hlog⟩⟩).conseq
      fun r c1 ⟨hclean, hholds⟩ => ?_)
    cases r with
    | error => exact hclean.error
    | ok found =>
      refine Wlp.bind ((replayLocks_cleans [] (hholds found rfl)).conseq fun r c2 hclean => ?_)
      cases r with
      | error => exact hclean.error
      | ok => exact Wlp.bind (Wlp.access (Wlp.pure fun _ hr => nomatch hr))

/-- **A reopening that fails.**  When `remoteHandle` ends in an error, the client holds the files
and the locks that it held before, exactly if none of the locks was refused and neither was closing
the file. -/
theorem failed_reopen_keeps_iff (config : Config) (answer : E → (q : Question) → E × q.Answer)
    (shared : State) (env : E) (held : List Held) (tasks me : ℕ) (logical : FileHandle) :
    Wlp (keeping answer) (remoteHandle config me logical) ⟨shared, ⟨env, held, []⟩, tasks⟩
      fun r c => ∀ error, r = .error error →
        (c.env.held = held ↔ ∀ x ∈ c.env.log, ¬ Refused x) := by
  have hunmoved : Unmoved (keeping answer) (Holds held) := unmoved_holds held
  refine Wlp.bind ((hunmoved.healthyConnection _ ⟨rfl, fun _ hx => (by cases hx)⟩).conseq
    fun r c1 hc1 => ?_)
  cases r with
  | error => exact hc1.cleans
  | ok =>
    refine Wlp.bind (Wlp.access ?_)
    dsimp only
    split
    · exact Wlp.throw hc1.cleans
    split
    · exact Wlp.pure fun _ hr => nomatch hr
    refine Wlp.holding (Wlp.access ?_)
    refine Wlp.conseq (Q := Cleans held) ?_ fun r c2 hclean => Wlp.access hclean
    refine Wlp.bind (Wlp.access ?_)
    dsimp only
    split
    · exact Wlp.throw hc1.cleans
    refine Wlp.bind ((hunmoved.healthyConnection _ (by exact hc1)).conseq fun r c2 hc2 => ?_)
    cases r with
    | error => exact hc2.cleans
    | ok =>
      dsimp only
      split
      · exact Wlp.pure fun _ hr => nomatch hr
      · exact reopen_cleans hc2

/-! ### A lock that is refused -/

def wouldBlock : ClientError := .server .wouldBlock "the requested lock would block"

/-- A server that grants a lock to the first connection, and none to the next. -/
def grantingOnce (renewed : Bool) : (q : Question) → Bool × q.Answer
  | .connect => (true, .ok 1)
  | .call _ (.openFileWithOptions ..) => (renewed, .ok ⟨0, 5, 0⟩)
  | .call _ (.setLock ..) =>
    (renewed, if renewed then .error wouldBlock else .ok ())
  | .call _ .capabilities => (renewed, .error (.server .notSupported "not supported"))
  | .call _ _ => (renewed, .error .transport)
  | .now => (renewed, 0)
  | .sleep _ => (renewed, ())

/-- The error a call ends in, and the number of files it leaves open on a connection. -/
def leftOpen (connection : Connection) (p : sig.Result × Point sig (Ledger Bool)) :
    Option ClientError × ℕ :=
  (match p.1 with
    | ⟨_, .ok _⟩ => none
    | ⟨_, .error e⟩ => some e,
   p.2.env.held.countP fun file => decide (file.connection = connection))

/-- **A refused lock leaves the file open.**  A file is opened and locked, and the connection
replaced by one on which somebody else has the lock: each call on the handle then leaves one more
file open. -/
theorem refused_lock_leaves_file_open :
    (evalOps (program ⟨⟨1, 0, 0⟩, none⟩) (keeping grantingOnce)
      [.openFileWithOptions 3 ⟨.readWrite, false, false⟩, .setLock 0 tenBytes false,
        .seekFile 0 0 .data, .seekFile 0 0 .data, .seekFile 0 0 .data]
      ⟨State.new 0, ⟨false, [], []⟩, 0⟩).map (·.map (leftOpen 1)) =
    some [(none, 0), (none, 0), (some wouldBlock, 1), (some wouldBlock, 2), (some wouldBlock, 3)] := by
  decide +kernel

end Ledger

end QuickFS.Resilient.Reopening
