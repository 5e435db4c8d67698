import QuickFS.Export.Plain
import QuickFS.Export.References
import QuickFS.Export.Session

/-!
# Looking

Most of what the server does is looking: it walks paths, opens what is there, lists directories and
remembers where it has found an object.  What a function that looks returns depends on the host, and
a `View` says what may be known of it, in the terms of the server: which path a descriptor may be
of, what may be found at a path, which names may be looked at.

`Looks` is the set of rules for such functions.  Every function of the server that only looks
follows from them, once and for every view, and there are two ways to put the rules to use: what
is asked of the host is within a policy (`QuickFS.Export.Policy`), and what is seen is there
(`QuickFS.Export.Sight`).
-/

namespace QuickFS.Export

open Server Async

/-! ## The state meanwhile -/

/-- From `s` to `s'` nodes may have been lost, and their counts may have changed; handles may have
been closed. -/
structure Subsides (s s' : State) : Prop where
  inverse : Inverse s.nodes → Inverse s'.nodes
  nodes : ∀ node known', s'.nodes.byNode.find node = some known' →
    ∃ known, s.nodes.byNode.find node = some known ∧ known'.identity = known.identity ∧
      known'.paths = known.paths
  handles : ∀ session' ∈ s'.sessions, ∀ entry ∈ session'.handles,
    ∃ session ∈ s.sessions, entry ∈ session.handles

/-- Two states differ neither in what the sessions are authorized to do nor in the name of the
volume. -/
structure Alike (s s' : State) : Prop where
  sessions : s'.sessions.map Session.writeAuthorized = s.sessions.map Session.writeAuthorized
  volumeName : s'.volumeName = s.volumeName

/-- Nothing but nodes and handles may have been lost. -/
structure Loses (s s' : State) : Prop extends Subsides s s', Alike s s'

section Loses

variable {s s' s'' : State} {config : Config} {i j : ℕ}

theorem Subsides.refl (s : State) : Subsides s s :=
  ⟨id, fun _ known h => ⟨known, h, rfl, rfl⟩, fun session h _ hentry => ⟨session, h, hentry⟩⟩

theorem Subsides.trans (h : Subsides s s') (h' : Subsides s' s'') : Subsides s s'' where
  inverse := h'.inverse ∘ h.inverse
  nodes node known'' hfind := by
    obtain ⟨known', hfind', hidentity', hpaths'⟩ := h'.nodes node known'' hfind
    obtain ⟨known, hfind, hidentity, hpaths⟩ := h.nodes node known' hfind'
    exact ⟨known, hfind, hidentity'.trans hidentity, hpaths'.trans hpaths⟩
  handles session'' hsession entry hentry := by
    obtain ⟨session', hsession', hentry'⟩ := h'.handles session'' hsession entry hentry
    exact h.handles session' hsession' entry hentry'

/-- Neither the registry nor a session has changed, but for permits. -/
theorem subsides_of_eq (hnodes : s'.nodes = s.nodes) (hsessions : s'.sessions = s.sessions) :
    Subsides s s' where
  inverse h := hnodes ▸ h
  nodes _ known h := ⟨known, hnodes ▸ h, rfl, rfl⟩
  handles session hsession _ hentry := ⟨session, hsessions ▸ hsession, hentry⟩

variable {session : Session}

theorem handles_setSession (hsessions : s'.sessions = s.sessions.set i session)
    (hhandles : session.handles ⊆ (s.session i).handles) :
    ∀ session' ∈ s'.sessions, ∀ entry ∈ session'.handles,
      ∃ session ∈ s.sessions, entry ∈ session.handles := by
  intro session' hmem entry hentry
  rw [hsessions] at hmem
  by_cases hi : i < s.sessions.length
  · rcases List.mem_or_eq_of_mem_set hmem with hold | rfl
    · exact ⟨session', hold, hentry⟩
    · exact ⟨_, session_mem hi, hhandles hentry⟩
  · rw [List.set_eq_of_length_le (Nat.le_of_not_lt hi)] at hmem
    exact ⟨session', hmem, hentry⟩

/-- A session is replaced by one with no other handles. -/
theorem subsides_setSession (hnodes : s'.nodes = s.nodes)
    (hsessions : s'.sessions = s.sessions.set i session)
    (hhandles : session.handles ⊆ (s.session i).handles) : Subsides s s' :=
  ⟨fun h => hnodes ▸ h, fun _ known h => ⟨known, hnodes ▸ h, rfl, rfl⟩,
    handles_setSession hsessions hhandles⟩

/-- The count of a node changes, and perhaps a session. -/
theorem subsides_put {node : NodeId} {known : KnownNode} {references : ℕ}
    (hfind : s.nodes.byNode.find node = some known)
    (hnodes : s'.nodes = s.nodes.put node { known with sessionReferences := references })
    (hhandles : ∀ session' ∈ s'.sessions, ∀ entry ∈ session'.handles,
      ∃ session ∈ s.sessions, entry ∈ session.handles) : Subsides s s' where
  inverse h := hnodes ▸ h.put hfind rfl
  nodes other known' hother := by
    rw [hnodes, find_put] at hother
    split at hother
    · rename_i hsame
      cases hother
      exact ⟨known, hsame ▸ hfind, rfl, rfl⟩
    · exact ⟨known', hother, rfl, rfl⟩
  handles := hhandles

theorem subsides_release {node : NodeId} (hnodes : s'.nodes = s.nodes.release node)
    (hhandles : ∀ session' ∈ s'.sessions, ∀ entry ∈ session'.handles,
      ∃ session ∈ s.sessions, entry ∈ session.handles) : Subsides s s' := by
  rw [NodeRegistry.release] at hnodes
  split at hnodes
  · rename_i known hfind
    exact subsides_put hfind hnodes hhandles
  · exact ⟨fun h => hnodes ▸ h, fun _ known h => ⟨known, hnodes ▸ h, rfl, rfl⟩, hhandles⟩

theorem Alike.refl (s : State) : Alike s s := ⟨rfl, rfl⟩

theorem Alike.trans (h : Alike s s') (h' : Alike s' s'') : Alike s s'' :=
  ⟨h'.sessions.trans h.sessions, h'.volumeName.trans h.volumeName⟩

/-- The sessions and the name of the volume are the same. -/
theorem alike_of_eq (hsessions : s'.sessions = s.sessions)
    (hvolume : s'.volumeName = s.volumeName) : Alike s s' :=
  ⟨by rw [hsessions], hvolume⟩

/-- What a session is authorized to do, from the list of all that. -/
theorem writeAuthorized_session :
    (s.session j).writeAuthorized = (s.sessions.map Session.writeAuthorized).getD j false :=
  (List.getD_map s.sessions Session.ended Session.writeAuthorized).symm

/-- A session is replaced by one that is authorized to do the same, and the registry and the permits
by any. -/
theorem alike_setSession (hsessions : s'.sessions = s.sessions.set j session)
    (h : session.writeAuthorized = (s.session j).writeAuthorized)
    (hvolume : s'.volumeName = s.volumeName) : Alike s s' := by
  refine ⟨?_, hvolume⟩
  rw [hsessions, List.map_set, h, writeAuthorized_session]
  by_cases hj : j < (s.sessions.map Session.writeAuthorized).length
  · rw [List.getD_eq_getElem _ _ hj, List.set_getElem_self]
  · rw [List.set_eq_of_length_le (Nat.le_of_not_lt hj)]

theorem Loses.refl (s : State) : Loses s s := ⟨.refl s, .refl s⟩

theorem Loses.trans (h : Loses s s') (h' : Loses s' s'') : Loses s s'' :=
  ⟨h.toSubsides.trans h'.toSubsides, h.toAlike.trans h'.toAlike⟩

theorem loses_of_eq (hnodes : s'.nodes = s.nodes) (hsessions : s'.sessions = s.sessions)
    (hvolume : s'.volumeName = s.volumeName) : Loses s s' :=
  ⟨subsides_of_eq hnodes hsessions, alike_of_eq hsessions hvolume⟩

theorem loses_setSession (hnodes : s'.nodes = s.nodes)
    (hsessions : s'.sessions = s.sessions.set i session)
    (hhandles : session.handles ⊆ (s.session i).handles)
    (h : session.writeAuthorized = (s.session i).writeAuthorized)
    (hvolume : s'.volumeName = s.volumeName) : Loses s s' :=
  ⟨subsides_setSession hnodes hsessions hhandles, alike_setSession hsessions h hvolume⟩

variable (config i) (node : NodeId) (s : State)

theorem loses_dropSessionPermit : Loses s (s.dropSessionPermit i) :=
  loses_setSession rfl rfl (fun _ h => h) (by rfl) rfl

theorem loses_evictSession : Loses s (evictUnreferencedSessionNode config i s).2 := by
  simp only [evictUnreferencedSessionNode]
  split
  · exact .refl s
  · exact ⟨subsides_release rfl (handles_setSession rfl fun _ h => h),
      alike_setSession (by rfl) (by rfl) rfl⟩

theorem loses_evictGlobal : Loses s (evictUnreferencedGlobalNode config s).2 := by
  simp only [evictUnreferencedGlobalNode]
  split
  · exact .refl s
  split
  · exact .refl s
  rename_i node _ _ known hfind
  refine ⟨⟨fun h => h.erase hfind, fun other known' hother => ?_, (Subsides.refl s).handles⟩,
    alike_of_eq rfl rfl⟩
  exact ⟨known', (Entries.of_find_erase hother).2, rfl, rfl⟩

theorem loses_takeSessionPermit : Loses s (takeSessionPermit i s).2 := by
  rw [takeSessionPermit]
  split
  · exact .refl s
  · exact loses_setSession rfl rfl (fun _ h => h) (by rfl) rfl

theorem loses_acquireSessionPermit : Loses s (acquireSessionPermit config i s).2 :=
  acquireSessionPermit_keeps (fun s1 h => h.trans (loses_takeSessionPermit i s1))
    (fun s1 h => h.trans (loses_evictSession config i s1)) (.refl s)

theorem loses_takeNodePermit : Loses s (takeNodePermit s).2 := by
  rw [takeNodePermit]
  split
  · exact .refl s
  · exact loses_of_eq rfl rfl rfl

theorem loses_acquireNodePermit : Loses s (acquireNodePermit config s).2 :=
  acquireNodePermit_keeps (fun s1 h => h.trans (loses_takeNodePermit s1))
    (fun s1 h => h.trans (loses_evictGlobal config s1)) (.refl s)

theorem loses_trackNodeWithPermit : Loses s (trackNodeWithPermit i node s).2 := by
  simp only [trackNodeWithPermit]
  split
  · exact loses_dropSessionPermit i s
  split
  · exact loses_dropSessionPermit i s
  rename_i known hfind
  split
  · exact loses_dropSessionPermit i s
  · exact ⟨subsides_put hfind rfl (handles_setSession rfl fun _ h => h),
      alike_setSession (by rfl) (by rfl) rfl⟩

theorem loses_releaseNodeReference : Loses s (releaseNodeReference node s).2 := by
  rw [releaseNodeReference]
  split
  · exact .refl s
  split
  · exact .refl s
  split
  · exact .refl s
  · exact ⟨subsides_release rfl (Subsides.refl s).handles, alike_of_eq rfl rfl⟩

theorem loses_takeHandlePermit : Loses s (takeHandlePermit s).2 := by
  rw [takeHandlePermit]
  split
  · exact .refl s
  · exact loses_of_eq rfl rfl rfl

theorem loses_removeHandle (handle : FileHandle) : Loses s (removeHandle i handle s).2 := by
  simp only [removeHandle]
  split
  · exact .refl s
  · exact loses_setSession rfl rfl (fun _ h => Entries.mem_of_mem_erase h) (by rfl) rfl

end Loses

/-! ## Views -/

/-- What may be known: a descriptor is of a path and of an object, a directory has an object under a
name, an object is found at a path, the registry knows of a node what a snapshot says, and a node is
that of an object.  Some names may be looked at, and some of these may be opened. -/
structure View where
  held : Fd → PathBuf → Prop
  file : Fd → FileIdentity → Prop
  child : Fd → Name → FileIdentity → Prop
  found : PathBuf → FileIdentity → Prop
  known : NodeId → NodeSnapshot → Prop
  named : NodeId → FileIdentity → Prop
  looked : Name → Prop
  opened : Name → Prop
  held_root : held rootFile []
  found_file : ∀ {fd path identity}, held fd path → file fd identity → found path identity
  found_child : ∀ {fd path name identity}, held fd path → child fd name identity →
    found (path ++ [name]) identity
  named_known : ∀ {node snapshot}, known node snapshot → named node snapshot.identity
  opened_normal : ∀ name, isNormal name = true → opened name
  looked_opened : ∀ name, opened name → looked name

/-- What a stream may yield: names that may be opened, besides `.` and `..`; and where every entry is
looked at, names that may be looked at. -/
def Streams (looked opened : Name → Prop) (search : Bool) (names : List (Except Errno Name)) : Prop :=
  ∀ name, .ok name ∈ names →
    (¬(name = [46] ∨ name = [46, 46]) → opened name) ∧ (search = true → looked name)

/-- **A function that only looks**, and what it ends in. -/
inductive Looks {F : Frame} (w : View) (config : Config) :
    {α : Type} → Run F α → (α → Prop) → Prop
  | ofExcept {α : Type} {post : α → Prop} {r : Except ServerError α} (h : ∀ a, r = .ok a → post a) :
      Looks w config (Call.ofExcept r) post
  | bind {α β : Type} {m : Run F β} {f : β → Run F α} {B : β → Prop} {post : α → Prop}
      (hm : Looks w config m B) (hf : ∀ b, B b → Looks w config (f b) post) :
      Looks w config (m >>= f) post
  | attempt {α : Type} {m : Run F α} {post : α → Prop} (hm : Looks w config m post) :
      Looks w config (Call.attempt m) fun r => ∀ a, r = .ok a → post a
  | conseq {α : Type} {m : Run F α} {post post' : α → Prop} (hm : Looks w config m post)
      (h : ∀ a, post a → post' a) : Looks w config m post'
  | read {α : Type} {f : State → α} : Looks w config (Call.read f) fun _ => True
  | plain {α : Type} {m : Run F α} (h : Plain False (fun _ => False) m) :
      Looks w config m fun _ => True
  | dup {fd : Fd} {path : PathBuf} (h : w.held fd path) :
      Looks w config (system (.dup fd) id) (w.held · path)
  | openat {directory : Fd} {path : PathBuf} {name : Name} {flags : OFlags} {mode : ℕ}
      (h : w.held directory path) (hname : w.opened name) (hcreate : flags.create = false)
      (hnofollow : flags.nofollow = true) :
      Looks w config (system (.openat directory name flags mode) id) (w.held · (path ++ [name]))
  | statat {directory : Fd} {path : PathBuf} {name : Name} (h : w.held directory path)
      (hname : w.looked name) : Looks w config (system (.statat directory name) id)
        fun stat => w.opened name → w.child directory name stat.identity
  | fstat {fd : Fd} : Looks w config (system (.fstat fd) id) fun stat => w.file fd stat.identity
  | readdir {directory : Fd} {search : Bool} :
      Looks w config (system (.readdir directory search) id) (Streams w.looked w.opened search)
  | loses {α : Type} {f : State → Except ServerError α × State} (h : ∀ s, Loses s (f s).2) :
      Looks w config (atomically f) fun _ => True
  | releasing {α : Type} {m : Run F α} {release : State → State} {post : α → Prop}
      (hm : Looks w config m post) (h : ∀ s, Loses s (release s)) :
      Looks w config (releasing release m) post
  | remembers {identity : FileIdentity} {path : PathBuf} (h : w.found path identity) :
      Looks w config (atomically (rememberExisting identity path))
        fun existing => ∀ node, existing = some node → w.named node identity
  | inserts {identity : FileIdentity} {path : PathBuf} (h : w.found path identity) :
      Looks w config (atomically (insertReserved config identity path)) (w.named · identity)
  | lookUp {node : NodeId} : Looks w config (atomically (lookUp node)) (w.known node)
  | opens {i : ℕ} {uuid : Uuid} {opened : OpenFile} :
      Looks w config (atomically (addHandle i uuid opened)) fun _ => True

variable {F : Frame} {w : View} {config : Config} {i : ℕ}

namespace Looks

variable {α β : Type} {m : Run F α} {post : α → Prop}

theorem pure {a : α} (h : post a) : Looks w config (Pure.pure a : Run F α) post :=
  ofExcept (r := .ok a) fun _ ha => Except.ok.inj ha ▸ h

theorem throw {error : ServerError} : Looks w config (Call.throw error : Run F α) post :=
  ofExcept (r := .error error) nofun

theorem checked {r : Except ServerError α} :
    Looks w config (Call.ofExcept r : Run F α) fun _ => True :=
  ofExcept fun _ _ => trivial

/-- Two calls, the first of which is called for what it does. -/
theorem seq {B : α → Prop} {f : α → Run F β} {post : β → Prop} (hm : Looks w config m B)
    (hf : ∀ a, Looks w config (f a) post) : Looks w config (m >>= f) post :=
  hm.bind fun a _ => hf a

theorem any (h : Looks w config m post) : Looks w config m fun _ => True :=
  h.conseq fun _ _ => trivial

theorem forM {f : α → Run F Unit} (list : List α) (h : ∀ a, Looks w config (f a) fun _ => True) :
    Looks (F := F) w config (list.forM f) fun _ => True := by
  induction list with
  | nil => exact pure trivial
  | cons a _ ih => exact (h a).seq fun _ => ih

end Looks

/-! ## The registry -/

section Registry

variable (node : NodeId) {identity : FileIdentity} {path : PathBuf}

theorem looks_trackNode : Looks w config (trackNode config i node : Run F Unit) fun _ => True := by
  refine Looks.read.seq fun known => ?_
  split
  · exact .pure trivial
  · exact (Looks.loses (loses_acquireSessionPermit config i)).seq fun _ =>
      .loses (loses_trackNodeWithPermit i node)

theorem looks_reserveNode : Looks w config (reserveNode config i : Run F Unit) fun _ => True :=
  (Looks.loses (loses_acquireSessionPermit config i)).seq fun _ =>
    .releasing (.loses (loses_acquireNodePermit config)) (loses_dropSessionPermit i)

theorem looks_rememberReserved (h : w.found path identity) :
    Looks (F := F) w config (rememberReserved config i identity path) (w.named · identity) :=
  .bind (.releasing (.inserts h) (loses_dropSessionPermit i)) fun node hnode =>
    (Looks.loses (loses_trackNodeWithPermit i node)).seq fun _ => .pure hnode

theorem looks_remember (h : w.found path identity) :
    Looks (F := F) w config (remember config i identity path) (w.named · identity) := by
  refine .bind (.remembers h) fun existing hexisting => ?_
  cases existing with
  | some node => exact (looks_trackNode node).seq fun _ => .pure (hexisting node rfl)
  | none => exact looks_reserveNode.seq fun _ => looks_rememberReserved h

theorem looks_forgetNodes (requested : List NodeId) :
    Looks w config (forgetNodes i requested : Run F Unit) fun _ => True := by
  rw [forgetNodes]
  split
  · exact .throw
  · exact (Looks.loses fun s => loses_setSession (by rfl) (by rfl) (by exact fun _ h => h) (by rfl)
      rfl).seq fun released => .forM released fun node => .loses (loses_releaseNodeReference node)

theorem looks_dropSession : Looks w config (dropSession i : Run F Unit) fun _ => True :=
  (Looks.loses fun s => loses_setSession (by rfl) (by rfl) (by exact List.nil_subset _) (by rfl)
    rfl).seq fun nodes => .forM nodes fun node =>
      (Looks.loses (loses_releaseNodeReference node)).attempt.seq fun _ => .pure trivial

end Registry

/-! ## Walking -/

section Walk

variable {root directory : Fd} {flags : OFlags}

theorem looks_openComponents {current : Fd} {done : PathBuf} (h : w.held current done)
    (path : PathBuf) :
    Looks w config (openComponents current path : Run F Fd) (w.held · (done ++ path)) := by
  induction path generalizing current done with
  | nil => exact .pure (by rwa [List.append_nil])
  | cons name _ ih =>
    rw [openComponents, List.append_cons]
    split
    · rename_i hname
      exact .bind (.openat h (w.opened_normal name hname) rfl rfl) fun next hnext => ih hnext
    · exact .throw

theorem looks_openDirectory (h : w.held root []) (path : PathBuf) :
    Looks w config (openDirectory root path : Run F Fd) (w.held · path) :=
  .bind (.dup h) fun _ hcurrent => looks_openComponents hcurrent path

theorem looks_openParent (h : w.held root []) (path : PathBuf) :
    Looks (F := F) w config (openParent root path) fun parent =>
      path = path.dropLast ++ [parent.2] ∧ isNormal parent.2 = true ∧
        w.held parent.1 path.dropLast := by
  rw [openParent]
  split
  · exact .throw
  rename_i name hname
  obtain ⟨hlast, hnormal⟩ := Option.filter_eq_some_iff.1 hname
  have hpath := List.dropLast_append_getLast? name hlast
  exact .bind (looks_openDirectory h _) fun parent hparent =>
    .pure ⟨hpath.symm, hnormal, hparent⟩

theorem looks_openRelative (h : w.held root []) (path : PathBuf) (hflags : flags.create = false) :
    Looks (F := F) w config (openRelative root path flags) fun found =>
      found.2.1 = path ∧ w.held found.1 path ∧ w.file found.1 found.2.2.identity := by
  rw [openRelative]
  split
  · rename_i hpath
    subst hpath
    exact .bind (.dup h) fun file hfile => .bind .fstat fun stat hstat => .pure ⟨rfl, hfile, hstat⟩
  refine .bind (looks_openParent h path) fun parent hparent => ?_
  obtain ⟨hpath, hnormal, hheld⟩ := hparent
  refine .bind (.openat hheld (w.opened_normal _ hnormal) (by exact hflags) rfl)
    fun file hfile => .bind .fstat fun stat hstat => .pure ⟨rfl, ?_, hstat⟩
  rw [hpath]
  exact hfile

theorem looks_secureLstat (h : w.held root []) (path : PathBuf) :
    Looks w config (secureLstat root path : Run F Stat) fun stat => w.found path stat.identity := by
  rw [secureLstat]
  split
  · rename_i hpath
    subst hpath
    exact Looks.fstat.conseq fun _ hstat => w.found_file h hstat
  refine .bind (looks_openParent h path) fun parent hparent => ?_
  obtain ⟨hpath, hnormal, hheld⟩ := hparent
  have hopened := w.opened_normal _ hnormal
  refine (Looks.statat hheld (w.looked_opened _ hopened)).conseq fun stat hstat => ?_
  rw [hpath]
  exact w.found_child hheld (hstat hopened)

/-- What `openSnapshot` ends in. -/
structure Snapped (w : View) (identity : FileIdentity) (opened : Fd × PathBuf × Stat) : Prop where
  held : w.held opened.1 opened.2.1
  file : w.file opened.1 identity

theorem looks_openSnapshotFrom (h : w.held root []) (identity : FileIdentity)
    (hflags : flags.create = false) (expected : Option NodeKind) (firstError : Option ServerError)
    (paths : List PathBuf) :
    Looks w config (openSnapshotFrom root identity flags expected firstError paths :
      Run F (Fd × PathBuf × Stat)) (Snapped w identity) := by
  induction paths generalizing firstError with
  | nil => exact .throw
  | cons path _ ih =>
    rw [openSnapshotFrom]
    refine .bind (looks_openRelative h path hflags).attempt fun outcome houtcome => ?_
    split
    · exact ih _
    rename_i file openedPath metadata
    obtain ⟨rfl, hheld, hfile⟩ := houtcome _ rfl
    split
    · exact ih _
    rename_i hidentity
    have hsnapped : Snapped w identity (file, openedPath, metadata) :=
      ⟨hheld, not_not.1 hidentity ▸ hfile⟩
    split
    · split
      · exact .throw
      · exact .pure hsnapped
    · exact .pure hsnapped

variable (snapshot : NodeSnapshot)

theorem looks_openNodeSnapshot (h : w.held root []) (hflags : flags.create = false)
    (expected : Option NodeKind) :
    Looks w config (openNodeSnapshot root snapshot flags expected :
      Run F (Fd × PathBuf × Stat)) (Snapped w snapshot.identity) :=
  looks_openSnapshotFrom h _ hflags expected none _

theorem looks_openSnapshot (hflags : flags.create = false) (expected : Option NodeKind) :
    Looks (F := F) w config (openSnapshot snapshot flags expected)
      (Snapped w snapshot.identity) :=
  looks_openNodeSnapshot snapshot w.held_root hflags expected

theorem looks_pathStatFrom (identity : FileIdentity) (firstError : Option ServerError)
    (paths : List PathBuf) :
    Looks (F := F) w config (pathStatFrom identity firstError paths)
      fun _ => True := by
  induction paths generalizing firstError with
  | nil =>
    cases firstError with
    | none => exact .pure trivial
    | some => exact .throw
  | cons path _ ih =>
    rw [pathStatFrom]
    refine (looks_secureLstat w.held_root path).attempt.seq fun outcome => ?_
    split
    · exact ih _
    split
    · exact ih _
    · exact .pure trivial

theorem looks_pathStat : Looks (F := F) w config (pathStat snapshot) fun _ => True := by
  rw [pathStat]
  split
  · exact Looks.fstat.seq fun _ => .pure trivial
  · exact looks_pathStatFrom _ _ _

/-! ## Discovery -/

theorem looks_statEntries {path : PathBuf} (h : w.held directory path)
    (names : List (Except Errno Name)) (hnames : ∀ name, .ok name ∈ names → w.looked name) :
    Looks (F := F) w config (statEntries directory names) fun entries =>
      ∀ entry ∈ entries, .ok entry.1 ∈ names ∧
        (w.opened entry.1 → w.child directory entry.1 entry.2.identity) := by
  induction names with
  | nil => exact .pure nofun
  | cons name _ ih =>
    cases name with
    | error => exact .throw
    | ok name =>
      refine .bind (.statat h (hnames name List.mem_cons_self)) fun stat hstat =>
        .bind (ih fun other hother => hnames other (List.mem_cons_of_mem _ hother))
          fun entries hentries => .pure fun entry hentry => ?_
      rcases List.mem_cons.1 hentry with rfl | hentry
      · exact ⟨List.mem_cons_self, hstat⟩
      · exact ⟨List.mem_cons_of_mem _ (hentries entry hentry).1, (hentries entry hentry).2⟩

/-- What is found is one of the entries. -/
theorem examine_found_mem {requested : NodeId} {relative path : PathBuf} {visited : ℕ}
    {pending : List PathBuf} {entries : List (Name × Stat)} {identity : FileIdentity}
    (h : examine config requested relative visited pending entries = .found identity path) :
    ∃ entry ∈ entries, ¬(entry.1 = [46] ∨ entry.1 = [46, 46]) ∧ path = relative ++ [entry.1] ∧
      identity = entry.2.identity := by
  induction entries generalizing visited pending with
  | nil => cases h
  | cons entry rest ih =>
    have hrest : ∀ {visited pending}, examine config requested relative visited pending rest =
        .found identity path → ∃ entry' ∈ entry :: rest,
        ¬(entry'.1 = [46] ∨ entry'.1 = [46, 46]) ∧ path = relative ++ [entry'.1] ∧
          identity = entry'.2.identity := by
      intro visited pending hfound
      obtain ⟨entry', hmem, h'⟩ := ih hfound
      exact ⟨entry', List.mem_cons_of_mem _ hmem, h'⟩
    rw [examine] at h
    split at h
    · exact hrest h
    rename_i hdots
    split at h
    · cases h
    split at h
    · cases h
      exact ⟨entry, List.mem_cons_self, hdots, rfl, rfl⟩
    split at h
    · cases h
    · exact hrest h
    · exact hrest h

theorem looks_discoverFrom (requested : NodeId) (visited : ℕ) (pending : List PathBuf) :
    Looks w config (discoverFrom config i requested visited pending : Run F Unit)
      fun _ => True := by
  induction visited, pending using discoverFrom.induct config requested with
  | case1 =>
    rw [discoverFrom]
    exact .throw
  | case2 _ relative _ ih =>
    rw [discoverFrom]
    refine .bind (looks_openDirectory w.held_root relative) fun directory hdirectory =>
      .bind .readdir fun names hnames =>
        .bind (looks_statEntries hdirectory names fun name h => (hnames name h).2 rfl)
          fun entries hentries => ?_
    split
    · exact .throw
    · rename_i identity path hfound
      obtain ⟨entry, hmem, hdots, rfl, rfl⟩ := examine_found_mem hfound
      obtain ⟨hname, hchild⟩ := hentries entry hmem
      have hopened := (hnames _ hname).1 hdots
      refine (looks_remember (w.found_child hdirectory (hchild hopened))).seq fun remembered => ?_
      split
      · exact .pure trivial
      · exact .throw
    · rename_i visited' pending' hmore
      exact ih entries visited' pending' hmore

theorem looks_nodeSnapshot (node : NodeId) :
    Looks (F := F) w config (nodeSnapshot config i node) (w.known node) := by
  have hrest : Looks (F := F) w config (do
      let snapshot ← atomically (lookUp node)
      trackNode config i node
      pure snapshot) (w.known node) :=
    .bind .lookUp fun _ hsnapshot => (looks_trackNode node).seq fun _ => .pure hsnapshot
  refine Looks.read.seq fun registered => ?_
  split
  · exact hrest
  refine Looks.seq (B := fun _ => True) ?_ fun _ => hrest
  rw [discoverNode]
  split
  · exact .pure trivial
  · exact looks_discoverFrom _ _ _

end Walk

/-! ## Requests -/

section Requests

variable {snapshot : NodeSnapshot} {node : NodeId} {options : DirectoryViewOptions}
  {directory : Fd} {parent : PathBuf} {name : Name} {remaining : ℕ}

theorem looks_openHandle (handle : FileHandle) :
    Looks (F := F) w config (openHandle i handle) fun _ => True := by
  refine Looks.read.seq fun opened => ?_
  split
  · exact .pure trivial
  · exact .throw

theorem looks_insertHandle (opened : OpenFile) :
    Looks (F := F) w config (insertHandle i opened) fun _ => True :=
  (Looks.plain (.ask rfl (by exact nofun) (by nofun))).seq fun _ => .opens

theorem looks_openXattrFile : Looks w config (openXattrFile snapshot : Run F Fd) fun _ => True := by
  refine (looks_pathStat snapshot).seq fun stat => ?_
  split
  · exact .throw
  refine Looks.checked.seq fun kind => ?_
  split
  · exact .throw
  · exact (looks_openSnapshot snapshot (by split <;> rfl) _).seq fun _ => .pure trivial

theorem looks_backupTimeOrNone {m : Run F (Option ℕ)} (hm : Looks w config m fun _ => True) :
    Looks w config (backupTimeOrNone m) fun _ => True := by
  refine hm.attempt.seq fun outcome => ?_
  split <;> exact .pure trivial

theorem looks_readBackupTime : Looks (F := F) w config (readBackupTime snapshot) fun _ => True := by
  refine looks_openXattrFile.attempt.seq fun outcome => ?_
  split
  · exact .plain (plain_readFdBackupTime _)
  · exact .pure trivial
  · exact .throw

theorem looks_metadata : Looks (F := F) w config (metadata config i node) fun _ => True := by
  refine (looks_nodeSnapshot node).seq fun snapshot => (looks_pathStat snapshot).seq fun stat => ?_
  split
  · exact .throw
  · exact Looks.checked.seq fun _ => (looks_backupTimeOrNone looks_readBackupTime).seq fun _ =>
      .plain (plain_enrich _ _)

theorem looks_openParentNode (parent : NodeId) :
    Looks (F := F) w config (openParentNode config i parent) fun opened =>
      w.held opened.1 opened.2 ∧ ∃ identity, w.named parent identity ∧ w.file opened.1 identity :=
  .bind (looks_nodeSnapshot parent) fun snapshot hsnapshot =>
    .bind (looks_openSnapshot snapshot rfl _) fun _ hopened =>
      .pure ⟨hopened.held, _, w.named_known hsnapshot, hopened.file⟩

/-! ## Listings -/

/-- The names that are left when `.` and `..` are skipped. -/
theorem mem_of_entryNames {count : ℕ} {stream : List (Except Errno Name)} {names : List Name}
    (h : entryNames count stream = .ok names) (hname : name ∈ names) :
    .ok name ∈ stream ∧ ¬(name = [46] ∨ name = [46, 46]) := by
  induction stream generalizing count names with
  | nil =>
    cases h
    cases hname
  | cons first rest ih =>
    cases first with
    | error => cases h
    | ok =>
      rw [entryNames] at h
      split at h
      · exact ⟨List.mem_cons_of_mem _ (ih h hname).1, (ih h hname).2⟩
      rename_i hdots
      split at h
      · cases h
      cases hrest : entryNames (count + 1) rest with
      | error =>
        rw [hrest] at h
        cases h
      | ok =>
        rw [hrest] at h
        cases h
        rcases List.mem_cons.1 hname with rfl | hname
        · exact ⟨List.mem_cons_self, hdots⟩
        · exact ⟨List.mem_cons_of_mem _ (ih hrest hname).1, (ih hrest hname).2⟩

/-- What `prepareDirectoryScan` ends in. -/
structure Prepared (w : View) (identity : FileIdentity) (prepared : PreparedDirectoryScan) :
    Prop where
  held : w.held prepared.directory prepared.relative
  file : w.file prepared.directory identity
  names : ∀ name ∈ prepared.names, w.opened name

theorem looks_prepareDirectoryScan {root : Fd} (h : w.held root []) :
    Looks (F := F) w config (prepareDirectoryScan root snapshot)
      (Prepared w snapshot.identity) := by
  refine .bind (looks_openNodeSnapshot snapshot h rfl _) fun opened hopened =>
    .bind .readdir fun stream hstream =>
      .bind (B := fun names => ∀ name ∈ names, w.opened name)
        (.ofExcept fun names h name hname => ?_) fun names hnames =>
          .pure ⟨hopened.held, hopened.file, hnames⟩
  obtain ⟨hmem, hdots⟩ := mem_of_entryNames h hname
  exact (hstream name hmem).1 hdots

theorem looks_scanXattrs (h : w.held directory parent) (hname : w.opened name)
    {metadata : Metadata} :
    Looks w config (scanXattrs config directory name metadata options remaining :
      Run F (Metadata × Option XattrSnapshot × ℕ)) fun _ => True := by
  rw [scanXattrs]
  split
  · refine Looks.seq (Looks.attempt (Looks.openat h hname ?_ rfl)) fun opened => ?_
    · split <;> rfl
    split
    · exact .pure trivial
    refine (looks_backupTimeOrNone (.plain (plain_readFdBackupTime _))).seq fun backup =>
      (Looks.plain (plain_xattrSnapshotForOpenFile _ _ _ _)).attempt.seq fun snapshot =>
        Looks.fstat.seq fun after => ?_
    split
    · exact .throw
    · split <;> exact .pure trivial
  · exact .pure trivial

/-- An entry of a directory. -/
structure Scanned (w : View) (directory : Fd) (parent : PathBuf) (scanned : ScannedDirectoryEntry) :
    Prop where
  relative : scanned.relative = parent ++ [scanned.entry.name]
  child : w.child directory scanned.entry.name scanned.identity

theorem looks_scanDirectoryEntry (h : w.held directory parent) (hname : w.opened name) :
    Looks w config (scanDirectoryEntry config directory parent options name remaining :
      Run F (ScannedDirectoryEntry × ℕ)) fun found => Scanned w directory parent found.1 :=
  .bind (.statat h (w.looked_opened name hname)) fun _ hstat => Looks.checked.seq fun _ =>
    Looks.checked.seq fun _ => (looks_scanXattrs h hname).seq fun _ =>
      (Looks.plain (plain_enrich _ _)).seq fun _ => .pure ⟨rfl, hstat hname⟩

theorem looks_scanEntries (h : w.held directory parent) {names : List Name}
    (hnames : ∀ name ∈ names, w.opened name) :
    Looks w config (scanEntries config directory parent options names remaining :
      Run F (List ScannedDirectoryEntry × ℕ)) fun found =>
      ∀ scanned ∈ found.1, Scanned w directory parent scanned := by
  induction names generalizing remaining with
  | nil => exact .pure nofun
  | cons name _ ih =>
    exact .bind (looks_scanDirectoryEntry h (hnames name List.mem_cons_self)) fun _ hentry =>
      .bind (ih fun name h => hnames name (List.mem_cons_of_mem _ h)) fun _ hentries =>
        .pure (List.forall_mem_cons.2 ⟨hentry, hentries⟩)

/-- Entries are those of a directory, with the nodes of what it has under their names. -/
def Listed (w : View) (directory : Fd) (entries : List DirectoryEntry) : Prop :=
  ∀ entry ∈ entries, ∃ identity, w.child directory entry.name identity ∧ w.named entry.node identity

theorem looks_rememberEntries (h : w.held directory parent) {entries : List ScannedDirectoryEntry}
    (hentries : ∀ scanned ∈ entries, Scanned w directory parent scanned) :
    Looks (F := F) w config (rememberEntries config i entries)
      fun found => Listed w directory (found.map (·.entry)) := by
  induction entries with
  | nil => exact .pure nofun
  | cons scanned _ ih =>
    obtain ⟨hrelative, hchild⟩ := hentries scanned List.mem_cons_self
    exact .bind (looks_remember (hrelative ▸ w.found_child h hchild)) fun node hnode =>
      .bind (ih fun other h => hentries other (List.mem_cons_of_mem _ h)) fun _ hothers =>
        .pure (List.forall_mem_cons.2 ⟨⟨scanned.identity, hchild, hnode⟩, hothers⟩)

/-- The directory is that of the node, and the entries are its own. -/
def ListedFor (w : View) (node : NodeId) (entries : List DirectoryEntry) : Prop :=
  ∃ directory identity, w.named node identity ∧ w.file directory identity ∧
    Listed w directory entries

theorem looks_scanDirectory :
    Looks w config (scanDirectory config i node options remaining :
      Run F (DirectoryRevision × PreparedDirectoryScan × List ScannedDirectoryEntry × ℕ))
      fun found => ListedFor w node (found.2.2.1.map (·.entry)) := by
  refine .bind (looks_nodeSnapshot node) fun snapshot hsnapshot =>
    .bind (.dup w.held_root) fun root hroot =>
      .bind (looks_prepareDirectoryScan hroot) fun prepared hprepared =>
        .bind (looks_scanEntries hprepared.held hprepared.names) fun scanned hscanned =>
          Looks.fstat.seq fun after => ?_
  split
  · exact .throw
  refine .bind (looks_rememberEntries hprepared.held hscanned) fun entries hentries =>
    .pure ⟨_, _, w.named_known hsnapshot, hprepared.file, fun entry hmem => ?_⟩
  obtain ⟨found, hfound, rfl⟩ := List.mem_map.1 hmem
  exact hentries _ (List.mem_map.2 ⟨found, (List.mem_insertionSort _).1 hfound, rfl⟩)

theorem looks_listWithRevision :
    Looks w config (listWithRevision config i node :
      Run F (DirectoryRevision × List DirectoryEntry)) fun found => ListedFor w node found.2 :=
  looks_scanDirectory.bind fun _ hfound => .pure hfound

theorem looks_listEntries (h : w.held directory parent) (count : ℕ)
    (stream : List (Except Errno Name)) (hstream : Streams w.looked w.opened false stream) :
    Looks w config (listEntries config i directory parent count stream :
      Run F (List DirectoryEntry)) fun _ => True := by
  induction stream generalizing count with
  | nil => exact .pure trivial
  | cons first _ ih =>
    have hrest := fun count => ih count fun name h => hstream name (List.mem_cons_of_mem _ h)
    cases first with
    | error => exact .throw
    | ok name =>
      rw [listEntries]
      split
      · exact hrest count
      rename_i hdots
      have hopened := (hstream name List.mem_cons_self).1 hdots
      refine .bind (.statat h (w.looked_opened name hopened)) fun stat hstat =>
        Looks.checked.seq fun kind => ?_
      have hchild := hstat hopened
      split
      · exact .throw
      · exact (looks_remember (w.found_child h hchild)).seq fun _ => Looks.checked.seq fun _ =>
          (Looks.plain (plain_enrich _ _)).seq fun _ => (hrest _).seq fun _ => .pure trivial

theorem looks_listWithRevisionBlocking :
    Looks w config (listWithRevisionBlocking config i node :
      Run F (DirectoryRevision × List DirectoryEntry)) fun _ => True := by
  refine (looks_nodeSnapshot node).seq fun snapshot =>
    .bind (looks_openSnapshot snapshot rfl _) fun opened hopened =>
      .bind .readdir fun stream hstream =>
        (looks_listEntries hopened.held 0 stream hstream).seq fun _ =>
          Looks.fstat.seq fun after => ?_
  split
  · exact .throw
  · exact .pure trivial

theorem looks_parentMetadata (relative : PathBuf) (directory : Metadata) :
    Looks (F := F) w config (parentMetadata config i relative directory) fun _ => True := by
  rw [parentMetadata]
  split
  · exact .pure trivial
  exact .bind (.dup w.held_root) fun root hroot =>
    .bind (looks_secureLstat hroot _) fun _ hstat => Looks.checked.seq fun _ =>
      (Looks.plain (plain_enrich _ _)).seq fun _ => (looks_remember hstat).seq fun _ =>
        .pure trivial

theorem looks_directoryView :
    Looks (F := F) w config (directoryView config i node options) fun _ => True := by
  have hxattrs : ∀ directory remaining, Looks (F := F) w config
      (viewXattrs config directory node options remaining)
      fun _ => True := by
    intro directory remaining
    rw [viewXattrs]
    split
    · exact (Looks.plain (plain_xattrSnapshotForOpenFile _ _ _ _)).seq fun _ => .pure trivial
    · exact .pure trivial
  refine Looks.checked.seq fun _ => looks_scanDirectory.seq fun scanned =>
    (looks_backupTimeOrNone (.plain (plain_readFdBackupTime _))).seq fun _ =>
      (Looks.plain (plain_enrich _ _)).seq fun directory => (hxattrs _ _).seq fun _ =>
        (looks_parentMetadata _ directory).seq fun _ => Looks.fstat.seq fun final => ?_
  split
  · exact .throw
  · exact .pure trivial

end Requests

end QuickFS.Export
