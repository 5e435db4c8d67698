import QuickFS.Export.Policy
import QuickFS.Export.Tree

/-!
# Requests keep to policies

The requests of a session, one by one, over the functions that `QuickFS.Export.Policy` is about.  A
request that changes something begins with `require_writable`, and from there on `writes` is known;
the one exception is `open`, where the options are looked at instead.
-/

namespace QuickFS.Export

open Server Async
open Call (Asks)

variable {F : Frame} {α : Type} {p : Policy} {config : Config} {i : ℕ} {volume : Bytes}

/-! ## Permission and handles -/

theorem asks_requireWritable :
    Keeps p config i volume (requireWritable config i : Run F Unit) fun _ => p.writes := by
  have hread : Keeps p config i volume (Call.read (canWrite config i) : Run F Bool)
      fun allowed => allowed = true → p.writes :=
    Asks.read fun _ hs => hs.writable
  refine hread.bind fun allowed hallowed => ?_
  split
  · rename_i htrue
    exact Asks.pure (hallowed htrue)
  · exact asks_throw

variable {name : Name} {directory : Fd} {parent node newParent : NodeId} {mode : ℕ}

theorem isNormal_of_validateName (h : validateName name = .ok ()) : isNormal name = true := by
  rw [validateName] at h
  split at h
  · rename_i hfilename
    rw [isFilename, Bool.not_eq_true', Bool.or_eq_false_iff] at hfilename
    rw [isNormal, hfilename.1]
    rfl
  · cases h

theorem asks_validateName :
    Keeps p config i volume (Call.ofExcept (validateName name) : Run F Unit)
      fun _ => p.opened name :=
  Asks.ofExcept (fun _ hname => p.opened_normal name (isNormal_of_validateName hname))
    fun _ _ => trivial

/-! ## Opening and creating -/

variable {options : FileOpenOptions}

/-- Options that a session which cannot write may open with do not truncate. -/
theorem writes_of_truncate {writable : Bool}
    (h : validateOpenOptions options writable = .ok ()) (hwritable : writable = true → p.writes)
    (htruncate : options.truncate = true) : p.writes := by
  rw [validateOpenOptions, htruncate] at h
  cases haccess : options.access.canWrite with
  | false =>
    rw [haccess] at h
    cases h
  | true =>
    cases writable with
    | true => exact hwritable rfl
    | false =>
      rw [haccess] at h
      cases h

theorem asks_openNode :
    Keeps p config i volume (openNode config i node options :
      Run F (FileHandle × FileRevision × ℕ)) fun _ => True := by
  have hread : Keeps p config i volume (Call.read (canWrite config i) : Run F Bool)
      fun allowed => allowed = true → p.writes :=
    Asks.read fun _ hs => hs.writable
  refine hread.bind fun writable hwritable => ?_
  have hvalid : Keeps p config i volume
      (Call.ofExcept (validateOpenOptions options writable) : Run F Unit)
      fun _ => options.truncate = true → p.writes :=
    Asks.ofExcept (fun _ h => writes_of_truncate h hwritable) fun _ _ => trivial
  refine hvalid.bind fun _ htruncate => (Looks.loses loses_takeHandlePermit).asks.seq fun _ =>
    asks_releasing ?_ fun _ hs => hs.alike (alike_of_eq rfl rfl)
  exact (looks_nodeSnapshot node).asks.seq fun snapshot =>
    (looks_openSnapshot snapshot rfl _).asks.seq fun _ =>
    (asks_provided fun h => asks_call (by exact fun _ => htruncate h)).seq fun _ =>
      (asks_call (by exact nofun)).seq fun _ => (looks_insertHandle _).asks.seq fun _ =>
        Asks.pure trivial

theorem asks_rememberReserved {identity : FileIdentity} {path : PathBuf} :
    Keeps (F := F) p config i volume (rememberReserved config i identity path)
      fun _ => True :=
  (looks_rememberReserved (w := p.view) trivial).asks

/-- What is made for a node that has been reserved. -/
theorem asks_reserved {m : Run F α} {post : α → Prop} (hm : Keeps p config i volume m post) :
    Keeps p config i volume (releasing (dropNodePermits i) m) post :=
  asks_releasing hm fun _ hs => hs.alike alike_dropNodePermits

theorem asks_createFile :
    Keeps p config i volume (createFile config i parent name mode options :
      Run F (Metadata × FileHandle × FileRevision × ℕ)) fun _ => True := by
  refine asks_requireWritable.bind fun _ hwrites => asks_validateName.bind fun _ hname =>
    asks_ofExcept.seq fun _ => (Looks.loses loses_takeHandlePermit).asks.seq fun _ =>
      asks_releasing ?_ fun _ hs => hs.alike (alike_of_eq rfl rfl)
  have hmake : Keeps p config i volume (makeFile config i parent name mode options :
      Run F (Fd × PathBuf × Stat)) fun _ => True :=
    (looks_openParentNode parent).asks.bind fun _ hfound =>
      (asks_call (by exact ⟨hfound.1, hname, .inl rfl, fun _ => hwrites⟩)).seq fun _ =>
        (asks_call (by exact nofun)).seq fun _ => Asks.pure trivial
  exact looks_reserveNode.asks.seq fun _ => (asks_reserved hmake).seq fun _ =>
    asks_rememberReserved.seq fun _ => (looks_insertHandle _).asks.seq fun _ =>
      Asks.pure trivial

theorem asks_createDirectory :
    Keeps (F := F) p config i volume (createDirectory config i parent name mode)
      fun _ => True := by
  refine asks_requireWritable.bind fun _ hwrites => asks_validateName.bind fun _ hname => ?_
  have hmake : Keeps p config i volume (makeDirectory config i parent name mode :
      Run F (PathBuf × Stat)) fun _ => True :=
    (looks_openParentNode parent).asks.bind fun _ hfound =>
      (asks_call (by exact ⟨hfound.1, hname, hwrites⟩)).seq fun _ =>
        (looks_openRelative p.view.held_root _ rfl).asks.seq fun _ => Asks.pure trivial
  exact looks_reserveNode.asks.seq fun _ => (asks_reserved hmake).seq fun _ =>
    asks_rememberReserved.seq fun _ => Asks.pure trivial

theorem asks_makeNode {make : Fd → HostCall}
    {read : (directory : Fd) → (make directory).Answer → Except Errno Unit}
    (hmake : ∀ directory, p.held directory → p.Allows (make directory)) :
    Keeps (F := F) p config i volume (makeNode config i parent name make read)
      fun _ => True :=
  (looks_openParentNode parent).asks.bind fun _ hfound =>
    (asks_call (hmake _ hfound.1)).seq fun _ =>
      (looks_secureLstat p.view.held_root _).asks.seq fun _ => Asks.pure trivial

theorem asks_createSymlink {target : Bytes} :
    Keeps (F := F) p config i volume (createSymlink config i parent name target)
      fun _ => True :=
  asks_requireWritable.bind fun _ hwrites => asks_validateName.bind fun _ hname =>
  asks_ofExcept.seq fun _ => looks_reserveNode.asks.seq fun _ =>
  (asks_reserved (asks_makeNode (by
    exact fun _ hdirectory => ⟨hdirectory, hname, hwrites⟩))).seq fun _ =>
  asks_rememberReserved.seq fun _ => looks_metadata.asks

theorem asks_createSpecialNode {kind : SpecialNodeKind} {deviceMajor deviceMinor : ℕ} :
    Keeps (F := F) p config i volume
      (createSpecialNode config i parent name kind mode deviceMajor deviceMinor)
      fun _ => True :=
  asks_requireWritable.bind fun _ hwrites => asks_validateName.bind fun _ hname =>
  looks_reserveNode.asks.seq fun _ =>
  (asks_reserved (asks_makeNode (by
    exact fun _ hdirectory => ⟨hdirectory, hname, hwrites⟩))).seq fun _ =>
  asks_rememberReserved.seq fun _ => looks_metadata.asks

theorem asks_linkFrom (hwrites : p.writes) (hdirectory : p.held directory) (hname : p.opened name)
    {source : NodeSnapshot} {newPath : PathBuf} {paths : List PathBuf} :
    Keeps p config i volume (linkFrom config i node source directory newPath name paths :
      Run F Metadata) fun _ => True := by
  induction paths with
  | nil => exact asks_throw
  | cons path _ ih =>
    rw [linkFrom]
    split
    · exact asks_throw
    refine asks_attempt (looks_secureLstat p.view.held_root path).asks fun outcome => ?_
    split
    · exact ih
    split
    · exact ih
    refine asks_ofExcept.seq fun kind => ?_
    split
    · exact asks_throw
    exact (looks_openParent p.view.held_root path).asks.bind fun _ hparent =>
      (asks_call (by exact ⟨hparent.2.2, p.opened_normal _ hparent.2.1, hdirectory, hname,
        hwrites⟩)).seq fun _ =>
        (looks_remember (w := p.view) trivial).asks.seq fun _ => looks_metadata.asks

theorem asks_createHardLink {newName : Name} :
    Keeps (F := F) p config i volume (createHardLink config i node newParent newName)
      fun _ => True :=
  asks_requireWritable.bind fun _ hwrites => asks_validateName.bind fun _ hname =>
  (looks_nodeSnapshot node).asks.seq fun _ =>
  (looks_openParentNode newParent).asks.bind fun _ hfound =>
    asks_linkFrom hwrites hfound.1 hname

/-! ## Removing and renaming -/

theorem asks_removeNode {directory : Bool} :
    Keeps p config i volume (removeNode config i parent name directory : Run F Unit)
      fun _ => True := by
  refine asks_requireWritable.bind fun _ hwrites => asks_validateName.bind fun _ hname =>
    (looks_openParentNode parent).asks.bind fun ⟨parentFile, path⟩ hfound =>
      (asks_call (by exact ⟨hfound.1, p.looked_opened name hname⟩)).seq fun stat =>
        asks_ofExcept.seq fun kind => ?_
  split
  · exact asks_throw
  split
  · exact asks_throw
  exact (asks_call (by exact ⟨hfound.1, hname, hwrites⟩)).seq fun _ =>
    (asks_alike fun s => alike_of_eq rfl rfl).seq fun _ => asks_provided fun _ =>
      asks_attempt (plain_removeResourceFork hwrites _).asks fun _ => Asks.pure trivial

theorem asks_destinationIdentity (hdirectory : p.held directory) (hname : p.opened name) :
    Keeps (F := F) p config i volume (destinationIdentity directory name)
      fun _ => True := by
  refine (asks_host (by exact ⟨hdirectory, p.looked_opened name hname⟩)
    fun _ _ => trivial).seq fun answer => ?_
  split
  · exact Asks.pure trivial
  · exact Asks.pure trivial
  · exact asks_throw

theorem asks_renameNode {newName : Name} {mode : RenameMode} :
    Keeps p config i volume (renameNode config i parent name newParent newName mode : Run F Unit)
      fun _ => True :=
  asks_requireWritable.bind fun _ hwrites => asks_validateName.bind fun _ hname =>
  asks_validateName.bind fun _ hnewName =>
  (looks_nodeSnapshot parent).asks.seq fun oldSnapshot =>
  (looks_nodeSnapshot newParent).asks.seq fun newSnapshot =>
  (looks_openSnapshot oldSnapshot rfl _).asks.bind fun _ hold =>
  (looks_openSnapshot newSnapshot rfl _).asks.bind fun _ hnew =>
  (asks_call (by exact ⟨hold.held, p.looked_opened name hname⟩)).seq fun _ =>
  (asks_destinationIdentity hnew.held hnewName).seq fun _ =>
  (asks_call (by exact ⟨hold.held, hname, hnew.held, hnewName, hwrites⟩)).seq fun _ =>
    asks_alike fun s => by
      rw [updateRegistryAfterRename]
      split
      · exact .refl s
      · exact alike_of_eq rfl rfl

/-! ## Functions that leave the tree as it is

They look things up and work on files that they have opened, or on the entry that a path names, and
they change no link. -/

inductive Placid (p : Policy) (config : Config) (i : ℕ) : {α : Type} → Run F α → Prop
  | ofExcept {α : Type} (r : Except ServerError α) : Placid p config i (Call.ofExcept r)
  | bind {α β : Type} {m : Run F β} {f : β → Run F α} (hm : Placid p config i m)
      (hf : ∀ b, Placid p config i (f b)) : Placid p config i (m >>= f)
  | attempt {α : Type} {m : Run F α} (hm : Placid p config i m) :
      Placid p config i (Call.attempt m)
  | plain {α : Type} {m : Run F α} (h : Plain p.writes (fun _ => False) m) : Placid p config i m
  | call {α : Type} {q : HostCall} {read : q.Answer → Except Errno α} (hallowed : p.Allows q)
      (hlinks : q.relinks = false) (hfork : q.createsFork = false) :
      Placid p config i (system q read)
  | writable {α : Type} {f : Unit → Run F α} (hf : p.writes → Placid p config i (f ())) :
      Placid p config i (requireWritable config i >>= f)
  | parent {α : Type} (path : PathBuf) {f : Fd × Name → Run F α}
      (hf : ∀ found, p.held found.1 → p.opened found.2 → Placid p config i (f found)) :
      Placid p config i (openParent rootFile path >>= f)
  | looks {α : Type} {m : Run F α} (h : ∀ w, Looks w config m fun _ => True) : Placid p config i m
  | allowed : Placid p config i (requireWritable config i)

namespace Placid

theorem pure (a : α) : Placid p config i (Pure.pure a : Run F α) := ofExcept (.ok a)

theorem throw (e : ServerError) : Placid p config i (Call.throw e : Run F α) := ofExcept (.error e)

theorem lstat (path : PathBuf) : Placid p config i (secureLstat rootFile path : Run F Stat) :=
  looks fun w => (looks_secureLstat w.held_root path).any

theorem snapshot (node : NodeId) : Placid (F := F) p config i (nodeSnapshot config i node) :=
  looks fun _ => (looks_nodeSnapshot node).any

theorem file (snapshot : NodeSnapshot) {flags : OFlags} (hflags : flags.create = false)
    (expected : Option NodeKind) :
    Placid (F := F) p config i (openSnapshot snapshot flags expected) :=
  looks fun _ => (looks_openSnapshot snapshot hflags expected).any

theorem xattrs (snapshot : NodeSnapshot) : Placid p config i (openXattrFile snapshot : Run F Fd) :=
  looks fun _ => looks_openXattrFile

theorem metadata (node : NodeId) : Placid (F := F) p config i (Export.metadata config i node) :=
  looks fun _ => looks_metadata

theorem handle (handle : FileHandle) : Placid (F := F) p config i (openHandle i handle) :=
  looks fun _ => looks_openHandle handle

theorem provided {condition : Bool} {m : Run F Unit} (h : Placid p config i m) :
    Placid p config i (provided condition m) := by
  rw [Export.provided]
  split
  · exact h
  · exact pure ()

theorem optionally {β : Type} {value : Option β} {m : β → Run F Unit}
    (h : ∀ b, Placid p config i (m b)) : Placid p config i (optionally value m) := by
  cases value with
  | some b => exact h b
  | none => exact pure ()

/-- They keep to the policy. -/
theorem asks {m : Run F α} (h : Placid p config i m) : Keeps p config i volume m fun _ => True := by
  induction h with
  | ofExcept => exact asks_ofExcept
  | bind _ _ hm hf => exact hm.seq hf
  | attempt _ hm => exact hm.attempt.any
  | plain h => exact h.keeps id
  | call hallowed => exact asks_call hallowed
  | writable _ hf => exact asks_requireWritable.bind fun _ hwrites => hf hwrites
  | parent path _ hf =>
    exact (looks_openParent p.view.held_root path).asks.bind fun found h =>
      hf found h.2.2 (p.opened_normal _ h.2.1)
  | looks h => exact (h p.view).asks
  | allowed => exact asks_requireWritable.any

end Placid

/-! ### Links and attributes -/

theorem placid_readLinkFrom {snapshot : NodeSnapshot} {paths : List PathBuf} :
    Placid (F := F) p config i (readLinkFrom snapshot paths) := by
  induction paths with
  | nil => exact .throw _
  | cons path _ ih =>
    refine .bind (.attempt (.lstat path)) fun outcome => ?_
    split
    · exact ih
    split
    · exact ih
    refine .bind (.ofExcept _) fun kind => ?_
    split
    · exact ih
    · exact .parent path fun _ hheld hopened => .bind (.call ⟨hheld, hopened⟩ rfl rfl) fun _ =>
        .bind (.ofExcept _) fun _ => .pure _

variable (node : NodeId)

theorem placid_readLink : Placid (F := F) p config i (readLink config i node) :=
  .bind (.snapshot node) fun _ => placid_readLinkFrom

theorem placid_getXattr (name : Name) (offset length : ℕ) :
    Placid (F := F) p config i (getXattr config i node name offset length) := by
  refine .bind (.ofExcept _) fun _ => .bind (.ofExcept _) fun _ =>
    .bind (.snapshot node) fun snapshot => ?_
  rw [readXattr]
  split
  · exact .plain (plain_readResourceForkRange node _ _)
  · exact .bind (.xattrs snapshot) fun _ => .bind (.ofExcept _) fun _ =>
      .bind (.plain (plain_readFdXattr _ _ _)) fun _ => .pure _

theorem placid_listXattrs : Placid (F := F) p config i (listXattrs config i node) :=
  .bind (.snapshot node) fun snapshot => .bind (.xattrs snapshot) fun _ =>
    .plain (plain_listXattrNames _ node)

theorem placid_setHostXattr (hwrites : p.writes) (file : Fd) (hostName : Name) (value : Bytes)
    (mode : XattrSetMode) (position : ℕ) :
    Placid p config i (setHostXattr file hostName value mode position : Run F Unit) := by
  refine .bind (.plain (plain_optionalXattr file hostName)) fun existing =>
    .bind (.ofExcept _) fun _ => ?_
  split
  · exact .call (fun _ => hwrites) rfl rfl
  split
  · exact .throw _
  · exact .call (fun _ => hwrites) rfl rfl

theorem placid_removeXattr (name : Name) :
    Placid p config i (removeXattr config i node name : Run F Unit) := by
  refine .writable fun hwrites => .bind (.ofExcept _) fun _ =>
    .bind (.snapshot node) fun snapshot => ?_
  split
  · exact .plain (plain_removeResourceFork hwrites node)
  · exact .bind (.xattrs snapshot) fun _ => .bind (.ofExcept _) fun _ =>
      .call (fun _ => hwrites) rfl rfl

theorem placid_backupAfter (file : Fd) (requested : Option ℕ) :
    Placid (F := F) p config i (backupAfter file requested) := by
  cases requested with
  | some => exact .pure _
  | none =>
    refine .bind (.attempt (.plain (plain_readFdBackupTime file))) fun outcome => ?_
    split <;> exact .pure _

section Changes

variable (hwrites : p.writes)

include hwrites

theorem placid_changeAt (path : PathBuf) (changes : AttributeChanges) :
    Placid p config i (changeAt path changes : Run F Unit) :=
  .parent path fun _ hheld hopened =>
    .bind (.optionally fun _ => .call ⟨hheld, hopened, hwrites⟩ rfl rfl) fun _ =>
      .provided (.call ⟨hheld, hopened, hwrites⟩ rfl rfl)

theorem placid_setPathAttributes (identity : FileIdentity) (changes : AttributeChanges)
    (paths : List PathBuf) :
    Placid p config i (setPathAttributes identity changes paths : Run F Unit) := by
  induction paths with
  | nil => exact .throw _
  | cons path _ ih =>
    refine .bind (.attempt (.lstat path)) fun outcome => ?_
    split
    · exact ih
    split
    · exact ih
    split
    · refine .bind (.ofExcept _) fun kind => ?_
      split
      · exact .throw _
      · exact placid_changeAt hwrites path changes
    · exact placid_changeAt hwrites path changes

theorem placid_changeFile (file : Fd) (changes : AttributeChanges) :
    Placid p config i (changeFile file changes : Run F Stat) :=
  .bind (.plain (plain_applyFileChanges hwrites file changes)) fun _ =>
    .bind (.plain (plain_writeBackupTime hwrites file _)) fun _ => .pure _

theorem placid_setHandleAttributes (handle : FileHandle) (changes : AttributeChanges) :
    Placid (F := F) p config i (setHandleAttributes config i node handle changes) := by
  refine .bind (.handle handle) fun opened => ?_
  split
  · exact .throw _
  split
  · exact .throw _
  · exact .bind (placid_changeFile hwrites _ changes) fun _ =>
      .bind (placid_backupAfter _ _) fun _ => .pure _

theorem placid_setNodeAttributes (changes : AttributeChanges) :
    Placid (F := F) p config i (setNodeAttributes config i node changes) := by
  refine .bind (.snapshot node) fun snapshot =>
    .bind (.attempt (.file snapshot rfl none)) fun opened => ?_
  split
  · split
    · exact .throw _
    · exact .bind (placid_changeFile hwrites _ changes) fun _ => .pure _
  split
  · exact .throw _
  · exact .bind (placid_setPathAttributes hwrites _ changes _) fun _ => .metadata node

end Changes

variable (node : NodeId) (handle : FileHandle) {parent : NodeId} (offset length : ℕ)
  {left right : NodeId}

theorem placid_setAttributes (handle : Option FileHandle) (changes : AttributeChanges) :
    Placid (F := F) p config i (setAttributes config i node handle changes) := by
  unfold setAttributes
  split
  · exact .metadata node
  refine .writable fun hwrites => ?_
  split
  · exact placid_setHandleAttributes node hwrites _ changes
  · exact placid_setNodeAttributes node hwrites changes

/-! ### Contents -/

theorem placid_readRequest : Placid (F := F) p config i (read config i handle offset length) := by
  refine .bind (.ofExcept _) fun _ => .bind (.handle handle) fun opened => ?_
  split
  · exact .plain (plain_readConsistent _ _ _)
  · exact .throw _

theorem placid_changed {file : Fd} : Placid (F := F) p config i (changed config file) :=
  .bind (.call nofun rfl rfl) fun _ => .pure _

theorem placid_writeOwned (data : Bytes) :
    Placid (F := F) p config i (writeOwned config i handle offset data) := by
  refine .writable fun hwrites => .bind (.ofExcept _) fun _ =>
    .bind (.handle handle) fun opened => ?_
  split
  · exact .bind (.plain (plain_writeAllAt hwrites _ _ _ _)) fun _ =>
      .bind placid_changed fun _ => .pure _
  · exact .throw _

theorem placid_allocate : Placid (F := F) p config i (allocate config i handle offset length) := by
  refine .writable fun hwrites => ?_
  split
  · exact .throw _
  refine .bind (.handle handle) fun opened => ?_
  split
  · exact .bind (.call (fun _ => hwrites) rfl rfl) fun _ => placid_changed
  · exact .throw _

theorem placid_copyFileRange (input : FileHandle) (inputOffset : ℕ) (output : FileHandle)
    (outputOffset : ℕ) :
    Placid p config i (copyFileRange config i input inputOffset output outputOffset length :
      Run F (ℕ × FileRevision × ℕ)) := by
  refine .writable fun hwrites => ?_
  split
  · exact .throw _
  refine .bind (.handle input) fun _ => .bind (.handle output) fun _ => ?_
  split
  · exact .bind (.plain (plain_copyRangeServer hwrites _ _ _ _ _)) fun _ =>
      .bind placid_changed fun _ => .pure _
  · exact .throw _

theorem placid_seekFile (whence : SeekWhence) :
    Placid p config i (seekFile i handle offset whence : Run F ℕ) := by
  refine .bind (.handle handle) fun opened => ?_
  split
  · exact .call nofun rfl rfl
  · exact .throw _

theorem placid_safeIoctl (operation : SafeIoctl) :
    Placid p config i (safeIoctl i handle operation : Run F ℕ) := by
  refine .bind (.handle handle) fun opened => ?_
  cases operation
  dsimp only
  split
  · exact .bind (.call nofun rfl rfl) fun _ => .pure _
  · exact .throw _

theorem placid_mapBlock (blockSize block : ℕ) :
    Placid p config i (mapBlock config i node blockSize block : Run F ℕ) := by
  rw [mapBlock]
  split
  · exact .throw _
  split
  · exact .throw _
  refine .bind (.snapshot node) fun snapshot => .bind (.file snapshot rfl _) fun _ =>
    .bind (.call nofun rfl rfl) fun data => ?_
  split
  · exact .pure _
  · exact .throw _

theorem placid_checkLock (requested : FileLock) (allowUnlock : Bool) :
    Placid p config i (checkLock config i handle requested allowUnlock : Run F Unit) := by
  rw [checkLock]
  split
  · exact .throw _
  refine .bind (.provided .allowed) fun _ => .bind (.handle handle) fun opened => ?_
  split
  · split
    · exact .pure _
    · exact .throw _
  · split
    · exact .pure _
    · exact .throw _
  · exact .pure _

/-! ## Attributes of files -/

theorem asks_setXattr {node : NodeId} {value : Bytes} {mode : XattrSetMode} {position : ℕ} :
    Keeps p config i volume (setXattr config i node name value mode position : Run F Unit)
      fun _ => True := by
  refine asks_requireWritable.bind fun _ hwrites => asks_ofExcept.seq fun _ => ?_
  split
  · exact asks_throw
  refine (looks_nodeSnapshot node).asks.seq fun snapshot => ?_
  split
  · exact (plain_writeResourceFork hwrites trivial _ _ _).asks
  · exact looks_openXattrFile.asks.seq fun _ => asks_ofExcept.seq fun _ =>
      (placid_setHostXattr hwrites _ _ _ _ _).asks

/-! ## Exchanging -/

theorem hexDigit_ne_slash : ∀ value < 16, hexDigit value ≠ 47 := by decide

theorem isNormal_temporaryName (uuid : Uuid) : isNormal (temporaryName uuid) = true := by
  have hdigits : ∀ start count, (47 : UInt8) ∉ uuidDigits uuid start count := by
    intro start count hmem
    obtain ⟨k, _, hk⟩ := List.mem_map.1 hmem
    exact hexDigit_ne_slash _ (Nat.mod_lt _ (by decide)) hk
  have hslash : (47 : UInt8) ∉ temporaryName uuid := by
    simp [temporaryName, hdigits]
  rw [isNormal, Bool.not_eq_true', List.contains_eq_mem, decide_eq_false hslash]
  rfl

theorem asks_findEntry :
    Keeps (F := F) p config i volume (findEntry config i parent name)
      fun _ => True := by
  refine looks_listWithRevision.asks.seq fun ⟨_, entries⟩ => ?_
  dsimp only
  split
  · exact Asks.pure trivial
  · exact asks_throw

theorem asks_exchangeFiles (hwrites : p.writes) {root : Fd} (hroot : p.held root)
    (hname : p.opened name) {leftFile rightFile temporary : Fd} :
    Keeps p config i volume
      (exchangeFiles config leftFile rightFile temporary root name left right : Run F Unit)
      fun _ => True := by
  refine asks_attempt ((plain_exchangeFileContents hwrites _ _ _).asks.seq fun _ =>
    asks_provided fun _ => (plain_exchangeResourceForks hwrites trivial trivial).asks) fun result =>
      asks_attempt (asks_call (by exact ⟨hroot, hname, hwrites⟩)) fun remove => ?_
  split
  · exact asks_throw
  · exact asks_ofExcept

theorem asks_exchangeNodes (hwrites : p.writes) :
    Keeps p config i volume (exchangeNodes config i left right : Run F Unit) fun _ => True := by
  refine (looks_nodeSnapshot left).asks.seq fun leftSnapshot =>
    (looks_nodeSnapshot right).asks.seq fun rightSnapshot =>
      (looks_openSnapshot leftSnapshot rfl _).asks.seq fun _ =>
        (looks_openSnapshot rightSnapshot rfl _).asks.seq fun _ =>
          (asks_host (by exact nofun) fun _ _ => trivial).seq fun uuid => ?_
  have hname := p.opened_normal _ (isNormal_temporaryName uuid)
  exact (asks_call (by exact ⟨p.held_root, hname, .inr ⟨rfl, rfl⟩, fun _ => hwrites⟩)).seq fun _ =>
    (Looks.dup p.view.held_root).asks.bind fun _ hroot =>
      asks_exchangeFiles hwrites hroot hname

theorem asks_exchangeData {newName : Name} {options : ℕ} :
    Keeps p config i volume (exchangeData config i parent name newParent newName options :
      Run F Unit) fun _ => True := by
  refine asks_requireWritable.bind fun _ hwrites => asks_ofExcept.seq fun _ =>
    asks_ofExcept.seq fun _ => ?_
  split
  · exact asks_throw
  refine asks_findEntry.seq fun left =>
    asks_findEntry.seq fun right => ?_
  split
  · exact asks_throw
  split
  · exact Asks.pure trivial
  · exact asks_exchangeNodes hwrites

/-! ## The export as a whole -/

theorem asks_setVolumeName :
    Keeps p config i volume (setVolumeName config i name : Run F Unit) fun _ => True := by
  refine asks_requireWritable.bind fun _ hwrites => asks_ofExcept.seq fun _ =>
    (asks_provided fun _ => (asks_host (by exact fun _ => hwrites) fun _ _ => trivial).seq fun _ =>
      asks_ofExcept).seq fun _ => Asks.modify fun s hs => ?_
  exact ⟨hs.writable, .inl hwrites⟩

theorem asks_setWriteAuthorized {authorized : Bool}
    (h : (config.writable && authorized) = true → p.writes) :
    Keeps p config i volume (Call.modify (setWriteAuthorized i authorized) : Run F Unit)
      fun _ => True := by
  refine Asks.modify fun s hs => ⟨fun hwrite => ?_, hs.volume⟩
  by_cases hi : i < s.sessions.length
  · refine h ?_
    rw [canWrite, State.session, setWriteAuthorized, State.setSession,
      List.getD_eq_getElem _ _ (by rw [List.length_set]; exact hi), List.getElem_set_self] at hwrite
    exact hwrite
  · rw [canWrite, State.session, setWriteAuthorized, State.setSession,
      List.set_eq_of_length_le (Nat.le_of_not_lt hi)] at hwrite
    exact hs.writable hwrite

/-- **Every request keeps to every policy** that says of a grant what it says of writing. -/
theorem asks_request (request : Request)
    (hgrant : ∀ authorized, request = .setWriteAuthorized authorized →
      (config.writable && authorized) = true → p.writes) :
    Keeps (F := F) p config i volume (request.run config i) fun _ => True := by
  have hdone : ∀ {β : Type} {m : Run F β} {f : β → Reply}, Keeps p config i volume m (fun _ => True) →
      Keeps (F := F) p config i volume (m >>= fun b => pure (f b)) fun _ => True :=
    fun hm => hm.seq fun _ => Asks.pure trivial
  cases request with
  | setWriteAuthorized => exact hdone (asks_setWriteAuthorized (hgrant _ rfl))
  | statFilesystem => exact hdone (asks_call (by exact nofun))
  | setVolumeName => exact hdone asks_setVolumeName
  | forgetNodes requested => exact hdone (looks_forgetNodes requested).asks
  | metadata => exact hdone looks_metadata.asks
  | listWithRevision => exact hdone looks_listWithRevision.any.asks
  | listWithRevisionBlocking => exact hdone looks_listWithRevisionBlocking.asks
  | directoryView => exact hdone looks_directoryView.asks
  | openNode => exact hdone asks_openNode
  | createFile => exact hdone asks_createFile
  | createDirectory => exact hdone asks_createDirectory
  | createSymlink => exact hdone asks_createSymlink
  | createSpecialNode =>
    exact hdone asks_createSpecialNode
  | createHardLink => exact hdone asks_createHardLink
  | removeNode => exact hdone asks_removeNode
  | renameNode => exact hdone asks_renameNode
  | readLink node => exact hdone (placid_readLink node).asks
  | getXattr node name offset length => exact hdone (placid_getXattr node name offset length).asks
  | listXattrs node => exact hdone (placid_listXattrs node).asks
  | setXattr => exact hdone asks_setXattr
  | removeXattr node name => exact hdone (placid_removeXattr node name).asks
  | setAttributes node handle changes => exact hdone (placid_setAttributes node handle changes).asks
  | read handle offset length => exact hdone (placid_readRequest handle offset length).asks
  | writeOwned handle offset data => exact hdone (placid_writeOwned handle offset data).asks
  | flush handle => exact hdone ((looks_openHandle handle).asks.seq fun _ => Asks.pure trivial)
  | sync handle =>
    exact hdone ((looks_openHandle handle).asks.seq fun _ => asks_call (by exact nofun))
  | syncDirectory node =>
    exact hdone ((looks_openParentNode node).asks.seq fun _ => asks_call (by exact nofun))
  | allocate handle offset length => exact hdone (placid_allocate handle offset length).asks
  | copyFileRange input inputOffset output outputOffset length =>
    exact hdone (placid_copyFileRange length input inputOffset output outputOffset).asks
  | seekFile handle offset whence => exact hdone (placid_seekFile handle offset whence).asks
  | safeIoctl handle operation => exact hdone (placid_safeIoctl handle operation).asks
  | mapBlock node blockSize block => exact hdone (placid_mapBlock node blockSize block).asks
  | exchangeData => exact hdone asks_exchangeData
  | checkLock handle requested allowUnlock =>
    exact hdone (placid_checkLock handle requested allowUnlock).asks
  | close => exact hdone (Looks.loses fun s => loses_removeHandle i s _).asks

end QuickFS.Export
