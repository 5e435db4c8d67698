import QuickFS.Adapter.Calls
import QuickFS.Lib.Sequential
import Mathlib.Data.List.Nodup

/-!
# Listing a directory

`readdir_async` asks the remote for a view of a directory and compares it with what the adapter knows:
the metadata of the directory are to be those of its node, and the metadata of the parent those of the
node of the parent.  But the parent that the adapter knows is the one in which it has met the
directory first.  It is corrected when the adapter itself renames the directory, and not when somebody
else does; and it is the number of an inode, which may have been forgotten.

A view that is in order (`WellFormed`) makes a listing exactly if the parent that was recorded is the
parent there is (`readdir_lists_iff`).  Otherwise the directory cannot be listed any more, however
often it is tried (`moved_directory_is_unlistable`).

A listing that was made is read in pieces, as many rows at a time as the kernel has room for
(`listing_read_through`).
-/

namespace QuickFS.Adapter

open Async Function
open Call (Wp Succeeds)

/-! ## Views -/

/-- The number has this node. -/
def InodeTable.Holds (table : InodeTable) (inode : ℕ) (node : NodeId) : Prop :=
  (table.byInode inode).map InodeRecord.node = some node

/-- The names of the attributes are different, and values are those of some of them. -/
structure XattrSnapshot.InOrder (snapshot : XattrSnapshot) : Prop where
  names : snapshot.names.Nodup
  values : (snapshot.inlineValues.map InlineXattr.name).Nodup
  named : ∀ value ∈ snapshot.inlineValues, value.name ∈ snapshot.names

/-- A view of `node`, whose parent is `parent`, that is in order: names are valid, and do not differ
in their case alone. -/
structure WellFormed (config : Config) (node parent : NodeId) (view : DirectoryView) : Prop where
  directory : view.directory.node = node
  directory_kind : view.directory.kind = .directory
  parent : view.parent.node = parent
  parent_kind : view.parent.kind = .directory
  names : ∀ entry ∈ view.entries, validName entry.entry.name = true
  folding : (view.entries.filterMap fun entry => config.normalizedCaseName entry.entry.name).Nodup
  metadata : ∀ entry ∈ view.entries, entry.entry.metadata.node = entry.entry.node
  kinds : ∀ entry ∈ view.entries, entry.entry.kind = entry.entry.metadata.kind
  xattrs : ∀ snapshot, view.xattrs = some snapshot → XattrSnapshot.InOrder snapshot
  entry_xattrs : ∀ entry ∈ view.entries, ∀ snapshot, entry.xattrs = some snapshot →
    XattrSnapshot.InOrder snapshot

/-- The listing says what the view says. -/
def Reports (listing : DirectoryListing) (view : DirectoryView) : Prop :=
  listing.revision = view.revision ∧
    (listing.entries.map fun entry => (entry.name, entry.kind, entry.metadata)) =
      view.entries.map fun entry => (entry.entry.name, entry.entry.kind, entry.entry.metadata)

/-! ## Checks -/

/-- If no two names are folded to the same one, names have to be valid, and nothing else. -/
theorem validateEntryNames_eq {config : Config} {entries : List DirectoryEntry} {names : List Name}
    (hfolding : (entries.filterMap fun entry => config.normalizedCaseName entry.name).Nodup)
    (hnew : ∀ name ∈ entries.filterMap fun entry => config.normalizedCaseName entry.name,
      name ∉ names) :
    validateEntryNames config entries names =
      if ∀ entry ∈ entries, validName entry.name = true then .ok () else .error .invalidRemoteName := by
  induction entries generalizing names with
  | nil => rfl
  | cons entry _ ih =>
    rw [validateEntryNames]
    simp only [List.forall_mem_cons]
    by_cases hvalid : validName entry.name = true
    · rw [if_pos hvalid]
      simp only [hvalid, true_and]
      rw [List.filterMap_cons] at hfolding hnew
      split
      · rename_i name hname
        rw [hname] at hfolding hnew
        obtain ⟨hhead, htail⟩ := List.nodup_cons.1 hfolding
        rw [if_neg (by simpa using hnew name List.mem_cons_self)]
        refine ih htail fun other hother => ?_
        rw [List.mem_cons, not_or]
        exact ⟨fun heq => hhead (heq ▸ hother), hnew other (List.mem_cons_of_mem _ hother)⟩
      · rename_i hname
        rw [hname] at hfolding hnew
        exact ih hfolding hnew
    · rw [if_neg hvalid, if_neg fun h => hvalid h.1]

theorem inlineValues_isSome {names : List Name} {inline : List InlineXattr}
    {values : Entries Name (List UInt8)} (hnodup : (inline.map InlineXattr.name).Nodup)
    (hnamed : ∀ value ∈ inline, value.name ∈ names)
    (hnew : ∀ value ∈ inline, Entries.find values value.name = none) :
    ∃ result, State.inlineValues names inline values = some result := by
  induction inline generalizing values with
  | nil => exact ⟨values, rfl⟩
  | cons value _ ih =>
    obtain ⟨hhead, htail⟩ := List.nodup_cons.1 hnodup
    have hcondition : (names.contains value.name &&
        (Entries.find values value.name).isNone) = true := by
      rw [hnew value List.mem_cons_self, Option.isNone_none, Bool.and_true]
      exact List.contains_iff_mem.2 (hnamed value List.mem_cons_self)
    rw [State.inlineValues, if_pos hcondition]
    refine ih htail (fun v hv => hnamed v (List.mem_cons_of_mem _ hv)) fun v hv => ?_
    have hne : v.name ≠ value.name := fun heq => hhead (List.mem_map.2 ⟨v, hv, heq⟩)
    rw [Entries.find_insert_of_ne hne]
    exact hnew v (List.mem_cons_of_mem _ hv)

theorem xattrsOfSnapshot_ok {snapshot : XattrSnapshot} (h : XattrSnapshot.InOrder snapshot)
    {s : State} {revision : FileRevision} :
    ∃ cached, s.xattrsOfSnapshot revision snapshot = .ok cached := by
  obtain ⟨values, hvalues⟩ : ∃ values, State.inlineValues snapshot.names snapshot.inlineValues [] =
      some values := inlineValues_isSome h.values h.named fun _ _ => rfl
  rw [State.xattrsOfSnapshot, if_pos h.names, hvalues]
  exact ⟨_, rfl⟩

/-! ## Steps -/

section Steps

variable {O : Outside} {E : Type} {answer : E → (q : Question) → E × q.Answer}
  {c : Point (sig O) E} {config : Config}

/-- The attributes that come with a view are remembered. -/
theorem succeeds_rememberViewXattrs {node : NodeId} {revision : FileRevision}
    {xattrs : Option XattrSnapshot}
    (h : ∀ snapshot, xattrs = some snapshot → XattrSnapshot.InOrder snapshot) :
    Succeeds answer (rememberViewXattrs node revision xattrs : M O Unit) c fun _ c' =>
      c'.shared.inodes = c.shared.inodes ∧ c'.shared.nextInode = c.shared.nextInode := by
  cases xattrs with
  | none => exact Succeeds.pure ⟨rfl, rfl⟩
  | some snapshot =>
    obtain ⟨cached, hcached⟩ := xattrsOfSnapshot_ok (h snapshot rfl)
    refine Wp.bind (Wp.access rfl (Wp.ofExcept ?_))
    dsimp only
    rw [hcached]
    exact ⟨(), rfl, rfl, rfl⟩

theorem succeeds_rememberViewEntries {entries : List DirectoryViewEntry}
    (h : ∀ entry ∈ entries, ∀ snapshot, entry.xattrs = some snapshot →
      XattrSnapshot.InOrder snapshot) :
    Succeeds answer (rememberViewEntries entries : M O Unit) c fun _ c' =>
      c'.shared.inodes = c.shared.inodes ∧ c'.shared.nextInode = c.shared.nextInode := by
  induction entries generalizing c with
  | nil => exact Succeeds.pure ⟨rfl, rfl⟩
  | cons entry _ ih =>
    refine (succeeds_rememberViewXattrs (h entry List.mem_cons_self)).bind fun _ c1 h1 => ?_
    refine (ih fun e he => h e (List.mem_cons_of_mem _ he)).imp fun _ c2 h2 => ?_
    exact ⟨h2.1.trans h1.1, h2.2.trans h1.2⟩

/-- As long as there are numbers left, a node gets one. -/
theorem rememberEntry_ok {s : State} (h : s.nextInode < u64Max) (node : NodeId) (parentInode : ℕ)
    (name : Name) : ∃ inode, (s.rememberEntry node parentInode name).1 = .ok inode ∧
      (s.rememberEntry node parentInode name).2.nextInode ≤ s.nextInode + 1 := by
  have hnext : checkedAdd s.nextInode 1 = some (s.nextInode + 1) := if_pos h
  rw [State.rememberEntry]
  split
  · rename_i inode _
    exact ⟨inode, rfl, Nat.le_succ _⟩
  · rw [hnext]
    exact ⟨s.nextInode, rfl, Nat.le_refl _⟩

variable {inode : ℕ} {record : InodeRecord} {view : DirectoryView}

theorem succeeds_rememberEntries {entries : List DirectoryEntry}
    (hnames : ∀ entry ∈ entries, validName entry.name = true)
    (hmetadata : ∀ entry ∈ entries, entry.metadata.node = entry.node)
    (hkinds : ∀ entry ∈ entries, entry.kind = entry.metadata.kind)
    (hnumbers : c.shared.nextInode + entries.length ≤ u64Max) :
    Succeeds answer (rememberEntries inode entries : M O (List ListedEntry)) c fun listed _ =>
      (listed.map fun entry => (entry.name, entry.kind, entry.metadata)) =
        entries.map fun entry => (entry.name, entry.kind, entry.metadata) := by
  induction entries generalizing c with
  | nil => exact Succeeds.pure rfl
  | cons entry _ ih =>
    rw [List.length_cons] at hnumbers
    have hmatches : validateMetadata entry.node entry.metadata = .ok () :=
      if_pos (hmetadata entry List.mem_cons_self)
    obtain ⟨entryInode, hentry, hnext⟩ := rememberEntry_ok
      (s := c.shared.rememberMetadata entry.metadata) (show c.shared.nextInode < u64Max by omega)
      entry.node inode entry.name
    rw [rememberEntries, ensure, if_pos (hnames entry List.mem_cons_self), hmatches, ensure,
      if_pos (decide_eq_true (hkinds entry List.mem_cons_self))]
    refine Wp.bind (Wp.pure (Wp.bind (Wp.ofExcept (Wp.bind (Wp.pure (Wp.bind_modify ?_))))))
    refine Wp.bind (Wp.bind (Wp.access rfl (Wp.ofExcept ?_)))
    dsimp only
    rw [hentry]
    refine (ih (fun e he => hnames e (List.mem_cons_of_mem _ he))
      (fun e he => hmetadata e (List.mem_cons_of_mem _ he))
      (fun e he => hkinds e (List.mem_cons_of_mem _ he)) ?_).bind fun listed c' hlisted => ?_
    · have : (c.shared.rememberMetadata entry.metadata).nextInode = c.shared.nextInode := rfl
      dsimp only
      omega
    · exact Wp.pure ⟨_, rfl, congrArg _ hlisted⟩

/-- The parent that was recorded is the one there is: the view makes a listing. -/
theorem succeeds_rememberDirectoryView {parent : NodeId}
    (hwell : WellFormed config record.node parent view)
    (hnumbers : c.shared.nextInode + view.entries.length ≤ u64Max)
    (hparent : c.shared.inodes.Holds record.parentInode parent) :
    Succeeds answer (rememberDirectoryView config inode record view : M O DirectoryListing) c
      fun listing _ => Reports listing view := by
  obtain ⟨found, hfound, rfl⟩ := Option.map_eq_some_iff.1 hparent
  have hdirectory : validateMetadata record.node view.directory = .ok () := if_pos hwell.directory
  have hparents : validateMetadata found.node view.parent = .ok () := if_pos hwell.parent
  have hcase : validateCaseInsensitiveDirectory config
      (view.entries.map DirectoryViewEntry.entry) = .ok () := by
    have hfolding : ((view.entries.map DirectoryViewEntry.entry).filterMap
        fun entry => config.normalizedCaseName entry.name).Nodup := by
      rw [List.filterMap_map]
      exact hwell.folding
    exact (validateEntryNames_eq hfolding fun _ _ => List.not_mem_nil).trans
      (if_pos (List.forall_mem_map.2 hwell.names))
  rw [rememberDirectoryView, hdirectory, ensure, if_pos (decide_eq_true hwell.directory_kind)]
  refine Wp.bind (Wp.ofExcept (Wp.bind (Wp.pure (Wp.bind (Wp.bind (Wp.read ?_))))))
  rw [hfound]
  refine Wp.pure ?_
  dsimp only
  rw [hparents, ensure, if_pos (decide_eq_true hwell.parent_kind)]
  refine Wp.bind (Wp.ofExcept (Wp.bind (Wp.pure (Wp.bind_modify (Wp.bind_modify ?_)))))
  refine (succeeds_rememberViewXattrs hwell.xattrs).bind fun _ c1 h1 => ?_
  refine (succeeds_rememberViewEntries hwell.entry_xattrs).bind fun _ c2 h2 => ?_
  rw [rememberDirectorySnapshot, hcase]
  refine Wp.bind (Wp.ofExcept (Wp.bind_modify ?_))
  refine (succeeds_rememberEntries (List.forall_mem_map.2 hwell.names)
    (List.forall_mem_map.2 hwell.metadata) (List.forall_mem_map.2 hwell.kinds) ?_).bind
    fun entries c3 h3 => Wp.bind_modify (Wp.pure ⟨_, rfl, rfl, ?_⟩)
  · have hnext : c2.shared.nextInode = c.shared.nextInode := h2.2.trans h1.2
    rw [List.length_map]
    dsimp only
    omega
  · dsimp only
    rw [h3, List.map_map]
    rfl

/-- Otherwise the view is refused. -/
theorem rememberDirectoryView_refused {parent : NodeId}
    (hwell : WellFormed config record.node parent view)
    (hparent : ¬c.shared.inodes.Holds record.parentInode parent) :
    Wp answer (rememberDirectoryView config inode record view : M O DirectoryListing) c
      fun r _ => ∃ error, r = .error error := by
  have hdirectory : validateMetadata record.node view.directory = .ok () := if_pos hwell.directory
  rw [rememberDirectoryView, hdirectory, ensure, if_pos (decide_eq_true hwell.directory_kind)]
  refine Wp.bind (Wp.ofExcept (Wp.bind (Wp.pure (Wp.bind (Wp.bind (Wp.read ?_))))))
  cases hfound : c.shared.inodes.byInode record.parentInode with
  | none => exact Wp.throw ⟨_, rfl⟩
  | some found =>
    have hother : found.node ≠ parent := fun heq =>
      hparent (by rw [InodeTable.Holds, hfound]; exact congrArg some heq)
    have hparents : validateMetadata found.node view.parent = .error .unexpectedMetadata :=
      if_neg fun heq => hother (heq.symm.trans hwell.parent)
    refine Wp.pure ?_
    dsimp only
    rw [hparents]
    exact Wp.bind (Wp.ofExcept ⟨_, rfl⟩)

/-- The mutex of a directory is found or made, and nothing else. -/
theorem directoryOperation_rest (s : State) (node : NodeId) :
    (s.directoryOperation node).2.inodes = s.inodes ∧
      (s.directoryOperation node).2.nextInode = s.nextInode ∧
      (s.directoryOperation node).2.directoryLocks = s.directoryLocks ∧
      (s.directoryOperation node).2.discoveredDirectories = s.discoveredDirectories := by
  rw [State.directoryOperation]
  split <;> exact ⟨rfl, rfl, rfl, rfl⟩

theorem directoryOperation_setDirectory (s : State) (inode : ℕ) (cached : Option CachedDirectory)
    (node : NodeId) :
    ((s.setDirectory inode cached).directoryOperation node).1 = (s.directoryOperation node).1 := by
  unfold State.directoryOperation
  have hsame : (s.setDirectory inode cached).directoryOperations node =
      s.directoryOperations node := rfl
  rw [hsame]
  cases s.directoryOperations node <;> rfl

theorem freshDirectory_of_none {s : State} (h : s.discoveredDirectories inode = none) :
    s.freshDirectory inode = none := by
  rw [State.freshDirectory, h]
  rfl

/-- What `readdir_async` does when it has no listing to go by, and nobody else lists the directory:
it asks for a view, and the outcome is what becomes of that. -/
theorem wp_readdirAsync (hcached : c.shared.freshDirectory inode = none)
    (hrecord : c.shared.inodes.byInode inode = some record)
    (hfree : (c.shared.directoryOperation record.node).1 ∉ c.shared.directoryLocks)
    (hview : (answer c.env (.call (.listDirectoryView record.node .native))).2 = some (.ok view))
    {Q : Except AdapterError DirectoryListing → Prop}
    (h : ∀ c' : Point (sig O) E, c'.shared.inodes = c.shared.inodes →
      c'.shared.nextInode = c.shared.nextInode →
      Wp answer (rememberDirectoryView config inode record view : M O DirectoryListing) c'
        fun r _ => Q r) :
    Wp answer (readdirAsync config inode : M O DirectoryListing) c fun r _ => Q r := by
  have hdrop : c.shared.dropStaleDirectory inode = c.shared.setDirectory inode none := by
    rw [State.dropStaleDirectory, hcached]
    rfl
  have hnone : (c.shared.setDirectory inode none).discoveredDirectories inode = none := if_pos rfl
  have hoperation := directoryOperation_setDirectory c.shared inode none record.node
  rw [readdirAsync]
  refine Wp.bind (Wp.access rfl ?_)
  rw [hcached, hdrop]
  -- From here on only these facts about the state matter.
  have hinodes : (c.shared.setDirectory inode none).inodes = c.shared.inodes := rfl
  have hnext : (c.shared.setDirectory inode none).nextInode = c.shared.nextInode := rfl
  have hlocks : (c.shared.setDirectory inode none).directoryLocks = c.shared.directoryLocks := rfl
  generalize c.shared.setDirectory inode none = s at *
  refine Wp.bind (Wp.bind (Wp.read ?_))
  rw [← hinodes] at hrecord
  rw [← hoperation, ← hlocks] at hfree
  dsimp only
  rw [hrecord]
  refine Wp.pure (Wp.bind_access rfl ?_)
  obtain ⟨hinodes', hnext', hlocks', hdirectories⟩ := directoryOperation_rest s record.node
  dsimp only
  generalize (s.directoryOperation record.node).1 = operation at *
  generalize (s.directoryOperation record.node).2 = s' at *
  rw [← hdirectories] at hnone
  rw [← hlocks'] at hfree
  refine Wp.holding (Wp.access (decide_eq_true hfree) ?_)
  have hfresh : State.freshDirectory { s' with directoryLocks := operation :: s'.directoryLocks }
      inode = none := freshDirectory_of_none hnone
  refine Wp.bind (Wp.access rfl ?_)
  dsimp only
  rw [State.dropStaleDirectory, hfresh]
  refine Wp.bind (Wp.bind (Wp.ask ?_))
  dsimp only
  rw [hview]
  refine Wp.pure ((h _ ?_ ?_).conseq fun r c' hr => Wp.modify hr)
  · exact hinodes'.trans hinodes
  · exact hnext'.trans hnext

end Steps

/-- **A directory can be listed exactly if its parent was recorded**, whatever has happened before:
the directory has a number, no listing of it is at hand, nobody else is listing it, there are numbers
left for its entries, and the remote answers with a view that is in order.  Then `readdir_async`
returns what the view says if and only if the parent that the adapter has recorded has the node of the
directory's parent. -/
theorem readdir_lists_iff {O : Outside} {E : Type} (config : Config)
    (answer : E → (q : Question) → E × q.Answer) (c : Point (sig O) E) (inode : ℕ)
    (record : InodeRecord) (parent : NodeId) (view : DirectoryView)
    (hrecord : c.shared.inodes.byInode inode = some record)
    (hcached : c.shared.freshDirectory inode = none)
    (hfree : (c.shared.directoryOperation record.node).1 ∉ c.shared.directoryLocks)
    (hnumbers : c.shared.nextInode + view.entries.length ≤ u64Max)
    (hview : (answer c.env (.call (.listDirectoryView record.node .native))).2 = some (.ok view))
    (hwell : WellFormed config record.node parent view) :
    ∃ (r : Except AdapterError DirectoryListing) (c' : Point (sig O) E),
      evalOp (program O config) answer (.call (.readdir inode)) c =
        some (some ⟨.readdir inode, r⟩, c') ∧
      ((∃ listing, r = .ok listing ∧ Reports listing view) ↔
        c.shared.inodes.Holds record.parentInode parent) := by
  let start : Point (sig O) E := { c with tasks := c.tasks + 1 }
  by_cases hparent : c.shared.inodes.Holds record.parentInode parent
  · have hlists : Wp answer (readdirAsync config inode : M O DirectoryListing) start
        fun r _ => ∃ listing, r = .ok listing ∧ Reports listing view := by
      refine wp_readdirAsync (c := start) hcached hrecord hfree hview fun c' hinodes hnext => ?_
      refine succeeds_rememberDirectoryView hwell ?_ ?_
      · rw [hnext]
        exact hnumbers
      · rw [hinodes]
        exact hparent
    obtain ⟨r, c', heval, hr⟩ := hlists.eval fun r => some ⟨.readdir inode, r⟩
    exact ⟨r, c', heval, fun _ => hparent, fun _ => hr⟩
  · have hrefused : Wp answer (readdirAsync config inode : M O DirectoryListing) start
        fun r _ => ∃ error, r = .error error := by
      refine wp_readdirAsync (c := start) hcached hrecord hfree hview fun c' hinodes _ => ?_
      refine rememberDirectoryView_refused hwell ?_
      rw [hinodes]
      exact hparent
    obtain ⟨r, c', heval, error, hr⟩ := hrefused.eval fun r => some ⟨.readdir inode, r⟩
    refine ⟨r, c', heval, fun ⟨listing, hlisting, _⟩ => ?_, fun h => absurd h hparent⟩
    rw [hr] at hlisting
    cases hlisting

/-! ## A directory that was moved -/

/-- Names, each of which names one node. -/
structure Roster where
  names : Entries (NodeId × Name) NodeId
  distinct : names.Distinct
  next : NodeId

namespace Roster

/-- The first nodes are directories. -/
def kind (node : NodeId) : NodeKind := if node < 4 then .directory else .file

def metadata (node : NodeId) : Metadata :=
  ⟨node, kind node, 0, 0, 0, 1, 0, 0, none, none, 1, 0, 0⟩

def entryOf (entry : (NodeId × Name) × NodeId) : DirectoryViewEntry :=
  ⟨⟨entry.2, entry.1.2, kind entry.2, metadata entry.2⟩, none⟩

variable (roster : Roster)

/-- The directory that a node is in. -/
def parentOf (node : NodeId) : NodeId :=
  ((roster.names.find? fun entry => decide (entry.2 = node)).map fun entry => entry.1.1).getD rootNode

def view (node : NodeId) : DirectoryView :=
  ⟨1, metadata node, metadata (roster.parentOf node), none,
    (roster.names.filter fun entry => decide (entry.1.1 = node)).map entryOf⟩

def insert (name : NodeId × Name) (node : NodeId) : Roster :=
  { roster with
    names := roster.names.insert name node
    distinct := Entries.distinct_insert roster.distinct }

def erase (name : NodeId × Name) : Roster :=
  { roster with
    names := roster.names.erase name
    distinct := Entries.distinct_erase roster.distinct }

def createFile (name : NodeId × Name) : Roster × Except ClientError CreatedFile :=
  match roster.names.find name with
  | some _ => (roster, .error (.server .alreadyExists ""))
  | none => ({ roster.insert name roster.next with next := roster.next + 1 },
      .ok ⟨metadata roster.next, ⟨0, 1, 0⟩⟩)

def removeNode (name : NodeId × Name) : Roster × Except ClientError Unit :=
  match roster.names.find name with
  | some _ => (roster.erase name, .ok ())
  | none => (roster, .error (.server .notFound ""))

def renameNode (source target : NodeId × Name) : RenameMode → Roster × Except ClientError Unit
  | .replace =>
    match roster.names.find source with
    | some node =>
      if roster.names.find target = some node then (roster, .ok ())
      else ((roster.erase source).insert target node, .ok ())
    | none => (roster, .error (.server .notFound ""))
  | _ => (roster, .error (.server .notSupported ""))

def getMetadata (node : NodeId) : Except ClientError Metadata :=
  if node = rootNode ∨ node ∈ roster.names.map Prod.snd then .ok (metadata node)
  else .error (.server .notFound "")

def capabilities : FilesystemCapabilities :=
  ⟨0, true, true, true, true, true, true, true, true, true, true, true, true, true, true, true, true,
    true, true, true, true, "", 1, 1⟩

def reply : (operation : RemoteCall) → Roster × operation.Reply
  | .capabilities => (roster, .ok capabilities)
  | .getMetadata node => (roster, roster.getMetadata node)
  | .listDirectoryView node _ => (roster, .ok (roster.view node))
  | .createFile parent name _ _ => roster.createFile (parent, name)
  | .removeNode parent name _ => roster.removeNode (parent, name)
  | .renameNode parent name newParent newName mode =>
    roster.renameNode (parent, name) (newParent, newName) mode
  | .forgetNodes _ => (roster, .ok ())
  | _ => (roster, .error (.server .notSupported ""))

def answer : (q : Question) → Roster × q.Answer
  | .call operation => ((roster.reply operation).1, some (roster.reply operation).2)
  | .sleep => (roster, ())

/-- Whoever runs the remote does nothing else. -/
def outside : Outside where
  Env := Roster
  Choice := Unit
  serve roster _ q := some (roster.answer q)

/-- Names are folded as if they were in lower case: the bits that tell the case of a letter are
dropped. -/
def folding : Config := ⟨fun name => some (name.map fun byte => byte ||| 32)⟩

/-- The directory `a` is in the root, and the directory `b` in `a`. -/
def nested : Roster := ⟨[((0, [97]), 1), ((1, [98]), 2)], by rw [Entries.Distinct]; decide, 4⟩

/-- Somebody has moved `b` into the root. -/
def moved : Roster := ⟨[((0, [97]), 1), ((0, [98]), 2)], by rw [Entries.Distinct]; decide, 4⟩

def start (roster : Roster) : Point (sig outside) Roster := ⟨State.new, roster, 0⟩

theorem wellFormed_view {roster : Roster} {config : Config} {node : NodeId} (hnode : node < 4)
    (hparent : roster.parentOf node < 4)
    (hnames : ∀ entry ∈ (roster.view node).entries, validName entry.entry.name = true)
    (hfolding : ((roster.view node).entries.filterMap fun entry =>
      config.normalizedCaseName entry.entry.name).Nodup) :
    WellFormed config node (roster.parentOf node) (roster.view node) where
  directory := rfl
  directory_kind := if_pos hnode
  parent := rfl
  parent_kind := if_pos hparent
  names := hnames
  folding := hfolding
  metadata := List.forall_mem_map.2 fun _ _ => rfl
  kinds := List.forall_mem_map.2 fun _ _ => rfl
  xattrs := by nofun
  entry_xattrs := List.forall_mem_map.2 fun _ _ => by nofun

end Roster

open Roster in
/-- The root is listed. -/
theorem readdir_lists_root :
    ∃ (r : Except AdapterError DirectoryListing) (c' : Point (sig outside) Roster),
      evalOp (program outside folding) answer (.call (.readdir rootInode)) nested.start =
        some (some ⟨.readdir rootInode, r⟩, c') ∧
      ((∃ listing, r = .ok listing ∧ Reports listing (nested.view rootNode)) ↔
        nested.start.shared.inodes.Holds rootInode rootNode) :=
  readdir_lists_iff folding answer nested.start rootInode ⟨rootNode, rootInode⟩ rootNode
    (nested.view rootNode) rfl rfl (by decide) (by decide) rfl
    (show WellFormed folding rootNode (nested.parentOf rootNode) (nested.view rootNode) from
      wellFormed_view (by decide) (by decide) (by decide) (by decide))

open Roster in
/-- The directories `a` and `b` are looked up, and `b` is moved from `a` into the root by somebody
else.  The view of `b` is in order, and `b` cannot be listed. -/
theorem moved_directory_is_unlistable :
    WellFormed folding 2 (moved.parentOf 2) (moved.view 2) ∧
      ((evalOps (program outside folding) answer
        [.call (.lookup rootInode [97]), .call (.lookup 2 [98])] nested.start).bind fun results =>
          (evalOp (program outside folding) answer (.call (.readdir 3))
            { lastPoint nested.start results with env := moved }).map fun after =>
            ((lastPoint nested.start results).shared.inodes.byInode 3,
              (lastPoint nested.start results).shared.freshDirectory 3,
              match after.1 with
              | some ⟨.readdir _, .error error⟩ => some error
              | _ => none)) =
        some (some ⟨2, 2⟩, none, some .unexpectedMetadata) :=
  ⟨wellFormed_view (by decide) (by decide) (by decide) (by decide), by decide +kernel⟩

/-! ## Reading a listing in pieces -/

/-- What there is to be read, in this order. -/
def DirectoryListing.rows {β : Type} (listing : DirectoryListing) (value : ListedEntry → β)
    (current parent : β) : List (Name × β) :=
  ([46], current) :: ([46, 46], parent) ::
    listing.entries.map fun entry => (entry.name, value entry)

section Pieces

variable {O : Outside} {E : Type} (answer : E → (q : Question) → E × q.Answer) {β : Type}

/-- A reply has the rows from `index` on, after the offset that is asked for and as far as there is
room; and each row has the offset to go on from. -/
def Resumes (rows : List (Name × β)) (index offset : ℕ) (fill : ℕ → M O (List (DirectoryRow β)))
    (c : Point (sig O) E) : Prop :=
  ∀ room, Succeeds answer (fill room) c fun reply _ =>
    (reply.map fun row => (row.name, row.value)) = (rows.drop (offset - index)).take room ∧
      reply.map DirectoryRow.offset = List.range' (max offset index + 1) reply.length

/-- The kernel makes one call after the other, each at a point of its own and with the room it has
there, and goes on from the last row that it was given, until a reply is empty. -/
def Crawls (fill : ℕ → ℕ → M O (List (DirectoryRow β))) :
    ℕ → List (Point (sig O) E × ℕ) → (List (List (DirectoryRow β)) → Prop) → Prop
  | _, [], Q => Q []
  | offset, call :: calls, Q => Succeeds answer (fill offset call.2) call.1 fun reply _ =>
    if reply.isEmpty then Q [[]]
    else Crawls fill ((reply.map DirectoryRow.offset).getLast?.getD offset) calls fun replies =>
      Q (reply :: replies)

/-- Any call goes on after the row of its offset; and calls, if there are enough of them, end with an
empty reply, after every row once and in order. -/
def ReadThrough (rows : List (Name × β)) (fill : ℕ → ℕ → M O (List (DirectoryRow β)))
    (calls : List (Point (sig O) E × ℕ)) : Prop :=
  (∀ call ∈ calls, ∀ offset, Resumes answer rows 0 offset (fill offset) call.1) ∧
    (rows.length < calls.length → Crawls answer fill 0 calls fun replies =>
      (replies.flatten.map fun row => (row.name, row.value)) = rows ∧ replies.getLast? = some [])

variable {answer} {c : Point (sig O) E} {rows : List (Name × β)} {index offset : ℕ}

section Calls

variable {fill : ℕ → ℕ → M O (List (DirectoryRow β))} {calls : List (Point (sig O) E × ℕ)}
  (hroom : ∀ call ∈ calls, 0 < call.2)
  (h : ∀ call ∈ calls, ∀ offset, Resumes answer rows 0 offset (fill offset) call.1)
include hroom h

theorem crawls_of_resumes {Q : List (List (DirectoryRow β)) → Prop}
    (hcalls : (rows.drop offset).length < calls.length)
    (hQ : ∀ replies, (replies.flatten.map fun row => (row.name, row.value)) = rows.drop offset →
      replies.getLast? = some [] → Q replies) : Crawls answer fill offset calls Q := by
  -- By induction on the calls: what is left is what comes after the rows that were given.
  induction calls generalizing offset Q with
  | nil => cases hcalls
  | cons call calls ih =>
    rw [List.forall_mem_cons] at h hroom
    refine (h.1 offset call.2).imp fun reply _ hreply => ?_
    obtain ⟨hrows, hnext⟩ := hreply
    have hlength : reply.length = min call.2 (rows.drop offset).length := by
      rw [← List.length_map fun row => (row.name, row.value), hrows, List.length_take, Nat.sub_zero]
    have hpos := hroom.1
    split
    · rename_i hempty
      rw [List.isEmpty_iff.1 hempty, List.length_nil] at hlength
      have hnone : rows.drop offset = [] := List.eq_nil_of_length_eq_zero (by omega)
      exact hQ [[]] hnone.symm rfl
    rename_i hsome
    have hmore : reply.length ≠ 0 := fun hnone => hsome (List.isEmpty_iff_length_eq_zero.2 hnone)
    have hlast : (reply.map DirectoryRow.offset).getLast?.getD offset = offset + reply.length := by
      rw [hnext, List.getLast?_range', if_neg hmore, Option.getD_some]
      omega
    have hsplit := List.prefix_iff_eq_append.1 (hrows ▸ List.take_prefix _ _)
    rw [List.length_map, Nat.sub_zero, List.drop_drop] at hsplit
    rw [hlast]
    refine ih hroom.2 h.2 ?_ fun replies hreplies hempty => hQ _ ?_ ?_
    · simp only [List.length_drop, List.length_cons] at *
      omega
    · rw [List.flatten_cons, List.map_append, hreplies, hsplit]
    · rw [List.getLast?_cons, hempty]
      rfl

theorem readThrough_of_resumes : ReadThrough answer rows fill calls :=
  ⟨h, fun hcalls => crawls_of_resumes hroom h hcalls fun _ hrows hempty => ⟨hrows, hempty⟩⟩

end Calls

theorem Resumes.addRow {row : DirectoryRow β} {added : M O Unit}
    {rest : ℕ → M O (List (DirectoryRow β))} (hnext : row.offset = index + 1)
    (hadded : Succeeds answer added c fun _ _ => True)
    (hrest : ∀ c, Resumes answer rows (index + 1) offset rest c) :
    Resumes answer ((row.name, row.value) :: rows) index offset
      (fun room => Adapter.addRow offset index row added room rest) c := by
  intro room
  simp only [Adapter.addRow]
  split
  -- A row that was given before is passed over.
  · have hdrop : offset - index = offset - (index + 1) + 1 := by omega
    have hmax : max offset index = max offset (index + 1) := by omega
    rw [hdrop, hmax]
    exact hrest c room
  have hdrop : offset - index = 0 ∧ offset - (index + 1) = 0 := by omega
  have hmax : max offset index = index ∧ max offset (index + 1) = index + 1 := by omega
  rw [hdrop.1, hmax.1]
  split
  · rename_i hfull
    rw [hfull]
    exact Succeeds.pure ⟨rfl, rfl⟩
  · rename_i hroom
    obtain ⟨n, rfl⟩ := Nat.exists_eq_succ_of_ne_zero hroom
    refine hadded.bind fun _ c' _ => (hrest c' n).bind fun reply _ hreply => Succeeds.pure ?_
    obtain ⟨hrows, hnexts⟩ := hreply
    rw [hdrop.2] at hrows
    rw [hmax.2] at hnexts
    rw [List.map_cons, List.map_cons, hrows, hnexts, hnext]
    exact ⟨rfl, rfl⟩

variable {value : ListedEntry → β} {added : ℕ → M O Unit} {inode : ℕ}
  (hadded : ∀ n c, Succeeds answer (added n) c fun _ _ => True)
include hadded

theorem resumes_fillEntries (entries : List ListedEntry) :
    Resumes answer (entries.map fun entry => (entry.name, value entry)) index offset
      (fillEntries inode offset value added entries index) c := by
  induction entries generalizing index c with
  | nil => exact fun room => Succeeds.pure ⟨by simp, rfl⟩
  | cons entry _ ih =>
    have hremember : Succeeds answer (rememberListed inode entry : M O ℕ) c fun _ _ => True := by
      refine Wp.bind (Wp.attempt (Wp.bind (Wp.access rfl (Wp.ofExcept ?_))))
      dsimp only
      split <;> exact Succeeds.pure trivial
    exact fun room => hremember.bind fun n c' _ => Resumes.addRow rfl (hadded n c') (fun _ => ih) room

theorem resumes_fillListing {listing : DirectoryListing} {current parent : β} :
    Resumes answer (listing.rows value current parent) 0 offset
      (fillListing inode offset value added listing current parent) c :=
  .addRow rfl (hadded _ _) fun _ => .addRow rfl (hadded _ _) fun _ => resumes_fillEntries hadded _

end Pieces

/-- **A listing is read from its first row to its last**, whatever room there is for a reply, as long as
it is enough for a row, and whatever happens between the calls: each goes on after the last row that
was given, and the reply after the last row is empty. -/
theorem listing_read_through {O : Outside} {E : Type} (answer : E → (q : Question) → E × q.Answer)
    (handle : ℕ) (record : DirectoryHandleRecord) (calls : List (Point (sig O) E × ℕ))
    (hroom : ∀ call ∈ calls, 0 < call.2)
    (hhandle : ∀ call ∈ calls, Entries.find call.1.shared.directoryHandles handle = some record) :
    ReadThrough answer (record.listing.rows ListedEntry.kind .directory .directory)
        (fillDirectory record.inode handle) calls ∧
      ReadThrough answer (record.listing.rows ListedEntry.metadata record.current record.parent)
        (fillDirectoryPlus record.inode handle) calls := by
  constructor
  all_goals
    refine readThrough_of_resumes hroom fun call hcall offset room => Wp.bind (Wp.bind (Wp.read ?_))
    dsimp only
    rw [hhandle call hcall]
    dsimp only
    rw [if_pos rfl]
  · exact Wp.pure (resumes_fillListing (fun _ _ => Succeeds.pure trivial) room)
  · exact Wp.pure (resumes_fillListing (fun _ _ => Wp.modify ⟨(), rfl, trivial⟩) room)

open Roster in
/-- A directory with three entries, in calls with room for two rows, one row and three; after the
first of them the remote has changed. -/
theorem listing_read_through_in_three :
    let record : DirectoryHandleRecord :=
      ⟨1, ⟨1, 1, [⟨2, [97], .directory, metadata 1⟩, ⟨3, [98], .directory, metadata 2⟩,
        ⟨4, [99], .file, metadata 4⟩]⟩, metadata 0, metadata 0⟩
    let c (roster : Roster) : Point (sig outside) Roster :=
      { roster.start with shared := { State.new with directoryHandles := [(1, record)] } }
    let calls := [(c nested, 2), (c moved, 1), (c moved, 3)]
    ReadThrough answer (record.listing.rows ListedEntry.kind .directory .directory)
        (fillDirectory 1 1) calls ∧
      ReadThrough answer (record.listing.rows ListedEntry.metadata (metadata 0) (metadata 0))
        (fillDirectoryPlus 1 1) calls :=
  listing_read_through answer 1 _ _ (by simp) (by simp [Entries.find])

end QuickFS.Adapter
