import QuickFS.Export.Tree

/-!
# A host that keeps a tree

A small host, to carry requests out on: a table of links, and the numbers of the directories.  It
makes files and directories, removes files, and links and renames both.  A new object has the
smallest number that nothing has and that is greater than that of its directory.  A table that is
not that of a tree is never put in place: a call that would lead to one fails, as does one that is
not answered here.  So the host is a `Backing`.  It also keeps the files of forks.
-/

namespace QuickFS.Export

open Server

namespace TreeHost

/-- The object of a descriptor, which is its number. -/
def object (file : Fd) : FileIdentity := ⟨1, file⟩

/-- A name of a directory. -/
abbrev Place := FileIdentity × Name

abbrev Links := Entries Place Fd

def linkOf (links : Links) (directory : FileIdentity) (name : Name) : Option FileIdentity :=
  (links.find (directory, name)).map object

/-- Every link is one of a directory, and leads to a greater number, so that nothing is below itself;
and a directory other than the root has one link. -/
def IsTree (links : Links) (directories : List Fd) : Prop :=
  Entries.Distinct links ∧ rootFile ∈ directories ∧
  (∀ link ∈ links, link.1.1 ∈ directories.map object ∧ link.1.1.inode < link.2) ∧
  (∀ link ∈ links, ∀ link' ∈ links, link.2 = link'.2 → link.2 ∈ directories → link.1 = link'.1) ∧
  ∀ directory ∈ directories, directory ≠ rootFile → directory ∈ links.map Prod.snd

instance (links : Links) (directories : List Fd) : Decidable (IsTree links directories) :=
  inferInstanceAs (Decidable (List.Nodup _ ∧ _))

structure Table where
  links : Links
  directories : List Fd
  isTree : IsTree links directories
deriving DecidableEq

namespace Table

variable (table : Table) {α : Type}

/-- The table is replaced, if the new one is that of a tree. -/
def change (links : Links) (directories : List Fd) (a : α) : Table × Except Errno α :=
  if h : IsTree links directories then (⟨links, directories, h⟩, .ok a) else (table, .error .inval)

/-- A number for an object of a directory. -/
def free (directory : FileIdentity) : Option Fd :=
  (List.range 9).find? fun file =>
    decide (directory.inode < file ∧ file ∉ table.links.map Prod.snd)

/-- A new object; `directories` are those that there are then. -/
def make (place : Place) (directories : Fd → List Fd) (answer : Fd → α) :
    Table × Except Errno α :=
  match table.links.find place, table.free place.1 with
  | none, some file => table.change (table.links.insert place file) (directories file) (answer file)
  | none, none => (table, .error .nospc)
  | some _, _ => (table, .error .exist)

def openat (place : Place) (flags : OFlags) : Table × Except Errno Fd :=
  if flags.create then table.make place (fun _ => table.directories) id
  else
    (table, match table.links.find place with
      | some file =>
        if flags.directory ∧ file ∉ table.directories then .error .notdir else .ok file
      | none => .error .noent)

def linkat (place place' : Place) : Table × Except Errno Unit :=
  match table.links.find place, table.links.find place' with
  | some file, none => table.change (table.links.insert place' file) table.directories ()
  | some _, some _ => (table, .error .exist)
  | none, _ => (table, .error .noent)

def unlinkat (place : Place) (removeDirectory : Bool) : Table × Except Errno Unit :=
  match table.links.find place with
  | none => (table, .error .noent)
  | some file =>
    if removeDirectory ∨ file ∈ table.directories then (table, .error .isdir)
    else table.change (table.links.erase place) table.directories ()

def renameat (place place' : Place) (mode : RenameMode) : Table × Except Errno Unit :=
  match table.links.find place with
  | none => (table, .error .noent)
  | some file =>
    if mode ≠ .replace then (table, .error .inval)
    else if table.links.find place' = some file then (table, .ok ())
    else if ∃ directory ∈ table.directories, table.links.find place' = some directory then
      (table, .error .isdir)
    else table.change ((table.links.erase place).insert place' file) table.directories ()

def stat (file : Fd) : Stat where
  device := 1
  inode := file
  size := 0
  mode := if file ∈ table.directories then 4 * 4096 else 8 * 4096
  linkCount := (table.links.filter fun link => decide (link.2 = file)).length
  rawDevice := 0
  blocks := 0
  accessed := ⟨0, 0⟩
  modified := ⟨0, 0⟩
  changed := ⟨0, 0⟩
  created := none

/-! ## The tree -/

/-- By induction on its number, a directory has a path. -/
theorem reached (directory : Fd) (hmem : directory ∈ table.directories) :
    ∃ path, follow (linkOf table.links) (object rootFile) path = some (object directory) := by
  induction directory using Nat.strongRecOn with
  | ind directory ih =>
    by_cases hroot : directory = rootFile
    · exact ⟨[], congrArg (fun file => some (object file)) hroot.symm⟩
    obtain ⟨⟨⟨parent, name⟩, _⟩, hlink, rfl⟩ :=
      List.mem_map.1 (table.isTree.2.2.2.2 directory hmem hroot)
    obtain ⟨hparent, hlt⟩ := table.isTree.2.2.1 _ hlink
    obtain ⟨above, habove, rfl⟩ := List.mem_map.1 hparent
    obtain ⟨path, hpath⟩ := ih above hlt habove
    refine ⟨path ++ [name], ?_⟩
    rw [follow_concat, hpath, Option.bind_some, linkOf,
      Entries.find_of_mem table.isTree.1 hlink]
    rfl

/-- The tree that the links are. -/
def tree : Tree where
  root := object rootFile
  isDirectory directory := directory ∈ table.directories.map object
  links := linkOf table.links
  isDirectory_root := List.mem_map_of_mem table.isTree.2.1
  isDirectory_of_link h := by
    obtain ⟨file, hfind, -⟩ := Option.map_eq_some_iff.1 h
    exact (table.isTree.2.2.1 _ (Entries.mem_of_find hfind)).1
  link_ne_root h := by
    obtain ⟨file, hfind, hroot⟩ := Option.map_eq_some_iff.1 h
    cases hroot
    exact absurd (table.isTree.2.2.1 _ (Entries.mem_of_find hfind)).2 (Nat.not_lt_zero _)
  link_unique hdirectory h h' := by
    obtain ⟨file, hfind, rfl⟩ := Option.map_eq_some_iff.1 h
    obtain ⟨file', hfind', hsame⟩ := Option.map_eq_some_iff.1 h'
    cases hsame
    obtain ⟨directory, hmem, heq⟩ := List.mem_map.1 hdirectory
    cases heq
    exact Prod.mk.inj (table.isTree.2.2.2.1 _ (Entries.mem_of_find hfind) _
      (Entries.mem_of_find hfind') rfl hmem)
  reached h := by
    obtain ⟨file, hfind, -⟩ := Option.map_eq_some_iff.1 h
    obtain ⟨directory, hmem, heq⟩ :=
      List.mem_map.1 (table.isTree.2.2.1 _ (Entries.mem_of_find hfind)).1
    cases heq
    exact table.reached directory hmem

variable {table} {table' : Table} {place place' : Place} {file : Fd} {a : α}
  {links : Links} {directories : List Fd} {change : α → Tree → Tree → Prop}

theorem link_iff : table.tree.links place.1 place.2 = some (object file) ↔
    table.links.find place = some file := by
  refine Option.map_eq_some_iff.trans ⟨fun ⟨_, hfind, heq⟩ => ?_, fun hfind => ⟨file, hfind, rfl⟩⟩
  cases heq
  exact hfind

theorem link_none (h : table.links.find place = none) : table.tree.links place.1 place.2 = none :=
  congrArg (Option.map object) h

/-- Other places are not concerned. -/
theorem agree {changed : List Place}
    (h : ∀ place, place ∉ changed → table'.links.find place = table.links.find place) :
    AgreeExcept table.tree.links table'.tree.links changed :=
  fun directory name hplace => congrArg (Option.map object) (h (directory, name) hplace)

/-- Nothing is in a file. -/
theorem bare (h : file ∉ table.directories) (below : Name) :
    table.tree.links (object file) below = none := by
  refine Option.eq_none_iff_forall_ne_some.2 fun _ hlink => h ?_
  obtain ⟨directory, hmem, heq⟩ := List.mem_map.1 (table.tree.isDirectory_of_link hlink)
  cases heq
  exact hmem

/-- Below an object there are greater numbers. -/
theorem inode_le {start found : FileIdentity} {path : PathBuf}
    (h : follow table.tree.links start path = some found) : start.inode ≤ found.inode := by
  induction path generalizing start with
  | nil => exact Nat.le_of_eq (congrArg FileIdentity.inode (Option.some.inj h))
  | cons name _ ih =>
    obtain ⟨next, hnext, hrest⟩ := Option.bind_eq_some_iff.1 h
    obtain ⟨file, hfind, rfl⟩ := Option.map_eq_some_iff.1 hnext
    have hlt := (table.isTree.2.2.1 _ (Entries.mem_of_find hfind)).2
    exact Nat.le_trans (Nat.le_of_lt hlt) (ih hrest)

/-! ## What is changed -/

theorem changes_change
    (h : ∀ table' : Table, table'.links = links → change a table.tree table'.tree) :
    Changes tree table (table.change links directories a) change := by
  unfold Table.change
  split
  · exact h _ rfl
  · rfl

theorem adds (hlinks : table'.links = table.links.insert place file)
    (hfree : table.links.find place = none) :
    table.tree.Adds table'.tree place.1 place.2 (object file) where
  root := rfl
  agree := agree fun other hother => by
    rw [hlinks, Entries.find_insert_of_ne fun h => hother (List.mem_singleton.2 h)]
  free := link_none hfree
  added := link_iff.2 (hlinks ▸ Entries.find_insert_self)

theorem make_creates {directories : Fd → List Fd} {answer : Fd → α}
    (h : ∀ file T T', Creates (fun _ => False) T T' place.1 place.2 (object file) →
      change (answer file) T T') :
    Changes tree table (table.make place directories answer) change := by
  unfold make
  split
  · rename_i file hfind hfree
    refine changes_change fun table' hlinks => h file _ _ ⟨fun hlive => ?_, id, adds hlinks hfind⟩
    have hnumber := List.find?_some hfree
    obtain ⟨hlt, hnew⟩ := of_decide_eq_true hnumber
    rcases Hierarchy.live_iff.1 hlive with heq | ⟨directory, name, hlink⟩
    · cases heq
      exact absurd hlt (Nat.not_lt_zero _)
    · have hfound : table.links.find (directory, name) = some file := link_iff.1 hlink
      exact hnew (List.mem_map_of_mem (f := Prod.snd) (Entries.mem_of_find hfound))
  · rfl
  · rfl

theorem linkat_adds : Changes tree table (table.linkat place place') fun _ T T' =>
    ∃ linked, T.links place.1 place.2 = some linked ∧ T.Adds T' place'.1 place'.2 linked := by
  unfold linkat
  split
  · rename_i file hfind hfree
    exact changes_change fun _ hlinks => ⟨object file, link_iff.2 hfind, adds hlinks hfree⟩
  · rfl
  · rfl

theorem unlinkat_removes {removeDirectory : Bool} :
    Changes tree table (table.unlinkat place removeDirectory) fun _ T T' =>
      ∃ removed, T.Removes T' place.1 place.2 removed := by
  unfold unlinkat
  split
  · rfl
  rename_i file hfind
  split
  · rfl
  rename_i hfile
  refine changes_change fun _ hlinks => ⟨object file, rfl, agree fun other hother => ?_,
    link_iff.2 hfind, link_none (hlinks ▸ Entries.find_erase_self),
    bare fun hmem => hfile (.inr hmem)⟩
  rw [hlinks, Entries.find_erase_of_ne fun h => hother (List.mem_singleton.2 h)]

theorem renameat_renames {mode : RenameMode} :
    Changes tree table (table.renameat place place' mode) fun _ T T' =>
      Renames T T' place.1 place.2 place'.1 place'.2 mode := by
  unfold renameat
  split
  · rfl
  rename_i file hfind
  have hlink : table.tree.links place.1 place.2 = some (object file) := link_iff.2 hfind
  split
  · rfl
  rename_i hmode
  cases not_not.1 hmode
  split
  · rename_i hsame
    exact ⟨object file, hlink, (if_pos (link_iff.2 hsame)).mpr rfl⟩
  rename_i hother
  have hne : place ≠ place' := fun heq => hother (heq ▸ hfind)
  split
  · rfl
  rename_i hreplaced
  refine changes_change fun table' hlinks => ⟨object file, hlink,
    (if_neg fun h => hother (link_iff.1 h)).mpr ⟨rfl, agree fun other hplace => ?_, hlink,
      link_none ?_, link_iff.2 (hlinks ▸ Entries.find_insert_self), fun rest hrest => ?_,
      fun replaced hlink' => ?_⟩⟩
  · rw [List.mem_pair, not_or] at hplace
    rw [hlinks, Entries.find_insert_of_ne hplace.2, Entries.find_erase_of_ne hplace.1]
  · rw [hlinks, Entries.find_insert_of_ne hne, Entries.find_erase_self]
  · -- In the new table the object has a greater number than the directory.
    have hlt := (table'.isTree.2.2.1 (place', file) (hlinks ▸ List.mem_cons_self)).2
    exact absurd hlt (Nat.not_lt_of_le (inode_le hrest))
  · obtain ⟨file', hfind', rfl⟩ := Option.map_eq_some_iff.1 hlink'
    exact bare fun hmem => hreplaced ⟨file', hmem, hfind'⟩

/-- What has two links has one elsewhere. -/
theorem linkedElsewhere (h : 1 < (table.stat file).linkCount) (directory : FileIdentity)
    (name : Name) : table.tree.LinkedElsewhere (object file) directory name := by
  by_contra hnone
  have hall : ∀ place ∈ (table.links.filter fun link => decide (link.2 = file)).map Prod.fst,
      place = (directory, name) := by
    intro place hplace
    obtain ⟨link, hlink, rfl⟩ := List.mem_map.1 hplace
    obtain ⟨hmem, hfile⟩ := List.mem_filter.1 hlink
    by_contra hne
    refine hnone ⟨link.1.1, link.1.2, hne, link_iff.2 ?_⟩
    rw [← of_decide_eq_true hfile]
    exact Entries.find_of_mem table.isTree.1 hmem
  have hnodup := Entries.distinct_filter table.isTree.1 fun link => decide (link.2 = file)
  rw [Entries.Distinct, List.eq_replicate_of_mem hall, List.nodup_replicate, List.length_map]
    at hnodup
  exact absurd h (Nat.not_lt.2 hnodup)

end Table

end TreeHost

structure TreeHost where
  table : TreeHost.Table
  forks : List NodeId
deriving DecidableEq

namespace TreeHost

/-- An empty directory, and no forks. -/
def empty : TreeHost := ⟨⟨[], [rootFile], by decide⟩, []⟩

variable (host : TreeHost)

def withTable {α : Type} (outcome : Table × Except Errno α) : TreeHost × Except Errno α :=
  ({ host with table := outcome.1 }, outcome.2)

def openFork (node : NodeId) (create : Bool) : TreeHost × Except Errno Fd :=
  if node ∈ host.forks then (host, .ok 9)
  else if create then ({ host with forks := node :: host.forks }, .ok 9)
  else (host, .error .noent)

def respond : (q : HostCall) → TreeHost × q.Answer
  | .dup file => (host, .ok file)
  | .fstat file => (host, .ok (host.table.stat file))
  | .statat directory name =>
    (host, match host.table.links.find (object directory, name) with
      | some file => .ok (host.table.stat file)
      | none => .error .noent)
  | .readdir directory _ =>
    (host, .ok ((host.table.links.filter fun link =>
      decide (link.1.1 = object directory) && isNormal link.1.2).map fun link => .ok link.1.2))
  | .openat directory name flags _ =>
    host.withTable (host.table.openat (object directory, name) flags)
  | .mkdirat directory name _ =>
    host.withTable (host.table.make (object directory, name) (· :: host.table.directories) fun _ => ())
  | .linkat directory name directory' name' =>
    host.withTable (host.table.linkat (object directory, name) (object directory', name'))
  | .unlinkat directory name removeDirectory =>
    host.withTable (host.table.unlinkat (object directory, name) removeDirectory)
  | .renameat directory name directory' name' mode =>
    host.withTable (host.table.renameat (object directory, name) (object directory', name') mode)
  | .statFork node => (host, if node ∈ host.forks then .ok ⟨true, 0, none⟩ else .error .noent)
  | .openFork node _ create => host.openFork node create
  | .removeFork node => ({ host with forks := host.forks.filter (· ≠ node) }, .ok ())
  | .setLen _ _ => (host, .ok ())
  | .writeAt _ _ data => (host, .ok data.length)
  | .flistxattr _ _ => (host, .ok [])
  | q => (host, q.refuse)

theorem changes_withTable {host : TreeHost} {α : Type} {outcome : Table × Except Errno α}
    {change : α → Tree → Tree → Prop} (h : Changes Table.tree host.table outcome change) :
    Changes (fun host => host.table.tree) host (host.withTable outcome) change := h

/-- Other calls leave the table alone. -/
theorem table_respond {host : TreeHost} {q : HostCall} (h : q.relinks = false) :
    (host.respond q).1.table = host.table := by
  cases q with
  | openat =>
    rw [HostCall.relinks] at h
    rw [respond, Table.openat, if_neg (by rw [h]; nofun)]
    rfl
  | openFork =>
    rw [respond, openFork]
    split
    · rfl
    · split <;> rfl
  | mkdirat | symlinkat | mknodat | linkat | unlinkat | renameat => cases h
  | _ => rfl

/-- **The host keeps a tree.** -/
def backing : Backing respond where
  object := object
  tree host := host.table.tree
  outside _ := False
  root _ := rfl
  dup _ _ _ h := congrArg object (Except.ok.inj h).symm
  fstat _ _ _ h := by
    cases Except.ok.inj h
    rfl
  statat host directory name found _ h := by
    rw [respond] at h
    dsimp only at h
    split at h
    · rename_i file hfind
      cases h
      exact Table.link_iff.2 hfind
    · cases h
  absent host directory name _ h := by
    rw [respond] at h
    dsimp only at h
    split at h
    · cases h
    · rename_i hfind
      exact Table.link_none hfind
  openat host directory name flags mode file _ hcreate _ h := by
    rw [respond, Table.openat, if_neg (by rw [hcreate]; nofun), withTable] at h
    dsimp only at h
    split at h
    · rename_i found hfind
      split at h
      · cases h
      · cases h
        exact Table.link_iff.2 hfind
    · cases h
  readdir host directory _ names h name hname := by
    cases Except.ok.inj h
    obtain ⟨link, hlink, heq⟩ := List.mem_map.1 hname
    cases heq
    exact .inl (Bool.and_eq_true_iff.1 (List.mem_filter.1 hlink).2).2
  still _ _ h := congrArg Table.tree (table_respond h)
  create _ _ _ _ _ _ hcreate _ := by
    rw [respond, Table.openat, if_pos hcreate]
    exact changes_withTable (Table.make_creates fun _ _ _ h => h)
  mkdirat _ _ _ _ _ := changes_withTable (Table.make_creates fun _ _ _ h => ⟨_, h⟩)
  symlinkat _ _ _ _ _ := rfl
  mknodat _ _ _ _ _ _ _ _ := rfl
  linkat _ _ _ _ _ _ _ := changes_withTable Table.linkat_adds
  unlinkat _ _ _ _ _ := changes_withTable Table.unlinkat_removes
  renameat _ _ _ _ _ _ _ _ := changes_withTable Table.renameat_renames

end TreeHost

end QuickFS.Export
