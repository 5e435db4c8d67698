import QuickFS.Export.Paths

/-!
# Files of resource forks

A resource fork has a file in the server's state directory, which is named after the node.  A node
is named after the number the host has given to an object; and when the object is gone the number
may be given to another.  So the file has to go with the object.

Here are the objects whose forks have been written since they were created (`marksAfter`).
Requests, carried out one at a time, keep the files of forks to such objects (`forks_justified`) —
unless a directory with a fork is removed, an object with a fork is replaced by a rename, or the
file of a fork cannot be removed.  `remove_node` removes the file of a fork only if the link it has
removed was the last one, and takes the link count of a directory for the number of its links;
`rename_node` does not remove any.  A new file may then show the fork of one that is gone
(`new_file_shows_old_fork`).
-/

namespace QuickFS.Export

open Server Async

variable {F : Frame} {E : Type} {answer : E → (q : HostCall) → E × q.Answer} {B : Backing answer}
  {config : Config} {i : ℕ} {T : Tree}

/-! ## The host -/

/-- A host that keeps the files of forks: they appear when they are opened to be created.  What it
says of an object other than a directory is not that it has two links if there is only one. -/
structure ForkStore {E : Type} {answer : E → (q : HostCall) → E × q.Answer} (B : Backing answer) where
  fork : E → NodeId → Prop
  appears : ∀ env q node, fork (answer env q).1 node →
    fork env node ∨ ∃ write, q = .openFork node write true
  fstat : ∀ env file stat, (answer env (.fstat file)).2 = .ok stat →
    ∀ directory name, (B.tree env).links directory name = some stat.identity →
    ¬(B.tree env).isDirectory stat.identity → 1 < stat.linkCount →
    B.outside stat.identity ∨ (B.tree env).LinkedElsewhere stat.identity directory name
  statat : ∀ env file entry stat, (answer env (.statat file entry)).2 = .ok stat →
    ∀ directory name, (B.tree env).links directory name = some stat.identity →
    ¬(B.tree env).isDirectory stat.identity → 1 < stat.linkCount →
    B.outside stat.identity ∨ (B.tree env).LinkedElsewhere stat.identity directory name

namespace ForkStore

variable (S : ForkStore B)

/-- The file of a fork is found to be a file, and can be removed. -/
structure Removable : Prop where
  found : ∀ env node, S.fork env node →
    ∃ metadata, (answer env (.statFork node)).2 = .ok metadata ∧ metadata.isFile = true
  removed : ∀ env node, ¬S.fork (answer env (.removeFork node)).1 node

/-- Every file of a fork is that of an object there is, and one of `marks`. -/
def Justified (config : Config) (marks : FileIdentity → Prop) (env : E) : Prop :=
  ∀ node, S.fork env node → config.persistent = true ∧
    ∃ object, marks object ∧ B.Present env object ∧ Linked config (B.tree env).root node object

/-- What an operation writes the fork of. -/
def WritesFork (config : Config) (T : Tree) (object : FileIdentity) : ExportOp → Prop
  | .request _ asked => asked.WritesFork config T object
  | .newSession _ | .dropSession _ => False

/-- **The objects whose forks have been written since they were created**, after an operation: those
that were there before and are there still, and those that it has written the fork of, so that there
is a file of it now where there was none. -/
def marksAfter (config : Config) (op : ExportOp) (env env' : E) (marks : FileIdentity → Prop)
    (object : FileIdentity) : Prop :=
  B.Present env' object ∧ (marks object ∧ B.Present env object ∨
    WritesFork config (B.tree env) object op ∧
      ∃ node, Linked config (B.tree env).root node object ∧ ¬S.fork env node ∧ S.fork env' node)

/-- The same, after a run of operations. -/
def marksAlong {S' : Sig} (config : Config) : List ExportOp → E → List (S'.Result × Point S' E) →
    (FileIdentity → Prop) → FileIdentity → Prop
  | op :: ops, env, (_, c') :: results, marks =>
    marksAlong config ops c'.env results (S.marksAfter config op env c'.env marks)
  | _, _, _, marks => marks

/-- No file of a fork is left behind: what is removed and has a fork is not a directory, and what is
replaced and has a fork has other links. -/
def Safe (config : Config) (env : E) : ExportOp → Prop
  | .request _ (.removeNode parent name _) =>
    ∀ directory object, Linked config (B.tree env).root parent directory →
      (B.tree env).links directory name = some object →
      S.fork env (config.digests.stableNodeId object) → ¬(B.tree env).isDirectory object
  | .request _ (.renameNode parent name newParent newName .replace) =>
    ∀ directory object, Linked config (B.tree env).root newParent directory →
      (B.tree env).links directory newName = some object →
      S.fork env (config.digests.stableNodeId object) →
      B.outside object ∨ (B.tree env).LinkedElsewhere object directory newName ∨
        ∀ source, Linked config (B.tree env).root parent source →
          (B.tree env).links source name = some object
  | _ => True

variable {S}

theorem tree_root {env env' : E} : (B.tree env').root = (B.tree env).root :=
  (B.root env').trans (B.root env).symm

variable {node : NodeId} {object : FileIdentity} {name : Name} {env' : E}

theorem fork_of_clearFork {env : E} {other : NodeId}
    (h : S.fork (clearFork answer env node) other) : S.fork env other := by
  have hstat : S.fork (answer env (.statFork node)).1 other → S.fork env other := fun h' =>
    (S.appears env _ other h').resolve_right (by simp)
  rw [clearFork] at h
  split at h
  · split at h
    · exact hstat ((S.appears _ _ other h).resolve_right (by simp))
    · exact hstat h
  · exact hstat h

theorem not_fork_clearFork (hremovable : S.Removable) {env : E} :
    ¬S.fork (clearFork answer env node) node := by
  intro h
  obtain ⟨metadata, hmetadata, hfile⟩ := hremovable.found env node (fork_of_clearFork h)
  rw [clearFork, hmetadata] at h
  dsimp only at h
  rw [if_pos hfile] at h
  exact hremovable.removed _ node h

/-! ## What is watched -/

section Watch

variable (S) (config) (op : ExportOp) (env : E) (marks : FileIdentity → Prop)

/-- The objects that had a fork when the operation started. -/
def Forked (object : FileIdentity) : Prop :=
  marks object ∧ B.Present env object ∧
    ∃ node, S.fork env node ∧ Linked config (B.tree env).root node object

/-- What justifies the file of a fork: an object that had it when the operation started, or one that
the operation writes the fork of. -/
def Explained (env' : E) (node : NodeId) : Prop :=
  (∃ object, S.Forked config env marks object ∧ B.Present env' object ∧
      Linked config (B.tree env).root node object) ∨
    ¬S.fork env node ∧ ∃ object, WritesFork config (B.tree env) object op ∧
      B.Present env' object ∧ Linked config (B.tree env).root node object

/-- While the operation is carried out, files of forks are explained. -/
def watch : Watch B where
  kept env' := ∀ node, S.fork env' node → config.persistent = true ∧
    S.Explained config op env marks env' node
  watched object := S.Forked config env marks object ∨ WritesFork config (B.tree env) object op
  described T stat := ∀ directory name, T.links directory name = some stat.identity →
    ¬T.isDirectory stat.identity → 1 < stat.linkCount →
    B.outside stat.identity ∨ T.LinkedElsewhere stat.identity directory name
  keeps env' q hfork hpresent hkept node hnode := by
    obtain hold | ⟨write, rfl⟩ := S.appears env' q node hnode
    · obtain ⟨hpersistent, hexplained⟩ := hkept node hold
      refine ⟨hpersistent, hexplained.imp ?_ (And.imp_right ?_)⟩
      · rintro ⟨object, hforked, hobject, hlinked⟩
        exact ⟨object, hforked, hpresent object (.inl hforked) hobject, hlinked⟩
      · rintro ⟨object, hwrites, hobject, hlinked⟩
        exact ⟨object, hwrites, hpresent object (.inr hwrites) hobject, hlinked⟩
    · cases hfork
  statat := S.statat

end Watch

variable {op : ExportOp} {env : E} {marks : FileIdentity → Prop}

/-- What has a link is not the root, and so it has one node. -/
theorem eq_stableNodeId {directory : FileIdentity} (hlink : T.links directory name = some object)
    (hlinked : Linked config T.root node object) : config.digests.stableNodeId object = node := by
  rw [Linked] at hlinked
  split at hlinked
  · subst hlinked
    exact absurd hlink T.link_ne_root
  · exact hlinked

theorem fork_of_forked {directory : FileIdentity} (h : S.Forked config env marks object)
    (hlink : (B.tree env).links directory name = some object) :
    S.fork env (config.digests.stableNodeId object) := by
  obtain ⟨-, -, node, hfork, hlinked⟩ := h
  rwa [eq_stableNodeId hlink hlinked]

theorem writes_present (h : WritesFork config (B.tree env) object op) : B.Present env object := by
  cases op with
  | newSession | dropSession => exact h.elim
  | request i asked =>
    cases asked with
    | setXattr => exact .inl h.2.1
    | exchangeData =>
      rcases h with ⟨directory, -, hlink⟩ | ⟨directory, -, hlink⟩ <;>
        exact .inl (Hierarchy.live_of_link hlink)
    | _ => exact h.elim

/-- Files of forks that were justified when the operation starts are explained. -/
theorem kept_start (h : S.Justified config marks env) : (S.watch config op env marks).kept env := by
  intro node hfork
  obtain ⟨hpersistent, object, hmarks, hpresent, hlinked⟩ := h node hfork
  exact ⟨hpersistent, .inl ⟨object, ⟨hmarks, hpresent, node, hfork, hlinked⟩, hpresent, hlinked⟩⟩

/-- And those that are explained when it ends are justified. -/
theorem justified_of_kept (h : (S.watch config op env marks).kept env') :
    S.Justified config (S.marksAfter config op env env' marks) env' := by
  intro node hfork
  obtain ⟨hpersistent, hexplained⟩ := h node hfork
  refine ⟨hpersistent, ?_⟩
  rw [tree_root]
  rcases hexplained with ⟨object, hforked, hpresent, hlinked⟩ |
    ⟨hnew, object, hwrites, hpresent, hlinked⟩
  · exact ⟨object, ⟨hpresent, .inl ⟨hforked.1, hforked.2.1⟩⟩, hpresent, hlinked⟩
  · exact ⟨object, ⟨hpresent, .inr ⟨hwrites, node, hlinked, hnew, hfork⟩⟩, hpresent, hlinked⟩

/-! ## Operations -/

/-- A link is removed.  If that was the last one of an object with a fork, then `remove_node`
removes the file of the fork as well. -/
theorem kept_afterRemoval {parent : NodeId} {removeDirectory : Bool}
    (hop : op = .request i (.removeNode parent name removeDirectory)) (hremovable : S.Removable)
    (hstart : S.Justified config marks env) (hsafe : S.Safe config env op) {directory : Fd}
    {stat : Stat} (htree : B.tree env' = B.tree env)
    (hkept : (S.watch config op env marks).kept env')
    (hparent : Linked config (B.tree env).root parent (B.object directory))
    (hlink : (B.tree env).links (B.object directory) name = some stat.identity)
    (hdescribed : (S.watch config op env marks).described (B.tree env) stat)
    (hremoves : (B.tree env).Removes
      (B.tree (answer env' (.unlinkat directory name removeDirectory)).1)
      (B.object directory) name stat.identity) :
    (S.watch config op env marks).kept
      (afterRemoval answer config env' directory name removeDirectory stat) := by
  subst hop
  generalize henv1 : (answer env' (.unlinkat directory name removeDirectory)).1 = env1 at hremoves
  have hothers : ∀ object, object ≠ stat.identity → B.Present env' object → B.Present env1 object :=
    fun object hne => Or.imp_left fun hlive => hremoves.live (htree ▸ hlive) fun h => absurd h hne
  have hfork1 : ∀ node, S.fork env1 node → S.fork env' node := fun node h =>
    (S.appears env' _ node (henv1 ▸ h)).resolve_right (by simp)
  by_cases hgone : S.Forked config env marks stat.identity ∧ ¬B.Present env1 stat.identity
  · -- The object had a fork, and nothing is left of it.
    obtain ⟨hforked, hgone⟩ := hgone
    have hfork := fork_of_forked hforked hlink
    have hlast : stat.linkCount ≤ 1 := by
      by_contra hmore
      have hother := hdescribed _ name hlink (hsafe _ _ hparent hlink hfork) (Nat.lt_of_not_le hmore)
      refine hgone (hother.symm.imp_left fun helsewhere => ?_)
      exact hremoves.live (Hierarchy.live_of_link hlink) fun _ => helsewhere
    rw [afterRemoval, decide_eq_true hlast, (hstart _ hfork).1, henv1, Bool.and_self, if_pos rfl]
    intro node hnode
    have hne : node ≠ config.digests.stableNodeId stat.identity := by
      rintro rfl
      exact not_fork_clearFork hremovable hnode
    obtain ⟨hpersistent, hexplained⟩ := hkept node (hfork1 node (fork_of_clearFork hnode))
    refine ⟨hpersistent, hexplained.imp ?_ ?_⟩
    · rintro ⟨object, hobject, hpresent, hlinked⟩
      have hother : object ≠ stat.identity := by
        rintro rfl
        exact hne (eq_stableNodeId hlink hlinked).symm
      refine ⟨object, hobject, ?_, hlinked⟩
      rw [Backing.Present, tree_clearFork]
      exact hothers object hother hpresent
    · rintro ⟨_, _, hwrites, _⟩
      exact hwrites.elim
  · -- Whatever had a fork is still there.
    have hkept1 : (S.watch config (.request i (.removeNode parent name removeDirectory)) env
        marks).kept env1 := by
      rw [← henv1] at hgone hothers ⊢
      refine Watch.keeps _ env' _ rfl (fun object hwatched hpresent => ?_) hkept
      by_cases hsame : object = stat.identity
      · subst hsame
        exact by_contra fun h => hgone ⟨hwatched.resolve_right id, h⟩
      · exact hothers object hsame hpresent
    rw [afterRemoval, henv1]
    split
    · intro node hnode
      have hcleared := hkept1 node (fork_of_clearFork hnode)
      unfold Explained Backing.Present at hcleared ⊢
      rwa [tree_clearFork]
    · exact hkept1

/-- A link is moved.  What it replaces has other links if it has a fork. -/
theorem kept_renamed {parent newParent : NodeId} {newName : Name} {mode : RenameMode}
    (hop : op = .request i (.renameNode parent name newParent newName mode))
    (hsafe : S.Safe config env op) {directory directory' : Fd}
    (htree : B.tree env' = B.tree env) (hkept : (S.watch config op env marks).kept env')
    (hparent : Linked config (B.tree env).root parent (B.object directory))
    (hparent' : Linked config (B.tree env).root newParent (B.object directory'))
    (hrenames : Renames (B.tree env)
      (B.tree (answer env' (.renameat directory name directory' newName mode)).1)
      (B.object directory) name (B.object directory') newName mode) :
    (S.watch config op env marks).kept
      (answer env' (.renameat directory name directory' newName mode)).1 := by
  subst hop
  refine Watch.keeps _ env' _ rfl (fun object hwatched hpresent => ?_) hkept
  have hforked : S.Forked config env marks object := hwatched.resolve_right id
  obtain ⟨source, hsource, hrenames⟩ := hrenames
  cases mode with
  | replace =>
    dsimp only at hrenames
    split at hrenames
    · rw [Backing.Present, hrenames, ← htree]
      exact hpresent
    rename_i hother
    by_cases houtside : B.outside object
    · exact .inr houtside
    refine .inl (hrenames.live (htree ▸ hpresent.resolve_right houtside) fun hlink hne => ?_)
    rcases hsafe _ object hparent' hlink (fork_of_forked hforked hlink) with hout | helse | hsame
    · exact absurd hout houtside
    · exact helse
    · exact absurd (Option.some.inj ((hsame _ hparent).symm.trans hsource)) hne
  | noReplace =>
    obtain ⟨hfree, hmoves⟩ := hrenames
    refine hpresent.imp_left fun hlive => hmoves.live (htree ▸ hlive) fun hlink => ?_
    rw [hfree] at hlink
    cases hlink
  | exchange =>
    obtain ⟨target, -, hrenames⟩ := hrenames
    split at hrenames
    · rw [Backing.Present, hrenames, ← htree]
      exact hpresent
    · exact hpresent.imp_left fun hlive => hrenames.live (htree ▸ hlive)

/-- The file of a fork is created for an object that the operation writes the fork of. -/
theorem kept_written (hstart : S.Justified config marks env) {write : Bool}
    (hpersistent : config.persistent = true) (hwrites : WritesFork config (B.tree env) object op)
    (hlinked : Linked config (B.tree env).root node object)
    (hpresent : ∀ other, B.Present env other → B.Present env' other)
    (hkept : (S.watch config op env marks).kept env') :
    (S.watch config op env marks).kept (answer env' (.openFork node write true)).1 := by
  intro other hfork
  have htree : B.tree (answer env' (.openFork node write true)).1 = B.tree env' := B.still env' _ rfl
  unfold Explained Backing.Present
  rw [htree]
  obtain hold | ⟨_, hopen⟩ := S.appears env' _ other hfork
  · exact hkept other hold
  cases hopen
  refine ⟨hpersistent, ?_⟩
  by_cases hbefore : S.fork env node
  · obtain ⟨-, owner, hmarks, howner, howned⟩ := hstart node hbefore
    exact .inl ⟨owner, ⟨hmarks, howner, node, hbefore, howned⟩, hpresent owner howner, howned⟩
  · exact .inr ⟨hbefore, object, hwrites, hpresent object (writes_present hwrites), hlinked⟩

section Runs

variable {Env Choice : Type}

/-- The registry is what it is to be. -/
abbrev Orderly (B : Backing answer) (config : Config) (c : Point F.sig E) : Prop :=
  Recorded config (B.tree c.env) c.shared

variable {serve : Env → Choice → (call : HostCall) → Option (Env × call.Answer)}
  {c : Point (exportFrame Env Choice).sig E}

theorem evalOp_justified (hremovable : S.Removable) (horderly : Orderly B config c)
    (hstart : S.Justified config marks c.env) (hsafe : S.Safe config c.env op) :
    ∃ r c', evalOp (server config serve) answer op c = some (r, c') ∧ Orderly B config c' ∧
      S.Justified config (S.marksAfter config op c.env c'.env marks) c'.env := by
  have hadmits : (S.watch config op c.env marks).AdmitsOp config c.env op := by
    cases op with
    | request i asked =>
      exact {
        present := fun _ hwatched => hwatched.elim (fun h => h.2.1) writes_present
        removes := fun _ _ _ hasked _ _ _ htree hkept hparent hlink hdescribed _ hremoves =>
          kept_afterRemoval (congrArg (ExportOp.request i) hasked) hremovable hstart hsafe htree hkept
            hparent hlink hdescribed hremoves
        renames := fun _ _ _ _ _ hasked _ _ _ htree hkept hparent hparent' hrenames =>
          kept_renamed (congrArg (ExportOp.request i) hasked) hsafe htree hkept hparent hparent'
            hrenames
        writes := fun _ _ _ _ hpersistent hwrites hlinked hpresent hkept =>
          kept_written hstart hpersistent hwrites hlinked hpresent hkept }
    | newSession | dropSession => trivial
  obtain ⟨r, c', heval, hsound⟩ := evalOp_sound serve op
    (⟨rfl, horderly, kept_start hstart⟩ : (S.watch config op c.env marks).Sound config c) hadmits
  exact ⟨r, c', heval, hsound.recorded, justified_of_kept hsound.kept⟩

theorem evalOps_justified {ops : List ExportOp} (hremovable : S.Removable)
    (horderly : Orderly B config c) (hstart : S.Justified config marks c.env)
    (hsafe : Along (server config serve) answer (fun c op => S.Safe config c.env op) ops c) :
    ∃ results, evalOps (server config serve) answer ops c = some results ∧
      S.Justified config (S.marksAlong config ops c.env results marks) (lastPoint c results).env := by
  induction ops generalizing c marks with
  | nil => exact ⟨[], rfl, hstart⟩
  | cons _ _ ih =>
    obtain ⟨r, c', heval, horderly', hjustified⟩ :=
      evalOp_justified hremovable horderly hstart hsafe.1
    obtain ⟨results, hrest, hlast⟩ := ih horderly' hjustified (hsafe.2 r c' heval)
    refine ⟨(r, c') :: results, ?_, ?_⟩
    · rw [evalOps, heval]
      simp only [Option.bind_eq_bind, Option.bind_some, hrest, Option.pure_def]
    · rw [lastPoint_cons]
      exact hlast

end Runs

end ForkStore

/-- **The file of a fork is that of an object there is, whose fork was written since it was
created**: after any operations, carried out one at a time, that are the only ones that change the
export, if it was so at the start; as long as no directory with a fork is removed, no last link of
an object with a fork is replaced, and the file of a fork can be removed. -/
theorem forks_justified {Env Choice : Type} (config : Config)
    (serve : Env → Choice → (call : HostCall) → Option (Env × call.Answer))
    (answer : E → (q : HostCall) → E × q.Answer) (B : Backing answer) (S : ForkStore B)
    (hremovable : S.Removable) (volumeName : Bytes) (env : E) (marks : FileIdentity → Prop)
    (hstart : S.Justified config marks env) (ops : List ExportOp)
    (hsafe : Along (server config serve) answer (fun c op => S.Safe config c.env op) ops
      ⟨State.new config (B.object rootFile) volumeName, env, 0⟩) :
    ∃ results, evalOps (server config serve) answer ops
        ⟨State.new config (B.object rootFile) volumeName, env, 0⟩ = some results ∧
      S.Justified config (S.marksAlong config ops env results marks)
        (lastPoint ⟨State.new config (B.object rootFile) volumeName, env, 0⟩ results).env :=
  ForkStore.evalOps_justified hremovable (B.root env ▸ recorded_new volumeName) hstart hsafe

/-! ## A host that gives a number again -/

namespace TreeHost

theorem forks_respond (host : TreeHost) (q : HostCall) (node : NodeId)
    (h : node ∈ (host.respond q).1.forks) :
    node ∈ host.forks ∨ ∃ write, q = .openFork node write true := by
  cases q with
  | openFork _ write =>
    rw [respond, openFork] at h
    split at h
    · exact .inl h
    split at h
    · rename_i hcreate
      rcases List.mem_cons.1 h with rfl | h
      · exact .inr ⟨write, hcreate ▸ rfl⟩
      · exact .inl h
    · exact .inl h
  | removeFork => exact .inl (List.mem_of_mem_filter h)
  | _ => exact .inl h

/-- It keeps the files of forks, and counts the links of an object. -/
def forkStore : ForkStore backing where
  fork host node := node ∈ host.forks
  appears := forks_respond
  fstat host file stat h directory name _ _ hcount := by
    cases Except.ok.inj h
    exact .inr (Table.linkedElsewhere hcount directory name)
  statat host parent entry stat h directory name _ _ hcount := by
    rw [respond] at h
    dsimp only at h
    split at h
    · cases h
      exact .inr (Table.linkedElsewhere hcount directory name)
    · cases h

theorem removable : forkStore.Removable where
  found _ _ h := ⟨_, if_pos h, rfl⟩
  removed _ _ h := of_decide_eq_true (List.mem_filter.1 h).2 rfl

/-- The numbers of what there is. -/
theorem mem_of_present {host : TreeHost} {file : Fd} {found : FileIdentity}
    (hinode : found.inode = file) (hfile : file ≠ rootFile) (h : backing.Present host found) :
    file ∈ host.table.links.map Prod.snd := by
  rcases h with hlive | houtside
  · rcases Hierarchy.live_iff.1 hlive with rfl | ⟨directory, name, hlink⟩
    · exact absurd hinode.symm hfile
    obtain ⟨number, hfind, rfl⟩ := Option.map_eq_some_iff.1 hlink
    cases hinode
    exact List.mem_map_of_mem (f := Prod.snd) (Entries.mem_of_find hfind)
  · exact houtside.elim

/-- The server with a state directory. -/
def forkExport : Config := { smallExport with persistent := true }

def forkServer : Program (exportFrame Unit Unit).sig :=
  server forkExport fun _ _ call => some ((), call.refuse)

def start : Point (exportFrame Unit Unit).sig TreeHost :=
  ⟨State.new forkExport (backing.object rootFile) [], .empty, 0⟩

/-- A file is created in the root: the first one has node 2, and the next one node 3. -/
def create (name : Name) : ExportOp :=
  .request 0 (.createFile rootNode name 420 ⟨.readWrite, false, false⟩)

def writeFork (node : NodeId) : ExportOp :=
  .request 0 (.setXattr node resourceForkName [1] .upsert 0)

/-- The fork of `b` is written, `a` is renamed to `b`, and `c` is created. -/
def replacingRun : List ExportOp :=
  [.newSession true, create [97], create [98], writeFork 3,
    .request 0 (.renameNode rootNode [97] rootNode [98] .replace), create [99],
    .request 0 (.listXattrs 3)]

/-- Nothing has written a fork after the rename, and `b` was gone then. -/
theorem not_justified_of_replaced {t1 t2 t3 t4 : List Fd × List NodeId}
    {results : List ((exportFrame Unit Unit).sig.Result × Point (exportFrame Unit Unit).sig
      TreeHost)}
    (henvs : (results.map fun r => (r.2.env.table.links.map Prod.snd, r.2.env.forks)) =
      [t1, t2, t3, t4, ([1], [3]), ([2, 1], [3]), ([2, 1], [3])]) :
    ¬forkStore.Justified forkExport
      (forkStore.marksAlong forkExport replacingRun start.env results fun _ => False)
      (lastPoint start results).env := by
  intro hjustified
  obtain ⟨⟨_, c1⟩, results, rfl, -, henvs⟩ := List.map_eq_cons_iff.1 henvs
  obtain ⟨⟨_, c2⟩, results, rfl, -, henvs⟩ := List.map_eq_cons_iff.1 henvs
  obtain ⟨⟨_, c3⟩, results, rfl, -, henvs⟩ := List.map_eq_cons_iff.1 henvs
  obtain ⟨⟨_, c4⟩, results, rfl, -, henvs⟩ := List.map_eq_cons_iff.1 henvs
  obtain ⟨⟨_, c5⟩, results, rfl, h5, henvs⟩ := List.map_eq_cons_iff.1 henvs
  obtain ⟨⟨_, c6⟩, results, rfl, -, henvs⟩ := List.map_eq_cons_iff.1 henvs
  obtain ⟨⟨_, c7⟩, results, rfl, h7, henvs⟩ := List.map_eq_cons_iff.1 henvs
  cases List.map_eq_nil_iff.1 henvs
  have hfork : forkStore.fork c7.env 3 := by
    change 3 ∈ c7.env.forks
    rw [(Prod.mk.inj h7).2]
    exact List.mem_singleton_self 3
  obtain ⟨-, object, hmarks, -, hlinked⟩ := hjustified 3 hfork
  simp only [replacingRun, ForkStore.marksAlong, create] at hmarks
  obtain ⟨-, ⟨hmarks, -⟩ | ⟨hwrites, -⟩⟩ := hmarks
  · obtain ⟨-, ⟨-, hpresent⟩ | ⟨hwrites, -⟩⟩ := hmarks
    · have hmem := mem_of_present (Nat.succ.inj hlinked) (by decide) hpresent
      rw [(Prod.mk.inj h5).1] at hmem
      cases List.mem_singleton.1 hmem
    · exact hwrites
  · exact hwrites

end TreeHost

open TreeHost in
/-- A file with a fork is created, written and removed, and its number is given to another. -/
theorem forks_justified_after_removal :
    let ops := [.newSession true, create [97], writeFork 2,
      .request 0 (.removeNode rootNode [97] false), create [98], .request 0 (.listXattrs 2)]
    forkStore.Removable ∧ forkStore.Justified forkExport (fun _ => False) start.env ∧
      ∃ results, evalOps forkServer respond ops start = some results ∧
        forkStore.Justified forkExport
          (forkStore.marksAlong forkExport ops start.env results fun _ => False)
          (lastPoint start results).env := by
  intro ops
  have hstart : forkStore.Justified forkExport (fun _ => False) start.env := by
    intro node hfork
    cases hfork
  refine ⟨removable, hstart, forks_justified forkExport _ respond backing forkStore removable [] _ _
    hstart ops ⟨trivial, fun _ _ h1 => ⟨trivial, fun _ _ h2 => ⟨trivial, fun _ c h3 => ⟨?_,
      fun _ _ _ => ⟨trivial, fun _ _ _ => ⟨trivial, fun _ _ _ => trivial⟩⟩⟩⟩⟩⟩⟩
  -- The root is the only directory there is.
  have hdirectories : (evalOps forkServer respond (ops.take 3) start).map (fun results =>
      (lastPoint start results).env.table.directories) = some [rootFile] := by
    decide +kernel
  have hthree : evalOps forkServer respond (ops.take 3) start = some [_, _, (_, c)] :=
    evalOps_cons h1 (evalOps_cons h2 (evalOps_cons h3 rfl))
  rw [hthree] at hdirectories
  have hroot : c.env.table.directories = [rootFile] := Option.some.inj hdirectories
  rintro directory _ - hlink - hdirectory
  obtain ⟨file, hfile, rfl⟩ := List.mem_map.1 hdirectory
  rw [hroot] at hfile
  cases List.mem_singleton.1 hfile
  exact c.env.table.tree.link_ne_root hlink

open TreeHost in
/-- The fork of `b` is written, and `a` is renamed to `b`.  The new file `c` has the number that `b`
had, and shows a fork that has not been written since `c` was created. -/
theorem new_file_shows_old_fork :
    ∃ results, evalOps forkServer respond replacingRun start = some results ∧
      results.getLast?.map Prod.fst = some (.ok (.names [resourceForkName])) ∧
      ¬forkStore.Justified forkExport
        (forkStore.marksAlong forkExport replacingRun start.env results fun _ => False)
        (lastPoint start results).env := by
  have heval : (evalOps forkServer respond replacingRun start).map (fun results =>
      (results.map fun r => (r.2.env.table.links.map Prod.snd, r.2.env.forks),
        results.getLast?.map Prod.fst)) =
      some ([([], []), ([1], []), ([2, 1], []), ([2, 1], [3]), ([1], [3]), ([2, 1], [3]),
        ([2, 1], [3])], some (.ok (.names [resourceForkName]))) := by
    decide +kernel
  obtain ⟨results, hresults, heq⟩ := Option.map_eq_some_iff.1 heval
  obtain ⟨henvs, hlast⟩ := Prod.mk.inj heq
  exact ⟨results, hresults, hlast, not_justified_of_replaced henvs⟩

end QuickFS.Export
