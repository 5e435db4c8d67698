import QuickFS.Export.Standing
import QuickFS.Export.TreeHost

/-!
# The paths of the registry

Requests carried out one at a time are the only ones that change the tree.  Then the registry is at
every moment what it is to be (`Recorded`), and the proof goes through the requests.  A call that
changes the tree comes with a change of the registry, if it has to; what is recorded before is true
of the tree before, and what is recorded after is true of the tree after.

What is watched besides may be unsettled by removals, by renames and by requests that write forks;
`Admits` says what is required of them.  For the paths nothing is watched (`paths_resolve`).
-/

namespace QuickFS.Export

open Server Async
open Call (Yields Wp)

variable {F : Frame} {E : Type} {answer : E → (q : HostCall) → E × q.Answer} {B : Backing answer}
  {config : Config} {i : ℕ} {α : Type} {W : Watch B} {T : Tree}

/-! ## Creating -/

variable {m : Run F α} {parent node : NodeId} {name : Name} {β : Type} {mode : ℕ} {newName : Name}
  {c : Point F.sig E}

theorem Leaves.sound (h : Leaves W config m) : Yields answer (W.Sound config) m fun _ => True :=
  fun c hc => ((h _).maintains c hc).conseq fun _ _ hc' => ⟨hc'.sound, fun _ _ => trivial⟩

/-- After a call that adds a link if it succeeds. -/
theorem Watch.Stands.adds (h : W.Stands config T c) {q : HostCall} (hfork : q.createsFork = false)
    {outcome : Except Errno β} {change : β → Tree → Tree → Prop}
    (hchanges : Changes B.tree c.env ((answer c.env q).1, outcome) change)
    (hadds : ∀ b T', change b T T' → ∃ directory name object, T.Adds T' directory name object) :
    W.Sound config { c with env := (answer c.env q).1 } := by
  cases outcome with
  | error => exact (h.same hfork hchanges).sound
  | ok b =>
    have hchange : change b (B.tree c.env) (B.tree (answer c.env q).1) := hchanges
    rw [h.tree] at hchange
    obtain ⟨directory, name, object, hadded⟩ := hadds b _ hchange
    exact ⟨rfl, h.recorded.adds hadded,
      W.keeps c.env q hfork (fun _ _ => Or.imp_left fun hlive => hadded.live (h.tree ▸ hlive))
        h.kept⟩

/-- What comes after a call that leaves the tree as it is. -/
theorem Watch.Stands.bind (hc : W.Stands config T c) {m0 : Run F β} {f : β → Run F α} {R : β → Prop}
    (hm : Yields answer (W.Stands config T) m0 R)
    (hf : ∀ b c', W.Stands config T c' → R b → Wp answer (f b) c' fun _ c'' => W.Sound config c'') :
    Wp answer (m0 >>= f) c fun _ c' => W.Sound config c' :=
  hm.bind_wp hc hf fun _ _ h => h.sound

/-- If it succeeds, there is something at a path that it returns. -/
def Places (W : Watch B) (config : Config) (m : Run F α) (made : α → PathBuf × FileIdentity) : Prop :=
  ∀ c, W.Sound config c → Wp answer m c fun r c' => W.Sound config c' ∧
    ∀ a, r = .ok a → (B.tree c'.env).resolve (made a).1 = some (made a).2

theorem Places.releasing {made : α → PathBuf × FileIdentity} (h : Places W config m made)
    {release : State → State} (hrelease : ∀ s, Subsides s (release s)) :
    Places W config (releasing release m) made := by
  refine fun c hc => wp_releasing ((h c hc).conseq fun r c' hr => ?_)
  cases r with
  | ok => exact hr
  | error => exact ⟨hr.1.shared (hrelease _), nofun⟩

theorem Places.bind {m : Run F β} {made : β → PathBuf × FileIdentity} (h : Places W config m made)
    {f : β → Run F α}
    (hf : ∀ b T, T.resolve (made b).1 = some (made b).2 →
      Yields answer (W.Stands config T) (f b) fun _ => True) :
    Yields answer (W.Sound config) (m >>= f) fun _ => True := by
  refine fun c hc => Wp.bind ((h c hc).conseq fun r c' hr => ?_)
  cases r with
  | ok b =>
    exact (hf b _ (hr.2 b rfl) c' hr.1).conseq fun _ _ h' => ⟨h'.1.sound, fun _ _ => trivial⟩
  | error => exact ⟨hr.1, nofun⟩

theorem subsides_dropNodePermits (s : State) : Subsides s (dropNodePermits i s) :=
  (loses_dropSessionPermit i s).toSubsides.trans (subsides_of_eq rfl rfl)

theorem places_makeFile (parent : NodeId) (hname : isNormal name = true) (mode : ℕ)
    (options : FileOpenOptions) :
    Places W config (makeFile config i parent name mode options : Run F (Fd × PathBuf × Stat))
      fun made => (made.2.1, made.2.2.identity) := by
  refine fun c hc => ((looks_openParentNode parent).yields W.sight_of).bind_wp hc
    (fun opened c1 hc1 hopened => ?_) fun _ _ h => ⟨h.sound, nofun⟩
  generalize hT : B.tree c.env = T at hc1 hopened
  have hpath := hc1.located_iff.1 hopened.1
  let flags : OFlags := { OFlags.openFlags options.access options.append with
      create := true, excl := true, nofollow := true }
  have hcreate := B.create c1.env opened.1 name flags (mode % 4096) hname rfl rfl
  have hsound := hc1.adds (q := .openat opened.1 name flags (mode % 4096)) rfl hcreate
    fun _ _ h => ⟨_, _, _, h.2.2⟩
  refine Wp.bind (wp_system ?_)
  rw [Changes] at hcreate
  dsimp only [id]
  split
  · rename_i file hfile
    rw [hfile] at hcreate
    have hadds : T.Adds _ _ _ _ := hc1.tree ▸ hcreate.2.2
    refine (Looks.fstat.yields W.sight_of).bind_wp hsound (fun stat c2 hc2 hstat =>
      Wp.pure ⟨hc2.sound, fun made hmade => ?_⟩) fun _ _ h => ⟨h.sound, nofun⟩
    cases hmade
    rw [hc2.tree]
    dsimp only
    rw [hstat]
    exact (Hierarchy.resolve_concat (hadds.resolve hpath)).trans hadds.added
  · exact ⟨hsound, nofun⟩

theorem sound_createFile {options : FileOpenOptions} :
    Yields answer (W.Sound config) (createFile config i parent name mode options :
      Run F (Metadata × FileHandle × FileRevision × ℕ)) fun _ => True := by
  refine yields_requireWritable.seq fun _ => (yields_validateName name).bind fun _ hname =>
    yields_ofExcept.seq fun _ =>
      (Looks.leaves fun _ => .loses loses_takeHandlePermit).sound.seq fun _ =>
        yields_releasing ((Looks.leaves fun _ => looks_reserveNode).sound.seq fun _ => ?_)
          fun c hc => hc.shared (subsides_of_eq rfl rfl)
  refine ((places_makeFile parent hname mode options).releasing subsides_dropNodePermits).bind
    fun made T hmade => fun c hc => ?_
  exact ((Looks.yields W.sight_of (looks_rememberReserved (hc.located_iff.2 hmade))).seq fun node =>
    ((looks_insertHandle _).yields W.sight_of).seq fun _ => Yields.pure trivial) c hc

theorem places_makeDirectory (parent : NodeId) (hname : isNormal name = true) (mode : ℕ) :
    Places W config (makeDirectory config i parent name mode : Run F (PathBuf × Stat))
      fun made => (made.1, made.2.identity) := by
  refine fun c hc => ((looks_openParentNode parent).yields W.sight_of).bind_wp hc
    (fun opened c1 hc1 _ => ?_) fun _ _ h => ⟨h.sound, nofun⟩
  have hsound := hc1.adds (q := .mkdirat opened.1 name (mode % 4096)) rfl
    (B.mkdirat c1.env opened.1 name (mode % 4096) hname) fun _ _ ⟨_, h⟩ => ⟨_, _, _, h.2.2⟩
  refine Wp.bind (wp_system ?_)
  dsimp only [id]
  split
  · refine ((looks_openRelative W.sight_of.view.held_root _ rfl).yields W.sight_of).bind_wp hsound
      (fun found c2 hc2 hfound => Wp.pure ⟨hc2.sound, fun made hmade => ?_⟩)
      fun _ _ h => ⟨h.sound, nofun⟩
    cases hmade
    rw [hc2.tree]
    exact hc2.located_iff.1 (View.found_file _ hfound.2.1 hfound.2.2)
  · exact ⟨hsound, nofun⟩

theorem sound_createDirectory :
    Yields answer (W.Sound config) (createDirectory config i parent name mode : Run F Metadata)
      fun _ => True := by
  refine yields_requireWritable.seq fun _ => (yields_validateName name).bind fun _ hname =>
    (Looks.leaves fun _ => looks_reserveNode).sound.seq fun _ => ?_
  refine ((places_makeDirectory parent hname mode).releasing subsides_dropNodePermits).bind
    fun made T hmade => fun c hc => ?_
  exact ((Looks.yields W.sight_of (looks_rememberReserved (hc.located_iff.2 hmade))).seq fun node =>
    Yields.pure trivial) c hc

theorem places_makeNode (parent : NodeId) (name : Name) {make : Fd → HostCall}
    {read : (directory : Fd) → (make directory).Answer → Except Errno Unit}
    (hmake : ∀ T (c : Point F.sig E) directory, W.Stands config T c →
      W.Sound config { c with env := (answer c.env (make directory)).1 }) :
    Places W config (makeNode config i parent name make read : Run F (PathBuf × Stat))
      fun made => (made.1, made.2.identity) := by
  refine fun c hc => ((looks_openParentNode parent).yields W.sight_of).bind_wp hc
    (fun opened c1 hc1 _ => ?_) fun _ _ h => ⟨h.sound, nofun⟩
  have hsound := hmake _ c1 opened.1 hc1
  refine Wp.bind (wp_system ?_)
  split
  · refine ((looks_secureLstat W.sight_of.view.held_root _).yields W.sight_of).bind_wp hsound
      (fun stat c2 hc2 hstat => Wp.pure ⟨hc2.sound, fun made hmade => ?_⟩)
      fun _ _ h => ⟨h.sound, nofun⟩
    cases hmade
    rw [hc2.tree]
    exact hc2.located_iff.1 hstat
  · exact ⟨hsound, nofun⟩

/-- The end of `create_symlink` and of `create_special_node`. -/
theorem Places.remembered {m : Run F (PathBuf × Stat)}
    (h : Places W config m fun made => (made.1, made.2.identity)) :
    Yields answer (W.Sound config) (do
      let (path, stat) ← Export.releasing (dropNodePermits i) m
      let node ← rememberReserved config i stat.identity path
      metadata config i node : Run F Metadata) fun _ => True := by
  refine (h.releasing subsides_dropNodePermits).bind fun made T hmade => fun c hc => ?_
  exact ((Looks.yields W.sight_of (looks_rememberReserved (hc.located_iff.2 hmade))).seq fun node =>
    looks_metadata.yields W.sight_of) c hc

theorem sound_createSymlink {target : Bytes} :
    Yields answer (W.Sound config) (createSymlink config i parent name target : Run F Metadata)
      fun _ => True :=
  yields_requireWritable.seq fun _ => (yields_validateName name).bind fun _ hname =>
    yields_ofExcept.seq fun _ => (Looks.leaves fun _ => looks_reserveNode).sound.seq fun _ =>
      (places_makeNode parent name fun _ c directory hc => hc.adds rfl
        (B.symlinkat c.env target directory name hname) fun _ _ ⟨_, h⟩ => ⟨_, _, _, h.2.2⟩).remembered

theorem sound_createSpecialNode {kind : SpecialNodeKind} {deviceMajor deviceMinor : ℕ} :
    Yields answer (W.Sound config)
      (createSpecialNode config i parent name kind mode deviceMajor deviceMinor : Run F Metadata)
      fun _ => True :=
  yields_requireWritable.seq fun _ => (yields_validateName name).bind fun _ hname =>
    (Looks.leaves fun _ => looks_reserveNode).sound.seq fun _ =>
      (places_makeNode parent name fun _ c directory hc => hc.adds rfl
        (B.mknodat c.env directory name kind _ deviceMajor deviceMinor hname)
        fun _ _ ⟨_, h⟩ => ⟨_, _, _, h.2.2⟩).remembered

theorem sound_linkFrom {source : NodeSnapshot} {directory : Fd} {path : PathBuf}
    (hname : isNormal newName = true) {paths : List PathBuf} (hc : W.Stands config T c)
    (hpath : T.resolve path = some (B.object directory)) :
    Wp answer (linkFrom config i node source directory (path ++ [newName]) newName paths :
      Run F Metadata) c fun _ c' => W.Sound config c' := by
  induction paths generalizing c with
  | nil => exact Wp.throw hc.sound
  | cons first _ ih =>
    rw [linkFrom]
    split
    · exact Wp.throw hc.sound
    refine Yields.bind_wp
      ((looks_secureLstat W.sight_of.view.held_root first).yields W.sight_of).attempt hc
      (fun outcome c1 hc1 houtcome => ?_) fun _ _ h => h.sound
    split
    · exact ih hc1
    rename_i stat
    split
    · exact ih hc1
    rename_i hidentity
    rw [not_not] at hidentity
    refine hc1.bind yields_ofExcept fun kind c2 hc2 _ => ?_
    split
    · exact Wp.throw hc2.sound
    refine Yields.bind_wp
      ((looks_openParent W.sight_of.view.held_root first).yields W.sight_of) hc2
      (fun parent c3 hc3 hparent => ?_) fun _ _ h => h.sound
    obtain ⟨hsplit, hnormal, hleads⟩ := hparent
    -- What is linked is what the path led to.
    have hfirst : T.resolve first = some source.identity :=
      hidentity ▸ hc1.located_iff.1 (houtcome stat rfl)
    have hparent : T.resolve first.dropLast = some (B.object parent.1) :=
      hc3.located_iff.1 hleads
    have hlink : T.links (B.object parent.1) parent.2 = some source.identity := by
      rw [← Hierarchy.resolve_concat hparent, ← hsplit]
      exact hfirst
    have hchanges := B.linkat c3.env parent.1 parent.2 directory newName hnormal hname
    have hsound := hc3.adds (q := .linkat parent.1 parent.2 directory newName) rfl hchanges
      fun _ _ h => h.elim fun _ h => ⟨_, _, _, h.2⟩
    refine Wp.bind (wp_system ?_)
    rw [Changes] at hchanges
    dsimp only [id]
    split
    · rename_i hok
      rw [hok, hc3.tree] at hchanges
      obtain ⟨linked, hlinked, hadds⟩ := hchanges
      cases hlink.symm.trans hlinked
      have hplaced := (Hierarchy.resolve_concat (hadds.resolve hpath)).trans hadds.added
      exact (((Looks.yields W.sight_of (looks_remember (hsound.located_iff.2 hplaced))).seq fun _ =>
        looks_metadata.yields W.sight_of) _ hsound).conseq fun _ _ h => h.1.sound
    · exact hsound

theorem sound_createHardLink {newParent : NodeId} :
    Yields answer (W.Sound config)
      (createHardLink config i node newParent newName : Run F Metadata) fun _ => True := by
  refine yields_requireWritable.seq fun _ => (yields_validateName newName).bind fun _ hname =>
    fun c hc => ((looks_nodeSnapshot node).yields W.sight_of).bind_wp hc (fun source c1 hc1 _ => ?_)
      fun _ _ h => ⟨h.sound, nofun⟩
  refine ((looks_openParentNode newParent).yields W.sight_of).bind_wp hc1
    (fun opened c2 hc2 hopened => ?_) fun _ _ h => ⟨h.sound, nofun⟩
  exact (sound_linkFrom hname hc2 (hc2.located_iff.1 hopened.1)).conseq
    fun _ _ h => ⟨h, fun _ _ => trivial⟩

/-! ## What is required -/

/-- The objects whose forks a request may write. -/
def Request.WritesFork (config : Config) (T : Tree) (asked : Request) (object : FileIdentity) : Prop :=
  match asked with
  | .setXattr node name _ _ _ =>
    isResourceFork name = true ∧ T.Live object ∧ Linked config T.root node object
  | .exchangeData parent name newParent newName _ =>
    (∃ directory, Linked config T.root parent directory ∧ T.links directory name = some object) ∨
      ∃ directory, Linked config T.root newParent directory ∧ T.links directory newName = some object
  | _ => False

/-- The host after `remove_resource_fork`. -/
def clearFork (answer : E → (q : HostCall) → E × q.Answer) (env : E) (node : NodeId) : E :=
  match (answer env (.statFork node)).2 with
  | .ok metadata =>
    if metadata.isFile then (answer (answer env (.statFork node)).1 (.removeFork node)).1
    else (answer env (.statFork node)).1
  | .error _ => (answer env (.statFork node)).1

/-- The host after what `remove_node` does once it has looked. -/
def afterRemoval (answer : E → (q : HostCall) → E × q.Answer) (config : Config) (env : E)
    (directory : Fd) (name : Name) (removeDirectory : Bool) (stat : Stat) : E :=
  if decide (stat.linkCount ≤ 1) && config.persistent then
    clearFork answer (answer env (.unlinkat directory name removeDirectory)).1
      (config.digests.stableNodeId stat.identity)
  else (answer env (.unlinkat directory name removeDirectory)).1

/-- **What is watched is not unsettled by a request** that starts here. -/
structure Watch.Admits (W : Watch B) (config : Config) (env : E) (asked : Request) : Prop where
  present : ∀ object, W.watched object → B.Present env object
  removes : ∀ parent name removeDirectory, asked = .removeNode parent name removeDirectory →
    ∀ env' directory stat, B.tree env' = B.tree env → W.kept env' →
    Linked config (B.tree env).root parent (B.object directory) →
    (B.tree env).links (B.object directory) name = some stat.identity →
    W.described (B.tree env) stat →
    (answer env' (.unlinkat directory name removeDirectory)).2 = .ok () →
    (B.tree env).Removes (B.tree (answer env' (.unlinkat directory name removeDirectory)).1)
      (B.object directory) name stat.identity →
    W.kept (afterRemoval answer config env' directory name removeDirectory stat)
  renames : ∀ parent name newParent newName mode,
    asked = .renameNode parent name newParent newName mode →
    ∀ env' directory directory', B.tree env' = B.tree env → W.kept env' →
    Linked config (B.tree env).root parent (B.object directory) →
    Linked config (B.tree env).root newParent (B.object directory') →
    Renames (B.tree env) (B.tree (answer env' (.renameat directory name directory' newName mode)).1)
      (B.object directory) name (B.object directory') newName mode →
    W.kept (answer env' (.renameat directory name directory' newName mode)).1
  writes : ∀ env' node object write, config.persistent = true →
    asked.WritesFork config (B.tree env) object → Linked config (B.tree env).root node object →
    (∀ other, B.Present env other → B.Present env' other) → W.kept env' →
    W.kept (answer env' (.openFork node write true)).1

/-! ## Removing and renaming -/

section Requests

variable {c : Point F.sig E}

variable {s : State} {node parent : NodeId} {T' : Tree} {name : Name} {newParent : NodeId}
  {newName : Name} {left right : NodeId}

theorem Watch.Stands.linked (h : W.Stands config T c) {object : FileIdentity}
    (hnode : (W.sight T).Named config node object) : Linked config T.root node object :=
  h.root ▸ hnode

theorem tree_clearFork (env : E) (node : NodeId) :
    B.tree (clearFork answer env node) = B.tree env := by
  have hstat : B.tree (answer env (.statFork node)).1 = B.tree env := B.still env _ rfl
  rw [clearFork]
  split
  · split
    · exact (B.still _ (.removeFork node) rfl).trans hstat
    · exact hstat
  · exact hstat

theorem wp_clearFork :
    Wp answer (do
      let _ ← Call.attempt (removeResourceFork node : Run F Unit)
      pure () : Run F Unit) c
      fun _ c' => c' = { c with env := clearFork answer c.env node } := by
  refine Wp.bind (Wp.attempt (Wp.bind (Wp.bind_ask ?_)))
  split
  · rename_i metadata hmetadata
    have hclear : clearFork answer c.env node = if metadata.isFile then
        (answer (answer c.env (.statFork node)).1 (.removeFork node)).1
      else (answer c.env (.statFork node)).1 := by
      rw [clearFork, hmetadata]
    split
    · rename_i hfile
      rw [if_pos hfile] at hclear
      refine Wp.pure (wp_system ?_)
      rw [hclear]
      split <;> exact Wp.pure rfl
    · rename_i hfile
      rw [if_neg hfile] at hclear
      rw [hclear]
      exact Wp.throw (Wp.pure rfl)
  · rename_i hnoent
    rw [clearFork, hnoent]
    exact Wp.pure (Wp.throw (Wp.pure rfl))
  · rename_i errno _ herrno
    rw [clearFork, herrno]
    exact Wp.throw (Wp.pure rfl)

theorem sound_removeNode {directory : Bool} (hc : W.Sound config c)
    (hadmits : W.Admits config c.env (.removeNode parent name directory)) :
    Wp answer (removeNode config i parent name directory : Run F Unit) c
      fun _ c' => W.Sound config c' := by
  rw [Watch.Sound] at hc
  refine hc.bind yields_requireWritable fun _ c1 hc1 _ => ?_
  refine hc1.bind (yields_validateName name) fun _ c2 hc2 hname => ?_
  refine hc2.bind ((looks_openParentNode parent).yields W.sight_of) fun opened c3 hc3 hopened => ?_
  refine hc3.bind (yields_statat W.sight_of opened.1 name) fun stat c4 hc4 hstat => ?_
  refine hc4.bind yields_ofExcept fun kind c5 hc5 _ => ?_
  split
  · exact Wp.throw hc5.sound
  split
  · exact Wp.throw hc5.sound
  have hchanges := B.unlinkat c5.env opened.1 name directory hname
  refine Wp.bind (wp_system ?_)
  rw [Changes] at hchanges
  dsimp only [id]
  split
  · rename_i hok
    rw [hok, hc5.tree] at hchanges
    obtain ⟨removed, hremoves⟩ := hchanges
    cases hremoves.link.symm.trans (hstat.2 hname)
    obtain ⟨hpath, _, hparent, rfl⟩ := hopened
    have hkept := hadmits.removes parent name directory rfl c5.env opened.1 stat hc5.tree hc5.kept
      (hc5.linked hparent) (hstat.2 hname) hstat.1 hok hremoves
    refine Wp.bind (wp_atomically ?_)
    have hrecorded := hc5.recorded.removeRegistryPath hremoves (hc5.located_iff.1 hpath) directory
    rw [afterRemoval] at hkept
    unfold provided
    dsimp only
    split at hkept
    · rename_i hlast
      rw [if_pos hlast]
      refine wp_clearFork.conseq fun _ c' hc' => ?_
      subst hc'
      exact ⟨rfl, (tree_clearFork (B := B) _ _).symm ▸ hrecorded, hkept⟩
    · rename_i hlast
      rw [if_neg hlast]
      exact Wp.pure ⟨rfl, hrecorded, hkept⟩
  · rename_i errno herrno
    rw [herrno] at hchanges
    exact (hc5.same rfl hchanges).sound

theorem yields_destinationIdentity {directory : Fd} (hname : isNormal name = true) :
    Yields answer (W.Stands config T)
      (destinationIdentity directory name : Run F (Option FileIdentity))
      fun destination => destination = T.links (B.object directory) name := by
  refine Yields.bind (R := fun found : Except Errno Stat =>
    (∀ stat, found = .ok stat → T.links (B.object directory) name = some stat.identity) ∧
      (found = .error .noent → T.links (B.object directory) name = none))
    (Yields.ask fun c hc => ⟨hc.call rfl rfl, fun stat hstat => ?_, fun hnoent => ?_⟩)
    fun found hfound => ?_
  · exact hc.tree ▸ B.statat c.env directory name stat hname hstat
  · exact hc.tree ▸ B.absent c.env directory name hname hnoent
  split
  · rename_i stat
    exact Yields.pure (hfound.1 stat rfl).symm
  · exact Yields.pure (hfound.2 rfl).symm
  · exact Yields.throw

theorem sound_renameNode {mode : RenameMode} (hc : W.Sound config c)
    (hadmits : W.Admits config c.env (.renameNode parent name newParent newName mode)) :
    Wp answer (renameNode config i parent name newParent newName mode : Run F Unit) c
      fun _ c' => W.Sound config c' := by
  rw [Watch.Sound] at hc
  refine hc.bind yields_requireWritable fun _ c1 hc1 _ => ?_
  refine hc1.bind (yields_validateName name) fun _ c2 hc2 hname => ?_
  refine hc2.bind (yields_validateName newName) fun _ c3 hc3 hname' => ?_
  refine hc3.bind ((looks_nodeSnapshot parent).yields W.sight_of) fun old c4 hc4 hold => ?_
  refine hc4.bind ((looks_nodeSnapshot newParent).yields W.sight_of) fun new c5 hc5 hnew => ?_
  refine hc5.bind ((looks_openSnapshot old rfl _).yields W.sight_of) fun opened c6 hc6 hopened => ?_
  refine hc6.bind ((looks_openSnapshot new rfl _).yields W.sight_of)
    fun opened' c7 hc7 hopened' => ?_
  refine hc7.bind (yields_statat W.sight_of opened.1 name) fun source c8 hc8 hsource => ?_
  refine hc8.bind (yields_destinationIdentity hname') fun destination c9 hc9 hdestination => ?_
  subst hdestination
  have hchanges := B.renameat c9.env opened.1 name opened'.1 newName mode hname hname'
  refine Wp.bind (wp_system ?_)
  rw [Changes] at hchanges
  dsimp only [id]
  split
  · rename_i hok
    rw [hok, hc9.tree] at hchanges
    have hdirectory : old.identity = B.object opened.1 := hopened.file
    have hdirectory' : new.identity = B.object opened'.1 := hopened'.file
    exact wp_atomically ⟨rfl, hc9.recorded.updateRegistryAfterRename hchanges
      (hc9.located_iff.1 hopened.held) (hc9.located_iff.1 hopened'.held) (hsource.2 hname),
      hadmits.renames parent name newParent newName mode rfl c9.env opened.1 opened'.1 hc9.tree
        hc9.kept (hdirectory ▸ hc9.linked (View.named_known _ hold))
        (hdirectory' ▸ hc9.linked (View.named_known _ hnew)) hchanges⟩
  · rename_i errno herrno
    rw [herrno] at hchanges
    exact (hc9.same rfl hchanges).sound

/-! ## Forks -/

/-- The object of a node is there, and it is the node's. -/
theorem yields_nodeSnapshot_live :
    Yields answer (W.Stands config T) (nodeSnapshot config i node : Run F NodeSnapshot)
      fun snapshot => T.Live snapshot.identity ∧ Linked config T.root node snapshot.identity := by
  refine ((looks_nodeSnapshot node).yields W.sight_of).conseq fun snapshot hknown => ?_
  obtain ⟨c, hc, known, hfind, rfl⟩ := hknown
  exact ⟨hc.recorded.live hfind, hc.recorded.registered.named node known hfind⟩

theorem sound_setXattr {value : Bytes} {mode : XattrSetMode} {position : ℕ} (hc : W.Sound config c)
    (hadmits : W.Admits config c.env (.setXattr node name value mode position)) :
    Wp answer (setXattr config i node name value mode position : Run F Unit) c
      fun _ c' => W.Sound config c' := by
  rw [Watch.Sound] at hc
  refine hc.bind yields_requireWritable fun _ c1 hc1 _ => ?_
  refine hc1.bind yields_ofExcept fun _ c2 hc2 _ => ?_
  split
  · exact Wp.throw hc2.sound
  refine hc2.bind yields_nodeSnapshot_live fun snapshot c3 hc3 hsnapshot => ?_
  split
  · rename_i hfork
    rw [Bool.and_eq_true] at hfork
    obtain ⟨hname, hpersistent⟩ := hfork
    have hplain : Plain True (· = node) (writeResourceFork node value mode position : Run F Unit) :=
      plain_writeResourceFork trivial (by exact rfl) value mode position
    refine (Watch.plain_maintains hplain (fun q hfile hforks c4 hc4 => ?_) c3 hc3).conseq
      fun _ _ => Watch.Stands.sound
    by_cases hcreates : q.createsFork = true
    · obtain ⟨owner, write, rfl⟩ := HostCall.exists_of_createsFork hcreates
      cases hforks owner write rfl
      refine ⟨(B.still c4.env _ rfl).trans hc4.tree, hc4.recorded, ?_⟩
      exact hadmits.writes c4.env node snapshot.identity write hpersistent ⟨hname, hsnapshot⟩
        hsnapshot.2 (fun _ => Or.imp_left fun hlive => hc4.tree.symm ▸ hlive) hc4.kept
    · exact hc4.call (HostCall.relinks_of_byFile hfile) (Bool.eq_false_iff.2 hcreates)
  · refine hc3.bind (looks_openXattrFile.yields W.sight_of) fun file c4 hc4 _ => ?_
    refine hc4.bind yields_ofExcept fun hostName c5 hc5 _ => ?_
    exact ((placid_setHostXattr (i := i) trivial file hostName value mode position).leaves _ c5 hc5).conseq
      fun _ _ h => h.1.sound

/-- An entry that was found has the node of what the directory has under its name. -/
theorem yields_findEntry (hroot : T.root = B.object rootFile) :
    Yields answer (W.Stands config T) (findEntry config i parent name : Run F DirectoryEntry)
      fun entry => ∃ directory object, Linked config T.root parent directory ∧
        T.links directory name = some object ∧ Linked config T.root entry.node object := by
  refine (looks_listWithRevision.yields W.sight_of).bind fun found hfound => ?_
  obtain ⟨revision, entries⟩ := found
  obtain ⟨_, _, hparent, rfl, hlisted⟩ := hfound
  dsimp only at hlisted ⊢
  split
  · rename_i entry hentry
    have hname : entry.name = name := by simpa using List.find?_some hentry
    obtain ⟨object, hchild, hnode⟩ := hlisted entry (List.mem_of_find?_eq_some hentry)
    exact Yields.pure ⟨_, object, hroot ▸ hparent, hname ▸ hchild, hroot ▸ hnode⟩
  · exact Yields.throw

/-- Nothing is done to the registry while files are exchanged: it is as it was in the tree `T`,
before the temporary file was added. -/
structure Watch.Exchanging (W : Watch B) (s : State) (T' : Tree) (c : Point F.sig E) : Prop where
  tree : B.tree c.env = T'
  shared : c.shared = s
  kept : W.kept c.env

theorem Watch.Exchanging.call (h : W.Exchanging s T' c) {q : HostCall} (hlinks : q.relinks = false)
    (hfork : q.createsFork = false) : W.Exchanging s T' { c with env := (answer c.env q).1 } := by
  have htree := B.still c.env q hlinks
  exact ⟨htree.trans h.tree, h.shared,
    W.keeps c.env q hfork (fun _ _ => Or.imp_left fun hlive => htree.symm ▸ hlive) h.kept⟩

/-- The end of `exchange_data`: the temporary file is removed, if that does not fail. -/
theorem sound_exchangeFiles {leftFile rightFile temporary root : Fd} {made : FileIdentity}
    (hname : isNormal name = true) (hrecorded : Recorded config T s)
    (hadds : T.Adds T' (B.object root) name made) (hmade : ¬W.watched made)
    (hforks : ∀ (c : Point F.sig E) node write, W.Exchanging s T' c → config.persistent = true →
      node = left ∨ node = right → W.kept (answer c.env (.openFork node write true)).1)
    (hc : W.Exchanging s T' c) :
    Wp answer (exchangeFiles config leftFile rightFile temporary root name left right :
      Run F Unit) c fun _ c' => W.Sound config c' := by
  have hcontents : Call.Maintains answer (W.Exchanging (F := F) s T') (do
      exchangeFileContents leftFile rightFile temporary
      provided config.persistent (exchangeResourceForks left right) : Run F Unit) := by
    have hplain : Plain True (fun node => config.persistent = true ∧ (node = left ∨ node = right)) (do
        exchangeFileContents leftFile rightFile temporary
        provided config.persistent (exchangeResourceForks left right) : Run F Unit) := by
      refine (plain_exchangeFileContents trivial _ _ _).bind fun _ => ?_
      rw [provided]
      split
      · rename_i hpersistent
        exact plain_exchangeResourceForks trivial ⟨hpersistent, .inl rfl⟩ ⟨hpersistent, .inr rfl⟩
      · exact .pure _
    refine Watch.plain_maintains hplain fun q hfile hq c1 hc1 => ?_
    by_cases hcreates : q.createsFork = true
    · obtain ⟨node, write, rfl⟩ := HostCall.exists_of_createsFork hcreates
      obtain ⟨hpersistent, hnode⟩ := hq node write rfl
      exact ⟨(B.still c1.env _ rfl).trans hc1.tree, hc1.shared,
        hforks c1 node write hc1 hpersistent hnode⟩
    · exact hc1.call (HostCall.relinks_of_byFile hfile) (Bool.eq_false_iff.2 hcreates)
  refine hcontents.attempt.bind_wp hc (fun result c1 hc1 => ?_) fun _ c1 hc1 => ?_
  · have hstands : W.Stands config T' c1 :=
      ⟨hc1.tree, hc1.shared.symm ▸ hrecorded.adds hadds, hc1.kept⟩
    have hchanges := B.unlinkat c1.env root name false hname
    have hremoved : W.Sound config { c1 with env := (answer c1.env (.unlinkat root name false)).1 } := by
      rw [Changes] at hchanges
      split at hchanges
      · rw [hc1.tree] at hchanges
        obtain ⟨removed, hremoves⟩ := hchanges
        cases hadds.added.symm.trans hremoves.link
        refine ⟨rfl, hc1.shared.symm ▸ hrecorded.mono (hremoves.root.trans hadds.root)
          fun path object hpath => (hadds.resolve_of_removes hremoves).trans hpath,
          W.keeps c1.env _ rfl (fun object hwatched hpresent => ?_) hc1.kept⟩
        refine hpresent.imp_left fun hlive => hremoves.live (hc1.tree ▸ hlive) fun hsame => ?_
        exact absurd (hsame ▸ hwatched) hmade
      · exact (hstands.same rfl hchanges).sound
    refine Wp.bind (Wp.attempt (wp_system ?_))
    split <;> dsimp only <;> split
    · exact Wp.throw hremoved
    · exact Wp.ofExcept hremoved
    · exact Wp.throw hremoved
    · exact Wp.ofExcept hremoved
  · exact ⟨rfl, hc1.shared.symm ▸ hc1.tree.symm ▸ hrecorded.adds hadds, hc1.kept⟩

theorem sound_exchangeNodes (hc : W.Stands config T c)
    (hpresent : ∀ object, W.watched object → T.Live object ∨ B.outside object)
    (hforks : ∀ env' node write, config.persistent = true → node = left ∨ node = right →
      (∀ object, T.Live object → (B.tree env').Live object) → W.kept env' →
      W.kept (answer env' (.openFork node write true)).1) :
    Wp answer (exchangeNodes config i left right : Run F Unit) c fun _ c' => W.Sound config c' := by
  refine hc.bind ((looks_nodeSnapshot left).yields W.sight_of) fun leftSnapshot c1 hc1 _ => ?_
  refine hc1.bind ((looks_nodeSnapshot right).yields W.sight_of) fun rightSnapshot c2 hc2 _ => ?_
  refine hc2.bind ((looks_openSnapshot leftSnapshot rfl _).yields W.sight_of)
    fun leftFile c3 hc3 _ => ?_
  refine hc3.bind ((looks_openSnapshot rightSnapshot rfl _).yields W.sight_of)
    fun rightFile c4 hc4 _ => ?_
  have huuid : Yields answer (W.Stands config T) (host .newUuid : Run F Uuid) fun _ => True :=
    Yields.ask fun _ h => ⟨h.call rfl rfl, trivial⟩
  refine hc4.bind huuid fun uuid c5 hc5 _ => ?_
  have hname := isNormal_temporaryName uuid
  have hcreate := B.create c5.env rootFile (temporaryName uuid)
    { OFlags.openFlags .readWrite false with create := true, excl := true } 0o600 hname rfl rfl
  refine Wp.bind (wp_system ?_)
  rw [Changes] at hcreate
  dsimp only [id]
  split
  · rename_i temporary hok
    rw [hok, hc5.tree] at hcreate
    obtain ⟨hlive, houtside, hadds⟩ := hcreate
    generalize hT' : B.tree (answer c5.env _).1 = T' at hadds
    have hdup : Yields answer (W.Exchanging (F := F) c5.shared T')
        (system (.dup rootFile) id : Run F Fd) fun root => B.object root = B.object rootFile :=
      yields_system (fun _ h => h.call rfl rfl) fun c' _ copy hcopy => B.dup c'.env rootFile copy hcopy
    have hexchanging : W.Exchanging c5.shared T' { c5 with env := (answer c5.env (.openat rootFile
        (temporaryName uuid) { OFlags.openFlags .readWrite false with create := true, excl := true }
        0o600)).1 } := by
      refine ⟨hT', rfl, W.keeps c5.env _ rfl (fun _ _ => Or.imp_left fun hobject => ?_) hc5.kept⟩
      rw [hT']
      exact hadds.live (hc5.tree ▸ hobject)
    refine hdup.bind_wp hexchanging (fun root c6 hc6 hroot => ?_) fun _ c6 hc6 => ?_
    · refine sound_exchangeFiles hname hc5.recorded (hroot ▸ hadds)
        (fun hwatched => (hpresent _ hwatched).elim hlive houtside)
        (fun c7 node write hc7 hpersistent hnode => ?_) hc6
      exact hforks c7.env node write hpersistent hnode
        (fun _ hobject => hc7.tree.symm ▸ hadds.live hobject) hc7.kept
    · exact ⟨rfl, hc6.shared.symm ▸ hc6.tree.symm ▸ hc5.recorded.adds hadds, hc6.kept⟩
  · rename_i errno herrno
    rw [herrno] at hcreate
    exact (hc5.same rfl hcreate).sound

theorem sound_exchangeData {options : ℕ} (hc : W.Sound config c)
    (hadmits : W.Admits config c.env (.exchangeData parent name newParent newName options)) :
    Wp answer (exchangeData config i parent name newParent newName options : Run F Unit) c
      fun _ c' => W.Sound config c' := by
  rw [Watch.Sound] at hc
  refine hc.bind yields_requireWritable fun _ c1 hc1 _ => ?_
  refine hc1.bind yields_ofExcept fun _ c2 hc2 _ => ?_
  refine hc2.bind yields_ofExcept fun _ c3 hc3 _ => ?_
  split
  · exact Wp.throw hc3.sound
  refine hc3.bind (yields_findEntry hc.root) fun left c4 hc4 hleft => ?_
  refine hc4.bind (yields_findEntry hc.root) fun right c5 hc5 hright => ?_
  split
  · exact Wp.throw hc5.sound
  split
  · exact Wp.pure hc5.sound
  refine sound_exchangeNodes hc5 hadmits.present fun env' node write hpersistent hnode hlive hkept => ?_
  -- What is written is the fork of one of the two objects, which are both there.
  rcases hnode with rfl | rfl
  · obtain ⟨directory, object, hparent, hlink, hobject⟩ := hleft
    exact hadmits.writes env' left.node object write hpersistent (.inl ⟨directory, hparent, hlink⟩)
      hobject (fun other => Or.imp_left (hlive other)) hkept
  obtain ⟨directory, object, hparent, hlink, hobject⟩ := hright
  exact hadmits.writes env' right.node object write hpersistent (.inr ⟨directory, hparent, hlink⟩)
    hobject (fun other => Or.imp_left (hlive other)) hkept

/-! ## Every request -/

theorem sound_request {asked : Request} (hc : W.Sound config c)
    (hadmits : W.Admits config c.env asked) :
    Wp answer (asked.run config i : Run F Reply) c fun _ c' => W.Sound config c' := by
  -- What a request returns is only packed into a reply.
  have hpacked : ∀ {β : Type} {m : Run F β} {reply : β → Reply}
      (_ : Wp answer m c fun _ c' => W.Sound config c'),
      Wp answer (m >>= fun b => pure (reply b)) c fun _ c' => W.Sound config c' := by
    intro β m reply hm
    refine Wp.bind (hm.conseq fun r c' hc' => ?_)
    cases r with
    | ok => exact Wp.pure hc'
    | error => exact hc'
  have hyields : ∀ {β : Type} {m : Run F β} {reply : β → Reply}
      (_ : Yields answer (W.Sound config) m fun _ => True),
      Wp answer (m >>= fun b => pure (reply b)) c fun _ c' => W.Sound config c' := fun hm =>
    hpacked ((hm c hc).conseq fun _ _ h => h.1)
  have hleaves : ∀ {β : Type} {m : Run F β} {reply : β → Reply} (_ : Leaves W config m),
      Wp answer (m >>= fun b => pure (reply b)) c fun _ c' => W.Sound config c' :=
    fun hm => hyields hm.sound
  cases asked with
  | setWriteAuthorized =>
    refine hleaves (fun T => Yields.modify fun c' hc' => hc'.shared ?_)
    exact subsides_setSession rfl rfl fun _ h => h
  | statFilesystem => exact hleaves (fun T => Watch.stands_system rfl rfl)
  | setVolumeName name => exact hleaves (leaves_setVolumeName name)
  | forgetNodes requested => exact hleaves (Looks.leaves fun _ => looks_forgetNodes requested)
  | metadata => exact hleaves (Looks.leaves fun _ => looks_metadata)
  | listWithRevision => exact hleaves (Looks.leaves fun _ => looks_listWithRevision.any)
  | listWithRevisionBlocking =>
    exact hleaves (Looks.leaves fun _ => looks_listWithRevisionBlocking)
  | directoryView =>
    exact hleaves (Looks.leaves fun _ => looks_directoryView)
  | openNode node options => exact hleaves (leaves_openNode node options)
  | createFile => exact hyields sound_createFile
  | createDirectory => exact hyields sound_createDirectory
  | createSymlink => exact hyields sound_createSymlink
  | createSpecialNode =>
    exact hyields sound_createSpecialNode
  | createHardLink => exact hyields sound_createHardLink
  | removeNode => exact hpacked (sound_removeNode hc hadmits)
  | renameNode => exact hpacked (sound_renameNode hc hadmits)
  | readLink node => exact hleaves (placid_readLink node).leaves
  | getXattr node name offset length =>
    exact hleaves (placid_getXattr node name offset length).leaves
  | listXattrs node => exact hleaves (placid_listXattrs node).leaves
  | setXattr => exact hpacked (sound_setXattr hc hadmits)
  | removeXattr node name => exact hleaves (placid_removeXattr node name).leaves
  | setAttributes node handle changes =>
    exact hleaves (placid_setAttributes node handle changes).leaves
  | read handle offset length => exact hleaves (placid_readRequest handle offset length).leaves
  | writeOwned handle offset data => exact hleaves (placid_writeOwned handle offset data).leaves
  | flush handle =>
    exact hleaves (fun T => (yields_openHandle handle).seq fun _ => Yields.pure trivial)
  | sync handle =>
    exact hleaves (fun T => (yields_openHandle handle).seq fun _ => Watch.stands_system rfl rfl)
  | syncDirectory node =>
    exact hleaves (fun T => ((looks_openParentNode node).yields W.sight_of).seq fun _ =>
      Watch.stands_system rfl rfl)
  | allocate handle offset length => exact hleaves (placid_allocate handle offset length).leaves
  | copyFileRange input inputOffset output outputOffset length =>
    exact hleaves (placid_copyFileRange length input inputOffset output outputOffset).leaves
  | seekFile handle offset whence => exact hleaves (placid_seekFile handle offset whence).leaves
  | safeIoctl handle operation => exact hleaves (placid_safeIoctl handle operation).leaves
  | mapBlock node blockSize block => exact hleaves (placid_mapBlock node blockSize block).leaves
  | exchangeData =>
    exact hpacked (sound_exchangeData hc hadmits)
  | checkLock handle requested allowUnlock =>
    exact hleaves (placid_checkLock handle requested allowUnlock).leaves
  | close handle =>
    exact hleaves (Looks.leaves fun _ => .loses fun s => loses_removeHandle _ s handle)

/-- What is required of an operation. -/
def Watch.AdmitsOp (W : Watch B) (config : Config) (env : E) : ExportOp → Prop
  | .request _ asked => W.Admits config env asked
  | .newSession _ | .dropSession _ => True

theorem sound_op (op : ExportOp) (hc : W.Sound config c) (hadmits : W.AdmitsOp config c.env op) :
    Wp answer (op.run config : Run F Reply) c fun _ c' => W.Sound config c' := by
  cases op with
  | newSession =>
    refine Wp.bind_modify (Wp.pure (Watch.Sound.shared hc ⟨id, fun _ known h =>
      ⟨known, h, rfl, rfl⟩, fun session hsession entry hentry => ?_⟩))
    rcases List.mem_append.1 hsession with hold | hnew
    · exact ⟨session, hold, hentry⟩
    · cases List.mem_singleton.1 hnew
      cases hentry
  | request => exact sound_request hc hadmits
  | dropSession =>
    refine Wp.bind (((Looks.leaves fun _ => looks_dropSession).sound c hc).conseq fun r c' hr => ?_)
    cases r with
    | ok => exact Wp.pure hr.1
    | error => exact hr.1

end Requests

/-! ## Runs -/

section Runs

variable {Env Choice : Type}

theorem evalOp_sound (serve : Env → Choice → (call : HostCall) → Option (Env × call.Answer))
    (op : ExportOp) {c : Point (exportFrame Env Choice).sig E} (hc : W.Sound config c)
    (hadmits : W.AdmitsOp config c.env op) :
    ∃ r c', evalOp (server config serve) answer op c = some (r, c') ∧ W.Sound config c' := by
  obtain ⟨r, c', heval, hsound⟩ := (sound_op (F := exportFrame Env Choice)
    (c := { c with tasks := c.tasks + 1 }) op ⟨rfl, hc.recorded, hc.kept⟩ hadmits).eval id
  exact ⟨r, c', heval, hsound⟩

/-- The registry of an export that was just opened. -/
theorem recorded_new (volumeName : Bytes) :
    Recorded config T (State.new config T.root volumeName) := by
  have hroot : ∀ node known, (State.new config T.root volumeName).nodes.byNode.find node =
      some known → node = rootNode ∧ known = ⟨T.root, [[]], usizeMax⟩ := by
    intro node known hfind
    rw [State.new, Entries.find_cons] at hfind
    split at hfind
    · rename_i hnode
      exact ⟨hnode, (Option.some.inj hfind).symm⟩
    · cases hfind
  refine ⟨⟨(kept_new True T.root volumeName).inverse, fun node known hfind => ?_⟩,
    fun node known hfind path hpath => ?_, fun node known hfind hnode => ?_⟩
  · obtain ⟨rfl, rfl⟩ := hroot node known hfind
    exact (if_pos rfl).mpr rfl
  · obtain ⟨-, rfl⟩ := hroot node known hfind
    rw [List.mem_singleton.1 hpath]
    rfl
  · exact absurd (hroot node known hfind).1 hnode

/-- **The paths of the registry lead to the objects of its nodes**, in every state that requests
lead to when they are carried out one at a time and are the only ones that change the tree; no two
nodes have a path in common, and every node other than the root has one. -/
theorem paths_resolve (config : Config)
    (serve : Env → Choice → (call : HostCall) → Option (Env × call.Answer))
    (answer : E → (q : HostCall) → E × q.Answer) (B : Backing answer) (volumeName : Bytes) (env : E)
    (ops : List ExportOp) :
    ∃ results, evalOps (server config serve) answer ops
        ⟨State.new config (B.object rootFile) volumeName, env, 0⟩ = some results ∧
      let c := lastPoint ⟨State.new config (B.object rootFile) volumeName, env, 0⟩ results
      (∀ node known, c.shared.nodes.byNode.find node = some known → ∀ path ∈ known.paths,
        (B.tree c.env).resolve path = some known.identity) ∧
      (∀ node node' known known', c.shared.nodes.byNode.find node = some known →
        c.shared.nodes.byNode.find node' = some known' → node ≠ node' →
        ∀ path ∈ known.paths, path ∉ known'.paths) ∧
      ∀ node known, c.shared.nodes.byNode.find node = some known → node ≠ rootNode →
        known.paths ≠ [] := by
  have hstart : B.idle.Sound config (⟨State.new config (B.object rootFile) volumeName, env, 0⟩ :
      Point (exportFrame Env Choice).sig E) :=
    ⟨rfl, B.root env ▸ recorded_new volumeName, trivial⟩
  have hadmits : ∀ env op, B.idle.AdmitsOp config env op := by
    intro env op
    cases op with
    | request =>
      exact ⟨fun _ h => h.elim, fun _ _ _ _ _ _ _ _ _ _ _ _ _ _ => trivial,
        fun _ _ _ _ _ _ _ _ _ _ _ _ _ _ => trivial, fun _ _ _ _ _ _ _ _ _ => trivial⟩
    | newSession | dropSession => trivial
  have hstep : ∀ op ∈ ops, ∀ c : Point (exportFrame Env Choice).sig E, B.idle.Sound config c → True →
      ∃ r c', evalOp (server config serve) answer op c = some (r, c') ∧ B.idle.Sound config c' :=
    fun op _ c hc _ => evalOp_sound serve op hc (hadmits c.env op)
  obtain ⟨results, heval, hsound⟩ := evalOps_invariant (C := fun _ _ => True) hstep hstart
    (along_of_forall fun _ _ _ => trivial)
  refine ⟨results, heval, hsound.recorded.resolves, ?_, hsound.recorded.pathed⟩
  intro node node' known known' hfind hfind' hne path hpath hpath'
  exact hne (hsound.recorded.node_unique hfind hfind' hpath hpath')

end Runs

open TreeHost in
/-- A file is created in the directory `d`, and has a link `b` in the root; then `d` is renamed to
`e`.  The node of the file has two paths, both of which lead to it. -/
theorem paths_resolve_after_rename :
    let ops := [.newSession true, .request 0 (.createDirectory rootNode [100] 493),
      .request 0 (.createFile 2 [97] 420 ⟨.readWrite, false, false⟩),
      .request 0 (.createHardLink 3 rootNode [98]),
      .request 0 (.renameNode rootNode [100] rootNode [101] .replace)]
    let start : Point (exportFrame Unit Unit).sig TreeHost :=
      ⟨State.new smallExport (backing.object rootFile) [], .empty, 0⟩
    ∃ results, evalOps (server smallExport fun _ _ call => some ((), call.refuse)) respond ops start =
        some results ∧
      let c := lastPoint start results
      (c.shared.nodes.byNode.find 3).map KnownNode.paths = some [[[98]], [[101], [97]]] ∧
      ∀ path ∈ [[[98]], [[101], [97]]], c.env.table.tree.resolve path = some (object 2) := by
  intro ops start
  obtain ⟨results, heval, hresolve, -, -⟩ := paths_resolve smallExport
    (fun _ _ call => some ((), call.refuse)) respond backing [] .empty ops
  have hnodes : (evalOps (server smallExport fun _ _ call => some ((), call.refuse)) respond ops
      start).map (fun results => (lastPoint start results).shared.nodes.byNode.find 3) =
      some (some ⟨object 2, [[[98]], [[101], [97]]], 1⟩) := by
    decide +kernel
  rw [heval] at hnodes
  have hfind := Option.some.inj hnodes
  exact ⟨results, heval, congrArg (Option.map KnownNode.paths) hfind, hresolve 3 _ hfind⟩

end QuickFS.Export
