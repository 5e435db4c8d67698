import QuickFS.Export.Sight
import QuickFS.Lib.Hierarchy

/-!
# The backing tree

The objects of an export are a tree, which the host keeps and the server's calls change: a
`Hierarchy` whose objects are the host's identities.  `Backing` says what of it the host's answers
reveal, and what a call does to it when it succeeds.  A call that fails changes nothing, and neither
does a call that is not made by name.  Nothing is said about the numbers the host gives to new
objects, except that they are not those of objects there are.

`Recorded` is what the registry is to be like: the paths of a node lead to the object it is the node
of, and a node other than the root has a path.  The functions that change the paths of the registry
keep up with what happens to the tree.  For `remove_registry_path` this is because nothing is below
a link that can be removed, and for `update_registry_after_rename` because a directory has one path,
so that what a path goes through can be read off it.
-/

namespace QuickFS.Export

open Server Async

/-- The tree of an export. -/
abbrev Tree := Hierarchy FileIdentity Name

/-! ## The host -/

/-- Whether a call may add, remove or move a link. -/
def HostCall.relinks : HostCall → Bool
  | openat _ _ flags _ => flags.create
  | mkdirat .. | symlinkat .. | mknodat .. | linkat .. | unlinkat .. | renameat .. => true
  | _ => false

/-- Whether a call creates the file of a fork. -/
def HostCall.createsFork : HostCall → Bool
  | openFork _ _ create => create
  | _ => false

/-- What a call does to the tree if it succeeds; if it fails it does nothing. -/
def Changes {E α : Type} (tree : E → Tree) (env : E) (outcome : E × Except Errno α)
    (change : α → Tree → Tree → Prop) : Prop :=
  match outcome.2 with
  | .ok a => change a (tree env) (tree outcome.1)
  | .error _ => tree outcome.1 = tree env

/-- An object is created: none there was, in the tree or outside. -/
def Creates (outside : FileIdentity → Prop) (T T' : Tree) (directory : FileIdentity) (name : Name)
    (object : FileIdentity) : Prop :=
  ¬T.Live object ∧ ¬outside object ∧ T.Adds T' directory name object

/-- What a rename does.  If the two names are links to one object, it does nothing. -/
def Renames (T T' : Tree) (directory : FileIdentity) (name : Name) (directory' : FileIdentity)
    (name' : Name) (mode : RenameMode) : Prop :=
  ∃ object, T.links directory name = some object ∧
    match mode with
    | .replace =>
      if T.links directory' name' = some object then T' = T
      else T.Moves T' directory name directory' name' object
    | .noReplace =>
      T.links directory' name' = none ∧ T.Moves T' directory name directory' name' object
    | .exchange => ∃ object', T.links directory' name' = some object' ∧
      if object' = object then T' = T
      else T.Exchanges T' directory name directory' name' object object'

/-- **A host that keeps a tree**, and changes it only as it is asked to.  A descriptor is one of an
object, and there may be objects that have links outside of the export as well, which nobody
changes. -/
structure Backing {E : Type} (answer : E → (q : HostCall) → E × q.Answer) where
  object : Fd → FileIdentity
  tree : E → Tree
  outside : FileIdentity → Prop
  root : ∀ env, (tree env).root = object rootFile
  -- What is looked at.
  dup : ∀ env file copy, (answer env (.dup file)).2 = .ok copy → object copy = object file
  fstat : ∀ env file stat, (answer env (.fstat file)).2 = .ok stat → stat.identity = object file
  statat : ∀ env directory name stat, isNormal name = true →
    (answer env (.statat directory name)).2 = .ok stat →
    (tree env).links (object directory) name = some stat.identity
  absent : ∀ env directory name, isNormal name = true →
    (answer env (.statat directory name)).2 = .error .noent →
    (tree env).links (object directory) name = none
  openat : ∀ env directory name flags mode file, isNormal name = true → flags.create = false →
    flags.nofollow = true → (answer env (.openat directory name flags mode)).2 = .ok file →
    (tree env).links (object directory) name = some (object file)
  readdir : ∀ env directory search names, (answer env (.readdir directory search)).2 = .ok names →
    ∀ name, .ok name ∈ names → Sight.isListed name
  -- What is changed.
  still : ∀ env q, q.relinks = false → tree (answer env q).1 = tree env
  create : ∀ env directory name flags mode, isNormal name = true → flags.create = true →
    flags.excl = true → Changes tree env (answer env (.openat directory name flags mode))
      fun file T T' => Creates outside T T' (object directory) name (object file)
  mkdirat : ∀ env directory name mode, isNormal name = true →
    Changes tree env (answer env (.mkdirat directory name mode))
      fun _ T T' => ∃ made, Creates outside T T' (object directory) name made
  symlinkat : ∀ env target directory name, isNormal name = true →
    Changes tree env (answer env (.symlinkat target directory name))
      fun _ T T' => ∃ made, Creates outside T T' (object directory) name made
  mknodat : ∀ env directory name kind mode major minor, isNormal name = true →
    Changes tree env (answer env (.mknodat directory name kind mode major minor))
      fun _ T T' => ∃ made, Creates outside T T' (object directory) name made
  linkat : ∀ env directory name directory' name', isNormal name = true → isNormal name' = true →
    Changes tree env (answer env (.linkat directory name directory' name'))
      fun _ T T' => ∃ linked, T.links (object directory) name = some linked ∧
        T.Adds T' (object directory') name' linked
  unlinkat : ∀ env directory name removeDirectory, isNormal name = true →
    Changes tree env (answer env (.unlinkat directory name removeDirectory))
      fun _ T T' => ∃ removed, T.Removes T' (object directory) name removed
  renameat : ∀ env directory name directory' name' mode, isNormal name = true →
    isNormal name' = true →
    Changes tree env (answer env (.renameat directory name directory' name' mode))
      fun _ T T' => Renames T T' (object directory) name (object directory') name' mode

/-! ## The registry -/

/-- **What the registry is to be like**, given the tree. -/
structure Recorded (config : Config) (T : Tree) (s : State) : Prop where
  registered : Registered config T.root s
  resolves : ∀ node known, s.nodes.byNode.find node = some known →
    ∀ path ∈ known.paths, T.resolve path = some known.identity
  pathed : ∀ node known, s.nodes.byNode.find node = some known → node ≠ rootNode → known.paths ≠ []

section Recorded

variable {config : Config} {T T' : Tree} {s s' : State} {identity : FileIdentity} {path : PathBuf}

variable {known : KnownNode} {node : NodeId} {name : Name}

theorem Recorded.root (h : Recorded config T s)
    (hfind : s.nodes.byNode.find rootNode = some known) : known.identity = T.root :=
  (if_pos rfl).mp (h.registered.named rootNode known hfind)

variable {other : PathBuf} {root directory : FileIdentity} {paths : List PathBuf}
  {known' : KnownNode}

section

variable (h : Recorded config T s)

include h

/-- Two nodes that have a path in common are one. -/
theorem Recorded.node_unique {node' : NodeId} (hnode : s.nodes.byNode.find node = some known)
    (hnode' : s.nodes.byNode.find node' = some known') (hpath : path ∈ known.paths)
    (hpath' : path ∈ known'.paths) : node = node' := by
  have hidentity : known.identity = known'.identity := by
    have hsame := h.resolves node known hnode path hpath
    rw [h.resolves node' known' hnode' path hpath'] at hsame
    exact (Option.some.inj hsame).symm
  have hfind := h.registered.inverse.identityOf node known hnode
  rw [hidentity, h.registered.inverse.identityOf node' known' hnode'] at hfind
  exact (Option.some.inj hfind).symm

/-- The object of a node in the registry is there. -/
theorem Recorded.live (hnode : s.nodes.byNode.find node = some known) : T.Live known.identity := by
  by_cases hroot : node = rootNode
  · subst hroot
    exact h.root hnode ▸ Hierarchy.live_root
  · obtain ⟨path, hpath⟩ := List.exists_mem_of_ne_nil _ (h.pathed node known hnode hroot)
    exact ⟨path, h.resolves node known hnode path hpath⟩

theorem Recorded.subsides (hs : Subsides s s') : Recorded config T s' where
  registered := h.registered.subsides hs
  resolves node known' hfind path hpath := by
    obtain ⟨known, hold, hidentity, hpaths⟩ := hs.nodes node known' hfind
    rw [hidentity]
    exact h.resolves node known hold path (hpaths ▸ hpath)
  pathed node known' hfind hroot := by
    obtain ⟨known, hold, -, hpaths⟩ := hs.nodes node known' hfind
    rw [hpaths]
    exact h.pathed node known hold hroot

/-- Where the recorded paths lead is the same in another tree. -/
theorem Recorded.mono (hroot : T'.root = T.root)
    (hresolve : ∀ path object, T.resolve path = some object → T'.resolve path = some object) :
    Recorded config T' s where
  registered := hroot ▸ h.registered
  resolves node known hfind path hpath := hresolve path _ (h.resolves node known hfind path hpath)
  pathed := h.pathed

theorem Recorded.adds (hadds : T.Adds T' directory name identity) : Recorded config T' s :=
  h.mono hadds.root fun _ _ => hadds.resolve

end

theorem mem_insertPath : other ∈ insertPath path paths ↔ other = path ∨ other ∈ paths := by
  rw [insertPath]
  split
  · rename_i hmem
    exact ⟨.inr, fun h => h.elim (fun heq => heq ▸ hmem) id⟩
  · exact List.mem_orderedInsert _

theorem Recorded.rememberExisting (h : Recorded config T s)
    (hpath : T.resolve path = some identity) :
    Recorded config T (rememberExisting identity path s).2 := by
  cases hfind : s.nodes.byIdentity.find identity with
  | none =>
    rw [rememberExisting_none hfind]
    exact h
  | some node =>
    have hregistered := h.registered.rememberExisting identity path
    obtain ⟨known, hknown, hidentity, heq⟩ := rememberExisting_some path h.registered.inverse hfind
    rw [heq] at hregistered ⊢
    -- What is known of a node is what was known, but for one path.
    have hold : ∀ other found, (s.nodes.put node
        { known with paths := insertPath path known.paths }).byNode.find other = some found →
        ∃ before, s.nodes.byNode.find other = some before ∧ found.identity = before.identity ∧
          (∀ p ∈ found.paths, p ∈ before.paths ∨ (p = path ∧ before.identity = identity)) ∧
          before.paths ⊆ found.paths := by
      intro other found hother
      rw [find_put] at hother
      split at hother
      · rename_i hsame
        cases hother
        refine ⟨known, hsame ▸ hknown, rfl, fun p hp => ?_, fun p hp => mem_insertPath.2 (.inr hp)⟩
        exact (mem_insertPath.1 hp).elim (fun heq => .inr ⟨heq, hidentity⟩) .inl
      · exact ⟨found, hother, rfl, fun p hp => .inl hp, fun _ hp => hp⟩
    refine ⟨hregistered, fun other found hother p hp => ?_, fun other found hother hroot => ?_⟩
    · obtain ⟨before, hbefore, hid, hpaths, -⟩ := hold other found hother
      rw [hid]
      rcases hpaths p hp with hp | ⟨rfl, hid⟩
      · exact h.resolves other before hbefore p hp
      · rw [hid]
        exact hpath
    · obtain ⟨before, hbefore, -, -, hsub⟩ := hold other found hother
      intro hnil
      rw [hnil] at hsub
      exact h.pathed other before hbefore hroot (List.eq_nil_of_subset_nil hsub)

theorem Recorded.insertReserved (h : Recorded config T s) (hpath : T.resolve path = some identity) :
    Recorded config T (insertReserved config identity path s).2 := by
  have hregistered := h.registered.insertReserved identity path
  rcases insertReserved_cases config path h.registered.inverse identity with
    ⟨node, -, heq⟩ | ⟨-, heq | ⟨-, -, heq⟩⟩ <;> rw [heq] at hregistered ⊢
  · exact (h.rememberExisting hpath).subsides (subsides_of_eq rfl rfl)
  · exact h.subsides (subsides_of_eq rfl rfl)
  refine ⟨hregistered, fun other found hother p hp => ?_, fun other found hother hroot => ?_⟩
  · rcases Entries.of_find_insert hother with ⟨-, rfl⟩ | ⟨-, hother⟩
    · rw [List.mem_singleton.1 hp]
      exact hpath
    · exact h.resolves other found hother p hp
  · rcases Entries.of_find_insert hother with ⟨-, rfl⟩ | ⟨-, hother⟩
    · exact List.cons_ne_nil _ _
    · exact h.pathed other found hother hroot

/-! ### Paths are changed -/

theorem Registered.mapPaths (h : Registered config root s) (which : NodeId → KnownNode → Bool)
    (f : List PathBuf → List PathBuf) :
    Registered config root { s with nodes := s.nodes.mapPaths which f } where
  inverse := h.inverse.mapPaths which f
  named node known' hfind := by
    obtain ⟨known, hold, rfl⟩ := Option.map_eq_some_iff.1
      ((find_mapPaths which f node).symm.trans hfind)
    rw [identity_repath]
    exact h.named node known hold

theorem Registered.removeEmpty (h : Registered config root s) :
    Registered config root s.removeEmpty where
  inverse := h.inverse.removeEmpty
  named node known hfind := h.named node known (of_find_removeEmpty h.inverse hfind).1

/-- When nodes without a path are removed, it is enough that the paths lead where they should. -/
theorem Recorded.of_removeEmpty (hregistered : Registered config T.root s)
    (hresolves : ∀ node known, s.nodes.byNode.find node = some known →
      ∀ path ∈ known.paths, T.resolve path = some known.identity) :
    Recorded config T s.removeEmpty where
  registered := hregistered.removeEmpty
  resolves node known hfind := hresolves node known (of_find_removeEmpty hregistered.inverse hfind).1
  pathed node known hfind hnode hnil := by
    have hkept := (of_find_removeEmpty hregistered.inverse hfind).2
    rw [NodeRegistry.isEmpty, hnil, decide_eq_true hnode] at hkept
    cases hkept

/-- What the registry knows of a node after its paths have been changed. -/
theorem of_find_mapPaths {nodes : NodeRegistry} {which : NodeId → KnownNode → Bool}
    {f : List PathBuf → List PathBuf}
    (hfind : (nodes.mapPaths which f).byNode.find node = some known') :
    ∃ known, nodes.byNode.find node = some known ∧ known'.identity = known.identity ∧
      known'.paths = if which node known then f known.paths else known.paths := by
  obtain ⟨known, hold, rfl⟩ := Option.map_eq_some_iff.1
    ((find_mapPaths which f node).symm.trans hfind)
  refine ⟨known, hold, identity_repath which f node known, ?_⟩
  rw [NodeRegistry.repath]
  split <;> rfl

theorem prefix_iff_exists_cons {candidate : PathBuf} :
    isPathOrDescendant candidate (path ++ [name]) = true ↔
      ∃ rest, candidate = path ++ name :: rest := by
  rw [isPathOrDescendant, List.isPrefixOf_iff_prefix]
  constructor
  · rintro ⟨rest, hrest⟩
    exact ⟨rest, by rw [← hrest, List.append_assoc, List.singleton_append]⟩
  · rintro ⟨rest, rfl⟩
    exact ⟨rest, by rw [List.append_assoc, List.singleton_append]⟩

/-- **`remove_registry_path` keeps up with a removal.** -/
theorem Recorded.removeRegistryPath (h : Recorded config T s)
    (hremoves : T.Removes T' directory name identity) (hdirectory : T.resolve path = some directory)
    (descendants : Bool) :
    Recorded config T' (removeRegistryPath (path ++ [name]) descendants s).2 := by
  rw [Export.removeRegistryPath]
  refine .of_removeEmpty (hremoves.root ▸ h.registered.mapPaths _ _)
    fun node known' hfind p hp => ?_
  obtain ⟨known, hold, hidentity, hpaths⟩ := of_find_mapPaths hfind
  rw [hidentity]
  by_cases hnode : node = rootNode
  · -- The root has no path below anything.
    rw [hpaths, if_neg (by simpa using hnode)] at hp
    have hresolve := h.resolves node known hold p hp
    rw [h.root (hnode ▸ hold)] at hresolve ⊢
    have hnil : p = [] := Hierarchy.eq_of_resolve T.isDirectory_root hresolve rfl
    rw [hnil, ← hremoves.root]
    rfl
  · rw [hpaths, if_pos (by simpa using hnode)] at hp
    obtain ⟨hp, hkept⟩ := List.mem_filter.1 hp
    have hresolve := h.resolves node known hold p hp
    rw [hremoves.resolve_away hdirectory, hresolve]
    rintro ⟨rest, rfl⟩
    rw [List.append_assoc, List.singleton_append] at hkept hresolve
    obtain ⟨rfl, -⟩ := hremoves.eq_of_resolve hdirectory hresolve
    cases descendants with
    | false => simp at hkept
    | true =>
      rw [if_pos rfl, prefix_iff_exists_cons.2 ⟨[], rfl⟩] at hkept
      cases hkept

theorem mem_foldr_insertPath : other ∈ paths.foldr insertPath [] ↔ other ∈ paths := by
  induction paths with
  | nil => exact Iff.rfl
  | cons _ _ ih => rw [List.foldr_cons, mem_insertPath, ih, List.mem_cons]

/-- The last step of `update_registry_after_rename`: it is enough that each path leads to what it
led to, once it has been changed. -/
theorem Recorded.renamed {old new : PathBuf} {mode : RenameMode}
    (hregistered : Registered config T'.root s)
    (hresolves : ∀ node known, s.nodes.byNode.find node = some known → ∀ path ∈ known.paths,
      T'.resolve (renamedPath old new mode path) = some known.identity) :
    Recorded config T' (State.removeEmpty { s with
      nodes := s.nodes.mapPaths (fun _ _ => true) fun paths =>
        (paths.map (renamedPath old new mode)).foldr insertPath [] }) := by
  refine .of_removeEmpty (hregistered.mapPaths _ _) fun node known' hfind p hp => ?_
  obtain ⟨known, hold, hidentity, hpaths⟩ := of_find_mapPaths hfind
  rw [hpaths, if_pos rfl, mem_foldr_insertPath] at hp
  obtain ⟨before, hbefore, rfl⟩ := List.mem_map.1 hp
  rw [hidentity]
  exact hresolves node known hold before hbefore

theorem replacePrefix_of_below {path' : PathBuf} {name' : Name} {rest : PathBuf} :
    replacePrefix (path ++ name :: rest) (path ++ [name]) (path' ++ [name']) =
      path' ++ name' :: rest := by
  have hsplit : ∀ (init : PathBuf) (last : Name), init ++ last :: rest = (init ++ [last]) ++ rest :=
    fun init last => by rw [List.append_assoc, List.singleton_append]
  rw [replacePrefix, hsplit path name, if_pos (List.isPrefixOf_iff_prefix.2 (List.prefix_append _ _)),
    List.drop_left, hsplit path' name']

section Rename

variable {directory directory' : FileIdentity} {name name' : Name} {path' : PathBuf}
  {object object' : FileIdentity}

variable {mode : RenameMode} {p : PathBuf}

/-- Where a path leads once a link has been moved. -/
theorem resolve_renamed_of_moves (hmoves : T.Moves T' directory name directory' name' object)
    (hpath : T.resolve path = some directory) (hpath' : T.resolve path' = some directory')
    (hmode : mode ≠ .exchange) (hresolve : T.resolve p = some identity)
    (hkept : isPathOrDescendant p (path' ++ [name']) = false) :
    T'.resolve (renamedPath (path ++ [name]) (path' ++ [name']) mode p) = some identity := by
  have hrenamed : renamedPath (path ++ [name]) (path' ++ [name']) mode p =
      if isPathOrDescendant p (path ++ [name]) then
        replacePrefix p (path ++ [name]) (path' ++ [name']) else p := by
    cases mode with
    | exchange => exact absurd rfl hmode
    | replace | noReplace => rfl
  rw [hrenamed]
  split
  · rename_i hbelow
    obtain ⟨rest, rfl⟩ := prefix_iff_exists_cons.1 hbelow
    rw [replacePrefix_of_below, ← hresolve]
    exact Hierarchy.resolve_placed hmoves.root hmoves.agree hmoves.link hmoves.placed hmoves.apart
      hpath hpath'
  · rename_i hbelow
    refine Hierarchy.resolve_away_of_two hmoves.root hmoves.agree hpath hpath' (fun hprefix => ?_)
      (fun hprefix => ?_) hresolve
    · exact hbelow (List.isPrefixOf_iff_prefix.2 hprefix)
    · rw [isPathOrDescendant, List.isPrefixOf_iff_prefix.2 hprefix] at hkept
      cases hkept

/-- Where a path leads once two links have been exchanged. -/
theorem resolve_renamed_of_exchanges
    (hexchanges : T.Exchanges T' directory name directory' name' object object')
    (hpath : T.resolve path = some directory) (hpath' : T.resolve path' = some directory')
    (hresolve : T.resolve p = some identity) :
    T'.resolve (renamedPath (path ++ [name]) (path' ++ [name']) .exchange p) = some identity := by
  rw [renamedPath]
  split
  · rename_i hbelow
    obtain ⟨rest, rfl⟩ := prefix_iff_exists_cons.1 hbelow
    rw [replacePrefix_of_below, ← hresolve]
    exact Hierarchy.resolve_placed hexchanges.root hexchanges.agree hexchanges.link
      hexchanges.placed' hexchanges.apart hpath hpath'
  · rename_i hbelow
    split
    · rename_i hbelow'
      obtain ⟨rest, rfl⟩ := prefix_iff_exists_cons.1 hbelow'
      rw [replacePrefix_of_below, ← hresolve]
      refine Hierarchy.resolve_placed hexchanges.root (fun d n hd => hexchanges.agree d n ?_)
        hexchanges.link' hexchanges.placed hexchanges.apart' hpath' hpath
      rw [List.mem_pair] at hd ⊢
      exact fun h => hd h.symm
    · rename_i hbelow'
      refine Hierarchy.resolve_away_of_two hexchanges.root hexchanges.agree hpath hpath'
        (fun hprefix => ?_) (fun hprefix => ?_) hresolve
      · exact hbelow (List.isPrefixOf_iff_prefix.2 hprefix)
      · exact hbelow' (List.isPrefixOf_iff_prefix.2 hprefix)

/-- Nothing that is recorded is below the place that something is moved to, but what is replaced. -/
theorem below_replaced (hmoves : T.Moves T' directory name directory' name' object)
    (hpath' : T.resolve path' = some directory') (hresolve : T.resolve p = some identity)
    (hother : T.links directory' name' ≠ some identity) :
    isPathOrDescendant p (path' ++ [name']) = false := by
  rw [← Bool.not_eq_true, prefix_iff_exists_cons]
  rintro ⟨rest, rfl⟩
  exact hother (hmoves.eq_of_resolve hpath' hresolve).2

/-- **`update_registry_after_rename` keeps up with a rename.** -/
theorem Recorded.updateRegistryAfterRename (h : Recorded config T s)
    (hrenames : Renames T T' directory name directory' name' mode)
    (hpath : T.resolve path = some directory) (hpath' : T.resolve path' = some directory')
    (hsource : T.links directory name = some object) :
    Recorded config T' (updateRegistryAfterRename (path ++ [name]) (path' ++ [name']) mode object
      (T.links directory' name') s).2 := by
  obtain ⟨found, hfound, hrenames⟩ := hrenames
  cases hsource.symm.trans hfound
  simp only [Export.updateRegistryAfterRename]
  split
  · -- The two names were links to one object.
    rename_i hsame
    cases mode with
    | replace =>
      rw [if_pos hsame] at hrenames
      exact hrenames ▸ h
    | noReplace =>
      rw [hrenames.1] at hsame
      cases hsame
    | exchange =>
      obtain ⟨object', hobject', hrenames⟩ := hrenames
      cases hsame.symm.trans hobject'
      rw [if_pos rfl] at hrenames
      exact hrenames ▸ h
  · rename_i hother
    cases mode with
    | replace =>
      rw [if_neg hother] at hrenames
      rw [if_pos rfl]
      refine .renamed (hrenames.root ▸ h.registered.mapPaths _ _) fun node known' hfind p hp => ?_
      obtain ⟨known, hold, hidentity, hpaths⟩ := of_find_mapPaths hfind
      rw [hidentity]
      rw [hpaths] at hp
      split at hp
      · obtain ⟨hp, hkept⟩ := List.mem_filter.1 hp
        exact resolve_renamed_of_moves hrenames hpath hpath' (by simp)
          (h.resolves node known hold p hp) (Bool.not_eq_true' _ ▸ hkept)
      rename_i hsame
      have hresolve := h.resolves node known hold p hp
      refine resolve_renamed_of_moves hrenames hpath hpath' (by simp) hresolve
        (below_replaced hrenames hpath' hresolve ?_)
      rw [decide_eq_true_eq, not_not] at hsame
      rwa [hsame]
    | noReplace =>
      obtain ⟨hfree, hmoves⟩ := hrenames
      rw [if_neg (by simp)]
      refine .renamed (hmoves.root ▸ h.registered) fun node known hfind p hp => ?_
      have hresolve := h.resolves node known hfind p hp
      refine resolve_renamed_of_moves hmoves hpath hpath' (by simp) hresolve
        (below_replaced hmoves hpath' hresolve ?_)
      rw [hfree]
      simp
    | exchange =>
      obtain ⟨object', hobject', hrenames⟩ := hrenames
      rw [if_neg fun hsame : object' = object => hother (hsame ▸ hobject')] at hrenames
      rw [if_neg (by simp)]
      exact .renamed (hrenames.root ▸ h.registered) fun node known hfind p hp =>
        resolve_renamed_of_exchanges hrenames hpath hpath' (h.resolves node known hfind p hp)

end Rename

end Recorded

end QuickFS.Export
