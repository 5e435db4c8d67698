import QuickFS.Export.Looks

/-!
# What the server sees

The functions that look, carried out one at a time.  What they find depends on the host, and a
`Sight` says what can be known of it: which object a descriptor is of, which object a directory has
under a name, and what is said of an object.  That makes it a view (`Sight.Of.view`): a descriptor
is of a path that leads to its object, and what is found at a path is where the path leads.

All the while something stays true of the export and the host (`K`).  It has to be such that looking
does not concern it, nor that the registry loses nodes, nor that it learns where an object is;
`Sight.Of` collects these conditions, and `Looks.yields` is what follows from them.
-/

namespace QuickFS.Export

open Server Async
open Call (Yields Maintains)

/-! ## Nodes and identities -/

/-- A node is the one of an identity: the root's, or the one that the identity is hashed to. -/
def Linked (config : Config) (root : FileIdentity) (node : NodeId) (identity : FileIdentity) : Prop :=
  if node = rootNode then identity = root else config.digests.stableNodeId identity = node

/-- The registry has nodes for what they are the nodes of. -/
structure Registered (config : Config) (root : FileIdentity) (s : State) : Prop where
  inverse : Inverse s.nodes
  named : ∀ node known, s.nodes.byNode.find node = some known →
    Linked config root node known.identity

section Registered

variable {config : Config} {root : FileIdentity} {s s' : State} {identity : FileIdentity}
  {node : NodeId}

section

variable (h : Registered config root s)

include h

theorem Registered.subsides (hs : Subsides s s') : Registered config root s' where
  inverse := hs.inverse h.inverse
  named node known' hfind := by
    obtain ⟨known, hold, hidentity, -⟩ := hs.nodes node known' hfind
    rw [hidentity]
    exact h.named node known hold

theorem Registered.linked (hfind : s.nodes.byIdentity.find identity = some node) :
    Linked config root node identity := by
  obtain ⟨known, hknown, rfl⟩ := h.inverse.nodeOf identity node hfind
  exact h.named node known hknown

theorem Registered.rememberExisting (identity : FileIdentity)
    (path : PathBuf) : Registered config root (rememberExisting identity path s).2 := by
  cases hfind : s.nodes.byIdentity.find identity with
  | none =>
    rw [rememberExisting_none hfind]
    exact h
  | some =>
    obtain ⟨known, hknown, -, heq⟩ := rememberExisting_some path h.inverse hfind
    rw [heq]
    refine ⟨h.inverse.put hknown rfl, fun other found hother => ?_⟩
    rw [find_put] at hother
    split at hother
    · rename_i hsame
      cases hother
      exact h.named other known (hsame ▸ hknown)
    · exact h.named other found hother

theorem Registered.insertReserved (identity : FileIdentity)
    (path : PathBuf) : Registered config root (insertReserved config identity path s).2 := by
  rcases insertReserved_cases config path h.inverse identity with
    ⟨node, -, heq⟩ | ⟨hfind, heq | ⟨hroot, hfree, heq⟩⟩ <;> rw [heq]
  · exact (h.rememberExisting identity path).subsides (subsides_of_eq rfl rfl)
  · exact h.subsides (subsides_of_eq rfl rfl)
  refine ⟨h.inverse.insert ⟨identity, [path], 0⟩ hfree hfind, fun other found hother => ?_⟩
  rcases Entries.of_find_insert hother with ⟨rfl, rfl⟩ | ⟨-, hother⟩
  · rw [Linked, if_neg hroot]
  · exact h.named other found hother

end

end Registered

/-! ## Sights -/

/-- What can be known of the host: the object of a descriptor, the object under a name, and what is
said of an object. -/
structure Sight where
  object : Fd → FileIdentity
  child : FileIdentity → Name → FileIdentity → Prop
  described : Stat → Prop

namespace Sight

variable (v : Sight)

/-- A path leads from one object to another. -/
def Leads : FileIdentity → PathBuf → FileIdentity → Prop
  | directory, [], object => object = directory
  | directory, name :: rest, object => ∃ next, v.child directory name next ∧ Leads next rest object

/-- A path leads from the root of the export to an object. -/
def Located (path : PathBuf) (object : FileIdentity) : Prop := v.Leads (v.object rootFile) path object

/-- A node is the one of an object. -/
def Named (config : Config) (node : NodeId) (object : FileIdentity) : Prop :=
  Linked config (v.object rootFile) node object

variable {v}

theorem leads_concat {directory parent object : FileIdentity} {path : PathBuf} {name : Name}
    (h : v.Leads directory path parent) (hchild : v.child parent name object) :
    v.Leads directory (path ++ [name]) object := by
  induction path generalizing directory with
  | nil => exact ⟨object, h ▸ hchild, rfl⟩
  | cons _ _ ih =>
    obtain ⟨next, hnext, hrest⟩ := h
    exact ⟨next, hnext, ih hrest⟩

/-- A name that a directory may list. -/
def isListed (name : Name) : Prop := isNormal name = true ∨ name = [46] ∨ name = [46, 46]

/-- **What has to be known** of the host and of `K`. -/
structure Of (v : Sight) (config : Config) {F : Frame} {E : Type}
    (answer : E → (q : HostCall) → E × q.Answer) (K : Point F.sig E → Prop) : Prop where
  unseen : Unseen answer K
  dup : ∀ c, K c → ∀ file copy, (answer c.env (.dup file)).2 = .ok copy →
    v.object copy = v.object file
  fstat : ∀ c, K c → ∀ file stat, (answer c.env (.fstat file)).2 = .ok stat →
    stat.identity = v.object file
  statat : ∀ c, K c → ∀ directory name stat, (answer c.env (.statat directory name)).2 = .ok stat →
    v.described stat ∧ (isNormal name = true → v.child (v.object directory) name stat.identity)
  openat : ∀ c, K c → ∀ directory name flags mode file, isNormal name = true →
    flags.create = false → flags.nofollow = true →
    (answer c.env (.openat directory name flags mode)).2 = .ok file →
    v.child (v.object directory) name (v.object file)
  readdir : ∀ c, K c → ∀ directory search names,
    (answer c.env (.readdir directory search)).2 = .ok names → ∀ name, .ok name ∈ names → isListed name
  registered : ∀ c, K c → Registered config (v.object rootFile) c.shared
  subsides : ∀ c, K c → ∀ s', Subsides c.shared s' → K { c with shared := s' }
  remembers : ∀ c, K c → ∀ identity path, v.Located path identity →
    K { c with shared := (rememberExisting identity path c.shared).2 }
  inserts : ∀ c, K c → ∀ identity path, v.Located path identity →
    K { c with shared := (insertReserved config identity path c.shared).2 }
  opens : ∀ c, K c → ∀ i uuid opened, K { c with shared := (addHandle i uuid opened c.shared).2 }

end Sight

/-! ## Rules -/

section Rules

variable {F : Frame} {E : Type} {answer : E → (q : HostCall) → E × q.Answer}
  {K : Point F.sig E → Prop} {α β : Type} {post : α → Prop}

theorem yields_system {call : HostCall} {read : call.Answer → Except Errno α}
    (hcall : ∀ c, K c → K { c with env := (answer c.env call).1 })
    (hpost : ∀ c, K c → ∀ a, read (answer c.env call).2 = .ok a → post a) :
    Yields answer K (system call read : Run F α) post := by
  refine Yields.bind (R := fun a => ∀ b, read a = .ok b → post b)
    (Yields.ask fun c hc => ⟨hcall c hc, hpost c hc⟩) fun a ha => ?_
  split
  · rename_i b hb
    exact Yields.pure (ha b hb)
  · exact Yields.throw

theorem yields_atomically {f : State → Except ServerError α × State}
    (h : ∀ c, K c → K { c with shared := (f c.shared).2 } ∧ ∀ a, (f c.shared).1 = .ok a → post a) :
    Yields answer K (atomically f : Run F α) post :=
  fun c hc => wp_atomically (h c hc)

theorem yields_releasing {release : State → State} {m : Run F α} (hm : Yields answer K m post)
    (h : ∀ c, K c → K { c with shared := release c.shared }) :
    Yields answer K (releasing release m) post := by
  refine hm.attempt.bind fun outcome houtcome => ?_
  split
  · rename_i a
    exact Yields.pure (houtcome a rfl)
  · exact (Yields.modify h).seq fun _ => Yields.throw

/-- A function without state that writes nothing. -/
theorem Plain.maintains {m : Run F α} (h : Plain False (fun _ => False) m) (hK : Unseen answer K) :
    Maintains answer K m := by
  induction h with
  | pure => exact Maintains.pure
  | throw => exact Maintains.throw
  | ask _ hwrites => exact Maintains.ask (hK _ (Bool.eq_false_iff.2 hwrites))
  | bind _ _ hm hf => exact hm.bind hf
  | attempt _ hm => exact hm.attempt

end Rules

/-! ## Looking -/

section Looking

variable {F : Frame} {E : Type} {answer : E → (q : HostCall) → E × q.Answer}
  {K : Point F.sig E → Prop} {config : Config} {v : Sight} {α : Type} {identity : FileIdentity}
  {path : PathBuf} {c : Point F.sig E}

/-- What may be known where there is a sight. -/
def Sight.Of.view (hv : v.Of config answer K) : View where
  held file path := v.Located path (v.object file)
  file file identity := identity = v.object file
  child directory name identity := v.child (v.object directory) name identity
  found := v.Located
  known node snapshot := ∃ c, K c ∧ ∃ known, c.shared.nodes.byNode.find node = some known ∧
    snapshot = ⟨known.identity, known.paths⟩
  named := v.Named config
  looked := isListed
  opened name := isNormal name = true
  held_root := rfl
  found_file h hfile := hfile ▸ h
  found_child := Sight.leads_concat
  named_known := by
    rintro node _ ⟨c, hc, known, hfind, rfl⟩
    exact (hv.registered c hc).named node known hfind
  opened_normal _ h := h
  looked_opened _ h := .inl h

variable (hv : v.Of config answer K)

include hv

theorem named_of_rememberExisting (hc : K c) {node : NodeId}
    (h : (rememberExisting identity path c.shared).1 = .ok (some node)) :
    v.Named config node identity := by
  cases hfind : c.shared.nodes.byIdentity.find identity with
  | none =>
    rw [rememberExisting_none hfind] at h
    cases h
  | some =>
    obtain ⟨_, _, _, heq⟩ := rememberExisting_some path (hv.registered c hc).inverse hfind
    rw [heq] at h
    cases h
    exact (hv.registered c hc).linked hfind

theorem named_of_insertReserved (hc : K c) {node : NodeId}
    (h : (insertReserved config identity path c.shared).1 = .ok node) :
    v.Named config node identity := by
  have hregistered := hv.registered c hc
  rcases insertReserved_cases config path hregistered.inverse identity with
    ⟨_, hfind, heq⟩ | ⟨-, heq | ⟨hroot, -, heq⟩⟩ <;> rw [heq] at h <;> cases h
  · exact hregistered.linked hfind
  · exact (if_neg hroot).mpr rfl

/-- A call that only looks. -/
theorem Sight.Of.look {post : α → Prop} {call : HostCall}
    {read : call.Answer → Except Errno α} (hcall : call.mutates = false)
    (hpost : ∀ c, K c → ∀ a, read (answer c.env call).2 = .ok a → post a) :
    Yields answer K (system call read : Run F α) post :=
  yields_system (hv.unseen call hcall) hpost

theorem yields_statat (directory : Fd) (name : Name) :
    Yields answer K (system (.statat directory name) id : Run F Stat) fun stat =>
      v.described stat ∧ (isNormal name = true → v.child (v.object directory) name stat.identity) :=
  hv.look (by rfl) fun c hc stat hstat => hv.statat c hc directory name stat hstat

/-- **What a function sees that only looks.** -/
theorem Looks.yields {m : Run F α} {post : α → Prop} (h : Looks hv.view config m post) :
    Yields answer K m post := by
  induction h with
  | ofExcept h => exact Yields.ofExcept h
  | bind _ _ hm hf => exact hm.bind hf
  | attempt _ hm => exact hm.attempt
  | conseq _ h hm => exact hm.conseq h
  | read => exact Yields.read fun _ _ => trivial
  | plain h => exact (h.maintains hv.unseen).yields
  | dup h =>
    exact hv.look rfl fun c hc copy hcopy => (congrArg (v.Located _) (hv.dup c hc _ copy hcopy)).mpr h
  | openat h hname hcreate hnofollow =>
    exact hv.look hcreate fun c hc file hfile =>
      Sight.leads_concat h (hv.openat c hc _ _ _ _ file hname hcreate hnofollow hfile)
  | statat => exact (yields_statat hv _ _).conseq fun _ hstat => hstat.2
  | fstat => exact hv.look rfl fun c hc stat hstat => hv.fstat c hc _ stat hstat
  | readdir =>
    exact hv.look rfl fun c hc names hnames name hname =>
      have hlisted := hv.readdir c hc _ _ names hnames name hname
      ⟨hlisted.resolve_right, fun _ => hlisted⟩
  | loses h =>
    exact yields_atomically fun c hc =>
      ⟨hv.subsides c hc _ (h c.shared).toSubsides, fun _ _ => trivial⟩
  | releasing _ h hm =>
    exact yields_releasing hm fun c hc => hv.subsides c hc _ (h c.shared).toSubsides
  | remembers hpath =>
    exact yields_atomically fun c hc => ⟨hv.remembers c hc _ _ hpath, fun existing h node hnode =>
      named_of_rememberExisting hv hc (h.trans (congrArg Except.ok hnode))⟩
  | inserts hpath =>
    exact yields_atomically fun c hc => ⟨hv.inserts c hc _ _ hpath, fun node h =>
      named_of_insertReserved hv hc h⟩
  | lookUp =>
    refine yields_atomically fun c hc => ?_
    rw [Export.lookUp]
    split
    · exact ⟨hc, by simp⟩
    · rename_i known hfind
      exact ⟨hc, fun snapshot h => ⟨c, hc, known, hfind, (Except.ok.inj h).symm⟩⟩
  | opens => exact yields_atomically fun c hc => ⟨hv.opens c hc _ _ _, fun _ _ => trivial⟩

end Looking

end QuickFS.Export
