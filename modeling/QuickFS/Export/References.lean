import QuickFS.Export.Walk
import Mathlib.Data.List.GetD

/-!
# References

The registry has two maps, from nodes and from identities, and they are inverse to each other
whatever the sessions do.  Its count of the sessions that refer to a node is another matter.  A node
is dropped from the registry as soon as its last known path is gone, and the sessions that list it
go on listing it; when the same identity turns up again — the host has given the inode number to a
new file, or the old file still has a link that nobody had looked at — the node comes back with a
count of zero, and a session that lists it already is not counted again.  Then the count is too
small: the node may be evicted while it is in use, and to forget it fails
(`reinserted_node_is_not_counted`).  As long as no identity comes back while a session lists it
(`Settled`), the count is right.

In the middle of a call a reference may be owed: the session has taken the node off its list and the
registry does not know yet.  `Kept` has a list of those.
-/

namespace QuickFS.Export

open Server Async
open Call (Wp Maintains)
open Entries (mem_of_find of_find_insert find_of_mem find_filter)

/-! ## The two maps -/

/-- `by_node` and `by_identity` are inverse to each other. -/
structure Inverse (nodes : NodeRegistry) : Prop where
  distinctNodes : nodes.byNode.Distinct
  distinctIdentities : nodes.byIdentity.Distinct
  identityOf : ∀ node known, nodes.byNode.find node = some known →
    nodes.byIdentity.find known.identity = some node
  nodeOf : ∀ identity node, nodes.byIdentity.find identity = some node →
    ∃ known, nodes.byNode.find node = some known ∧ known.identity = identity

section Inverse

variable {nodes : NodeRegistry} {node : NodeId} {known known' : KnownNode} {identity : FileIdentity}

theorem find_put (other : NodeId) : (nodes.put node known).byNode.find other =
    if other = node then some known else nodes.byNode.find other := by
  rw [NodeRegistry.put]
  split
  · rename_i h
    rw [h]
    exact Entries.find_insert_self
  · rename_i h
    exact Entries.find_insert_of_ne h

/-- What is known of a node changes, but not its identity. -/
theorem Inverse.put (h : Inverse nodes) (hfind : nodes.byNode.find node = some known)
    (hidentity : known'.identity = known.identity) : Inverse (nodes.put node known') where
  distinctNodes := Entries.distinct_insert h.distinctNodes
  distinctIdentities := h.distinctIdentities
  identityOf other found hother := by
    rw [find_put] at hother
    split at hother
    · rename_i hsame
      cases hother
      rw [hidentity, hsame]
      exact h.identityOf node known hfind
    · exact h.identityOf other found hother
  nodeOf identity other hother := by
    obtain ⟨found, hfound, hid⟩ := h.nodeOf identity other hother
    rw [find_put]
    split
    · rename_i hsame
      subst hsame
      cases hfind.symm.trans hfound
      exact ⟨known', rfl, hidentity.trans hid⟩
    · exact ⟨found, hfound, hid⟩

theorem Inverse.release (h : Inverse nodes) (node : NodeId) : Inverse (nodes.release node) := by
  rw [NodeRegistry.release]
  split
  · rename_i known hfind
    exact h.put hfind rfl
  · exact h

/-- A node is removed. -/
theorem Inverse.erase (h : Inverse nodes) (hfind : nodes.byNode.find node = some known) :
    Inverse ⟨nodes.byNode.erase node, nodes.byIdentity.erase known.identity⟩ where
  distinctNodes := Entries.distinct_erase h.distinctNodes
  distinctIdentities := Entries.distinct_erase h.distinctIdentities
  identityOf other found hother := by
    obtain ⟨hsame, hother⟩ := Entries.of_find_erase hother
    have hid := h.identityOf other found hother
    rw [Entries.find_erase_of_ne]
    · exact hid
    intro heq
    rw [heq, h.identityOf node known hfind] at hid
    exact hsame (Option.some.inj hid).symm
  nodeOf identity other hother := by
    obtain ⟨hsame, hother⟩ := Entries.of_find_erase hother
    obtain ⟨found, hfound, hid⟩ := h.nodeOf identity other hother
    refine ⟨found, ?_, hid⟩
    rw [Entries.find_erase_of_ne]
    · exact hfound
    rintro rfl
    cases hfind.symm.trans hfound
    exact hsame hid.symm

/-- A node is added. -/
theorem Inverse.insert (h : Inverse nodes) (known : KnownNode)
    (hnode : nodes.byNode.find node = none)
    (hidentity : nodes.byIdentity.find known.identity = none) :
    Inverse ⟨nodes.byNode.insert node known, nodes.byIdentity.insert known.identity node⟩ where
  distinctNodes := Entries.distinct_insert h.distinctNodes
  distinctIdentities := Entries.distinct_insert h.distinctIdentities
  identityOf other found hother := by
    rcases of_find_insert hother with ⟨rfl, rfl⟩ | ⟨-, hother⟩
    · exact Entries.find_insert_self
    · have hid := h.identityOf other found hother
      rw [Entries.find_insert_of_ne]
      · exact hid
      intro heq
      rw [heq, hidentity] at hid
      cases hid
  nodeOf identity other hother := by
    rcases of_find_insert hother with ⟨rfl, rfl⟩ | ⟨-, hother⟩
    · exact ⟨known, Entries.find_insert_self, rfl⟩
    · obtain ⟨found, hfound, hid⟩ := h.nodeOf identity other hother
      refine ⟨found, ?_, hid⟩
      rw [Entries.find_insert_of_ne]
      · exact hfound
      rintro rfl
      rw [hnode] at hfound
      cases hfound

section Paths

variable (which : NodeId → KnownNode → Bool) (f : List PathBuf → List PathBuf)

theorem find_mapPaths (node : NodeId) : (nodes.mapPaths which f).byNode.find node =
    (nodes.byNode.find node).map (NodeRegistry.repath which f node) :=
  Entries.find_mapValues

theorem identity_repath (node : NodeId) (known : KnownNode) :
    (NodeRegistry.repath which f node known).identity = known.identity := by
  rw [NodeRegistry.repath]
  split <;> rfl

theorem Inverse.mapPaths (h : Inverse nodes) : Inverse (nodes.mapPaths which f) where
  distinctNodes := Entries.distinct_mapValues h.distinctNodes
  distinctIdentities := h.distinctIdentities
  identityOf node known' hfind := by
    rw [find_mapPaths] at hfind
    obtain ⟨known, hold, rfl⟩ := Option.map_eq_some_iff.1 hfind
    rw [identity_repath]
    exact h.identityOf node known hold
  nodeOf identity node hfind := by
    obtain ⟨known, hknown, hid⟩ := h.nodeOf identity node hfind
    exact ⟨_, by rw [find_mapPaths, hknown]; rfl, (identity_repath which f node known).trans hid⟩

end Paths

theorem of_find_removeEmpty (h : Inverse nodes)
    (hfind : nodes.removeEmpty.byNode.find node = some known) :
    nodes.byNode.find node = some known ∧ NodeRegistry.isEmpty (node, known) = false := by
  rw [NodeRegistry.removeEmpty, find_filter h.distinctNodes, Option.filter_eq_some_iff] at hfind
  exact ⟨hfind.1, Bool.not_eq_true' _ ▸ hfind.2⟩

theorem Inverse.removeEmpty (h : Inverse nodes) : Inverse nodes.removeEmpty where
  distinctNodes := Entries.distinct_filter h.distinctNodes _
  distinctIdentities := Entries.distinct_filter h.distinctIdentities _
  identityOf node known hfind := by
    obtain ⟨hold, hkept⟩ := of_find_removeEmpty h hfind
    have hid := h.identityOf node known hold
    rw [NodeRegistry.removeEmpty, find_filter h.distinctIdentities, hid, Option.filter_some,
      if_pos]
    refine decide_eq_true fun hremoved => ?_
    -- A node with this identity that was removed is this node.
    obtain ⟨⟨other, found⟩, hmem, heq⟩ := List.mem_map.1 hremoved
    obtain ⟨hmem, hempty⟩ := List.mem_filter.1 hmem
    have hfound := find_of_mem h.distinctNodes hmem
    have hother := h.identityOf other found hfound
    rw [heq, hid] at hother
    cases hother
    cases hold.symm.trans hfound
    rw [hkept] at hempty
    cases hempty
  nodeOf identity node hfind := by
    rw [NodeRegistry.removeEmpty, find_filter h.distinctIdentities,
      Option.filter_eq_some_iff] at hfind
    obtain ⟨hold, hkept⟩ := hfind
    obtain ⟨known, hknown, rfl⟩ := h.nodeOf identity node hold
    refine ⟨known, ?_, rfl⟩
    rw [NodeRegistry.removeEmpty, find_filter h.distinctNodes, hknown, Option.filter_some,
      if_pos]
    rw [Bool.not_eq_true', ← Bool.not_eq_true]
    refine fun hempty => of_decide_eq_true hkept (List.mem_map.2 ⟨(node, known), ?_, rfl⟩)
    exact List.mem_filter.2 ⟨mem_of_find hknown, hempty⟩

end Inverse

/-! ## The counts -/

/-- How many sessions list a node. -/
def references (s : State) (node : NodeId) : ℕ :=
  s.sessions.countP fun session => decide (node ∈ session.knownNodes)

/-- No session lists the node. -/
def Unlisted (s : State) (node : NodeId) : Prop :=
  ∀ session ∈ s.sessions, node ∉ session.knownNodes

theorem references_eq_zero {s : State} {node : NodeId} :
    references s node = 0 ↔ Unlisted s node := by
  rw [references, List.countP_eq_zero]
  exact forall₂_congr fun session _ => by rw [decide_eq_true_eq]

/-- The identity is known, or no session lists the node it would get. -/
def Settled (config : Config) (s : State) (identity : FileIdentity) : Prop :=
  (s.nodes.byIdentity.find identity).isSome = true ∨
    Unlisted s (config.digests.stableNodeId identity)

/-- **The invariant of the registry**, while some references are owed.  The counts are part of it
only if they are asked for. -/
structure Kept (config : Config) (counting : Prop) (owed : List NodeId) (s : State) : Prop where
  inverse : Inverse s.nodes
  named : ∀ node known, node ≠ rootNode → s.nodes.byNode.find node = some known →
    config.digests.stableNodeId known.identity = node
  distinct : ∀ session ∈ s.sessions, session.knownNodes.Nodup
  counted : counting → ∀ node known, node ≠ rootNode → s.nodes.byNode.find node = some known →
    known.sessionReferences = references s node + owed.count node

section Sections

variable {config : Config} {counting : Prop} {owed : List NodeId} {s s' : State} {i : ℕ}
  {node : NodeId} {identity : FileIdentity} {path : PathBuf}

/-- What happens to the registry when a node is known by its identity: it has one path more. -/
theorem rememberExisting_some (path : PathBuf) (h : Inverse s.nodes)
    (hfind : s.nodes.byIdentity.find identity = some node) :
    ∃ known, s.nodes.byNode.find node = some known ∧ known.identity = identity ∧
      rememberExisting identity path s = (.ok (some node), { s with
        nodes := s.nodes.put node { known with paths := insertPath path known.paths } }) := by
  obtain ⟨known, hknown, hidentity⟩ := h.nodeOf identity node hfind
  refine ⟨known, hknown, hidentity, ?_⟩
  simp only [rememberExisting, hfind, hknown]

theorem rememberExisting_none (hfind : s.nodes.byIdentity.find identity = none) :
    rememberExisting identity path s = (.ok none, s) := by
  rw [rememberExisting, hfind]

variable (config path) in
/-- What a permit is used for: when the identity is not known there is a new node, or an error. -/
theorem insertReserved_cases (h : Inverse s.nodes) (identity : FileIdentity) :
    (∃ node, s.nodes.byIdentity.find identity = some node ∧ insertReserved config identity path s =
      (.ok node, (rememberExisting identity path s).2.dropNodePermit)) ∨
    s.nodes.byIdentity.find identity = none ∧
      (insertReserved config identity path s = (.error .stateUnavailable, s.dropNodePermit) ∨
      config.digests.stableNodeId identity ≠ rootNode ∧
        s.nodes.byNode.find (config.digests.stableNodeId identity) = none ∧
        insertReserved config identity path s = (.ok (config.digests.stableNodeId identity), { s with
          nodes := ⟨s.nodes.byNode.insert (config.digests.stableNodeId identity)
            ⟨identity, [path], 0⟩,
            s.nodes.byIdentity.insert identity (config.digests.stableNodeId identity)⟩ })) := by
  cases hfind : s.nodes.byIdentity.find identity with
  | some node =>
    obtain ⟨known, -, -, heq⟩ := rememberExisting_some path h hfind
    exact .inl ⟨node, rfl, by rw [insertReserved, heq]⟩
  | none =>
    rw [insertReserved, rememberExisting_none hfind]
    refine .inr ⟨rfl, ?_⟩
    dsimp only
    split
    · exact .inl rfl
    rename_i hfree
    refine .inr ⟨fun hroot => hfree (.inl hroot), ?_, rfl⟩
    -- A node of this name would have this identity, which is not known.
    cases hnode : s.nodes.byNode.find (config.digests.stableNodeId identity) with
    | none => rfl
    | some known =>
      by_cases hidentity : known.identity = identity
      · have hknown := h.identityOf _ known hnode
        rw [hidentity, hfind] at hknown
        cases hknown
      · exact absurd (.inr ⟨known, hnode, hidentity⟩) hfree

theorem session_mem (hi : i < s.sessions.length) : s.session i ∈ s.sessions := by
  rw [State.session, List.getD_eq_getElem _ _ hi]
  exact List.getElem_mem hi

theorem Kept.distinct_session (h : Kept config counting owed s) (i : ℕ) :
    (s.session i).knownNodes.Nodup := by
  by_cases hi : i < s.sessions.length
  · exact h.distinct _ (session_mem hi)
  · rw [State.session, List.getD_eq_default _ _ (Nat.le_of_not_lt hi)]
    exact List.nodup_nil

/-- A session is replaced: its list may have one node more or less. -/
theorem references_setSession (hi : i < s.sessions.length) (session : Session) (node : NodeId) :
    references (s.setSession i session) node + (if node ∈ (s.session i).knownNodes then 1 else 0) =
      references s node + if node ∈ session.knownNodes then 1 else 0 := by
  have hold : s.session i = s.sessions[i] := List.getD_eq_getElem _ _ hi
  rw [references, State.setSession, List.countP_set hi, hold, references]
  simp only [decide_eq_true_eq]
  split
  · rename_i hmem
    have hpos : 0 < s.sessions.countP fun session => decide (node ∈ session.knownNodes) :=
      List.countP_pos_iff.2 ⟨_, List.getElem_mem hi, decide_eq_true hmem⟩
    omega
  · omega

/-- The same list in another order, or with other permits and handles. -/
theorem references_setSession_of_same {session : Session}
    (hsame : session.knownNodes = (s.session i).knownNodes) :
    references (s.setSession i session) node = references s node := by
  by_cases hi : i < s.sessions.length
  · have hcount := references_setSession hi session node
    rw [hsame] at hcount
    exact Nat.add_right_cancel hcount
  · rw [State.setSession, List.set_eq_of_length_le (Nat.le_of_not_lt hi)]

section

variable (h : Kept config counting owed s)

include h

theorem distinct_setSession {session : Session} (hsession : session.knownNodes.Nodup) :
    ∀ other ∈ (s.setSession i session).sessions, other.knownNodes.Nodup := by
  intro other hmem
  rcases List.mem_or_eq_of_mem_set hmem with hold | rfl
  · exact h.distinct other hold
  · exact hsession

/-- Nodes go, or change in other ways than their identity and their count. -/
theorem Kept.nodes (hinverse : Inverse s'.nodes) (hsessions : s'.sessions = s.sessions)
    (hfrom : ∀ node known', s'.nodes.byNode.find node = some known' →
      ∃ known, s.nodes.byNode.find node = some known ∧ known'.identity = known.identity ∧
        known'.sessionReferences = known.sessionReferences) : Kept config counting owed s' where
  inverse := hinverse
  named node known' hroot hfind := by
    obtain ⟨known, hknown, hid, -⟩ := hfrom node known' hfind
    rw [hid]
    exact h.named node known hroot hknown
  distinct := hsessions ▸ h.distinct
  counted hcounting node known' hroot hfind := by
    obtain ⟨known, hknown, -, hrefs⟩ := hfrom node known' hfind
    rw [hrefs, references, hsessions]
    exact h.counted hcounting node known hroot hknown

/-- A session changes, but not its list. -/
theorem Kept.setSession (session : Session)
    (hsame : session.knownNodes = (s.session i).knownNodes) :
    Kept config counting owed (s.setSession i session) where
  inverse := h.inverse
  named := h.named
  distinct := distinct_setSession h (hsame ▸ h.distinct_session i)
  counted hcounting node known hroot hfind := by
    rw [references_setSession_of_same hsame]
    exact h.counted hcounting node known hroot hfind

theorem Kept.dropSessionPermit : Kept config counting owed (s.dropSessionPermit i) :=
  h.setSession _ rfl

theorem Kept.nodePermits (permits : ℕ) :
    Kept config counting owed { s with nodePermits := permits } :=
  h.nodes h.inverse rfl fun _ known hfind => ⟨known, hfind, rfl, rfl⟩

end

/-! ### Evictions -/

variable (config counting owed) in
/-- What the sections do that make room. -/
structure MakesRoom (s s' : State) : Prop where
  kept : Kept config counting owed s'
  length : s'.sessions.length = s.sessions.length
  settled : counting → ∀ identity, Settled config s identity → Settled config s' identity

theorem MakesRoom.trans {s'' : State} (h : MakesRoom config counting owed s s')
    (h' : MakesRoom config counting owed s' s'') : MakesRoom config counting owed s s'' :=
  ⟨h'.kept, h'.length.trans h.length,
    fun hc identity hs => h'.settled hc identity (h.settled hc identity hs)⟩

theorem makesRoom_refl (h : Kept config counting owed s) : MakesRoom config counting owed s s :=
  ⟨h, rfl, fun _ _ hs => hs⟩

theorem unlisted_setSession {session : Session}
    (hsub : session.knownNodes ⊆ (s.session i).knownNodes) (h : Unlisted s node) :
    Unlisted (s.setSession i session) node := by
  intro other hmem hnode
  by_cases hi : i < s.sessions.length
  · rcases List.mem_or_eq_of_mem_set hmem with hold | rfl
    · exact h other hold hnode
    · exact h _ (session_mem hi) (hsub hnode)
  · rw [State.setSession, List.set_eq_of_length_le (Nat.le_of_not_lt hi)] at hmem
    exact h other hmem hnode

theorem mem_of_firstOf {candidates : List NodeId} (h : firstOf config candidates = some node) :
    node ∈ candidates :=
  List.mem_of_getElem? h

theorem find_release (node other : NodeId) (nodes : NodeRegistry) :
    (nodes.release node).byNode.find other =
      if other = node then (nodes.byNode.find node).map fun known =>
        { known with sessionReferences := known.sessionReferences - 1 }
      else nodes.byNode.find other := by
  rw [NodeRegistry.release]
  split
  · rename_i known hfind
    rw [find_put, hfind]
    rfl
  rename_i hfind
  split
  · rename_i hsame
    rw [hsame, hfind]
    rfl
  · rfl

variable (h : Kept config counting owed s)

include h

/-- A session takes a node off its list, and the registry counts one reference less. -/
theorem makesRoom_evictSession :
    MakesRoom config counting owed s (evictUnreferencedSessionNode config i s).2 := by
  simp only [evictUnreferencedSessionNode]
  split
  · exact makesRoom_refl h
  rename_i node hvictim
  have hmem := List.mem_filter.1 (mem_of_firstOf hvictim)
  have hi : i < s.sessions.length := by
    by_contra hi
    rw [State.session, List.getD_eq_default _ _ (Nat.le_of_not_lt hi)] at hmem
    cases hmem.1
  let session : Session := { s.session i with
    knownNodes := (s.session i).knownNodes.filter fun other => decide (other ≠ node)
    nodePermits := (s.session i).nodePermits + 1 }
  have hlisted : ∀ other, other ∈ session.knownNodes ↔ other ∈ (s.session i).knownNodes ∧ other ≠ node := by
    intro other
    rw [List.mem_filter, decide_eq_true_eq]
  refine ⟨⟨h.inverse.release node, fun other known' hroot hfind => ?_,
    distinct_setSession h ((h.distinct_session i).filter _), fun hcounting other known' hroot hfind => ?_⟩,
    List.length_set .., fun _ identity hs => ?_⟩
  · rw [find_release] at hfind
    split at hfind
    · rename_i hsame
      obtain ⟨known, hknown, rfl⟩ := Option.map_eq_some_iff.1 hfind
      exact h.named other known hroot (hsame ▸ hknown)
    · exact h.named other known' hroot hfind
  · have hcount := references_setSession hi session other
    show known'.sessionReferences = references (s.setSession i session) other + owed.count other
    rw [find_release] at hfind
    split at hfind
    · rename_i hsame
      subst hsame
      obtain ⟨known, hknown, rfl⟩ := Option.map_eq_some_iff.1 hfind
      have hold := h.counted hcounting other known hroot hknown
      rw [if_pos hmem.1, if_neg fun hin => ((hlisted other).1 hin).2 rfl] at hcount
      show known.sessionReferences - 1 = _
      omega
    · rename_i hne
      have hold := h.counted hcounting other known' hroot hfind
      have hiff : other ∈ session.knownNodes ↔ other ∈ (s.session i).knownNodes :=
        (hlisted other).trans (and_iff_left hne)
      simp only [hiff] at hcount
      omega
  · rcases hs with hknown | hunlisted
    · refine .inl ?_
      rw [NodeRegistry.release]
      split <;> exact hknown
    · exact .inr (unlisted_setSession (fun other hin => ((hlisted other).1 hin).1) hunlisted)

omit h in
/-- A node that no session refers to leaves the registry. -/
theorem makesRoom_evictGlobal (h : Kept config counting [] s) :
    MakesRoom config counting [] s (evictUnreferencedGlobalNode config s).2 := by
  simp only [evictUnreferencedGlobalNode]
  split
  · exact makesRoom_refl h
  rename_i node hvictim
  split
  · exact makesRoom_refl h
  rename_i known hfind
  have hvictim : node ≠ rootNode ∧ known.sessionReferences = 0 := by
    obtain ⟨⟨node', known'⟩, hmem, rfl⟩ := List.mem_map.1 (mem_of_firstOf hvictim)
    obtain ⟨hmem, htest⟩ := List.mem_filter.1 hmem
    cases hfind.symm.trans (find_of_mem h.inverse.distinctNodes hmem)
    rw [Bool.and_eq_true, decide_eq_true_eq, decide_eq_true_eq] at htest
    exact htest
  refine ⟨h.nodes (h.inverse.erase hfind) rfl fun other found hother => ?_, rfl,
    fun hcounting identity hs => ?_⟩
  · exact ⟨found, (Entries.of_find_erase hother).2, rfl, rfl⟩
  · rcases hs with hknown | hunlisted
    · by_cases hsame : identity = known.identity
      · -- The node that is evicted: nobody refers to it.
        subst hsame
        have hzero := h.counted hcounting node known hvictim.1 hfind
        rw [hvictim.2, List.count_nil] at hzero
        refine .inr ?_
        rw [h.named node known hvictim.1 hfind]
        exact references_eq_zero.1 hzero.symm
      · exact .inl (by rw [Entries.find_erase_of_ne hsame]; exact hknown)
    · exact .inr hunlisted

theorem makesRoom_takeSessionPermit :
    MakesRoom config counting owed s (takeSessionPermit i s).2 := by
  rw [takeSessionPermit]
  split
  · exact makesRoom_refl h
  · refine ⟨h.setSession _ rfl, List.length_set .., fun _ identity hs => ?_⟩
    exact hs.imp_right (unlisted_setSession (List.Subset.refl _))

theorem makesRoom_acquireSessionPermit :
    MakesRoom config counting owed s (acquireSessionPermit config i s).2 :=
  acquireSessionPermit_keeps (fun _ h1 => h1.trans (makesRoom_takeSessionPermit h1.kept))
    (fun _ h1 => h1.trans (makesRoom_evictSession h1.kept)) (makesRoom_refl h)

theorem makesRoom_takeNodePermit : MakesRoom config counting owed s (takeNodePermit s).2 := by
  rw [takeNodePermit]
  split
  · exact makesRoom_refl h
  · exact ⟨h.nodePermits _, rfl, fun _ _ hs => hs⟩

omit h in
theorem makesRoom_acquireNodePermit (h : Kept config counting [] s) :
    MakesRoom config counting [] s (acquireNodePermit config s).2 :=
  acquireNodePermit_keeps (fun _ h1 => h1.trans (makesRoom_takeNodePermit h1.kept))
    (fun _ h1 => h1.trans (makesRoom_evictGlobal h1.kept)) (makesRoom_refl h)

theorem makesRoom_dropSessionPermit : MakesRoom config counting owed s (s.dropSessionPermit i) :=
  ⟨h.dropSessionPermit, List.length_set ..,
    fun _ _ hs => hs.imp_right (unlisted_setSession (List.Subset.refl _))⟩

/-! ### References -/

/-- A session puts a node on its list, and the registry counts one reference more. -/
theorem kept_trackNodeWithPermit (hi : counting → i < s.sessions.length) :
    Kept config counting owed (trackNodeWithPermit i node s).2 ∧
      (trackNodeWithPermit i node s).2.sessions.length = s.sessions.length := by
  simp only [trackNodeWithPermit]
  split
  · exact ⟨h.dropSessionPermit, List.length_set ..⟩
  rename_i hnew
  split
  · exact ⟨h.dropSessionPermit, List.length_set ..⟩
  rename_i known hfind
  split
  · exact ⟨h.dropSessionPermit, List.length_set ..⟩
  let session : Session := { s.session i with knownNodes := node :: (s.session i).knownNodes }
  refine ⟨⟨h.inverse.put hfind rfl, fun other known' hroot hother => ?_,
    distinct_setSession h (List.nodup_cons.2 ⟨hnew, h.distinct_session i⟩),
    fun hcounting other known' hroot hother => ?_⟩, List.length_set ..⟩
  · rw [find_put] at hother
    split at hother
    · rename_i hsame
      cases hother
      exact h.named other known hroot (hsame ▸ hfind)
    · exact h.named other known' hroot hother
  · have hcount := references_setSession (hi hcounting) session other
    show known'.sessionReferences = references (s.setSession i session) other + owed.count other
    rw [find_put] at hother
    split at hother
    · rename_i hsame
      subst hsame
      cases hother
      have hold := h.counted hcounting other known hroot hfind
      rw [if_neg hnew, if_pos List.mem_cons_self] at hcount
      show known.sessionReferences + 1 = _
      omega
    · rename_i hne
      have hold := h.counted hcounting other known' hroot hother
      have hiff : other ∈ session.knownNodes ↔ other ∈ (s.session i).knownNodes :=
        List.mem_cons.trans (or_iff_right hne)
      simp only [hiff] at hcount
      omega

omit h in
/-- A reference that is owed is given back. -/
theorem kept_releaseNodeReference (h : Kept config counting (node :: owed) s) :
    Kept config counting owed (releaseNodeReference node s).2 ∧
      (releaseNodeReference node s).2.sessions.length = s.sessions.length := by
  have hother : ∀ other, other ≠ node → (node :: owed).count other = owed.count other :=
    fun other hne => List.count_cons_of_ne (Ne.symm hne)
  rw [releaseNodeReference]
  split
  · rename_i hroot
    refine ⟨⟨h.inverse, h.named, h.distinct, fun hcounting other known hne hfind => ?_⟩, rfl⟩
    rw [← hother other (hroot ▸ hne)]
    exact h.counted hcounting other known hne hfind
  rename_i hroot
  split
  · rename_i hgone
    refine ⟨⟨h.inverse, h.named, h.distinct, fun hcounting other known hne hfind => ?_⟩, rfl⟩
    rw [← hother other (by rintro rfl; rw [hgone] at hfind; cases hfind)]
    exact h.counted hcounting other known hne hfind
  rename_i known hfind
  have howed : counting → known.sessionReferences = references s node + (owed.count node + 1) := by
    intro hcounting
    have hcount := h.counted hcounting node known hroot hfind
    rwa [List.count_cons_self] at hcount
  split
  · rename_i hzero
    refine ⟨⟨h.inverse, h.named, h.distinct, fun hcounting => ?_⟩, rfl⟩
    have hcount := howed hcounting
    omega
  refine ⟨⟨h.inverse.release node, fun other known' hne hfind' => ?_, h.distinct,
    fun hcounting other known' hne hfind' => ?_⟩, rfl⟩
  · rw [find_release] at hfind'
    split at hfind'
    · rename_i hsame
      obtain ⟨found, hfound, rfl⟩ := Option.map_eq_some_iff.1 hfind'
      exact h.named other found hne (hsame ▸ hfound)
    · exact h.named other known' hne hfind'
  · show known'.sessionReferences = references s other + owed.count other
    rw [find_release] at hfind'
    split at hfind'
    · rename_i hsame
      subst hsame
      rw [hfind] at hfind'
      cases hfind'
      have hcount := howed hcounting
      show known.sessionReferences - 1 = _
      omega
    · rename_i hsame
      rw [← hother other hsame]
      exact h.counted hcounting other known' hne hfind'

omit h in
/-- It can be given back. -/
theorem releaseNodeReference_ok (h : Kept config counting (node :: owed) s) (hcounting : counting)
    {e : ServerError} : (releaseNodeReference node s).1 ≠ .error e := by
  rw [releaseNodeReference]
  split
  · simp
  rename_i hroot
  split
  · simp
  rename_i known hfind
  have hcount := h.counted hcounting node known hroot hfind
  rw [List.count_cons_self] at hcount
  rw [if_neg (by omega)]
  simp

theorem kept_rememberExisting (identity : FileIdentity) (path : PathBuf) :
    Kept config counting owed (rememberExisting identity path s).2 ∧
      (rememberExisting identity path s).2.sessions = s.sessions := by
  simp only [rememberExisting]
  split
  · exact ⟨h, rfl⟩
  split
  · exact ⟨h, rfl⟩
  rename_i known hfind
  refine ⟨h.nodes (h.inverse.put hfind rfl) rfl fun other known' hother => ?_, rfl⟩
  rw [find_put] at hother
  split at hother
  · rename_i hsame
    cases hother
    exact ⟨known, hsame ▸ hfind, rfl, rfl⟩
  · exact ⟨known', hother, rfl, rfl⟩

omit h in
/-- **A node is added when no session lists it**, or its path is. -/
theorem kept_insertReserved (h : Kept config counting [] s)
    (hsettled : counting → Settled config s identity) :
    Kept config counting [] (insertReserved config identity path s).2 ∧
      (insertReserved config identity path s).2.sessions = s.sessions := by
  rcases insertReserved_cases config path h.inverse identity with
    ⟨node, -, heq⟩ | ⟨hnone, heq | ⟨-, hgone, heq⟩⟩ <;> rw [heq]
  · have hexisting := kept_rememberExisting h identity path
    exact ⟨hexisting.1.nodePermits _, hexisting.2⟩
  · exact ⟨h.nodePermits _, rfl⟩
  refine ⟨⟨h.inverse.insert ⟨identity, [path], 0⟩ hgone hnone,
    fun other known hne hother => ?_, h.distinct, fun hcounting other known hne hother => ?_⟩, rfl⟩
  · rcases of_find_insert hother with ⟨rfl, rfl⟩ | ⟨-, hother⟩
    · rfl
    · exact h.named other known hne hother
  · show known.sessionReferences = references s other + _
    rcases of_find_insert hother with ⟨rfl, rfl⟩ | ⟨-, hother⟩
    · rcases hsettled hcounting with hknown | hunlisted
      · rw [hnone] at hknown
        cases hknown
      · rw [references_eq_zero.2 hunlisted]
        rfl
    · exact h.counted hcounting other known hne hother

omit h in
/-- A session takes nodes off its list, and owes the references. -/
theorem kept_forget (h : Kept config counting [] s) (hi : i < s.sessions.length)
    (session : Session) {released : List NodeId} (hdistinct : released.Nodup)
    (hsub : released ⊆ (s.session i).knownNodes)
    (hleft : ∀ node, node ≠ rootNode →
      (node ∈ session.knownNodes ↔ node ∈ (s.session i).knownNodes ∧ node ∉ released))
    (hnodup : session.knownNodes.Nodup) :
    Kept config counting released (s.setSession i session) where
  inverse := h.inverse
  named := h.named
  distinct := distinct_setSession h hnodup
  counted hcounting node known hroot hfind := by
    have hcount := references_setSession hi session node
    have hold := h.counted hcounting node known hroot hfind
    rw [List.count_nil] at hold
    by_cases hmem : node ∈ released
    · rw [if_pos (hsub hmem), if_neg fun hin => ((hleft node hroot).1 hin).2 hmem] at hcount
      rw [List.count_eq_one_of_mem hdistinct hmem]
      omega
    have hiff : node ∈ session.knownNodes ↔ node ∈ (s.session i).knownNodes :=
      (hleft node hroot).trans (and_iff_left hmem)
    simp only [hiff] at hcount
    rw [List.count_eq_zero_of_not_mem hmem]
    omega

/-- Nodes without a path are removed. -/
theorem Kept.removeEmpty : Kept config counting owed s.removeEmpty :=
  h.nodes h.inverse.removeEmpty rfl fun _ known hfind =>
    ⟨known, (of_find_removeEmpty h.inverse hfind).1, rfl, rfl⟩

theorem Kept.mapPaths (which : NodeId → KnownNode → Bool) (f : List PathBuf → List PathBuf) :
    Kept config counting owed { s with nodes := s.nodes.mapPaths which f } := by
  refine h.nodes (h.inverse.mapPaths which f) rfl fun node known' hfind => ?_
  obtain ⟨known, hold, rfl⟩ := Option.map_eq_some_iff.1 ((find_mapPaths which f node).symm.trans hfind)
  refine ⟨known, hold, identity_repath which f node known, ?_⟩
  rw [NodeRegistry.repath]
  split <;> rfl

theorem kept_updateRegistryAfterRename {old new : PathBuf} {mode : RenameMode}
    {source : FileIdentity} {destination : Option FileIdentity} :
    Kept config counting owed (updateRegistryAfterRename old new mode source destination s).2 := by
  simp only [updateRegistryAfterRename]
  split
  · exact h
  split
  · exact ((h.mapPaths _ _).mapPaths _ _).removeEmpty
  · exact (h.mapPaths _ _).removeEmpty

end Sections

/-! ## Calls -/

section Calls

variable {F : Frame} {E : Type} {answer : E → (q : HostCall) → E × q.Answer} {config : Config}
  {counting : Prop} {i : ℕ} {c : Point F.sig E} {identity : FileIdentity}

variable (config counting i) in
/-- Between two calls of a session. -/
def Steady (c : Point F.sig E) : Prop :=
  Kept config counting [] c.shared ∧ i < c.shared.sessions.length

variable (config counting i) in
/-- The same, when an identity may be remembered. -/
def Awaiting (identity : FileIdentity) (c : Point F.sig E) : Prop :=
  Steady config counting i c ∧ (counting → Settled config c.shared identity)

theorem MakesRoom.steady {s' : State} (h : MakesRoom config counting [] c.shared s')
    (hc : Steady config counting i c) :
    Steady config counting i ({ c with shared := s' } : Point F.sig E) :=
  ⟨h.kept, by rw [h.length]; exact hc.2⟩

theorem MakesRoom.awaiting {s' : State} (h : MakesRoom config counting [] c.shared s')
    (hc : Awaiting config counting i identity c) :
    Awaiting config counting i identity ({ c with shared := s' } : Point F.sig E) :=
  ⟨h.steady hc.1, fun hcounting => h.settled hcounting identity (hc.2 hcounting)⟩

theorem steady_tracked (hc : Steady config counting i c) (node : NodeId) :
    Steady config counting i
      ({ c with shared := (trackNodeWithPermit i node c.shared).2 } : Point F.sig E) := by
  obtain ⟨hkept, hlength⟩ := kept_trackNodeWithPermit hc.1 (fun _ => hc.2)
  exact ⟨hkept, by rw [hlength]; exact hc.2⟩

theorem maintains_trackNode {node : NodeId} :
    Maintains answer (Steady config counting i) (trackNode config i node : Run F Unit) := by
  refine Maintains.bind Maintains.read fun known => ?_
  split
  · exact Maintains.pure
  · exact (maintains_atomically fun _ hc => (makesRoom_acquireSessionPermit hc.1).steady hc).bind
      fun _ => maintains_atomically fun _ hc => steady_tracked hc node

theorem maintains_reserveNode :
    Maintains answer (Awaiting config counting i identity) (reserveNode config i : Run F Unit) :=
  (maintains_atomically fun _ hc => (makesRoom_acquireSessionPermit hc.1.1).awaiting hc).bind fun _ =>
    maintains_releasing
      (maintains_atomically fun _ hc => (makesRoom_acquireNodePermit hc.1.1).awaiting hc)
      fun _ hc => (makesRoom_dropSessionPermit hc.1.1).awaiting hc

theorem rememberReserved_steady {path : PathBuf} (hc : Awaiting config counting i identity c) :
    Wp answer (rememberReserved config i identity path : Run F NodeId) c
      fun _ c' => Steady config counting i c' := by
  obtain ⟨hkept, hsessions⟩ := kept_insertReserved hc.1.1 hc.2
  have hlength : i < (insertReserved config identity path c.shared).2.sessions.length := by
    rw [hsessions]
    exact hc.1.2
  refine Wp.bind (wp_releasing (wp_atomically ?_))
  cases (insertReserved config identity path c.shared).1 with
  | error => exact ⟨hkept.dropSessionPermit, (List.length_set ..).symm ▸ hlength⟩
  | ok node =>
    exact Maintains.bind (maintains_atomically fun _ hc => steady_tracked hc node)
      (fun _ => Maintains.pure) _ ⟨hkept, hlength⟩

theorem remember_steady (path : PathBuf) (hc : Awaiting config counting i identity c) :
    Wp answer (remember config i identity path : Run F NodeId) c
      fun _ c' => Steady config counting i c' := by
  obtain ⟨hkept, hsessions⟩ := kept_rememberExisting hc.1.1 identity path
  refine Wp.bind (wp_atomically ?_)
  cases hfind : c.shared.nodes.byIdentity.find identity with
  | none =>
    rw [rememberExisting_none hfind]
    exact maintains_reserveNode.bind_wp hc (fun _ _ hc' => rememberReserved_steady hc')
      fun _ _ hc' => hc'.1
  | some node =>
    have hfirst : (rememberExisting identity path c.shared).1 = .ok (some node) := by
      rw [rememberExisting, hfind]
    rw [hfirst]
    exact Maintains.bind maintains_trackNode (fun _ => Maintains.pure) _
      ⟨hkept, by rw [hsessions]; exact hc.1.2⟩

/-- The search for a node that no session lists. -/
theorem discoverFrom_steady {requested : NodeId} (visited : ℕ) (pending : List PathBuf)
    (hc : Steady config counting i c) (hunlisted : counting → Unlisted c.shared requested) :
    Wp answer (discoverFrom config i requested visited pending : Run F Unit) c
      fun _ c' => Steady config counting i c' := by
  -- The search reads only, up to the call of `remember` that ends it.
  let K : Point F.sig E → Prop := fun c =>
    Steady config counting i c ∧ (counting → Unlisted c.shared requested)
  have hK : Unseen answer K := fun _ _ _ hc => hc
  induction hmeasure : 2 * (config.limits.maxTotalKnownNodes - visited) + pending.length using
    Nat.strong_induction_on generalizing visited pending c with
  | _ measure ih =>
    cases pending with
    | nil =>
      rw [discoverFrom]
      exact Wp.throw hc
    | cons relative =>
      rw [discoverFrom]
      have hopen : Maintains answer K (openDirectory rootFile relative : Run F Fd) :=
        (hK.system rfl).bind fun current => maintains_openComponents hK current relative
      refine hopen.bind_wp ⟨hc, hunlisted⟩ (fun directory c1 hc1 => ?_) fun _ _ h => h.1
      refine (hK.system rfl).bind_wp hc1 (fun names c2 hc2 => ?_) fun _ _ h => h.1
      refine (maintains_statEntries hK directory names).bind_wp hc2 (fun entries c3 hc3 => ?_)
        fun _ _ h => h.1
      split
      · exact Wp.throw hc3.1
      · rename_i identity path hfound
        have hsettled : counting → Settled config c3.shared identity := by
          intro hcounting
          rw [Settled, examine_found hfound]
          exact .inr (hc3.2 hcounting)
        refine Wp.bind ((remember_steady path ⟨hc3.1, hsettled⟩).conseq fun r c4 hc4 => ?_)
        cases r with
        | error => exact hc4
        | ok =>
          dsimp only
          split
          · exact Wp.pure hc4
          · exact Wp.throw hc4
      · rename_i visited' pending' hmore
        have hless := examine_measure hmore
        rw [List.length_cons] at hmeasure
        exact ih _ (by omega) visited' pending' hc3.1 hc3.2 rfl

theorem nodeSnapshot_steady {node : NodeId} (hc : Steady config counting i c)
    (hsettled : counting → (c.shared.nodes.byNode.find node).isSome = true ∨
      Unlisted c.shared node) :
    Wp answer (nodeSnapshot config i node : Run F NodeSnapshot) c
      fun _ c' => Steady config counting i c' := by
  have hrest : ∀ c', Steady config counting i c' → Wp answer (do
      let snapshot ← atomically (lookUp node)
      trackNode config i node
      pure snapshot : Run F NodeSnapshot) c' fun _ c'' => Steady config counting i c'' := by
    refine Maintains.bind (maintains_atomically fun c hc => ?_) fun snapshot =>
      maintains_trackNode.bind fun _ => Maintains.pure
    rw [lookUp]
    split <;> exact hc
  refine Wp.bind_read ?_
  split
  · exact hrest c hc
  rename_i hgone
  refine Wp.bind (Wp.conseq (Q := fun _ c' => Steady config counting i c') ?_ fun r c' hc' => ?_)
  · rw [discoverNode]
    split
    · exact Wp.pure hc
    · exact discoverFrom_steady 0 [[]] hc fun hcounting => (hsettled hcounting).resolve_left hgone
  · cases r with
    | ok => exact hrest c' hc'
    | error => exact hc'

/-- Owed references are given back, one after the other. -/
theorem release_steady {owed : List NodeId} (hkept : Kept config counting owed c.shared)
    (hi : i < c.shared.sessions.length) :
    Wp answer (owed.forM fun node => atomically (releaseNodeReference node) : Run F PUnit) c
      fun _ c' => Steady config counting i c' := by
  induction owed generalizing c with
  | nil => exact Wp.pure ⟨hkept, hi⟩
  | cons node _ ih =>
    obtain ⟨hnext, hlength⟩ := kept_releaseNodeReference hkept
    refine Wp.bind (wp_atomically ?_)
    cases hr : (releaseNodeReference node c.shared).1 with
    | ok => exact ih hnext (by rw [hlength]; exact hi)
    | error =>
      -- The count was zero, so it is not one of those that are asked for.
      refine ⟨⟨hnext.inverse, hnext.named, hnext.distinct, fun hcounting => ?_⟩,
        by rw [hlength]; exact hi⟩
      exact absurd hr (releaseNodeReference_ok hkept hcounting)

theorem maintains_forgetNodes {requested : List NodeId} :
    Maintains answer (Steady config counting i) (forgetNodes i requested : Run F Unit) := by
  intro c hc
  rw [forgetNodes]
  split
  · exact Wp.throw hc
  refine Wp.bind (wp_atomically (release_steady ?_ ((List.length_set ..).symm ▸ hc.2)))
  have hmem : ∀ node, node ∈ requested.dedup.filter (fun node =>
      decide (node ≠ rootNode) && decide (node ∈ (c.shared.session i).knownNodes)) →
      node ∈ (c.shared.session i).knownNodes := by
    intro node hnode
    have htest := (List.mem_filter.1 hnode).2
    rw [Bool.and_eq_true, decide_eq_true_eq, decide_eq_true_eq] at htest
    exact htest.2
  refine kept_forget hc.1 hc.2 _ ((List.nodup_dedup requested).filter _) hmem (fun node _ => ?_)
    ((hc.1.distinct_session i).filter _)
  rw [List.mem_filter, decide_eq_true_eq]

theorem maintains_dropSession :
    Maintains answer (Steady config counting i) (dropSession i : Run F Unit) := by
  intro c hc
  have hmem : ∀ node, node ∈ (c.shared.session i).knownNodes.filter (fun node =>
      decide (node ≠ rootNode)) ↔ node ∈ (c.shared.session i).knownNodes ∧ node ≠ rootNode := by
    intro node
    rw [List.mem_filter, decide_eq_true_eq]
  have hkept : Kept config counting ((c.shared.session i).knownNodes.filter fun node =>
      decide (node ≠ rootNode)) (drainKnown i c.shared).2 := by
    have hforget := kept_forget hc.1 hc.2
      { c.shared.session i with knownNodes := [], handles := [] }
      ((hc.1.distinct_session i).filter fun node => decide (node ≠ rootNode))
      (fun node hnode => ((hmem node).1 hnode).1) (fun node hroot => ?_) List.nodup_nil
    · exact hforget.nodes hforget.inverse rfl fun _ known hfind => ⟨known, hfind, rfl, rfl⟩
    · rw [hmem]
      exact iff_of_false List.not_mem_nil fun hno => hno.2 ⟨hno.1, hroot⟩
  refine Wp.bind (wp_atomically ?_)
  show Wp answer (List.forM _ _ : Run F PUnit) _ _
  have hlength : i < (drainKnown i c.shared).2.sessions.length := (List.length_set ..).symm ▸ hc.2
  generalize (drainKnown i c.shared).2 = s at hkept hlength ⊢
  generalize (c.shared.session i).knownNodes.filter (fun node => decide (node ≠ rootNode)) = owed
    at hkept ⊢
  induction owed generalizing s with
  | nil => exact Wp.pure ⟨hkept, hlength⟩
  | cons _ _ ih =>
    obtain ⟨hnext, hsame⟩ := kept_releaseNodeReference hkept
    refine Wp.bind (Wp.bind (Wp.attempt (wp_atomically (Wp.pure ?_))))
    exact ih _ (hsame.symm ▸ hlength) hnext

end Calls

/-! ## Every sequence of calls -/

/-- What happens to the registry.  `create` is what the requests that create something do with it; a
session's open files are what it does not evict. -/
inductive RegistryOp where
  | newSession (writeAuthorized : Bool)
  | dropSession (session : ℕ)
  | setHandles (session : ℕ) (handles : Entries FileHandle OpenFile)
  | remember (session : ℕ) (identity : FileIdentity) (path : PathBuf)
  | create (session : ℕ) (identity : FileIdentity) (path : PathBuf)
  | nodeSnapshot (session : ℕ) (node : NodeId)
  | forgetNodes (session : ℕ) (requested : List NodeId)
  | evictSessionNode (session : ℕ)
  | evictGlobalNode
  | removeNode (path : PathBuf) (directory : Bool)
  | renameNode (old new : PathBuf) (mode : RenameMode) (source : FileIdentity)
      (destination : Option FileIdentity)

@[reducible]
def registryFrame : Frame := ⟨Unit, Unit, RegistryOp, Except ServerError Unit⟩

/-- A call of a session that there is. -/
def onSession {F : Frame} (i : ℕ) (m : Run F Unit) : Run F Unit := do
  let live ← Call.read fun s => decide (i < s.sessions.length)
  if live then m else pure ()

def RegistryOp.run {F : Frame} (config : Config) : RegistryOp → Run F Unit
  | newSession writeAuthorized => Call.modify fun s =>
      { s with sessions := s.sessions ++ [Session.new config writeAuthorized] }
  | dropSession i => onSession i (Export.dropSession i)
  | setHandles i handles => Call.modify fun s =>
      s.setSession i { s.session i with handles := handles }
  | remember i identity path => onSession i do
      let _ ← Export.remember config i identity path
      pure ()
  | create i identity path => onSession i do
      reserveNode config i
      let _ ← rememberReserved config i identity path
      pure ()
  | nodeSnapshot i node => onSession i do
      let _ ← Export.nodeSnapshot config i node
      pure ()
  | forgetNodes i requested => onSession i (Export.forgetNodes i requested)
  | evictSessionNode i => Call.modify fun s => (evictUnreferencedSessionNode config i s).2
  | evictGlobalNode => Call.modify fun s => (evictUnreferencedGlobalNode config s).2
  | removeNode path directory => atomically (removeRegistryPath path directory)
  | renameNode old new mode source destination =>
      atomically (updateRegistryAfterRename old new mode source destination)

/-- The registry as a program of its own. -/
def registry (config : Config) : Program registryFrame.sig where
  code op _ := (op.run config : Run registryFrame Unit).toTask id
  serve _ _ _ := none

/-- No node is added to the registry while a session lists it. -/
def RegistryOp.Settles {E : Type} (config : Config) (c : Point registryFrame.sig E) :
    RegistryOp → Prop
  | remember _ identity _ | create _ identity _ => Settled config c.shared identity
  | nodeSnapshot _ node => (c.shared.nodes.byNode.find node).isSome = true ∨ Unlisted c.shared node
  | _ => True

section Ops

variable {E : Type} {answer : E → (q : HostCall) → E × q.Answer} {config : Config} {counting : Prop}
  {c : Point registryFrame.sig E}

theorem onSession_kept {i : ℕ} {m : Run registryFrame Unit} (hc : Kept config counting [] c.shared)
    (hm : Steady config counting i c → Wp answer m c fun _ c' => Steady config counting i c') :
    Wp answer (onSession i m) c fun _ c' => Kept config counting [] c'.shared := by
  refine Wp.bind_read ?_
  split
  · rename_i hlive
    exact (hm ⟨hc, of_decide_eq_true hlive⟩).conseq fun _ _ h => h.1
  · exact Wp.pure hc

/-- The same without its result. -/
theorem discard_steady {α : Type} {i : ℕ} {m : Run registryFrame α}
    (hm : Wp answer m c fun _ c' => Steady config counting i c') :
    Wp answer (do let _ ← m; pure () : Run registryFrame Unit) c
      fun _ c' => Steady config counting i c' := by
  refine Wp.bind (hm.conseq fun r c' hc' => ?_)
  cases r with
  | ok => exact Wp.pure hc'
  | error => exact hc'

/-- **One call keeps the invariant.** -/
theorem run_kept (op : RegistryOp) (hc : Kept config counting [] c.shared)
    (hsettles : counting → op.Settles config c) :
    Wp answer (op.run config : Run registryFrame Unit) c
      fun _ c' => Kept config counting [] c'.shared := by
  cases op with
  | newSession =>
    refine Wp.modify ⟨hc.inverse, hc.named, fun session hmem => ?_,
      fun hcounting node known hroot hfind => ?_⟩
    · rcases List.mem_append.1 hmem with hold | hnew
      · exact hc.distinct session hold
      · rw [List.mem_singleton.1 hnew]
        exact List.nodup_singleton _
    · rw [references, List.countP_append, List.countP_singleton, if_neg]
      · exact hc.counted hcounting node known hroot hfind
      · rw [decide_eq_true_eq]
        exact fun hmem => hroot (List.mem_singleton.1 hmem)
  | dropSession => exact onSession_kept hc (maintains_dropSession c)
  | setHandles => exact Wp.modify (hc.setSession _ rfl)
  | remember _ _ path =>
    exact onSession_kept hc fun hsteady => discard_steady (remember_steady path ⟨hsteady, hsettles⟩)
  | create =>
    refine onSession_kept hc fun hsteady => ?_
    exact maintains_reserveNode.bind_wp ⟨hsteady, hsettles⟩
      (fun _ _ hc' => discard_steady (rememberReserved_steady hc')) fun _ _ hc' => hc'.1
  | nodeSnapshot =>
    exact onSession_kept hc fun hsteady => discard_steady (nodeSnapshot_steady hsteady hsettles)
  | forgetNodes => exact onSession_kept hc (maintains_forgetNodes c)
  | evictSessionNode => exact Wp.modify (makesRoom_evictSession hc).kept
  | evictGlobalNode => exact Wp.modify (makesRoom_evictGlobal hc).kept
  | removeNode => exact wp_atomically (hc.mapPaths _ _).removeEmpty
  | renameNode =>
    exact wp_atomically (kept_updateRegistryAfterRename hc)

/-- The export when it is opened. -/
theorem kept_new (counting : Prop) (rootIdentity : FileIdentity) (volumeName : Bytes) :
    Kept config counting [] (State.new config rootIdentity volumeName) where
  inverse :=
    { distinctNodes := List.nodup_singleton _
      distinctIdentities := List.nodup_singleton _
      identityOf := fun node known hfind => by
        have hmem := List.mem_singleton.1 (mem_of_find hfind)
        cases hmem
        exact find_of_mem (List.nodup_singleton _) (List.mem_singleton_self _)
      nodeOf := fun identity node hfind => by
        have hmem := List.mem_singleton.1 (mem_of_find hfind)
        cases hmem
        exact ⟨_, find_of_mem (List.nodup_singleton _) (List.mem_singleton_self _), rfl⟩ }
  named node known hroot hfind := by
    cases List.mem_singleton.1 (mem_of_find hfind)
    exact absurd rfl hroot
  distinct := nofun
  counted _ node known hroot hfind := by
    cases List.mem_singleton.1 (mem_of_find hfind)
    exact absurd rfl hroot

theorem evalOps_kept (ops : List RegistryOp) (hc : Kept config counting [] c.shared)
    (halong : Along (registry config) answer
      (fun c op => counting → RegistryOp.Settles config c op) ops c) :
    ∃ results, evalOps (registry config) answer ops c = some results ∧
      Kept config counting [] (lastPoint c results).shared := by
  refine evalOps_invariant (I := fun c => Kept config counting [] c.shared)
    (fun op _ c hc hsettles => ?_) hc halong
  obtain ⟨r, c', heval, hkept⟩ := (run_kept (c := { c with tasks := c.tasks + 1 }) op hc
    (by cases op <;> exact hsettles)).eval _
  exact ⟨r, c', heval, hkept⟩

/-- **The two maps of the registry stay inverse to each other, and the count of references is right
as long as nothing comes back while it is listed.**  The sessions make any calls, one after another,
and the host answers as it likes: every call ends, whatever happens.  If no call adds a node to the
registry that a session has on its list already, then the registry's count of a node is the number
of sessions that list it. -/
theorem registry_consistent (config : Config) (rootIdentity : FileIdentity) (volumeName : Bytes)
    (answer : E → (q : HostCall) → E × q.Answer) (env : E) (ops : List RegistryOp) :
    let start : Point registryFrame.sig E := ⟨State.new config rootIdentity volumeName, env, 0⟩
    ∃ results, evalOps (registry config) answer ops start = some results ∧
      Inverse (lastPoint start results).shared.nodes ∧
      (Along (registry config) answer (RegistryOp.Settles config) ops start →
        ∀ node known, node ≠ rootNode →
          (lastPoint start results).shared.nodes.byNode.find node = some known →
          known.sessionReferences = references (lastPoint start results).shared node) := by
  intro start
  obtain ⟨results, heval, hkept⟩ := evalOps_kept (c := start) ops
    (kept_new False rootIdentity volumeName) (along_of_forall fun _ _ _ => False.elim)
  refine ⟨results, heval, hkept.inverse, fun halong node known hroot hfind => ?_⟩
  obtain ⟨results', heval', hkept'⟩ := evalOps_kept (c := start) ops
    (kept_new True rootIdentity volumeName) (halong.imp fun _ _ h _ => h)
  cases Option.some.inj (heval.symm.trans heval')
  have hcount := hkept'.counted trivial node known hroot hfind
  rwa [List.count_nil, Nat.add_zero] at hcount

end Ops

/-- An export whose digests are simple: a node is the number of its inode and one. -/
def smallExport : Config where
  limits := ⟨4096, 4096, 8, 8, 8⟩
  writable := true
  persistent := false
  digests := ⟨fun _ => 0, fun revision _ _ => revision, fun identity => identity.inode + 1⟩
  hashOrder := fun _ => 0

/-- A session lists the file with inode 5 at `a`; `a` is removed, and the host gives the inode
number to a new file, which the same session finds at `b`.  The session lists the node, the registry
counts no reference to it, and to forget the node fails. -/
theorem reinserted_node_is_not_counted :
    ((evalOps (registry smallExport) (fun (_ : Unit) q => ((), q.refuse))
      [.newSession true, .remember 0 ⟨1, 5⟩ [[97]], .removeNode [[97]] false,
        .remember 0 ⟨1, 5⟩ [[98]], .forgetNodes 0 [6]]
      ⟨State.new smallExport ⟨1, 2⟩ [], (), 0⟩).map fun results => results.map fun r =>
        (r.1, (r.2.shared.nodes.byNode.find 6).map KnownNode.sessionReferences,
          references r.2.shared 6)) =
    some [(.ok (), none, 0), (.ok (), some 1, 1), (.ok (), none, 1), (.ok (), some 0, 1),
      (.error .stateUnavailable, some 0, 0)] := by
  decide +kernel

end QuickFS.Export
