import QuickFS.Client.Blocks

/-!
# What a cached read returns

A remote file system is *truthful* if there is one content for each node and revision, and all it
says is about those contents: a read answers with the slice that was asked for, of the content of
the revision it names, and whatever pairs a revision with a size pairs it with the size of its
content (`Truth.Right`).

The caching client keeps that.  Its bytes come from cache tiers, from fetches shared with other
reads, from fetches ahead, at two block sizes and over several attempts; but every piece is filed
under the revision it was read from, and a read is put together from pieces of one revision.  So a
read answers with the slice that was asked for, of the revision it names, and the cache never holds
a range that is not a slice of the revision it is filed under (`reads_truthful`).

What it takes is that the metadata the client goes by are true: those in its cache to begin with,
and those the remote sends by whatever way.  A read is cut off at the size its handle has on record,
and the handle of a file that was opened offline has it from the cache.
-/

namespace QuickFS.Cached

open Async Slices

/-! ## Truthful remotes -/

/-- The content of every revision of every node, and the node of every handle of the remote. -/
structure Truth where
  content : NodeId → FileRevision → List UInt8
  nodeOf : FileHandle → NodeId

namespace Truth

variable (t : Truth)

/-- The content of a revision. -/
def file (key : RevisionKey) : List UInt8 := t.content key.node key.revision

/-- The size that goes with a revision of a node. -/
def SizeOf (node : NodeId) (revision : FileRevision) (size : ℕ) : Prop :=
  size = (t.content node revision).length

/-- Metadata of a node. -/
def Describes (node : NodeId) (metadata : Metadata) : Prop :=
  metadata.node = node ∧ t.SizeOf node metadata.revision metadata.size

theorem Describes.own {t : Truth} {node : NodeId} {metadata : Metadata}
    (h : t.Describes node metadata) : t.Describes metadata.node metadata := by
  rw [h.1]
  exact h

/-- What a truthful remote may answer. -/
def Right : (operation : RemoteCall) → operation.Output → Prop
  | .getMetadata node, metadata => t.Describes node metadata
  | .listDirectorySnapshot _, snapshot =>
    ∀ entry ∈ snapshot.entries, t.Describes entry.node entry.metadata
  | .listDirectoryView _ _, view =>
    (∀ entry ∈ view.entries, t.Describes entry.entry.node entry.entry.metadata) ∧
      t.Describes view.directory.node view.directory ∧ t.Describes view.parent.node view.parent
  | .openFileWithOptions node _, opened =>
    t.nodeOf opened.handle = node ∧ t.SizeOf node opened.revision opened.size
  | .createFile _ _ _ _, created =>
    t.Describes created.metadata.node created.metadata ∧
      t.nodeOf created.opened.handle = created.metadata.node ∧
        t.SizeOf created.metadata.node created.opened.revision created.opened.size
  | .createDirectory _ _ _, metadata => t.Describes metadata.node metadata
  | .createSymlink _ _ target, metadata =>
    t.Describes metadata.node metadata ∧ t.content metadata.node metadata.revision = target
  | .createHardLink _ _ _, metadata => t.Describes metadata.node metadata
  | .createSpecialNode _ _ _ _ _ _, metadata => t.Describes metadata.node metadata
  -- The target of a symbolic link never changes.
  | .readLink node, target => ∀ revision, t.content node revision = target
  | .setAttributes node handle _, metadata =>
    t.Describes node metadata ∧ ∀ inner, handle = some inner → t.nodeOf inner = node
  | .readRangeVersioned handle offset length, read =>
    read.data = slice (t.content (t.nodeOf handle) read.revision) offset length
  | .writeRange handle _ _, result => t.SizeOf (t.nodeOf handle) result.revision result.size
  | .allocateFile handle _ _, result => t.SizeOf (t.nodeOf handle) result.revision result.size
  | .copyFileRange _ _ output _ _, result => t.SizeOf (t.nodeOf output) result.revision result.size
  | _, _ => True

/-- The remote may fail, and it may say what is true. -/
def Fair : (q : Question) → q.Answer → Prop
  | .call operation, reply => ∀ output, reply = .ok output → t.Right operation output
  | .now, _ => True
  | .deadline, _ => True
  | .disk, _ => True

/-- A truthful remote, which is free otherwise. -/
def outside : Outside where
  Env := Unit
  Choice := (q : Question) → { a : q.Answer // t.Fair q a }
  serve _ choice q := some ((), (choice q).1)

end Truth

/-! ## What the client keeps -/

section Contract

variable {κ : Type} {O : Outside} (t : Truth) (G : κ → Prop)

/-- The size and the remote handle that an entry of the handle table has on record. -/
def HandleTrue (state : CachedHandle) : Prop :=
  t.SizeOf state.node state.revision state.size ∧
    ∀ inner, state.inner = some inner → t.nodeOf inner = state.node

/-- What was fetched for a block: the block, or what there is of it. -/
def BlockTrue (block : RangeKey) (data : List UInt8) : Prop :=
  data.length ≤ block.length ∧ IsSlice (t.file block.file) block.offset data

/-- Everything the client has in its state is true; `G` is about the cache. -/
structure Truthful (s : State κ) : Prop where
  cache : G s.cache
  handles : ∀ logical state, s.handles logical = some state → HandleTrue t state
  fetches : ∀ block serial data, s.fetches block serial = .ready (.ok data) → BlockTrue t block data
  joins : ∀ join block data, s.joins join block = some (.ok data) → BlockTrue t block data
  bound : ∀ logical state, s.handles logical = some state → logical < s.nextHandle

/-- A logical handle is never used again for another file. -/
structure Evolves (s s' : State κ) : Prop where
  next : s.nextHandle ≤ s'.nextHandle
  handles : ∀ logical state', s'.handles logical = some state' → logical < s.nextHandle →
    ∃ state, s.handles logical = some state ∧ state.node = state'.node

/-- Where a read has its revision from: the entry of its handle, or the metadata it was sent when it
found that the file had moved on. -/
def RevisionFrom (i : ℕ) (state : CachedHandle) (revision : FileRevision)
    (past : List (Moment (sig κ O))) : Prop :=
  revision = state.revision ∨ ∃ m ∈ past, m.task = i ∧ ∃ metadata : Metadata,
    m.event = .answered (.call (.getMetadata state.node)) (.ok metadata) ∧
      metadata.revision = revision

/-- The result of a read is the slice that was asked for, of the file that the handle was of when
the read looked it up. -/
def ReadTrue (i : ℕ) (result : Option ((operation : RemoteCall) × operation.Reply))
    (past : List (Moment (sig κ O))) : Prop :=
  ∀ logical offset length read,
    result = some ⟨.readRangeVersioned logical offset length, .ok read⟩ →
      ∃ m ∈ past, m.task = i ∧ ∃ state, m.shared.handles logical = some state ∧
        read.data = slice (t.content state.node read.revision) offset length ∧
          RevisionFrom i state read.revision past

theorem Evolves.refl (s : State κ) : Evolves s s :=
  ⟨Nat.le_refl _, fun _ state h _ => ⟨state, h, rfl⟩⟩

theorem Evolves.trans {s s' s'' : State κ} (h : Evolves s s') (h' : Evolves s' s'') :
    Evolves s s'' := by
  refine ⟨Nat.le_trans h.next h'.next, fun logical state'' hs hlt => ?_⟩
  obtain ⟨state', hs', hnode'⟩ := h'.handles logical state'' hs (Nat.lt_of_lt_of_le hlt h.next)
  obtain ⟨state, hs, hnode⟩ := h.handles logical state' hs' hlt
  exact ⟨state, hs, hnode.trans hnode'⟩

/-- A step that leaves the handles alone. -/
theorem Evolves.of_handles {s s' : State κ} (hh : s'.handles = s.handles)
    (hn : s'.nextHandle = s.nextHandle) : Evolves s s' :=
  ⟨Nat.le_of_eq hn.symm, fun _ state h _ => ⟨state, hh ▸ h, rfl⟩⟩

/-- The contract of the calls, before they know anything. -/
def contract : Contract (sig κ O) where
  good := Truthful t G
  evolves := Evolves
  evolves_refl := Evolves.refl
  evolves_trans _ _ _ := Evolves.trans
  fair := t.Fair
  sound := ReadTrue t
  known _ := True
  known_stable _ _ _ _ h := h

/-- The same for calls that know something. -/
structure Follows (C : Contract (sig κ O)) : Prop where
  good : C.good = Truthful t G
  evolves : C.evolves = Evolves
  fair : C.fair = t.Fair
  sound : C.sound = ReadTrue t

end Contract

namespace Truthful

variable {κ : Type} {t : Truth} {G : κ → Prop} {s : State κ}

theorem setHandle (h : Truthful t G s) {logical : FileHandle} {state : Option CachedHandle}
    (hstate : ∀ st, state = some st → HandleTrue t st ∧ logical < s.nextHandle) :
    Truthful t G (s.setHandle logical state) := by
  have hcases : ∀ l st, (s.setHandle logical state).handles l = some st →
      HandleTrue t st ∧ l < s.nextHandle := by
    intro l st hst
    rw [State.setHandle] at hst
    dsimp only at hst
    split at hst
    · rename_i heq
      exact heq ▸ hstate st hst
    · exact ⟨h.handles l st hst, h.bound l st hst⟩
  exact ⟨h.cache, fun l st hst => (hcases l st hst).1, h.fetches, h.joins,
    fun l st hst => (hcases l st hst).2⟩

theorem setFetch (h : Truthful t G s) {block : RangeKey} {serial : ℕ} {cell : FetchCell}
    (hcell : ∀ data, cell = .ready (.ok data) → BlockTrue t block data) :
    Truthful t G (s.setFetch block serial cell) := by
  refine ⟨h.cache, h.handles, fun b n data hdata => ?_, h.joins, h.bound⟩
  rw [State.setFetch] at hdata
  dsimp only at hdata
  split at hdata
  · rename_i heq
    exact heq.1 ▸ hcell data hdata
  · exact h.fetches b n data hdata

theorem setJoin (h : Truthful t G s) {join : ℕ} {block : RangeKey}
    {result : Except ClientError (List UInt8)}
    (hresult : ∀ data, result = .ok data → BlockTrue t block data) :
    Truthful t G (s.setJoin join block result) := by
  refine ⟨h.cache, h.handles, h.fetches, fun j b data hdata => ?_, h.bound⟩
  rw [State.setJoin] at hdata
  dsimp only at hdata
  split at hdata
  · rename_i heq
    exact heq.2 ▸ hresult data (Option.some_inj.1 hdata)
  · exact h.joins j b data hdata

end Truthful

/-! ## Calls -/

/-- A handle that is, or was, of a certain file. -/
def Owned {κ : Type} (logical : FileHandle) (node : NodeId) (s : State κ) : Prop :=
  logical < s.nextHandle ∧ ∀ state, s.handles logical = some state → state.node = node

theorem Owned.evolves {κ : Type} {logical : FileHandle} {node : NodeId} {s s' : State κ}
    (h : Owned logical node s) (he : Evolves s s') : Owned logical node s' := by
  refine ⟨Nat.lt_of_lt_of_le h.1 he.next, fun state' hs' => ?_⟩
  obtain ⟨state, hs, hnode⟩ := he.handles logical state' hs' h.1
  exact hnode ▸ h.2 state hs

section Calls

variable {κ : Type} {O : Outside} {t : Truth} {G : κ → Prop} {P : Program (sig κ O)}
  {cache : FilesystemCache (sig κ O) ClientError} {policy : CachePolicy} {i : ℕ}

/-- Nothing is different of which anything is said. -/
structure Unsaid (s s' : State κ) : Prop where
  cache : s'.cache = s.cache
  handles : s'.handles = s.handles
  nextHandle : s'.nextHandle = s.nextHandle
  fetches : s'.fetches = s.fetches
  joins : s'.joins = s.joins

/-- What was found when a handle was looked up: whose it is, and that it was there. -/
def LookedUp (i : ℕ) (logical : FileHandle) (found : Option CachedHandle)
    (g : Global (sig κ O)) : Prop :=
  ∀ state, found = some state → Owned logical state.node g.shared ∧
    ∃ m ∈ g.history, m.task = i ∧ m.shared.handles logical = some state

variable {C : Contract (sig κ O)}

theorem Follows.step (hC : Follows t G C) {s s' : State κ} (h : Truthful t G s')
    (he : Evolves s s') : C.Step s s' := by
  rw [Contract.Step, hC.good, hC.evolves]
  exact ⟨h, he⟩

theorem Follows.truthful (hC : Follows t G C) {s : State κ} (h : C.good s) : Truthful t G s :=
  hC.good ▸ h

theorem Follows.stays_lookedUp (hC : Follows t G C) (logical : FileHandle)
    (found : Option CachedHandle) : C.Stays (LookedUp i logical found) := by
  intro g g' hh he h state hstate
  rw [hC.evolves] at he
  obtain ⟨howned, m, hm, hrest⟩ := h state hstate
  exact ⟨howned.evolves he, m, hh.mem hm, hrest⟩

theorem Follows.learn (hC : Follows t G C) {K : Global (sig κ O) → Prop} (hK : C.Stays K) :
    Follows t G (C.learn K hK) :=
  ⟨hC.good, hC.evolves, hC.fair, hC.sound⟩

variable {inner logical : FileHandle} {α : Type} {newParent node parent : NodeId}
  {expectedRevision revision : FileRevision} {state : CachedHandle} {deadlined : Bool}
  {block : RangeKey} {blocks : List RangeKey} {elapsed length offset : ℕ} {name newName : Name}

/-- A look at the handle table. -/
theorem lookedUp_here (hC : Follows t G C) (g : Global (sig κ O)) (hg : C.good g.shared) :
    LookedUp i logical (g.shared.handles logical) (g.step i g.shared) := by
  intro state hstate
  refine ⟨⟨(hC.truthful hg).bound logical state hstate, fun state' hs => ?_⟩,
    _, List.mem_cons_self, rfl, hstate⟩
  rw [show g.shared.handles logical = some state' from hs] at hstate
  cases hstate
  rfl

section Outside

variable (hC : Follows t G C)
  (hserve : ∀ env choice q env' a, P.serve env choice q = some (env', a) → t.Fair q a)

include hC hserve

theorem Follows.fairness : C.Fair P := by
  intro env choice q env' a h
  rw [hC.fair]
  exact hserve env choice q env' a h

/-- A question about something else than files. -/
theorem ask_spec {q : Question} : C.Obeys P i (Call.ask (S := sig κ O) q : M κ O q.Answer) :=
  .ask (hC.fairness hserve) fun _ _ => trivial

end Outside

/-- A task that is nobody's call has no result to be judged. -/
theorem keeps_of_ensures (hC : Follows t G C) {m : M κ O α} {Q : α → Prop}
    (h : C.Ensures P i m Q) : C.Keeps P i (m.toTask fun _ => none) := by
  refine h.keeps (fun _ _ _ _ => ?_) fun _ _ _ => ?_ <;> rw [hC.sound] <;> exact nofun

/-- What the calls count on: the outside is truthful, and the cache keeps its promise. -/
structure Trusted (t : Truth) (G : κ → Prop) (P : Program (sig κ O))
    (cache : FilesystemCache (sig κ O) ClientError) (C : Contract (sig κ O)) : Prop
    extends Follows t G C where
  serve : ∀ env choice q env' a, P.serve env choice q = some (env', a) → t.Fair q a
  keeps : ∀ C', Follows t G C' → cache.Keeps C' P t.file t.Describes

variable (hC : Trusted t G P cache C)

include hC

theorem Trusted.kept : cache.Keeps C P t.file t.Describes := hC.keeps C hC.toFollows

theorem Trusted.learn {K : Global (sig κ O) → Prop} (hK : C.Stays K) :
    Trusted t G P cache (C.learn K hK) :=
  ⟨hC.toFollows.learn hK, hC.serve, hC.keeps⟩

/-! ### The outside, locks and handles -/

theorem remote_spec {operation : RemoteCall} :
    C.Ensures P i (remote operation : M κ O operation.Reply) fun reply =>
      ∀ output, reply = .ok output → t.Right operation output := by
  refine .ask (hC.fairness hC.serve) fun reply hreply => ?_
  rw [hC.fair] at hreply
  exact hreply

theorem demand_spec {operation : RemoteCall} :
    C.Ensures P i (demand operation : M κ O operation.Output) fun output =>
      t.Right operation output :=
  (remote_spec hC).bind fun _ hreply => .ofExcept hreply

variable {update : State κ → State κ}

/-- A step that leaves the handles alone. -/
theorem quiet_spec {ready : State κ → Bool} {read : State κ → α} {Q : α → Prop}
    (hhandles : ∀ s, (update s).handles = s.handles ∧ (update s).nextHandle = s.nextHandle)
    (h : ∀ s, Truthful t G s → Truthful t G (update s) ∧ Q (read s)) :
    C.Ensures P i (Call.access ready update read : M κ O α) Q := by
  refine .access fun s hs _ => ?_
  obtain ⟨hupdate, hread⟩ := h s (hC.truthful hs)
  exact ⟨hC.step hupdate (.of_handles (hhandles s).1 (hhandles s).2), hread⟩

/-- A step that leaves alone everything that is said to be true. -/
theorem idle_spec {ready : State κ → Bool} {read : State κ → α} (h : ∀ s, Unsaid s (update s)) :
    C.Obeys P i (Call.access ready update read : M κ O α) := by
  refine quiet_spec hC (fun s => ⟨(h s).handles, (h s).nextHandle⟩)
    fun s hs => ⟨⟨?_, ?_, ?_, ?_, ?_⟩, trivial⟩
  · rw [(h s).cache]
    exact hs.cache
  · rw [(h s).handles]
    exact hs.handles
  · rw [(h s).fetches]
    exact hs.fetches
  · rw [(h s).joins]
    exact hs.joins
  · rw [(h s).handles, (h s).nextHandle]
    exact hs.bound

theorem note_spec (h : ∀ s, Unsaid s (update s)) :
    C.Obeys P i (Call.modify update : M κ O Unit) :=
  idle_spec hC h

theorem locking_spec {mutation : ℕ} {m : M κ O α} {Q : α → Prop} (hm : C.Ensures P i m Q) :
    C.Ensures P i (locking mutation m) Q :=
  .holding (idle_spec hC fun _ => ⟨rfl, rfl, rfl, rfl, rfl⟩) hm
    (idle_spec hC fun _ => ⟨rfl, rfl, rfl, rfl, rfl⟩)

theorem rememberHandle_spec {inner : Option FileHandle} {size : ℕ}
    (hsize : t.SizeOf node revision size)
    (hinner : ∀ handle, inner = some handle → t.nodeOf handle = node) :
    C.Obeys P i (rememberHandle node inner revision size : M κ O OpenedFile) := by
  refine Contract.Ensures.bind (Q := fun _ => True) (.access fun s hs _ => ⟨hC.step ?_ ?_, trivial⟩)
    fun _ _ => .pure trivial
  · have hs := hC.truthful hs
    have hcases : ∀ l st, (s.insertHandle node inner revision size).handles l = some st →
        HandleTrue t st ∧ l < s.nextHandle + 1 := by
      intro l st hst
      rw [State.insertHandle, State.setHandle] at hst
      dsimp only at hst
      split at hst
      · rename_i heq
        cases hst
        exact ⟨⟨hsize, hinner⟩, heq ▸ Nat.lt_succ_self _⟩
      · exact ⟨hs.handles l st hst, Nat.lt_succ_of_lt (hs.bound l st hst)⟩
    exact ⟨hs.cache, fun l st hst => (hcases l st hst).1, hs.fetches, hs.joins,
      fun l st hst => (hcases l st hst).2⟩
  · refine ⟨Nat.le_succ _, fun l st hst hlt => ⟨st, ?_, rfl⟩⟩
    rw [State.insertHandle, State.setHandle] at hst
    dsimp only at hst
    rwa [if_neg (Nat.ne_of_lt hlt)] at hst

/-- The revision and size of a handle may be changed by one who knows whose it is. -/
theorem updateHandle_spec {size : ℕ} (hknown : ∀ g, C.known g → Owned logical node g.shared)
    (hsize : t.SizeOf node revision size) :
    C.Obeys P i (updateHandle logical revision size : M κ O Unit) := by
  refine .access_known fun g hg hk _ => ⟨hC.step ?_ ⟨Nat.le_refl _, fun l st hst _ => ?_⟩, trivial⟩
  · have hs := hC.truthful hg
    refine hs.setHandle fun st hst => ?_
    obtain ⟨state, hstate, rfl⟩ := Option.map_eq_some_iff.1 hst
    have hnode := (hknown g hk).2 state hstate
    exact ⟨⟨hnode ▸ hsize, (hs.handles logical state hstate).2⟩, (hknown g hk).1⟩
  · rw [State.updateHandle, State.setHandle] at hst
    dsimp only at hst
    split at hst
    · rename_i heq
      obtain ⟨state, hstate, rfl⟩ := Option.map_eq_some_iff.1 hst
      exact ⟨state, heq ▸ hstate, rfl⟩
    · exact ⟨st, hst, rfl⟩

omit hC in
theorem requireOnlineHandle_spec (hstate : HandleTrue t state) :
    C.Ensures P i (requireOnlineHandle state : M κ O FileHandle) fun inner =>
      t.nodeOf inner = state.node := by
  rw [requireOnlineHandle]
  split
  · rename_i inner hinner
    exact .pure (hstate.2 inner hinner)
  · exact .throw

omit hC in
/-- What comes after a handle is looked up. -/
theorem handle_bind (m : CachedHandle → M κ O α) : handle logical >>= m =
    Call.read (fun s : State κ => s.handles logical) >>= fun found =>
      found.elim (Call.throw unknownHandle) m := by
  funext k
  refine congrArg (Task.sync _ _) (funext fun s => ?_)
  dsimp only
  cases s.handles logical <;> rfl

/-- A call that looks up its handle. -/
theorem handle_spec {m : CachedHandle → M κ O α} {Q : α → Prop}
    (h : ∀ state, HandleTrue t state → ∀ C', Trusted t G P cache C' →
      (∀ g, C'.known g → C.known g ∧ Owned logical state.node g.shared) →
        C'.Ensures P i (m state) Q) :
    C.Ensures P i (handle logical >>= m) Q := by
  rw [handle_bind]
  refine Contract.Ensures.learn (f := fun s : State κ => s.handles logical)
    (K := LookedUp i logical) (hC.stays_lookedUp logical) (lookedUp_here hC.toFollows) fun s hs => ?_
  cases hfound : s.handles logical with
  | none => exact .throw
  | some state =>
    exact h state ((hC.truthful hs).handles logical state hfound) _ (hC.learn _)
      fun g hg => ⟨hg.1, (hg.2 state rfl).1⟩

/-! ### Fetching blocks -/

theorem expired_spec : C.Obeys P i (expired deadlined : M κ O Bool) := by
  rw [expired]
  split
  · exact ask_spec hC.toFollows hC.serve
  · exact .pure trivial

theorem finishFetch_spec {serial : ℕ} {result : Except SharedFetchError (List UInt8)}
    (h : ∀ data, result = .ok data → BlockTrue t block data) :
    C.Ensures P i (finishFetch deadlined block serial result : M κ O (List UInt8)) fun data =>
      BlockTrue t block data := by
  refine (expired_spec hC).bind fun dropped _ => ?_
  split
  · exact .throw
  refine .seq (note_spec hC fun _ => ⟨rfl, rfl, rfl, rfl, rfl⟩) fun _ => ?_
  cases result with
  | ok data => exact .pure (h data rfl)
  | error => exact .throw

section

variable (hblock : block.file = ⟨t.nodeOf inner, expectedRevision⟩)

include hblock

/-- What the one who fills a cell finds is true of the block. -/
theorem loadBlock_spec :
    C.Ensures P i (loadBlock cache deadlined inner expectedRevision block) fun r =>
      ∀ data, r = some (.ok data) → BlockTrue t block data := by
  refine (hC.kept.getRange i block).bind fun found hfound => ?_
  refine (expired_spec hC).bind fun dropped _ => ?_
  split
  · exact .pure nofun
  cases found with
  | some data =>
    refine .pure fun data' h => ?_
    cases h
    obtain ⟨hlen, hslice⟩ := hfound data rfl
    exact ⟨Nat.le_of_eq hlen, hslice⟩
  | none =>
    refine (remote_spec hC).bind fun reply hreply => ?_
    refine (expired_spec hC).bind fun dropped _ => ?_
    split
    · exact .pure nofun
    cases reply with
    | error => exact .pure nofun
    | ok read =>
      have hdata : read.data = slice (t.content (t.nodeOf inner) read.revision) block.offset
          block.length := hreply read rfl
      dsimp only
      split
      · exact .pure nofun
      rename_i hrevision
      have hslice : IsSlice (t.file block.file) block.offset read.data := by
        rw [hblock, Truth.file, ← not_not.1 hrevision, hdata]
        exact isSlice_slice
      split
      · exact .pure nofun
      rename_i hlen
      have htrue : ∀ data, some (Except.ok (ε := ClientError) read.data) = some (.ok data) →
          BlockTrue t block data := by
        rintro data ⟨⟩
        exact ⟨Nat.le_of_not_lt hlen, hslice⟩
      split
      · refine .seq (hC.kept.storeRange i _ _ hslice) fun _ => ?_
        refine (expired_spec hC).bind fun dropped _ => ?_
        split
        · exact .pure nofun
        · exact .pure htrue
      · exact .pure htrue

/-- The part of a fetch that fills the cell. -/
theorem fetchBlock_load {serial : ℕ} :
    C.Ensures P i (do
      match ← loadBlock cache deadlined inner expectedRevision block with
      | none => do
        Call.modify fun s => s.setFetch block serial .empty
        Call.throw .offline
      | some loaded => do
        let result := loaded.mapError SharedFetchError.ofClientError
        Call.modify fun s => s.setFetch block serial (.ready result)
        finishFetch deadlined block serial result : M κ O (List UInt8)) fun data =>
      BlockTrue t block data := by
  refine (loadBlock_spec hC hblock).bind fun loaded hloaded => ?_
  cases loaded with
  | none =>
    exact .seq (quiet_spec hC (fun _ => ⟨rfl, rfl⟩) fun s hs => ⟨hs.setFetch nofun, trivial⟩)
      fun _ => .throw
  | some loaded =>
    have hresult : ∀ data, loaded.mapError SharedFetchError.ofClientError = .ok data →
        BlockTrue t block data := by
      intro data h
      cases loaded with
      | ok =>
        cases h
        exact hloaded data rfl
      | error => cases h
    exact .seq (quiet_spec hC (fun _ => ⟨rfl, rfl⟩) fun s hs => ⟨hs.setFetch fun data h =>
      hresult data (FetchCell.ready.inj h), trivial⟩) fun _ => finishFetch_spec hC hresult

theorem fetchBlock_spec :
    C.Ensures P i (fetchBlock cache deadlined inner expectedRevision block) fun data =>
      BlockTrue t block data := by
  refine Contract.Ensures.bind (Q := fun _ => True) ?_ fun serial _ => ?_
  · refine idle_spec hC fun s => ?_
    rw [State.registerFetch]
    split <;> exact ⟨rfl, rfl, rfl, rfl, rfl⟩
  refine (expired_spec hC).bind fun dropped _ => ?_
  split
  · exact .throw
  refine Contract.Ensures.bind
    (Q := fun cell => ∀ data, cell = .ready (.ok data) → BlockTrue t block data) ?_
    fun cell hcell => ?_
  · refine quiet_spec hC (fun s => ?_) fun s hs => ⟨?_, hs.fetches block serial⟩
    · split <;> exact ⟨rfl, rfl⟩
    split
    · exact hs.setFetch nofun
    · exact hs
  · cases cell with
    | ready => exact finishFetch_spec hC fun data h => hcell data (by rw [h])
    | empty | initializing => exact fetchBlock_load hC hblock

end

/-! ### Read-ahead -/

theorem takePermits_spec (units : ℕ) :
    C.Obeys P i (Call.access (fun _ => true) (fun s => s.takePermits units)
      fun s => decide (units ≤ s.prefetchPermits) : M κ O Bool) := by
  refine idle_spec hC fun s => ?_
  rw [State.takePermits]
  split <;> exact ⟨rfl, rfl, rfl, rfl, rfl⟩

/-- Permits are for blocks that were scheduled. -/
theorem acquirePermits_spec :
    C.Ensures P i (acquirePermits policy blocks : M κ O _) fun r => ∀ g ∈ r.1, g.1 ∈ blocks := by
  induction blocks with
  | nil => exact .pure fun _ h => absurd h List.not_mem_nil
  | cons _ _ ih =>
    rw [acquirePermits]
    refine .seq (idle_spec hC fun _ => ⟨rfl, rfl, rfl, rfl, rfl⟩) fun slot => ?_
    split
    · refine .seq (takePermits_spec hC _) fun permit => ?_
      split
      · refine ih.bind fun ⟨granted, denied⟩ hr => .pure fun g hg => ?_
        rcases List.mem_cons.1 hg with rfl | hg
        · exact List.mem_cons_self
        · exact List.mem_cons_of_mem _ (hr g hg)
      · exact .seq (note_spec hC fun _ => ⟨rfl, rfl, rfl, rfl, rfl⟩)
          fun _ => .pure fun _ h => absurd h List.not_mem_nil
    · exact .pure fun _ h => absurd h List.not_mem_nil

theorem schedulePrefetch_spec {returned granularity capBlocks : ℕ} :
    C.Ensures P i (schedulePrefetch policy state offset returned elapsed granularity capBlocks :
      M κ O _) fun r => ∀ g ∈ r.2, g.1.file = ⟨state.node, state.revision⟩ := by
  refine .holding (idle_spec hC fun _ => ⟨rfl, rfl, rfl, rfl, rfl⟩) ?_
    (note_spec hC fun _ => ⟨rfl, rfl, rfl, rfl, rfl⟩)
  refine Contract.Ensures.bind (Q := fun r : ℕ × List RangeKey =>
    ∀ block ∈ r.2, block.file = ⟨state.node, state.revision⟩) ?_ fun r hr => ?_
  · refine quiet_spec hC (fun _ => ⟨rfl, rfl⟩) fun s hs => ⟨?_, SequentialPrefetcher.observe_file⟩
    exact ⟨hs.cache, hs.handles, hs.fetches, hs.joins, hs.bound⟩
  refine (acquirePermits_spec hC).bind fun permits hpermits => ?_
  exact .seq (note_spec hC fun _ => ⟨rfl, rfl, rfl, rfl, rfl⟩)
    fun _ => .pure fun g hg => hr g.1 (hpermits g hg)

theorem prefetchTask_spec {streamId : ℕ} {units : ℕ}
    (hblock : block.file = ⟨t.nodeOf inner, state.revision⟩) :
    C.Obeys P i (prefetchTask cache state inner streamId block units) := by
  refine (fetchBlock_spec hC hblock).attempt.bind fun result _ => ?_
  refine .seq (idle_spec hC fun _ => ⟨rfl, rfl, rfl, rfl, rfl⟩) fun _ => ?_
  exact .seq (note_spec hC fun _ => ⟨rfl, rfl, rfl, rfl, rfl⟩)
    fun _ => note_spec hC fun _ => ⟨rfl, rfl, rfl, rfl, rfl⟩

theorem spawnPrefetches_spec {streamId : ℕ} {granted : List (RangeKey × ℕ)}
    (h : ∀ g ∈ granted, g.1.file = ⟨t.nodeOf inner, state.revision⟩) :
    C.Obeys P i (spawnPrefetches cache state inner streamId granted) := by
  induction granted with
  | nil => exact .pure trivial
  | cons g _ ih =>
    refine .seq (.spawn fun j => keeps_of_ensures hC.toFollows (Q := fun _ => True) ?_) fun _ =>
      ih fun g' hg' => h g' (List.mem_cons_of_mem _ hg')
    exact prefetchTask_spec hC (h g List.mem_cons_self)

theorem maybePrefetch_spec {returned granularity : ℕ} (hinner : t.nodeOf inner = state.node) :
    C.Obeys P i (maybePrefetch cache policy state inner offset returned elapsed granularity) := by
  rw [maybePrefetch]
  split
  · exact .pure trivial
  dsimp only
  split
  · exact .pure trivial
  refine (schedulePrefetch_spec hC).bind fun r hr => ?_
  refine spawnPrefetches_spec hC fun g hg => ?_
  rw [hr g hg, hinner]

/-! ### Reading -/

theorem joinBlock_spec {join : ℕ} (hblock : block.file = ⟨t.nodeOf inner, revision⟩) :
    C.Obeys P i (joinBlock cache join inner revision block) :=
  (fetchBlock_spec hC hblock).attempt.bind fun _ hresult =>
    quiet_spec hC (fun _ => ⟨rfl, rfl⟩) fun _ hs => ⟨hs.setJoin hresult, trivial⟩

theorem spawnBlocks_spec {join : ℕ}
    (h : ∀ block ∈ blocks, block.file = ⟨t.nodeOf inner, revision⟩) :
    C.Obeys P i (spawnBlocks cache join inner revision blocks) := by
  induction blocks with
  | nil => exact .pure trivial
  | cons block _ ih =>
    refine .seq (.spawn fun j => keeps_of_ensures hC.toFollows (Q := fun _ => True) ?_) fun _ =>
      ih fun b hb => h b (List.mem_cons_of_mem _ hb)
    exact joinBlock_spec hC (h block List.mem_cons_self)

theorem joinAll_spec (h : ∀ block ∈ blocks, block.file = ⟨t.nodeOf inner, revision⟩) :
    C.Ensures P i (joinAll cache inner revision blocks) fun results =>
      ∀ block data, (block, .ok data) ∈ results → BlockTrue t block data := by
  refine .seq (idle_spec hC fun _ => ⟨rfl, rfl, rfl, rfl, rfl⟩) fun join => ?_
  refine .seq (spawnBlocks_spec hC h) fun _ => ?_
  refine quiet_spec hC (fun _ => ⟨rfl, rfl⟩) fun s hs => ⟨hs, fun block data hmem => ?_⟩
  obtain ⟨block', -, hmap⟩ := List.mem_filterMap.1 hmem
  obtain ⟨result, hjoin, heq⟩ := Option.map_eq_some_iff.1 hmap
  cases heq
  exact hs.joins join block data hjoin

omit hC in
/-- The pieces that are put together are slices. -/
theorem collect_holds {results : List (RangeKey × Except ClientError (List UInt8))}
    {assembled : MemoryCache} {offlineError : Bool} {r : MemoryCache × Bool}
    (hresults : ∀ block data, (block, .ok data) ∈ results → BlockTrue t block data)
    (hassembled : assembled.Holds t.file t.Describes)
    (h : collect results assembled offlineError = .ok r) : r.1.Holds t.file t.Describes := by
  induction results generalizing assembled offlineError with
  | nil =>
    cases h
    exact hassembled
  | cons result rest ih =>
    have hrest : ∀ block data, (block, .ok data) ∈ rest → BlockTrue t block data :=
      fun block data hmem => hresults block data (List.mem_cons_of_mem _ hmem)
    obtain ⟨block, data | error⟩ := result
    · rw [collect] at h
      split at h
      · exact ih hrest hassembled h
      · cases h
    · rw [collect] at h
      split at h
      · cases h
      split at h
      · refine ih hrest ?_ h
        exact hassembled.putRange (hresults block _ List.mem_cons_self).2
      · exact ih hrest hassembled h

omit hC in
/-- What is cut off at the size of the file is what was asked for. -/
theorem slice_of_range (hstate : HandleTrue t state) {data : List UInt8}
    (hlen : data.length = min length (state.size - offset))
    (hslice : IsSlice (t.file ⟨state.node, state.revision⟩) offset data) :
    data = slice (t.content state.node state.revision) offset length := by
  rw [hstate.1] at hlen
  exact hslice.eq_slice hlen

theorem cachedRange_spec (hstate : HandleTrue t state) :
    C.Ensures P i (cachedRange cache state offset length) fun r => ∀ data, r = some data →
      data = slice (t.content state.node state.revision) offset length :=
  (hC.kept.getRange i _).conseq fun _ h data hdata =>
    slice_of_range hstate (h data hdata).1 (h data hdata).2

/-- What a read has to answer with. -/
def Answers (t : Truth) (state : CachedHandle) (offset length : ℕ) (read : RangeRead) : Prop :=
  read.revision = state.revision ∧
    read.data = slice (t.content state.node state.revision) offset length

theorem assemble_spec {assembled : MemoryCache} {offlineError : Bool}
    (hstate : HandleTrue t state) (hinner : t.nodeOf inner = state.node)
    (hassembled : assembled.Holds t.file t.Describes) :
    C.Ensures P i (assemble cache policy state inner offset length elapsed assembled offlineError)
      (Answers t state offset length) := by
  rw [assemble]
  split
  · rename_i data hdata
    refine .seq (maybePrefetch_spec hC hinner) fun _ => .pure ⟨rfl, ?_⟩
    exact slice_of_range hstate (hassembled.lookupRange hdata).1 (hassembled.lookupRange hdata).2
  refine (cachedRange_spec hC hstate).bind fun found hfound => ?_
  cases found with
  | some data => exact .pure ⟨rfl, hfound data rfl⟩
  | none => exact .throw

/-- **One attempt to read.**  It answers with the slice that was asked for, of the revision it was
started with. -/
theorem readOnline_spec (hstate : HandleTrue t state) (hinner : t.nodeOf inner = state.node) :
    C.Ensures P i (readOnline cache policy state inner offset length)
      (Answers t state offset length) := by
  refine .bind_ofExcept fun blocks hblocks => ?_
  have htiling := tiling_of_blocksFor hblocks
  split
  · rename_i hempty
    rw [List.isEmpty_iff.1 hempty] at htiling
    refine .pure ⟨rfl, slice_of_range hstate ?_ IsSlice.nil⟩
    -- Without blocks there is nothing to read.
    by_contra hpos
    obtain ⟨_, hmem, -⟩ := htiling.covers offset le_rfl (by rw [List.length_nil] at hpos; omega)
    cases hmem
  refine .seq (ask_spec hC.toFollows hC.serve) fun started => ?_
  have hfile : ∀ block ∈ blocks, block.file = ⟨t.nodeOf inner, state.revision⟩ := by
    rw [hinner]
    exact htiling.file
  refine (joinAll_spec hC hfile).bind fun results hresults => ?_
  refine .bind_ofExcept fun pieces hpieces => ?_
  refine .seq (ask_spec hC.toFollows hC.serve) fun now => ?_
  exact assemble_spec hC hstate hinner (collect_holds hresults MemoryCache.holds_empty hpieces)

/-! ### Metadata and directories -/

theorem cachedMetadata_spec :
    C.Ensures P i (cachedMetadata cache node) fun metadata => t.Describes node metadata := by
  refine (hC.kept.getMetadata i node).bind fun found hfound => ?_
  cases found with
  | some metadata => exact .pure (hfound metadata rfl)
  | none => exact .throw

theorem offlineDirectory_spec : C.Obeys P i (offlineDirectory cache node) := by
  refine (cachedMetadata_spec hC).bind fun metadata _ => ?_
  refine (hC.kept.getDirectory i _).bind fun found _ => ?_
  cases found with
  | some => exact .pure trivial
  | none => exact .throw

theorem refreshDirectory_spec : C.Obeys P i (refreshDirectory cache node) := by
  have hend : ∀ (_ : Unit), C.Obeys P i (Call.modify fun s =>
      { s with refreshingDirectories := s.refreshingDirectories.erase node } : M κ O Unit) := fun _ =>
    note_spec hC fun _ => ⟨rfl, rfl, rfl, rfl, rfl⟩
  refine (remote_spec hC).bind fun reply hreply => ?_
  cases reply with
  | error => exact hend ()
  | ok snapshot =>
    refine .seq (hC.kept.storeSnapshot i _ _ (hreply snapshot rfl)) fun _ => ?_
    refine (remote_spec hC).bind fun reply hreply => ?_
    cases reply with
    | error => exact hend ()
    | ok metadata =>
      dsimp only
      split
      · exact .seq (hC.kept.storeMetadata i _ (hreply metadata rfl).own) hend
      · exact hend ()

theorem refreshDirectoryInBackground_spec :
    C.Obeys P i (refreshDirectoryInBackground cache node) := by
  refine .seq (idle_spec hC fun _ => ⟨rfl, rfl, rfl, rfl, rfl⟩) fun fresh => ?_
  split
  · exact .spawn fun j => keeps_of_ensures hC.toFollows (refreshDirectory_spec hC)
  · exact .pure trivial

theorem cachedChild_spec : C.Obeys P i (cachedChild cache parent name) := by
  refine (offlineDirectory_spec hC).attempt.bind fun r _ => ?_
  cases r with
  | ok | error => exact .pure trivial

/-! ### Operations that create or change nodes -/

theorem createNode_spec {operation : M κ O Metadata} {Q : Metadata → Prop}
    (h : C.Ensures P i operation Q)
    (hQ : ∀ metadata, Q metadata → t.Describes metadata.node metadata) :
    C.Ensures P i (createNode cache parent operation) Q :=
  h.bind fun metadata hmetadata =>
    .seq (hC.kept.invalidateNodeState i parent) fun _ =>
      .seq (hC.kept.storeMetadata i metadata (hQ metadata hmetadata)) fun _ =>
        .pure hmetadata

theorem storeTarget_spec {metadata : Metadata} {target : List UInt8}
    (h : t.content node metadata.revision = target) :
    C.Obeys P i (storeTarget cache node metadata target) := by
  rw [storeTarget]
  split
  · refine hC.kept.storeRange i _ _ ?_
    rw [Truth.file, h, IsSlice, slice, List.drop_zero, List.take_length]
  · exact .pure trivial

theorem createFile_spec {mode : ℕ} {options : FileOpenOptions} :
    C.Obeys P i (createFile cache parent name mode options) := by
  refine (demand_spec hC).bind fun created hcreated => ?_
  refine .seq (hC.kept.invalidateNodeState i parent) fun _ => ?_
  refine .seq (hC.kept.storeMetadata i _ hcreated.1) fun _ => ?_
  refine .seq (rememberHandle_spec hC hcreated.2.2 fun handle h => ?_) fun _ => .pure trivial
  cases h
  exact hcreated.2.1

theorem createDirectory_spec {mode : ℕ} : C.Obeys P i (createDirectory cache parent name mode) := by
  refine (createNode_spec hC (demand_spec hC) fun _ h => h).bind fun metadata _ => ?_
  exact .seq (note_spec hC fun _ => ⟨rfl, rfl, rfl, rfl, rfl⟩) fun _ => .pure trivial

theorem createSymlink_spec {target : List UInt8} :
    C.Obeys P i (createSymlink cache parent name target) := by
  refine (createNode_spec hC (demand_spec hC) fun _ h => h.1).bind fun metadata hmetadata => ?_
  exact .seq (storeTarget_spec hC hmetadata.2) fun _ => .pure trivial

theorem createHardLink_spec : C.Obeys P i (createHardLink cache node newParent newName) := by
  refine (demand_spec hC).bind fun metadata hmetadata => ?_
  refine .seq (hC.kept.invalidateNodeState i node) fun _ => ?_
  refine .seq (hC.kept.invalidateNodeState i newParent) fun _ => ?_
  exact .seq (hC.kept.storeMetadata i metadata hmetadata) fun _ => .pure trivial

theorem removeNode_spec {directory : Bool} :
    C.Obeys P i (removeNode cache parent name directory) := by
  refine .seq (cachedChild_spec hC) fun child => ?_
  refine (demand_spec hC).bind fun _ _ => ?_
  refine .seq (hC.kept.invalidateNodeState i parent) fun _ => ?_
  cases child with
  | none => exact .pure trivial
  | some node =>
    exact .seq (hC.kept.invalidateNodeState i node) fun _ =>
      note_spec hC fun _ => ⟨rfl, rfl, rfl, rfl, rfl⟩

omit hC in
/-- A rename only changes who is whose parent. -/
theorem State.renameParents_eq {s : State κ} {mode : RenameMode}
    {source destination : Option NodeId} :
    ∃ parents, s.renameParents parent newParent mode source destination =
      { s with directoryParents := parents } := by
  unfold State.renameParents
  cases source <;> cases destination <;> dsimp only <;>
    first | exact ⟨_, rfl⟩ | (split <;> exact ⟨_, rfl⟩)

theorem renameNode_spec {mode : RenameMode} :
    C.Obeys P i (renameNode cache parent name newParent newName mode) := by
  refine .seq (cachedChild_spec hC) fun source => ?_
  refine .seq (cachedChild_spec hC) fun destination => ?_
  refine (demand_spec hC).bind fun _ _ => ?_
  refine .seq (hC.kept.invalidateNodeState i parent) fun _ => ?_
  refine .seq (hC.kept.invalidateNodeState i newParent) fun _ => ?_
  refine note_spec hC fun s => ?_
  obtain ⟨parents, h⟩ := s.renameParents_eq
  rw [h]
  exact ⟨rfl, rfl, rfl, rfl, rfl⟩

theorem readLink_spec : C.Obeys P i (readLink cache node) := by
  refine (remote_spec hC).bind fun reply hreply => ?_
  cases reply with
  | ok target =>
    refine (remote_spec hC).bind fun reply' hreply' => ?_
    cases reply' with
    | ok metadata =>
      refine .seq (hC.kept.storeMetadata i _ (hreply' metadata rfl).own) fun _ => ?_
      exact .seq (storeTarget_spec hC (hreply target rfl _)) fun _ => .pure trivial
    | error => exact .pure trivial
  | error =>
    dsimp only
    split
    · refine (cachedMetadata_spec hC).bind fun metadata _ => ?_
      refine (hC.kept.getRange i _).bind fun found _ => ?_
      cases found with
      | some => exact .pure trivial
      | none => exact .throw
    · exact .throw

/-- The metadata that `set_attributes` is sent go to the handle it was called with, and that is a
handle of the same node. -/
theorem setAttributesOn_spec (owner : NodeId) {logical inner : Option FileHandle}
    {changes : AttributeChanges} (hinner : inner.isSome = logical.isSome)
    (howner : ∀ handle, inner = some handle → t.nodeOf handle = owner)
    (hknown : ∀ handle, logical = some handle → ∀ g, C.known g → Owned handle owner g.shared) :
    C.Obeys P i (setAttributesOn cache node logical inner changes) := by
  refine (demand_spec hC).bind fun metadata hmetadata => ?_
  refine .seq (hC.kept.invalidateNodeState i node) fun _ => ?_
  refine .seq (hC.kept.storeMetadata i metadata hmetadata.1.own) fun _ => ?_
  cases logical with
  | none => exact .pure trivial
  | some logical =>
    obtain ⟨handle, rfl⟩ := Option.isSome_iff_exists.1 hinner
    have hnode : owner = node := (howner handle rfl).symm.trans (hmetadata.2 handle rfl)
    refine .seq (updateHandle_spec hC (hknown logical rfl) ?_) fun _ => .pure trivial
    exact hnode ▸ hmetadata.1.2

theorem setAttributes_spec {logical : Option FileHandle} {changes : AttributeChanges} :
    C.Obeys P i (setAttributes cache node logical changes) := by
  cases logical with
  | none =>
    rw [setAttributes]
    exact setAttributesOn_spec hC node rfl nofun nofun
  | some =>
    refine handle_spec hC fun state hstate C' hC' hknown => locking_spec hC' ?_
    refine (requireOnlineHandle_spec hstate).bind fun inner hinner => ?_
    refine setAttributesOn_spec hC' state.node rfl (fun handle h => ?_) fun handle h g hg => ?_
    · cases h
      exact hinner
    · cases h
      exact (hknown g hg).2

theorem writeRange_spec {data : List UInt8} :
    C.Obeys P i (writeRange cache logical offset data) := by
  refine handle_spec hC fun state hstate C' hC' hknown => locking_spec hC' ?_
  refine (requireOnlineHandle_spec hstate).bind fun inner hinner => ?_
  refine (demand_spec hC').bind fun result hresult => ?_
  refine .seq (hC'.kept.invalidateNodeMemory i _) fun _ => ?_
  exact .seq (updateHandle_spec hC' (fun g hg => (hknown g hg).2) (hinner ▸ hresult))
    fun _ => .pure trivial

theorem allocateFile_spec : C.Obeys P i (allocateFile cache logical offset length) := by
  refine handle_spec hC fun state hstate C' hC' hknown => locking_spec hC' ?_
  refine (requireOnlineHandle_spec hstate).bind fun inner hinner => ?_
  refine (demand_spec hC').bind fun result hresult => ?_
  refine .seq (hC'.kept.invalidateNodeState i _) fun _ => ?_
  exact .seq (updateHandle_spec hC' (fun g hg => (hknown g hg).2) (hinner ▸ hresult))
    fun _ => .pure trivial

theorem copyFileRange_spec {input output : FileHandle} {inputOffset outputOffset : ℕ} :
    C.Obeys P i (copyFileRange cache input inputOffset output outputOffset length) := by
  refine handle_spec hC fun inputState hinput C1 hC1 _ => ?_
  refine handle_spec hC1 fun outputState houtput C2 hC2 hknown => ?_
  refine (requireOnlineHandle_spec hinput).bind fun inputHandle _ => ?_
  refine (requireOnlineHandle_spec houtput).bind fun outputHandle hnode => ?_
  refine (demand_spec hC2).bind fun result hresult => ?_
  refine .seq (hC2.kept.invalidateNodeState i _) fun _ => ?_
  exact .seq (updateHandle_spec hC2 (fun g hg => (hknown g hg).2) (hnode ▸ hresult))
    fun _ => .pure trivial

/-! ### The other operations -/

theorem capabilities_spec : C.Obeys P i (capabilities : M κ O _) := by
  refine (remote_spec hC).bind fun reply _ => ?_
  cases reply with
  | ok =>
    exact .seq (note_spec hC fun _ => ⟨rfl, rfl, rfl, rfl, rfl⟩) fun _ => .pure trivial
  | error =>
    dsimp only
    split
    · refine .seq (.read fun _ _ => trivial) fun found => ?_
      cases found with
      | some => exact .pure trivial
      | none => exact .throw
    · exact .throw

theorem statFilesystem_spec : C.Obeys P i (statFilesystem cache) := by
  refine (remote_spec hC).bind fun reply _ => ?_
  cases reply with
  | ok statistics => exact .seq (hC.kept.storeFilesystemStats i statistics) fun _ => .pure trivial
  | error =>
    dsimp only
    split
    · refine .seq (hC.kept.getFilesystemStats i) fun found => ?_
      cases found with
      | some => exact .pure trivial
      | none => exact .throw
    · exact .throw

theorem getMetadata_spec : C.Obeys P i (getMetadata cache node) := by
  refine (remote_spec hC).bind fun reply hreply => ?_
  cases reply with
  | ok metadata =>
    exact .seq (hC.kept.storeMetadata i metadata (hreply metadata rfl).own) fun _ => .pure trivial
  | error =>
    dsimp only
    split
    · exact (cachedMetadata_spec hC).conseq fun _ _ => trivial
    · exact .throw

theorem listDirectorySnapshot_spec : C.Obeys P i (listDirectorySnapshot cache node) := by
  refine (offlineDirectory_spec hC).attempt.bind fun r _ => ?_
  cases r with
  | ok => exact .seq (refreshDirectoryInBackground_spec hC) fun _ => .pure trivial
  | error =>
    refine (remote_spec hC).bind fun reply hreply => ?_
    cases reply with
    | ok snapshot =>
      exact .seq (hC.kept.storeSnapshot i _ _ (hreply snapshot rfl)) fun _ => .pure trivial
    | error =>
      dsimp only
      split
      · exact offlineDirectory_spec hC
      · exact .throw

theorem offlineView_spec : C.Obeys P i (offlineView cache node) := by
  refine .seq (offlineDirectory_spec hC) fun snapshot => ?_
  refine (cachedMetadata_spec hC).bind fun directory _ => ?_
  refine .seq (.read fun _ _ => trivial) fun parentNode => ?_
  cases parentNode with
  | none => exact .throw
  | some => exact (cachedMetadata_spec hC).bind fun parent _ => .pure trivial

theorem listDirectoryView_spec {options : DirectoryViewOptions} :
    C.Obeys P i (listDirectoryView cache node options) := by
  refine (remote_spec hC).bind fun reply hreply => ?_
  cases reply with
  | ok view =>
    obtain ⟨hentries, hdirectory, hparent⟩ := hreply view rfl
    refine .seq (hC.kept.storeSnapshot i _ _ fun entry hmem => ?_) fun _ => ?_
    · obtain ⟨viewed, hviewed, rfl⟩ := List.mem_map.1 hmem
      exact hentries viewed hviewed
    refine .seq (hC.kept.storeMetadata i _ hdirectory) fun _ => ?_
    refine .seq (hC.kept.storeMetadata i _ hparent) fun _ => ?_
    exact .seq (note_spec hC fun _ => ⟨rfl, rfl, rfl, rfl, rfl⟩) fun _ => .pure trivial
  | error =>
    dsimp only
    split
    · exact offlineView_spec hC
    · exact .throw

theorem openFileWithOptions_spec {options : FileOpenOptions} :
    C.Obeys P i (openFileWithOptions cache node options) := by
  refine (remote_spec hC).bind fun reply hreply => ?_
  cases reply with
  | ok opened =>
    obtain ⟨hnode, hsize⟩ := hreply opened rfl
    refine rememberHandle_spec hC hsize fun handle h => ?_
    cases h
    exact hnode
  | error =>
    dsimp only
    split
    · exact (cachedMetadata_spec hC).bind fun metadata hmetadata =>
        rememberHandle_spec hC hmetadata.2 nofun
    · exact .throw

theorem exchangeData_spec {options : ℕ} :
    C.Obeys P i (exchangeData cache parent name newParent newName options) :=
  (demand_spec hC).bind fun _ _ =>
    .seq (hC.kept.invalidateNodeState i parent) fun _ =>
      hC.kept.invalidateNodeState i newParent

theorem flushThrough_spec {invoke : FileHandle → M κ O Unit}
    (h : ∀ C', Trusted t G P cache C' → ∀ inner, C'.Obeys P i (invoke inner)) :
    C.Obeys P i (flushThrough logical invoke) := by
  refine handle_spec hC fun state _ C' hC' _ => locking_spec hC' ?_
  split
  · exact h C' hC' _
  · exact .pure trivial

theorem passOn_spec {invoke : FileHandle → M κ O α}
    (h : ∀ C', Trusted t G P cache C' → ∀ inner, C'.Obeys P i (invoke inner)) :
    C.Obeys P i (passOn logical invoke) :=
  handle_spec hC fun _ hstate C' hC' _ =>
    (requireOnlineHandle_spec hstate).bind fun inner _ => h C' hC' inner

theorem closeFile_spec : C.Obeys P i (closeFile logical : M κ O Unit) := by
  refine handle_spec hC fun state _ C' hC' _ => locking_spec hC' ?_
  refine .seq (.access fun s hs _ => ⟨hC'.step ((hC'.truthful hs).setHandle nofun)
    ⟨Nat.le_refl _, fun l st hst _ => ⟨st, ?_, rfl⟩⟩, trivial⟩) fun found => ?_
  · rw [State.setHandle] at hst
    dsimp only at hst
    split at hst
    · cases hst
    · exact hst
  · cases found with
    | none => exact .throw
    | some =>
      dsimp only
      split
      · exact (demand_spec hC').conseq fun _ _ => trivial
      · exact .pure trivial

/-! ### Reads, to their end -/

theorem sound_error {operation : RemoteCall} (error : ClientError) (g : Global (sig κ O))
    (_ : C.known g) : C.sound i (some ⟨operation, .error error⟩) g.history := by
  rw [hC.sound]
  intro logical offset length read h
  cases h

theorem throw_keeps {operation : RemoteCall} {error : ClientError} :
    C.Keeps P i ((Call.throw error : M κ O operation.Output).toTask fun r =>
      some ⟨operation, r⟩) :=
  Contract.Ensures.keeps (Q := fun _ => False) .throw (fun _ _ h => h.elim) (sound_error hC)

/-- A question comes first, and its answer is remembered. -/
theorem demand_keeps {operation : RemoteCall} (target : RemoteCall)
    {f : operation.Output → M κ O target.Output}
    (h : ∀ output, t.Right operation output → ∀ C', Trusted t G P cache C' →
      (∀ g, C'.known g → C.known g ∧
        Contract.Answered (S := sig κ O) i (Question.call operation) (.ok output) g) →
        C'.Keeps P i ((f output).toTask fun r => some ⟨target, r⟩)) :
    C.Keeps P i ((demand operation >>= f).toTask fun r => some ⟨target, r⟩) := by
  refine Contract.Keeps.ask (q := Question.call operation)
    (m := fun reply => Call.ofExcept reply >>= f) (hC.fairness hC.serve) fun reply hreply => ?_
  cases reply with
  | ok output =>
    rw [hC.fair] at hreply
    exact h output (hreply output rfl) _ (hC.learn _) fun g hg => hg
  | error => exact throw_keeps (hC.learn _)

/-- What a read knows that goes by `revision`: its handle was in the table as `found`, and where the
revision is from. -/
def Reading (i : ℕ) (logical : FileHandle) (found : CachedHandle) (revision : FileRevision)
    (g : Global (sig κ O)) : Prop :=
  (∃ m ∈ g.history, m.task = i ∧ m.shared.handles logical = some found) ∧
    RevisionFrom i found revision g.history

/-- The end of a read. -/
theorem answer_keeps {found : CachedHandle} (hnode : state.node = found.node)
    (hknown : ∀ g, C.known g → Reading i logical found state.revision g) {m : M κ O RangeRead}
    (hm : C.Ensures P i m (Answers t state offset length)) :
    C.Keeps P i (m.toTask fun r =>
      some ⟨.readRangeVersioned logical offset length, r⟩) := by
  refine hm.keeps (fun read g hread hg => ?_) (sound_error hC)
  rw [hC.sound]
  intro logical' offset' length' read' heq
  cases heq
  obtain ⟨⟨m, hm, htask, hfound⟩, hfrom⟩ := hknown g hg
  refine ⟨m, hm, htask, found, hfound, ?_, hread.1 ▸ hfrom⟩
  rw [hread.2, hread.1, hnode]

/-- A call that looks up its handle, to its end. -/
theorem handle_keeps (target : RemoteCall) {m : CachedHandle → M κ O target.Output}
    (h : ∀ state, HandleTrue t state → ∀ C', Trusted t G P cache C' →
      (∀ g, C'.known g → Owned logical state.node g.shared ∧
        ∃ m ∈ g.history, m.task = i ∧ m.shared.handles logical = some state) →
        C'.Keeps P i ((m state).toTask fun r => some ⟨target, r⟩)) :
    C.Keeps P i ((handle logical >>= m).toTask fun r => some ⟨target, r⟩) := by
  rw [handle_bind]
  refine Contract.Keeps.read (f := fun s : State κ => s.handles logical)
    (K := LookedUp i logical) (hC.stays_lookedUp logical) (lookedUp_here hC.toFollows) fun s hs => ?_
  cases hfound : s.handles logical with
  | none => exact throw_keeps (hC.learn _)
  | some state =>
    exact h state ((hC.truthful hs).handles logical state hfound) _ (hC.learn _)
      fun g hg => hg.2 state rfl

/-- **All attempts to read.**  The revision changes from one to the next, to that of the metadata
the remote has sent, and so does the size. -/
theorem readAttempts_keeps {found : CachedHandle}
    {retries : ℕ} (hnode : state.node = found.node) (hstate : HandleTrue t state)
    (hinner : t.nodeOf inner = state.node)
    (hknown : ∀ g, C.known g → Owned logical state.node g.shared ∧
      Reading i logical found state.revision g) :
    C.Keeps P i ((readAttempts cache policy logical inner offset length retries state).toTask
      fun r => some ⟨.readRangeVersioned logical offset length, r⟩) := by
  induction retries generalizing C state with
  | zero =>
    rw [readAttempts]
    refine .bind (readOnline_spec hC hstate hinner).attempt (fun r hr => ?_) (sound_error hC)
    split
    · exact throw_keeps hC
    · exact answer_keeps hC hnode (fun g hg => (hknown g hg).2) (.ofExcept hr)
  | succ _ ih =>
    rw [readAttempts]
    refine .bind (readOnline_spec hC hstate hinner).attempt (fun r hr => ?_) (sound_error hC)
    split
    · refine demand_keeps hC (.readRangeVersioned logical offset length)
        fun metadata hmetadata C' hC' hknown' => ?_
      have howned : ∀ g, C'.known g → Owned logical state.node g.shared :=
        fun g hg => (hknown g (hknown' g hg).1).1
      refine .bind (hC'.kept.storeMetadata i _ hmetadata.own) (fun _ _ => ?_) (sound_error hC')
      refine .bind (updateHandle_spec hC' howned hmetadata.2) (fun _ _ => ?_) (sound_error hC')
      refine ih hC' hnode ⟨hmetadata.2, hstate.2⟩ hinner fun g hg => ⟨howned g hg, ?_, .inr ?_⟩
      · exact (hknown g (hknown' g hg).1).2.1
      · obtain ⟨m, hm, htask, hevent⟩ := (hknown' g hg).2
        exact ⟨m, hm, htask, metadata, hnode ▸ hevent, rfl⟩
    · exact answer_keeps hC hnode (fun g hg => (hknown g hg).2) (.ofExcept hr)

theorem readRangeVersioned_keeps :
    C.Keeps P i ((readRangeVersioned cache policy logical offset length).toTask
      fun r => some ⟨.readRangeVersioned logical offset length, r⟩) := by
  refine handle_keeps hC (.readRangeVersioned logical offset length)
    fun state hstate C' hC' hknown => ?_
  split
  · exact throw_keeps hC'
  split
  · refine answer_keeps hC' rfl (fun g hg => ⟨(hknown g hg).2, .inl rfl⟩) ?_
    refine (cachedRange_spec hC' hstate).bind fun found hfound => ?_
    cases found with
    | some data => exact .pure ⟨rfl, hfound data rfl⟩
    | none => exact .throw
  · rename_i inner hinner
    exact readAttempts_keeps hC' rfl hstate (hstate.2 inner hinner)
      fun g hg => ⟨(hknown g hg).1, (hknown g hg).2, .inl rfl⟩

/-- The operations other than reads, which say nothing about the content of a file. -/
theorem operation_spec (op : RemoteCall)
    (hop : ∀ logical offset length, op ≠ .readRangeVersioned logical offset length) :
    C.Obeys P i (operation cache policy op) := by
  have hdemand : ∀ (operation : RemoteCall) (C : Contract (sig κ O)), Trusted t G P cache C →
      C.Obeys P i (demand operation : M κ O operation.Output) :=
    fun _ _ hC => (demand_spec hC).conseq fun _ _ => trivial
  cases op with
  | readRangeVersioned logical offset length => exact absurd rfl (hop logical offset length)
  | capabilities => exact capabilities_spec hC
  | statFilesystem => exact statFilesystem_spec hC
  | getMetadata => exact getMetadata_spec hC
  | listDirectorySnapshot => exact listDirectorySnapshot_spec hC
  | listDirectoryView => exact listDirectoryView_spec hC
  | openFileWithOptions => exact openFileWithOptions_spec hC
  | createFile => exact createFile_spec hC
  | createDirectory => exact createDirectory_spec hC
  | createSymlink => exact createSymlink_spec hC
  | createHardLink => exact createHardLink_spec hC
  | createSpecialNode =>
    exact (createNode_spec hC (demand_spec hC) fun _ h => h).conseq fun _ _ => trivial
  | removeNode => exact removeNode_spec hC
  | renameNode => exact renameNode_spec hC
  | readLink => exact readLink_spec hC
  | setAttributes => exact setAttributes_spec hC
  | writeRange => exact writeRange_spec hC
  | allocateFile => exact allocateFile_spec hC
  | copyFileRange => exact copyFileRange_spec hC
  | exchangeData => exact exchangeData_spec hC
  | setXattr | removeXattr => exact .seq (hdemand _ C hC) fun _ => hC.kept.invalidateNodeState i _
  | flushFile | syncFile => exact flushThrough_spec hC fun C' hC' _ => hdemand _ C' hC'
  | seekFile | safeIoctl | getLock | setLock =>
    exact passOn_spec hC fun C' hC' _ => hdemand _ C' hC'
  | closeFile => exact closeFile_spec hC
  | ping | syncDirectory | getXattr | listXattrs | mapBlock | setVolumeName | forgetNodes =>
    exact hdemand _ C hC

/-- **Every operation keeps the contract.** -/
theorem operation_keeps (op : RemoteCall) :
    C.Keeps P i ((operation cache policy op).toTask fun r => some ⟨op, r⟩) := by
  by_cases hop : ∀ logical offset length, op ≠ .readRangeVersioned logical offset length
  · refine (operation_spec hC op hop).keeps (fun output g _ _ => ?_) (sound_error hC)
    rw [hC.sound]
    intro logical offset length read h
    exact absurd (Sigma.mk.inj (Option.some.inj h)).1 (hop logical offset length)
  · push Not at hop
    obtain ⟨logical, offset, length, rfl⟩ := hop
    exact readRangeVersioned_keeps hC

end Calls

/-! ## Runs -/

namespace CacheKind

variable {O : Outside} (kind : CacheKind)

/-- The entries of a cache are what `t` says. -/
def Holds (t : Truth) : kind.Cache → Prop :=
  match kind with
  | memory => MemoryCache.Holds t.file t.Describes
  | persistent _ => NonBlockingPersistentCache.Holds t.file t.Describes

/-- All ranges that are somewhere in a cache. -/
def rangeEntries : kind.Cache → Entries RangeKey (List UInt8) :=
  match kind with
  | memory => MemoryCache.ranges
  | persistent _ => NonBlockingPersistentCache.rangeEntries

variable {kind} {t : Truth} {P : Program (sig kind.Cache O)}

theorem Holds.faithful {cache : kind.Cache} (h : kind.Holds t cache) :
    Faithful t.file (kind.rangeEntries cache) :=
  match kind with
  | memory => MemoryCache.Holds.ranges h
  | persistent _ => NonBlockingPersistentCache.Holds.faithful h

/-- Another cache in the place of the one that is there. -/
theorem hosts_cache {κ : Type} {G : κ → Prop} {C : Contract (sig κ O)} (hC : Follows t G C) :
    C.Hosts (cacheLens κ) G where
  get _ hs := (hC.truthful hs).cache
  set _ _ hs hc :=
    have hs := hC.truthful hs
    hC.step ⟨hc, hs.handles, hs.fetches, hs.joins, hs.bound⟩ (.of_handles rfl rfl)

theorem cache_keeps
    (hserve : ∀ env choice q env' a, P.serve env choice q = some (env', a) → t.Fair q a)
    (C : Contract (sig kind.Cache O)) (hC : Follows t (kind.Holds t) C) :
    (kind.backend O).cache.Keeps C P t.file t.Describes := by
  cases kind with
  | memory => exact MemoryCache.implementation_keeps (hosts_cache hC)
  | persistent =>
    exact NonBlockingPersistentCache.implementation_keeps (hosts_cache hC) fun _ => ask_spec hC hserve

theorem maintain_keeps
    (hserve : ∀ env choice q env' a, P.serve env choice q = some (env', a) → t.Fair q a)
    {C : Contract (sig kind.Cache O)} (hC : Follows t (kind.Holds t) C) {i : ℕ} :
    C.Obeys P i (kind.backend O).maintain := by
  cases kind with
  | memory => exact .pure trivial
  | persistent =>
    exact NonBlockingPersistentCache.writerBatch_keeps (hosts_cache hC) fun _ => ask_spec hC hserve

end CacheKind

/-- **The program keeps the contract.** -/
theorem program_keeps (kind : CacheKind) (policy : CachePolicy) {O : Outside} {t : Truth}
    (hserve : ∀ env choice q env' a, O.serve env choice q = some (env', a) → t.Fair q a)
    (op : Op) (i : ℕ) :
    (contract t (kind.Holds t)).Keeps (program (kind.backend O) policy) i
      ((program (kind.backend O) policy).code op i) := by
  have hC : Follows t (kind.Holds t) (contract (O := O) t (kind.Holds t)) := ⟨rfl, rfl, rfl, rfl⟩
  cases op with
  | call op => exact operation_keeps ⟨hC, hserve, CacheKind.cache_keeps hserve⟩ op
  | maintain => exact keeps_of_ensures hC (CacheKind.maintain_keeps hserve hC)

theorem truthful_new {κ : Type} {t : Truth} {G : κ → Prop} {policy : CachePolicy} {cache : κ}
    (h : G cache) : Truthful t G (State.new policy cache) :=
  ⟨h, nofun, nofun, nofun, nofun⟩

/-- The moments of a run of a client whose cache starts as `cache`, against a truthful remote. -/
def pastOf (t : Truth) (kind : CacheKind) (policy : CachePolicy) (cache : kind.Cache)
    (actions : List (Action (sig kind.Cache t.outside))) :
    List (Moment (sig kind.Cache t.outside)) :=
  (run (program (kind.backend t.outside) policy) (World.initial (State.new policy cache) ())
    actions).history

/-- At this moment: a read that ends well answers with the slice that was asked for, of the file
that its handle was of when it looked it up, and of the one revision it names; and the ranges in the
cache are slices of the revisions they are filed under. -/
def Upheld (t : Truth) (kind : CacheKind) (m : Moment (sig kind.Cache t.outside))
    (past : List (Moment (sig kind.Cache t.outside))) : Prop :=
  (∀ logical offset length read,
    m.event = .returned (some ⟨.readRangeVersioned logical offset length, .ok read⟩) →
      ∃ earlier ∈ past, earlier.task = m.task ∧ ∃ state,
        earlier.shared.handles logical = some state ∧
          read.data = slice (t.content state.node read.revision) offset length) ∧
  Faithful t.file (kind.rangeEntries m.shared.cache)

/-- **Reads are truthful.**  Whatever is in the cache as long as it is true, whatever calls there
are and however they, the fetches they share and the fetches ahead interleave, whatever the remote
answers as long as it is true, and whether it can be reached or not: reads answer with the bytes of
one revision, and nothing gets into the cache that is not a slice of the revision it is filed under.
-/
theorem reads_truthful (t : Truth) (kind : CacheKind) (policy : CachePolicy) (cache : kind.Cache)
    (hcache : kind.Holds t cache) (actions : List (Action (sig kind.Cache t.outside))) :
    Throughout (Upheld t kind) (pastOf t kind policy cache actions) := by
  have hserve : ∀ env choice q env' a, t.outside.serve env choice q = some (env', a) →
      t.Fair q a := by
    intro env choice q env' a h
    cases h
    exact (choice q).2
  obtain ⟨-, h⟩ := Contract.run_sound (program_keeps kind policy hserve) (fun _ => trivial)
    (truthful_new hcache) actions
  refine h.imp fun m past hm => ⟨fun logical offset length read hread => ?_, ?_⟩
  · obtain ⟨earlier, hmem, htask, state, hfound, hdata, -⟩ :=
      hm.2 _ hread logical offset length read rfl
    exact ⟨earlier, hmem, htask, state, hfound, hdata⟩
  · exact hm.1.cache.faithful

/-! ### Files that never change -/

/-- Every file has the same content, at all times. -/
def constant (content : List UInt8) : Truth := ⟨fun _ _ => content, fun handle => handle⟩

def oneByte : Truth := constant [1]

def threeBytes : Truth := constant [1, 2, 3]

/-- Calls are answered in this way. -/
def choiceOf {t : Truth} (reply : (op : RemoteCall) → { r : op.Reply // t.Fair (.call op) r }) :
    t.outside.Choice
  | .call op => reply op
  | .now => ⟨0, trivial⟩
  | .deadline => ⟨false, trivial⟩
  | .disk => ⟨⟨fun _ => .intact, true, true⟩, trivial⟩

/-- Files are opened and read, and nothing else is done. -/
def serving (content : List UInt8) :
    (op : RemoteCall) → { r : op.Reply // (constant content).Fair (.call op) r }
  | .openFileWithOptions node _ =>
    ⟨.ok ⟨node, 1, content.length⟩, by rintro _ ⟨⟩; exact ⟨rfl, rfl⟩⟩
  | .readRangeVersioned _ offset length =>
    ⟨.ok ⟨1, slice content offset length⟩, by rintro _ ⟨⟩; rfl⟩
  | _ => ⟨.error .offline, nofun⟩

/-- A file of three bytes is opened, and the last two of them are read; the blocks are fetched side
by side. -/
def onlineRun : List (Action (sig CacheKind.memory.Cache threeBytes.outside)) :=
  let turn (task : ℕ) : List (Action (sig CacheKind.memory.Cache threeBytes.outside)) :=
    [.resume task, .serve task (choiceOf (serving [1, 2, 3])), .deliver task]
  .call (.call (.openFileWithOptions 7 .readOnly)) :: (List.replicate 6 (turn 0)).flatten ++
    .call (.call (.readRangeVersioned 0 1 2)) ::
      (List.replicate 20 (turn 1 ++ turn 2 ++ turn 3)).flatten

/-- The remote cannot be reached when a file of one byte is opened and read. -/
def offlineRun : List (Action (sig CacheKind.memory.Cache oneByte.outside)) :=
  [.call (.call (.openFileWithOptions 7 .readOnly)), .resume 0,
    .serve 0 (choiceOf fun _ => ⟨.error .offline, nofun⟩), .deliver 0, .resume 0, .resume 0,
    .resume 0, .call (.call (.readRangeVersioned 0 0 1)), .resume 1, .resume 1, .resume 1]

def blocksOfTwo : CachePolicy := ⟨2, 0, by decide, by decide⟩

/-- What was read, at the end of a read. -/
def returnedRead {κ : Type} {O : Outside} (m : Moment (sig κ O)) : Option RangeRead :=
  match m.event with
  | .returned (some ⟨.readRangeVersioned _ _ _, .ok read⟩) => some read
  | _ => none

/-- The metadata of node 7 at revision 1, with a size. -/
def sevenOfSize (size : ℕ) : Metadata := ⟨7, .file, size, 0, 0, 1, 0, 0, none, none, 1, 0, 0⟩

/-- A cache that has the metadata of the file, and its first byte. -/
def byteCache : MemoryCache :=
  (MemoryCache.empty.putMetadata 7 (sevenOfSize 3)).putRange ⟨⟨7, 1⟩, 0, 1⟩ [1]

/-- The theorem on a run in which two blocks of two bytes are fetched for a read. -/
theorem reads_truthful_of_byteCache :
    (pastOf threeBytes .memory blocksOfTwo byteCache onlineRun).filterMap returnedRead =
      [⟨1, [2, 3]⟩] ∧
    Throughout (Upheld threeBytes .memory)
      (pastOf threeBytes .memory blocksOfTwo byteCache onlineRun) := by
  have hempty : MemoryCache.empty.Holds threeBytes.file threeBytes.Describes :=
    MemoryCache.holds_empty
  have hmetadata : (MemoryCache.empty.putMetadata 7 (sevenOfSize 3)).Holds threeBytes.file
      threeBytes.Describes := hempty.putMetadata ⟨rfl, rfl⟩
  have hcache : CacheKind.memory.Holds threeBytes byteCache := hmetadata.putRange rfl
  constructor
  · decide +kernel
  · generalize onlineRun = actions
    exact reads_truthful threeBytes .memory blocksOfTwo byteCache hcache actions

/-- A cache that has no ranges, and takes the file for an empty one. -/
def emptyFileCache : MemoryCache := MemoryCache.empty.putMetadata 7 (sevenOfSize 0)

/-- **The sizes in the cache count.**  Nothing is wrong with the ranges in the cache nor with what
the remote says; but the read is cut off at the size that the cache has for the file. -/
theorem read_cut_off_at_cached_size :
    Faithful oneByte.file (CacheKind.memory.rangeEntries emptyFileCache) ∧
      ¬ Throughout (Upheld oneByte .memory)
        (pastOf oneByte .memory blocksOfTwo emptyFileCache offlineRun) := by
  refine ⟨Faithful.nil, fun h => ?_⟩
  obtain ⟨m, past, hpast, hevent⟩ : ∃ m past,
      pastOf oneByte .memory blocksOfTwo emptyFileCache offlineRun = m :: past ∧
        m.event = .returned (some ⟨.readRangeVersioned 0 0 1, .ok ⟨1, []⟩⟩) := ⟨_, _, rfl, rfl⟩
  rw [hpast] at h
  obtain ⟨_, _, _, _, _, hdata⟩ := h.1.1 0 0 1 ⟨1, []⟩ hevent
  cases hdata

end QuickFS.Cached
