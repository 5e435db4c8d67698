import QuickFS.Export.RequestPolicy

/-!
# While the tree does not change

Most of what a request does leaves the tree of the export as it is.  As long as that is so,
`QuickFS.Export.Sight` says what is found, and what the registry records of it is true of the tree
(`Stands`).  The requests that never do anything else are gone through here.

Something may be watched besides (`Watch`): what is to stay true of the host as requests go on.  It
is endangered only when an object that is watched vanishes, or when the file of a fork is created.
-/

namespace QuickFS.Export

open Server Async
open Call (Yields Maintains)

/-! ## What is watched -/

theorem HostCall.still_of_mutates {q : HostCall} (h : q.mutates = false) :
    q.relinks = false ∧ q.createsFork = false := by
  cases q <;> first | exact ⟨rfl, rfl⟩ | exact ⟨h, rfl⟩ | exact ⟨rfl, h⟩

theorem HostCall.relinks_of_byFile {q : HostCall} (h : q.byFile = true) : q.relinks = false := by
  cases q <;> first | rfl | cases h

theorem HostCall.exists_of_createsFork {q : HostCall} (h : q.createsFork = true) :
    ∃ node write, q = .openFork node write true := by
  cases q with
  | openFork node write create =>
    cases create with
    | false => cases h
    | true => exact ⟨node, write, rfl⟩
  | _ => cases h

/-- An object is in the tree, or outside of it. -/
def Backing.Present {E : Type} {answer : E → (q : HostCall) → E × q.Answer} (B : Backing answer)
    (env : E) (object : FileIdentity) : Prop :=
  (B.tree env).Live object ∨ B.outside object

/-- Something that is to stay true of a host with a tree, as long as no file of a fork is created
and none of the objects that are watched vanishes; and something that is said of the status of
objects. -/
structure Watch {E : Type} {answer : E → (q : HostCall) → E × q.Answer} (B : Backing answer) where
  kept : E → Prop
  watched : FileIdentity → Prop
  described : Tree → Stat → Prop
  keeps : ∀ env q, q.createsFork = false → (∀ object, watched object → B.Present env object →
    B.Present (answer env q).1 object) → kept env → kept (answer env q).1
  statat : ∀ env directory name stat, (answer env (.statat directory name)).2 = .ok stat →
    described (B.tree env) stat

/-- Nothing is watched. -/
def Backing.idle {E : Type} {answer : E → (q : HostCall) → E × q.Answer} (B : Backing answer) :
    Watch B where
  kept _ := True
  watched _ := False
  described _ _ := True
  keeps _ _ _ _ _ := trivial
  statat _ _ _ _ _ := trivial

variable {F : Frame} {E : Type} {answer : E → (q : HostCall) → E × q.Answer} {B : Backing answer}
  {config : Config} {i : ℕ} {α : Type}

namespace Watch

variable (W : Watch B)

/-- The tree is `T`, and the registry is what it is to be. -/
structure Stands (config : Config) (T : Tree) (c : Point F.sig E) : Prop where
  tree : B.tree c.env = T
  recorded : Recorded config T c.shared
  kept : W.kept c.env

/-- The same, whatever the tree is. -/
def Sound (config : Config) (c : Point F.sig E) : Prop := W.Stands config (B.tree c.env) c

/-- What the server sees. -/
def sight (T : Tree) : Sight where
  object := B.object
  child directory name object := T.links directory name = some object
  described := W.described T

variable {W} {T : Tree} {c : Point F.sig E}

theorem Stands.sound (h : W.Stands config T c) : W.Sound config c := by
  rw [Sound, h.tree]
  exact h

theorem Stands.root (h : W.Stands config T c) : T.root = B.object rootFile :=
  h.tree ▸ B.root c.env

variable {s' : State} {object : FileIdentity} {q : HostCall} {path : PathBuf}

theorem Sound.shared (h : W.Sound config c) (hs : Subsides c.shared s') :
    W.Sound config ({ c with shared := s' } : Point F.sig E) :=
  ⟨rfl, h.recorded.subsides hs, h.kept⟩

theorem leads_iff {directory : FileIdentity} :
    (W.sight T).Leads directory path object ↔ follow T.links directory path = some object := by
  induction path generalizing directory with
  | nil => exact ⟨fun h => congrArg some h.symm, fun h => (Option.some.inj h).symm⟩
  | cons _ _ ih =>
    rw [follow, Option.bind_eq_some_iff]
    exact exists_congr fun next => and_congr_right fun _ => ih

section

variable (h : W.Stands config T c)

include h

theorem Stands.located_iff : (W.sight T).Located path object ↔ T.resolve path = some object := by
  rw [Sight.Located, leads_iff, Hierarchy.resolve, h.root]
  exact Iff.rfl

/-- A call that leaves the tree as it is. -/
theorem Stands.same (hfork : q.createsFork = false)
    (htree : B.tree (answer c.env q).1 = B.tree c.env) :
    W.Stands config T { c with env := (answer c.env q).1 } :=
  ⟨htree.trans h.tree, h.recorded,
    W.keeps c.env q hfork (fun _ _ => Or.imp_left fun hlive => htree.symm ▸ hlive) h.kept⟩

/-- A call that cannot change a link. -/
theorem Stands.call (hlinks : q.relinks = false)
    (hfork : q.createsFork = false) : W.Stands config T { c with env := (answer c.env q).1 } :=
  h.same hfork (B.still c.env q hlinks)

theorem Stands.shared (hs : Subsides c.shared s') :
    W.Stands config T ({ c with shared := s' } : Point F.sig E) :=
  ⟨h.tree, h.recorded.subsides hs, h.kept⟩

end

theorem sight_of : (W.sight T).Of config answer (W.Stands (F := F) config T) where
  unseen _ hq _ hc := hc.call (HostCall.still_of_mutates hq).1 (HostCall.still_of_mutates hq).2
  dup c _ := B.dup c.env
  fstat c _ := B.fstat c.env
  statat c hc directory name stat hstat := ⟨hc.tree ▸ W.statat c.env directory name stat hstat,
    fun hname => hc.tree ▸ B.statat c.env directory name stat hname hstat⟩
  openat c hc directory name flags mode file hname hcreate hnofollow hfile :=
    hc.tree ▸ B.openat c.env directory name flags mode file hname hcreate hnofollow hfile
  readdir c _ := B.readdir c.env
  registered c hc :=
    show Registered config (B.object rootFile) c.shared from hc.root ▸ hc.recorded.registered
  subsides _ hc _ hs := hc.shared hs
  remembers _ hc _ _ hpath :=
    ⟨hc.tree, hc.recorded.rememberExisting (hc.located_iff.1 hpath), hc.kept⟩
  inserts _ hc _ _ hpath :=
    ⟨hc.tree, hc.recorded.insertReserved (hc.located_iff.1 hpath), hc.kept⟩
  opens _ hc _ _ _ :=
    ⟨hc.tree, ⟨⟨hc.recorded.registered.inverse, hc.recorded.registered.named⟩, hc.recorded.resolves,
      hc.recorded.pathed⟩, hc.kept⟩

/-! ## Rules -/

section Rules

/-- A function without state does not concern what byFile calls do not concern. -/
theorem plain_maintains {K : Point F.sig E → Prop} {writes : Prop} {forks : NodeId → Prop}
    {m : Run F α} (h : Plain writes forks m)
    (hK : ∀ q : HostCall, q.byFile = true →
      (∀ node write, q = .openFork node write true → forks node) → ∀ c, K c →
      K { c with env := (answer c.env q).1 }) :
    Maintains answer K m := by
  induction h with
  | pure => exact Maintains.pure
  | throw => exact Maintains.throw
  | ask hfile _ hforks => exact Maintains.ask (hK _ hfile hforks)
  | bind _ _ hm hf => exact hm.bind hf
  | attempt _ hm => exact hm.attempt

theorem plain_stands {m : Run F α} (h : Plain True (fun _ => False) m) :
    Yields answer (W.Stands config T) m fun _ => True := by
  refine (plain_maintains h fun q hfile hforks c hc =>
    hc.call (HostCall.relinks_of_byFile hfile) ?_).yields
  rw [← Bool.not_eq_true]
  intro hcreates
  obtain ⟨node, write, hq⟩ := HostCall.exists_of_createsFork hcreates
  exact hforks node write hq

/-- A call of the system that cannot change a link. -/
theorem stands_system {read : q.Answer → Except Errno α} (hlinks : q.relinks = false)
    (hfork : q.createsFork = false) :
    Yields answer (W.Stands config T) (system q read : Run F α) fun _ => True :=
  yields_system (fun _ hc => hc.call hlinks hfork) fun _ _ _ _ => trivial

end Rules

end Watch

/-! ## Functions that do not change the tree -/

section Common

variable {K : Point F.sig E → Prop}

theorem yields_requireWritable :
    Yields answer K (requireWritable config i : Run F Unit) fun _ => True := by
  refine Yields.bind (R := fun _ => True) (Yields.read fun _ _ => trivial) fun allowed _ => ?_
  split
  · exact Yields.pure trivial
  · exact Yields.throw

theorem yields_ofExcept {r : Except ServerError α} :
    Yields answer K (Call.ofExcept r : Run F α) fun _ => True :=
  Yields.ofExcept fun _ _ => trivial

theorem yields_validateName (name : Name) :
    Yields answer K (Call.ofExcept (validateName name) : Run F Unit)
      fun _ => isNormal name = true :=
  Yields.ofExcept fun _ h => isNormal_of_validateName h

theorem yields_openHandle (handle : FileHandle) :
    Yields answer K (openHandle i handle : Run F OpenFile) fun _ => True := by
  refine Yields.bind (R := fun _ => True) (Yields.read fun _ _ => trivial) fun opened _ => ?_
  split
  · exact Yields.pure trivial
  · exact Yields.throw

theorem yields_provided {condition : Bool} {m : Run F Unit} (h : Yields answer K m fun _ => True) :
    Yields answer K (provided condition m) fun _ => True := by
  rw [provided]
  split
  · exact h
  · exact Yields.pure trivial

end Common

section Requests

variable {W : Watch B} {T : Tree}

/-- A request that leaves the tree as it is. -/
abbrev Leaves (W : Watch B) (config : Config) (m : Run F α) : Prop :=
  ∀ T, Yields answer (W.Stands config T) m fun _ => True

/-- Everything is allowed. -/
def Policy.lenient : Policy where
  held _ := True
  looked _ := True
  opened _ := True
  writes := True
  held_root := trivial
  opened_normal _ _ := trivial
  looked_opened _ _ := trivial

theorem Placid.leaves {m : Run F α} (h : Placid .lenient config i m) : Leaves W config m := by
  intro T
  have hv : (W.sight T).Of config answer (W.Stands (F := F) config T) := W.sight_of
  induction h with
  | ofExcept => exact yields_ofExcept
  | bind _ _ hm hf => exact hm.seq hf
  | attempt _ hm => exact hm.attempt.any
  | plain h => exact Watch.plain_stands h
  | call _ hlinks hfork => exact Watch.stands_system hlinks hfork
  | writable _ hf => exact yields_requireWritable.seq fun _ => hf trivial
  | parent path _ hf =>
    exact ((looks_openParent hv.view.held_root path).yields hv).seq fun found =>
      hf found trivial trivial
  | looks h => exact (h hv.view).yields hv
  | allowed => exact yields_requireWritable

/-- What only looks leaves the tree as it is. -/
theorem Looks.leaves {m : Run F α} (h : ∀ w, Looks w config m fun _ => True) : Leaves W config m :=
  fun _ => (h W.sight_of.view).yields W.sight_of

theorem leaves_openNode (node : NodeId) (options : FileOpenOptions) :
    Leaves W config (openNode config i node options : Run F (FileHandle × FileRevision × ℕ)) := by
  intro T
  have hv : (W.sight T).Of config answer (W.Stands (F := F) config T) := W.sight_of
  refine Yields.seq (R := fun _ => True) (Yields.read fun _ _ => trivial) fun writable =>
    yields_ofExcept.seq fun _ => ((Looks.loses loses_takeHandlePermit).yields hv).seq fun _ =>
      yields_releasing ?_ fun c hc => hc.shared (subsides_of_eq rfl rfl)
  exact ((looks_nodeSnapshot node).yields hv).seq fun snapshot =>
    ((looks_openSnapshot snapshot rfl _).yields hv).seq fun opened =>
      (yields_provided (Watch.stands_system rfl rfl)).seq fun _ =>
        (Looks.fstat.yields hv).seq fun _ =>
          ((looks_insertHandle _).yields hv).seq fun _ => Yields.pure trivial

theorem leaves_setVolumeName (name : Name) :
    Leaves W config (setVolumeName config i name : Run F Unit) := by
  refine fun T => yields_requireWritable.seq fun _ => yields_ofExcept.seq fun _ =>
    (yields_provided ?_).seq fun _ => Yields.modify fun c hc => hc.shared (subsides_of_eq rfl rfl)
  exact Yields.bind (R := fun _ => True)
    (Yields.ask fun c hc => ⟨hc.call rfl rfl, trivial⟩) fun saved _ => yields_ofExcept

end Requests

end QuickFS.Export
