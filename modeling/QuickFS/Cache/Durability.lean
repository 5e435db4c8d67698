import QuickFS.Cache.Books
import QuickFS.Cache.Lookups

/-!
# The files behind the entries

An entry of the cache, in memory or in the manifest, names a payload file.  This module is about
when that file is there.

Names are made from the content, so a file that is written again is written as it was; it is
removals that can go wrong.  They follow two rules.  A commit removes what the state no longer
names, after the manifest has been written; and an insertion that does not get its entries into the
state removes the files it has written.  Neither asks what somebody else still needs.  An insertion
by another thread may have written the very file that a commit removes, and not have put its entry
in place yet (`removed_before_splice`); and in the middle of a batch the manifest on disk still
names files that the state does not, which an insertion writes again and then cleans up
(`cleanup_removes_saved_file`).

If only one thread inserts, every entry in memory has its file, at every moment of every run
(`entries_backed`).  If the writer thread runs alone, and never writes a file that the manifest on
disk names, every entry of that manifest has its file too (`manifest_intact`).

Both are instances of one discipline.  What the thread that inserts needs to know is that nobody
removes the files that it has written and not yet spliced in.  Nobody will: none of them is named by
the state as the thread left it when it last gave up the mutex (`lastHeld`), and the others remove
only files that were named by the state at a time after that.
-/

namespace QuickFS.Files

open Async
open Discipline (Triple)
open Files.PersistentState (PreparedEntry fileNames)

/-! ## Files and entries -/

/-- There is a file for the entry, with the length and the digest that the entry has for it. -/
def DiskEntry.HasFile (enc : Encoding) (disk : Disk) (entry : DiskEntry) : Prop :=
  (disk.payloads.find entry.fileName).any (entry.matches enc) = true

instance {enc : Encoding} {disk : Disk} {entry : DiskEntry} : Decidable (entry.HasFile enc disk) :=
  inferInstanceAs (Decidable (_ = true))

/-- Every entry of the state has its file. -/
def Backed (enc : Encoding) (disk : Disk) (state : PersistentState) : Prop :=
  ∀ p ∈ state.entries, p.2.HasFile enc disk

def Manifest.fileNames (manifest : Manifest) : List FileName :=
  manifest.entries.map fun entry => entry.fileName

/-- The names in the manifest on disk. -/
def Disk.namedFiles (disk : Disk) : List FileName := (disk.manifest.map Manifest.fileNames).getD []

/-- Every entry of the manifest on disk has its file. -/
def Disk.Intact (enc : Encoding) (disk : Disk) : Prop :=
  ∀ manifest ∈ disk.manifest, ∀ entry ∈ manifest.entries, entry.HasFile enc disk

section HasFile

variable {enc : Encoding} {disk disk' : Disk} {state state' : PersistentState}

/-- Only the file itself matters. -/
theorem DiskEntry.HasFile.of_find_eq {entry : DiskEntry} (h : entry.HasFile enc disk)
    (hfind : disk'.payloads.find entry.fileName =
      disk.payloads.find entry.fileName) :
    entry.HasFile enc disk' := by
  rw [HasFile, hfind]
  exact h

theorem mem_fileNames {name : FileName} :
    name ∈ state.fileNames ↔ ∃ p ∈ state.entries, p.2.fileName = name :=
  List.mem_map

theorem mem_manifest_fileNames {name : FileName} :
    name ∈ state.manifest.fileNames ↔ name ∈ state.fileNames := by
  rw [Manifest.fileNames, List.mem_map, mem_fileNames]
  constructor
  · rintro ⟨entry, hmem, rfl⟩
    obtain ⟨key, hkey⟩ := mem_manifest.1 hmem
    exact ⟨_, hkey, rfl⟩
  · rintro ⟨p, hp, rfl⟩
    exact ⟨p.2, mem_manifest.2 ⟨p.1, hp⟩, rfl⟩

theorem mem_namedFiles {name : FileName} :
    name ∈ disk.namedFiles ↔ ∃ manifest ∈ disk.manifest, name ∈ manifest.fileNames := by
  rw [Disk.namedFiles]
  cases disk.manifest with
  | none => simp
  | some => simp

theorem Backed.manifest (h : Backed enc disk state)
    (hmanifest : disk.manifest = some state.manifest) : disk.Intact enc := by
  intro m hm entry hentry
  rw [hmanifest, Option.mem_some] at hm
  subst hm
  obtain ⟨key, hkey⟩ := mem_manifest.1 hentry
  exact h _ hkey

theorem Backed.of_find_eq (h : Backed enc disk state)
    (hfind : ∀ name ∈ state.fileNames,
      disk'.payloads.find name = disk.payloads.find name) : Backed enc disk' state :=
  fun p hp => (h p hp).of_find_eq (hfind _ (mem_fileNames.2 ⟨p, hp, rfl⟩))

theorem Disk.Intact.of_find_eq (h : disk.Intact enc) (hmanifest : disk'.manifest = disk.manifest)
    (hfind : ∀ name ∈ disk.namedFiles,
      disk'.payloads.find name = disk.payloads.find name) : disk'.Intact enc := by
  intro m hm entry hentry
  rw [hmanifest] at hm
  refine (h m hm entry hentry).of_find_eq (hfind _ ?_)
  exact mem_namedFiles.2 ⟨m, hm, List.mem_map.2 ⟨entry, hentry, rfl⟩⟩

theorem touchEntry_entries {key : EntryKey} {p : EntryKey × DiskEntry}
    (hp : p ∈ (state.touchEntry key).entries) :
    ∃ q ∈ state.entries, q.2.fileName = p.2.fileName ∧ q.2.matches enc = p.2.matches enc := by
  obtain ⟨q, hq, rfl⟩ := List.mem_map.1 hp
  refine ⟨q, hq, ?_⟩
  dsimp only
  split <;> exact ⟨rfl, rfl⟩

/-- Touching entries leaves their files alone. -/
theorem Backed.touchEntries (h : Backed enc disk state) (keys : List EntryKey) :
    Backed enc disk (state.touchEntries keys) := by
  induction keys generalizing state with
  | nil => exact h
  | cons key _ ih =>
    have htouched : Backed enc disk (state.touchEntry key) := by
      intro p hp
      obtain ⟨q, hq, hname, hmatches⟩ := touchEntry_entries hp
      rw [DiskEntry.HasFile, ← hname, ← hmatches]
      exact h q hq
    exact ih htouched

theorem fileNames_touchEntries {keys : List EntryKey} :
    (state.touchEntries keys).fileNames = state.fileNames := by
  induction keys generalizing state with
  | nil => rfl
  | cons key rest ih =>
    have hrest : ((state.touchEntry key).touchEntries rest).fileNames =
        (state.touchEntry key).fileNames := ih
    refine hrest.trans ?_
    rw [fileNames, fileNames]
    change (state.entries.map _).map _ = _
    rw [List.map_map]
    refine List.map_congr_left fun p _ => ?_
    dsimp only [Function.comp]
    split <;> rfl

end HasFile

/-! ## The past -/

/-- The manifest on disk, as the past tells. -/
def manifestOf (initial : Option Manifest) : List (Moment sig) → Option Manifest
  | [] => initial
  | m :: past =>
    match m.event with
    | .served (.writeManifest manifest) (some _) => some manifest
    | _ => manifestOf initial past

/-- No payload file is written that the manifest on disk names. -/
def FreshWrites (initial : Option Manifest) (m : Moment sig) (past : List (Moment sig)) : Prop :=
  match m.event with
  | .sent (.writePayload name _) =>
    ∀ manifest ∈ manifestOf initial past, name ∉ manifest.fileNames
  | _ => True

/-- The state when a task last held the mutex. -/
def lastHeld (task : ℕ) : List (Moment sig) → Option PersistentState
  | [] => none
  | m :: past => if m.shared.mutex = some task then some m.shared.state else lastHeld task past

/-! ## The discipline -/

/-- Who inserts, and whether anybody else is there at all; what the values look like, and the
manifest that was on disk at the start. -/
structure Regime where
  enc : Encoding
  inserter : ℕ
  alone : Prop
  initial : Option Manifest

namespace Regime

section Discipline

variable (T : Regime)

/-- Only calls for which the manifest on disk has been spared. -/
abbrev Fresh (g : Global sig) : Prop := Throughout (FreshWrites T.initial) g.history

structure Inv (g : Global sig) : Prop where
  opened : g.shared.opened = true
  books : Accounted T.enc (fun _ _ => True) g.shared.state
  backed : Backed T.enc g.env g.shared.state
  disk : g.env.manifest = manifestOf T.initial g.history
  intact : T.Fresh g → g.env.Intact T.enc
  holder : g.shared.mutex = some T.inserter → lastHeld T.inserter g.history = some g.shared.state
  shrunk : ∀ s, lastHeld T.inserter g.history = some s →
    ∀ name ∈ g.shared.state.fileNames, name ∈ s.fileNames
  calm : ¬T.alone → g.shared.deferred.active = false ∧ g.shared.deferred.pendingRemovals = []

/-- The files that the inserting task may be about to splice in. -/
def Spares (g g' : Global sig) : Prop :=
  ∀ s, lastHeld T.inserter g.history = some s → lastHeld T.inserter g'.history = some s ∧
    ∀ name, name ∉ s.fileNames →
      g'.env.payloads.find name = g.env.payloads.find name ∧
      (name ∈ g'.env.namedFiles → name ∈ g.env.namedFiles)

/-- Who holds the mutex finds things as they were. -/
structure Untouched (g g' : Global sig) : Prop where
  mutex : g'.shared.mutex = g.shared.mutex
  state : g'.shared.state = g.shared.state
  manifest : g'.env.manifest = g.env.manifest
  pending : g'.shared.deferred.pendingRemovals = g.shared.deferred.pendingRemovals
  lastHeld : lastHeld T.inserter g'.history = lastHeld T.inserter g.history

structure Rely (i : ℕ) (g g' : Global sig) : Prop where
  past : T.Fresh g' → T.Fresh g
  held : g.shared.mutex = some i → T.Untouched g g'
  spares : i = T.inserter → T.Spares g g'

variable {T}

theorem Untouched.trans {g1 g2 g3 : Global sig} (h : T.Untouched g1 g2)
    (h' : T.Untouched g2 g3) : T.Untouched g1 g3 :=
  ⟨h'.mutex.trans h.mutex, h'.state.trans h.state, h'.manifest.trans h.manifest,
    h'.pending.trans h.pending, h'.lastHeld.trans h.lastHeld⟩

theorem Spares.trans {g1 g2 g3 : Global sig} (h : T.Spares g1 g2)
    (h' : T.Spares g2 g3) : T.Spares g1 g3 := by
  intro s hs
  obtain ⟨hs2, hfiles⟩ := h s hs
  obtain ⟨hs3, hfiles'⟩ := h' s hs2
  refine ⟨hs3, fun name hname => ?_⟩
  obtain ⟨hfind, hnamed⟩ := hfiles name hname
  obtain ⟨hfind', hnamed'⟩ := hfiles' name hname
  exact ⟨hfind'.trans hfind, fun h => hnamed (hnamed' h)⟩

variable (T)

def discipline : Discipline (program T.enc) where
  inv := T.Inv
  rely := T.Rely
  rely_refl _ _ := ⟨id, fun _ => ⟨rfl, rfl, rfl, rfl, rfl⟩, fun _ _ hs =>
    ⟨hs, fun _ _ => ⟨rfl, id⟩⟩⟩
  rely_trans _ _ _ _ h h' := ⟨fun hfresh => h.past (h'.past hfresh),
    fun hheld => (h.held hheld).trans (h'.held ((h.held hheld).mutex.trans hheld)),
    fun hi => (h.spares hi).trans (h'.spares hi)⟩

abbrev Lasting (i : ℕ) (K : Global sig → Prop) : Prop := T.discipline.Lasting i K

abbrev Ensures {α : Type} (i : ℕ) (pre : Global sig → Prop) (m : M α)
    (post : α → Global sig → Prop) (fail : CacheError → Global sig → Prop) : Prop :=
  T.discipline.Triple i pre m post fail

end Discipline

/-! ## Steps -/

section Steps

variable {T : Regime} {i : ℕ} {g g' : Global sig}

variable {e : Event sig} {cache : PersistentCache}

theorem lastHeld_cons (h : T.Inv g) (hmutex : cache.mutex = g.shared.mutex)
    (hstate : cache.state = g.shared.state) :
    lastHeld T.inserter (⟨i, e, cache⟩ :: g.history) = lastHeld T.inserter g.history := by
  rw [lastHeld]
  split
  · rename_i hheld
    rw [h.holder (hmutex.symm.trans hheld), ← hstate]
  · rfl

section

variable (h : T.Inv g)
    (he : manifestOf T.initial (g.log i e).history = manifestOf T.initial g.history)

include h he

/-- A moment at which nothing changes. -/
theorem Inv.log : T.Inv (g.log i e) ∧ ∀ j, T.Rely j g (g.log i e) := by
  have hlast : lastHeld T.inserter (g.log i e).history = lastHeld T.inserter g.history :=
    lastHeld_cons h rfl rfl
  exact ⟨⟨h.opened, h.books, h.backed, h.disk.trans he.symm, fun hfresh => h.intact hfresh.2,
    fun hheld => hlast.trans (h.holder hheld), fun s hs => h.shrunk s (hlast.symm.trans hs),
    h.calm⟩, fun j => ⟨fun hfresh => hfresh.2, fun _ => ⟨rfl, rfl, rfl, rfl, hlast⟩,
    fun _ s hs => ⟨hlast.trans hs, fun _ _ => ⟨rfl, id⟩⟩⟩⟩

theorem Inv.guarantee_log : T.discipline.Guarantee i g (g.log i e) :=
  ⟨(log h he).1, fun j _ => (log h he).2 j⟩

/-- What lasts also lasts through a moment of the task itself at which nothing changes. -/
theorem Inv.log_lasting {K : Global sig → Prop} (hK : T.Lasting i K) (hg : K g) : K (g.log i e) :=
  hK g _ hg ((log h he).2 i) (log h he).1

end

/-- A task takes the mutex or gives it back. -/
theorem Inv.mutexStep (h : T.Inv g) {mutex : Option ℕ}
    (hbefore : g.shared.mutex = none ∨ g.shared.mutex = some i)
    (hafter : mutex = none ∨ mutex = some i) :
    T.discipline.Guarantee i g (g.step i { g.shared with mutex := mutex }) := by
  have hlast : ∀ s, lastHeld T.inserter (g.step i { g.shared with mutex := mutex }).history = some s →
      s = g.shared.state ∨ lastHeld T.inserter g.history = some s := by
    intro s hs
    change (if mutex = some T.inserter then some g.shared.state else _) = _ at hs
    split at hs
    · exact .inl (Option.some.inj hs).symm
    · exact .inr hs
  refine ⟨⟨h.opened, h.books, h.backed, h.disk, fun hfresh => h.intact hfresh.2, fun hmutex => ?_,
    fun s hs name hname => ?_, h.calm⟩, fun j hj => ⟨fun hfresh => hfresh.2, fun hheld => ?_,
    fun hinserter s hs => ⟨?_, fun _ _ => ⟨rfl, id⟩⟩⟩⟩
  · exact if_pos hmutex
  · rcases hlast s hs with rfl | hs
    · exact hname
    · exact h.shrunk s hs name hname
  · rcases hbefore with hnone | hself
    · rw [hnone] at hheld
      cases hheld
    · rw [hself, Option.some_inj] at hheld
      exact absurd hheld.symm hj
  · refine (if_neg ?_).trans hs
    rintro heq
    rcases hafter with hnone | hself
    · rw [show mutex = none from hnone] at heq
      cases heq
    · rw [show mutex = some i from hself, Option.some_inj] at heq
      exact hj (hinserter.trans heq.symm)

/-- A step of the task that holds the mutex. -/
theorem Inv.holding (h : T.Inv g) (hheld : g.shared.mutex = some i) {disk : Disk}
    (hmutex : cache.mutex = some i) (hopened : cache.opened = true)
    (hbooks : Accounted T.enc (fun _ _ => True) cache.state)
    (hbacked : Backed T.enc disk cache.state)
    (hdisk : disk.manifest = manifestOf T.initial (⟨i, e, cache⟩ :: g.history))
    (hintact : T.Fresh g → disk.Intact T.enc)
    (hcalm : ¬T.alone → cache.deferred.active = false ∧ cache.deferred.pendingRemovals = [])
    (hothers : i ≠ T.inserter → (∀ name ∈ cache.state.fileNames, name ∈ g.shared.state.fileNames) ∧
      ∀ s, lastHeld T.inserter g.history = some s → ∀ name, name ∉ s.fileNames →
      disk.payloads.find name = g.env.payloads.find name ∧
      (name ∈ disk.namedFiles → name ∈ g.env.namedFiles)) :
    T.discipline.Guarantee i g ⟨cache, disk, ⟨i, e, cache⟩ :: g.history⟩ := by
  have hlast : i ≠ T.inserter →
      lastHeld T.inserter (⟨i, e, cache⟩ :: g.history) = lastHeld T.inserter g.history := fun hi =>
    if_neg fun heq => hi (Option.some.inj (hmutex.symm.trans heq))
  refine ⟨⟨hopened, hbooks, hbacked, hdisk, fun hfresh => hintact hfresh.2, fun heq => if_pos heq,
    fun s hs name hname => ?_, hcalm⟩, fun j hj => ⟨fun hfresh => hfresh.2, fun heq => ?_,
    fun hinserter s hs => ?_⟩⟩
  · by_cases hi : i = T.inserter
    · subst hi
      rw [lastHeld, if_pos hmutex, Option.some_inj] at hs
      exact hs ▸ hname
    · rw [hlast hi] at hs
      exact h.shrunk s hs name ((hothers hi).1 name hname)
  · exact absurd (Option.some.inj (heq.symm.trans hheld)) hj
  · have hi : i ≠ T.inserter := fun heq => hj (hinserter.trans heq.symm)
    exact ⟨(hlast hi).trans hs, (hothers hi).2 s hs⟩

end Steps

/-! ## Calls to the disk -/

section Calls

variable {T : Regime} {i : ℕ}

variable {q : DiskCall} {K : Global sig → Prop}

/-- A call to the disk.  Sending it and getting the answer changes nothing, and neither does a call
that fails. -/
theorem disk_triple {pre mid fail : Global sig → Prop} {post : q.Value → Global sig → Prop}
    (hpre : T.Lasting i pre) (hmid : T.Lasting i mid)
    (hfail : T.Lasting i fail) (hpost : ∀ value, T.Lasting i (post value))
    (hsend : ∀ g, T.Inv g → pre g → mid (g.log i (.sent q)))
    (hfails : ∀ g, T.Inv g → mid g → fail g)
    (hserve : ∀ g, T.Inv g → mid g →
      T.discipline.Guarantee i g (g.serve i (g.env.apply q).1 q (some (g.env.apply q).2)) ∧
      post (g.env.apply q).2 (g.serve i (g.env.apply q).1 q (some (g.env.apply q).2))) :
    T.Ensures i pre (disk q) post fun _ => fail := by
  refine Triple.bind (R := fun a g => a.elim (fail g) fun value => post value g)
    (Triple.ask_lasting (R := mid)
      (A := fun a g => a.elim (fail g) fun value => post value g) hpre hmid (fun a => ?_)
      (fun g hinv hg => ?_)
      (fun g choice env a hinv hg hserved => ?_) fun g a hinv hg => ?_) fun a => ?_
  · cases a with
    | some value => exact hpost value
    | none => exact hfail
  · exact ⟨hinv.guarantee_log rfl, hsend g hinv hg⟩
  · change (if choice then some (g.env, none)
      else some ((g.env.apply q).1, some (g.env.apply q).2)) = _ at hserved
    split at hserved
    · cases hserved
      have he : manifestOf T.initial (g.log i (.served q none)).history =
          manifestOf T.initial g.history := by cases q <;> rfl
      exact ⟨hinv.guarantee_log he, hinv.log_lasting he hfail (hfails g hinv hg)⟩
    · cases hserved
      exact hserve g hinv hg
  · refine ⟨hinv.guarantee_log rfl, ?_⟩
    cases a with
    | some value => exact hinv.log_lasting rfl (hpost value) hg
    | none => exact hinv.log_lasting rfl hfail hg
  · cases a with
    | some => exact Triple.pure fun _ h => h
    | none => exact Triple.throw fun _ h => h

/-- A call that only looks. -/
theorem disk_look (hK : T.Lasting i K) (hq : ∀ disk : Disk, (disk.apply q).1 = disk)
    (hmanifest : ∀ manifest, q ≠ .writeManifest manifest) :
    T.Ensures i K (disk q) (fun _ => K) fun _ => K := by
  refine disk_triple hK hK hK (fun _ => hK) (fun g hinv hg => hinv.log_lasting rfl hK hg)
    (fun _ _ hg => hg) fun g hinv hg => ?_
  have he : ∀ a, manifestOf T.initial (g.log i (.served q a)).history =
      manifestOf T.initial g.history := by
    cases q with
    | writeManifest manifest => exact absurd rfl (hmanifest manifest)
    | _ => exact fun _ => rfl
  rw [hq]
  exact ⟨hinv.guarantee_log (he _), hinv.log_lasting (he _) hK hg⟩

/-- A look at the shared state. -/
theorem read_triple {α : Type} {f : PersistentCache → α} {post : α → Global sig → Prop}
    {fail : CacheError → Global sig → Prop} (hK : T.Lasting i K)
    (hpost : ∀ g g', T.Inv g → K g → K g' → g'.shared = g.shared → post (f g.shared) g') :
    T.Ensures i K (Call.read f) post fail := by
  refine Triple.access_lasting hK fun g hinv hg _ => ?_
  exact ⟨hinv.guarantee_log rfl, hpost g _ hinv hg (hinv.log_lasting rfl hK hg) rfl⟩

end Calls

/-! ## Removals -/

section Commits

variable {T : Regime} {i : ℕ} {s proposed : PersistentState} {saved : Option Manifest} {φ : Prop}

/-- What the task sees that holds the mutex, and what it has learnt before if the past is as it
should be. -/
structure Sees (T : Regime) (i : ℕ) (s : PersistentState) (saved : Option Manifest) (φ : Prop)
    (g : Global sig) : Prop where
  mutex : g.shared.mutex = some i
  state : g.shared.state = s
  manifest : g.env.manifest = saved
  learnt : T.Fresh g → φ

/-- Nobody else will miss the file of this name: the manifest on disk does not have it, and the task
that inserts has not written it. -/
structure Droppable (T : Regime) (i : ℕ) (name : FileName) (g : Global sig) : Prop where
  unnamed : T.Fresh g → name ∉ g.env.namedFiles
  unwritten : i ≠ T.inserter → ∀ s, lastHeld T.inserter g.history = some s → name ∈ s.fileNames

theorem lasting_sees : T.Lasting i (T.Sees i s saved φ) := by
  intro g g' hg hr _
  have h := hr.held hg.mutex
  exact ⟨h.mutex.trans hg.mutex, h.state.trans hg.state, h.manifest.trans hg.manifest,
    fun hfresh => hg.learnt (hr.past hfresh)⟩

variable {g : Global sig} {names : List FileName}

theorem Droppable.of_untouched {name : FileName} {g' : Global sig} (h : T.Droppable i name g)
    (hpast : T.Fresh g' → T.Fresh g) (hmanifest : g'.env.manifest = g.env.manifest)
    (hlast : lastHeld T.inserter g'.history = lastHeld T.inserter g.history) :
    T.Droppable i name g' := by
  refine ⟨fun hfresh => ?_, fun hi => ?_⟩
  · rw [Disk.namedFiles, hmanifest]
    exact h.unnamed (hpast hfresh)
  · rw [hlast]
    exact h.unwritten hi

theorem lasting_droppable :
    T.Lasting i fun g => T.Sees i s saved φ g ∧
      ∀ name ∈ names, name ∉ s.fileNames → T.Droppable i name g := by
  intro g g' ⟨hsees, hdrop⟩ hr hinv
  have h := hr.held hsees.mutex
  exact ⟨lasting_sees g g' hsees hr hinv, fun name hname hnot =>
    (hdrop name hname hnot).of_untouched hr.past h.manifest h.lastHeld⟩

theorem removeUnreferencedFiles_triple :
    T.Ensures i (fun g => T.Sees i s saved φ g ∧
        ∀ name ∈ names, name ∉ s.fileNames → T.Droppable i name g)
      (removeUnreferencedFiles s names) (fun _ => T.Sees i s saved φ) fun _ => T.Sees i s saved φ := by
  induction names with
  | nil => exact Triple.pure fun _ h => h.1
  | cons name rest ih =>
    have hrest : ∀ g, (T.Sees i s saved φ g ∧ ∀ n ∈ name :: rest, n ∉ s.fileNames →
        T.Droppable i n g) → T.Sees i s saved φ g ∧ ∀ n ∈ rest, n ∉ s.fileNames →
        T.Droppable i n g := fun g ⟨hsees, hdrop⟩ =>
      ⟨hsees, fun n hn => hdrop n (List.mem_cons_of_mem _ hn)⟩
    rw [removeUnreferencedFiles]
    split
    · exact ih.conseq hrest (fun _ _ h => h) fun _ _ h => h
    rename_i hnot
    refine Triple.bind (R := fun _ g => T.Sees i s saved φ g ∧
      ∀ n ∈ rest, n ∉ s.fileNames → T.Droppable i n g) (disk_triple lasting_droppable
      lasting_droppable lasting_sees (fun _ => lasting_droppable)
      (fun g hinv hg => hinv.log_lasting rfl lasting_droppable hg) (fun _ _ hg => hg.1)
      fun g hinv ⟨hsees, hdrop⟩ => ?_) fun _ => ih
    have hname := hdrop name List.mem_cons_self hnot
    refine ⟨hinv.holding hsees.mutex hsees.mutex hinv.opened hinv.books
      (hinv.backed.of_find_eq fun n hn => Entries.find_erase_of_ne ?_) hinv.disk
      (fun hfresh => (hinv.intact hfresh).of_find_eq rfl fun n hn =>
        Entries.find_erase_of_ne ?_) hinv.calm fun hi => ⟨fun _ hn => hn, fun b hb n hn =>
        ⟨Entries.find_erase_of_ne ?_, id⟩⟩,
      ⟨hsees.mutex, hsees.state, hsees.manifest, fun h => hsees.learnt h.2⟩,
      fun n hn hn' => (hdrop n (List.mem_cons_of_mem _ hn) hn').of_untouched (fun h => h.2) rfl
        (lastHeld_cons hinv rfl rfl)⟩
    · rintro rfl
      exact hnot (hsees.state ▸ hn)
    · rintro rfl
      exact hname.unnamed hfresh hn
    · rintro rfl
      exact hn (hname.unwritten hi b hb)

/-! ## Commits -/

/-- Every entry of the proposed state has its file: it is one that the state has, or the inserting
task has just written it. -/
def Covered (T : Regime) (i : ℕ) (s proposed : PersistentState) (g : Global sig) : Prop :=
  ∀ p ∈ proposed.entries, p ∈ s.entries ∨ i = T.inserter ∧
    ∃ b, lastHeld T.inserter g.history = some b ∧ p.2.fileName ∉ b.fileNames ∧
      p.2.HasFile T.enc g.env

theorem lasting_covered : T.Lasting i (T.Covered i s proposed) := by
  intro g g' hg hr _ p hp
  refine (hg p hp).imp id fun ⟨hi, b, hb, hname, hfile⟩ => ⟨hi, b, ?_⟩
  obtain ⟨hb', hfiles⟩ := hr.spares hi b hb
  exact ⟨hb', hname, hfile.of_find_eq (hfiles _ hname).1⟩

/-- All that a commit needs. -/
abbrev Ready (T : Regime) (i : ℕ) (s proposed : PersistentState) (saved : Option Manifest)
    (φ : Prop) (g : Global sig) : Prop :=
  T.Sees i s saved φ g ∧ T.Covered i s proposed g

theorem lasting_ready : T.Lasting i (T.Ready i s proposed saved φ) :=
  lasting_sees.and lasting_covered

theorem Covered.backed (h : T.Covered i s proposed g) (hinv : T.Inv g)
    (hstate : g.shared.state = s) : Backed T.enc g.env proposed := by
  intro p hp
  rcases h p hp with hmem | ⟨-, -, -, -, hfile⟩
  · exact hinv.backed p (hstate ▸ hmem)
  · exact hfile

theorem Covered.fileNames (h : T.Covered i s proposed g) (hi : i ≠ T.inserter) :
    ∀ name ∈ proposed.fileNames, name ∈ s.fileNames := by
  intro name hname
  obtain ⟨p, hp, rfl⟩ := mem_fileNames.1 hname
  exact mem_fileNames.2 ⟨p, (h p hp).resolve_right fun h' => hi h'.1, rfl⟩

theorem Covered.serve (h : T.Covered i s proposed g) (hinv : T.Inv g) {q : DiskCall}
    {a : Option q.Value} {disk : Disk} (hfiles : disk.payloads = g.env.payloads) :
    T.Covered i s proposed (g.serve i disk q a) := by
  intro p hp
  refine (h p hp).imp id fun ⟨hi, b, hb, hname, hfile⟩ => ⟨hi, b, ?_, hname, ?_⟩
  · exact (lastHeld_cons hinv rfl rfl).trans hb
  · exact hfile.of_find_eq (congrArg (Entries.find · p.2.fileName) hfiles)

/-- After a commit, whatever came of it. -/
structure Committed (T : Regime) (i : ℕ) (s proposed : PersistentState) (saved : Option Manifest)
    (φ : Prop) (g : Global sig) : Prop where
  mutex : g.shared.mutex = some i
  state : g.shared.state = s ∨ g.shared.state = proposed
  manifest : g.env.manifest = saved ∨ g.env.manifest = some g.shared.state.manifest
  learnt : T.Fresh g → φ

theorem Sees.committed (h : T.Sees i proposed (some proposed.manifest) φ g) :
    T.Committed i s proposed saved φ g :=
  ⟨h.mutex, .inr h.state, .inr (by rw [h.manifest, h.state]), h.learnt⟩

theorem Sees.uncommitted (h : T.Sees i s saved φ g) : T.Committed i s proposed saved φ g :=
  ⟨h.mutex, .inl h.state, .inl h.manifest, h.learnt⟩

/-- The manifest is written, or left as it is. -/
theorem writeManifest_triple :
    T.Ensures i (T.Ready i s proposed saved φ)
      (writeManifest T.enc proposed)
      (fun _ => T.Ready i s proposed (some proposed.manifest) φ)
      fun _ => T.Sees i s saved φ := by
  rw [writeManifest]
  split
  · exact Triple.throw fun _ h => h.1
  refine disk_triple lasting_ready lasting_ready
    lasting_sees (fun _ => lasting_ready)
    (fun g hinv hg => hinv.log_lasting rfl lasting_ready hg)
    (fun _ _ hg => hg.1) fun g hinv ⟨hsees, hcovered⟩ => ?_
  have hbacked := hcovered.backed hinv hsees.state
  refine ⟨hinv.holding hsees.mutex hsees.mutex hinv.opened hinv.books
    (hinv.backed.of_find_eq fun _ _ => rfl) rfl
    (fun _ => Backed.manifest (hbacked.of_find_eq fun _ _ => rfl) rfl) hinv.calm
    fun hi => ⟨fun _ hn => hn, fun b hb n hn => ⟨rfl, fun hnamed => ?_⟩⟩,
    ⟨hsees.mutex, hsees.state, rfl, fun h => hsees.learnt h.2⟩, hcovered.serve hinv rfl⟩
  -- The names in the new manifest are names of the state, which has shrunk since.
  rw [mem_namedFiles] at hnamed
  obtain ⟨m, hm, hnamed⟩ := hnamed
  cases hm
  rw [mem_manifest_fileNames] at hnamed
  exact absurd (hinv.shrunk b hb n (hsees.state ▸ hcovered.fileNames hi n hnamed)) hn

/-- The first step of a commit: in a batch, it is also the last. -/
theorem defer_triple (hbooks : Accounted T.enc (fun _ _ => True) proposed)
    (hi : i = T.inserter ∨ ¬T.alone) (obsolete : List FileName) :
    T.Ensures i (T.Ready i s proposed saved φ)
      (Call.access (fun _ => true)
        (fun cache => cache.defer proposed obsolete) fun cache => cache.deferred.active)
      (fun deferred g => if deferred then T.Committed i s proposed saved φ g
        else T.Sees i s saved φ g ∧ T.Covered i s proposed g) fun _ _ => False := by
  refine Triple.access_lasting lasting_ready fun g hinv ⟨hsees, hcovered⟩ _ => ?_
  rw [PersistentCache.defer]
  cases hactive : g.shared.deferred.active with
  | true =>
    -- There is a batch, and so there is nobody but the inserting task.
    have halone : T.alone := by
      by_contra hnot
      rw [(hinv.calm hnot).1] at hactive
      cases hactive
    rw [if_pos rfl, if_pos rfl]
    exact ⟨hinv.holding hsees.mutex hsees.mutex hinv.opened hbooks
      (hcovered.backed hinv hsees.state) hinv.disk hinv.intact (fun hnot => absurd halone hnot)
      fun hne => absurd halone (hi.resolve_left hne),
      ⟨hsees.mutex, .inr rfl, .inl hsees.manifest, fun h => hsees.learnt h.2⟩⟩
  | false =>
    rw [if_neg (by nofun), if_neg (by nofun)]
    exact ⟨hinv.guarantee_log rfl, hinv.log_lasting rfl lasting_ready ⟨hsees, hcovered⟩⟩

/-- The files a commit leaves behind that the inserting task cannot be about to splice in. -/
def Left (T : Regime) (i : ℕ) (names : List FileName) (g : Global sig) : Prop :=
  i ≠ T.inserter → ∀ b, lastHeld T.inserter g.history = some b → ∀ name ∈ names, name ∈ b.fileNames

theorem lasting_left : T.Lasting i fun g => T.Sees i s saved φ g ∧ T.Left i names g := by
  intro g g' ⟨hsees, hleft⟩ hr hinv
  refine ⟨lasting_sees g g' hsees hr hinv, ?_⟩
  rw [Left, (hr.held hsees.mutex).lastHeld]
  exact hleft

/-- The second half of a commit: the state is put in place, and what it does not name is removed. -/
theorem replace_triple (hbooks : Accounted T.enc (fun _ _ => True) proposed) :
    T.Ensures i
      (T.Ready i s proposed (some proposed.manifest) φ)
      (Call.modify fun cache => { cache with state := proposed })
      (fun _ g => T.Sees i proposed (some proposed.manifest) φ g ∧ T.Left i s.fileNames g)
      fun _ _ => False := by
  refine Triple.access_lasting lasting_ready
    fun g hinv ⟨hsees, hcovered⟩ _ => ⟨hinv.holding hsees.mutex hsees.mutex hinv.opened hbooks
      (hcovered.backed hinv hsees.state) hinv.disk hinv.intact hinv.calm fun hi => ⟨?_, ?_⟩,
      ⟨hsees.mutex, rfl, hsees.manifest, fun h => hsees.learnt h.2⟩, fun hi b hb name hname => ?_⟩
  · rw [hsees.state]
    exact hcovered.fileNames hi
  · exact fun _ _ _ _ => ⟨rfl, id⟩
  have hne : ¬g.shared.mutex = some T.inserter := by
    rw [hsees.mutex, Option.some_inj]
    exact hi
  exact hinv.shrunk b ((if_neg hne).symm.trans hb) name (hsees.state ▸ hname)

theorem takePending_triple (hi : i = T.inserter ∨ ¬T.alone) :
    T.Ensures i (fun g => T.Sees i s saved φ g ∧ T.Left i names g)
      (Call.access (fun _ => true)
        (fun cache => { cache with deferred := ⟨cache.deferred.active, false, []⟩ })
        fun cache => cache.deferred.pendingRemovals)
      (fun pending g => T.Sees i s saved φ g ∧ T.Left i (pending ++ names) g) fun _ _ => False := by
  refine Triple.access_lasting lasting_left fun g hinv ⟨hsees, hleft⟩ _ =>
    ⟨hinv.holding hsees.mutex hsees.mutex hinv.opened hinv.books hinv.backed hinv.disk hinv.intact
      (fun hnot => ⟨(hinv.calm hnot).1, rfl⟩)
      fun _ => ⟨fun _ hn => hn, fun _ _ _ _ => ⟨rfl, id⟩⟩,
      ⟨hsees.mutex, hsees.state, hsees.manifest, fun h => hsees.learnt h.2⟩, fun hne b hb name hname => ?_⟩
  have hmutex : ¬g.shared.mutex = some T.inserter := by
    rw [hsees.mutex, Option.some_inj]
    exact hne
  have hb : lastHeld T.inserter g.history = some b := (if_neg hmutex).symm.trans hb
  rcases List.mem_append.1 hname with hpending | hname
  · rw [(hinv.calm (hi.resolve_left hne)).2] at hpending
    cases hpending
  · exact hleft hne b hb name hname

/-- What nobody names is removed. -/
theorem removeLeft_triple :
    T.Ensures i (fun g => T.Sees i s (some s.manifest) φ g ∧ T.Left i names g)
      (removeUnreferencedFiles s names >>= fun _ => disk .syncDirectory)
      (fun _ => T.Sees i s (some s.manifest) φ) fun _ => T.Sees i s (some s.manifest) φ := by
  refine Triple.bind (removeUnreferencedFiles_triple.pre_of
    fun g ⟨hsees, hleft⟩ => ⟨hsees, fun name hname hnot => ⟨fun _ hnamed => ?_,
      fun hne b hb => hleft hne b hb name hname⟩⟩) fun _ =>
    disk_look lasting_sees (fun _ => rfl) nofun
  rw [mem_namedFiles, hsees.manifest] at hnamed
  obtain ⟨m, hm, hnamed⟩ := hnamed
  cases hm
  exact hnot (mem_manifest_fileNames.1 hnamed)

/-- **A commit** puts the proposed state in place or leaves the one that is there; and if it changes
the manifest on disk, then to that of the state. -/
theorem commitState_triple (hbooks : Accounted T.enc (fun _ _ => True) proposed)
    (hi : i = T.inserter ∨ ¬T.alone) :
    T.Ensures i (T.Ready i s proposed saved φ)
      (commitState T.enc proposed) (fun _ => T.Committed i s proposed saved φ)
      fun _ => T.Committed i s proposed saved φ := by
  refine Triple.bind (R := fun state g => state = s ∧ T.Sees i s saved φ g ∧
    T.Covered i s proposed g) (read_triple lasting_ready
    fun g g' _ hg hg' _ => ⟨hg.1.state, hg'⟩) fun state => Triple.of_fact fun hstate => ?_
  subst hstate
  refine Triple.bind_of_total (defer_triple hbooks hi _) fun deferred => ?_
  cases deferred with
  | true => exact Triple.pure fun _ h => h
  | false =>
    refine Triple.bind (writeManifest_triple.conseq (fun _ h => h) (fun _ _ h => h)
      fun _ _ h => h.uncommitted) fun _ => ?_
    refine Triple.bind_of_total (replace_triple hbooks) fun _ => ?_
    refine Triple.bind_of_total (takePending_triple hi) fun pending => ?_
    refine removeLeft_triple.conseq (fun g ⟨hsees, hleft⟩ => ⟨hsees, fun hne b hb name hname =>
      hleft hne b hb name ?_⟩) (fun _ _ h => h.committed) fun _ _ h => h.committed
    rcases List.mem_append.1 hname with hname | hname
    · exact List.mem_append_left _ hname
    · exact List.mem_append_right _ (List.mem_of_mem_filter hname)

end Commits

/-! ## Methods -/

section Methods

variable {T : Regime} {i : ℕ} {α : Type}

/-- The task has the mutex. -/
def Held (i : ℕ) (g : Global sig) : Prop := g.shared.mutex = some i

theorem lasting_held : T.Lasting i (Held i) :=
  fun _ _ hg hr _ => (hr.held hg).mutex.trans hg

theorem lasting_true : T.Lasting i fun _ => True := fun _ _ _ _ _ => trivial

/-- The same for a task that needs to have it or need not. -/
def Standing (i : ℕ) : Bool → Global sig → Prop
  | true => Held i
  | false => fun _ => True

theorem lasting_standing {held : Bool} : T.Lasting i (Standing i held) := by
  cases held with
  | true => exact lasting_held
  | false => exact lasting_true

variable {m : M α}

/-- What is done between taking the mutex and giving it back. -/
theorem locked_triple {pre H : Global sig → Prop} {R post : α → Global sig → Prop}
    {B fail : CacheError → Global sig → Prop} (hpre : T.Lasting i pre)
    (hmid : ∀ a, T.Lasting i (R a)) (hbad : ∀ e, T.Lasting i (B e))
    (hacquire : ∀ g, T.Inv g → pre g → g.shared.mutex = none →
      H (g.step i { g.shared with mutex := some i })) (hm : T.Ensures i H m R B)
    (hpost : ∀ a g, T.Inv g → R a g → Held i g ∧ post a (g.step i { g.shared with mutex := none }))
    (hfail : ∀ e g, T.Inv g → B e g → Held i g ∧
      fail e (g.step i { g.shared with mutex := none })) :
    T.Ensures i pre (locked i m) post fail := by
  refine Triple.bind_of_total (R := fun opened g => opened = true ∧ pre g)
    (read_triple hpre fun g g' hinv _ hg' _ => ⟨hinv.opened, hg'⟩) fun opened =>
    Triple.of_fact fun hopened => ?_
  rw [if_pos hopened]
  refine Triple.holding (H := H) (R := R) (B := B)
    (Triple.access_lasting hpre fun g hinv hg hready => ?_) hm
    (fun a => Triple.access_lasting (hmid a) fun g hinv hg _ => ?_)
    fun e => Triple.access_lasting (hbad e) fun g hinv hg _ => ?_
  · have hnone : g.shared.mutex = none := Option.isNone_iff_eq_none.1 hready
    exact ⟨hinv.mutexStep (.inl hnone) (.inr rfl), hacquire g hinv hg hnone⟩
  · obtain ⟨hheld, hg⟩ := hpost a g hinv hg
    exact ⟨hinv.mutexStep (.inr hheld) (.inl rfl), hg⟩
  · obtain ⟨hheld, hg⟩ := hfail e g hinv hg
    exact ⟨hinv.mutexStep (.inr hheld) (.inl rfl), hg⟩

/-- A call about which nothing needs to be known, but that it keeps to the discipline. -/
abbrev Keeps (T : Regime) (i : ℕ) (m : M α) : Prop :=
  T.Ensures i (fun _ => True) m (fun _ _ => True) fun _ _ => True

/-- The same, with the mutex held. -/
abbrev KeepsHeld (T : Regime) (i : ℕ) (m : M α) : Prop :=
  T.Ensures i (Held i) m (fun _ => Held i) fun _ => Held i

theorem locked_keeps (hm : T.KeepsHeld i m) : T.Keeps i (locked i m) :=
  locked_triple lasting_true (fun _ => lasting_held) (fun _ => lasting_held) (fun _ _ _ _ => rfl) hm
    (fun _ _ _ hheld => ⟨hheld, trivial⟩) fun _ _ _ hheld => ⟨hheld, trivial⟩

theorem readState_held {fail : CacheError → Global sig → Prop} :
    T.Ensures i (Held i) (Call.read fun cache => cache.state)
      (fun state g => Accounted T.enc (fun _ _ => True) state ∧ ∃ saved, T.Sees i state saved True g)
      fail :=
  read_triple lasting_held fun _ g' hinv _ hg' hshared =>
    ⟨hinv.books, g'.env.manifest, hg', congrArg PersistentCache.state hshared, rfl,
      fun _ => trivial⟩

section

variable (hi : i = T.inserter ∨ ¬T.alone)

include hi

theorem removeKeysLocked_keeps (keys : List EntryKey) :
    T.KeepsHeld i (removeKeysLocked T.enc keys) := by
  rw [removeKeysLocked]
  split
  · exact Triple.pure fun _ h => h
  refine Triple.bind readState_held fun state =>
    Triple.of_fact fun hbooks => Triple.of_exists fun saved => ?_
  obtain ⟨proposed, hproposed, hbooks', -⟩ := hbooks.removeKeys keys
  rw [hproposed]
  exact (commitState_triple hbooks' hi).conseq
    (fun g hsees => ⟨hsees, fun p hp => .inl (mem_removeKeys hproposed hp).1⟩)
    (fun _ _ h => h.mutex) fun _ _ h => h.mutex

omit hi in
theorem touchEntries_keeps {keys : List EntryKey} : T.KeepsHeld i (touchEntries keys) := by
  refine Triple.access_lasting lasting_held fun g hinv hheld _ =>
    ⟨hinv.holding hheld hheld hinv.opened (hinv.books.touchEntries keys)
      (hinv.backed.touchEntries keys) hinv.disk hinv.intact hinv.calm
      fun _ => ⟨fun name hname => ?_, fun _ _ _ _ => ⟨rfl, id⟩⟩, hheld⟩
  rwa [fileNames_touchEntries] at hname

/-- **Lookups and invalidations** keep to the discipline. -/
theorem tends_keeps {held : Bool} (h : Tends T.enc i held m) :
    T.Ensures i (Standing i held) m (fun _ => Standing i held)
      fun _ => Standing i held := by
  induction h with
  | ofExcept => exact .ofExcept (fun _ _ _ h => h) fun _ _ _ h => h
  | bind _ _ ihm ihf => exact ihm.bind ihf
  | attempt _ ih => exact .attempt ih
  | read => exact read_triple lasting_standing fun _ _ _ _ hg' _ => hg'
  | readPayload => exact disk_look lasting_held (fun _ => rfl) nofun
  | touchEntries => exact touchEntries_keeps
  | removeKeysLocked keys => exact removeKeysLocked_keeps hi keys
  | locked _ ih => exact locked_keeps ih

end

/-! ### Batches -/

theorem beginDeferredCommits_keeps (halone : T.alone) : T.Keeps i beginDeferredCommits := by
  refine Triple.access_lasting lasting_true fun g hinv _ _ => ⟨?_, trivial⟩
  have hlast : lastHeld T.inserter (⟨i, .stepped, { g.shared with
      deferred := { g.shared.deferred with active := true } }⟩ :: g.history) =
        lastHeld T.inserter g.history := by refine lastHeld_cons hinv ?_ ?_ <;> rfl
  exact ⟨⟨hinv.opened, hinv.books, hinv.backed, hinv.disk, fun hfresh => hinv.intact hfresh.2,
    fun hheld => hlast.trans (hinv.holder hheld), fun s hs => hinv.shrunk s (hlast.symm.trans hs),
    fun hnot => absurd halone hnot⟩, fun j _ => ⟨fun hfresh => hfresh.2,
    fun _ => ⟨rfl, rfl, rfl, rfl, hlast⟩, fun _ s hs => ⟨hlast.trans hs, fun _ _ => ⟨rfl, id⟩⟩⟩⟩

theorem flushDeferredCommits_keeps (hi : i = T.inserter) (halone : T.alone) :
    T.Keeps i (flushDeferredCommits T.enc i) := by
  refine locked_keeps (Triple.bind (R := fun _ => Held i)
    (Triple.access_lasting lasting_held fun g hinv hheld _ =>
      ⟨hinv.holding hheld hheld hinv.opened hinv.books hinv.backed hinv.disk hinv.intact
        (fun hnot => absurd halone hnot) fun hne => absurd hi hne, hheld⟩) fun dirty => ?_)
  split
  · refine Triple.bind readState_held fun state =>
      Triple.of_fact fun _ => Triple.of_exists fun saved => ?_
    refine Triple.bind (R := fun _ g => T.Sees i state (some state.manifest) True g ∧
        T.Left i [] g) (writeManifest_triple.conseq (fun g hsees => ⟨hsees, fun p hp => .inl hp⟩)
        (fun _ g h => ⟨h.1, fun hne => absurd hi hne⟩) fun _ _ h => h.mutex) fun _ => ?_
    refine Triple.bind_of_total (takePending_triple (.inl hi)) fun pending => ?_
    exact removeLeft_triple.conseq (fun _ h => ⟨h.1, fun hne => absurd hi hne⟩)
      (fun _ _ h => h.mutex) fun _ _ h => h.mutex
  · exact Triple.pure fun _ h => h

end Methods

/-! ### Insertion -/

section Insertion

variable {T : Regime} {i : ℕ} {prepared done : List PreparedEntry}

variable {names : List FileName} {s : PersistentState} {key : EntryKey} {g : Global sig}
  {entry : PreparedEntry} {maximum : ℕ} {bytes : List UInt8}

/-- The name of a file says what is in it. -/
theorem fileName_inj (hsha : Function.Injective T.enc.sha256) {key' : EntryKey}
    {bytes' : List UInt8} (h : T.enc.fileName key bytes = T.enc.fileName key' bytes') :
    key = key' ∧ bytes = bytes' :=
  T.enc.key.encode_append_inj (hsha h)

/-- A state that does not have an entry does not name its file. -/
theorem not_named_of_not_current (hsha : Function.Injective T.enc.sha256)
    (hbooks : Accounted T.enc (fun _ _ => True) s) (h : s.isCurrent (.of T.enc key bytes) = false) :
    T.enc.fileName key bytes ∉ s.fileNames := by
  intro hmem
  obtain ⟨p, hp, hname⟩ := mem_fileNames.1 hmem
  obtain ⟨bytes', -, hdescribes⟩ := hbooks.described p hp
  obtain ⟨hkey, rfl⟩ := fileName_inj hsha (hdescribes.fileName.symm.trans hname)
  rw [hbooks.key p hp] at hkey
  subst hkey
  rw [PersistentState.isCurrent] at h
  dsimp only [PreparedEntry.of] at h
  rw [Entries.find_of_mem hbooks.distinct hp] at h
  exact of_decide_eq_false h ⟨hname, hdescribes.storedLength, hdescribes.sha256⟩

/-- In the middle of an insertion: the state has named none of the files since the mutex was given
up, and these of them have been written. -/
def Writing (T : Regime) (prepared done : List PreparedEntry) (g : Global sig) :
    Prop :=
  ∃ b, lastHeld T.inserter g.history = some b ∧ (∀ entry ∈ prepared, entry.fileName ∉ b.fileNames) ∧
    ∀ entry ∈ done, entry ∈ prepared ∧
      g.env.payloads.find entry.fileName = some entry.bytes ∧
      (T.Fresh g → entry.fileName ∉ g.env.namedFiles)

theorem lasting_writing (hi : i = T.inserter) : T.Lasting i (T.Writing prepared done) := by
  intro g g' ⟨b, hb, hprepared, hdone⟩ hr _
  obtain ⟨hb', hfiles⟩ := hr.spares hi b hb
  refine ⟨b, hb', hprepared, fun entry hentry => ?_⟩
  obtain ⟨hmem, hfind, hnamed⟩ := hdone entry hentry
  obtain ⟨hfind', hnamed'⟩ := hfiles _ (hprepared entry hmem)
  exact ⟨hmem, hfind'.trans hfind, fun hfresh h => hnamed (hr.past hfresh) (hnamed' h)⟩

/-- A file is written, of which the state knows nothing and neither does the manifest. -/
theorem Inv.write (h : T.Inv g) (hi : i = T.inserter) {name : FileName}
    (hstate : name ∉ g.shared.state.fileNames) (hnamed : T.Fresh g → name ∉ g.env.namedFiles) :
    T.discipline.Guarantee i g (g.serve i (g.env.apply (.writePayload name bytes)).1
      (.writePayload name bytes) (some ())) := by
  have hlast : lastHeld T.inserter (⟨i, .served (.writePayload name bytes) (some ()), g.shared⟩ ::
      g.history) = lastHeld T.inserter g.history := lastHeld_cons h rfl rfl
  refine ⟨⟨h.opened, h.books, h.backed.of_find_eq fun n hn => Entries.find_insert_of_ne ?_, h.disk,
    fun hfresh => (h.intact hfresh.2).of_find_eq rfl fun n hn => Entries.find_insert_of_ne ?_,
    fun hheld => hlast.trans (h.holder hheld), fun s hs => h.shrunk s (hlast.symm.trans hs),
    h.calm⟩, fun j hj => ⟨fun hfresh => hfresh.2, fun _ => ⟨rfl, rfl, rfl, rfl, hlast⟩,
    fun hj' => absurd (hj'.trans hi.symm) hj⟩⟩
  · rintro rfl
    exact hstate hn
  · rintro rfl
    exact hnamed hfresh.2 hn

/-- All of them are made from values. -/
def Made (T : Regime) (prepared : List PreparedEntry) : Prop :=
  ∃ entries : Payloads, prepared = entries.map fun p => .of T.enc p.1 p.2

theorem Made.eq_of (h : T.Made prepared) (hentry : entry ∈ prepared) :
    entry = .of T.enc entry.key entry.bytes := by
  obtain ⟨entries, rfl⟩ := h
  obtain ⟨p, -, rfl⟩ := List.mem_map.1 hentry
  rfl

/-- One of the files. -/
theorem writePayload_triple (hsha : Function.Injective T.enc.sha256) (hi : i = T.inserter)
    (hmade : T.Made prepared) (hentry : entry ∈ prepared) :
    T.Ensures i (T.Writing prepared done)
      (disk (.writePayload entry.fileName entry.bytes))
      (fun _ => T.Writing prepared (done ++ [entry])) fun _ => T.Writing prepared done := by
  have hmid : T.Lasting i fun g => T.Writing prepared done g ∧
      (T.Fresh g → entry.fileName ∉ g.env.namedFiles) := by
    intro g g' ⟨hwriting, hnamed⟩ hr hinv
    refine ⟨lasting_writing hi g g' hwriting hr hinv, fun hfresh h => ?_⟩
    obtain ⟨b, hb, hprepared, -⟩ := hwriting
    exact hnamed (hr.past hfresh) (((hr.spares hi b hb).2 _ (hprepared entry hentry)).2 h)
  refine disk_triple (lasting_writing hi) hmid (lasting_writing hi) (fun _ => lasting_writing hi)
    (fun g hinv hg => ⟨hinv.log_lasting rfl (lasting_writing hi) hg, fun hfresh h => ?_⟩)
    (fun _ _ hg => hg.1) fun g hinv ⟨⟨b, hb, hprepared, hdone⟩, hnamed⟩ => ⟨hinv.write hi
      (fun h => hprepared entry hentry (hinv.shrunk b hb _ h)) hnamed, b,
      (lastHeld_cons hinv rfl rfl).trans hb, hprepared, fun other hother => ?_⟩
  · -- When the call is sent, the manifest on disk does not name the file.
    obtain ⟨m, hm, hmem⟩ := mem_namedFiles.1 h
    exact hfresh.1 m (hinv.disk ▸ hm) hmem
  rcases List.mem_append.1 hother with hother | hother
  · obtain ⟨hmem, hfind, hnot⟩ := hdone other hother
    refine ⟨hmem, ?_, fun hfresh => hnot hfresh.2⟩
    change Entries.find (Entries.insert _ _ _) _ = _
    by_cases hname : other.fileName = entry.fileName
    · rw [hname, Entries.find_insert_self]
      rw [hmade.eq_of hmem, hmade.eq_of hentry] at hname
      rw [(fileName_inj hsha hname).2]
    · rw [Entries.find_insert_of_ne hname]
      exact hfind
  · cases List.mem_singleton.1 hother
    exact ⟨hentry, Entries.find_insert_self, fun hfresh => hnamed hfresh.2⟩

/-- The task has the mutex, and may remove those of the files that the state does not name. -/
def Cleaning (T : Regime) (i : ℕ) (names : List FileName) (g : Global sig) : Prop :=
  Held i g ∧ ∀ name ∈ names, name ∉ g.shared.state.fileNames → T.Droppable i name g

theorem lasting_cleaning : T.Lasting i (T.Cleaning i names) := by
  intro g g' ⟨hheld, hdrop⟩ hr hinv
  have h := hr.held hheld
  refine ⟨lasting_held g g' hheld hr hinv, fun name hname hnot => ?_⟩
  rw [h.state] at hnot
  exact (hdrop name hname hnot).of_untouched hr.past h.manifest h.lastHeld

/-- The end of an insertion that leaves files behind. -/
theorem cleanup_triple {α : Type} {f : Except CacheError Unit → M α}
    (hf : ∀ r, T.KeepsHeld i (f r)) :
    T.Ensures i (T.Cleaning i names) (Call.read (fun cache => cache.state) >>=
        fun state => Call.attempt (removeUnreferencedFiles state names) >>= f)
      (fun _ => Held i) fun _ => Held i := by
  refine Triple.bind (R := fun state g => ∃ saved, T.Sees i state saved True g ∧
    ∀ name ∈ names, name ∉ state.fileNames → T.Droppable i name g)
    (read_triple lasting_cleaning fun g g' _ _ ⟨hheld, hdrop⟩ hshared => ⟨g'.env.manifest,
      ⟨hheld, congrArg PersistentCache.state hshared, rfl, fun _ => trivial⟩,
      fun name hname hnot => hdrop name hname (by rwa [hshared])⟩) fun state =>
    Triple.of_exists fun saved => ?_
  refine Triple.bind (R := fun _ => Held i) (Triple.attempt
    (removeUnreferencedFiles_triple.conseq (fun _ h => h) (fun _ _ h => h.mutex)
      fun _ _ h => h.mutex)) hf

/-- The files are written one after the other; if one cannot be, the others are removed again. -/
theorem writePayloads_triple (done : List PreparedEntry)
    (hsha : Function.Injective T.enc.sha256) (hi : i = T.inserter) (hmade : T.Made prepared)
    {rest : List PreparedEntry} (hrest : ∀ entry ∈ rest, entry ∈ prepared) :
    T.Ensures i (T.Writing prepared done)
      (writePayloads i rest (done.map fun entry => entry.fileName))
      (fun written g => written = (done ++ rest).map (fun entry => entry.fileName) ∧
        T.Writing prepared (done ++ rest) g) fun _ _ => True := by
  induction rest generalizing done with
  | nil =>
    rw [List.append_nil]
    exact Triple.pure fun _ h => ⟨rfl, h⟩
  | cons entry _ ih =>
    refine Triple.bind
      (R := fun r => T.Writing prepared (bif r.isOk then done ++ [entry] else done))
      (Triple.attempt (writePayload_triple hsha hi hmade (hrest entry List.mem_cons_self))) fun r => ?_
    cases r with
    | ok =>
      have hnext := ih (done ++ [entry]) fun e he => hrest e (List.mem_cons_of_mem _ he)
      rw [List.map_append, List.append_assoc] at hnext
      exact hnext
    | error =>
      refine Triple.bind (R := fun _ _ => True) (locked_triple
        (H := T.Cleaning i (done.map fun entry => entry.fileName)) (lasting_writing hi)
        (fun _ => lasting_held) (fun _ => lasting_held) (fun g hinv hwriting _ =>
          ⟨rfl, fun name hname _ => ⟨fun hfresh => ?_, fun hne => absurd hi hne⟩⟩)
        (cleanup_triple fun _ => Triple.pure fun _ h => h)
        (fun _ _ _ hheld => ⟨hheld, trivial⟩) fun _ _ _ hheld => ⟨hheld, trivial⟩) fun _ =>
        Triple.throw fun _ h => h
      obtain ⟨b, hb, hprepared, hdone⟩ := hwriting
      obtain ⟨entry, hentry, rfl⟩ := List.mem_map.1 hname
      exact (hdone entry hentry).2.2 hfresh.2

theorem hasFile_of {disk : Disk} {clock : ℕ}
    (hfind : disk.payloads.find (T.enc.fileName key bytes) = some bytes) :
    ((PreparedEntry.of T.enc key bytes).entry clock).HasFile T.enc disk := by
  rw [DiskEntry.HasFile]
  change (disk.payloads.find (T.enc.fileName key bytes)).any _ = true
  rw [hfind]
  exact decide_eq_true ⟨rfl, rfl⟩

/-- What the manifest on disk was before the entries were spliced in. -/
def Unsaved (prepared : List PreparedEntry) (saved : Option Manifest) : Prop :=
  ∀ entry ∈ prepared, ∀ m ∈ saved, entry.fileName ∉ m.fileNames

theorem commitPrepared_triple (hi : i = T.inserter) (hmade : T.Made prepared) :
    T.Ensures i (fun g => Held i g ∧ T.Writing prepared prepared g)
      (commitPrepared T.enc maximum prepared)
      (fun _ g => ∃ s proposed saved, T.Committed i s proposed saved (Unsaved prepared saved) g)
      fun _ g => ∃ s proposed saved, T.Committed i s proposed saved (Unsaved prepared saved) g := by
  refine Triple.bind (R := fun state g => Accounted T.enc (fun _ _ => True) state ∧
    ∃ saved, T.Sees i state saved (Unsaved prepared saved) g ∧ T.Writing prepared prepared g)
    (read_triple (lasting_held.and (lasting_writing hi)) fun g g' hinv _ ⟨hheld, hwriting⟩ hshared =>
      ⟨hinv.books, g'.env.manifest, ⟨hheld, congrArg PersistentCache.state hshared, rfl,
        fun hfresh entry hentry m hm hmem => ?_⟩, hwriting⟩) fun state =>
    Triple.of_fact fun hbooks => Triple.of_exists fun saved => ?_
  · obtain ⟨b, hb, hprepared, hdone⟩ := hwriting
    exact (hdone entry hentry).2.2 hfresh (mem_namedFiles.2 ⟨m, hm, hmem⟩)
  refine Triple.bind_ofExcept (fun proposed hproposed => ?_)
    fun e g _ hg => ⟨state, state, saved, hg.1.uncommitted⟩
  have hbooks' : Accounted T.enc (fun _ _ => True) proposed := by
    obtain ⟨entries, rfl⟩ := hmade
    exact (hbooks.splice maximum (fun _ _ => trivial) hproposed).1
  refine (commitState_triple hbooks' (.inl hi)).conseq (fun g ⟨hsees, hwriting⟩ => ⟨hsees,
    fun p hp => ?_⟩) (fun _ _ h => ⟨_, _, _, h⟩) fun _ _ h => ⟨_, _, _, h⟩
  rcases mem_splice hproposed hp with ⟨hmem, -⟩ | ⟨entry, hentry, clock, rfl⟩
  · exact .inl hmem
  obtain ⟨b, hb, hprepared, hdone⟩ := hwriting
  refine .inr ⟨hi, b, hb, hprepared entry hentry, ?_⟩
  have hfind := (hdone entry hentry).2.1
  rw [hmade.eq_of hentry] at hfind ⊢
  exact hasFile_of hfind

/-- After a commit, the files that the insertion has written and the state does not name can go. -/
theorem Committed.cleaning (hi : i = T.inserter) {proposed : PersistentState}
    {saved : Option Manifest} (h : T.Committed i s proposed saved (Unsaved prepared saved) g) :
    T.Cleaning i (prepared.map fun entry => entry.fileName) g := by
  refine ⟨h.mutex, fun name hname hnot => ⟨fun hfresh hnamed => ?_, fun hne => absurd hi hne⟩⟩
  obtain ⟨entry, hentry, rfl⟩ := List.mem_map.1 hname
  obtain ⟨m, hm, hmem⟩ := mem_namedFiles.1 hnamed
  rcases h.manifest with hsaved | hstate
  · exact h.learnt hfresh entry hentry m (hsaved ▸ hm) hmem
  rw [hstate] at hm
  cases hm
  exact hnot (mem_manifest_fileNames.1 hmem)

theorem spliceEntries_triple (hi : i = T.inserter) (hmade : T.Made prepared) :
    T.Ensures i (fun g => Held i g ∧ T.Writing prepared prepared g)
      (spliceEntries T.enc maximum prepared (prepared.map fun entry => entry.fileName))
      (fun _ => Held i) fun _ => Held i :=
  Triple.bind (R := fun _ => T.Cleaning i (prepared.map fun entry => entry.fileName))
    (Triple.attempt ((commitPrepared_triple hi hmade).conseq (fun _ h => h)
      (fun _ _ ⟨_, _, _, h⟩ => h.cleaning hi) fun _ _ ⟨_, _, _, h⟩ => h.cleaning hi)) fun _ =>
    cleanup_triple fun _ => Triple.ofExcept (fun _ _ _ h => h) fun _ _ _ h => h

/-- The second phase of an insertion: what the state does not have yet, it does not name either, and
will not as long as nobody else inserts. -/
theorem missing_triple (hsha : Function.Injective T.enc.sha256) (hi : i = T.inserter)
    (hmade : T.Made prepared) :
    T.Ensures i (fun _ => True) (locked i (Call.read fun cache =>
        prepared.filter fun entry => !cache.state.isCurrent entry))
      (fun missing g => T.Made missing ∧ T.Writing missing [] g) fun _ _ => True := by
  refine locked_triple (H := Held i) (R := fun missing g => (Held i g ∧
      ∀ entry ∈ missing, entry.fileName ∉ g.shared.state.fileNames) ∧ T.Made missing)
    lasting_true (fun missing g g' ⟨⟨hheld, hnot⟩, hmissing⟩ hr hinv => ⟨⟨lasting_held g g' hheld hr
      hinv, by rwa [(hr.held hheld).state]⟩, hmissing⟩) (fun _ => lasting_held)
    (fun _ _ _ _ => rfl) (read_triple lasting_held fun g g' hinv _ hheld hshared =>
      ⟨⟨hheld, fun entry hentry => ?_⟩, ?_⟩)
    (fun missing g hinv ⟨⟨hheld, hnot⟩, hmissing⟩ => ⟨hheld, hmissing, g.shared.state, ?_, hnot,
      nofun⟩) fun _ _ _ hheld => ⟨hheld, trivial⟩
  · obtain ⟨hmem, hcurrent⟩ := List.mem_filter.1 hentry
    rw [hmade.eq_of hmem] at hcurrent ⊢
    rw [hshared]
    exact not_named_of_not_current hsha hinv.books (by simpa using hcurrent)
  · obtain ⟨entries, rfl⟩ := hmade
    rw [List.filter_map]
    exact ⟨_, rfl⟩
  · exact (if_neg nofun).trans (hinv.holder (hi ▸ hheld))

/-- **An insertion** keeps to the discipline, if it is made by the task that inserts. -/
theorem insertEntries_keeps (hsha : Function.Injective T.enc.sha256) (hi : i = T.inserter)
    (maximum : ℕ) (entries : Payloads) :
    T.Keeps i (insertEntries T.enc i maximum entries) := by
  refine Triple.bind_ofExcept (fun prepared hprepared => ?_) fun _ _ _ h => h
  refine Triple.bind (missing_triple hsha hi ⟨entries, (prepare_ok hprepared).1⟩)
    fun missing => Triple.of_fact fun hmade => ?_
  split
  · exact Triple.pure fun _ _ => trivial
  refine Triple.bind (writePayloads_triple [] hsha hi hmade fun _ h => h)
    fun written => Triple.of_fact fun hwritten => ?_
  subst hwritten
  refine locked_triple (lasting_writing hi) (fun _ => lasting_held) (fun _ => lasting_held)
    (fun g hinv ⟨b, hb, hnot, hdone⟩ _ => ⟨rfl, g.shared.state, if_pos (hi ▸ rfl),
      fun entry hentry hmem => hnot entry hentry (hinv.shrunk b hb _ hmem), fun entry hentry => ?_⟩)
    (spliceEntries_triple hi hmade) (fun _ _ _ hheld => ⟨hheld, trivial⟩)
    fun _ _ _ hheld => ⟨hheld, trivial⟩
  obtain ⟨hmem, hfind, hnamed⟩ := hdone entry hentry
  exact ⟨hmem, hfind, fun hfresh => hnamed hfresh.2⟩

end Insertion

/-! ## Threads -/

section Threads

variable {T : Regime} {i : ℕ}

/-- What a task may do: only one of them inserts, and batches are for one that is alone. -/
def Permits (T : Regime) (i : ℕ) : Operation → Prop
  | .openCache _ => False
  | .beginDeferredCommits | .flushDeferredCommits => i = T.inserter ∧ T.alone
  | op => op.isInsertion = true → i = T.inserter

section

variable (hsha : Function.Injective T.enc.sha256)

include hsha

theorem method_keeps (hi : i = T.inserter ∨ ¬T.alone)
    {maximum : ℕ} {op : Operation} (hop : T.Permits i op) :
    T.Keeps i (method T.enc i maximum op) := by
  cases op with
  | openCache => exact hop.elim
  | insertMetadataValue | insertDirectoryValue | insertDirectorySnapshotValue
  | insertFilesystemStatsValue => exact insertEntries_keeps hsha (hop rfl) maximum _
  | insertRangeValue key value =>
    change T.Keeps i (insertRangeValue T.enc i maximum key value)
    rw [insertRangeValue]
    split
    · split
      · exact Triple.pure fun _ h => h
      · exact insertEntries_keeps hsha (hop rfl) maximum _
    · exact Triple.throw fun _ h => h
  | beginDeferredCommits => exact beginDeferredCommits_keeps hop.2
  | flushDeferredCommits => exact flushDeferredCommits_keeps hop.1 hop.2
  | _ => exact tends_keeps hi (tends_method rfl rfl)

theorem performAll_keeps (hi : i = T.inserter ∨ ¬T.alone)
    {ops : List Operation} (hops : ∀ op ∈ ops, T.Permits i op) :
    T.Keeps i (performAll T.enc i ops) := by
  induction ops with
  | nil => exact Triple.pure fun _ h => h
  | cons op _ ih =>
    have hop : T.Keeps i (perform T.enc i op) := Triple.bind
      (read_triple lasting_true fun _ _ _ _ _ _ => trivial) fun maximum =>
      method_keeps hsha hi (hops op List.mem_cons_self)
    exact Triple.bind (R := fun _ _ => True) (Triple.attempt hop) fun _ =>
      Triple.bind (ih fun op h => hops op (List.mem_cons_of_mem _ h)) fun _ =>
        Triple.pure fun _ h => h

theorem admits :
    T.discipline.AdmitsWhen fun i ops =>
      (i = T.inserter ∨ ¬T.alone) ∧ ∀ op ∈ ops, T.Permits i op := by
  intro g ops i ⟨hi, hops⟩ hinv _
  exact ⟨Inv.guarantee_log hinv rfl, (performAll_keeps hsha hi hops).safe_toTask trivial
    (fun _ _ _ _ _ hinv' => Inv.guarantee_log hinv' rfl)
    fun _ _ _ _ _ hinv' => Inv.guarantee_log hinv' rfl⟩

end

end Threads

end Regime

/-! ## Runs -/

/-- A cache that has been opened, and a disk on which nothing is missing. -/
structure Started (enc : Encoding) (cache : PersistentCache) (disk : Disk) : Prop where
  opened : cache.opened = true
  mutex : cache.mutex = none
  books : Balanced enc cache.state
  backed : Backed enc disk cache.state
  intact : disk.Intact enc

theorem Started.inv {T : Regime} {cache : PersistentCache} {disk : Disk}
    (h : Started T.enc cache disk) (hinitial : T.initial = disk.manifest)
    (hcalm : ¬T.alone → cache.deferred = .none) : T.Inv ⟨cache, disk, []⟩ where
  opened := h.opened
  books := h.books
  backed := h.backed
  disk := hinitial.symm
  intact _ := h.intact
  holder hmutex := by
    rw [h.mutex] at hmutex
    cases hmutex
  shrunk _ hs := by cases hs
  calm hnot := by
    rw [hcalm hnot]
    exact ⟨rfl, rfl⟩

/-- What a moment says of who calls what. -/
def Calls (C : ℕ → List Operation → Prop) (m : Moment sig) : Prop :=
  match m.event with
  | .called ops => C m.task ops
  | _ => True

theorem Calls.called {C : ℕ → List Operation → Prop} {m : Moment sig} (h : Calls C m)
    {ops : List Operation} (hm : m.event = .called ops) : C m.task ops := by
  rw [Calls, hm] at h
  exact h

def Operation.isOpening : Operation → Bool
  | .openCache _ => true
  | _ => false

/-- Only one of the threads inserts. -/
def OneInserts (inserter i : ℕ) (ops : List Operation) : Prop :=
  ∀ op ∈ ops, op.isShared = true ∧ (op.isInsertion = true → i = inserter)

/-- Only one thread calls anything at all. -/
def OneCalls (writer i : ℕ) (ops : List Operation) : Prop :=
  i = writer ∧ ∀ op ∈ ops, op.isOpening = false

section Decidable

variable {m : Moment sig} {enc : Encoding} {disk : Disk} {i j : ℕ} {ops : List Operation}

instance {C : ℕ → List Operation → Prop} [∀ i ops, Decidable (C i ops)] : Decidable (Calls C m) := by
  unfold Calls
  split <;> infer_instance

instance {initial : Option Manifest} {past : List (Moment sig)} :
    Decidable (FreshWrites initial m past) := by
  unfold FreshWrites
  split <;> infer_instance

instance : Decidable (disk.Intact enc) := by
  unfold Disk.Intact
  infer_instance

instance {state : PersistentState} : Decidable (Backed enc disk state) := by
  unfold Backed
  infer_instance

instance : Decidable (OneInserts i j ops) := by
  unfold OneInserts
  infer_instance

instance : Decidable (OneCalls i j ops) := by
  unfold OneCalls
  infer_instance

end Decidable

/-! ### One thread inserts -/

/-- **If only one thread inserts, every entry has its file.**  Any number of threads share a cache;
all of them look things up and invalidate, but the insertions are those of one thread.  At every
moment of every run, whatever the scheduler and the disk do, each entry of the state has a file with
what it says. -/
theorem entries_backed (enc : Encoding) (hsha : Function.Injective enc.sha256)
    (cache : PersistentCache) (disk : Disk) (hstart : Started enc cache disk)
    (hbatch : cache.deferred = .none) (inserter : ℕ) (actions : List (Action sig))
    (hcalls : ∀ m ∈ (run (program enc) (.initial cache disk) actions).history,
      Calls (OneInserts inserter) m) :
    Backed enc (run (program enc) (.initial cache disk) actions).env
      (run (program enc) (.initial cache disk) actions).shared.state := by
  let T : Regime := ⟨enc, inserter, False, disk.manifest⟩
  have hinv : T.Inv (run (program enc) (.initial cache disk) actions).toGlobal := by
    refine Discipline.sound_when (D := T.discipline) (Regime.admits hsha)
      (hstart.inv (T := T) rfl fun _ => hbatch) actions fun m hm ops hcalled =>
      ⟨.inr id, fun op hop => ?_⟩
    obtain ⟨hshared, hinserts⟩ := (hcalls m hm).called hcalled op hop
    cases op with
    | openCache | beginDeferredCommits | flushDeferredCommits => cases hshared
    | _ => exact hinserts
  exact hinv.backed

/-- A cache that has just been opened, in an empty directory. -/
def PersistentCache.fresh (maximumPayloadBytes : ℕ) : PersistentCache :=
  ⟨true, maximumPayloadBytes, .empty, .none, none⟩

theorem started_fresh {enc : Encoding} {maximumPayloadBytes : ℕ} :
    Started enc (.fresh maximumPayloadBytes) ⟨none, []⟩ :=
  ⟨rfl, rfl, .empty, nofun, nofun⟩

/-- The task goes on, and what it asks of the disk is done. -/
def turns (task n : ℕ) : List (Action sig) :=
  (List.replicate n [.resume task, .serve task false, .deliver task]).flatten

/-- One thread stores ranges of three nodes, and then another one looks one of them up and
invalidates its node. -/
def Plain.inTurn : List (Action sig) :=
  [.call [.insertRangeValue ⟨⟨1, 1⟩, 0, 1⟩ [7], .insertRangeValue ⟨⟨2, 1⟩, 0, 2⟩ [8, 9],
      .insertRangeValue ⟨⟨3, 1⟩, 4, 1⟩ [7]],
    .call [.getRangeValue ⟨⟨1, 1⟩, 0, 1⟩, .invalidateNode 1]] ++ turns 0 60 ++ turns 1 40

/-- Two of the entries are left. -/
theorem backed_in_turn :
    let w : World sig := run (program Plain.encoding) (.initial (.fresh 5) ⟨none, []⟩) Plain.inTurn
    Function.Injective Plain.encoding.sha256 ∧ (∀ m ∈ w.history, Calls (OneInserts 0) m) ∧
      w.shared.state.entries.map Prod.fst = [.range ⟨⟨3, 1⟩, 4, 1⟩, .range ⟨⟨2, 1⟩, 0, 2⟩] ∧
      Backed Plain.encoding w.env w.shared.state :=
  ⟨Function.injective_id, by decide +kernel, by decide +kernel, entries_backed Plain.encoding
    Function.injective_id _ _ started_fresh rfl 0 Plain.inTurn (by decide +kernel)⟩

/-- Two threads store the same range.  When the first has written its file and not yet put its entry
in place, the second does both, and invalidates the node; then the first goes on. -/
def Plain.interleaved : List (Action sig) :=
  [.call [.insertRangeValue ⟨⟨1, 1⟩, 0, 1⟩ [7]],
    .call [.insertRangeValue ⟨⟨1, 1⟩, 0, 1⟩ [7], .invalidateNode 1]] ++
    turns 0 6 ++ turns 1 40 ++ turns 0 20

/-- The entry is in place, and its file has been removed. -/
theorem removed_before_splice :
    (run (program Plain.encoding) (.initial (.fresh 5) ⟨none, []⟩)
        Plain.interleaved).shared.mutex = none ∧
      ¬Backed Plain.encoding
        (run (program Plain.encoding) (.initial (.fresh 5) ⟨none, []⟩) Plain.interleaved).env
        (run (program Plain.encoding) (.initial (.fresh 5) ⟨none, []⟩)
          Plain.interleaved).shared.state := by
  decide +kernel

/-! ### The writer thread -/

/-- **If the writer never writes a file that the manifest on disk names, every entry of that
manifest has its file.**  The writer thread runs alone, with any jobs in any batches; the disk may
fail whenever it likes.  Then at every moment a crash would leave a manifest without a dangling
entry. -/
theorem manifest_intact (enc : Encoding) (hsha : Function.Injective enc.sha256)
    (cache : PersistentCache) (disk : Disk) (hstart : Started enc cache disk) (writer : ℕ)
    (actions : List (Action sig))
    (hcalls : ∀ m ∈ (run (program enc) (.initial cache disk) actions).history,
      Calls (OneCalls writer) m)
    (hfresh : Throughout (FreshWrites disk.manifest)
      (run (program enc) (.initial cache disk) actions).history) :
    (run (program enc) (.initial cache disk) actions).env.Intact enc := by
  let T : Regime := ⟨enc, writer, True, disk.manifest⟩
  have hinv : T.Inv (run (program enc) (.initial cache disk) actions).toGlobal := by
    refine Discipline.sound_when (D := T.discipline) (Regime.admits hsha)
      (hstart.inv (T := T) rfl fun hnot => absurd trivial hnot) actions fun m hm ops hcalled => ?_
    obtain ⟨htask, hops⟩ := (hcalls m hm).called hcalled
    refine ⟨.inl htask, fun op hop => ?_⟩
    have hopening := hops op hop
    cases op with
    | openCache => cases hopening
    | beginDeferredCommits | flushDeferredCommits => exact ⟨htask, trivial⟩
    | _ => exact fun _ => htask
  exact hinv.intact hfresh

/-- A child of a directory, with metadata of its own. -/
def Plain.child : DirectoryEntry := ⟨2, [97], .file, ⟨2, .file, 0, 0, 0, 1, 0, 0, none, none, 1, 0, 0⟩⟩

/-- A directory is stored in one batch and replaced in the next. -/
def Plain.replaced : List (Action sig) :=
  .call (writerOperations [[.insertDirectoryValue ⟨9, 1⟩ [Plain.child]],
    [.insertDirectoryValue ⟨9, 1⟩ []]]) :: turns 0 60

theorem intact_after_replacement :
    Function.Injective Plain.encoding.sha256 ∧
      (∀ m ∈ (run (program Plain.encoding) (.initial (.fresh 200) ⟨none, []⟩)
        Plain.replaced).history, Calls (OneCalls 0) m) ∧
      Throughout (FreshWrites none)
        (run (program Plain.encoding) (.initial (.fresh 200) ⟨none, []⟩) Plain.replaced).history ∧
      (run (program Plain.encoding) (.initial (.fresh 200) ⟨none, []⟩) Plain.replaced).env.Intact
        Plain.encoding :=
  ⟨Function.injective_id, by decide +kernel, by decide +kernel, manifest_intact Plain.encoding
    Function.injective_id _ _ started_fresh 0 Plain.replaced (by decide +kernel)
    (by decide +kernel)⟩

/-- A directory is stored and the manifest written.  In the next batch the directory is invalidated
and stored again, this time with the metadata of its children; that is more than the cache has room
for, and the directory is evicted at once. -/
def Plain.restored : List (Action sig) :=
  .call (writerOperations [[.insertDirectoryValue ⟨9, 1⟩ [Plain.child]],
    [.invalidateDirectories 9, .insertDirectorySnapshotValue ⟨9, 1⟩ [Plain.child]]]) :: turns 0 48

/-- Its file is removed, and the manifest on disk still names it. -/
theorem cleanup_removes_saved_file :
    ¬(run (program Plain.encoding)
      (.initial (.fresh (Plain.encoding.directory.encode [Plain.child]).length) ⟨none, []⟩)
      Plain.restored).env.Intact Plain.encoding := by
  decide +kernel

end QuickFS.Files
