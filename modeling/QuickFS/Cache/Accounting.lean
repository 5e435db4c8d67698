import QuickFS.Cache.Books
import QuickFS.Cache.Lookups
import QuickFS.Lib.Sequential

/-!
# The books are always in order

What the operations of the persistent cache do, one after the other, on a disk that fails whenever
it likes and on which payload files change behind the cache's back.  The books of the state stay in
order (`Kept`), whatever is called.  And the state changes in one of three ways: entries are
touched, entries are removed, or new ones are spliced in; a lookup removes at most the one entry
that it found not to be what it should (`Healed`).

The main result is `always_accounted`: after every operation of every sequence, reopenings included,
starting from an empty directory.
-/

namespace QuickFS.Files

open Async
open Call (Wp)

/-- A question that has been asked, and the answer. -/
abbrev Asked := (q : DiskCall) × Option q.Value

/-- A cache and its surroundings: the formats, what is said to have been stored, how the disk
answers, a property that it keeps as long as the manifests it is given are good, and what it has
answered. -/
structure Setting (E : Type) where
  enc : Encoding
  Stored : EntryKey → List UInt8 → Prop
  answer : E → (q : DiskCall) → E × Option q.Value
  Keeps : E → Prop
  Seen : E → Asked → Prop
  keeps : ∀ e q, (∀ m, q = .writeManifest m → m.Good enc Stored) → Keeps e → Keeps (answer e q).1
  seen : ∀ e q, Seen (answer e q).1 ⟨q, (answer e q).2⟩
  lasting : ∀ e q x, Seen e x → Seen (answer e q).1 x

variable {E : Type}

/-- Whether a lookup is content with the payload under a key, once it has been verified. -/
def Encoding.accepts (enc : Encoding) : EntryKey → List UInt8 → Bool
  | .metadata node, bytes => (enc.metadata.parse bytes).any fun value => decide (value.node = node)
  | .directory _, bytes => (enc.directory.parse bytes).isSome
  | .range key, bytes => validRangePayload key bytes
  | .filesystemStats, bytes => (enc.filesystemStats.parse bytes).isSome

namespace Setting

/-- A cache is open, its books are in order, and this is who holds the mutex. -/
structure Kept (T : Setting E) (maximum : ℕ) (holder : Option ℕ) (c : Point sig E) : Prop where
  opened : c.shared.opened = true
  mutex : c.shared.mutex = holder
  accounted : Accounted T.enc T.Stored c.shared.state
  bound : c.shared.state.payloadBytes ≤ maximum
  env : T.Keeps c.env

/-- From `c` to `c'`, where the books are in order and what was seen at `c` is still known. -/
structure Reaches (T : Setting E) (maximum : ℕ) (holder : Option ℕ) (c c' : Point sig E) : Prop
    extends Kept T maximum holder c' where
  limit : c'.shared.maximumPayloadBytes = c.shared.maximumPayloadBytes
  known : ∀ x, T.Seen c.env x → T.Seen c'.env x

section Calls

variable {T : Setting E} {maximum me : ℕ} {holder : Option ℕ} {c c1 : Point sig E} {α β : Type}
  {m : M α} {Q Q' : Except CacheError α → Point sig E → Prop}

theorem Kept.refl (h : T.Kept maximum holder c) : T.Reaches maximum holder c c :=
  ⟨h, rfl, fun _ hx => hx⟩

theorem Reaches.trans {c2 : Point sig E} {holder1 : Option ℕ} (h : T.Reaches maximum holder c c1)
    (h' : T.Reaches maximum holder1 c1 c2) : T.Reaches maximum holder1 c c2 :=
  ⟨h'.toKept, h'.limit.trans h.limit, fun x hx => h'.known x (h.known x hx)⟩

/-- How many tasks there have been does not matter. -/
theorem Kept.sameTasks (h : T.Kept maximum holder c) {tasks : ℕ} :
    T.Kept maximum holder { c with tasks := tasks } :=
  ⟨h.opened, h.mutex, h.accounted, h.bound, h.env⟩

/-- Changing the state, in order. -/
theorem Kept.withState (h : T.Kept maximum holder c) {cache : PersistentCache}
    (hopened : cache.opened = c.shared.opened)
    (hlimit : cache.maximumPayloadBytes = c.shared.maximumPayloadBytes)
    (hmutex : cache.mutex = c.shared.mutex) (haccounted : Accounted T.enc T.Stored cache.state)
    (hbound : cache.state.payloadBytes ≤ maximum) :
    T.Reaches maximum holder c { c with shared := cache } :=
  ⟨⟨hopened.trans h.opened, hmutex.trans h.mutex, haccounted, hbound, h.env⟩, hlimit,
    fun _ hx => hx⟩

/-! ## Calls that keep the books -/

/-- A call that keeps the books in order, and `Q` is true of how it ends. -/
def Does (T : Setting E) (maximum : ℕ) (holder : Option ℕ) (m : M α) (c : Point sig E)
    (Q : Except CacheError α → Point sig E → Prop) : Prop :=
  Wp T.answer m c fun r c' => T.Reaches maximum holder c c' ∧ Q r c'

theorem Does.conseq (h : T.Does maximum holder m c Q)
    (hQ : ∀ r c', T.Reaches maximum holder c c' → Q r c' → Q' r c') :
    T.Does maximum holder m c Q' :=
  Wp.conseq h fun r c' h' => ⟨h'.1, hQ r c' h'.1 h'.2⟩

theorem Does.reaches (h : T.Does maximum holder m c Q) :
    Wp T.answer m c fun _ c' => T.Reaches maximum holder c c' :=
  Wp.conseq h fun _ _ h' => h'.1

/-- From somewhere on the way. -/
theorem Reaches.does (h : T.Reaches maximum holder c c1) (hm : T.Does maximum holder m c1 Q) :
    Wp T.answer m c1 fun r c' => T.Reaches maximum holder c c' ∧ Q r c' :=
  Wp.conseq hm fun _ _ h' => ⟨h.trans h'.1, h'.2⟩

theorem Kept.pure (h : T.Kept maximum holder c) {a : α} (hQ : Q (.ok a) c) :
    T.Does maximum holder (Pure.pure a) c Q :=
  Wp.pure ⟨h.refl, hQ⟩

theorem Kept.throw (h : T.Kept maximum holder c) {e : CacheError} (hQ : Q (.error e) c) :
    T.Does maximum holder (Call.throw e) c Q :=
  Wp.throw ⟨h.refl, hQ⟩

variable {R : Except CacheError α → Point sig E → Prop}

theorem Does.bind {f : α → M β}
    {Q : Except CacheError β → Point sig E → Prop} (hm : T.Does maximum holder m c R)
    (herr : ∀ e c', T.Reaches maximum holder c c' → R (.error e) c' → Q (.error e) c')
    (hok : ∀ a c', T.Reaches maximum holder c c' → R (.ok a) c' →
      T.Does maximum holder (f a) c' Q) : T.Does maximum holder (m >>= f) c Q := by
  refine Wp.bind (Wp.conseq hm fun r c' h => ?_)
  cases r with
  | error e => exact ⟨h.1, herr e c' h.1 h.2⟩
  | ok a => exact h.1.does (hok a c' h.1 h.2)

theorem Does.bind_attempt {f : Except CacheError α → M β}
    {Q : Except CacheError β → Point sig E → Prop} (hm : T.Does maximum holder m c R)
    (hf : ∀ r c', T.Reaches maximum holder c c' → R r c' → T.Does maximum holder (f r) c' Q) :
    T.Does maximum holder (Call.attempt m >>= f) c Q :=
  Wp.bind (Wp.attempt (Wp.conseq hm fun r c' h => h.1.does (hf r c' h.1 h.2)))

/-! ## The disk -/

theorem disk_wp (h : T.Kept maximum holder c)
    {q : DiskCall} (hq : ∀ m, q = .writeManifest m → m.Good T.enc T.Stored) :
    T.Does maximum holder (disk q) c fun r c' => c'.shared = c.shared ∧
      (∀ value, r = .ok value → T.Seen c'.env ⟨q, some value⟩) ∧ ∀ e, r = .error e → e = .io := by
  have hreaches : T.Reaches maximum holder c { c with env := (T.answer c.env q).1 } :=
    ⟨⟨h.opened, h.mutex, h.accounted, h.bound, T.keeps _ _ hq h.env⟩, rfl, fun x => T.lasting _ _ x⟩
  have hseen := T.seen c.env q
  refine Wp.bind_ask ?_
  cases ha : (T.answer c.env q).2 with
  | none => exact Wp.throw ⟨hreaches, rfl, nofun, fun e he => (Except.error.inj he).symm⟩
  | some =>
    rw [ha] at hseen
    exact Wp.pure ⟨hreaches, rfl, fun v hv => Except.ok.inj hv ▸ hseen, nofun⟩

variable {s : PersistentState} {entry : DiskEntry} {range : RangeKey}
  {entries : Payloads}

theorem removeUnreferencedFiles_wp (state : PersistentState) (names : List FileName)
    (h : T.Kept maximum holder c) :
    T.Does maximum holder (removeUnreferencedFiles state names) c
      fun _ c' => c'.shared = c.shared := by
  induction names generalizing c with
  | nil => exact h.pure rfl
  | cons _ _ ih =>
    rw [removeUnreferencedFiles]
    split
    · exact ih h
    · exact (disk_wp h (by nofun)).bind (fun _ _ _ hshared => hshared.1) fun _ c1 h1 hshared =>
        (ih h1.toKept).conseq fun _ _ _ hshared' => hshared'.trans hshared.1

/-- Files are removed, and the directory is synchronised. -/
theorem cleanUp_wp (state : PersistentState) (names : List FileName) (h : T.Kept maximum holder c) :
    T.Does maximum holder (removeUnreferencedFiles state names >>= fun _ => disk .syncDirectory) c
      fun _ c' => c'.shared = c.shared :=
  (removeUnreferencedFiles_wp state names h).bind (fun _ _ _ hshared => hshared)
    fun _ _ h1 hshared => (disk_wp h1.toKept (by nofun)).conseq
      fun _ _ _ hshared' => hshared'.1.trans hshared

theorem writeManifest_wp {state : PersistentState}
    (hstate : Accounted T.enc T.Stored state) (h : T.Kept maximum holder c) :
    T.Does maximum holder (writeManifest T.enc state) c fun _ c' => c'.shared = c.shared := by
  rw [writeManifest]
  split
  · exact h.throw rfl
  refine (disk_wp h fun m hm => ?_).conseq fun _ _ _ h' => h'.1
  cases hm
  exact hstate.good_manifest

/-! ## Commits -/

/-- A commit puts the proposed state in place, or leaves the one that is there. -/
theorem commitState_wp {proposed : PersistentState}
    (hproposed : Accounted T.enc T.Stored proposed) (hbound : proposed.payloadBytes ≤ maximum)
    (h : T.Kept maximum holder c) :
    T.Does maximum holder (commitState T.enc proposed) c fun r c' =>
      (c'.shared.state = c.shared.state ∨ c'.shared.state = proposed) ∧
      ∀ u, r = .ok u → c'.shared.state = proposed := by
  refine Wp.bind_read (Wp.bind_access rfl ?_)
  rw [PersistentCache.defer]
  split
  · exact Wp.pure ⟨h.withState rfl rfl rfl hproposed hbound, .inr rfl, fun _ _ => rfl⟩
  refine (writeManifest_wp hproposed h).bind
    (fun _ _ _ hshared => ⟨.inl (congrArg _ hshared), nofun⟩) fun _ c1 h1 _ =>
    Wp.bind_modify (Wp.bind_access rfl ?_)
  have h2 : T.Reaches maximum holder c1 { c1 with shared := { c1.shared with
      state := proposed, deferred := ⟨c1.shared.deferred.active, false, []⟩ } } :=
    h1.toKept.withState rfl rfl rfl hproposed hbound
  refine h2.does ((cleanUp_wp proposed _ h2.toKept).conseq fun _ c3 _ hshared => ?_)
  have hstate : c3.shared.state = proposed := congrArg PersistentCache.state hshared
  exact ⟨.inr hstate, fun _ _ => hstate⟩

/-- A call that leaves the state as it is, or removes keys from it. -/
def Removes (keys : List EntryKey) (s s' : PersistentState) : Prop :=
  s' = s ∨ keys.foldlM PersistentState.removeKey s = some s'

/-- The keys are gone, or nothing has changed. -/
theorem removeKeysLocked_wp (keys : List EntryKey) (h : T.Kept maximum holder c) :
    T.Does maximum holder (removeKeysLocked T.enc keys) c fun _ c' =>
      Removes keys c.shared.state c'.shared.state := by
  rw [removeKeysLocked]
  split
  · exact h.pure (.inl rfl)
  refine Wp.bind_read ?_
  obtain ⟨proposed, hproposed, haccounted, hle⟩ := h.accounted.removeKeys keys
  rw [hproposed]
  refine (commitState_wp haccounted (Nat.le_trans hle h.bound) h).conseq
    fun _ c' _ hstate => hstate.1.imp id fun heq => ?_
  rw [heq]
  exact hproposed

variable {key : EntryKey} {node : NodeId}

/-- Under the mutex; what holds at the end does not depend on who has it. -/
theorem locked_wp (h : T.Kept maximum none c)
    (hm : ∀ c1, T.Reaches maximum (some me) c c1 → c1.shared.state = c.shared.state →
      T.Does maximum (some me) m c1 Q)
    (hQ : ∀ r c2, Q r c2 → Q r { c2 with shared := { c2.shared with mutex := none } }) :
    T.Does maximum none (locked me m) c Q := by
  refine Wp.bind_read ?_
  rw [if_pos h.opened]
  refine Wp.holding (Wp.access (by rw [h.mutex]; rfl) ?_)
  have h1 : T.Reaches maximum (some me) c { c with shared := { c.shared with mutex := some me } } :=
    ⟨⟨h.opened, rfl, h.accounted, h.bound, h.env⟩, rfl, fun _ hx => hx⟩
  refine Wp.conseq (hm _ h1 rfl) fun r c2 ⟨h2, hend⟩ => Wp.modify ?_
  exact ⟨⟨⟨h2.opened, rfl, h2.accounted, h2.bound, h2.env⟩, h2.limit.trans h1.limit,
    fun x hx => h2.known x (h1.known x hx)⟩, hQ r c2 hend⟩

/-- The entries of the state are within the budget. -/
theorem Kept.storedLength_le (h : T.Kept maximum holder c) {p : EntryKey × DiskEntry}
    (hp : p ∈ c.shared.state.entries) : p.2.storedLength ≤ maximum :=
  Nat.le_trans (Files.storedLength_le hp) (h.accounted.bytes ▸ h.bound)

theorem Kept.touched (h : T.Kept maximum holder c) (keys : List EntryKey) :
    T.Reaches maximum holder c
      { c with shared := { c.shared with state := c.shared.state.touchEntries keys } } :=
  h.withState rfl rfl rfl (h.accounted.touchEntries _) (by rw [touchEntries_payloadBytes]; exact h.bound)

/-- A range that covers the request, from its file. -/
def Covers (enc : Encoding) (s : PersistentState) (key range : RangeKey) (data : List UInt8) : Prop :=
  key.length = 0 ∧ range = key ∧ data = [] ∨
    range.file = key.file ∧ range.offset ≤ key.offset ∧
      key.offset + key.length ≤ range.offset + range.length ∧
      ∃ entry, s.entries.find (.range range) = some entry ∧
        entry.matches enc data = true ∧ validRangePayload range data = true

theorem writePayloads_wp (prepared : List PersistentState.PreparedEntry) (written : List FileName)
    (h : T.Kept maximum none c) :
    T.Does maximum none (writePayloads me prepared written) c fun _ c' =>
      c'.shared.state = c.shared.state := by
  induction prepared generalizing c written with
  | nil => exact h.pure rfl
  | cons _ _ ih =>
    refine (disk_wp h (by nofun)).bind_attempt fun r c1 h1 ⟨hshared, _⟩ => ?_
    cases r with
    | ok => exact (ih _ h1.toKept).conseq fun _ _ _ hstate => hstate.trans (congrArg _ hshared)
    | error =>
      refine (locked_wp (Q := fun _ c2 => c2.shared.state = c1.shared.state) h1.toKept
        (fun c2 h2 hstate => Wp.bind_read ?_) fun _ _ h => h).bind
        (fun _ _ _ hstate => hstate.trans (congrArg _ hshared))
        fun _ _ h2 hstate => h2.throw (hstate.trans (congrArg _ hshared))
      exact (removeUnreferencedFiles_wp _ written h2.toKept).bind_attempt fun _ _ h3 hshared3 =>
        h3.pure ((congrArg _ hshared3).trans hstate)

/-- These entries have been spliced into the state. -/
def Spliced (enc : Encoding) (maximum : ℕ) (entries : Payloads)
    (s s' : PersistentState) : Prop :=
  s.splice maximum (entries.map fun p => .of enc p.1 p.2) = .ok s'

/-- The state with these entries spliced in, or as it was. -/
theorem commitPrepared_wp (hstored : ∀ p ∈ entries, T.Stored p.1 p.2)
    (h : T.Kept maximum holder c) :
    T.Does maximum holder (commitPrepared T.enc maximum (entries.map fun p => .of T.enc p.1 p.2)) c
      fun r c' => (c'.shared.state = c.shared.state ∨
        Spliced T.enc maximum entries c.shared.state c'.shared.state) ∧
        ∀ u, r = .ok u → Spliced T.enc maximum entries c.shared.state c'.shared.state := by
  simp only [Spliced]
  refine Wp.bind_read (Wp.bind (Wp.ofExcept ?_))
  cases hsplice : c.shared.state.splice maximum (entries.map fun p => .of T.enc p.1 p.2) with
  | error => exact ⟨h.refl, .inl rfl, nofun⟩
  | ok =>
    obtain ⟨haccounted, hbound⟩ := h.accounted.splice maximum hstored hsplice
    refine (commitState_wp haccounted hbound h).conseq fun r c' _ ⟨hstate, hok⟩ =>
      ⟨hstate.imp id fun heq => ?_, fun u hu => ?_⟩
    · rw [heq]
    · rw [hok u hu]

theorem spliceEntries_wp {written : List FileName} (hstored : ∀ p ∈ entries, T.Stored p.1 p.2)
    (h : T.Kept maximum holder c) :
    T.Does maximum holder
      (spliceEntries T.enc maximum (entries.map fun p => .of T.enc p.1 p.2) written) c
      fun r c' => (c'.shared.state = c.shared.state ∨
        Spliced T.enc maximum entries c.shared.state c'.shared.state) ∧
        ∀ u, r = .ok u → Spliced T.enc maximum entries c.shared.state c'.shared.state := by
  refine (commitPrepared_wp hstored h).bind_attempt fun result c1 h1 ⟨hstate, hok⟩ =>
    Wp.bind_read ((removeUnreferencedFiles_wp _ written h1.toKept).bind_attempt
      fun cleanup c2 h2 hshared => Wp.ofExcept ⟨h2.toKept.refl, ?_⟩)
  have hsame : c2.shared.state = c1.shared.state := congrArg _ hshared
  refine ⟨by rwa [hsame], fun u hu => ?_⟩
  rw [hsame]
  cases result with
  | ok => exact hok _ rfl
  | error => cases hu

/-- The entries that the state does not have yet. -/
def missing (enc : Encoding) (s : PersistentState) (entries : Payloads) :
    Payloads :=
  entries.filter fun p => !s.isCurrent (.of enc p.1 p.2)

/-- What an insertion comes to: the missing entries have been spliced in, or nothing has changed,
because none was missing if the insertion has succeeded. -/
def Inserts (enc : Encoding) (maximum : ℕ) (entries : Payloads)
    (s s' : PersistentState) (r : Except CacheError α) : Prop :=
  (s' = s ∨ Spliced enc maximum (missing enc s entries) s s') ∧ ∀ u, r = .ok u →
    missing enc s entries = [] ∧ s' = s ∨ Spliced enc maximum (missing enc s entries) s s'

theorem insertEntries_wp (hstored : ∀ p ∈ entries, T.Stored p.1 p.2) (h : T.Kept maximum none c) :
    T.Does maximum none (insertEntries T.enc me maximum entries) c fun r c' =>
      Inserts T.enc maximum entries c.shared.state c'.shared.state r := by
  refine Wp.bind (Wp.ofExcept ?_)
  cases hprepare : PersistentState.prepare T.enc maximum entries with
  | error => exact ⟨h.refl, .inl rfl, nofun⟩
  | ok prepared =>
    have hmissing : prepared.filter (fun entry => !c.shared.state.isCurrent entry) =
        (missing T.enc c.shared.state entries).map fun p => .of T.enc p.1 p.2 := by
      rw [(prepare_ok hprepare).1, List.filter_map]
      rfl
    refine (locked_wp (Q := fun r c1 => c1.shared.state = c.shared.state ∧
      r = .ok ((missing T.enc c.shared.state entries).map fun p =>
        PersistentState.PreparedEntry.of T.enc p.1 p.2)) h
      (fun c1 h1 hstate => Wp.read ⟨h1.toKept.refl, hstate, ?_⟩) fun _ _ h => h).bind
      (fun _ _ _ hr => by cases hr.2) fun left c1 h1 ⟨hstate1, hr⟩ => ?_
    · rw [hstate, hmissing]
    cases hr
    split
    · rename_i hnil
      rw [List.isEmpty_iff, List.map_eq_nil_iff] at hnil
      exact h1.pure ⟨.inl hstate1, fun _ _ => .inl ⟨hnil, hstate1⟩⟩
    refine (writePayloads_wp _ [] h1.toKept).bind
      (fun _ _ _ hstate2 => ⟨.inl (hstate2.trans hstate1), nofun⟩)
      fun written c2 h2 hstate2 => ?_
    rw [← hstate1, ← hstate2]
    refine locked_wp h2.toKept (fun c3 h3 hstate3 => ?_) fun _ _ h => h
    rw [← hstate3]
    exact (spliceEntries_wp (fun p hp => hstored p (List.mem_of_mem_filter hp))
      h3.toKept).conseq fun _ _ _ hend => ⟨hend.1, fun u hu => .inr (hend.2 u hu)⟩

/-! ## Lookups and invalidations -/

/-- Whatever such calls find, the books are in order. -/
theorem tends_wp {held : Bool} (hm : Tends T.enc me held m)
    (h : T.Kept maximum (if held then some me else none) c) :
    T.Does maximum (if held then some me else none) m c fun _ _ => True := by
  induction hm generalizing c with
  | ofExcept => exact Wp.ofExcept ⟨h.refl, trivial⟩
  | bind _ _ ihm ihf => exact (ihm h).bind (fun _ _ _ h => h) fun b _ h1 _ => ihf b h1.toKept
  | attempt _ ih => exact Wp.attempt (ih h)
  | read => exact Wp.read ⟨h.refl, trivial⟩
  | readPayload => exact (disk_wp h (by nofun)).conseq fun _ _ _ _ => trivial
  | touchEntries keys => exact Wp.modify ⟨h.touched keys, trivial⟩
  | removeKeysLocked keys => exact (removeKeysLocked_wp keys h).conseq fun _ _ _ _ => trivial
  | locked _ ih => exact locked_wp h (fun _ h1 _ => ih h1.toKept) fun _ _ h => h

/-! ## Batches -/

theorem Kept.setDeferred (h : T.Kept maximum holder c) (deferred : DeferredCommits) :
    T.Reaches maximum holder c { c with shared := { c.shared with deferred := deferred } } :=
  h.withState rfl rfl rfl h.accounted h.bound

theorem beginDeferredCommits_wp (h : T.Kept maximum none c) :
    T.Does maximum none beginDeferredCommits c fun _ c' => c'.shared.state = c.shared.state :=
  Wp.modify ⟨h.setDeferred _, rfl⟩

theorem flushDeferredCommits_wp (h : T.Kept maximum none c) :
    T.Does maximum none (flushDeferredCommits T.enc me) c fun _ c' =>
      c'.shared.state = c.shared.state := by
  refine locked_wp h (fun c1 h1 hstate => Wp.bind_access rfl ?_) fun _ _ h => h
  rw [← hstate]
  have h2 := h1.toKept.setDeferred ⟨false, c1.shared.deferred.dirty,
    c1.shared.deferred.pendingRemovals⟩
  split
  · refine h2.does (Wp.bind_read ((writeManifest_wp h1.accounted h2.toKept).bind
      (fun _ _ _ hshared3 => by rw [hshared3]) fun _ c3 h3 hshared3 => Wp.bind_access rfl ?_))
    have h4 := h3.toKept.setDeferred ⟨c3.shared.deferred.active, false, []⟩
    refine h4.does ((cleanUp_wp _ _ h4.toKept).conseq fun _ c5 _ hshared5 => ?_)
    rw [hshared5]
    dsimp only
    rw [hshared3]
  · exact Wp.pure ⟨h2, rfl⟩

/-! ## Opening -/

/-- A manifest that is read is good. -/
def Loads (T : Setting E) : Prop :=
  ∀ e m, T.Keeps e → (T.answer e .readManifest).2 = some (some m) → m.Good T.enc T.Stored

/-- Nobody holds the mutex, and if there is a cache its books are in order. -/
structure Idle (T : Setting E) (c : Point sig E) : Prop where
  mutex : c.shared.mutex = none
  env : T.Keeps c.env
  kept : c.shared.opened = true → T.Kept c.shared.maximumPayloadBytes none c

theorem Idle.sameTasks (h : T.Idle c) (tasks : ℕ) : T.Idle { c with tasks := tasks } :=
  ⟨h.mutex, h.env, fun hopened => (h.kept hopened).sameTasks⟩

theorem Reaches.idle {c' : Point sig E} (h : T.Reaches c.shared.maximumPayloadBytes none c c') :
    T.Idle c' :=
  ⟨h.mutex, h.env, fun _ => by rw [h.limit]; exact h.toKept⟩

/-- However far the state was over the budget, it is within it if all goes well. -/
theorem enforceBudget_wp {bound : ℕ} (h : T.Kept bound none c) (hle : maximum ≤ bound) :
    T.Does bound none (enforceBudget T.enc me maximum) c fun r c' =>
      ∀ u, r = .ok u → c'.shared.state.payloadBytes ≤ maximum := by
  refine locked_wp h (fun c1 h1 _ => Wp.bind_read ?_) fun _ _ h => h
  split
  · rename_i hbound
    exact h1.pure fun _ _ => hbound
  obtain ⟨proposed, hproposed, haccounted, hbound, -⟩ :=
    h1.accounted.evictToBudget maximum
  refine Wp.bind (Wp.ofExcept ?_)
  rw [hproposed]
  refine (commitState_wp haccounted (Nat.le_trans hbound hle) h1.toKept).conseq
    fun r c2 _ ⟨_, hok⟩ u hu => ?_
  rw [hok u hu]
  exact hbound

theorem removeOrphanedFiles_wp (h : T.Kept maximum none c) :
    T.Does maximum none (removeOrphanedFiles me) c fun _ c' =>
      c'.shared.state = c.shared.state := by
  refine locked_wp h (fun c1 h1 hstate => Wp.bind_read ?_) fun _ _ h => h
  rw [← hstate]
  exact (disk_wp h1.toKept (by nofun)).bind (fun _ _ _ hshared => congrArg _ hshared.1)
    fun names _ h2 hshared => (cleanUp_wp _ names h2.toKept).conseq fun _ _ _ hshared3 => by
      rw [hshared3, hshared.1]

/-- The state that is loaded is accounted. -/
theorem loadManifest_wp (hload : T.Loads) (hkeeps : T.Keeps c.env) :
    Wp T.answer (loadManifest T.enc) c fun r c' => T.Keeps c'.env ∧ c'.shared = c.shared ∧
      ∀ state, r = .ok state → Accounted T.enc T.Stored state := by
  have hkeeps' := T.keeps c.env .readManifest (by nofun) hkeeps
  refine Wp.bind (Wp.bind_ask ?_)
  cases ha : (T.answer c.env .readManifest).2 with
  | none => exact Wp.throw ⟨hkeeps', rfl, nofun⟩
  | some found =>
    refine Wp.pure ?_
    cases found with
    | none => exact Wp.pure ⟨hkeeps', rfl, fun _ hs => Except.ok.inj hs ▸ Accounted.empty⟩
    | some =>
      exact Wp.ofExcept ⟨hkeeps', rfl, fun state hs =>
        accounted_load (hload _ _ hkeeps ha) hs⟩

theorem openCache_wp (hload : T.Loads) (h : T.Idle c) :
    Wp T.answer (openCache T.enc me maximum) c fun _ c' => T.Idle c' := by
  refine Wp.bind_modify ?_
  split
  · exact Wp.throw ⟨h.mutex, h.env, nofun⟩
  refine Wp.bind ((loadManifest_wp hload (by exact h.env)).conseq fun r c1 ⟨hkeeps, hshared, hok⟩ => ?_)
  have hmutex : c1.shared.mutex = none := by rw [hshared]; exact h.mutex
  cases r with
  | error =>
    refine ⟨hmutex, hkeeps, fun hopened => ?_⟩
    rw [hshared] at hopened
    cases hopened
  | ok state =>
    refine Wp.bind_modify ?_
    -- For the time being the budget is whatever the state needs.
    have h2 : T.Kept (max maximum state.payloadBytes) none
        { c1 with shared := ⟨true, maximum, state, .none, c1.shared.mutex⟩ } :=
      ⟨rfl, hmutex, hok state rfl, Nat.le_max_right .., hkeeps⟩
    refine Wp.bind (Wp.attempt (Wp.bind (Wp.conseq (enforceBudget_wp h2 (Nat.le_max_left ..))
      fun r c3 ⟨h3, hbound⟩ => ?_)))
    cases r with
    | error => exact Wp.bind_modify (Wp.throw ⟨h3.mutex, h3.env, nofun⟩)
    | ok =>
      have h3' : T.Kept maximum none c3 := { h3.toKept with bound := hbound () rfl }
      refine Wp.conseq (removeOrphanedFiles_wp h3') fun r c4 ⟨h4, _⟩ => ?_
      cases r with
      | error => exact Wp.bind_modify (Wp.throw ⟨h4.mutex, h4.env, nofun⟩)
      | ok =>
        have hlimit : c4.shared.maximumPayloadBytes = maximum := h4.limit.trans h3.limit
        exact Wp.pure ⟨h4.mutex, h4.env, fun _ => by rw [hlimit]; exact h4.toKept⟩

/-! ## Operations -/

/-- **An insertion** splices in what the state does not have yet, or leaves it as it is. -/
theorem insertion_wp (h : T.Kept maximum none c) {op : Operation} (hop : op.isInsertion = true)
    (hstored : ∀ p ∈ op.entries T.enc, T.Stored p.1 p.2) :
    T.Does maximum none (method T.enc me maximum op) c fun r c' =>
      Inserts T.enc maximum (op.entries T.enc) c.shared.state c'.shared.state r := by
  cases op with
  | insertMetadataValue | insertDirectoryValue | insertDirectorySnapshotValue
  | insertFilesystemStatsValue => exact insertEntries_wp hstored h
  | insertRangeValue key value =>
    change T.Does maximum none (insertRangeValue T.enc me maximum key value) c _
    rw [Operation.entries] at hstored ⊢
    rw [insertRangeValue]
    by_cases hvalid : validRangePayload key value = true
    · rw [if_pos hvalid]
      by_cases hempty : value.isEmpty = true
      · rw [if_pos hempty, if_neg (by simp [hempty])]
        exact h.pure ⟨.inl rfl, fun _ _ => .inl ⟨rfl, rfl⟩⟩
      have hboth : (validRangePayload key value && !value.isEmpty) = true := by
        simp [hvalid, hempty]
      rw [if_pos hboth] at hstored ⊢
      rw [if_neg hempty]
      exact insertEntries_wp hstored h
    · rw [if_neg hvalid]
      exact h.throw ⟨.inl rfl, nofun⟩
  | _ => cases hop

theorem method_reaches (h : T.Kept maximum none c) (op : Operation)
    (hop : ∀ budget, op ≠ .openCache budget) (hstored : ∀ p ∈ op.entries T.enc, T.Stored p.1 p.2) :
    Wp T.answer (method T.enc me maximum op) c fun _ c' => T.Reaches maximum none c c' := by
  cases op with
  | openCache budget => exact absurd rfl (hop budget)
  | insertRangeValue | insertMetadataValue | insertDirectoryValue | insertDirectorySnapshotValue
  | insertFilesystemStatsValue => exact (insertion_wp h rfl hstored).reaches
  | beginDeferredCommits => exact (beginDeferredCommits_wp h).reaches
  | flushDeferredCommits => exact (flushDeferredCommits_wp h).reaches
  | _ => exact (tends_wp (tends_method rfl rfl) h).reaches

end Calls

variable {answer : E → (q : DiskCall) → E × Option q.Value} {me : ℕ} {op : Operation}
  {c : Point sig E}

/-- A method of a cache that is not open does nothing. -/
theorem locked_closed {α : Type} {m : M α} {Q : Except CacheError α → Point sig E → Prop}
    (h : c.shared.opened = false) (hQ : Q (.error .stateUnavailable) c) :
    Wp answer (locked me m) c Q := by
  refine Wp.bind_read ?_
  rw [if_neg (by rw [h]; exact nofun)]
  exact Wp.throw hQ

theorem tends_closed {α : Type} {enc : Encoding} {m : M α} {held : Bool} (hm : Tends enc me held m)
    (hheld : held = false) (h : c.shared.opened = false) : Wp answer m c fun _ c' => c' = c := by
  induction hm with
  | ofExcept => exact Wp.ofExcept rfl
  | bind _ _ ihm ihf =>
    refine Wp.bind ((ihm hheld).conseq fun r c' hc => ?_)
    subst hc
    cases r with
    | ok b => exact ihf b hheld
    | error => rfl
  | attempt _ ih => exact Wp.attempt (ih hheld)
  | read => exact Wp.read rfl
  | locked => exact locked_closed h rfl
  | readPayload | touchEntries | removeKeysLocked => cases hheld

theorem method_closed {enc : Encoding} {maximum : ℕ} (h : c.shared.opened = false)
    (hop : ∀ budget, op ≠ .openCache budget) :
    Wp answer (method enc me maximum op) c fun _ c' => c'.env = c.env ∧
      c'.shared.opened = false ∧ c'.shared.mutex = c.shared.mutex := by
  have hend : c.env = c.env ∧ c.shared.opened = false ∧ c.shared.mutex = c.shared.mutex :=
    ⟨rfl, h, rfl⟩
  have hinsert : ∀ entries, Wp answer (insertEntries enc me maximum entries) c fun _ c' =>
      c'.env = c.env ∧ c'.shared.opened = false ∧ c'.shared.mutex = c.shared.mutex := by
    intro entries
    refine Wp.bind (Wp.ofExcept ?_)
    cases PersistentState.prepare enc maximum entries with
    | error => exact hend
    | ok => exact Wp.bind (locked_closed h hend)
  cases op with
  | openCache budget => exact absurd rfl (hop budget)
  | insertRangeValue key value =>
    change Wp answer (insertRangeValue enc me maximum key value) c _
    rw [insertRangeValue]
    split
    · split
      · exact Wp.pure hend
      · exact hinsert _
    · exact Wp.throw hend
  | insertMetadataValue | insertDirectoryValue | insertDirectorySnapshotValue
  | insertFilesystemStatsValue => exact hinsert _
  | flushDeferredCommits => exact locked_closed h hend
  | beginDeferredCommits => exact Wp.modify hend
  | _ => exact (tends_closed (tends_method rfl rfl) rfl h).conseq fun _ _ hc => hc ▸ hend

/-- **Every operation leaves the books in order.** -/
theorem perform_idle {T : Setting E} (hload : T.Loads)
    (hstored : ∀ p ∈ op.entries T.enc, T.Stored p.1 p.2) (h : T.Idle c) :
    Wp T.answer (perform T.enc me op) c fun _ c' => T.Idle c' := by
  refine Wp.bind_read ?_
  by_cases hopen : ∃ budget, op = .openCache budget
  · obtain ⟨budget, rfl⟩ := hopen
    exact openCache_wp hload h
  have hop : ∀ budget, op ≠ .openCache budget := fun budget heq => hopen ⟨budget, heq⟩
  by_cases hopened : c.shared.opened = true
  · exact (method_reaches (h.kept hopened) op hop hstored).conseq fun _ _ h' => h'.idle
  rw [Bool.not_eq_true] at hopened
  refine (method_closed hopened hop).conseq fun _ c' ⟨henv, hclosed, hmutex⟩ =>
    ⟨hmutex.trans h.mutex, henv ▸ h.env, fun hopened' => ?_⟩
  rw [hclosed] at hopened'
  cases hopened'

end Setting

/-! ## Sequences of operations -/

/-- A disk with a manifest.  Writing it may fail, and may then have been done or not; otherwise it
changes for nobody. -/
structure KeepsManifest (answer : E → (q : DiskCall) → E × Option q.Value)
    (manifest : E → Option Manifest) : Prop where
  write : ∀ e m, manifest (answer e (.writeManifest m)).1 = some m ∨
    manifest (answer e (.writeManifest m)).1 = manifest e
  other : ∀ e q, (∀ m, q ≠ .writeManifest m) → manifest (answer e q).1 = manifest e
  read : ∀ e m, (answer e .readManifest).2 = some m → m = manifest e

/-- The setting of a disk with a manifest, when anything may have been stored. -/
def KeepsManifest.setting {answer : E → (q : DiskCall) → E × Option q.Value}
    {manifest : E → Option Manifest} (hdisk : KeepsManifest answer manifest) (enc : Encoding) :
    Setting E where
  enc := enc
  Stored _ _ := True
  answer := answer
  Keeps e := ∀ m, manifest e = some m → m.Good enc fun _ _ => True
  Seen _ _ := True
  keeps e q hq hkeeps m hm := by
    by_cases hwrite : ∃ m', q = .writeManifest m'
    · obtain ⟨m', rfl⟩ := hwrite
      rcases hdisk.write e m' with heq | heq
      · rw [heq] at hm
        cases hm
        exact hq m rfl
      · exact hkeeps m (heq ▸ hm)
    · rw [hdisk.other e q fun m' heq => hwrite ⟨m', heq⟩] at hm
      exact hkeeps m hm
  seen _ _ := trivial
  lasting _ _ _ _ := trivial

/-- The books of a cache are in order, and none of the subtractions that could be tried fails. -/
structure InOrder (enc : Encoding) (cache : PersistentCache) : Prop where
  bytes : cache.state.payloadBytes = storedBytes cache.state.entries
  bound : cache.state.payloadBytes ≤ cache.maximumPayloadBytes
  key : ∀ p ∈ cache.state.entries, p.2.key = p.1
  clock : ∀ p ∈ cache.state.entries, p.2.lastAccess ≤ cache.state.clock
  remove : ∀ keys : List EntryKey, (keys.foldlM PersistentState.removeKey cache.state).isSome = true
  insert : ∀ entries : Payloads,
    (entries.map fun p => .of enc p.1 p.2).foldlM PersistentState.insertPrepared cache.state ≠
      .error .invalidManifest
  evict : ∀ (entries : Payloads) proposed,
    (entries.map fun p => .of enc p.1 p.2).foldlM PersistentState.insertPrepared cache.state =
      .ok proposed → (proposed.evictToBudget cache.maximumPayloadBytes).isOk = true

theorem Setting.Kept.inOrder {T : Setting E} {c : Point sig E}
    (h : T.Kept c.shared.maximumPayloadBytes none c) (hany : ∀ key bytes, T.Stored key bytes) :
    InOrder T.enc c.shared where
  bytes := h.accounted.bytes
  bound := h.bound
  key := h.accounted.key
  clock := h.accounted.clock
  remove keys := by
    obtain ⟨after, hafter, -⟩ := h.accounted.removeKeys keys
    rw [hafter]
    rfl
  insert _ := (h.accounted.insertAll fun _ _ => hany _ _).1
  evict _ proposed hproposed := by
    obtain ⟨after, hafter, -⟩ :=
      ((h.accounted.insertAll fun _ _ => hany _ _).2 proposed hproposed).evictToBudget
        c.shared.maximumPayloadBytes
    rw [hafter]
    rfl

/-- Before a cache has been opened. -/
def start (e : E) : Point sig E := ⟨.closed, e, 0⟩

/-- **The books are always in order.**  From an empty directory on, after any sequence of
operations, whatever the disk answers: if there is a cache, its books are in order; and whatever
budget it is opened with next, the manifest can be brought within it. -/
theorem always_accounted (enc : Encoding) (answer : E → (q : DiskCall) → E × Option q.Value)
    (manifest : E → Option Manifest) (hdisk : KeepsManifest answer manifest) (e : E)
    (hempty : manifest e = none) (ops : List Operation) :
    ∃ results, evalOps (program enc) answer (ops.map fun op => [op]) (start e) = some results ∧
      ∀ c, c = lastPoint (start e) results →
        (c.shared.opened = true → InOrder enc c.shared) ∧
        ∀ m state maximum, manifest c.env = some m → PersistentState.load enc m = .ok state →
          (state.evictToBudget maximum).isOk = true := by
  let T := hdisk.setting enc
  have hload : T.Loads := fun e m hkeeps hread => hkeeps m (hdisk.read e _ hread).symm
  have hstart : T.Idle (start e) :=
    ⟨rfl, fun m hm => (by rw [start, hempty] at hm; cases hm), nofun⟩
  obtain ⟨results, hresults, hlast⟩ : ∃ results, evalOps (program enc) answer
      (ops.map fun op => [op]) (start e) = some results ∧ T.Idle (lastPoint (start e) results) :=
    evalOps_invariant (C := fun _ _ => True) (fun op hop c hc _ => by
      obtain ⟨op, -, rfl⟩ := List.mem_map.1 hop
      have hperform : Wp answer (perform enc c.tasks op) { c with tasks := c.tasks + 1 }
          fun _ c' => T.Idle c' :=
        Setting.perform_idle hload (fun _ _ => trivial) (hc.sameTasks _)
      have hall : Wp answer (performAll enc c.tasks [op]) { c with tasks := c.tasks + 1 }
          fun _ c' => T.Idle c' :=
        Wp.bind (Wp.attempt (hperform.conseq fun _ _ h => Wp.bind (Wp.pure (Wp.pure h))))
      obtain ⟨r, c', heval, hidle⟩ := hall.eval outcomes
      exact ⟨_, c', heval, hidle⟩) hstart (along_of_forall fun _ _ _ => trivial)
  refine ⟨results, hresults, fun c hc => ?_⟩
  subst hc
  refine ⟨fun hopened => (hlast.kept hopened).inOrder fun _ _ => trivial,
    fun m state maximum hm hstate => ?_⟩
  obtain ⟨after, hafter, -⟩ :=
    (accounted_load (hlast.env m hm) hstate).evictToBudget maximum
  rw [hafter]
  rfl

/-- A disk that does not fail. -/
def Disk.answer (disk : Disk) (q : DiskCall) : Disk × Option q.Value :=
  ((disk.apply q).1, some (disk.apply q).2)

theorem Disk.keepsManifest : KeepsManifest Disk.answer Disk.manifest where
  write _ _ := .inl rfl
  other _ q hq := by
    cases q with
    | writeManifest m => exact absurd rfl (hq m)
    | _ => rfl
  read _ _ h := (Option.some.inj h).symm

/-- Two ranges are stored in a cache with room for one of them, which is then opened again. -/
theorem accounted_after_eviction :
    ∃ results, evalOps (program Plain.encoding) Disk.answer
        (([.openCache 5, .insertRangeValue ⟨⟨1, 1⟩, 0, 3⟩ [7, 8, 9],
          .insertRangeValue ⟨⟨1, 1⟩, 3, 4⟩ [1, 2, 3, 4], .openCache 4] : List Operation).map
          fun op => [op]) (start ⟨none, []⟩) = some results ∧
      ∀ c, c = lastPoint (start ⟨none, []⟩) results →
        (c.shared.opened = true → InOrder Plain.encoding c.shared) ∧
        ∀ m state maximum, c.env.manifest = some m →
          PersistentState.load Plain.encoding m = .ok state →
          (state.evictToBudget maximum).isOk = true :=
  always_accounted Plain.encoding Disk.answer Disk.manifest Disk.keepsManifest ⟨none, []⟩ rfl _

end QuickFS.Files
