import QuickFS.Client.Resilient

/-!
# Mutations are sent once

What the resilient client promises about operations that change something, over every pattern of
failures, reconnections and concurrent calls:

* an operation is invoked on one connection, and once, if it is invoked at all;
* it ends in `AmbiguousMutation` exactly when that invocation ended in a transport error;
* a write through a handle that was opened on an older connection is sent only after the file has
  been opened again, without truncating it, and found at the revision the handle had recorded.

All three are one rely–guarantee argument.  The first two are about the events of one task, kept in
its `trace`.  The third is about the handle table: an entry's generation only ever grows, and when
that of a writable handle grows there is a reopen in the past that says why (`Kept`).  What one step
of one task may do is said once (`Allowed`), and what a call needs of the steps of the others is
that they do no more (`rely`).
-/

namespace QuickFS

open List (suffix_cons mem_cons_self)
open Option (some_inj)

namespace RemoteCall

/-- The operations that change something, with an `open` that truncates among them.  Locks are not:
they are replayed on every new connection. -/
def isMutation : RemoteCall → Bool
  | openFileWithOptions _ options => options.truncate
  | createFile .. | createDirectory .. | createSymlink .. | createHardLink .. => true
  | createSpecialNode .. | removeNode .. | renameNode .. | setAttributes .. => true
  | writeRange .. | allocateFile .. | copyFileRange .. | flushFile .. | syncFile .. => true
  | syncDirectory .. | exchangeData .. | setXattr .. | removeXattr .. | setVolumeName .. => true
  | _ => false

/-- The handle that `write_range` and `allocate_file` write through. -/
def writtenHandle : RemoteCall → Option FileHandle
  | writeRange handle _ _ => some handle
  | allocateFile handle _ _ => some handle
  | _ => none

theorem isMutation_of_writtenHandle {c : RemoteCall} {h : FileHandle}
    (hc : c.writtenHandle = some h) : c.isMutation = true := by
  cases c <;> first | rfl | cases hc

end RemoteCall

namespace Resilient

open Async
open Discipline (Triple)

/-! ## What is promised -/

/-- The events a mutation is judged by. -/
def notable : Event sig → Bool
  | .called _ | .returned _ => true
  | .sent (.call _ c) => c.isMutation
  | .answered (.call _ c) _ => c.isMutation
  | _ => false

/-- `slot` has been the connection. -/
def Seen (history : List (Moment sig)) (slot : ConnectionSlot) : Prop :=
  ∃ m ∈ history, m.shared.connection = slot

/-- The file of a logical handle has been opened again, without truncating it, on a connection of
this generation, and was found at the revision the handle table had for it. -/
def Reopened (history : List (Moment sig)) (logical : FileHandle) (slot : ConnectionSlot) : Prop :=
  Seen history slot ∧ ∃ m ∈ history, ∃ state reopened,
    m.shared.handles logical = some state ∧
      m.event = .answered (.call slot state.reopenCall) (.ok reopened) ∧
      reopened.revision = state.revision

/-- A moment, if it is one in which a write is sent, comes after what makes the write safe.  The
connection used has been the connection; and if the handle has ever been on record with an older
generation than it, and can be written, the file has been reopened on a connection of its
generation — which is that connection, unless the counter of generations has reached its end. -/
def WriteAfterReopen (m : Moment sig) (past : List (Moment sig)) : Prop :=
  ∀ slot c remote op logical shared,
    m.event = .sent (.call slot c) → c.writtenHandle = some remote →
    ⟨m.task, .called op, shared⟩ ∈ past → op.writtenHandle = some logical →
    Seen past slot ∧
      ∀ m₀ ∈ past, ∀ state, m₀.shared.handles logical = some state →
        state.options.access.canWrite = true → state.generation < slot.generation →
        ∃ slot', Reopened past logical slot' ∧ slot'.generation = slot.generation ∧
          (slot.generation < u64Max → slot' = slot)

/-- The traces an operation may leave, the latest event first. -/
inductive Proper : List (Event sig) → Prop
  | nil : Proper []
  | called (op : RemoteCall) : Proper [.called op]
  | refused (op : RemoteCall) (r : op.Reply)
      (h : op.isMutation = true → r ≠ .error .ambiguousMutation) :
      Proper [.returned ⟨op, r⟩, .called op]
  | sent (op : RemoteCall) (slot : ConnectionSlot) (c : RemoteCall)
      (hc : c.eraseHandles = op.eraseHandles) : Proper [.sent (.call slot c), .called op]
  | answered (op : RemoteCall) (slot : ConnectionSlot) (c : RemoteCall) (a : c.Reply)
      (hc : c.eraseHandles = op.eraseHandles) :
      Proper [.answered (.call slot c) a, .sent (.call slot c), .called op]
  | returned (op : RemoteCall) (slot : ConnectionSlot) (c : RemoteCall) (a : c.Reply)
      (r : op.Reply) (hc : c.eraseHandles = op.eraseHandles)
      (h : r = .error .ambiguousMutation ↔ a = .error .transport) :
      Proper [.returned ⟨op, r⟩, .answered (.call slot c) a, .sent (.call slot c), .called op]

/-! ## The invariant -/

/-- The entry of a handle, against the entries it has had: the generation has only grown, and if
the handle can be written there is a reopen behind the last time it did. -/
def Kept (s : State) (past : List (Moment sig)) : Prop :=
  ∀ logical state, s.handles logical = some state →
    ∀ m ∈ past, ∀ state₀, m.shared.handles logical = some state₀ →
      state₀.generation ≤ state.generation ∧ state₀.options = state.options ∧
        (state₀.generation < state.generation → state.options.access.canWrite = true →
          ∃ filesystem, Reopened past logical ⟨state.generation, filesystem⟩)

structure Inv (g : Global sig) : Prop where
  proper : ∀ i, Proper (trace notable i g.history)
  current : ∀ m past, g.history = m :: past → m.shared = g.shared
  inRange : g.shared.connection.generation ≤ u64Max
  newest : ∀ slot, Seen g.history slot → slot.generation ≤ g.shared.connection.generation
  unique : ∀ slot slot', Seen g.history slot → Seen g.history slot' →
    slot.generation = slot'.generation → slot.generation < u64Max → slot = slot'
  bounded : ∀ logical state, g.shared.handles logical = some state →
    state.generation ≤ g.shared.connection.generation
  fresh : ∀ logical, g.shared.nextHandle ≤ logical →
    g.shared.handles logical = none ∧ ∀ m ∈ g.history, m.shared.handles logical = none
  kept : Throughout (fun m past => Kept m.shared past) g.history
  written : Throughout WriteAfterReopen g.history

/-- What task `i` counts on: its own trace is its own, the past stays, generations do not go back,
and what it holds a guard for stays as it is. -/
structure Rely (i : ℕ) (g g' : Global sig) : Prop where
  history : g.history <:+ g'.history
  trace : trace notable i g'.history = trace notable i g.history
  generation : g.shared.connection.generation ≤ g'.shared.connection.generation
  handles : g.shared.handlesWriter = some i →
    g'.shared.handlesWriter = some i ∧ g'.shared.handles = g.shared.handles
  reconnect : g.shared.reconnect = some i →
    g'.shared.reconnect = some i ∧ g'.shared.connection = g.shared.connection

theorem Rely.refl (i : ℕ) (g : Global sig) : Rely i g g :=
  ⟨List.suffix_rfl, rfl, le_rfl, fun h => ⟨h, rfl⟩, fun h => ⟨h, rfl⟩⟩

theorem Rely.trans {i : ℕ} {g1 g2 g3 : Global sig} (h : Rely i g1 g2) (h' : Rely i g2 g3) :
    Rely i g1 g3 where
  history := h.history.trans h'.history
  trace := h'.trace.trans h.trace
  generation := h.generation.trans h'.generation
  handles hw := by
    obtain ⟨hw2, he2⟩ := h.handles hw
    obtain ⟨hw3, he3⟩ := h'.handles hw2
    exact ⟨hw3, he3.trans he2⟩
  reconnect hw := by
    obtain ⟨hw2, he2⟩ := h.reconnect hw
    obtain ⟨hw3, he3⟩ := h'.reconnect hw2
    exact ⟨hw3, he3.trans he2⟩

/-- The discipline all operations are verified under. -/
def discipline (config : Config) : Discipline (program config) where
  inv := Inv
  rely := Rely
  rely_refl := Rely.refl
  rely_trans _ _ _ _ := Rely.trans

/-- The triples of that discipline. -/
abbrev Fulfils (config : Config) {ε α : Type} := (discipline config).Triple (ε := ε) (α := α)

/-! ## What a step may do -/

/-- What a step of task `i` may do to the shared state: nothing to what another task holds a guard
for, a new connection only with the next generation, and to the handle table whatever `Kept` can
answer for. -/
structure Allowed (i : ℕ) (history : List (Moment sig)) (s s' : State) : Prop where
  reconnect : ∀ j, j ≠ i → s.reconnect = some j →
    s'.reconnect = some j ∧ s'.connection = s.connection
  writer : ∀ j, j ≠ i → s.handlesWriter = some j →
    s'.handlesWriter = some j ∧ s'.handles = s.handles
  connection : s'.connection = s.connection ∨
    s'.connection.generation = saturatingAdd s.connection.generation 1
  next : s.nextHandle ≤ s'.nextHandle
  handles : ∀ logical state', s'.handles logical = some state' →
    state'.generation ≤ s.connection.generation ∧ logical < s'.nextHandle ∧
      (s.nextHandle ≤ logical ∨ ∃ state, s.handles logical = some state ∧
        state.generation ≤ state'.generation ∧ state.options = state'.options ∧
        (state.generation < state'.generation → state'.options.access.canWrite = true →
          ∃ filesystem, Reopened history logical ⟨state'.generation, filesystem⟩))

variable {history : List (Moment sig)} {m : Moment sig} {slot : ConnectionSlot}

theorem Seen.mono {history' : List (Moment sig)} (h : Seen history slot)
    (hs : history <:+ history') : Seen history' slot := by
  obtain ⟨m, hm, he⟩ := h
  exact ⟨m, hs.mem hm, he⟩

theorem Reopened.mono {history' : List (Moment sig)} {logical : FileHandle}
    (h : Reopened history logical slot) (hs : history <:+ history') :
    Reopened history' logical slot := by
  obtain ⟨hseen, m, hm, hrest⟩ := h
  exact ⟨hseen.mono hs, m, hs.mem hm, hrest⟩

theorem seen_cons : Seen (m :: history) slot ↔ m.shared.connection = slot ∨ Seen history slot := by
  simp [Seen]

/-- Most events are not those of a write being sent. -/
theorem writeAfterReopen_of_not_sent {past : List (Moment sig)}
    (h : ∀ slot c, m.event ≠ .sent (.call slot c)) : WriteAfterReopen m past :=
  fun slot c _ _ _ _ he => absurd he (h slot c)

section Step

variable {config : Config} {i : ℕ} {g : Global sig} {s' : State} {e : Event sig}

/-- The entries of the table in the past of the present state. -/
theorem Inv.kept_now (h : Inv g) : Kept g.shared g.history := by
  cases hh : g.history with
  | nil => exact fun _ _ _ m hm => absurd hm (by simp)
  | cons m past =>
    have hcur : m.shared = g.shared := h.current m past hh
    have hkept : Kept m.shared past := by
      have := h.kept
      rw [hh] at this
      exact this.1
    intro logical state hs m0 hm0 state0 hs0
    rcases List.mem_cons.1 hm0 with rfl | hm0
    · rw [hcur, hs, some_inj] at hs0
      subst hs0
      exact ⟨le_rfl, rfl, fun hlt => absurd hlt (lt_irrefl _)⟩
    obtain ⟨hle, hopt, hre⟩ := hkept logical state (hcur ▸ hs) m0 hm0 state0 hs0
    refine ⟨hle, hopt, fun hlt hw => ?_⟩
    obtain ⟨filesystem, hr⟩ := hre hlt hw
    exact ⟨filesystem, hr.mono (suffix_cons _ _)⟩

/-- The connection of the present is one the past has seen, if there is a past. -/
theorem Inv.seen_now (h : Inv g) (hs : Seen g.history slot) :
    Seen g.history g.shared.connection := by
  cases hh : g.history with
  | nil => rw [hh] at hs; exact absurd hs (by simp [Seen])
  | cons m past => exact ⟨m, mem_cons_self, by rw [h.current m past hh]⟩

/-- After an allowed step every entry still has its reasons. -/
theorem Allowed.kept (h : Allowed i g.history g.shared s') (hinv : Inv g) : Kept s' g.history := by
  intro logical state' hs' m hm state0 hs0
  obtain ⟨-, -, hnew | ⟨state, hs, hle, hopt, hre⟩⟩ := h.handles logical state' hs'
  · rw [(hinv.fresh logical hnew).2 m hm] at hs0
    cases hs0
  obtain ⟨hle0, hopt0, hre0⟩ := hinv.kept_now logical state hs m hm state0 hs0
  refine ⟨hle0.trans hle, hopt0.trans hopt, fun hlt hw => ?_⟩
  rcases hle.lt_or_eq with hlt' | heq
  · exact hre hlt' hw
  · rw [← heq]
    exact hre0 (heq ▸ hlt) (hopt ▸ hw)

theorem Allowed.generation_le (h : Allowed i g.history g.shared s') (hinv : Inv g) :
    g.shared.connection.generation ≤ s'.connection.generation := by
  rcases h.connection with heq | heq
  · rw [heq]
  · rw [heq, saturatingAdd]
    exact le_min (Nat.le_succ _) hinv.inRange

/-- The connections seen after an allowed step are still told apart by their generation. -/
theorem Allowed.unique (h : Allowed i g.history g.shared s') (hinv : Inv g)
    (hs : Seen g.history slot) (heq : s'.connection.generation = slot.generation)
    (hlt : s'.connection.generation < u64Max) : s'.connection = slot := by
  rcases h.connection with hsame | hnext
  · rw [hsame] at heq hlt ⊢
    exact hinv.unique _ _ (hinv.seen_now hs) hs heq hlt
  have hle := hinv.newest slot hs
  rw [hnext, saturatingAdd] at heq hlt
  omega

/-- An event of task `i` that leaves the shared state in `s'`. -/
theorem Inv.advance (hinv : Inv g) (h : Allowed i g.history g.shared s')
    (hp : Proper (trace notable i (⟨i, e, s'⟩ :: g.history)))
    (hw : WriteAfterReopen ⟨i, e, s'⟩ g.history) : Inv ⟨s', g.env, ⟨i, e, s'⟩ :: g.history⟩ where
  proper j := by
    rcases eq_or_ne j i with rfl | hj
    · exact hp
    · rw [trace_cons_of_ne hj.symm]
      exact hinv.proper j
  current m past hh := by
    rw [List.cons.injEq] at hh
    rw [← hh.1]
  inRange := by
    rcases h.connection with heq | heq
    · rw [heq]; exact hinv.inRange
    · rw [heq]; exact saturatingAdd_le _ _
  newest slot hs := by
    rcases seen_cons.1 hs with rfl | hs
    · exact le_rfl
    · exact (hinv.newest slot hs).trans (h.generation_le hinv)
  unique slot slot' hs hs' heq hlt := by
    rcases seen_cons.1 hs with rfl | hs <;> rcases seen_cons.1 hs' with rfl | hs'
    · rfl
    · exact h.unique hinv hs' heq hlt
    · exact (h.unique hinv hs heq.symm (heq ▸ hlt)).symm
    · exact hinv.unique slot slot' hs hs' heq hlt
  bounded logical state hs :=
    (h.handles logical state hs).1.trans (h.generation_le hinv)
  fresh logical hle := by
    have hnone : s'.handles logical = none := by
      cases hs : s'.handles logical with
      | none => rfl
      | some state => exact absurd (h.handles logical state hs).2.1 (not_lt.2 hle)
    refine ⟨hnone, fun m hm => ?_⟩
    rcases List.mem_cons.1 hm with rfl | hm
    · exact hnone
    · exact (hinv.fresh logical (h.next.trans hle)).2 m hm
  kept := ⟨h.kept hinv, hinv.kept⟩
  written := ⟨hw, hinv.written⟩

/-- Nothing happens to the shared state. -/
theorem Inv.allowed_refl (hinv : Inv g) : Allowed i g.history g.shared g.shared where
  reconnect _ _ h := ⟨h, rfl⟩
  writer _ _ h := ⟨h, rfl⟩
  connection := .inl rfl
  next := le_rfl
  handles logical state hs := by
    refine ⟨hinv.bounded logical state hs, ?_, .inr ⟨state, hs, le_rfl, rfl, fun hlt =>
      absurd hlt (lt_irrefl _)⟩⟩
    by_contra hle
    rw [(hinv.fresh logical (not_lt.1 hle)).1] at hs
    cases hs

/-- What an allowed event is to the other tasks. -/
theorem Allowed.rely (hinv : Inv g) (h : Allowed i g.history g.shared s') {j : ℕ} (hj : j ≠ i) :
    Rely j g ⟨s', g.env, ⟨i, e, s'⟩ :: g.history⟩ where
  history := suffix_cons _ _
  trace := trace_cons_of_ne hj.symm
  generation := h.generation_le hinv
  handles := h.writer j hj
  reconnect := h.reconnect j hj

theorem guarantee_step (hinv : Inv g) (h : Allowed i g.history g.shared s') :
    (discipline config).Guarantee i g (g.step i s') := by
  refine ⟨hinv.advance h ?_ ?_, fun _ hj => h.rely hinv hj⟩
  · rw [trace_cons_of_not_keep rfl]
    exact hinv.proper i
  · exact writeAfterReopen_of_not_sent nofun

theorem guarantee_log (hinv : Inv g) (hp : Proper (trace notable i (⟨i, e, g.shared⟩ :: g.history)))
    (hw : WriteAfterReopen ⟨i, e, g.shared⟩ g.history) :
    (discipline config).Guarantee i g (g.log i e) :=
  ⟨hinv.advance hinv.allowed_refl hp hw, fun _ hj => hinv.allowed_refl.rely hinv hj⟩

/-- An event that no mutation is judged by. -/
theorem guarantee_log_of_not_notable (hinv : Inv g) (he : notable e = false) :
    (discipline config).Guarantee i g (g.log i e) := by
  refine guarantee_log hinv ?_ ?_
  · rw [trace_cons_of_not_keep he]
    exact hinv.proper i
  intro slot c remote op logical shared hsent hc
  have : notable e = true := by
    rw [show e = .sent (.call slot c) from hsent]
    exact RemoteCall.isMutation_of_writtenHandle hc
  rw [he] at this
  cases this

end Step

/-! ## Assertions that last

A call carries assertions across its own steps and those of the others.  How long one lasts depends
on what it is about: `Steady` assertions survive the steps of others, `Calm` ones survive a
reconnection too, and `Lasting` ones, about the past alone, survive everything. -/

section Frames

variable (i : ℕ)

/-- What the past of task `i` keeps. -/
structure Past (g g' : Global sig) : Prop where
  history : g.history <:+ g'.history
  trace : trace notable i g'.history = trace notable i g.history

/-- What stays while task `i` may be reconnecting. -/
structure Quiet (g g' : Global sig) : Prop extends Past i g g' where
  generation : g.shared.connection.generation ≤ g'.shared.connection.generation
  handles : g.shared.handlesWriter = some i →
    g'.shared.handlesWriter = some i ∧ g'.shared.handles = g.shared.handles

def Steady (F : Global sig → Prop) : Prop := ∀ g g', F g → Rely i g g' → F g'

def Calm (F : Global sig → Prop) : Prop := ∀ g g', F g → Quiet i g g' → F g'

def Lasting (F : Global sig → Prop) : Prop := ∀ g g', F g → Past i g g' → F g'

end Frames

section Triples

variable {config : Config} {i : ℕ} {F : Global sig → Prop} {α : Type}

variable {g : Global sig} {F' pre : Global sig → Prop} {fail : ClientError → Global sig → Prop}
  {slot : ConnectionSlot} {c : RemoteCall} {update : State → State} {logical : FileHandle}
  {state : HandleState}

theorem Rely.quiet {g' : Global sig} (h : Rely i g g') : Quiet i g g' :=
  ⟨⟨h.history, h.trace⟩, h.generation, h.handles⟩

theorem Calm.steady (hF : Calm i F) : Steady i F := fun g g' h hr => hF g g' h hr.quiet

theorem Lasting.calm (hF : Lasting i F) : Calm i F := fun g g' h hq => hF g g' h hq.toPast

theorem Steady.and (hF : Steady i F) (hF' : Steady i F') : Steady i fun g => F g ∧ F' g :=
  fun g g' h hr => ⟨hF g g' h.1 hr, hF' g g' h.2 hr⟩

theorem Calm.and (hF : Calm i F) (hF' : Calm i F') : Calm i fun g => F g ∧ F' g :=
  fun g g' h hr => ⟨hF g g' h.1 hr, hF' g g' h.2 hr⟩

theorem Lasting.and (hF : Lasting i F) (hF' : Lasting i F') : Lasting i fun g => F g ∧ F' g :=
  fun g g' h hr => ⟨hF g g' h.1 hr, hF' g g' h.2 hr⟩

theorem lasting_seen : Lasting i fun g => Seen g.history slot :=
  fun _ _ h hp => h.mono hp.history

theorem lasting_const {p : Prop} : Lasting i fun _ => p := fun _ _ h _ => h

/-- Nothing is different that a guard protects. -/
structure Untouched (s s' : State) : Prop where
  connection : s'.connection = s.connection
  handles : s'.handles = s.handles
  handlesWriter : s'.handlesWriter = s.handlesWriter
  nextHandle : s'.nextHandle = s.nextHandle
  reconnect : s'.reconnect = s.reconnect

variable (s : State) {s' : State} {q : Question} {node : NodeId} {options : FileOpenOptions}
  {opened : OpenedFile}

theorem Untouched.refl : Untouched s s := ⟨rfl, rfl, rfl, rfl, rfl⟩

theorem Untouched.allowed (h : Untouched g.shared s') (hinv : Inv g) :
    Allowed i g.history g.shared s' where
  reconnect _ _ hj := ⟨h.reconnect.trans hj, h.connection⟩
  writer _ _ hj := ⟨h.handlesWriter.trans hj, h.handles⟩
  connection := .inl h.connection
  next := h.nextHandle.ge
  handles logical state hs := by
    rw [h.handles] at hs
    rw [h.nextHandle]
    exact (hinv.allowed_refl (i := i)).handles logical state hs

/-- An event that no mutation is judged by, and a step that touches nothing that is guarded. -/
theorem rely_self {e : Event sig} (he : notable e = false) (h : Untouched g.shared s') :
    Rely i g ⟨s', g.env, ⟨i, e, s'⟩ :: g.history⟩ where
  history := suffix_cons _ _
  trace := trace_cons_of_not_keep he
  generation := by rw [h.connection]
  handles hw := ⟨h.handlesWriter.trans hw, h.handles⟩
  reconnect hw := ⟨h.reconnect.trans hw, h.connection⟩

/-- A question that no mutation is judged by. -/
theorem ask_spec (hF : Steady i F) (hsent : notable (.sent q) = false)
    (hans : ∀ a, notable (.answered q a) = false) :
    Fulfils config i F (Call.ask (S := sig) q)
      (fun a g => (∃ g0, F g0 ∧ Inv g0 ∧ g = g0.log i (.answered q a)) ∧
        ∃ choice env, serve () choice q = some (env, a)) fail := by
  refine Triple.ask fun g hg g1 hr1 hinv1 => ?_
  have hF1 := hF _ _ hg hr1
  refine ⟨guarantee_log_of_not_notable hinv1 hsent, fun g2 hr2 hinv2 choice env a ha => ?_⟩
  have hF2 := hF _ _ (hF _ _ hF1 (rely_self hsent (.refl _))) hr2
  refine ⟨guarantee_log_of_not_notable hinv2 rfl, fun g3 hr3 hinv3 => ?_⟩
  have hF3 := hF _ _ (hF _ _ hF2 (rely_self (e := .served q a) rfl (.refl _))) hr3
  exact ⟨guarantee_log_of_not_notable hinv3 (hans a), ⟨g3, hF3, hinv3, rfl⟩, choice, env, ha⟩

/-- The same, keeping only the assertion. -/
theorem ask_frame (hF : Steady i F) (hsent : notable (.sent q) = false)
    (hans : ∀ a, notable (.answered q a) = false) :
    Fulfils config i F (Call.ask (S := sig) q) (fun _ => F) fail := by
  refine (ask_spec hF hsent hans).post_of (fun a g h => ?_)
  obtain ⟨⟨g0, hF0, -, rfl⟩, -⟩ := h
  exact hF _ _ hF0 (rely_self (hans a) (.refl _))

theorem ne_ambiguous_of_serve {a : c.Reply} {env : Unit} {choice : (q : Question) → q.Answer}
    (h : serve () choice (.call slot c) = some (env, a)) : a ≠ .error .ambiguousMutation := by
  intro heq
  rw [serve] at h
  split at h
  · cases h
  rename_i hne
  rw [some_inj, Prod.mk.injEq] at h
  exact hne (h.2.trans heq)

/-- A call that is not a mutation. -/
theorem call_spec (hF : Steady i F) (hc : c.isMutation = false) :
    Fulfils config i F (call slot c) (fun a g => F g ∧ a ≠ .error .ambiguousMutation) fail := by
  refine (ask_spec (q := .call slot c) hF hc fun _ => hc).post_of (fun a g h => ?_)
  obtain ⟨⟨g0, hF0, -, rfl⟩, choice, env, ha⟩ := h
  exact ⟨hF _ _ hF0 (rely_self hc (.refl _)), ne_ambiguous_of_serve ha⟩

/-- A step that may do more than leave everything alone. -/
theorem step_spec (hpre : Steady i pre) {ready : State → Bool}
    {read : State → α} {post : α → Global sig → Prop}
    (h : ∀ g, pre g → Inv g → ready g.shared = true →
      Allowed i g.history g.shared (update g.shared) ∧
        post (read g.shared) (g.step i (update g.shared))) :
    Fulfils config i pre (Call.access ready update read) post fail := by
  refine Triple.access fun g hg g' hr hinv hready => ?_
  obtain ⟨hallowed, hpost⟩ := h g' (hpre _ _ hg hr) hinv hready
  exact ⟨guarantee_step hinv hallowed, hpost⟩

/-- A step that touches nothing that is guarded. -/
theorem access_spec (hF : Steady i F) {ready : State → Bool} {read : State → α}
    (hu : ∀ s, Untouched s (update s)) :
    Fulfils config i F (Call.access ready update read)
      (fun a g => F g ∧ ∃ g0, F g0 ∧ Inv g0 ∧ a = read g0.shared ∧
        g = g0.step i (update g0.shared)) fail :=
  step_spec hF fun g hg hinv _ => ⟨(hu _).allowed hinv, hF _ _ hg (rely_self rfl (hu _)),
    g, hg, hinv, rfl, rfl⟩

theorem modify_spec (hF : Steady i F) (hu : ∀ s, Untouched s (update s)) :
    Fulfils config i F (Call.modify update) (fun _ => F) fail :=
  (access_spec hF hu).post_of (fun _ _ h => h.1)

/-! ## Reconnecting -/

/-- `slot` has been the connection, at a moment when `F` held. -/
def Connected (F : Global sig → Prop) (slot : ConnectionSlot) (g : Global sig) : Prop :=
  F g ∧ Seen g.history slot ∧ ∃ g₀, F g₀ ∧ g₀.shared.connection = slot

theorem Calm.connected (hF : Calm i F) (slot : ConnectionSlot) : Calm i (Connected F slot) :=
  hF.and (lasting_seen.and lasting_const).calm

/-- Task `i` has the reconnect mutex. -/
def Holds (i : ℕ) (g : Global sig) : Prop := g.shared.reconnect = some i

theorem steady_holds : Steady i (Holds i) := fun _ _ h hr => (hr.reconnect h).1

/-- Task `i` has the reconnect mutex, and the connection has this generation. -/
def HoldsAt (i generation : ℕ) (g : Global sig) : Prop :=
  Holds i g ∧ g.shared.connection.generation = generation

theorem steady_holdsAt (generation : ℕ) : Steady i (HoldsAt i generation) :=
  fun _ _ h hr => ⟨(hr.reconnect h.1).1, by rw [(hr.reconnect h.1).2]; exact h.2⟩

theorem capabilityEpoch_spec (hF : Steady i F) (slot : ConnectionSlot)
    (hfail : ∀ e g, F g → e ≠ .ambiguousMutation → fail e g) :
    Fulfils config i F (capabilityEpoch slot) (fun _ => F) fail := by
  refine (call_spec hF rfl).bind fun a => ?_
  split
  · exact .pure fun _ h => h.1
  · exact .pure fun _ h => h.1
  · exact .throw fun g h => hfail _ g h.1 fun he => h.2 (by rw [he])

/-- The step that installs a new connection. -/
theorem install_spec (hF : Calm i F) (failedGeneration : ℕ) (filesystem : Connection) :
    Fulfils config i (fun g => F g ∧ HoldsAt i failedGeneration g) (Call.modify fun s =>
        { s with connection := ⟨saturatingAdd failedGeneration 1, filesystem⟩ })
      (fun _ g => Connected F ⟨saturatingAdd failedGeneration 1, filesystem⟩ g ∧ Holds i g)
      fail := by
  refine step_spec (hF.steady.and (steady_holdsAt _)) fun g ⟨hg, hholds, hgen⟩ hinv _ => ?_
  have hallowed : Allowed i g.history g.shared
      { g.shared with connection := ⟨saturatingAdd failedGeneration 1, filesystem⟩ } :=
    { hinv.allowed_refl with
      reconnect := fun j hj h => absurd (hholds.symm.trans h) (by simpa using hj.symm)
      connection := .inr (by rw [hgen]) }
  have hF' := hF g (g.step i _) hg ⟨⟨suffix_cons _ _, trace_cons_of_not_keep rfl⟩,
    hallowed.generation_le hinv, fun h => ⟨h, rfl⟩⟩
  exact ⟨hallowed, ⟨hF', ⟨_, mem_cons_self, rfl⟩, _, hF', rfl⟩, hholds⟩

theorem reconnectAttempts_spec (hF : Calm i F) (failedGeneration left backoff : ℕ) :
    Fulfils config i (fun g => F g ∧ HoldsAt i failedGeneration g)
      (reconnectAttempts config failedGeneration left backoff)
      (fun slot g => Connected F slot g ∧ Holds i g)
      (fun e g => (F g ∧ Holds i g) ∧ e ≠ .ambiguousMutation) := by
  have hpre := hF.steady.and (steady_holdsAt (i := i) failedGeneration)
  induction left generalizing backoff with
  | zero => exact .throw fun g h => ⟨⟨h.1, h.2.1⟩, by simp⟩
  | succ left ih =>
    refine (ask_frame hpre rfl fun _ => rfl).bind fun a => ?_
    cases a with
    | ok filesystem =>
      refine (capabilityEpoch_spec hpre _ fun e g h he => ⟨⟨h.1, h.2.1⟩, he⟩).bind fun epoch => ?_
      split
      · exact .throw fun g h => ⟨⟨h.1, h.2.1⟩, by simp [epochChanged]⟩
      have hslot := (hF.connected ⟨saturatingAdd failedGeneration 1, filesystem⟩).steady.and
        (steady_holds (i := i))
      refine (install_spec hF failedGeneration filesystem).bind fun _ => ?_
      refine (modify_spec hslot fun _ => by exact ⟨rfl, rfl, rfl, rfl, rfl⟩).bind fun _ => ?_
      refine (modify_spec hslot fun _ => by exact ⟨rfl, rfl, rfl, rfl, rfl⟩).bind fun _ => ?_
      exact .pure fun _ h => h
    | error =>
      change Fulfils config i _ (if left = 0 then _ else _) _ _
      split
      · refine (ask_frame hpre rfl fun _ => rfl).bind fun now => ?_
        refine (modify_spec hpre fun _ => by exact ⟨rfl, rfl, rfl, rfl, rfl⟩).bind fun _ => ?_
        exact .throw fun g h => ⟨⟨h.1, h.2.1⟩, by simp⟩
      · exact (ask_frame hpre rfl fun _ => rfl).bind fun _ => ih _

theorem recentlyFailed_spec (hF : Steady i F) (failedGeneration : ℕ) :
    Fulfils config i F (recentlyFailed config failedGeneration) (fun _ => F) fail := by
  refine (access_spec hF .refl).bind fun a => ?_
  split
  · exact .pure fun _ h => h.1
  split
  · refine Triple.bind ((ask_frame hF rfl fun _ => rfl).pre_of fun _ h => h.1) fun now => ?_
    exact .pure fun _ h => h
  · exact .pure fun _ h => h.1

theorem reconnectLocked_spec (hF : Calm i F) (failedGeneration : ℕ) :
    Fulfils config i (fun g => F g ∧ Holds i g)
      (reconnectLocked config failedGeneration) (fun slot g => Connected F slot g ∧ Holds i g)
      (fun e g => (F g ∧ Holds i g) ∧ e ≠ .ambiguousMutation) := by
  have hpre := hF.steady.and (steady_holds (i := i))
  refine (access_spec hpre .refl).bind fun current => ?_
  -- the connection that was read, and the fact that it was read just now
  have hread : ∀ g, ((F g ∧ Holds i g) ∧ ∃ g0, (F g0 ∧ Holds i g0) ∧ Inv g0 ∧
      current = g0.shared.connection ∧ g = g0.step i (id g0.shared)) →
      Connected F current g ∧ HoldsAt i current.generation g := by
    rintro g ⟨hg, g0, hg0, -, rfl, rfl⟩
    exact ⟨⟨hg.1, ⟨_, mem_cons_self, rfl⟩, g0, hg0.1, rfl⟩, hg.2, rfl⟩
  split
  · exact .pure fun g h => ⟨(hread g h).1, (hread g h).2.1⟩
  rename_i hgen
  rw [not_not] at hgen
  have hcur := (hF.connected current).steady.and (steady_holdsAt (i := i) current.generation)
  refine Triple.bind ((access_spec hcur .refl).conseq hread
    (fun _ _ h => h.1) fun _ _ h => h) fun failed => ?_
  split
  · exact .pure fun g h => ⟨h.1, h.2.1⟩
  refine (recentlyFailed_spec hcur failedGeneration).bind fun recent => ?_
  split
  · exact .throw fun g h => ⟨⟨h.1.1, h.2.1⟩, by simp⟩
  · exact (reconnectAttempts_spec hF failedGeneration _ _).pre_of (fun g h => ⟨h.1.1, hgen ▸ h.2⟩)

/-- Only the task that has the mutex takes part in this step. -/
theorem setReconnect_allowed (hinv : Inv g) (holder : Option ℕ)
    (h : ∀ j, j ≠ i → g.shared.reconnect ≠ some j) :
    Allowed i g.history g.shared { g.shared with reconnect := holder } :=
  { hinv.allowed_refl with reconnect := fun j hj hh => absurd hh (h j hj) }

theorem quiet_setReconnect (holder : Option ℕ) :
    Quiet i g (g.step i { g.shared with reconnect := holder }) :=
  ⟨⟨suffix_cons _ _, trace_cons_of_not_keep rfl⟩, le_rfl, fun h => ⟨h, rfl⟩⟩

theorem releaseReconnect_spec (hF : Calm i F) :
    Fulfils config i (fun g => F g ∧ Holds i g)
      (Call.modify fun s => { s with reconnect := none } : M Unit) (fun _ => F)
      fun _ _ => False :=
  step_spec (hF.steady.and steady_holds) fun _ hg hinv _ =>
    ⟨setReconnect_allowed hinv none fun _ hj hh => hj (some_inj.1 (hh.symm.trans hg.2)),
      hF _ _ hg.1 (quiet_setReconnect none)⟩

theorem reconnectAfter_spec (hF : Calm i F) (failedGeneration : ℕ)
    (hfail : ∀ e g, F g → e ≠ .ambiguousMutation → fail e g) :
    Fulfils config i F (reconnectAfter config i failedGeneration) (Connected F) fail := by
  refine Triple.holding ?_ (reconnectLocked_spec hF failedGeneration) (fun slot => ?_) fun e => ?_
  · refine step_spec hF.steady fun g hg hinv hready => ⟨setReconnect_allowed hinv _ fun j _ hh => ?_,
      hF _ _ hg (quiet_setReconnect _), rfl⟩
    rw [hh] at hready
    cases hready
  · exact releaseReconnect_spec (hF.connected slot)
  · refine (releaseReconnect_spec (hF.and lasting_const.calm)).conseq
      (fun g h => ⟨⟨h.1.1, h.2⟩, h.1.2⟩) (fun _ g h => hfail e g h.1 h.2) fun _ _ h => h

theorem healthyConnection_spec (hF : Calm i F)
    (hfail : ∀ e g, F g → e ≠ .ambiguousMutation → fail e g) :
    Fulfils config i F (healthyConnection config i) (Connected F) fail := by
  refine (access_spec hF.steady .refl).bind fun current => ?_
  have hcur := (hF.connected current).steady
  refine Triple.bind ((access_spec hcur .refl).conseq (fun g h => ?_)
    (fun _ _ h => h.1) fun _ _ h => h) fun failed => ?_
  · obtain ⟨hg, g0, hg0, -, rfl, rfl⟩ := h
    exact ⟨hg, ⟨_, mem_cons_self, rfl⟩, g0, hg0, rfl⟩
  split
  · exact (reconnectAfter_spec hF _ hfail).pre_of (fun _ h => h.1)
  · exact .pure fun _ h => h

/-! ## The handle table -/

theorem past_step (s' : State) : Past i g (g.step i s') :=
  ⟨suffix_cons _ _, trace_cons_of_not_keep rfl⟩

theorem setHandle_apply (logical h : FileHandle) (state : Option HandleState) :
    (s.setHandle logical state).handles h = if h = logical then state else s.handles h := rfl

section

variable (hinv : Inv g) (hfree : ∀ j, j ≠ i → g.shared.handlesWriter ≠ some j)

include hinv hfree

/-- A new entry for a handle, from a task no other task's guard is in the way of. -/
theorem setHandle_allowed {state' : HandleState} (hs : g.shared.handles logical = some state)
    (hle : state.generation ≤ state'.generation)
    (hbound : state'.generation ≤ g.shared.connection.generation)
    (hopt : state.options = state'.options)
    (hre : state.generation < state'.generation → state'.options.access.canWrite = true →
      ∃ filesystem, Reopened g.history logical ⟨state'.generation, filesystem⟩) :
    Allowed i g.history g.shared (g.shared.setHandle logical (some state')) := by
  refine { hinv.allowed_refl with
    writer := fun j hj h => absurd h (hfree j hj)
    handles := fun h st hst => ?_ }
  rw [setHandle_apply] at hst
  split at hst
  · rename_i heq
    rw [some_inj] at hst
    subst heq hst
    exact ⟨hbound, ((hinv.allowed_refl (i := i)).handles h state hs).2.1,
      .inr ⟨state, hs, hle, hopt, hre⟩⟩
  · exact (hinv.allowed_refl (i := i)).handles h st hst

theorem removeHandle_allowed : Allowed i g.history g.shared (g.shared.setHandle logical none) := by
  refine { hinv.allowed_refl with
    writer := fun j hj h => absurd h (hfree j hj)
    handles := fun h st hst => ?_ }
  rw [setHandle_apply] at hst
  split at hst
  · cases hst
  · exact (hinv.allowed_refl (i := i)).handles h st hst

theorem insertHandle_allowed (hseen : Seen g.history slot) :
    Allowed i g.history g.shared (g.shared.insertHandle node options slot opened) := by
  refine { hinv.allowed_refl with
    writer := fun j hj h => absurd h (hfree j hj)
    next := Nat.le_succ _
    handles := fun h st hst => ?_ }
  change (g.shared.setHandle g.shared.nextHandle _).handles h = some st at hst
  change _ ∧ h < g.shared.nextHandle + 1 ∧ _
  rw [setHandle_apply] at hst
  split at hst
  · rename_i heq
    rw [some_inj] at hst
    subst hst heq
    exact ⟨hinv.newest slot hseen, Nat.lt_succ_self _, .inl le_rfl⟩
  · obtain ⟨hb, hlt, hrest⟩ := (hinv.allowed_refl (i := i)).handles h st hst
    exact ⟨hb, Nat.lt_succ_of_lt hlt, hrest⟩

end

/-- The guard of the table is free, so nobody else has it. -/
theorem free_of_isNone {s : State} (h : s.handlesWriter.isNone = true) (j : ℕ) :
    s.handlesWriter ≠ some j := by
  intro hj
  rw [hj] at h
  cases h

theorem readHandle_spec (hF : Steady i F) :
    Fulfils config i F (withHandles id fun s => s.handles logical)
      (fun a g => F g ∧ ∀ state, a = some state → g.shared.handles logical = some state ∧
        ∃ m ∈ g.history, m.shared.handles logical = some state) fail := by
  refine (access_spec hF .refl).post_of (fun a g h => ?_)
  obtain ⟨hg, g0, -, -, rfl, rfl⟩ := h
  exact ⟨hg, fun state hs => ⟨hs, _, mem_cons_self, hs⟩⟩

/-- An update that leaves the generation and the options of an entry as they are. -/
theorem updateHandle_spec (hF : Lasting i F) {f : HandleState → HandleState}
    (h : ∀ state, ((f state).generation, (f state).options) = (state.generation, state.options)) :
    Fulfils config i F (withHandles (fun s => s.updateHandle logical f) fun _ => ())
      (fun _ => F) fail := by
  refine step_spec hF.calm.steady fun g hg hinv hready => ⟨?_, hF _ _ hg (past_step _)⟩
  have hfree := fun j (_ : j ≠ i) => free_of_isNone hready j
  have hgen := fun state => congrArg Prod.fst (h state)
  rw [State.updateHandle]
  cases hs : g.shared.handles logical with
  | none => exact removeHandle_allowed hinv hfree
  | some state =>
    exact setHandle_allowed hinv hfree hs (hgen state).ge
      ((hgen state).trans_le (hinv.bounded logical state hs)) (congrArg Prod.snd (h state)).symm
      fun hlt => absurd (hgen state) hlt.ne'

theorem rememberOpen_spec (hF : Lasting i F) :
    Fulfils config i (fun g => F g ∧ Seen g.history slot)
      (rememberOpen node options slot opened) (fun _ => F) fail := by
  have hinsert : Fulfils config i (fun g => F g ∧ Seen g.history slot)
      (withHandles (fun s => s.insertHandle node options slot opened) fun s => s.nextHandle)
      (fun _ => F) fail :=
    step_spec (hF.and lasting_seen).calm.steady fun g hg hinv hready =>
      ⟨insertHandle_allowed hinv (fun j _ => free_of_isNone hready j) hg.2,
        hF _ _ hg.1 (past_step _)⟩
  exact hinsert.bind fun _ => .pure fun _ h => h

/-- Task `i` has the write guard, and the entry of a handle is this. -/
structure Guarded (i : ℕ) (logical : FileHandle) (state : HandleState) (g : Global sig) : Prop where
  writer : g.shared.handlesWriter = some i
  entry : g.shared.handles logical = some state
  bound : state.generation ≤ g.shared.connection.generation
  recorded : ∃ m ∈ g.history, m.shared.handles logical = some state

theorem calm_guarded (logical : FileHandle) (state : HandleState) :
    Calm i (Guarded i logical state) := by
  intro g g' h hq
  obtain ⟨hw, he⟩ := hq.handles h.writer
  obtain ⟨m, hm, hs⟩ := h.recorded
  exact ⟨hw, by rw [he]; exact h.entry, h.bound.trans hq.generation, m, hq.history.mem hm, hs⟩

theorem Guarded.free (h : Guarded i logical state g) (j : ℕ) (hj : j ≠ i) :
    g.shared.handlesWriter ≠ some j :=
  fun hw => hj (some_inj.1 (hw.symm.trans h.writer))

/-- The handle is on record with the generation of a connection. -/
def Certified (logical : FileHandle) (slot : ConnectionSlot) (state : HandleState)
    (g : Global sig) : Prop :=
  Seen g.history slot ∧ state.generation = slot.generation ∧
    ∃ m ∈ g.history, m.shared.handles logical = some state

theorem lasting_certified (logical : FileHandle) (slot : ConnectionSlot) (state : HandleState) :
    Lasting i (Certified logical slot state) := by
  rintro g g' ⟨hseen, hgen, m, hm, hs⟩ hp
  exact ⟨hseen.mono hp.history, hgen, m, hp.history.mem hm, hs⟩

/-- Task `i` has the write guard. -/
def Writes (i : ℕ) (g : Global sig) : Prop := g.shared.handlesWriter = some i

theorem calm_writes : Calm i (Writes i) := fun _ _ h hq => (hq.handles h).1

theorem replayLocks_spec (hF : Steady i F) (slot : ConnectionSlot) (remote : FileHandle)
    (locks : List FileLock) (hfail : ∀ e g, F g → e ≠ .ambiguousMutation → fail e g) :
    Fulfils config i F (replayLocks slot remote locks) (fun _ => F) fail := by
  induction locks with
  | nil => exact .pure fun _ h => h
  | cons _ _ ih =>
    refine (call_spec hF rfl).bind fun a => ?_
    refine Triple.bind (.ofExcept (fun _ g _ h => h.1) fun e g he h =>
      hfail e g h.1 fun h' => h.2 (by rw [he, h'])) fun _ => ih

/-- The answer to a reopen is on record, next to the entry it was made for. -/
def Answered (logical : FileHandle) (state : HandleState) (slot : ConnectionSlot)
    (reopened : OpenedFile) (g : Global sig) : Prop :=
  ∃ m ∈ g.history, m.shared.handles logical = some state ∧
    m.event = .answered (.call slot state.reopenCall) (.ok reopened)

theorem lasting_answered (logical : FileHandle) (state : HandleState) (slot : ConnectionSlot)
    (reopened : OpenedFile) : Lasting i (Answered logical state slot reopened) := by
  rintro g g' ⟨m, hm, hrest⟩ hp
  exact ⟨m, hp.history.mem hm, hrest⟩

/-- What is known while the handle is being reopened on `current`. -/
structure Reopening (F : Global sig → Prop) (i : ℕ) (logical : FileHandle) (state : HandleState)
    (current : ConnectionSlot) (g : Global sig) : Prop where
  frame : F g
  seen : Seen g.history current
  le : state.generation ≤ current.generation
  guarded : Guarded i logical state g

theorem Lasting.calm_reopening (hF : Lasting i F) (logical : FileHandle) (state : HandleState)
    (current : ConnectionSlot) : Calm i (Reopening F i logical state current) :=
  fun g g' h hq => ⟨hF g g' h.frame hq.toPast, h.seen.mono hq.history, h.le,
    calm_guarded logical state g g' h.guarded hq⟩

variable {current : ConnectionSlot}

theorem Reopening.stop (h : Reopening F i logical state current g) : F g ∧ Writes i g :=
  ⟨h.frame, h.guarded.writer⟩

/-- The reopen on record, if the entry to go on with is that of a handle that can be written. -/
def Justified (logical : FileHandle) (state : HandleState) (current : ConnectionSlot)
    (g : Global sig) : Prop :=
  state.options.access.canWrite = true → Reopened g.history logical current

theorem lasting_justified (logical : FileHandle) (state : HandleState) (current : ConnectionSlot) :
    Lasting i (Justified logical state current) :=
  fun _ _ h hp hw => (h hw).mono hp.history

section

variable (hF : Lasting i F)

include hF

/-- The reopen itself: its answer comes while the entry it is made for is on record. -/
theorem reopenCall_spec (logical : FileHandle) (state : HandleState) (current : ConnectionSlot) :
    Fulfils config i (Reopening F i logical state current) (call current state.reopenCall)
      (fun a g => (Reopening F i logical state current g ∧ a ≠ .error .ambiguousMutation) ∧
        ∀ reopened, a = .ok reopened → Answered logical state current reopened g) fail := by
  have hpre := (hF.calm_reopening logical state current).steady
  refine (ask_spec (q := .call current state.reopenCall) hpre rfl
    fun _ => rfl).post_of (fun a g h => ?_)
  obtain ⟨⟨g0, hg0, -, rfl⟩, choice, env, ha⟩ := h
  refine ⟨⟨hpre _ _ hg0 (rely_self rfl (.refl _)), ne_ambiguous_of_serve ha⟩, ?_⟩
  rintro reopened rfl
  exact ⟨_, mem_cons_self, hg0.guarded.entry, rfl⟩

/-- A handle that only reads takes over the revision it was reopened at. -/
theorem setRevision_spec (revision : FileRevision) :
    Fulfils config i (Reopening F i logical state current) (Call.modify fun s =>
        s.setHandle logical (some { state with revision := revision }))
      (fun _ => Reopening F i logical { state with revision := revision } current) fail := by
  refine step_spec (hF.calm_reopening logical state current).steady fun g hg hinv _ => ?_
  have hentry := (setHandle_apply g.shared logical logical
    (some { state with revision := revision })).trans (if_pos rfl)
  refine ⟨?_, hF _ _ hg.frame (past_step _), hg.seen.mono (suffix_cons _ _), hg.le,
    hg.guarded.writer, hentry, hg.guarded.bound, _, mem_cons_self, hentry⟩
  exact setHandle_allowed hinv hg.guarded.free hg.guarded.entry le_rfl hg.guarded.bound rfl
    fun hlt => absurd hlt (lt_irrefl _)

theorem adoptReopened_spec (logical : FileHandle) (state : HandleState)
    (current : ConnectionSlot) (reopened : OpenedFile)
    (hfail : ∀ e g, F g ∧ Writes i g → e ≠ .ambiguousMutation → fail e g) :
    Fulfils config i (fun g => Reopening F i logical state current g ∧
        Answered logical state current reopened g)
      (adoptReopened logical state current reopened)
      (fun state' g => Reopening F i logical state' current g ∧
        Justified logical state' current g) fail := by
  rw [adoptReopened]
  split
  · rename_i hrev
    exact .pure fun g ⟨h, m, hm, hs, he⟩ => ⟨h, fun _ => ⟨h.seen, m, hm, state, reopened, hs, he,
      hrev⟩⟩
  split
  · rename_i hro
    refine Triple.bind ((setRevision_spec hF _).pre_of
      fun _ h => h.1) fun _ => .pure fun g h => ⟨h, fun hw => ?_⟩
    rw [hro.1] at hw
    cases hw
  · have hpre := ((hF.calm_reopening logical state current).and
      (lasting_answered logical state current reopened).calm).steady
    refine (call_spec hpre rfl).bind fun _ => ?_
    exact .throw fun g h => hfail _ g h.1.1.stop (by simp)

/-- The entry of a handle that has been reopened. -/
theorem setReopened_spec (logical : FileHandle) (state : HandleState)
    (current : ConnectionSlot) (reopened : OpenedFile) :
    Fulfils config i
      (fun g => Reopening F i logical state current g ∧ Justified logical state current g)
      (Call.modify fun s => s.setHandle logical (some { state with
        remote := reopened.handle, size := reopened.size, generation := current.generation }))
      (fun _ g => (F g ∧ Certified logical current { state with
        remote := reopened.handle, size := reopened.size, generation := current.generation } g) ∧
          Writes i g) fail := by
  have hpre := (hF.calm_reopening logical state current).and
    (lasting_justified logical state current).calm
  refine step_spec hpre.steady fun g ⟨hg, hjust⟩ hinv _ => ⟨?_, ⟨hF _ _ hg.frame (past_step _),
    hg.seen.mono (suffix_cons _ _), rfl, _, mem_cons_self, ?_⟩, hg.guarded.writer⟩
  · exact setHandle_allowed hinv hg.guarded.free hg.guarded.entry hg.le
      (hinv.newest current hg.seen) rfl fun _ hw => ⟨current.filesystem, hjust hw⟩
  · exact (setHandle_apply _ _ _ _).trans (if_pos rfl)

section

variable (hfail : ∀ e g, F g ∧ Writes i g → e ≠ .ambiguousMutation → fail e g)

include hfail

theorem reopen_spec :
    Fulfils config i (Reopening F i logical state current) (reopen logical state current)
      (fun p g => (F g ∧ Certified logical p.1 p.2 g) ∧ Writes i g) fail := by
  refine (reopenCall_spec hF logical state current).bind fun a => .bind_ofExcept
    (fun reopened ha => ?_) fun e g he h => hfail e g h.1.1.stop fun h' => h.1.2 (by rw [he, h'])
  refine Triple.bind ((adoptReopened_spec hF logical state current reopened
    hfail).pre_of fun g h => ⟨h.1.1, h.2 reopened ha⟩)
    fun state' => ?_
  have hpost := ((hF.calm_reopening logical state' current).and
    (lasting_justified logical state' current).calm).steady
  refine (replayLocks_spec hpost current reopened.handle state'.lockHistory
    fun e g h he => hfail e g h.1.stop he).bind fun _ => ?_
  exact (setReopened_spec hF logical state' current reopened).bind fun _ => .pure fun _ h => h

theorem refreshHandle_spec :
    Fulfils config i (fun g => F g ∧ Writes i g) (refreshHandle config i logical)
      (fun p g => (F g ∧ Certified logical p.1 p.2 g) ∧ Writes i g) fail := by
  refine (access_spec (hF.calm.and calm_writes).steady .refl).bind fun entry => ?_
  cases entry with
  | none => exact .throw fun g h => hfail _ g h.1 (by simp [invalidHandle])
  | some state =>
    have hpre := hF.calm.and (calm_guarded (i := i) logical state)
    refine Triple.bind ((healthyConnection_spec hpre fun e g h he =>
      hfail e g ⟨h.1, h.2.writer⟩ he).pre_of fun g h => ?_)
      fun current => ?_
    · obtain ⟨hg, g0, hg0, hinv, hs, rfl⟩ := h
      exact ⟨hg.1, hg.2, hs.symm, hinv.bounded logical state hs.symm, _, mem_cons_self,
        hs.symm⟩
    split
    · rename_i hgen
      exact .pure fun g h => ⟨⟨h.1.1, h.2.1, hgen, h.1.2.recorded⟩, h.1.2.writer⟩
    refine (reopen_spec hF hfail).pre_of (fun g h => ?_)
    obtain ⟨⟨hg, hguard⟩, hseen, g0, hg0, rfl⟩ := h
    exact ⟨hg, hseen, hg0.2.bound, hguard⟩

end

end

/-- Taking or dropping the guard of the table. -/
theorem setWriter_allowed (hinv : Inv g) (holder : Option ℕ)
    (h : ∀ j, j ≠ i → g.shared.handlesWriter ≠ some j) :
    Allowed i g.history g.shared { g.shared with handlesWriter := holder } :=
  { hinv.allowed_refl with writer := fun j hj hh => absurd hh (h j hj) }

theorem releaseWriter_spec (hF : Lasting i F) :
    Fulfils config i (fun g => F g ∧ Writes i g)
      (Call.modify fun s => { s with handlesWriter := none } : M Unit) (fun _ => F)
      fun _ _ => False :=
  step_spec (hF.calm.and calm_writes).steady fun _ hg hinv _ =>
    ⟨setWriter_allowed hinv none fun _ hj hh => hj (some_inj.1 (hh.symm.trans hg.2)),
      hF _ _ hg.1 (past_step _)⟩

theorem remoteHandle_spec (hF : Lasting i F) (logical : FileHandle)
    (hfail : ∀ e g, F g → e ≠ .ambiguousMutation → fail e g) :
    Fulfils config i F (remoteHandle config i logical)
      (fun p g => F g ∧ Certified logical p.1 p.2 g) fail := by
  refine (healthyConnection_spec hF.calm hfail).bind fun slot => ?_
  refine (readHandle_spec (hF.calm.connected slot).steady).bind fun entry => ?_
  cases entry with
  | none => exact .throw fun g h => hfail _ g h.1.1 (by simp [invalidHandle])
  | some existing =>
    change Fulfils config i _ (if _ then _ else _) _ _
    split
    · rename_i hgen
      exact .pure fun g h => ⟨h.1.1, h.1.2.1, hgen, (h.2 existing rfl).2⟩
    have hrefresh : Fulfils config i (fun g => F g ∧ Writes i g) (refreshHandle config i logical) _
        (fun e g => (F g ∧ Writes i g) ∧ e ≠ .ambiguousMutation) :=
      refreshHandle_spec hF fun e g h he => ⟨h, he⟩
    refine Triple.holding ?_ hrefresh (fun p => ?_) fun e => ?_
    · intro k g hg
      exact step_spec hF.calm.steady (fun g hg hinv hready =>
        ⟨setWriter_allowed hinv _ fun j _ => free_of_isNone hready j,
          hF _ _ hg (past_step _), rfl⟩) k g hg.1.1
    · exact releaseWriter_spec (hF.and (lasting_certified logical p.1 p.2))
    · exact (releaseWriter_spec (hF.and lasting_const)).conseq
        (fun g h => ⟨⟨h.1.1, h.2⟩, h.1.2⟩) (fun _ g h => hfail e g h.1 h.2) fun _ _ h => h

/-! ## One invocation -/

/-- Task `i` runs `op` and has not invoked it. -/
def Idle (i : ℕ) (op : RemoteCall) (g : Global sig) : Prop :=
  trace notable i g.history = [.called op]

/-- Task `i` runs the mutation `op` and has invoked it once; whether that ended in a transport error
is `transport`. -/
def Judged (i : ℕ) (op : RemoteCall) (transport : Prop) (g : Global sig) : Prop :=
  op.isMutation = true ∧ ∃ slot, ∃ c : RemoteCall, ∃ a : c.Reply,
    c.eraseHandles = op.eraseHandles ∧
      trace notable i g.history = [.answered (.call slot c) a, .sent (.call slot c), .called op] ∧
      (transport ↔ a = .error .transport)

/-- Task `i` may return from `op`, and `ambiguous` says whether with `AmbiguousMutation`. -/
def Settled (i : ℕ) (op : RemoteCall) (ambiguous : Prop) (g : Global sig) : Prop :=
  (Idle i op g ∧ ¬ ambiguous) ∨ Judged i op ambiguous g

variable {op : RemoteCall}

theorem lasting_idle : Lasting i (Idle i op) := fun _ _ h hp => hp.trace.trans h

theorem lasting_judged {transport : Prop} : Lasting i (Judged i op transport) := by
  rintro g g' ⟨hop, slot, c, a, hc, ht, hiff⟩ hp
  exact ⟨hop, slot, c, a, hc, hp.trace.trans ht, hiff⟩

theorem lasting_settled (ambiguous : Prop) : Lasting i (Settled i op ambiguous) := by
  rintro g g' (⟨h, hn⟩ | h) hp
  · exact .inl ⟨lasting_idle _ _ h hp, hn⟩
  · exact .inr (lasting_judged _ _ h hp)

theorem Settled.congr {p q : Prop} (hpq : p ↔ q) (h : Settled i op p g) : Settled i op q g := by
  rcases h with ⟨h, hn⟩ | ⟨hop, slot, c, a, hc, ht, hiff⟩
  · exact .inl ⟨h, fun hq => hn (hpq.2 hq)⟩
  · exact .inr ⟨hop, slot, c, a, hc, ht, hpq.symm.trans hiff⟩

theorem Idle.settled (h : Idle i op g) {e : ClientError} (he : e ≠ .ambiguousMutation) :
    Settled i op (e = .ambiguousMutation) g :=
  .inl ⟨h, he⟩

/-- A write is sent with the entry of its handle on record at the generation of the connection. -/
theorem writeAfterReopen_of_certified (hinv : Inv g) (hidle : Idle i op g)
    (hop : ∀ h, op.writtenHandle = some h → h = logical) (hcert : Certified logical slot state g) :
    WriteAfterReopen ⟨i, .sent (.call slot c), g.shared⟩ g.history := by
  intro slot' c' remote op' logical' shared hevent _ hcalled hop'
  cases hevent
  have hmem := event_mem_trace notable hcalled rfl
  rw [hidle, List.mem_singleton] at hmem
  cases hmem
  obtain rfl := hop logical' hop'
  obtain ⟨hseen, hgen, m, hm, hs⟩ := hcert
  refine ⟨hseen, fun m0 hm0 state0 hs0 hw hlt => ?_⟩
  rw [← hgen] at hlt
  rcases hinv.kept.compare hm hm0 with rfl | ⟨past, hpast, hm', hkept⟩ | ⟨past, hpast, hm', hkept⟩
  · rw [hs, some_inj] at hs0
    exact absurd hlt (hs0 ▸ lt_irrefl _)
  · obtain ⟨-, hopt, hre⟩ := hkept _ state hs m0 hm' state0 hs0
    obtain ⟨filesystem, hre⟩ := hre hlt (hopt ▸ hw)
    have hre := hre.mono hpast
    rw [hgen] at hre
    exact ⟨_, hre, rfl, fun hlt' => hinv.unique _ slot hre.1 hseen rfl hlt'⟩
  · exact absurd hlt (not_lt.2 (hkept _ state0 hs0 m hm' state hs).1)

theorem writeAfterReopen_of_not_write {past : List (Moment sig)}
    (he : m.event = .sent (.call slot c)) (hc : c.writtenHandle = none) : WriteAfterReopen m past := by
  intro _ c' remote _ _ _ he' hc'
  rw [he] at he'
  cases he'
  rw [hc] at hc'
  cases hc'

variable {node : NodeId} {handle : FileHandle} {m : M α} {options : FileOpenOptions} {offset : ℕ}
  {A : Global sig → Prop} {length : ℕ}

/-- The invocation of a mutation.  `A` is about the past and outlasts even this. -/
theorem mutation_spec (hop : op.isMutation = true)
    (hc : c.eraseHandles = op.eraseHandles) (hm : c.isMutation = true)
    (hA : ∀ g g', A g → g.history <:+ g'.history → A g') (hpre : Lasting i pre)
    (hw : ∀ g, Inv g → Idle i op g → pre g →
      WriteAfterReopen ⟨i, .sent (.call slot c), g.shared⟩ g.history) :
    Fulfils config i (fun g => (Idle i op g ∧ pre g) ∧ A g) (call slot c)
      (fun a g => (Judged i op (a = .error .transport) g ∧ A g) ∧ a ≠ .error .ambiguousMutation)
      fail := by
  refine Triple.ask fun g ⟨⟨hg, hp⟩, hag⟩ g1 hr1 hinv1 => ?_
  have hidle := lasting_idle _ _ hg hr1.quiet.toPast
  have hp1 := hpre _ _ hp hr1.quiet.toPast
  have ht1 : trace notable i (g1.log i (.sent (.call slot c))).history =
      [.sent (.call slot c), .called op] :=
    (trace_log_of_keep hm).trans (congrArg _ hidle)
  refine ⟨guarantee_log hinv1 (ht1 ▸ .sent op slot c hc) (hw g1 hinv1 hidle hp1),
    fun g2 hr2 hinv2 choice env a ha => ⟨guarantee_log_of_not_notable hinv2 rfl,
      fun g3 hr3 hinv3 => ?_⟩⟩
  have ht3 : trace notable i (g3.log i (.answered (.call slot c) a)).history =
      [.answered (.call slot c) a, .sent (.call slot c), .called op] := by
    refine (trace_log_of_keep hm).trans (congrArg _ (hr3.trace.trans ?_))
    exact (trace_cons_of_not_keep rfl).trans (hr2.trace.trans ht1)
  have hhist : g.history <:+ (g3.log i (.answered (.call slot c) a)).history :=
    (((hr1.history.trans (suffix_cons _ _)).trans hr2.history).trans
      (suffix_cons _ _)).trans (hr3.history.trans (suffix_cons _ _))
  exact ⟨guarantee_log hinv3 (ht3 ▸ .answered op slot c a hc) (writeAfterReopen_of_not_sent nofun),
    ⟨⟨hop, slot, c, a, hc, ht3, Iff.rfl⟩, hA _ _ hag hhist⟩, ne_ambiguous_of_serve ha⟩

/-- The invocation of a mutation that is not a write. -/
theorem plainMutation_spec (op c : RemoteCall) (hop : op.isMutation = true)
    (hc : c.eraseHandles = op.eraseHandles) (hm : c.isMutation = true) (hw : c.writtenHandle = none)
    (hA : ∀ g g', A g → g.history <:+ g'.history → A g') :
    Fulfils config i (fun g => Idle i op g ∧ A g) (call slot c)
      (fun a g => (Judged i op (a = .error .transport) g ∧ A g) ∧ a ≠ .error .ambiguousMutation)
      fail :=
  (mutation_spec hop hc hm hA lasting_const fun _ _ _ _ =>
    writeAfterReopen_of_not_write rfl hw).pre_of (fun _ h => ⟨⟨h.1, trivial⟩, h.2⟩)

theorem markFailed_spec (hF : Steady i F) {generation : ℕ} :
    Fulfils config i F (markFailed generation) (fun _ => F) fail :=
  modify_spec hF fun _ => by exact ⟨rfl, rfl, rfl, rfl, rfl⟩

theorem settle_spec (generation : ℕ) (a : Except ClientError α) :
    Fulfils config i
      (fun g => (Judged i op (a = .error .transport) g ∧ F g) ∧ a ≠ .error .ambiguousMutation)
      (settle generation a) (fun _ g => Settled i op False g ∧ F g)
      (fun e => Settled i op (e = .ambiguousMutation)) := by
  unfold settle
  split
  · refine Triple.bind ((markFailed_spec lasting_judged.calm.steady).pre_of fun _ h => h.1.1) fun _ => ?_
    exact .throw fun g h => .congr (by simp) (.inr h)
  rename_i hne
  refine .ofExcept (fun x g ha h => ?_) fun e g ha h => ?_
  · exact ⟨.congr (by simp [ha]) (.inr h.1.1), h.1.2⟩
  refine .congr ?_ (.inr h.1.1)
  rw [ha] at hne h ⊢
  exact ⟨fun he => absurd he hne, fun he => absurd (by rw [he]) h.2⟩

/-! ## The operations -/

theorem locking_spec {post : α → Global sig → Prop} {mutation : ℕ} (hpre : Lasting i pre)
    (hm : Fulfils config i pre m post fail) (hpost : ∀ a, Lasting i (post a))
    (hfail : ∀ e, Lasting i (fail e)) : Fulfils config i pre (locking mutation m) post fail :=
  .holding ((access_spec hpre.calm.steady fun _ => by exact ⟨rfl, rfl, rfl, rfl, rfl⟩).post_of
    fun _ _ h => h.1) hm
    (fun a => modify_spec (hpost a).calm.steady fun _ => by exact ⟨rfl, rfl, rfl, rfl, rfl⟩)
    fun e => modify_spec (hfail e).calm.steady fun _ => by exact ⟨rfl, rfl, rfl, rfl, rfl⟩

/-- Whatever comes of the call, `F` is still true. -/
def Keeps (config : Config) (i : ℕ) (F : Global sig → Prop) (m : M α) : Prop :=
  Fulfils config i F m (fun _ => F) fun _ => F

section Keeps

variable (hF : Lasting i F)

include hF

theorem call_keeps (hc : c.isMutation = false) : Keeps config i F (call slot c) :=
  (call_spec hF.calm.steady hc).post_of fun _ _ h => h.1

/-- Whatever comes of it, an operation that is not a mutation leaves the past of its task alone. -/
theorem closedOnHandles_keeps : ClosedOnHandles config i (Keeps config i F) where
  ofExcept _ := Triple.ofExcept (fun _ _ _ h => h) fun _ _ _ h => h
  bind hm hf := Triple.bind hm hf
  markFailed _ := markFailed_spec hF.calm.steady
  healthy := (healthyConnection_spec hF.calm fun _ _ h _ => h).post_of fun _ _ h => h.1
  reconnect _ := (reconnectAfter_spec hF.calm _ fun _ _ h _ => h).post_of fun _ _ h => h.1
  remoteHandle logical := (remoteHandle_spec hF logical fun _ _ h _ => h).post_of fun _ _ h => h.1
  updateHandle _ _ h := updateHandle_spec hF h

end Keeps

/-- The postconditions of a mutation. -/
def SettledOk (i : ℕ) (op : RemoteCall) (_ : α) : Global sig → Prop := Settled i op False

def SettledErr (i : ℕ) (op : RemoteCall) (e : ClientError) : Global sig → Prop :=
  Settled i op (e = .ambiguousMutation)

theorem settledErr_of_idle (e : ClientError) (g : Global sig) (h : Idle i op g)
    (he : e ≠ .ambiguousMutation) : SettledErr i op e g :=
  h.settled he

/-- What is to be shown of a mutation. -/
abbrev Settles (config : Config) (i : ℕ) (op : RemoteCall) (m : M α) : Prop :=
  Fulfils config i (Idle i op) m (SettledOk i op) (SettledErr i op)

theorem mutationCall_spec (hop : op.isMutation = true) (hc : c.eraseHandles = op.eraseHandles)
    (hm : c.isMutation = true) (hw : c.writtenHandle = none) :
    Settles config i op (mutationCall config i c) := by
  refine (healthyConnection_spec lasting_idle.calm settledErr_of_idle).bind fun slot => ?_
  refine Triple.bind ((plainMutation_spec op c (A := fun _ => True) hop hc hm hw
    fun _ _ h _ => h).pre_of fun g h => ⟨h.1, trivial⟩)
    fun a => ?_
  exact (settle_spec slot.generation a).post_of (fun _ _ h => h.1)

theorem createFile_spec (parent : NodeId) (name : Name) (mode : ℕ) (options : FileOpenOptions) :
    Settles config i (.createFile parent name mode options)
      (createFile config i parent name mode options) := by
  refine (healthyConnection_spec lasting_idle.calm settledErr_of_idle).bind fun slot => ?_
  refine Triple.bind ((plainMutation_spec _ (.createFile parent name mode options)
    (A := fun g => Seen g.history slot) rfl rfl rfl rfl fun _ _ h hs => h.mono hs).pre_of
    fun g h => ⟨h.1, h.2.1⟩) fun a => ?_
  refine (settle_spec slot.generation a).bind fun created => ?_
  refine (rememberOpen_spec (lasting_settled False)).bind fun _ => ?_
  exact .pure fun _ h => h

/-- An `open` that truncates. -/
theorem openRemote_truncate_spec (ht : options.truncate = true) :
    Fulfils config i (Idle i (.openFileWithOptions node options)) (openRemote config i node options)
      (fun p g => Settled i (.openFileWithOptions node options) False g ∧ Seen g.history p.1)
      (SettledErr i (.openFileWithOptions node options)) := by
  refine (healthyConnection_spec lasting_idle.calm settledErr_of_idle).bind fun slot => ?_
  refine Triple.bind ((plainMutation_spec (.openFileWithOptions node options)
    (.openFileWithOptions node options) (A := fun g => Seen g.history slot) ht rfl ht rfl
    fun _ _ h hs => h.mono hs).pre_of fun g h => ⟨h.1, h.2.1⟩) fun a => ?_
  split
  · exact .pure fun g h => ⟨.congr (by simp) (.inr h.1.1), h.1.2⟩
  · rw [if_pos ht]
    refine Triple.bind ((markFailed_spec lasting_judged.calm.steady).pre_of fun _ h => h.1.1) fun _ => ?_
    exact .throw fun g h => .congr (by simp) (.inr h)
  rename_i e hne
  refine .throw fun g h => .congr ?_ (.inr h.1.1)
  exact ⟨fun he => absurd (by simpa using he) hne, fun he => absurd (by rw [he]) h.2⟩

/-- An `open` that does not. -/
theorem openRemote_spec (hF : Lasting i F) (ht : options.truncate = false) :
    Fulfils config i F (openRemote config i node options)
      (fun p g => F g ∧ Seen g.history p.1) (fun _ => F) := by
  refine (healthyConnection_spec hF.calm fun _ _ h _ => h).bind fun slot => ?_
  refine (call_spec (c := .openFileWithOptions node options) (hF.calm.connected slot).steady
    ht).bind fun a => ?_
  split
  · exact .pure fun _ h => ⟨h.1.1, h.1.2.1⟩
  · rw [if_neg (by rw [ht]; exact Bool.false_ne_true)]
    refine Triple.bind ((markFailed_spec hF.calm.steady).pre_of fun _ h => h.1.1) fun _ => ?_
    refine (reconnectAfter_spec hF.calm _ fun _ _ h _ => h).bind fun replacement => ?_
    refine (call_spec (c := .openFileWithOptions node options)
      (hF.calm.connected replacement).steady ht).bind fun a' => .bind_ofExcept (fun _ _ => ?_)
      fun _ _ _ h => h.1.1
    exact .pure fun _ h => ⟨h.1.1, h.1.2.1⟩
  · exact .throw fun _ h => h.1.1

theorem setAttributesOn_spec (node : NodeId) (handle remote : Option FileHandle)
    (changes : AttributeChanges) (hr : remote.isSome = handle.isSome) :
    Settles config i (.setAttributes node handle changes)
      (setAttributesOn config i node handle remote changes) := by
  refine (mutationCall_spec rfl ?_ rfl rfl).bind fun metadata => ?_
  · cases handle <;> cases remote <;> first | rfl | cases hr
  cases handle with
  | none => exact .pure fun _ h => h
  | some =>
    refine (updateHandle_spec (lasting_settled False) fun _ => by rfl).bind fun _ => ?_
    exact .pure fun _ h => h

theorem setAttributes_spec (node : NodeId) (handle : Option FileHandle)
    (changes : AttributeChanges) :
    Settles config i (.setAttributes node handle changes)
      (setAttributes config i node handle changes) := by
  cases handle with
  | none => exact setAttributesOn_spec node none none changes rfl
  | some logical =>
    refine (remoteHandle_spec lasting_idle logical settledErr_of_idle).bind fun p => ?_
    refine (locking_spec lasting_idle
      (setAttributesOn_spec node (some logical) (some p.2.remote) changes rfl)
      (fun _ => lasting_settled _) fun _ => lasting_settled _).pre_of
      (fun _ h => h.1)

/-- The invocation of a mutation on the connection of a handle. -/
def Invocation (config : Config) (i : ℕ) (op : RemoteCall) (logical : FileHandle)
    (invoke : ConnectionSlot → FileHandle → M (Except ClientError α)) : Prop :=
  ∀ slot state, Fulfils config i
    (fun g => Idle i op g ∧ Certified logical slot state g) (invoke slot state.remote)
    (fun a g => (Judged i op (a = .error .transport) g ∧ True) ∧ a ≠ .error .ambiguousMutation)
    fun _ _ => False

theorem invocation_of_call (op : RemoteCall) (c : FileHandle → RemoteCall)
    (hop : op.isMutation = true) (hc : ∀ remote, (c remote).eraseHandles = op.eraseHandles)
    (hm : ∀ remote, (c remote).isMutation = true)
    (hw : ∀ h, op.writtenHandle = some h → h = logical) :
    ∀ slot state, Fulfils config i
      (fun g => Idle i op g ∧ Certified logical slot state g) (call slot (c state.remote))
      (fun a g => (Judged i op (a = .error .transport) g ∧ True) ∧
        a ≠ .error .ambiguousMutation) fun _ _ => False :=
  fun slot state => (mutation_spec (A := fun _ => True) hop (hc _) (hm _) (fun _ _ h _ => h)
    (lasting_certified logical slot state) fun _ hinv hidle hcert =>
      writeAfterReopen_of_certified hinv hidle hw hcert).pre_of fun _ h => ⟨h, trivial⟩

theorem writeThrough_spec {invoke : ConnectionSlot → FileHandle → M (Except ClientError WriteResult)}
    (h : Invocation config i op logical invoke) :
    Settles config i op (writeThrough config i logical invoke) := by
  refine (remoteHandle_spec lasting_idle logical settledErr_of_idle).bind fun p => ?_
  refine locking_spec (lasting_idle.and (lasting_certified logical p.1 p.2)) ?_
    (fun _ => lasting_settled _) fun _ => lasting_settled _
  refine (h p.1 p.2).bind_of_total fun a => ?_
  refine (settle_spec p.1.generation a).bind fun result => ?_
  refine Triple.bind ((updateHandle_spec (lasting_settled False) fun _ => by split <;> rfl).pre_of
    fun _ h => h.1) fun _ => ?_
  exact .pure fun _ h => h

theorem flushThrough_spec {invoke : ConnectionSlot → FileHandle → M (Except ClientError Unit)}
    (h : Invocation config i op logical invoke) :
    Settles config i op (flushThrough config i logical invoke) := by
  refine (remoteHandle_spec lasting_idle logical settledErr_of_idle).bind fun p => ?_
  refine locking_spec (lasting_idle.and (lasting_certified logical p.1 p.2)) ?_
    (fun _ => lasting_settled _) fun _ => lasting_settled _
  refine (h p.1 p.2).bind_of_total fun a => ?_
  exact (settle_spec p.1.generation a).post_of (fun _ _ h => h.1)

theorem copyFileRange_spec (input : FileHandle) (inputOffset : ℕ) (output : FileHandle)
    (outputOffset length : ℕ) :
    Settles config i (.copyFileRange input inputOffset output outputOffset length)
      (copyFileRange config i input inputOffset output outputOffset length) := by
  refine (remoteHandle_spec lasting_idle input settledErr_of_idle).bind fun p => ?_
  refine Triple.bind ((remoteHandle_spec lasting_idle output settledErr_of_idle).pre_of
    fun _ h => h.1) fun p' => ?_
  change Fulfils config i _ (if _ then _ else _) _ _
  split
  · exact .throw fun g h => h.1.settled (by simp)
  refine locking_spec (lasting_idle.and (lasting_certified output p'.1 p'.2)) ?_
    (fun _ => lasting_settled _) fun _ => lasting_settled _
  refine Triple.bind ((plainMutation_spec
    (.copyFileRange input inputOffset output outputOffset length)
    (.copyFileRange p.2.remote inputOffset p'.2.remote outputOffset length)
    (A := fun _ => True) rfl rfl rfl rfl fun _ _ h _ => h).pre_of fun g h => ⟨h.1, trivial⟩) fun a => ?_
  refine (settle_spec p'.1.generation a).bind fun result => ?_
  refine Triple.bind ((updateHandle_spec (lasting_settled False) fun _ => by split <;> rfl).pre_of
    fun _ h => h.1) fun _ => ?_
  exact .pure fun _ h => h

section Keeps

variable (hF : Lasting i F)

include hF

theorem closeLocked_keeps : Keeps config i F (closeLocked handle) := by
  have hremove : Keeps config i F
      (withHandles (fun s => s.setHandle handle none) fun s => s.handles handle) :=
    step_spec hF.calm.steady fun g hg hinv hready =>
      ⟨removeHandle_allowed hinv fun j _ => free_of_isNone hready j, hF _ _ hg (past_step _)⟩
  have hclosed : ClosedOnHandles config i (Keeps config i F) := closedOnHandles_keeps hF
  refine hclosed.bind hremove fun entry => ?_
  cases entry with
  | none => exact hclosed.ofExcept (.error _)
  | some =>
    refine hclosed.bind ((access_spec hF.calm.steady .refl).post_of fun _ _ h => h.1)
      fun slot => ?_
    split
    · exact hclosed.ofExcept (.ok _)
    refine hclosed.bind (call_keeps hF rfl) fun a => ?_
    split
    · exact hclosed.markFailed _
    · exact hclosed.ofExcept _

theorem closeFile_keeps : Keeps config i F (closeFile handle) := by
  refine Triple.bind ((readHandle_spec hF.calm.steady).post_of fun _ _ h => h.1) fun entry => ?_
  cases entry with
  | none => exact Triple.throw fun _ h => h
  | some =>
    exact locking_spec hF (closeLocked_keeps hF) (fun _ => hF) fun _ => hF

end Keeps

/-- Task `i` may return from `op`, which may not be a mutation. -/
def Closing (i : ℕ) (op : RemoteCall) (ambiguous : Prop) : Global sig → Prop :=
  Settled i op (op.isMutation = true ∧ ambiguous)

/-- What is to be shown of an operation. -/
def Verified (config : Config) (i : ℕ) (op : RemoteCall) (m : M α) : Prop :=
  Fulfils config i (Idle i op) m (fun _ => Closing i op False)
    fun e => Closing i op (e = .ambiguousMutation)

theorem verified_of_mutation (hop : op.isMutation = true)
    (h : Settles config i op m) : Verified config i op m :=
  h.conseq (fun _ h => h) (fun _ _ h => .congr (by simp) h) fun _ _ h => .congr (by simp [hop]) h

theorem verified_of_safe (hop : op.isMutation = false)
    (h : Keeps config i (Idle i op) m) : Verified config i op m :=
  Triple.conseq h (fun _ h => h) (fun _ _ h => .inl ⟨h, by simp⟩) fun _ _ h => .inl ⟨h, by simp [hop]⟩

theorem openFileWithOptions_verified :
    Verified config i (.openFileWithOptions node options)
      (openFileWithOptions config i node options) := by
  cases ht : options.truncate with
  | true =>
    refine verified_of_mutation ht ?_
    exact (openRemote_truncate_spec ht).bind fun p =>
      rememberOpen_spec (lasting_settled False)
  | false =>
    refine verified_of_safe ht ?_
    exact (openRemote_spec lasting_idle ht).bind fun p =>
      rememberOpen_spec lasting_idle

theorem writeRange_verified {data : List UInt8} :
    Verified config i (.writeRange handle offset data)
      (writeRange config i handle offset data) := by
  refine verified_of_mutation rfl (writeThrough_spec ?_)
  exact invocation_of_call (.writeRange handle offset data)
    (fun remote => .writeRange remote offset data) rfl
    (fun _ => rfl) (fun _ => rfl) fun _ h => (some_inj.1 h).symm

theorem allocateFile_verified :
    Verified config i (.allocateFile handle offset length)
      (allocateFile config i handle offset length) := by
  refine verified_of_mutation rfl (writeThrough_spec ?_)
  exact invocation_of_call (.allocateFile handle offset length)
    (fun remote => .allocateFile remote offset length) rfl
    (fun _ => rfl) (fun _ => rfl) fun _ h => (some_inj.1 h).symm

theorem flushFile_verified {lockOwner : Option ℕ} :
    Verified config i (.flushFile handle lockOwner) (flushFile config i handle lockOwner) := by
  refine verified_of_mutation rfl (flushThrough_spec ?_)
  exact invocation_of_call (.flushFile handle lockOwner) (fun remote => .flushFile remote lockOwner) rfl
    (fun _ => rfl) (fun _ => rfl) fun _ h => by cases h

theorem syncFile_verified {dataOnly : Bool} :
    Verified config i (.syncFile handle dataOnly) (syncFile config i handle dataOnly) := by
  refine verified_of_mutation rfl (flushThrough_spec ?_)
  exact invocation_of_call (.syncFile handle dataOnly) (fun remote => .syncFile remote dataOnly) rfl
    (fun _ => rfl) (fun _ => rfl) fun _ h => by cases h

theorem operation_verified : Verified config i op (operation config i op) := by
  cases op with
  | openFileWithOptions => exact openFileWithOptions_verified
  | createFile parent name mode options =>
    exact verified_of_mutation rfl (createFile_spec parent name mode options)
  | setAttributes node handle changes =>
    exact verified_of_mutation rfl (setAttributes_spec node handle changes)
  | readRangeVersioned =>
    exact verified_of_safe rfl ((closedOnHandles_keeps lasting_idle).readRangeVersioned _
      fun _ _ => call_keeps lasting_idle rfl)
  | writeRange => exact writeRange_verified
  | allocateFile => exact allocateFile_verified
  | flushFile => exact flushFile_verified
  | syncFile => exact syncFile_verified
  | copyFileRange input inputOffset output outputOffset length =>
    exact verified_of_mutation rfl (copyFileRange_spec input inputOffset output outputOffset length)
  | seekFile handle | safeIoctl handle | getLock handle =>
    rw [operation]
    exact verified_of_safe rfl ((closedOnHandles_keeps lasting_idle).safeHandleCall _
      fun _ _ => call_keeps lasting_idle rfl)
  -- A lock that is set is not a mutation, and may end in `AmbiguousMutation` all the same.
  | setLock =>
    exact verified_of_safe rfl ((closedOnHandles_keeps lasting_idle).setLock _
      fun _ _ => call_keeps lasting_idle rfl)
  | closeFile => exact verified_of_safe rfl (closeFile_keeps lasting_idle)
  | createDirectory | createSymlink | createHardLink | createSpecialNode | removeNode | renameNode
  | syncDirectory | exchangeData | setXattr | removeXattr | setVolumeName =>
    exact verified_of_mutation rfl (mutationCall_spec rfl rfl rfl rfl)
  | _ =>
    exact verified_of_safe rfl ((closedOnHandles_keeps lasting_idle).safeCall
      fun _ => call_keeps lasting_idle rfl)

end Triples

/-! ## Every run -/

variable {config : Config}

/-- From its call on, an operation is safe. -/
theorem operation_safe {op : RemoteCall} {i : ℕ} {g : Global sig} (h : Idle i op g) :
    (discipline config).Safe i ((program config).code op i) g := by
  have returns : ∀ (r : op.Reply) (g : Global sig), Closing i op (r = .error .ambiguousMutation) g →
      (discipline config).Stable i (fun g' =>
        (discipline config).Guarantee i g' (g'.log i (.returned ⟨op, r⟩))) g := by
    intro r g hg g' hr hinv
    refine guarantee_log hinv ?_ (writeAfterReopen_of_not_sent nofun)
    change Proper (trace notable i (g'.log i (.returned ⟨op, r⟩)).history)
    rw [trace_log_of_keep rfl]
    rcases lasting_settled _ _ _ hg hr.quiet.toPast with ⟨hidle, hn⟩ |
      ⟨hop, slot, c, a, hc, ht, hiff⟩
    · rw [hidle]
      exact .refused op r fun hop he => hn ⟨hop, he⟩
    · rw [ht]
      exact .returned op slot c a r hc ((by simp [hop] : _ ↔ _).trans hiff)
  exact operation_verified.safe_toTask h (fun a g hg => returns (.ok a) g (.congr (by simp) hg))
    fun e g hg => returns (.error e) g (.congr (by simp) hg)

theorem admits : (discipline config).Admits := by
  intro g op i hinv hfresh
  have htrace : trace notable i (g.log i (.called op)).history = [.called op] := by
    rw [trace_log_of_keep rfl, trace_eq_nil hfresh]
  exact ⟨guarantee_log hinv (htrace ▸ .called op) (writeAfterReopen_of_not_sent nofun),
    operation_safe htrace⟩

theorem inv_new (initial : Connection) : Inv ⟨State.new initial, (), []⟩ where
  proper _ := .nil
  current _ _ h := by cases h
  inRange := by change 1 ≤ u64Max; decide
  newest _ h := by simp [Seen] at h
  unique _ _ h := by simp [Seen] at h
  bounded _ _ h := by cases h
  fresh _ _ := ⟨rfl, fun _ h => by cases h⟩
  kept := trivial
  written := trivial

/-- The past of a run of one `ResilientFilesystem`: any calls, any answers, any interleaving. -/
def pastOf (config : Config) (initial : Connection) (actions : List (Action sig)) :
    List (Moment sig) :=
  (run (program config) (World.initial (State.new initial) ()) actions).history

/-- The mutations task `i` has invoked, with the connections it has invoked them on. -/
def invocations (i : ℕ) (past : List (Moment sig)) : List (ConnectionSlot × RemoteCall) :=
  (trace notable i past).filterMap fun
    | .sent (.call slot c) => some (slot, c)
    | _ => none

/-- Task `i` runs `op`. -/
def Runs (past : List (Moment sig)) (i : ℕ) (op : RemoteCall) : Prop :=
  ∃ s, ⟨i, .called op, s⟩ ∈ past

/-- Task `i` has returned from `op` with `r`. -/
def Returns (past : List (Moment sig)) (i : ℕ) (op : RemoteCall) (r : op.Reply) : Prop :=
  ∃ s, ⟨i, .returned ⟨op, r⟩, s⟩ ∈ past

/-- An invocation of a mutation by task `i` has ended in a transport error. -/
def TransportFailed (past : List (Moment sig)) (i : ℕ) : Prop :=
  ∃ slot c s, c.isMutation = true ∧ ⟨i, .answered (.call slot c) (.error .transport), s⟩ ∈ past

section Traces

variable {past : List (Moment sig)} {i : ℕ} {op : RemoteCall}

theorem Proper.invocations_le_one (h : Proper (trace notable i past)) (hop : Runs past i op) :
    invocations i past = [] ∨ ∃ slot c, invocations i past = [(slot, c)] ∧
      c.eraseHandles = op.eraseHandles := by
  obtain ⟨s, hs⟩ := hop
  have hmem := event_mem_trace notable hs rfl
  rw [invocations]
  generalize trace notable i past = τ at h hmem ⊢
  cases h with
  | nil => cases hmem
  | called | refused => exact .inl rfl
  | sent op' slot c hc =>
    obtain rfl : op = op' := by simpa using hmem
    exact .inr ⟨slot, c, rfl, hc⟩
  | answered op' slot c a hc =>
    obtain rfl : op = op' := by simpa using hmem
    exact .inr ⟨slot, c, rfl, hc⟩
  | returned op' slot c a r hc =>
    obtain rfl : op = op' := by simpa using hmem
    exact .inr ⟨slot, c, rfl, hc⟩

/-- The answers to mutations that a trace has. -/
theorem transportFailed_iff :
    TransportFailed past i ↔ ∃ slot c,
      .answered (.call slot c) (.error .transport) ∈ trace notable i past := by
  refine ⟨fun ⟨slot, c, s, hc, hm⟩ => ⟨slot, c, event_mem_trace _ hm hc⟩, fun ⟨slot, c, hm⟩ => ?_⟩
  have hc : c.isMutation = true := by
    obtain ⟨m, hm, he⟩ := List.mem_map.1 hm
    have := (List.mem_filter.1 hm).2
    rw [he, Bool.and_eq_true] at this
    exact this.2
  obtain ⟨⟨_, _, s⟩, hmem, rfl, rfl⟩ := exists_of_mem_trace hm
  exact ⟨slot, c, s, hc, hmem⟩

theorem Proper.ambiguous_iff (h : Proper (trace notable i past)) (hop : op.isMutation = true)
    {r : op.Reply} (hr : Returns past i op r) :
    r = .error .ambiguousMutation ↔ TransportFailed past i := by
  obtain ⟨s, hs⟩ := hr
  have hmem := event_mem_trace notable hs rfl
  rw [transportFailed_iff]
  generalize trace notable i past = τ at h hmem ⊢
  cases h with
  | nil => cases hmem
  | called | sent | answered => simp at hmem
  | refused op' r' hne =>
    obtain ⟨rfl, hr⟩ : op = op' ∧ HEq r r' := by simpa using hmem
    cases hr
    simpa using hne hop
  | returned op' slot c _ r' _ hiff =>
    obtain ⟨rfl, hr⟩ : op = op' ∧ HEq r r' := by simpa using hmem
    cases hr
    rw [hiff]
    refine ⟨fun ha => ⟨slot, c, by simp [ha]⟩, fun ⟨slot', c', hm⟩ => ?_⟩
    simp only [List.mem_cons, reduceCtorEq, Event.answered.injEq, List.not_mem_nil, or_false,
      false_or] at hm
    obtain ⟨hq, ha⟩ := hm
    cases hq
    exact (eq_of_heq ha).symm

end Traces

/-- **Mutations are sent once.**  Whatever the connections, the connector and the clock answer and
however the calls interleave: a mutation is invoked on at most one connection and at most once, it
returns `AmbiguousMutation` exactly when that invocation ended in a transport error, and a write is
sent only after the reopen that makes it safe. -/
theorem mutations_sent_once (config : Config) (initial : Connection) (actions : List (Action sig)) :
    (∀ i op, Runs (pastOf config initial actions) i op → op.isMutation = true →
      (invocations i (pastOf config initial actions) = [] ∨
        ∃ slot c, invocations i (pastOf config initial actions) = [(slot, c)] ∧
          c.eraseHandles = op.eraseHandles) ∧
      ∀ r, Returns (pastOf config initial actions) i op r →
        (r = .error .ambiguousMutation ↔ TransportFailed (pastOf config initial actions) i)) ∧
    Throughout WriteAfterReopen (pastOf config initial actions) := by
  have hinv := Discipline.sound (@admits config) (inv_new initial) actions
  exact ⟨fun i op hruns hop => ⟨(hinv.proper i).invocations_le_one hruns,
    fun r hr => (hinv.proper i).ambiguous_iff hop hr⟩, hinv.written⟩

/-- **The handle table only goes forward.**  In every run a handle keeps its options; its generation
does not go back or beyond that of the connection, and for a file that can be written it grows only
after a reopen that found the revision on record. -/
theorem handles_go_forward (config : Config) (initial : Connection) (actions : List (Action sig)) :
    let w := run (program config) (World.initial (State.new initial) ()) actions
    Throughout (fun m past => Kept m.shared past) w.history ∧
      ∀ logical state, w.shared.handles logical = some state →
        state.generation ≤ w.shared.connection.generation :=
  have hinv := Discipline.sound (@admits config) (inv_new initial) actions
  ⟨hinv.kept, hinv.bounded⟩

end Resilient
end QuickFS
