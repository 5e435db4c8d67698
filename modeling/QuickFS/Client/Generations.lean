import QuickFS.Client.Resilient
import QuickFS.Lib.Sequential

/-!
# Generations of connections

A `ResilientFilesystem` numbers its connections, and one shared number says which of them is known
to be broken (`failedGeneration`).  This module is about the two together, over every interleaving
of calls and every way connections fail and are replaced.

Replacing a connection is done under a mutex, and that part is sound (`Succession`): the generation
of a new connection is the next one, no generation is replaced twice, it is replaced only once it
was marked as failed, and the new connection has reported the epoch of the first.  The exception is
the end of the counter, which saturates: from there on the generations of successive connections are
the same (`generation_stalls`).

Marking a connection is not done under the mutex, and marks get lost (`late_mark_hides_failure`).  A
call that failed on an old connection may say so when the next one is marked already, which
overwrites that mark; so may the task that installs a connection, when it resets the number; and a
task may look at the connection before it is replaced and at the mark after that.  `Orderly` says of
a moment that it is none of these, and if that is so throughout a run, nobody who asks for a
connection after it has been marked is given it (`marked_connection_not_given`).

Where in its code a task is cannot be seen in a history.  So that the beginning and the end of an
attempt to get a connection can, some tasks do nothing else (`acquiring`): they get a connection, in
one of the two ways there are, and use it at once.  Which tasks these are is arbitrary (`who`).
-/

namespace QuickFS.Resilient.Generations

open Async
open Discipline (Triple)

/-! ## Getting a connection -/

/-- The two methods that hand out a connection. -/
inductive Acquisition where
  | healthyConnection
  | reconnectAfter (failedGeneration : ℕ)
deriving DecidableEq

def Acquisition.slot (config : Config) (me : ℕ) : Acquisition → M ConnectionSlot
  | healthyConnection => Resilient.healthyConnection config me
  | reconnectAfter failedGeneration => Resilient.reconnectAfter config me failedGeneration

/-- Get a connection and use it. -/
def acquiring (config : Config) (me : ℕ) (acquisition : Acquisition) (op : RemoteCall) :
    M op.Output := do
  let slot ← acquisition.slot config me
  let result ← call slot op
  Call.ofExcept result

/-- Any number of concurrent calls, of which those that `who` names only get a connection and use
it. -/
def watched (config : Config) (who : ℕ → Option Acquisition) : Program sig where
  code op me :=
    match who me with
    | none => (operation config me op).toTask fun r => ⟨op, r⟩
    | some acquisition => (acquiring config me acquisition op).toTask fun r => ⟨op, r⟩
  serve := serve

/-! ## What is promised -/

/-- The state that a history has led to. -/
def latest (initial : State) : List (Moment sig) → State
  | [] => initial
  | m :: _ => m.shared

/-- The generation that is marked as failed is the one that is installed. -/
def Marked (s : State) : Prop := s.failedGeneration = s.connection.generation

instance (s : State) : Decidable (Marked s) := by unfold Marked; infer_instance

/-- A new connection is installed. -/
def Installs (initial : State) (m : Moment sig) (past : List (Moment sig)) : Prop :=
  m.shared.connection ≠ (latest initial past).connection

/-- Task `i` has been told that the epoch of a connection is `epoch`. -/
def Reported (i : ℕ) (slot : ConnectionSlot) (epoch : Uuid) (past : List (Moment sig)) : Prop :=
  ∃ m ∈ past, ∃ capabilities : FilesystemCapabilities, m.task = i ∧
    m.event = .answered (.call slot .capabilities) (.ok capabilities) ∧
    capabilities.serverEpoch = epoch

/-- A moment, if it is one in which a connection is installed.  The task that installs it has been
told that its epoch is that of the first connection, if that had one, and the connection it replaces
has been marked as failed.  As long as generations are below `limit`, its own is the next one, and
no earlier installation has replaced the same. -/
def Succession (limit : ℕ) (config : Config) (initial : State) (m : Moment sig)
    (past : List (Moment sig)) : Prop :=
  Installs initial m past →
    (∀ epoch ∈ config.serverEpoch, Reported m.task m.shared.connection epoch past) ∧
      (∃ m' ∈ past, m'.shared.failedGeneration = (latest initial past).connection.generation) ∧
      ((latest initial past).connection.generation < limit →
        m.shared.connection.generation = (latest initial past).connection.generation + 1 ∧
          ∀ m' earlier, m' :: earlier <:+ past → Installs initial m' earlier →
            (latest initial earlier).connection.generation ≠
              (latest initial past).connection.generation)

/-- The moment task `i` was called. -/
def isCall (i : ℕ) (m : Moment sig) : Bool :=
  m.task == i && match m.event with
    | .called _ => true
    | _ => false

/-- What happened before task `i` was called. -/
def before (i : ℕ) (history : List (Moment sig)) : List (Moment sig) :=
  (history.dropWhile fun m => !isCall i m).tail

/-- What task `i` has done. -/
def own (i : ℕ) (history : List (Moment sig)) : List (Moment sig) :=
  history.filter fun m => m.task == i

/-- The connection that a call is sent on. -/
def usedSlot (m : Moment sig) : Option ConnectionSlot :=
  match m.event with
  | .sent (.call slot _) => some slot
  | _ => none

/-- A task that gets a connection and uses it does not use one that was marked as failed, while it
was installed, before the task was called. -/
def AvoidsMarked (who : ℕ → Option Acquisition) (m : Moment sig) (past : List (Moment sig)) : Prop :=
  ∀ slot ∈ usedSlot m, (who m.task).isSome = true → ∀ m' ∈ before m.task past,
    Marked m'.shared → slot.generation ≠ m'.shared.connection.generation

instance (who : ℕ → Option Acquisition) (m : Moment sig) (past : List (Moment sig)) :
    Decidable (AvoidsMarked who m past) := by unfold AvoidsMarked; infer_instance

/-! ## Orderly runs -/

/-- The second step of a task that gets a connection comes in time: with `healthyConnection`, the
connection is still the one it saw in its first step; with `reconnectAfter`, it is the one that it
was told has failed, or one that is not marked. -/
def Timely (who : ℕ → Option Acquisition) (m : Moment sig) (past : List (Moment sig)) : Prop :=
  match who m.task, own m.task past with
  | some .healthyConnection, [first, _] => m.shared.connection = first.shared.connection
  | some (.reconnectAfter failedGeneration), [_, _] =>
    m.shared.connection.generation = failedGeneration ∨ ¬ Marked m.shared
  | _, _ => True

instance (who : ℕ → Option Acquisition) (m : Moment sig) (past : List (Moment sig)) :
    Decidable (Timely who m past) := by unfold Timely; split <;> infer_instance

/-- Nothing goes wrong with marks: the mark of the installed connection is not overwritten, what is
read to get a connection is read in time, and the counter is not at its end. -/
def Orderly (who : ℕ → Option Acquisition) (initial : State) (m : Moment sig)
    (past : List (Moment sig)) : Prop :=
  (Marked (latest initial past) →
      m.shared.failedGeneration = (latest initial past).failedGeneration) ∧
    Timely who m past ∧ m.shared.connection.generation < u64Max

instance (who : ℕ → Option Acquisition) (initial : State) (m : Moment sig)
    (past : List (Moment sig)) : Decidable (Orderly who initial m past) := by
  unfold Orderly; infer_instance

section History

variable {i : ℕ} {m : Moment sig} {history : List (Moment sig)}

theorem before_cons_of_not_isCall (h : isCall i m = false) :
    before i (m :: history) = before i history := by
  rw [before, List.dropWhile_cons_of_pos (by rw [h]; rfl), before]

theorem before_subset : before i history ⊆ history :=
  fun _ h => (List.dropWhile_suffix _).subset (List.mem_of_mem_tail h)

theorem isCall_of_ne (h : m.task ≠ i) : isCall i m = false := by
  rw [isCall, beq_false_of_ne h]
  rfl

theorem own_cons : own m.task (m :: history) = m :: own m.task history :=
  List.filter_cons_of_pos (by simp)

theorem own_cons_of_ne (h : m.task ≠ i) : own i (m :: history) = own i history :=
  List.filter_cons_of_neg (by simpa using h)

theorem own_eq_nil (h : ∀ m ∈ history, m.task ≠ i) : own i history = [] :=
  List.filter_eq_nil_iff.2 fun m hm => by simpa using h m hm

theorem Reported.mono {slot : ConnectionSlot} {epoch : Uuid} {history' : List (Moment sig)}
    (h : Reported i slot epoch history) (hs : history <:+ history') :
    Reported i slot epoch history' := by
  obtain ⟨m, hm, hrest⟩ := h
  exact ⟨m, hs.mem hm, hrest⟩

end History

/-! ## The discipline -/

section Discipline

variable {config : Config} {who : ℕ → Option Acquisition} {initial : State}

/-- The marks that were set on an installed connection, against the present: the connection has been
replaced, or it is still marked. -/
def MarksKept (g : Global sig) : Prop :=
  ∀ m ∈ g.history, Marked m.shared →
    m.shared.connection.generation < g.shared.connection.generation ∨ Marked g.shared

structure Inv (config : Config) (who : ℕ → Option Acquisition) (initial : State)
    (g : Global sig) : Prop where
  current : latest initial g.history = g.shared
  inRange : g.shared.connection.generation ≤ u64Max
  newest : ∀ m ∈ g.history, m.shared.connection.generation ≤ g.shared.connection.generation
  succession : Throughout (Succession u64Max config initial) g.history
  marks : Throughout (Orderly who initial) g.history → MarksKept g
  avoids : Throughout (Orderly who initial) g.history → Throughout (AvoidsMarked who) g.history

/-- What a task keeps of its past. -/
structure Past (i : ℕ) (g g' : Global sig) : Prop where
  history : g.history <:+ g'.history
  before : before i g'.history = before i g.history

/-- What stays as it is while a task is not installing a connection itself. -/
structure Quiet (i : ℕ) (g g' : Global sig) : Prop extends Past i g g' where
  mutex : g.shared.reconnect = some i →
    g'.shared.reconnect = some i ∧ g'.shared.connection = g.shared.connection

/-- What a task counts on. -/
structure Rely (i : ℕ) (g g' : Global sig) : Prop extends Quiet i g g' where
  own : own i g'.history = own i g.history

variable {i : ℕ} {g1 g2 g3 : Global sig}

theorem Past.trans (h : Past i g1 g2) (h' : Past i g2 g3) : Past i g1 g3 :=
  ⟨h.history.trans h'.history, h'.before.trans h.before⟩

theorem Quiet.trans (h : Quiet i g1 g2) (h' : Quiet i g2 g3) : Quiet i g1 g3 where
  toPast := h.toPast.trans h'.toPast
  mutex hm := by
    obtain ⟨hm2, hc2⟩ := h.mutex hm
    obtain ⟨hm3, hc3⟩ := h'.mutex hm2
    exact ⟨hm3, hc3.trans hc2⟩

def discipline (config : Config) (who : ℕ → Option Acquisition) (initial : State) :
    Discipline (watched config who) where
  inv := Inv config who initial
  rely := Rely
  rely_refl _ _ := ⟨⟨⟨List.suffix_rfl, rfl⟩, fun h => ⟨h, rfl⟩⟩, rfl⟩
  rely_trans _ _ _ _ h h' := ⟨h.toQuiet.trans h'.toQuiet, h'.own.trans h.own⟩

/-- What a step of task `i` may do: install the next connection, with the reasons for it, and
nothing to the connection or the mutex while another task has that. -/
structure Allowed (config : Config) (i : ℕ) (history : List (Moment sig)) (s s' : State) : Prop where
  mutex : ∀ j, j ≠ i → s.reconnect = some j → s'.reconnect = some j ∧ s'.connection = s.connection
  connection : s'.connection = s.connection ∨
    (s'.connection.generation = saturatingAdd s.connection.generation 1 ∧
      (∃ m ∈ history, m.shared.failedGeneration = s.connection.generation) ∧
      ∀ epoch ∈ config.serverEpoch, Reported i s'.connection epoch history)

/-- A step that leaves the connection and the mutex alone. -/
structure Aside (s s' : State) : Prop where
  connection : s'.connection = s.connection
  reconnect : s'.reconnect = s.reconnect

theorem Aside.refl (s : State) : Aside s s := ⟨rfl, rfl⟩

theorem Aside.allowed {history : List (Moment sig)} {s s' : State} (h : Aside s s') :
    Allowed config i history s s' :=
  ⟨fun _ _ hj => ⟨h.reconnect.trans hj, h.connection⟩, .inl h.connection⟩

section Step

variable {i : ℕ} {g : Global sig} {s' : State} {e : Event sig}

section

variable (h : Allowed config i g.history g.shared s')

include h

theorem Allowed.generation_le (hinv : Inv config who initial g) :
    g.shared.connection.generation ≤ s'.connection.generation := by
  rcases h.connection with heq | ⟨heq, -⟩
  · rw [heq]
  · rw [heq, saturatingAdd]
    exact le_min (Nat.le_succ _) hinv.inRange

/-- A moment that an allowed step leads to continues the succession. -/
theorem Allowed.succession (hinv : Inv config who initial g) :
    Succession u64Max config initial ⟨i, e, s'⟩ g.history := by
  intro hinstalls
  rw [Installs, hinv.current] at hinstalls
  rcases h.connection with heq | ⟨hnext, hmarked, hreported⟩
  · exact absurd heq hinstalls
  rw [hinv.current]
  refine ⟨hreported, hmarked, fun hlt => ⟨?_, fun m' earlier hsuffix hinstalls' heq => ?_⟩⟩
  · rw [hnext, saturatingAdd]
    exact min_eq_left hlt
  -- An installation that replaced this generation would have led beyond it.
  obtain ⟨later, hlater⟩ := hsuffix
  obtain ⟨-, -, hgrown⟩ := throughout_iff.1 hinv.succession later m' earlier hlater.symm hinstalls'
  have hle := hinv.newest m' (hlater ▸ List.mem_append_right _ List.mem_cons_self)
  rw [heq] at hgrown
  have := (hgrown hlt).1
  omega

theorem Allowed.marksKept (hinv : Inv config who initial g)
    (horderly : Throughout (Orderly who initial) (⟨i, e, s'⟩ :: g.history)) :
    MarksKept ⟨s', g.env, ⟨i, e, s'⟩ :: g.history⟩ := by
  intro m hm hmarked
  rcases List.mem_cons.1 hm with rfl | hm
  · exact .inr hmarked
  obtain ⟨⟨hsame, -, hlt⟩, hpast⟩ := horderly
  rw [hinv.current] at hsame
  rcases hinv.marks hpast m hm hmarked with hless | hstill
  · exact .inl (lt_of_lt_of_le hless (h.generation_le hinv))
  rcases h.connection with heq | ⟨hnext, -⟩
  · refine .inr ?_
    rw [Marked, heq]
    exact (hsame hstill).trans hstill
  refine .inl (lt_of_le_of_lt (hinv.newest m hm) ?_)
  change s'.connection.generation < u64Max at hlt
  change _ < s'.connection.generation
  rw [hnext, saturatingAdd] at hlt ⊢
  omega

end

/-- An event of task `i` that leaves the shared state in `s'`. -/
theorem Inv.advance (hinv : Inv config who initial g) (h : Allowed config i g.history g.shared s')
    (havoids : Throughout (Orderly who initial) g.history → AvoidsMarked who ⟨i, e, s'⟩ g.history) :
    Inv config who initial ⟨s', g.env, ⟨i, e, s'⟩ :: g.history⟩ where
  current := rfl
  inRange := by
    rcases h.connection with heq | ⟨heq, -⟩
    · exact heq ▸ hinv.inRange
    · exact heq ▸ saturatingAdd_le _ _
  newest m hm := by
    rcases List.mem_cons.1 hm with rfl | hm
    · exact le_rfl
    · exact (hinv.newest m hm).trans (h.generation_le hinv)
  succession := ⟨h.succession hinv, hinv.succession⟩
  marks := h.marksKept hinv
  avoids horderly := ⟨havoids horderly.2, hinv.avoids horderly.2⟩

theorem Allowed.rely (h : Allowed config i g.history g.shared s') {j : ℕ} (hj : j ≠ i) :
    Rely j g ⟨s', g.env, ⟨i, e, s'⟩ :: g.history⟩ where
  history := List.suffix_cons _ _
  before := before_cons_of_not_isCall (isCall_of_ne hj.symm)
  mutex := h.mutex j hj
  own := own_cons_of_ne hj.symm

theorem avoidsMarked_of_not_sent {m : Moment sig} {past : List (Moment sig)}
    (h : usedSlot m = none) : AvoidsMarked who m past := by
  intro slot hslot
  rw [h] at hslot
  cases hslot

theorem guarantee (hinv : Inv config who initial g) (h : Allowed config i g.history g.shared s')
    (havoids : Throughout (Orderly who initial) g.history → AvoidsMarked who ⟨i, e, s'⟩ g.history) :
    (discipline config who initial).Guarantee i g ⟨s', g.env, ⟨i, e, s'⟩ :: g.history⟩ :=
  ⟨hinv.advance h havoids, fun _ hj => h.rely hj⟩

end Step

/-! ## Rules -/

section Rules

variable {i : ℕ} {pre : Global sig → Prop} {α : Type}

/-- Survives the steps of others. -/
def Steady (i : ℕ) (F : Global sig → Prop) : Prop := ∀ g g', F g → Rely i g g' → F g'

/-- Survives the steps of a task that is not installing a connection. -/
def Enduring (i : ℕ) (F : Global sig → Prop) : Prop := ∀ g g', F g → Quiet i g g' → F g'

variable {F : Global sig → Prop} {slot : ConnectionSlot} {g : Global sig} {q : Question}
  {update : State → State}

theorem Enduring.steady (h : Enduring i F) : Steady i F :=
  fun g g' hg hr => h g g' hg hr.toQuiet

theorem Enduring.and {F' : Global sig → Prop} (h : Enduring i F) (h' : Enduring i F') :
    Enduring i fun g => F g ∧ F' g :=
  fun g g' hg hq => ⟨h g g' hg.1 hq, h' g g' hg.2 hq⟩

/-- An event of the task itself, other than its call, that leaves the connection and the mutex
alone. -/
theorem quiet_cons {env : Unit} {e : Event sig} {s' : State} (he : ∀ op, e ≠ .called op)
    (h : Aside g.shared s') : Quiet i g ⟨s', env, ⟨i, e, s'⟩ :: g.history⟩ where
  history := List.suffix_cons _ _
  before := by
    refine before_cons_of_not_isCall ?_
    rw [isCall]
    cases e <;> first | exact Bool.and_false _ | exact absurd rfl (he _)
  mutex hm := ⟨h.reconnect.trans hm, h.connection⟩

/-- `slot` was not marked as failed when task `i` was called. -/
def Fine (who : ℕ → Option Acquisition) (initial : State) (i : ℕ) (slot : ConnectionSlot)
    (g : Global sig) : Prop :=
  (who i).isSome = true → Throughout (Orderly who initial) g.history →
    ∀ m ∈ before i g.history, Marked m.shared → slot.generation ≠ m.shared.connection.generation

theorem throughout_of_suffix {Q : Moment sig → List (Moment sig) → Prop}
    {history history' : List (Moment sig)} (h : Throughout Q history')
    (hs : history <:+ history') : Throughout Q history := by
  obtain ⟨later, rfl⟩ := hs
  rw [throughout_iff] at h ⊢
  intro later' m past heq
  exact h (later ++ later') m past (by rw [heq, List.append_assoc])

theorem Fine.past {g' : Global sig} (h : Fine who initial i slot g) (hp : Past i g g') :
    Fine who initial i slot g' := by
  intro hwho horderly
  rw [hp.before]
  exact h hwho (throughout_of_suffix horderly hp.history)

theorem enduring_fine (slot : ConnectionSlot) : Enduring i (Fine who initial i slot) :=
  fun _ _ h hq => h.past hq.toPast

theorem fine_of_none (hwho : who i = none) : Fine who initial i slot g := by
  intro hsome
  rw [hwho] at hsome
  cases hsome

variable {fail : ClientError → Global sig → Prop}

/-- One atomic access. -/
theorem step_spec (hpre : Steady i pre) {ready : State → Bool} {read : State → α}
    {post : α → Global sig → Prop}
    (h : ∀ g, pre g → Inv config who initial g → ready g.shared = true →
      Allowed config i g.history g.shared (update g.shared) ∧
      post (read g.shared) (g.step i (update g.shared))) :
    (discipline config who initial).Triple i pre (Call.access ready update read) post
      fail := by
  refine Triple.access fun g hg g' hr hinv hready => ?_
  obtain ⟨hallowed, hpost⟩ := h g' (hpre _ _ hg hr) hinv hready
  exact ⟨guarantee hinv hallowed fun _ => avoidsMarked_of_not_sent rfl, hpost⟩

/-- One atomic access that leaves the connection and the mutex alone. -/
theorem aside_spec (hpre : Enduring i pre) {ready : State → Bool} {read : State → α}
    (h : ∀ s, Aside s (update s)) :
    (discipline config who initial).Triple i pre (Call.access ready update read)
      (fun _ => pre) fail :=
  step_spec hpre.steady fun _ hg _ _ =>
    ⟨(h _).allowed, hpre _ _ hg (quiet_cons (fun _ => nofun) (h _))⟩

/-- A question, which a task that gets a connection asks only of one that is fine. -/
theorem ask_spec (hpre : Enduring i pre)
    (hq : ∀ slot op, q = .call slot op → ∀ g, pre g → Inv config who initial g →
      Fine who initial i slot g) :
    (discipline config who initial).Triple i pre (Call.ask (S := sig) q)
      (fun a g => pre g ∧ ∃ m ∈ g.history, m.task = i ∧ m.event = .answered q a) fail := by
  refine Triple.ask fun g hg g1 hr1 hinv1 => ?_
  have hg1 := hpre.steady _ _ hg hr1
  refine ⟨guarantee hinv1 (Aside.refl _).allowed fun horderly slot hslot hwho => ?_, ?_⟩
  · cases q with
    | call =>
      cases hslot
      exact hq _ _ rfl g1 hg1 hinv1 hwho horderly
    | connect | now | sleep => cases hslot
  · intro g2 hr2 hinv2 choice env a ha
    have hg2 := hpre.steady _ _ (hpre _ _ hg1 (quiet_cons (by exact fun _ => nofun) (.refl _))) hr2
    refine ⟨guarantee hinv2 (Aside.refl _).allowed fun _ => avoidsMarked_of_not_sent rfl,
      fun g3 hr3 hinv3 => ?_⟩
    have hg3 := hpre.steady _ _ (hpre _ _ hg2 (quiet_cons (by exact fun _ => nofun) (.refl _))) hr3
    exact ⟨guarantee hinv3 (Aside.refl _).allowed fun _ => avoidsMarked_of_not_sent rfl,
      hpre _ _ hg3 (quiet_cons (by exact fun _ => nofun) (.refl _)), _, List.mem_cons_self, rfl, rfl⟩

/-- A question that is not a call. -/
theorem ask_frame (hpre : Enduring i pre) (hq : ∀ slot op, q ≠ .call slot op) :
    (discipline config who initial).Triple i pre (Call.ask (S := sig) q) (fun _ => pre) fail :=
  (ask_spec hpre fun slot op h => absurd h (hq slot op)).post_of (fun _ _ h => h.1)

end Rules

/-! ## Reconnecting -/

section Reconnecting

variable {i : ℕ} {pre : Global sig → Prop}

/-- Task `i` has the reconnect mutex. -/
def Holds (i : ℕ) (g : Global sig) : Prop := g.shared.reconnect = some i

theorem enduring_holds : Enduring i (Holds i) := fun _ _ h hq => (hq.mutex h).1

/-- Task `i` has the reconnect mutex, and this is the connection. -/
def HoldsAt (i : ℕ) (slot : ConnectionSlot) (g : Global sig) : Prop :=
  Holds i g ∧ g.shared.connection = slot

variable {g : Global sig} {mid : Global sig → Prop} (slot : ConnectionSlot)

theorem enduring_holdsAt : Enduring i (HoldsAt i slot) :=
  fun _ _ h hq => ⟨(hq.mutex h.1).1, (hq.mutex h.1).2.trans h.2⟩

/-- A generation has been marked as failed. -/
def WasMarked (generation : ℕ) (g : Global sig) : Prop :=
  ∃ m ∈ g.history, m.shared.failedGeneration = generation

theorem enduring_wasMarked (generation : ℕ) : Enduring i (WasMarked generation) :=
  fun _ _ ⟨m, hm, h⟩ hq => ⟨m, hq.history.mem hm, h⟩

theorem enduring_reported (epoch : Option Uuid) :
    Enduring i fun g => ∀ e ∈ epoch, Reported i slot e g.history :=
  fun _ _ h hq e he => (h e he).mono hq.history

/-- The counter is not at its end in the present of an orderly past. -/
theorem Inv.generation_lt (hinv : Inv config who initial g)
    (horderly : Throughout (Orderly who initial) g.history) (hne : g.history ≠ []) :
    g.shared.connection.generation < u64Max := by
  have hcurrent := hinv.current
  revert horderly hne hcurrent
  cases g.history with
  | nil => exact fun _ hne => absurd rfl hne
  | cons =>
    intro horderly _ hcurrent
    rw [← hcurrent]
    exact horderly.1.2.2

/-- Whatever comes after the present connection is fine. -/
theorem fine_next (hinv : Inv config who initial g) {filesystem : Connection} :
    Fine who initial i ⟨saturatingAdd g.shared.connection.generation 1, filesystem⟩ g := by
  intro _ horderly m hm _ heq
  have hmem := before_subset hm
  have hle := hinv.newest m hmem
  have hlt := hinv.generation_lt horderly (List.ne_nil_of_mem hmem)
  dsimp only [saturatingAdd] at heq
  omega

/-- A connection of the present that is not marked is fine. -/
theorem fine_of_not_marked (hinv : Inv config who initial g)
    (h : Throughout (Orderly who initial) g.history → ¬ Marked g.shared) :
    Fine who initial i g.shared.connection g := by
  intro _ horderly m hm hmarked heq
  rcases hinv.marks horderly m (before_subset hm) hmarked with hlt | hstill
  · exact absurd heq.symm hlt.ne
  · exact h horderly hstill

theorem capabilityEpoch_spec (hpre : Enduring i pre)
    (hfine : ∀ g, pre g → Inv config who initial g → Fine who initial i slot g) :
    (discipline config who initial).Triple i pre (capabilityEpoch slot)
      (fun epoch g => pre g ∧ ∀ e ∈ epoch, Reported i slot e g.history) fun _ => pre := by
  refine (ask_spec (q := .call slot .capabilities) hpre fun _ _ hq => ?_).bind fun a => ?_
  · cases hq
    exact hfine
  split
  · rename_i capabilities
    refine .pure fun g ⟨hg, m, hm, htask, hevent⟩ => ⟨hg, fun e he => ?_⟩
    cases he
    exact ⟨m, hm, capabilities, htask, hevent, rfl⟩
  · exact .pure fun g h => ⟨h.1, nofun⟩
  · exact .throw fun g h => h.1

variable {fail : ClientError → Global sig → Prop}

/-- The step that installs a new connection. -/
theorem install_spec (filesystem : Connection) :
    (discipline config who initial).Triple i
      (fun g => (HoldsAt i slot g ∧ WasMarked slot.generation g) ∧
        ∀ epoch ∈ config.serverEpoch,
          Reported i ⟨saturatingAdd slot.generation 1, filesystem⟩ epoch g.history)
      (Call.modify fun s =>
        { s with connection := ⟨saturatingAdd slot.generation 1, filesystem⟩ })
      (fun _ g => Fine who initial i ⟨saturatingAdd slot.generation 1, filesystem⟩ g ∧ Holds i g)
      fail := by
  have hpre := ((enduring_holdsAt slot).and (enduring_wasMarked (i := i) slot.generation)).and
    (enduring_reported ⟨saturatingAdd slot.generation 1, filesystem⟩ config.serverEpoch)
  refine step_spec hpre.steady fun g ⟨⟨⟨hholds, hslot⟩, hmarked⟩, hreported⟩ hinv _ => ?_
  subst hslot
  refine ⟨⟨fun j hj hh => ?_, .inr ⟨rfl, hmarked, hreported⟩⟩,
    (fine_next hinv).past ⟨List.suffix_cons _ _, ?_⟩, hholds⟩
  · exact absurd (Option.some_inj.1 (hh.symm.trans hholds)) hj
  · exact before_cons_of_not_isCall (Bool.and_false _)

theorem reconnectAttempts_spec (left backoff : ℕ) :
    (discipline config who initial).Triple i
      (fun g => HoldsAt i slot g ∧ WasMarked slot.generation g)
      (reconnectAttempts config slot.generation left backoff)
      (fun slot' g => Fine who initial i slot' g ∧ Holds i g) fun _ => Holds i := by
  have hpre := (enduring_holdsAt slot).and (enduring_wasMarked (i := i) slot.generation)
  have hpost : ∀ slot', Enduring i fun g => Fine who initial i slot' g ∧ Holds i g :=
    fun slot' => (enduring_fine slot').and enduring_holds
  induction left generalizing backoff with
  | zero => exact .throw fun g h => h.1.1
  | succ left ih =>
    refine (ask_frame hpre (by exact fun _ _ => nofun)).bind fun a => ?_
    cases a with
    | ok filesystem =>
      refine Triple.bind ((capabilityEpoch_spec _ hpre fun g hg hinv => ?_).conseq
        (fun _ h => h) (fun _ _ h => h) fun _ _ h => h.1.1) fun epoch => ?_
      · rw [← hg.1.2]
        exact fine_next hinv
      split
      · exact .throw fun g h => h.1.1.1
      rename_i hepoch
      refine Triple.bind ((install_spec slot filesystem).pre_of fun g h => ?_) fun _ => ?_
      · refine ⟨h.1, fun e he => h.2 e ?_⟩
        rw [Option.mem_def] at he
        simpa [he] using hepoch
      refine (aside_spec (hpost _) fun s => by exact ⟨rfl, rfl⟩).bind fun _ => ?_
      refine (aside_spec (hpost _) fun s => by exact ⟨rfl, rfl⟩).bind fun _ => ?_
      exact .pure fun _ h => h
    | error =>
      change (discipline config who initial).Triple i _ (if left = 0 then _ else _) _ _
      split
      · refine (ask_frame hpre (by exact fun _ _ => nofun)).bind fun now => ?_
        refine (aside_spec hpre fun s => by exact ⟨rfl, rfl⟩).bind fun _ => ?_
        exact .throw fun g h => h.1.1
      · exact (ask_frame hpre (by exact fun _ _ => nofun)).bind fun _ => ih _

theorem recentlyFailed_spec (hpre : Enduring i pre) (failedGeneration : ℕ) :
    (discipline config who initial).Triple i pre (recentlyFailed config failedGeneration)
      (fun _ => pre) fail := by
  refine (aside_spec hpre fun s => .refl s).bind fun a => ?_
  split
  · exact .pure fun _ h => h
  split
  · exact (ask_frame hpre (by exact fun _ _ => nofun)).bind fun _ => .pure fun _ h => h
  · exact .pure fun _ h => h

/-- What a look at the state in the course of a step shows: the state of before. -/
theorem inv_look (hinv : Inv config who initial g) : Inv config who initial (g.step i g.shared) :=
  hinv.advance (Aside.refl _).allowed fun _ => avoidsMarked_of_not_sent rfl

/-- The body of `reconnect_after`: the mutex is held, and the connection it looks at first is fine
or the one that has failed. -/
theorem reconnectLocked_spec (hmid : Steady i mid) (failedGeneration : ℕ)
    (hread : ∀ g, mid g → Inv config who initial g →
      g.shared.connection.generation ≠ failedGeneration →
      Fine who initial i g.shared.connection (g.step i g.shared)) :
    (discipline config who initial).Triple i (fun g => mid g ∧ Holds i g)
      (reconnectLocked config failedGeneration)
      (fun slot g => Fine who initial i slot g ∧ Holds i g) fun _ => Holds i := by
  have hpre : Steady i fun g => mid g ∧ Holds i g :=
    fun g g' h hr => ⟨hmid g g' h.1 hr, enduring_holds.steady g g' h.2 hr⟩
  refine Triple.bind (R := fun current g => HoldsAt i current g ∧
    (current.generation ≠ failedGeneration → Fine who initial i current g))
    (step_spec hpre fun g hg hinv _ => ⟨(Aside.refl _).allowed, ⟨hg.2, rfl⟩, hread g hg.1 hinv⟩)
    fun current => ?_
  split
  · rename_i hne
    exact .pure fun g h => ⟨h.2 hne, h.1.1⟩
  rename_i heq
  rw [not_not] at heq
  subst heq
  refine Triple.bind (R := fun failed g => HoldsAt i current g ∧
    WasMarked failed g ∧ (failed ≠ current.generation → Fine who initial i current g))
    ((step_spec (enduring_holdsAt current).steady fun g hg hinv _ =>
      ⟨(Aside.refl _).allowed, hg, ⟨_, List.mem_cons_self, rfl⟩, fun hne => ?_⟩).pre_of
      fun _ h => h.1) fun failed => ?_
  rotate_left
  · obtain ⟨-, rfl⟩ := hg
    exact fine_of_not_marked (inv_look hinv) fun _ => hne
  split
  · rename_i hne
    exact .pure fun g h => ⟨h.2.2 hne, h.1.1⟩
  rename_i heq
  rw [not_not] at heq
  subst heq
  have hpre := (enduring_holdsAt current).and (enduring_wasMarked (i := i) current.generation)
  refine Triple.bind ((recentlyFailed_spec hpre _).pre_of fun _ h => ⟨h.1, h.2.1⟩) fun recent => ?_
  split
  · exact .throw fun g h => h.1.1
  · exact reconnectAttempts_spec current _ _

theorem releaseReconnect_spec {Q : Global sig → Prop} (hpost : ∀ g g', Q g → Past i g g' → Q g') :
    (discipline config who initial).Triple i (fun g => Q g ∧ Holds i g)
      (Call.modify fun s => { s with reconnect := none } : M Unit) (fun _ => Q)
      fun _ _ => False := by
  refine step_spec (fun g g' h hr => ⟨hpost g g' h.1 hr.toPast, enduring_holds.steady g g' h.2 hr⟩)
    fun g hg _ _ => ⟨⟨fun j hj hh => ?_, .inl rfl⟩, hpost _ _ hg.1 ⟨List.suffix_cons _ _, ?_⟩⟩
  · exact absurd (Option.some_inj.1 (hh.symm.trans hg.2)) hj
  · exact before_cons_of_not_isCall (Bool.and_false _)

theorem reconnectAfter_spec (hpre : Steady i pre) (hmid : Steady i mid) (failedGeneration : ℕ)
    (hacquire : ∀ g, pre g → mid (g.step i { g.shared with reconnect := some i }))
    (hread : ∀ g, mid g → Inv config who initial g →
      g.shared.connection.generation ≠ failedGeneration →
      Fine who initial i g.shared.connection (g.step i g.shared)) :
    (discipline config who initial).Triple i pre (reconnectAfter config i failedGeneration)
      (Fine who initial i) fun _ _ => True := by
  refine Triple.holding ?_ (reconnectLocked_spec hmid failedGeneration hread)
    (fun slot => ?_) fun e => ?_
  · refine step_spec hpre fun g hg _ hready => ⟨⟨fun j _ hh => ?_, .inl rfl⟩, hacquire g hg, rfl⟩
    rw [hh] at hready
    cases hready
  · exact releaseReconnect_spec fun _ _ h hp => h.past hp
  · exact (releaseReconnect_spec (Q := fun _ => True) fun _ _ h _ => h).pre_of
      (fun g h => ⟨trivial, h⟩)

end Reconnecting

/-! ## Tasks that get a connection -/

section Acquiring

variable {i : ℕ}

/-- What happened before task `i` was called happened on connections up to this generation. -/
def Bounded (i generation : ℕ) (g : Global sig) : Prop :=
  (∃ m ∈ g.history, m.shared.connection.generation = generation) ∧
    ∀ m ∈ before i g.history, m.shared.connection.generation ≤ generation

theorem enduring_bounded (generation : ℕ) : Enduring i (Bounded i generation) := by
  rintro g g' ⟨⟨m, hm, heq⟩, hle⟩ hq
  refine ⟨⟨m, hq.history.mem hm, heq⟩, ?_⟩
  rw [hq.before]
  exact hle

theorem before_step (i : ℕ) (g : Global sig) (s : State) :
    before i (g.step i s).history = before i g.history :=
  before_cons_of_not_isCall (Bool.and_false _)

theorem own_step {g : Global sig} {s : State} :
    own i (g.step i s).history = ⟨i, .stepped, s⟩ :: own i g.history :=
  own_cons

/-- A task that has only been called, if it is one that gets a connection. -/
def Called (who : ℕ → Option Acquisition) (i : ℕ) (g : Global sig) : Prop :=
  (who i).isSome = true → ∃ called, own i g.history = [called]

theorem steady_called : Steady i (Called who i) := by
  intro g g' h hr hwho
  rw [hr.own]
  exact h hwho

/-- The same after its first step, which left the shared state in `s`. -/
def Stepped (who : ℕ → Option Acquisition) (i : ℕ) (s : State) (g : Global sig) : Prop :=
  (who i).isSome = true → ∃ first called, own i g.history = [first, called] ∧ first.shared = s

theorem steady_stepped {s : State} : Steady i (Stepped who i s) := by
  intro g g' h hr hwho
  rw [hr.own]
  exact h hwho

theorem Called.step {g : Global sig} (h : Called who i g) (s : State) :
    Stepped who i s (g.step i s) := by
  intro hwho
  obtain ⟨called, hown⟩ := h hwho
  exact ⟨⟨i, .stepped, s⟩, called, by rw [own_step, hown], rfl⟩

theorem healthyConnection_spec (hwho : who i = none ∨ who i = some .healthyConnection) :
    (discipline config who initial).Triple i (Called who i) (healthyConnection config i)
      (Fine who initial i) fun _ _ => True := by
  refine Triple.bind (R := fun current g => Bounded i current.generation g ∧
    ∃ s, Stepped who i s g ∧ s.connection = current) (step_spec steady_called fun g hg hinv _ => ?_)
    fun current => ?_
  · refine ⟨(Aside.refl _).allowed, ⟨⟨_, List.mem_cons_self, rfl⟩, ?_⟩, _, hg.step _, rfl⟩
    rw [before_step]
    exact fun m hm => hinv.newest m (before_subset hm)
  have hsteady : Steady i fun g => Bounded i current.generation g ∧
      ∃ s, Stepped who i s g ∧ s.connection = current :=
    fun g g' ⟨hb, s, hs, hc⟩ hr =>
      ⟨(enduring_bounded _).steady g g' hb hr, s, steady_stepped g g' hs hr, hc⟩
  refine Triple.bind (R := fun failed g => Bounded i current.generation g ∧
    (failed ≠ current.generation → Fine who initial i current g))
    (step_spec hsteady fun g ⟨hb, s, hs, hc⟩ hinv _ => ⟨(Aside.refl _).allowed,
      (enduring_bounded _) _ _ hb (quiet_cons (by exact fun _ => nofun) (.refl _)),
      fun hne hsome horderly => ?_⟩) fun failed => ?_
  · -- In an orderly run the connection is still the one that the first step saw.
    obtain ⟨first, called, hown, rfl⟩ := hs hsome
    have htimely : Timely who ⟨i, .stepped, g.shared⟩ g.history := horderly.1.2.1
    rcases hwho with hwho | hwho
    · rw [hwho] at hsome
      cases hsome
    rw [Timely, hwho, hown] at htimely
    have hcurrent : g.shared.connection = current := htimely.trans hc
    subst hcurrent
    exact fine_of_not_marked (inv_look hinv) (fun _ => hne) hsome horderly
  · split
    · have hbounded := (enduring_bounded (i := i) current.generation).steady
      refine (reconnectAfter_spec hbounded hbounded _ (fun g hg => ?_)
        fun g hg hinv hne => ?_).pre_of (fun _ h => h.1)
      · refine ⟨?_, by rw [before_step]; exact hg.2⟩
        obtain ⟨m, hm, heq⟩ := hg.1
        exact ⟨m, List.mem_cons_of_mem _ hm, heq⟩
      refine Fine.past (fun _ _ m hm _ heq => ?_) ⟨List.suffix_cons _ _, before_step i g _⟩
      obtain ⟨m', hm', heq'⟩ := hg.1
      have := hinv.newest m' hm'
      exact absurd (hg.2 m hm) (by omega)
    · rename_i hne
      exact .pure fun g h => h.2 hne

theorem reconnectAfter_fine {failedGeneration : ℕ}
    (hwho : who i = none ∨ who i = some (.reconnectAfter failedGeneration)) :
    (discipline config who initial).Triple i (Called who i)
      (reconnectAfter config i failedGeneration) (Fine who initial i) fun _ _ => True := by
  have hmid : Steady i fun g => ∃ s, Stepped who i s g :=
    fun g g' ⟨s, hs⟩ hr => ⟨s, steady_stepped g g' hs hr⟩
  refine reconnectAfter_spec steady_called hmid failedGeneration (fun g hg => ⟨_, hg.step _⟩)
    fun g ⟨s, hs⟩ hinv hne hsome horderly => ?_
  obtain ⟨first, called, hown, -⟩ := hs hsome
  have htimely : Timely who ⟨i, .stepped, g.shared⟩ g.history := horderly.1.2.1
  rcases hwho with hwho | hwho
  · rw [hwho] at hsome
    cases hsome
  · rw [Timely, hwho, hown] at htimely
    exact fine_of_not_marked (inv_look hinv) (fun _ => htimely.resolve_left hne) hsome horderly

theorem acquiring_spec {acquisition : Acquisition} (hwho : who i = some acquisition)
    {op : RemoteCall} :
    (discipline config who initial).Triple i (Called who i) (acquiring config i acquisition op)
      (fun _ _ => True) fun _ _ => True := by
  have hslot : (discipline config who initial).Triple i (Called who i) (acquisition.slot config i)
      (Fine who initial i) fun _ _ => True := by
    cases acquisition with
    | healthyConnection => exact healthyConnection_spec (.inr hwho)
    | reconnectAfter => exact reconnectAfter_fine (.inr hwho)
  refine hslot.bind fun slot => ?_
  refine (ask_spec (q := .call slot op) (enduring_fine slot) fun _ _ hq => ?_).bind fun a => ?_
  · cases hq
    exact fun _ hg _ => hg
  · exact .ofExcept (fun _ _ _ _ => trivial) fun _ _ _ _ => trivial

end Acquiring

/-! ## The other tasks

Of what an operation does otherwise only that matters here which concerns the connection: it is got
in the two ways above, marked as failed, and left alone in every other step. -/

section Operations

inductive Routine (config : Config) (me : ℕ) : {α : Type} → M α → Prop
  | ofExcept {α : Type} (r : Except ClientError α) : Routine config me (Call.ofExcept r)
  | bind {α β : Type} {m : M β} {f : β → M α} (hm : Routine config me m)
      (hf : ∀ b, Routine config me (f b)) : Routine config me (m >>= f)
  | attempt {α : Type} {m : M α} (hm : Routine config me m) : Routine config me (Call.attempt m)
  | call (slot : ConnectionSlot) (op : RemoteCall) : Routine config me (call slot op)
  | access {α : Type} {ready : State → Bool} {update : State → State} {read : State → α}
      (h : ∀ s, Aside s (update s)) :
      Routine config me (Call.access ready update read)
  | acquire (acquisition : Acquisition) : Routine config me (acquisition.slot config me)

namespace Routine

variable {me : ℕ} {α : Type}

theorem pure (a : α) : Routine config me (Pure.pure a) := ofExcept (.ok a)

theorem throw (e : ClientError) : Routine config me (Call.throw e : M α) := ofExcept (.error e)

theorem healthy : Routine config me (healthyConnection config me) := acquire .healthyConnection

theorem reconnect (failedGeneration : ℕ) :
    Routine config me (reconnectAfter config me failedGeneration) :=
  acquire (.reconnectAfter failedGeneration)

theorem read {f : State → α} : Routine config me (Call.read f) := access Aside.refl

variable (generation : ℕ) (op : RemoteCall) (node : NodeId) (logical handle : FileHandle) {m : M α}
  (state : HandleState) (options : FileOpenOptions) (current : ConnectionSlot)

theorem markFailed : Routine config me (markFailed generation) :=
  access fun _ => ⟨rfl, rfl⟩

theorem withHandles {update : State → State} {read : State → α} (h : ∀ s, Aside s (update s)) :
    Routine config me (withHandles update read) :=
  access h

theorem holding {acquire release : M Unit} (ha : Routine config me acquire)
    (hm : Routine config me m) (hr : Routine config me release) :
    Routine config me (Call.holding acquire release m) :=
  bind ha fun _ => bind (attempt hm) fun _ => bind hr fun _ => ofExcept _

theorem locking (mutation : ℕ) (hm : Routine config me m) :
    Routine config me (locking mutation m) :=
  holding (access fun _ => ⟨rfl, rfl⟩) hm (access fun _ => ⟨rfl, rfl⟩)

theorem closed : Closed config me (Routine config me) :=
  ⟨ofExcept, bind, markFailed, healthy, reconnect⟩

theorem openRemote : Routine config me (openRemote config me node options) := by
  refine bind healthy fun slot => bind (call slot _) fun a => ?_
  split
  · exact pure _
  · split
    · exact bind (markFailed _) fun _ => throw _
    · exact bind (markFailed _) fun _ => bind (reconnect _) fun replacement =>
        bind (call replacement _) fun _ => bind (ofExcept _) fun _ => pure _
  · exact throw _

theorem rememberOpen (slot : ConnectionSlot) (opened : OpenedFile) :
    Routine config me (rememberOpen node options slot opened) :=
  bind (withHandles fun _ => ⟨rfl, rfl⟩) fun _ => pure _

theorem replayLocks (slot : ConnectionSlot) (remote : FileHandle) (locks : List FileLock) :
    Routine config me (replayLocks slot remote locks) := by
  induction locks with
  | nil => exact pure ()
  | cons _ _ ih => exact bind (call _ _) fun _ => bind (ofExcept _) fun _ => ih

theorem adoptReopened (reopened : OpenedFile) :
    Routine config me (adoptReopened logical state current reopened) := by
  rw [Resilient.adoptReopened]
  split
  · exact pure _
  split
  · exact bind (access fun _ => ⟨rfl, rfl⟩) fun _ => pure _
  · exact bind (call _ _) fun _ => throw _

theorem reopen : Routine config me (reopen logical state current) :=
  bind (call _ _) fun _ => bind (ofExcept _) fun _ => bind (adoptReopened _ _ _ _) fun _ =>
    bind (replayLocks _ _ _) fun _ => bind (access fun _ => ⟨rfl, rfl⟩) fun _ => pure _

theorem refreshHandle : Routine config me (refreshHandle config me logical) := by
  refine bind read fun entry => ?_
  split
  · exact throw _
  refine bind healthy fun current => ?_
  split
  · exact pure _
  · exact reopen _ _ _

theorem remoteHandle : Routine config me (remoteHandle config me logical) := by
  refine bind healthy fun slot => bind (withHandles Aside.refl) fun entry => ?_
  split
  · exact throw _
  split
  · exact pure _
  · exact holding (withHandles fun _ => ⟨rfl, rfl⟩) (refreshHandle _) (access fun _ => ⟨rfl, rfl⟩)

theorem updateHandle (f : HandleState → HandleState) :
    Routine config me (Resilient.withHandles (fun s => s.updateHandle logical f) fun _ => ()) :=
  withHandles fun _ => ⟨rfl, rfl⟩

theorem setAttributesOn (handle remote : Option FileHandle) (changes : AttributeChanges) :
    Routine config me (setAttributesOn config me node handle remote changes) := by
  refine bind (closed.mutationCall fun slot => call slot _) fun metadata => ?_
  cases handle with
  | none => exact pure _
  | some => exact bind (updateHandle _ _) fun _ => pure _

theorem setAttributes (handle : Option FileHandle) (changes : AttributeChanges) :
    Routine config me (setAttributes config me node handle changes) := by
  cases handle with
  | none => exact setAttributesOn node none none changes
  | some => exact bind (remoteHandle _) fun _ => locking _ (setAttributesOn _ _ _ _)

theorem writeThrough {invoke : ConnectionSlot → FileHandle → M (Except ClientError WriteResult)}
    (h : ∀ slot remote, Routine config me (invoke slot remote)) :
    Routine config me (writeThrough config me logical invoke) :=
  bind (remoteHandle _) fun _ => locking _ <| bind (h _ _) fun _ => bind (closed.settle _ _) fun _ =>
    bind (updateHandle _ _) fun _ => pure _

theorem flushThrough {invoke : ConnectionSlot → FileHandle → M (Except ClientError Unit)}
    (h : ∀ slot remote, Routine config me (invoke slot remote)) :
    Routine config me (flushThrough config me logical invoke) :=
  bind (remoteHandle _) fun _ => locking _ <| bind (h _ _) fun _ => closed.settle _ _

theorem copyFileRange (input : FileHandle) (inputOffset : ℕ) (output : FileHandle)
    (outputOffset length : ℕ) :
    Routine config me (copyFileRange config me input inputOffset output outputOffset length) := by
  refine bind (remoteHandle _) fun p => bind (remoteHandle _) fun q => ?_
  dsimp only
  split
  · exact throw _
  · exact locking _ <| bind (call _ _) fun _ => bind (closed.settle _ _) fun _ =>
      bind (updateHandle _ _) fun _ => pure _

theorem closedOnHandles : ClosedOnHandles config me (Routine config me) :=
  ⟨closed, remoteHandle, fun logical f _ => updateHandle logical f⟩

theorem closeFile : Routine config me (closeFile handle) := by
  refine bind (withHandles Aside.refl) fun entry => ?_
  split
  · exact throw _
  refine locking _ (bind (withHandles fun _ => ⟨rfl, rfl⟩) fun removed => ?_)
  split
  · exact throw _
  refine bind read fun slot => ?_
  split
  · exact pure _
  refine bind (call _ _) fun a => ?_
  split
  · exact markFailed _
  · exact ofExcept _

theorem openFileWithOptions : Routine config me (openFileWithOptions config me node options) :=
  bind (openRemote node options) fun _ => rememberOpen _ _ _ _

theorem createFile (parent : NodeId) (name : Name) (mode : ℕ) :
    Routine config me (createFile config me parent name mode options) :=
  bind healthy fun _ => bind (call _ _) fun _ => bind (closed.settle _ _) fun _ =>
    bind (rememberOpen _ _ _ _) fun _ => pure _

/-- All that operations do. -/
theorem operation : Routine config me (operation config me op) := by
  cases op with
  | openFileWithOptions node options => exact openFileWithOptions node options
  | createFile parent name mode options => exact createFile options parent name mode
  | setAttributes node handle changes => exact setAttributes node handle changes
  | readRangeVersioned handle =>
    exact closedOnHandles.readRangeVersioned handle fun slot _ => call slot _
  | writeRange handle | allocateFile handle =>
    rw [Resilient.operation]
    exact writeThrough handle fun slot _ => call slot _
  | flushFile handle | syncFile handle =>
    rw [Resilient.operation]
    exact flushThrough handle fun slot _ => call slot _
  | copyFileRange input inputOffset output outputOffset length =>
    exact copyFileRange input inputOffset output outputOffset length
  | seekFile handle | safeIoctl handle | getLock handle =>
    rw [Resilient.operation]
    exact closedOnHandles.safeHandleCall handle fun slot _ => call slot _
  | setLock handle => exact closedOnHandles.setLock handle fun slot _ => call slot _
  | closeFile handle => exact closeFile handle
  | createDirectory | createSymlink | createHardLink | createSpecialNode | removeNode | renameNode
  | syncDirectory | setXattr | removeXattr | exchangeData | setVolumeName =>
    exact closed.mutationCall fun slot => call slot _
  | _ => exact closed.safeCall fun slot => call slot _

/-- A task that is not one of those that only get a connection keeps the discipline. -/
theorem spec (h : Routine config me m) (hwho : who me = none) :
    (discipline config who initial).Triple me (fun _ => True) m (fun _ _ => True)
      fun _ _ => True := by
  have hcalled : ∀ g, True → Called who me g := fun g _ hsome => by rw [hwho] at hsome; cases hsome
  induction h with
  | ofExcept => exact .ofExcept (fun _ _ _ _ => trivial) fun _ _ _ _ => trivial
  | bind _ _ ihm ihf => exact ihm.bind ihf
  | attempt _ ih =>
    exact fun k g hg hk _ => ih (fun r => k (.ok r)) g hg (fun a g' _ => hk (.ok a) g' trivial)
      fun e g' _ => hk (.error e) g' trivial
  | call =>
    exact (ask_spec (fun _ _ h _ => h) fun _ _ _ g _ _ => fine_of_none hwho).post_of (fun _ _ _ => trivial)
  | access h => exact aside_spec (fun _ _ h _ => h) h
  | acquire acquisition =>
    cases acquisition with
    | healthyConnection =>
      exact (healthyConnection_spec (.inl hwho)).conseq hcalled (fun _ _ _ => trivial)
        fun _ _ h => h
    | reconnectAfter =>
      exact (reconnectAfter_fine (.inl hwho)).conseq hcalled (fun _ _ _ => trivial) fun _ _ h => h

end Routine

end Operations

/-! ## Runs -/

theorem admits (config : Config) (who : ℕ → Option Acquisition) (initial : State) :
    (discipline config who initial).Admits := by
  intro g op i hinv hfresh
  have hlog : ∀ e g', Inv config who initial g' → (∀ q, e ≠ .sent q) →
      (discipline config who initial).Guarantee i g' (g'.log i e) := fun e g' hinv' he =>
    guarantee hinv' (Aside.refl _).allowed fun _ => avoidsMarked_of_not_sent (by
      cases e <;> first | rfl | exact absurd rfl (he _))
  refine ⟨hlog _ g hinv fun _ => nofun, ?_⟩
  have hreturn : ∀ r g', (discipline config who initial).Stable i
      (fun g'' => (discipline config who initial).Guarantee i g'' (g''.log i (.returned r))) g' :=
    fun r g' g'' _ hinv' => hlog _ g'' hinv' fun _ => nofun
  dsimp only [watched]
  split
  · rename_i hwho
    exact ((Routine.operation op).spec hwho).safe_toTask trivial (fun _ g' _ => hreturn _ g')
      fun _ g' _ => hreturn _ g'
  rename_i acquisition hwho
  refine (acquiring_spec hwho).safe_toTask (fun _ => ⟨⟨i, .called op, g.shared⟩, ?_⟩)
    (fun _ g' _ => hreturn _ g') fun _ g' _ => hreturn _ g'
  exact own_cons.trans (by rw [own_eq_nil hfresh])

theorem inv_new (config : Config) (who : ℕ → Option Acquisition) (first : Connection) :
    Inv config who (State.new first) ⟨State.new first, (), []⟩ where
  current := rfl
  inRange := by
    change 1 ≤ u64Max
    decide
  newest _ hm := absurd hm List.not_mem_nil
  succession := trivial
  marks _ _ hm := absurd hm List.not_mem_nil
  avoids _ := trivial

theorem inv_run (config : Config) (who : ℕ → Option Acquisition) (first : Connection)
    (actions : List (Action sig)) :
    Inv config who (State.new first)
      (run (watched config who) (World.initial (State.new first) ()) actions).toGlobal :=
  Discipline.sound (admits config who (State.new first)) (inv_new config who first) actions

/-- **Connections follow one another in order.**  In every run, a connection is installed only by a
task that has been told that its epoch is that of the first connection, and only after the
connection it replaces was marked as failed; below the end of the counter its generation is the next
one, and no other installation replaces the same. -/
theorem connections_in_succession (config : Config) (first : Connection)
    (actions : List (Action sig)) :
    Throughout (Succession u64Max config (State.new first))
      (run (program config) (World.initial (State.new first) ()) actions).history :=
  (inv_run config (fun _ => none) first actions).succession

/-- **In an orderly run a failed connection is not given to anyone.**  Whoever asks for a
connection, in either way, after it has been marked as failed is not given it. -/
theorem marked_connection_not_given (config : Config) (who : ℕ → Option Acquisition)
    (first : Connection) (actions : List (Action sig))
    (horderly : Throughout (Orderly who (State.new first))
      (run (watched config who) (World.initial (State.new first) ()) actions).history) :
    Throughout (AvoidsMarked who)
      (run (watched config who) (World.initial (State.new first) ()) actions).history :=
  (inv_run config who first actions).avoids horderly

end Discipline

/-! ### Marks that get lost -/

section Marks

/-- A connector and connections that answer every call in one way. -/
def answers (reply : (op : RemoteCall) → op.Reply) : (q : Question) → q.Answer
  | .connect => .ok 1
  | .call _ op => reply op
  | .now => 0
  | .sleep _ => ()

/-- The connection is broken. -/
def broken : (q : Question) → q.Answer := answers fun _ => .error .transport

/-- The connection is up, to a server that knows nothing of what is asked. -/
def reachable : (q : Question) → q.Answer :=
  answers fun _ => .error (.server .notSupported "not supported")

/-- A client of such a server, which tries once to reconnect. -/
def plainConfig : Config := ⟨⟨1, 0, 0⟩, none⟩

/-- Two calls are sent on the first connection, which breaks.  The second of them replaces it, and
finds the replacement broken too; only then does the first one hear of the failure.  A third call
comes after all that. -/
def lateMark : List (Action sig) :=
  List.flatten [[.call (.ping 0)], resumes 0 3,
    [.call (.ping 1)], resumes 1 3, replies 1 broken, resumes 1 6, replies 1 reachable,
    resumes 1 1, replies 1 reachable, resumes 1 5, replies 1 broken, resumes 1 2,
    replies 0 broken, resumes 0 1,
    [.call (.ping 2)], resumes 2 3]

/-- The third of these calls gets a connection and uses it. -/
def third (i : ℕ) : Option Acquisition := if i = 2 then some .healthyConnection else none

/-- **A late mark hides a failure.**  The call that comes last is sent on the connection that was
marked as failed before it was made. -/
theorem late_mark_hides_failure :
    ¬ Throughout (AvoidsMarked third)
      (run (watched plainConfig third) (World.initial (State.new 0) ()) lateMark).history := by
  decide +kernel

/-- The connection breaks, and the next call replaces it. -/
def promptMark : List (Action sig) :=
  List.flatten [[.call (.ping 0)], resumes 0 3, replies 0 broken, resumes 0 1,
    [.call (.ping 1)], resumes 1 7, replies 1 reachable, resumes 1 1, replies 1 reachable,
    resumes 1 5]

def second (i : ℕ) : Option Acquisition := if i = 1 then some .healthyConnection else none

theorem prompt_mark_is_seen :
    (run (watched plainConfig second) (World.initial (State.new 0) ()) promptMark).history.head?.bind
        usedSlot = some ⟨2, 1⟩ ∧
      Throughout (AvoidsMarked second)
        (run (watched plainConfig second) (World.initial (State.new 0) ()) promptMark).history :=
  ⟨by decide +kernel, marked_connection_not_given plainConfig second 0 promptMark
    (by decide +kernel)⟩

end Marks

/-! ### The end of the counter -/

section Counter

deriving instance Inhabited for FilesystemCapabilities

/-- Connections that break after one call: how many there have been, and whether the last of them
has had its call. -/
def fleeting (e : ℕ × Bool) : (q : Question) → (ℕ × Bool) × q.Answer
  | .connect => ((e.1 + 1, false), .ok (e.1 + 1))
  | .call _ (.ping nonce) => if e.2 then (e, .error .transport) else ((e.1, true), .ok nonce)
  | .call _ .capabilities => (e, .ok default)
  | .call _ _ => (e, .error .transport)
  | .now => (e, 0)
  | .sleep _ => (e, ())

/-- A client that knows the epoch of its server, and tries once to reconnect. -/
def stallConfig : Config := ⟨⟨1, 0, 0⟩, some (default : FilesystemCapabilities).serverEpoch⟩

theorem answers_fleeting : Answers (program stallConfig) fleeting fun _ => () := by
  intro e q
  refine ⟨fun q => (fleeting e q).2, ?_⟩
  cases q with
  | call slot op =>
    have hne : (fleeting e (.call slot op)).2 ≠ .error .ambiguousMutation := by
      cases op <;> simp [fleeting]
      split <;> simp
    change Resilient.serve () (fun q => (fleeting e q).2) (.call slot op) = _
    rw [Resilient.serve]
    split
    · rename_i h
      exact absurd h hne
    · rfl
  | connect => rfl
  | now => rfl
  | sleep => rfl

/-- Nothing is under way, and the connection, which is known, will not serve another call. -/
structure Resting (c : Point sig (ℕ × Bool)) : Prop where
  used : c.env.2 = true
  free : c.shared.reconnect = none
  unmarked : c.shared.failedGeneration = 0
  noFailure : c.shared.lastFailure = none
  started : 0 < c.shared.connection.generation
  known : c.shared.connection.filesystem ≤ c.env.1

/-- One call, which finds the connection broken and replaces it. -/
theorem ping_wp {c : Point sig (ℕ × Bool)} (h : Resting c) {me : ℕ} :
    Call.Wp fleeting (safeCall stallConfig me (.ping 0)) c fun _ c' => Resting c' ∧
      c'.shared.connection = ⟨saturatingAdd c.shared.connection.generation 1, c.env.1 + 1⟩ := by
  obtain ⟨⟨⟨generation, filesystem⟩, failed, reconnect, lastFailure, handles, writer, mutations,
    next⟩, ⟨last, used⟩, tasks⟩ := c
  obtain ⟨hused, hfree, hunmarked, hnoFailure, hstarted, hknown⟩ := h
  dsimp only at hused hfree hunmarked hnoFailure hstarted hknown
  subst hused hfree hunmarked hnoFailure
  refine Call.Wp.bind (Call.Wp.bind_read (Call.Wp.bind_read ?_))
  rw [if_neg (by exact hstarted.ne)]
  refine Call.Wp.pure (Call.Wp.bind (Call.Wp.ask (Call.Wp.bind_modify ?_)))
  refine Call.Wp.bind (Call.Wp.holding (Call.Wp.access rfl ?_))
  refine Call.Wp.bind_read ?_
  rw [if_neg (by simp)]
  refine Call.Wp.bind_read ?_
  rw [if_neg (by simp)]
  refine Call.Wp.bind (Call.Wp.bind_read (Call.Wp.pure ?_))
  refine Call.Wp.bind (Call.Wp.ask ?_)
  refine Call.Wp.bind (Call.Wp.bind (Call.Wp.ask (Call.Wp.pure ?_)))
  dsimp only [fleeting]
  rw [if_neg (by simp [stallConfig])]
  refine Call.Wp.bind_modify (Call.Wp.bind_modify (Call.Wp.bind_modify (Call.Wp.pure ?_)))
  refine Call.Wp.modify (Call.Wp.bind (Call.Wp.ask (Call.Wp.ofExcept ?_)))
  refine ⟨⟨rfl, rfl, rfl, rfl, ?_, le_rfl⟩, rfl⟩
  exact lt_min (Nat.succ_pos _) (by decide)

/-- A world at rest goes on to one with the next connection. -/
theorem exists_next {w : World sig} {c : Point sig (ℕ × Bool)} (hat : w.At (fun _ => ()) c)
    (h : Resting c) :
    ∃ actions c', (run (program stallConfig) w actions).At (fun _ => ()) c' ∧ Resting c' ∧
      c'.shared.connection = ⟨saturatingAdd c.shared.connection.generation 1, c.env.1 + 1⟩ ∧
      w.history <:+ (run (program stallConfig) w actions).history := by
  have hresting : Resting { c with tasks := c.tasks + 1 } :=
    ⟨h.used, h.free, h.unmarked, h.noFailure, h.started, h.known⟩
  obtain ⟨r, c', heval, hc'⟩ := (ping_wp hresting).eval
    fun r => (⟨.ping 0, r⟩ : (op : RemoteCall) × op.Reply)
  have hcall : evalOp (program stallConfig) _ (.ping 0) c = some (⟨.ping 0, r⟩, c') := heval
  obtain ⟨actions, hend⟩ := evalOp_run answers_fleeting hcall hat
  exact ⟨actions, c', hend.at_end, hc'.1, hc'.2, hend.past⟩

/-- Every generation is reached. -/
theorem exists_generation (n : ℕ) :
    ∃ actions c, (run (program stallConfig) (World.initial (State.new 0) ()) actions).At
      (fun _ => ()) c ∧ Resting c ∧ c.shared.connection.generation = min (n + 1) u64Max := by
  induction n with
  | zero =>
    refine ⟨[], ⟨State.new 0, (0, true), 0⟩, ⟨rfl, rfl, rfl⟩, ⟨rfl, rfl, rfl, rfl, ?_, le_rfl⟩, ?_⟩
    · exact Nat.one_pos
    · change 1 = min 1 u64Max
      decide
  | succ n ih =>
    obtain ⟨actions, c, hat, hresting, hgeneration⟩ := ih
    obtain ⟨more, c', hat', hresting', hconnection, -⟩ := exists_next hat hresting
    refine ⟨actions ++ more, c', by rw [run_append]; exact hat', hresting', ?_⟩
    rw [hconnection, hgeneration]
    dsimp only [saturatingAdd]
    omega

/-- Along a succession without end a new connection has a greater generation. -/
theorem generation_lt_of_succession {limit : ℕ} {config : Config} {initial : State}
    {past history : List (Moment sig)} (hsuffix : past <:+ history)
    (h : Throughout (Succession limit config initial) history)
    (hlimit : ∀ history', history' <:+ history →
      (latest initial history').connection.generation < limit)
    (hne : (latest initial history).connection ≠ (latest initial past).connection) :
    (latest initial past).connection.generation <
      (latest initial history).connection.generation := by
  induction history with
  | nil =>
    rw [List.suffix_nil.1 hsuffix] at hne
    exact absurd rfl hne
  | cons m rest ih =>
    rcases List.suffix_cons_iff.1 hsuffix with rfl | hsuffix
    · exact absurd rfl hne
    have hrest := fun history' hs => hlimit history' (List.IsSuffix.trans hs (List.suffix_cons m _))
    by_cases hsame : m.shared.connection = (latest initial rest).connection
    · change _ < m.shared.connection.generation
      rw [hsame]
      refine ih hsuffix h.2 hrest ?_
      rw [← hsame]
      exact hne
    · have hnext := ((h.1 hsame).2.2 (hrest rest List.suffix_rfl)).1
      change _ < m.shared.connection.generation
      rw [hnext]
      by_cases hpast : (latest initial rest).connection = (latest initial past).connection
      · rw [hpast]
        exact Nat.lt_succ_self _
      · exact Nat.lt_succ_of_lt (ih hsuffix h.2 hrest hpast)

/-- **The counter of generations ends.**  A client that has replaced its connection often enough
goes on with connections that all have the same generation. -/
theorem generation_stalls :
    ∃ limit actions, ¬ Throughout (Succession limit stallConfig (State.new 0))
      (run (program stallConfig) (World.initial (State.new 0) ()) actions).history := by
  obtain ⟨actions, c, hat, hresting, hgeneration⟩ := exists_generation u64Max
  obtain ⟨more, c', hat', -, hconnection, hsuffix⟩ := exists_next hat hresting
  rw [← run_append] at hat' hsuffix
  refine ⟨u64Max + 1, actions ++ more, fun hthroughout => ?_⟩
  have hinv := inv_run stallConfig (fun _ => none) 0 actions
  have hinv' := inv_run stallConfig (fun _ => none) 0 (actions ++ more)
  change Inv _ _ _ (run (program stallConfig) _ actions).toGlobal at hinv
  change Inv _ _ _ (run (program stallConfig) _ (actions ++ more)).toGlobal at hinv'
  have hlt := generation_lt_of_succession hsuffix hthroughout (fun history' hs => ?_) ?_
  · rw [hinv.current, hinv'.current, hat.shared, hat'.shared, hconnection, hgeneration] at hlt
    dsimp only [saturatingAdd] at hlt
    omega
  · cases history' with
    | nil => exact Nat.lt_succ_of_le (by change 1 ≤ u64Max; decide)
    | cons m =>
      exact Nat.lt_succ_of_le ((hinv'.newest m (hs.mem List.mem_cons_self)).trans hinv'.inRange)
  · rw [hinv.current, hinv'.current, hat.shared, hat'.shared, hconnection]
    intro heq
    have := hresting.known
    rw [← heq] at this
    exact absurd this (Nat.not_succ_le_self _)

end Counter

end QuickFS.Resilient.Generations
