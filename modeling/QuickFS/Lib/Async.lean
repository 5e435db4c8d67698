import Mathlib.Data.List.Basic

/-!
# Concurrent calls on shared state

An asynchronous function is a `Task`: a tree whose nodes are the points at which it touches
something other tasks can see.

* `sync` — one atomic access to the shared state: a section run under a lock, or a single load or
  store.  It may have to wait (`ready`), which is how taking a lock is written.
* `ask` — an `await` on the outside: a question is sent, some time later the environment deals with
  it, and some time later again the answer arrives.
* `spawn` — start another task and go on.
* `done` — the call returns.

Between two nodes anything may happen.  `perform` is one step of one task, chosen by the scheduler,
or one move of the environment; a *run* is a list of such actions, and every interleaving is a run.
A `World` remembers the whole past (`history`): each event with the task it belongs to and the
shared state it left behind, so that a property of a run is a property of its last world.

`Discipline.sound` is the rely–guarantee rule.  A discipline names an invariant of the global state
and, for each task, what the steps of the others may do to it.  `Safe` is the verification condition
of a task, by recursion over the tree; if every call is safe, the invariant holds in every world a
run can reach.
-/

namespace Async

/-! ## Tasks -/

/-- What a concurrent program is about: the state its calls share, the state of its environment and
the choices that environment has, the questions calls ask and the answers to them, the results they
return, and the operations that can be called. -/
structure Sig where
  Shared : Type
  Env : Type
  Choice : Type
  Question : Type
  Answer : Question → Type
  Result : Type
  Op : Type

variable {S : Sig}

inductive Task (S : Sig) : Type
  | done (result : S.Result)
  | sync (ready : S.Shared → Bool) (update : S.Shared → S.Shared) (next : S.Shared → Task S)
  | ask (q : S.Question) (next : S.Answer q → Task S)
  | spawn (child : ℕ → Task S) (next : Task S)

/-- A program: the task of each operation, given its own number, and how the environment deals with
a question. -/
structure Program (S : Sig) where
  code : S.Op → ℕ → Task S
  serve : S.Env → S.Choice → (q : S.Question) → Option (S.Env × S.Answer q)

inductive Event (S : Sig) : Type
  | called (op : S.Op)
  | stepped
  | sent (q : S.Question)
  | served (q : S.Question) (a : S.Answer q)
  | answered (q : S.Question) (a : S.Answer q)
  | spawned
  | returned (result : S.Result)

/-- An event, the task it is an event of, and the shared state after it. -/
structure Moment (S : Sig) where
  task : ℕ
  event : Event S
  shared : S.Shared

/-- Everything tasks can depend on, with the past; the latest moment comes first. -/
structure Global (S : Sig) where
  shared : S.Shared
  env : S.Env
  history : List (Moment S)

namespace Global

/-- Task `i` has an event that leaves the shared state as it is. -/
def log (g : Global S) (i : ℕ) (e : Event S) : Global S :=
  { g with history := ⟨i, e, g.shared⟩ :: g.history }

/-- Task `i` has changed the shared state to `s`. -/
def step (g : Global S) (i : ℕ) (s : S.Shared) : Global S :=
  { g with shared := s, history := ⟨i, .stepped, s⟩ :: g.history }

/-- The environment has dealt with the question of task `i`. -/
def serve (g : Global S) (i : ℕ) (env : S.Env) (q : S.Question) (a : S.Answer q) : Global S :=
  { g with env := env, history := ⟨i, .served q a, g.shared⟩ :: g.history }

/-- No event of task `i` has happened yet. -/
def Fresh (g : Global S) (i : ℕ) : Prop := ∀ m ∈ g.history, m.task ≠ i

end Global

/-! ## Runs -/

/-- Where a task is: about to take its next step, with a question under way, with an answer under
way, or at its end. -/
inductive Entry (S : Sig) : Type
  | running (t : Task S)
  | waiting (q : S.Question) (next : S.Answer q → Task S)
  | arriving (q : S.Question) (a : S.Answer q) (next : S.Answer q → Task S)
  | finished

structure World (S : Sig) extends Global S where
  pool : List (Entry S)

/-- The world before the first call. -/
def World.initial (shared : S.Shared) (env : S.Env) : World S := ⟨⟨shared, env, []⟩, []⟩

inductive Action (S : Sig) : Type
  | call (op : S.Op)
  | resume (task : ℕ)
  | serve (task : ℕ) (choice : S.Choice)
  | deliver (task : ℕ)

section Runs

variable (P : Program S)

/-- One step of the task `t` at position `i` of the pool, when it need not wait. -/
def World.resume (w : World S) (i : ℕ) : Task S → Option (World S)
  | .done r => some ⟨w.toGlobal.log i (.returned r), w.pool.set i .finished⟩
  | .sync ready update next =>
    if ready w.shared then
      some ⟨w.toGlobal.step i (update w.shared), w.pool.set i (.running (next w.shared))⟩
    else none
  | .ask q next => some ⟨w.toGlobal.log i (.sent q), w.pool.set i (.waiting q next)⟩
  | .spawn child next =>
    some ⟨w.toGlobal.log i .spawned,
      w.pool.set i (.running next) ++ [.running (child w.pool.length)]⟩

/-- One action of the scheduler or of the environment, when it is possible. -/
def perform (w : World S) : Action S → Option (World S)
  | .call op =>
    some ⟨w.toGlobal.log w.pool.length (.called op), w.pool ++ [.running (P.code op w.pool.length)]⟩
  | .resume i =>
    match w.pool[i]? with
    | some (.running t) => w.resume i t
    | _ => none
  | .serve i choice =>
    match w.pool[i]? with
    | some (.waiting q next) =>
      match P.serve w.env choice q with
      | some (env, a) => some ⟨w.toGlobal.serve i env q a, w.pool.set i (.arriving q a next)⟩
      | none => none
    | _ => none
  | .deliver i =>
    match w.pool[i]? with
    | some (.arriving q a next) =>
      some ⟨w.toGlobal.log i (.answered q a), w.pool.set i (.running (next a))⟩
    | _ => none

/-- A run: the actions, in order.  An action that is not possible when its turn comes does nothing.
-/
def run : World S → List (Action S) → World S
  | w, [] => w
  | w, action :: rest => run ((perform P w action).getD w) rest

/-- Task `i` takes `n` steps. -/
def resumes (i n : ℕ) : List (Action S) := List.replicate n (.resume i)

/-- The question of task `i` is dealt with, and the answer arrives. -/
def replies (i : ℕ) (choice : S.Choice) : List (Action S) := [.serve i choice, .deliver i]

variable {P}

/-- Every action adds one moment to the past; that of a call says so. -/
theorem perform_history {w w' : World S} {action : Action S} (h : perform P w action = some w') :
    ∃ m, w'.history = m :: w.history ∧
      ∀ op, action = .call op → m.task = w.pool.length ∧ m.event = .called op := by
  cases action with
  | call =>
    cases h
    exact ⟨_, rfl, fun _ hop => by cases hop; exact ⟨rfl, rfl⟩⟩
  | resume =>
    simp only [perform] at h
    split at h
    · rename_i t _
      cases t with
      | sync =>
        rw [World.resume] at h
        split at h
        · cases h
          exact ⟨_, rfl, nofun⟩
        · cases h
      | _ =>
        cases h
        exact ⟨_, rfl, nofun⟩
    · cases h
  | serve =>
    simp only [perform] at h
    split at h
    · split at h
      · cases h
        exact ⟨_, rfl, nofun⟩
      · cases h
    · cases h
  | deliver =>
    simp only [perform] at h
    split at h
    · cases h
      exact ⟨_, rfl, nofun⟩
    · cases h

/-- What one action preserves, every run preserves. -/
theorem run_invariant {I : World S → Prop}
    (hstep : ∀ w action w', I w → perform P w action = some w' → I w') {w : World S} (hw : I w)
    (actions : List (Action S)) : I (run P w actions) := by
  induction actions generalizing w with
  | nil => exact hw
  | cons action _ ih =>
    rw [run]
    cases hv : perform P w action with
    | none => exact ih hw
    | some v => exact ih (hstep w action v hw hv)

end Runs

/-! ## The past -/

/-- The events of task `i` that `keep` keeps, the latest first. -/
def trace (keep : Event S → Bool) (i : ℕ) (history : List (Moment S)) : List (Event S) :=
  (history.filter fun m => decide (m.task = i) && keep m.event).map Moment.event

section Trace

variable {keep : Event S → Bool} {i : ℕ} {m : Moment S} {history : List (Moment S)}

theorem trace_cons_of_ne (h : m.task ≠ i) : trace keep i (m :: history) = trace keep i history := by
  simp [trace, h]

theorem trace_cons_of_not_keep (h : keep m.event = false) :
    trace keep i (m :: history) = trace keep i history := by
  simp [trace, h]

theorem trace_log_of_keep {g : Global S} {e : Event S} (h : keep e = true) :
    trace keep i (g.log i e).history = e :: trace keep i g.history :=
  by simp [trace, Global.log, h]

variable (keep) in
theorem event_mem_trace (hm : m ∈ history) (h : keep m.event = true) :
    m.event ∈ trace keep m.task history := by
  refine List.mem_map.2 ⟨m, List.mem_filter.2 ⟨hm, ?_⟩, rfl⟩
  simp [h]

theorem exists_of_mem_trace {e : Event S} (h : e ∈ trace keep i history) :
    ∃ m ∈ history, m.task = i ∧ m.event = e := by
  obtain ⟨m, hm, he⟩ := List.mem_map.1 h
  obtain ⟨hm, hkeep⟩ := List.mem_filter.1 hm
  rw [Bool.and_eq_true, decide_eq_true_eq] at hkeep
  exact ⟨m, hm, hkeep.1, he⟩

theorem trace_eq_nil (h : ∀ m ∈ history, m.task ≠ i) : trace keep i history = [] := by
  rw [trace, List.map_eq_nil_iff, List.filter_eq_nil_iff]
  intro m hm
  simp [h m hm]

end Trace

/-- `Q` holds of every moment and of those before it. -/
def Throughout (Q : Moment S → List (Moment S) → Prop) : List (Moment S) → Prop
  | [] => True
  | m :: past => Q m past ∧ Throughout Q past

instance instDecidableThroughout {Q : Moment S → List (Moment S) → Prop}
    [∀ m past, Decidable (Q m past)] :
    (history : List (Moment S)) → Decidable (Throughout Q history)
  | [] => .isTrue trivial
  | m :: past =>
    have : Decidable (Throughout Q past) := instDecidableThroughout past
    inferInstanceAs (Decidable (Q m past ∧ Throughout Q past))

variable {Q : Moment S → List (Moment S) → Prop} {history : List (Moment S)}

theorem throughout_iff :
    Throughout Q history ↔ ∀ later m past, history = later ++ m :: past → Q m past := by
  induction history with
  | nil => simp [Throughout]
  | cons m past ih =>
    rw [Throughout, ih]
    refine ⟨fun ⟨hm, hpast⟩ later m' past' h => ?_, fun h => ⟨h [] m past rfl, fun later m' past' h' =>
      h (m :: later) m' past' (by rw [h']; rfl)⟩⟩
    cases later with
    | nil => cases h; exact hm
    | cons _ later => cases h; exact hpast later m' past' rfl

theorem Throughout.imp {Q' : Moment S → List (Moment S) → Prop} (h : Throughout Q history)
    (himp : ∀ m past, Q m past → Q' m past) : Throughout Q' history := by
  induction history with
  | nil => trivial
  | cons m past ih => exact ⟨himp m past h.1, ih h.2⟩

/-- Of two moments one comes first, and the later one knows it. -/
theorem Throughout.compare (h : Throughout Q history) {m m' : Moment S} (hm : m ∈ history)
    (hm' : m' ∈ history) :
    m = m' ∨ (∃ past, past <:+ history ∧ m' ∈ past ∧ Q m past) ∨
      ∃ past, past <:+ history ∧ m ∈ past ∧ Q m' past := by
  induction history with
  | nil => cases hm
  | cons _ past ih =>
    rcases List.mem_cons.1 hm with rfl | hp <;> rcases List.mem_cons.1 hm' with rfl | hp'
    · exact .inl rfl
    · exact .inr (.inl ⟨past, List.suffix_cons _ _, hp', h.1⟩)
    · exact .inr (.inr ⟨past, List.suffix_cons _ _, hp, h.1⟩)
    rcases ih h.2 hp hp' with heq | ⟨past', hs, hmem, hq⟩ | ⟨past', hs, hmem, hq⟩
    · exact .inl heq
    · exact .inr (.inl ⟨past', hs.trans (List.suffix_cons _ _), hmem, hq⟩)
    · exact .inr (.inr ⟨past', hs.trans (List.suffix_cons _ _), hmem, hq⟩)

/-! ## Rely and guarantee -/

/-- An invariant, and what task `i` may count on while other tasks and the environment move. -/
structure Discipline (P : Program S) where
  inv : Global S → Prop
  rely : ℕ → Global S → Global S → Prop
  rely_refl : ∀ i g, rely i g g
  rely_trans : ∀ i g₁ g₂ g₃, rely i g₁ g₂ → rely i g₂ g₃ → rely i g₁ g₃

namespace Discipline

variable {P : Program S} (D : Discipline P)

/-- A step of task `i` that keeps the invariant and what the others count on. -/
def Guarantee (i : ℕ) (g g' : Global S) : Prop := D.inv g' ∧ ∀ j, j ≠ i → D.rely j g g'

/-- `K` holds now and whatever the others do. -/
def Stable (i : ℕ) (K : Global S → Prop) (g : Global S) : Prop :=
  ∀ g', D.rely i g g' → D.inv g' → K g'

/-- Once `K` holds it goes on to hold, whatever the others do. -/
def Lasting (i : ℕ) (K : Global S → Prop) : Prop :=
  ∀ g g', K g → D.rely i g g' → D.inv g' → K g'

/-- An answer is under way to task `i`, which goes on as `K` says. -/
def SafeArriving (i : ℕ) (q : S.Question) (a : S.Answer q) (K : Global S → Prop) :
    Global S → Prop :=
  D.Stable i fun g =>
    D.Guarantee i g (g.log i (.answered q a)) ∧ K (g.log i (.answered q a))

/-- A question of task `i` is under way. -/
def SafeWaiting (i : ℕ) (q : S.Question) (K : S.Answer q → Global S → Prop) : Global S → Prop :=
  D.Stable i fun g => ∀ choice env a, P.serve g.env choice q = some (env, a) →
    D.Guarantee i g (g.serve i env q a) ∧ D.SafeArriving i q a (K a) (g.serve i env q a)

/-- The verification condition of a task: whatever the others have done in between, each of its
steps keeps the guarantee. -/
def Safe (i : ℕ) : Task S → Global S → Prop
  | .done r => D.Stable i fun g => D.Guarantee i g (g.log i (.returned r))
  | .sync ready update next => D.Stable i fun g => ready g.shared = true →
      D.Guarantee i g (g.step i (update g.shared)) ∧
        Safe i (next g.shared) (g.step i (update g.shared))
  | .ask q next => D.Stable i fun g =>
      D.Guarantee i g (g.log i (.sent q)) ∧
        D.SafeWaiting i q (fun a => Safe i (next a)) (g.log i (.sent q))
  | .spawn child next => D.Stable i fun g =>
      D.Guarantee i g (g.log i .spawned) ∧ Safe i next (g.log i .spawned) ∧
        ∀ j, (g.log i .spawned).Fresh j → Safe j (child j) (g.log i .spawned)

/-- The same for an entry of the pool. -/
def SafeEntry (i : ℕ) : Entry S → Global S → Prop
  | .running t => D.Safe i t
  | .waiting q next => D.SafeWaiting i q fun a => D.Safe i (next a)
  | .arriving q a next => D.SafeArriving i q a (D.Safe i (next a))
  | .finished => fun _ => True

variable {D}

variable {i : ℕ} {K : Global S → Prop} {g g' : Global S} {e : Entry S} {w : World S}
  {shared : S.Shared} {env : S.Env}

theorem Stable.mono (h : D.Stable i K g) (hr : D.rely i g g') : D.Stable i K g' :=
  fun g'' hr' => h g'' (D.rely_trans _ _ _ _ hr hr')

theorem Stable.here (h : D.Stable i K g) (hg : D.inv g) : K g :=
  h g (D.rely_refl _ _) hg

theorem Lasting.and {K' : Global S → Prop} (h : D.Lasting i K) (h' : D.Lasting i K') :
    D.Lasting i fun g => K g ∧ K' g :=
  fun g g' hg hr hinv => ⟨h g g' hg.1 hr hinv, h' g g' hg.2 hr hinv⟩

theorem Safe.mono {t : Task S} (h : D.Safe i t g) (hr : D.rely i g g') : D.Safe i t g' := by
  cases t <;> exact Stable.mono h hr

theorem SafeEntry.mono (h : D.SafeEntry i e g) (hr : D.rely i g g') : D.SafeEntry i e g' := by
  cases e with
  | running => exact Safe.mono h hr
  | waiting | arriving => exact Stable.mono h hr
  | finished => trivial

variable (D)

/-- The invariant of the whole pool: the discipline's own, every task safe, and no event of a task
that does not exist. -/
structure Holds (w : World S) : Prop where
  inv : D.inv w.toGlobal
  safe : ∀ i e, w.pool[i]? = some e → D.SafeEntry i e w.toGlobal
  known : ∀ m ∈ w.history, m.task < w.pool.length

variable {D}

theorem Holds.fresh (h : D.Holds w) : w.toGlobal.Fresh w.pool.length :=
  fun m hm => Nat.ne_of_lt (h.known m hm)

/-- Task `i` of the pool has moved on to `e`, keeping the guarantee. -/
theorem Holds.set (h : D.Holds w) (hi : i < w.pool.length) (hg : D.Guarantee i w.toGlobal g)
    (he : D.SafeEntry i e g) (hh : ∃ ev s, g.history = ⟨i, ev, s⟩ :: w.history) :
    D.Holds ⟨g, w.pool.set i e⟩ := by
  obtain ⟨ev, s, hh⟩ := hh
  refine ⟨hg.1, fun j e' hj => ?_, fun m hm => ?_⟩
  · rcases eq_or_ne i j with rfl | hij
    · rw [List.getElem?_set_self hi, Option.some_inj] at hj
      exact hj ▸ he
    · rw [List.getElem?_set_ne hij] at hj
      exact (h.safe j e' hj).mono (hg.2 j hij.symm)
  · rw [List.length_set]
    rw [hh] at hm
    rcases List.mem_cons.1 hm with rfl | hm
    · exact hi
    · exact h.known m hm

/-- A safe task has joined the pool. -/
theorem Holds.concat (h : D.Holds w) (he : D.SafeEntry w.pool.length e w.toGlobal) :
    D.Holds ⟨w.toGlobal, w.pool ++ [e]⟩ := by
  refine ⟨h.inv, fun j e' hj => ?_, fun m hm => ?_⟩
  · rcases Nat.lt_trichotomy j w.pool.length with hlt | rfl | hgt
    · rw [List.getElem?_append_left hlt] at hj
      exact h.safe j e' hj
    · rw [List.getElem?_concat_length, Option.some_inj] at hj
      exact hj ▸ he
    · rw [List.getElem?_eq_none (by rw [List.length_append, List.length_singleton]; omega)] at hj
      cases hj
  · rw [List.length_append, List.length_singleton]
    exact Nat.lt_succ_of_lt (h.known m hm)

theorem Holds.resume {w' : World S} (h : D.Holds w) {t : Task S}
    (hi : w.pool[i]? = some (.running t)) (hw : w.resume i t = some w') : D.Holds w' := by
  have hlt : i < w.pool.length := (List.getElem?_eq_some_iff.1 hi).1
  have hsafe : D.Safe i t w.toGlobal := h.safe i _ hi
  cases t with
  | done =>
    rw [World.resume, Option.some_inj] at hw
    exact hw ▸ h.set hlt (hsafe _ (D.rely_refl _ _) h.inv) trivial ⟨_, _, rfl⟩
  | sync =>
    rw [World.resume] at hw
    split at hw
    · rename_i hready
      rw [Option.some_inj] at hw
      obtain ⟨hg, hnext⟩ := Stable.here hsafe h.inv hready
      exact hw ▸ h.set hlt hg hnext ⟨_, _, rfl⟩
    · cases hw
  | ask =>
    rw [World.resume, Option.some_inj] at hw
    obtain ⟨hg, hnext⟩ := Stable.here hsafe h.inv
    exact hw ▸ h.set hlt hg hnext ⟨_, _, rfl⟩
  | spawn _ next =>
    rw [World.resume, Option.some_inj] at hw
    obtain ⟨hg, hnext, hchild⟩ := Stable.here hsafe h.inv
    have hset := h.set (e := .running next) hlt hg hnext ⟨_, _, rfl⟩
    have hfresh := hset.fresh
    rw [List.length_set] at hfresh
    subst hw
    refine hset.concat ?_
    rw [List.length_set]
    exact hchild _ hfresh

/-- What has to be shown of a call: it is safe from the moment it is logged. -/
def SafeCall (D : Discipline P) (g : Global S) (op : S.Op) (i : ℕ) : Prop :=
  D.Guarantee i g (g.log i (.called op)) ∧ D.Safe i (P.code op i) (g.log i (.called op))

/-- The calls that `C` speaks of are safe. -/
def AdmitsWhen (D : Discipline P) (C : ℕ → S.Op → Prop) : Prop :=
  ∀ g op i, C i op → D.inv g → g.Fresh i → D.SafeCall g op i

/-- Every call is safe. -/
def Admits (D : Discipline P) : Prop :=
  ∀ g op i, D.inv g → g.Fresh i →
    D.Guarantee i g (g.log i (.called op)) ∧ D.Safe i (P.code op i) (g.log i (.called op))

theorem Holds.call (h : D.Holds w) {op : S.Op} (hcall : D.SafeCall w.toGlobal op w.pool.length) :
    D.Holds ⟨w.toGlobal.log w.pool.length (.called op),
      w.pool ++ [.running (P.code op w.pool.length)]⟩ := by
  obtain ⟨hg, hsafe⟩ := hcall
  have hpool := h.concat (e := .finished) trivial
  have hlt : w.pool.length < (w.pool ++ [Entry.finished]).length := by
    rw [List.length_append, List.length_singleton]
    exact Nat.lt_succ_self _
  have hset : D.Holds ⟨w.toGlobal.log w.pool.length (.called op),
      (w.pool ++ [Entry.finished]).set w.pool.length (.running (P.code op w.pool.length))⟩ :=
    hpool.set (e := .running _) hlt hg hsafe ⟨_, _, rfl⟩
  rwa [List.set_append_right _ _ (Nat.le_refl _), Nat.sub_self, List.set_cons_zero] at hset

/-- One action keeps the invariant of the pool. -/
theorem Holds.perform {w' : World S} (h : D.Holds w) {action : Action S}
    (hcall : ∀ op, action = .call op → D.SafeCall w.toGlobal op w.pool.length)
    (hw : Async.perform P w action = some w') : D.Holds w' := by
  cases action with
  | call op =>
    rw [Async.perform, Option.some_inj] at hw
    exact hw ▸ h.call (hcall op rfl)
  | resume =>
    simp only [Async.perform] at hw
    split at hw
    · rename_i t hi
      exact h.resume hi hw
    · cases hw
  | serve i choice =>
    simp only [Async.perform] at hw
    split at hw
    · rename_i q next hi
      split at hw
      · rename_i env a ha
        rw [Option.some_inj] at hw
        obtain ⟨hg, hnext⟩ := Stable.here (h.safe i _ hi) h.inv choice env a ha
        exact hw ▸ h.set (List.getElem?_eq_some_iff.1 hi).1 hg hnext ⟨_, _, rfl⟩
      · cases hw
    · cases hw
  | deliver i =>
    simp only [Async.perform] at hw
    split at hw
    · rename_i q a next hi
      rw [Option.some_inj] at hw
      obtain ⟨hg, hnext⟩ := Stable.here (h.safe i _ hi) h.inv
      exact hw ▸ h.set (List.getElem?_eq_some_iff.1 hi).1 hg hnext ⟨_, _, rfl⟩
    · cases hw

theorem holds_initial (hinit : D.inv ⟨shared, env, []⟩) : D.Holds (World.initial shared env) :=
  ⟨hinit, fun _ _ h => by simp [World.initial] at h, fun _ h => by simp [World.initial] at h⟩

/-- **The rely–guarantee rule**, for runs in which only calls are made that `C` speaks of. -/
theorem sound_when {C : ℕ → S.Op → Prop} (hcode : D.AdmitsWhen C)
    (hinit : D.inv ⟨shared, env, []⟩) (actions : List (Action S))
    (hcalls : ∀ m ∈ (run P (World.initial shared env) actions).history, ∀ op,
      m.event = .called op → C m.task op) :
    D.inv (run P (World.initial shared env) actions).toGlobal := by
  refine (run_invariant (I := fun w => (∀ m ∈ w.history, ∀ op, m.event = .called op →
    C m.task op) → D.Holds w) (fun w action w' hw hstep hcalls => ?_)
    (fun _ => holds_initial hinit) actions hcalls).inv
  obtain ⟨m, hm, hcalled⟩ := perform_history hstep
  rw [hm] at hcalls
  have hw := hw fun m' hm' => hcalls m' (List.mem_cons_of_mem _ hm')
  refine hw.perform (fun op hop => ?_) hstep
  obtain ⟨htask, hevent⟩ := hcalled op hop
  exact hcode _ op _ (htask ▸ hcalls m List.mem_cons_self op hevent) hw.inv hw.fresh

/-- **The rely–guarantee rule.**  If the invariant holds at the start and every call is safe, the
invariant holds after every run. -/
theorem sound (hcode : D.Admits) (hinit : D.inv ⟨shared, env, []⟩) (actions : List (Action S)) :
    D.inv (run P (World.initial shared env) actions).toGlobal :=
  sound_when (C := fun _ _ => True) (fun g op i _ => hcode g op i) hinit actions
    fun _ _ _ _ => trivial

end Discipline

end Async
