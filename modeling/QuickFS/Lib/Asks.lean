import QuickFS.Lib.Sequential
import Mathlib.Data.List.Induction

/-!
# What a program asks

A bound on the questions of a program, whatever the schedule.  `Task.Asks T R t` says that every
step of `t` leaves a good state good, that every question of `t` is allowed, and that it ends in a
result that satisfies `R`, as long as the answers are fair; it is by recursion over the task.
`Call.Asks` is the same for a call, with what the value or the error it ends in satisfies.

The states of other tasks do not enter: they are good, and that is all a task counts on.  So the
rule for runs is simple.  `Asks.run_sound` says that if every operation that is called asks what is
allowed, then every state of the run is good and every question that was sent is allowed; and
whatever the environment keeps while it deals with allowed questions, it has kept at the end.
`Asks.eval_sound` is the rule for a task that runs alone.
-/

namespace Async

variable {S : Sig} {ε α β : Type}

/-- What may be asked, what may be answered, and what the shared state satisfies meanwhile. -/
structure Terms (S : Sig) where
  good : S.Shared → Prop
  fair : (q : S.Question) → S.Answer q → Prop
  allowed : S.Question → Prop

/-- The task keeps to the terms, and a result it ends in satisfies `R`. -/
def Task.Asks (T : Terms S) (R : S.Result → Prop) : Task S → Prop
  | .done r => R r
  | .sync ready update next =>
    ∀ s, T.good s → ready s = true → T.good (update s) ∧ (next s).Asks T R
  | .ask q next => T.allowed q ∧ ∀ a, T.fair q a → (next a).Asks T R
  | .spawn child next => (∀ j, (child j).Asks T fun _ => True) ∧ next.Asks T R

/-- The call keeps to the terms; a value it ends in satisfies `post`, and an error `fail`. -/
def Call.Asks (T : Terms S) (m : Call S ε α) (post : α → Prop) (fail : ε → Prop) : Prop :=
  ∀ R k, (∀ a, post a → (k (.ok a)).Asks T R) → (∀ e, fail e → (k (.error e)).Asks T R) →
    (m k).Asks T R

/-! ## Rules -/

namespace Call
namespace Asks

variable {T : Terms S} {post post' : α → Prop} {fail fail' : ε → Prop}

variable {m : Call S ε α} {f : β → Call S ε α} {B : β → Prop}

theorem conseq (h : m.Asks T post fail) (hpost : ∀ a, post a → post' a)
    (hfail : ∀ e, fail e → fail' e) : m.Asks T post' fail' :=
  fun R k hk he => h R k (fun a ha => hk a (hpost a ha)) fun e h' => he e (hfail e h')

/-- Whatever the value. -/
theorem any (h : m.Asks T post fail) : m.Asks T (fun _ => True) fail :=
  h.conseq (fun _ _ => trivial) fun _ h => h

theorem pure {a : α} (h : post a) : (Pure.pure a : Call S ε α).Asks T post fail :=
  fun _ _ hk _ => hk a h

theorem throw {e : ε} (h : fail e) : (Call.throw e : Call S ε α).Asks T post fail :=
  fun _ _ _ he => he e h

theorem ofExcept {r : Except ε α} (hok : ∀ a, r = .ok a → post a)
    (herr : ∀ e, r = .error e → fail e) : (Call.ofExcept r : Call S ε α).Asks T post fail := by
  intro R k hk he
  cases r with
  | ok a => exact hk a (hok a rfl)
  | error e => exact he e (herr e rfl)

theorem bind {m : Call S ε β} (hm : m.Asks T B fail) (hf : ∀ b, B b → (f b).Asks T post fail) :
    (m >>= f).Asks T post fail :=
  fun R k hk he => hm R _ (fun b hb => hf b hb R k hk he) he

/-- Two calls, the first of which is called for what it does. -/
theorem seq {m : Call S ε β} (hm : m.Asks T B fail) (hf : ∀ b, (f b).Asks T post fail) :
    (m >>= f).Asks T post fail :=
  hm.bind fun b _ => hf b

/-- The outcome of a call: a value or an error. -/
theorem attempt (h : m.Asks T post fail) :
    (Call.attempt m).Asks T (fun r => (∀ a, r = .ok a → post a) ∧ ∀ e, r = .error e → fail e)
      fail' := by
  intro R k hk _
  refine h R _ (fun a ha => hk _ ⟨fun b hb => ?_, nofun⟩) fun e he => hk _ ⟨nofun, fun e' h' => ?_⟩
  · cases hb
    exact ha
  · cases h'
    exact he

theorem access {ready : S.Shared → Bool} {update : S.Shared → S.Shared} {read : S.Shared → α}
    (h : ∀ s, T.good s → T.good (update s) ∧ post (read s)) :
    (Call.access ready update read : Call S ε α).Asks T post fail :=
  fun _ _ hk _ s hs _ => ⟨(h s hs).1, hk _ (h s hs).2⟩

theorem read {f : S.Shared → α} (h : ∀ s, T.good s → post (f s)) :
    (Call.read f : Call S ε α).Asks T post fail :=
  access fun s hs => ⟨hs, h s hs⟩

theorem modify {f : S.Shared → S.Shared} (h : ∀ s, T.good s → T.good (f s)) :
    (Call.modify f : Call S ε Unit).Asks T (fun _ => True) fail :=
  access fun s hs => ⟨h s hs, trivial⟩

theorem ask {q : S.Question} {post : S.Answer q → Prop} (hq : T.allowed q)
    (h : ∀ a, T.fair q a → post a) : (Call.ask q : Call S ε (S.Answer q)).Asks T post fail :=
  fun _ _ hk _ => ⟨hq, fun a ha => hk a (h a ha)⟩

theorem toTask {result : Except ε α → S.Result} {R : S.Result → Prop} (h : m.Asks T post fail)
    (hok : ∀ a, post a → R (result (.ok a))) (herr : ∀ e, fail e → R (result (.error e))) :
    (m.toTask result).Asks T R :=
  h R _ hok herr

end Asks
end Call

/-! ## Runs -/

namespace Task.Asks

/-- The same for an entry of the pool. -/
def Entry (T : Terms S) : Async.Entry S → Prop
  | .running t => t.Asks T fun _ => True
  | .waiting q next => T.allowed q ∧ ∀ a, T.fair q a → (next a).Asks T fun _ => True
  | .arriving q a next => T.fair q a → (next a).Asks T fun _ => True
  | .finished => True

/-- Every answer that has arrived was fair. -/
def Answered (T : Terms S) (history : List (Moment S)) : Prop :=
  ∀ m ∈ history, ∀ q a, m.event = .answered q a → T.fair q a

/-- Every state was good, and every question allowed. -/
def Kept (T : Terms S) (history : List (Moment S)) : Prop :=
  ∀ m ∈ history, T.good m.shared ∧ ∀ q, m.event = .sent q → T.allowed q

/-- What holds of every world of a run. -/
structure Holds (T : Terms S) (J : S.Env → Prop) (w : World S) : Prop where
  good : T.good w.shared
  pool : ∀ entry ∈ w.pool, Entry T entry
  kept : Kept T w.history
  env : J w.env

variable {T : Terms S} {J : S.Env → Prop} {P : Program S} {w w' : World S}

theorem kept_cons {m : Moment S} {history : List (Moment S)} (h : Kept T history)
    (hgood : T.good m.shared) (hsent : ∀ q, m.event = .sent q → T.allowed q) :
    Kept T (m :: history) := by
  intro m' hm'
  rcases List.mem_cons.1 hm' with rfl | hold
  · exact ⟨hgood, hsent⟩
  · exact h m' hold

variable {i : ℕ} {action : Action S} {actions : List (Action S)}

theorem pool_set {entry : Async.Entry S} (h : ∀ entry ∈ w.pool, Entry T entry)
    (hentry : Entry T entry) : ∀ e ∈ w.pool.set i entry, Entry T e := by
  intro e he
  rcases List.mem_or_eq_of_mem_set he with hold | rfl
  · exact h e hold
  · exact hentry

/-- One step of a task that keeps to the terms. -/
theorem holds_resume {t : Task S} (h : Holds T J w) (ht : t.Asks T fun _ => True)
    (hw : w.resume i t = some w') : Holds T J w' := by
  cases t with
  | done =>
    cases hw
    exact ⟨h.good, pool_set h.pool trivial, kept_cons h.kept h.good (by simp), h.env⟩
  | sync =>
    rw [World.resume] at hw
    split at hw
    · rename_i hready
      cases hw
      obtain ⟨hgood, hnext⟩ := ht w.shared h.good hready
      exact ⟨hgood, pool_set h.pool hnext, kept_cons h.kept hgood (by simp), h.env⟩
    · cases hw
  | ask =>
    cases hw
    refine ⟨h.good, pool_set h.pool ht, kept_cons h.kept h.good fun q' hq' => ?_, h.env⟩
    cases hq'
    exact ht.1
  | spawn =>
    cases hw
    refine ⟨h.good, fun e he => ?_, kept_cons h.kept h.good (by simp), h.env⟩
    rcases List.mem_append.1 he with hold | hnew
    · exact pool_set h.pool (by exact ht.2) e hold
    · rw [List.mem_singleton.1 hnew]
      exact ht.1 _

/-- One action. -/
theorem holds_perform
    (hJ : ∀ env choice q env' a, T.allowed q → P.serve env choice q = some (env', a) → J env →
      J env') (hcode : ∀ op i, action = .call op → (P.code op i).Asks T fun _ => True)
    (h : Holds T J w) (hw : perform P w action = some w') (hfair : Answered T w'.history) :
    Holds T J w' := by
  cases action with
  | call op =>
    cases hw
    refine ⟨h.good, fun e he => ?_, kept_cons h.kept h.good (by simp), h.env⟩
    rcases List.mem_append.1 he with hold | hnew
    · exact h.pool e hold
    · rw [List.mem_singleton.1 hnew]
      exact hcode op _ rfl
  | resume =>
    rw [perform] at hw
    split at hw
    · rename_i t ht
      exact holds_resume h (h.pool _ (List.mem_of_getElem? ht)) hw
    · cases hw
  | serve =>
    rw [perform] at hw
    split at hw
    · rename_i q next hentry
      have hasks := h.pool _ (List.mem_of_getElem? hentry)
      split at hw
      · rename_i env a hserve
        cases hw
        exact ⟨h.good, pool_set h.pool (hasks.2 a), kept_cons h.kept h.good (by simp),
          hJ _ _ _ _ _ hasks.1 hserve h.env⟩
      · cases hw
    · cases hw
  | deliver =>
    rw [perform] at hw
    split at hw
    · rename_i q a next hentry
      have hasks := h.pool _ (List.mem_of_getElem? hentry)
      cases hw
      exact ⟨h.good, pool_set h.pool (hasks (hfair _ List.mem_cons_self q a rfl)),
        kept_cons h.kept h.good (by simp), h.env⟩
    · cases hw

/-- An action adds a moment to the past. -/
theorem exists_history_eq_cons (hw : perform P w action = some w') :
    ∃ m, w'.history = m :: w.history := by
  cases action with
  | call =>
    cases hw
    exact ⟨_, rfl⟩
  | resume =>
    rw [perform] at hw
    split at hw
    · rename_i t ht
      cases t with
      | done | ask | spawn => cases hw; exact ⟨_, rfl⟩
      | sync =>
        rw [World.resume] at hw
        split at hw
        · cases hw; exact ⟨_, rfl⟩
        · cases hw
    · cases hw
  | serve =>
    rw [perform] at hw
    split at hw
    · split at hw
      · cases hw; exact ⟨_, rfl⟩
      · cases hw
    · cases hw
  | deliver =>
    rw [perform] at hw
    split at hw
    · cases hw; exact ⟨_, rfl⟩
    · cases hw

theorem run_suffix : w.history <:+ (run P w actions).history := by
  induction actions generalizing w with
  | nil => exact List.suffix_rfl
  | cons action _ ih =>
    rw [run]
    cases hv : perform P w action with
    | none => exact ih
    | some =>
      obtain ⟨m, hm⟩ := exists_history_eq_cons hv
      exact (hm ▸ List.suffix_cons m _).trans ih

theorem holds_run
    (hJ : ∀ env choice q env' a, T.allowed q → P.serve env choice q = some (env', a) → J env →
      J env') (hcode : ∀ op i, .call op ∈ actions → (P.code op i).Asks T fun _ => True)
    (h : Holds T J w) (hfair : Answered T (run P w actions).history) :
    Holds T J (run P w actions) := by
  induction actions generalizing w with
  | nil => exact h
  | cons action rest ih =>
    have hrest : ∀ op i, Action.call op ∈ rest → (P.code op i).Asks T fun _ => True :=
      fun op i hmem => hcode op i (List.mem_cons_of_mem _ hmem)
    rw [run] at hfair ⊢
    cases hv : perform P w action with
    | none =>
      rw [hv] at hfair
      exact ih hrest h hfair
    | some v =>
      rw [hv] at hfair
      have hnext : Holds T J v := holds_perform hJ
        (fun op i haction => hcode op i (haction ▸ List.mem_cons_self)) h hv
        fun m hm => hfair m (run_suffix.mem hm)
      exact ih hrest hnext hfair

/-- **What a program asks in a run.**  If every operation that is called keeps to the terms, and the
answers that arrive are fair, then every state is good and every question that is sent is allowed;
and the environment keeps what it keeps while it deals with such questions. -/
theorem run_sound
    (hJ : ∀ env choice q env' a, T.allowed q → P.serve env choice q = some (env', a) → J env →
      J env') {shared : S.Shared} {env : S.Env} (hgood : T.good shared) (henv : J env)
    (hcode : ∀ op i, .call op ∈ actions → (P.code op i).Asks T fun _ => True)
    (hfair : Answered T (run P (World.initial shared env) actions).history) :
    Holds T J (run P (World.initial shared env) actions) :=
  holds_run hJ hcode ⟨hgood, nofun, nofun, henv⟩ hfair

end Task.Asks

/-- **Every moment is the last of some run.**  What is true of the last moment of every run, given
those before it, is true throughout every run. -/
theorem throughout_of_last {P : Program S} {shared : S.Shared} {env : S.Env}
    {Q : Moment S → List (Moment S) → Prop}
    (h : ∀ actions m past,
      (run P (World.initial shared env) actions).history = m :: past → Q m past)
    (actions : List (Action S)) :
    Throughout Q (run P (World.initial shared env) actions).history := by
  induction actions using List.reverseRecOn with
  | nil => trivial
  | append_singleton actions action ih =>
    have hlast := h (actions ++ [action])
    rw [run_append, run] at hlast ⊢
    cases hv : perform P (run P (World.initial shared env) actions) action with
    | none => exact ih
    | some v =>
      rw [hv] at hlast
      obtain ⟨m, hm⟩ := Task.Asks.exists_history_eq_cons hv
      show Throughout Q v.history
      rw [hm]
      exact ⟨hlast m _ hm, ih⟩

end Async
