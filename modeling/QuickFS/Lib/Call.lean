import QuickFS.Lib.Async

/-!
# Writing and verifying calls

`Call` is the monad the tasks of `Async` are written in.  A call ends in a value or in an error, and
an error ends its caller too (the `?` of the source) unless it is caught by `attempt`.  It is a
function of its continuation, so that a call *is* a piece of a task and nothing has to be translated
before it can run.

`Discipline.Triple` gives calls pre- and postconditions under a rely–guarantee discipline: one
postcondition for a value, one for an error.  The rules follow the constructs: one for each way to
build a call, and one — `bind` — to put two of them together.  A precondition is a property of the
moment a call starts; by the time it takes its first step the others may have moved, so the rules
for the two steps a call can take (`access` and `ask`) start from whatever the rely allows.
-/

namespace Async

variable {S : Sig} {ε α β : Type}

/-- A call: what it does, given what happens afterwards. -/
def Call (S : Sig) (ε α : Type) : Type := (Except ε α → Task S) → Task S

namespace Call

instance : Monad (Call S ε) where
  pure a := fun k => k (.ok a)
  bind m f := fun k => m fun
    | .ok a => f a k
    | .error e => k (.error e)

/-- The call ends with this outcome. -/
def ofExcept (r : Except ε α) : Call S ε α := fun k => k r

def throw (e : ε) : Call S ε α := ofExcept (.error e)

/-- Run a call and look at its outcome. -/
def attempt (m : Call S ε α) : Call S ε (Except ε α) := fun k => m fun r => k (.ok r)

/-- One atomic access to the shared state, once it is `ready`: what `read` finds there, and the
state that `update` leaves. -/
def access (ready : S.Shared → Bool) (update : S.Shared → S.Shared) (read : S.Shared → α) :
    Call S ε α :=
  fun k => .sync ready update fun s => k (.ok (read s))

def read (f : S.Shared → α) : Call S ε α := access (fun _ => true) id f

def modify (f : S.Shared → S.Shared) : Call S ε Unit := access (fun _ => true) f fun _ => ()

/-- Send a question and wait for the answer. -/
def ask (q : S.Question) : Call S ε (S.Answer q) := fun k => .ask q fun a => k (.ok a)

/-- Start another task. -/
def spawn (child : ℕ → Task S) : Call S ε Unit := fun k => .spawn child (k (.ok ()))

/-- Run `m` with something held that has to be given back whatever the outcome: a guard that is
dropped at the end of its scope. -/
def holding (acquire release : Call S ε Unit) (m : Call S ε α) : Call S ε α := do
  acquire
  let r ← attempt m
  release
  ofExcept r

/-- The task of an operation that is this call. -/
def toTask (m : Call S ε α) (result : Except ε α → S.Result) : Task S := m fun r => .done (result r)

end Call

namespace Discipline

variable {P : Program S} (D : Discipline P)

/-- From `pre`, the call `m` is safe; it ends in `post` when it ends in a value, and in `fail` when
it ends in an error. -/
def Triple (i : ℕ) (pre : Global S → Prop) (m : Call S ε α) (post : α → Global S → Prop)
    (fail : ε → Global S → Prop) : Prop :=
  ∀ k g, pre g → (∀ a g', post a g' → D.Safe i (k (.ok a)) g') →
    (∀ e g', fail e g' → D.Safe i (k (.error e)) g') → D.Safe i (m k) g

variable {D} {i : ℕ} {pre pre' : Global S → Prop} {post post' : α → Global S → Prop}
  {fail fail' : ε → Global S → Prop}

namespace Triple

variable {ready : S.Shared → Bool} {q : S.Question} {m : Call S ε α} {f : β → Call S ε α}
  {update : S.Shared → S.Shared} {R : β → Global S → Prop} {read : S.Shared → α}

theorem conseq (h : D.Triple i pre m post fail) (hpre : ∀ g, pre' g → pre g)
    (hpost : ∀ a g, post a g → post' a g) (hfail : ∀ e g, fail e g → fail' e g) :
    D.Triple i pre' m post' fail' :=
  fun k g hg hk he => h k g (hpre g hg) (fun a g' ha => hk a g' (hpost a g' ha))
    fun e g' hg' => he e g' (hfail e g' hg')

theorem pre_of (h : D.Triple i pre m post fail) (hpre : ∀ g, pre' g → pre g) :
    D.Triple i pre' m post fail :=
  h.conseq hpre (fun _ _ h => h) fun _ _ h => h

theorem post_of (h : D.Triple i pre m post fail) (hpost : ∀ a g, post a g → post' a g) :
    D.Triple i pre m post' fail :=
  h.conseq (fun _ h => h) hpost fun _ _ h => h

/-- What is known of the precondition and does not depend on the state. -/
theorem of_fact {φ : Prop} (h : φ → D.Triple i pre m post fail) :
    D.Triple i (fun g => φ ∧ pre g) m post fail :=
  fun k g hg => h hg.1 k g hg.2

theorem of_exists {ι : Type} {pre : ι → Global S → Prop} (h : ∀ x, D.Triple i (pre x) m post fail) :
    D.Triple i (fun g => ∃ x, pre x g) m post fail :=
  fun k g ⟨x, hg⟩ => h x k g hg

theorem pure {a : α} (h : ∀ g, pre g → post a g) :
    D.Triple i pre (Pure.pure a : Call S ε α) post fail :=
  fun _ g hg hk _ => hk a g (h g hg)

theorem throw {e : ε} (h : ∀ g, pre g → fail e g) :
    D.Triple i pre (Call.throw e : Call S ε α) post fail :=
  fun _ g hg _ he => he e g (h g hg)

theorem ofExcept {r : Except ε α} (hok : ∀ a g, r = .ok a → pre g → post a g)
    (herr : ∀ e g, r = .error e → pre g → fail e g) :
    D.Triple i pre (Call.ofExcept r) post fail := by
  intro k g hg hk he
  cases r with
  | ok a => exact hk a g (hok a g rfl hg)
  | error e => exact he e g (herr e g rfl hg)

theorem bind {m : Call S ε β} (hm : D.Triple i pre m R fail)
    (hf : ∀ b, D.Triple i (R b) (f b) post fail) : D.Triple i pre (m >>= f) post fail :=
  fun k g hg hk he => hm _ g hg (fun b g' hb => hf b k g' hb hk he) he

/-- A call that cannot fail, and what comes after it. -/
theorem bind_of_total {m : Call S ε β} (hm : D.Triple i pre m R fun _ _ => False)
    (hf : ∀ b, D.Triple i (R b) (f b) post fail) : D.Triple i pre (m >>= f) post fail :=
  bind (hm.conseq (fun _ h => h) (fun _ _ h => h) fun _ _ h => h.elim) hf

/-- The outcome of a call that has ended, and what comes after it. -/
theorem bind_ofExcept {r : Except ε β} (hok : ∀ b, r = .ok b → D.Triple i pre (f b) post fail)
    (herr : ∀ e g, r = .error e → pre g → fail e g) :
    D.Triple i pre (Call.ofExcept r >>= f) post fail := by
  intro k g hg hk he
  cases r with
  | ok b => exact hok b rfl k g hg hk he
  | error e => exact he e g (herr e g rfl hg)

theorem access
    (h : ∀ g, pre g → D.Stable i (fun g' => ready g'.shared = true →
      D.Guarantee i g' (g'.step i (update g'.shared)) ∧
      post (read g'.shared) (g'.step i (update g'.shared))) g) :
    D.Triple i pre (Call.access ready update read) post fail := by
  intro k g hg hk _ g' hr hinv hready
  obtain ⟨hguar, hpost⟩ := h g hg g' hr hinv hready
  exact ⟨hguar, hk _ _ hpost⟩

theorem ask {post : S.Answer q → Global S → Prop}
    (h : ∀ g, pre g → D.Stable i (fun g' => D.Guarantee i g' (g'.log i (.sent q)) ∧
      D.SafeWaiting i q post (g'.log i (.sent q))) g) : D.Triple i pre (Call.ask q) post fail := by
  intro k g hg hk _ g' hr hinv
  obtain ⟨hsent, hwait⟩ := h g hg g' hr hinv
  refine ⟨hsent, fun g'' hr' hinv' choice env a ha => ?_⟩
  obtain ⟨hserved, harrive⟩ := hwait g'' hr' hinv' choice env a ha
  refine ⟨hserved, fun g3 hr3 hinv3 => ?_⟩
  obtain ⟨hanswered, hpost⟩ := harrive g3 hr3 hinv3
  exact ⟨hanswered, hk _ _ hpost⟩

/-- A call whose outcome is looked at. -/
theorem attempt {post : Except ε α → Global S → Prop}
    (h : D.Triple i pre m (fun a => post (.ok a)) fun e => post (.error e)) :
    D.Triple i pre (Call.attempt m) post fail :=
  fun _ g hg hk _ => h _ g hg (fun a => hk (.ok a)) fun e => hk (.error e)

/-! ### Assertions that last -/

/-- An access from a precondition that the others respect. -/
theorem access_lasting (hpre : D.Lasting i pre)
    (h : ∀ g, D.inv g → pre g → ready g.shared = true →
      D.Guarantee i g (g.step i (update g.shared)) ∧
      post (read g.shared) (g.step i (update g.shared))) :
    D.Triple i pre (Call.access ready update read) post fail :=
  access fun g hg g' hr hinv => h g' hinv (hpre g g' hg hr hinv)

/-- A question, with an assertion for each of its stages. -/
theorem ask_lasting {R : Global S → Prop} {A post : S.Answer q → Global S → Prop}
    (hpre : D.Lasting i pre) (hmid : D.Lasting i R) (hserved : ∀ a, D.Lasting i (A a))
    (hsend : ∀ g, D.inv g → pre g → D.Guarantee i g (g.log i (.sent q)) ∧ R (g.log i (.sent q)))
    (hserve : ∀ g choice env a, D.inv g → R g → P.serve g.env choice q = some (env, a) →
      D.Guarantee i g (g.serve i env q a) ∧ A a (g.serve i env q a))
    (hanswer : ∀ g a, D.inv g → A a g → D.Guarantee i g (g.log i (.answered q a)) ∧
      post a (g.log i (.answered q a))) : D.Triple i pre (Call.ask q) post fail := by
  refine ask fun g hg g1 hr1 hinv1 => ?_
  obtain ⟨hsent, hg1⟩ := hsend g1 hinv1 (hpre g g1 hg hr1 hinv1)
  refine ⟨hsent, fun g2 hr2 hinv2 choice env a ha => ?_⟩
  obtain ⟨hguar, hg2⟩ := hserve g2 choice env a hinv2 (hmid _ g2 hg1 hr2 hinv2) ha
  exact ⟨hguar, fun g3 hr3 hinv3 => hanswer g3 a hinv3 (hserved a _ g3 hg2 hr3 hinv3)⟩

/-- A guard is taken, and dropped whatever the outcome of the call it protects. -/
theorem holding {acquire release : Call S ε Unit} {H : Global S → Prop} {R : α → Global S → Prop}
    {B : ε → Global S → Prop} (hacq : D.Triple i pre acquire (fun _ => H) fun _ _ => False)
    (hm : D.Triple i H m R B)
    (hok : ∀ a, D.Triple i (R a) release (fun _ => post a) fun _ _ => False)
    (herr : ∀ e, D.Triple i (B e) release (fun _ => fail e) fun _ _ => False) :
    D.Triple i pre (Call.holding acquire release m) post fail := by
  refine bind_of_total hacq fun _ => ?_
  intro k g hg hk he
  refine hm _ g hg (fun a g' ha => ?_) fun e g' he' => ?_
  · exact hok a _ g' ha (fun _ g'' h => hk a g'' h) fun _ _ h => h.elim
  · exact herr e _ g' he' (fun _ g'' h => he e g'' h) fun _ _ h => h.elim

/-- A call that is the whole of an operation. -/
theorem safe_toTask {result : Except ε α → S.Result} {g : Global S} (h : D.Triple i pre m post fail)
    (hg : pre g)
    (hpost : ∀ a g, post a g → D.Stable i
      (fun g' => D.Guarantee i g' (g'.log i (.returned (result (.ok a))))) g)
    (hfail : ∀ e g, fail e g → D.Stable i
      (fun g' => D.Guarantee i g' (g'.log i (.returned (result (.error e))))) g) :
    D.Safe i (m.toTask result) g :=
  h _ g hg hpost hfail

end Triple

end Discipline

end Async
