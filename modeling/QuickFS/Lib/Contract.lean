import QuickFS.Lib.Call

/-!
# Invariants of the shared state

The discipline to use when calls need to count on each other for little.  A `Contract` says what
every shared state satisfies (`good`), how states may change (`evolves`), what the environment
promises about its answers (`fair`), and what a result has to satisfy given what happened before it
(`sound`). Something that stays true as the past grows and the state evolves can be *known* by a
call: it holds from when the call learns of it (`learn`) to its end, whatever the others do.

`Ensures i m post` is the judgement for calls: every step of `m` keeps the contract, and a value it
ends in satisfies `post`.  What was known before the call is known after it, and the judgement
carries that along by itself.  The rules follow the constructs of `Call`; `Lens` and `focus` are for
a call that works on a part of the state.

`Contract.run_sound` is what it is for: if the calls keep the contract, every state of every run is
good and every result sound.
-/

namespace Async

/-! ## Parts of a state -/

/-- A part of a state: where to find it, and how to put another one in its place. -/
structure Lens (σ κ : Type) where
  get : σ → κ
  set : κ → σ → σ

namespace Lens

variable {σ κ τ : Type}

/-- A part of a part. -/
def comp (L : Lens σ κ) (M : Lens κ τ) : Lens σ τ :=
  ⟨fun s => M.get (L.get s), fun t s => L.set (M.set t (L.get s)) s⟩

end Lens

variable {S : Sig} {ε α β κ : Type}

/-- One atomic access to a part of the shared state. -/
def Call.focus (L : Lens S.Shared κ) (update : κ → κ) (read : κ → α) : Call S ε α :=
  Call.access (fun _ => true) (fun s => L.set (update (L.get s)) s) fun s => read (L.get s)

/-! ## Contracts -/

structure Contract (S : Sig) where
  good : S.Shared → Prop
  evolves : S.Shared → S.Shared → Prop
  evolves_refl : ∀ s, evolves s s
  evolves_trans : ∀ s s' s'', evolves s s' → evolves s' s'' → evolves s s''
  fair : (q : S.Question) → S.Answer q → Prop
  sound : ℕ → S.Result → List (Moment S) → Prop
  known : Global S → Prop
  known_stable : ∀ g g', g.history <:+ g'.history → evolves g.shared g'.shared → known g → known g'

namespace Contract

/-- What stays true as the past grows and the state evolves. -/
def Stays (C : Contract S) (K : Global S → Prop) : Prop :=
  ∀ g g', g.history <:+ g'.history → C.evolves g.shared g'.shared → K g → K g'

/-- The same contract for a call that knows more. -/
def learn (C : Contract S) (K : Global S → Prop) (hK : C.Stays K) : Contract S where
  __ := C
  known g := C.known g ∧ K g
  known_stable g g' hh he h := ⟨C.known_stable g g' hh he h.1, hK g g' hh he h.2⟩

/-- A step that keeps the contract. -/
def Step (C : Contract S) (s s' : S.Shared) : Prop := C.good s' ∧ C.evolves s s'

/-- A part of the state, of which `G` is the invariant. -/
structure Hosts (C : Contract S) (L : Lens S.Shared κ) (G : κ → Prop) : Prop where
  get : ∀ s, C.good s → G (L.get s)
  set : ∀ s c, C.good s → G c → C.Step s (L.set c s)

/-- A moment that keeps the contract, given those before it. -/
def Proper (C : Contract S) (m : Moment S) (past : List (Moment S)) : Prop :=
  C.good m.shared ∧ ∀ r, m.event = .returned r → C.sound m.task r past

/-- The environment keeps its promise. -/
def Fair (C : Contract S) (P : Program S) : Prop :=
  ∀ env choice q env' a, P.serve env choice q = some (env', a) → C.fair q a

/-- The discipline of a contract. -/
def discipline (C : Contract S) (P : Program S) : Discipline P where
  inv g := C.good g.shared ∧ Throughout C.Proper g.history
  rely _ g g' := g.history <:+ g'.history ∧ C.evolves g.shared g'.shared
  rely_refl _ _ := ⟨List.suffix_rfl, C.evolves_refl _⟩
  rely_trans _ _ _ _ h h' := ⟨h.1.trans h'.1, C.evolves_trans _ _ _ h.2 h'.2⟩

variable (C : Contract S) (P : Program S)

/-- What a call ensures, with everything that is known and whatever else `F` stays true. -/
def Ensures (i : ℕ) (m : Call S ε α) (post : α → Prop) : Prop :=
  ∀ F : Global S → Prop, C.Stays F →
    (C.discipline P).Triple i (fun g => C.known g ∧ F g) m (fun a g => post a ∧ C.known g ∧ F g)
      fun _ g => C.known g ∧ F g

/-- The call keeps the contract, whatever it ends in. -/
abbrev Obeys (i : ℕ) (m : Call S ε α) : Prop := C.Ensures P i m fun _ => True

/-- The task keeps the contract, from whenever what it knows is true. -/
def Keeps (i : ℕ) (t : Task S) : Prop := ∀ g, C.known g → (C.discipline P).Safe i t g

variable {C P} {i : ℕ} {post post' : α → Prop}

variable {g : Global S} {e : Event S}

/-- An event that is not the end of a call. -/
theorem guarantee_of_step {g' : Global S} (hinv : (C.discipline P).inv g)
    (hstep : C.Step g.shared g'.shared) (hhist : g'.history = ⟨i, e, g'.shared⟩ :: g.history)
    (he : ∀ r, e ≠ .returned r) : (C.discipline P).Guarantee i g g' := by
  refine ⟨⟨hstep.1, ?_⟩, fun j _ => ⟨?_, hstep.2⟩⟩
  · rw [hhist]
    exact ⟨⟨hstep.1, fun r hr => absurd hr (he r)⟩, hinv.2⟩
  · rw [hhist]
    exact List.suffix_cons _ _

theorem guarantee_returned {r : S.Result} (hinv : (C.discipline P).inv g)
    (hr : C.sound i r g.history) : (C.discipline P).Guarantee i g (g.log i (.returned r)) := by
  refine ⟨⟨hinv.1, ⟨hinv.1, fun r' h => ?_⟩, hinv.2⟩,
    fun j _ => ⟨List.suffix_cons _ _, C.evolves_refl _⟩⟩
  cases h
  exact hr

theorem guarantee_log (hinv : (C.discipline P).inv g) (he : ∀ r, e ≠ .returned r) :
    (C.discipline P).Guarantee i g (g.log i e) :=
  guarantee_of_step hinv ⟨hinv.1, C.evolves_refl _⟩ rfl he

/-- What is known and what stays true, together. -/
theorem Stays.and_known {F : Global S → Prop} (hF : C.Stays F) : C.Stays fun g => C.known g ∧ F g :=
  fun g g' hh he h => ⟨C.known_stable g g' hh he h.1, hF g g' hh he h.2⟩

theorem Stays.log {F : Global S → Prop} (hF : C.Stays F) (h : F g) : F (g.log i e) :=
  hF _ _ (List.suffix_cons _ _) (C.evolves_refl _) h

/-- Task `i` has had this answer. -/
def Answered (i : ℕ) (q : S.Question) (a : S.Answer q) (g : Global S) : Prop :=
  ∃ m ∈ g.history, m.task = i ∧ m.event = .answered q a

theorem stays_answered {q : S.Question} {a : S.Answer q} : C.Stays (Answered i q a) :=
  fun _ _ hh _ ⟨m, hm, hrest⟩ => ⟨m, hh.mem hm, hrest⟩

namespace Ensures

variable {m : Call S ε α} {f : β → Call S ε α}

theorem conseq (h : C.Ensures P i m post) (hpost : ∀ a, post a → post' a) : C.Ensures P i m post' :=
  fun F hF => (h F hF).conseq (fun _ h => h) (fun a _ h => ⟨hpost a h.1, h.2⟩) fun _ _ h => h

theorem pure {a : α} (h : post a) : C.Ensures P i (Pure.pure a : Call S ε α) post :=
  fun _ _ => Discipline.Triple.pure fun _ hF => ⟨h, hF⟩

theorem throw {e : ε} : C.Ensures P i (Call.throw e : Call S ε α) post :=
  fun _ _ => Discipline.Triple.throw fun _ hF => hF

theorem ofExcept {r : Except ε α} (h : ∀ a, r = .ok a → post a) :
    C.Ensures P i (Call.ofExcept r) post :=
  fun _ _ => Discipline.Triple.ofExcept (fun a _ hr hF => ⟨h a hr, hF⟩) fun _ _ _ hF => hF

theorem bind {m : Call S ε β} {Q : β → Prop} (hm : C.Ensures P i m Q)
    (hf : ∀ b, Q b → C.Ensures P i (f b) post) : C.Ensures P i (m >>= f) post :=
  fun F hF => (hm F hF).bind fun b k g hb => hf b hb.1 F hF k g hb.2

/-- A call whose value says nothing, and what comes after it. -/
theorem seq {m : Call S ε β} (hm : C.Obeys P i m)
    (hf : ∀ b, C.Ensures P i (f b) post) : C.Ensures P i (m >>= f) post :=
  hm.bind fun b _ => hf b

/-- The outcome of a call that has ended, and what comes after it. -/
theorem bind_ofExcept {r : Except ε β} (hf : ∀ b, r = .ok b → C.Ensures P i (f b) post) :
    C.Ensures P i (Call.ofExcept r >>= f) post :=
  (ofExcept fun _ h => h).bind hf

theorem attempt (h : C.Ensures P i m post) :
    C.Ensures P i (Call.attempt m) fun r => ∀ a, r = .ok a → post a := by
  intro F hF k g hg hk _
  refine h F hF _ g hg (fun a g' ha => hk _ g' ⟨fun b hb => ?_, ha.2⟩)
    fun e g' he => hk _ g' ⟨fun b hb => ?_, he⟩
  · cases hb
    exact ha.1
  · cases hb

/-- One access to the shared state by a call that counts on what it knows. -/
theorem access_known {ready : S.Shared → Bool} {update : S.Shared → S.Shared} {read : S.Shared → α}
    (h : ∀ g : Global S, C.good g.shared → C.known g → ready g.shared = true →
      C.Step g.shared (update g.shared) ∧ post (read g.shared)) :
    C.Ensures P i (Call.access ready update read : Call S ε α) post := by
  intro F hF
  refine Discipline.Triple.access fun g hg g' hr hinv hready => ?_
  have hg' := hF.and_known _ _ hr.1 hr.2 hg
  obtain ⟨hstep, hpost⟩ := h g' hinv.1 hg'.1 hready
  exact ⟨guarantee_of_step hinv hstep rfl nofun, hpost,
    hF.and_known _ _ (List.suffix_cons _ _) hstep.2 hg'⟩

theorem access {ready : S.Shared → Bool} {update : S.Shared → S.Shared} {read : S.Shared → α}
    (h : ∀ s, C.good s → ready s = true → C.Step s (update s) ∧ post (read s)) :
    C.Ensures P i (Call.access ready update read : Call S ε α) post :=
  access_known fun g hg _ hready => h g.shared hg hready

theorem read {f : S.Shared → α} (h : ∀ s, C.good s → post (f s)) :
    C.Ensures P i (Call.read f : Call S ε α) post :=
  access fun s hs _ => ⟨⟨hs, C.evolves_refl s⟩, h s hs⟩

theorem ask {q : S.Question} {post : S.Answer q → Prop} (hfair : C.Fair P)
    (h : ∀ a, C.fair q a → post a) : C.Ensures P i (Call.ask q : Call S ε (S.Answer q)) post := by
  intro F hF
  refine Discipline.Triple.ask fun g hg g1 hr1 hinv1 => ⟨guarantee_log hinv1 nofun, ?_⟩
  have h1 := hF.and_known.log (i := i) (e := .sent q) (hF.and_known _ _ hr1.1 hr1.2 hg)
  intro g2 hr2 hinv2 choice env a ha
  have h2 := hF.and_known _ _ hr2.1 hr2.2 h1
  have hserve : C.Step g2.shared (g2.serve i env q a).shared := ⟨hinv2.1, C.evolves_refl _⟩
  refine ⟨guarantee_of_step hinv2 hserve rfl nofun, fun g3 hr3 hinv3 => ?_⟩
  have h3 := hF.and_known _ _ ((List.suffix_cons _ _).trans hr3.1) hr3.2 h2
  exact ⟨guarantee_log hinv3 nofun, h a (hfair _ _ _ _ _ ha), hF.and_known.log h3⟩

/-- A task is started, of what is known here. -/
theorem spawn {child : ℕ → Task S} (h : ∀ j, C.Keeps P j (child j)) :
    C.Obeys P i (Call.spawn child : Call S ε Unit) := by
  intro F hF k g hg hk _ g' hr hinv
  have hlog := hF.and_known.log (i := i) (e := .spawned) (hF.and_known _ _ hr.1 hr.2 hg)
  exact ⟨guarantee_log hinv nofun, hk () _ ⟨trivial, hlog⟩, fun j _ => h j _ hlog.1⟩

/-- A guard is taken, and dropped whatever the outcome. -/
theorem holding {acquire release : Call S ε Unit} (hacq : C.Obeys P i acquire)
    (hm : C.Ensures P i m post) (hrel : C.Obeys P i release) :
    C.Ensures P i (Call.holding acquire release m) post :=
  hacq.bind fun _ _ => hm.attempt.bind fun _ hr => hrel.bind fun _ _ => ofExcept hr

/-- Look at the shared state, and go on with what that tells. -/
theorem learn {f : S.Shared → β} {m : β → Call S ε α} {K : β → Global S → Prop}
    (hK : ∀ b, C.Stays (K b))
    (hlearn : ∀ g : Global S, C.good g.shared → K (f g.shared) (g.step i g.shared))
    (h : ∀ s, C.good s → (C.learn (K (f s)) (hK (f s))).Ensures P i (m (f s)) post) :
    C.Ensures P i (Call.read f >>= m) post := by
  intro F hF k g hg hk he g' hr hinv _
  have hstep : C.Step g'.shared (g'.step i g'.shared).shared := ⟨hinv.1, C.evolves_refl _⟩
  have hnow : C.known (g'.step i g'.shared) ∧ F (g'.step i g'.shared) :=
    hF.and_known _ _ (hr.1.trans (List.suffix_cons _ _)) hr.2 hg
  refine ⟨guarantee_of_step hinv hstep rfl nofun, ?_⟩
  exact h g'.shared hinv.1 F hF _ (g'.step i g'.shared) ⟨⟨hnow.1, hlearn g' hinv.1⟩, hnow.2⟩
    (fun a g'' ha => hk a g'' ⟨ha.1, ha.2.1.1, ha.2.2⟩) fun e g'' he' => he e g'' ⟨he'.1.1, he'.2⟩

/-- A call that is the whole of a task. -/
theorem keeps {result : Except ε α → S.Result} {Q : α → Prop} (h : C.Ensures P i m Q)
    (hok : ∀ a g, Q a → C.known g → C.sound i (result (.ok a)) g.history)
    (herr : ∀ e g, C.known g → C.sound i (result (.error e)) g.history) :
    C.Keeps P i (m.toTask result) := by
  intro g hg
  exact h (fun _ => True) (fun _ _ _ _ h => h) _ g ⟨hg, trivial⟩
    (fun a _ ha _ hr hinv => guarantee_returned hinv
      (hok a _ ha.1 (C.known_stable _ _ hr.1 hr.2 ha.2.1)))
    fun e _ he _ hr hinv => guarantee_returned hinv (herr e _ (C.known_stable _ _ hr.1 hr.2 he.1))

/-- One access to a part of the state. -/
theorem focus {L : Lens S.Shared κ} {G : κ → Prop} (hL : C.Hosts L G) {update : κ → κ}
    {read : κ → α} (h : ∀ c, G c → G (update c) ∧ post (read c)) :
    C.Ensures P i (Call.focus L update read : Call S ε α) post :=
  access fun s hs _ => ⟨hL.set s _ hs (h _ (hL.get s hs)).1, (h _ (hL.get s hs)).2⟩

end Ensures

/-! ### Tasks that end as what they learn allows

The judgement `Ensures` forgets at the end of a call what was learned in it.  Where a result is to
be judged by that, the rest of the task is part of the argument. -/

namespace Keeps

variable {result : Except ε α → S.Result}

theorem bind {m : Call S ε β} {f : β → Call S ε α} {Q : β → Prop} (hm : C.Ensures P i m Q)
    (hf : ∀ b, Q b → C.Keeps P i ((f b).toTask result))
    (herr : ∀ e g, C.known g → C.sound i (result (.error e)) g.history) :
    C.Keeps P i ((m >>= f).toTask result) := by
  intro g hg
  exact hm (fun _ => True) (fun _ _ _ _ h => h) _ g ⟨hg, trivial⟩
    (fun b g' hb => hf b hb.1 g' hb.2.1)
    fun e _ he _ hr hinv => guarantee_returned hinv (herr e _ (C.known_stable _ _ hr.1 hr.2 he.1))

/-- A look at the shared state comes first. -/
theorem read {f : S.Shared → β} {m : β → Call S ε α} {K : β → Global S → Prop}
    (hK : ∀ b, C.Stays (K b))
    (hlearn : ∀ g : Global S, C.good g.shared → K (f g.shared) (g.step i g.shared))
    (h : ∀ s, C.good s → (C.learn (K (f s)) (hK (f s))).Keeps P i ((m (f s)).toTask result)) :
    C.Keeps P i ((Call.read f >>= m).toTask result) := by
  intro g hg g' hr hinv _
  have hstep : C.Step g'.shared (g'.step i g'.shared).shared := ⟨hinv.1, C.evolves_refl _⟩
  refine ⟨guarantee_of_step hinv hstep rfl nofun, h g'.shared hinv.1 _ ⟨?_, hlearn g' hinv.1⟩⟩
  exact C.known_stable _ _ (hr.1.trans (List.suffix_cons _ _)) hr.2 hg

/-- A question comes first. -/
theorem ask {q : S.Question} {m : S.Answer q → Call S ε α} (hfair : C.Fair P)
    (h : ∀ a, C.fair q a → (C.learn (Answered i q a) stays_answered).Keeps P i
      ((m a).toTask result)) :
    C.Keeps P i ((Call.ask q >>= m).toTask result) := by
  intro g hg g1 hr1 hinv1
  refine ⟨guarantee_log hinv1 nofun, fun g2 hr2 hinv2 choice env a ha => ?_⟩
  have hserve : C.Step g2.shared (g2.serve i env q a).shared := ⟨hinv2.1, C.evolves_refl _⟩
  refine ⟨guarantee_of_step hinv2 hserve rfl nofun, fun g3 hr3 hinv3 => ?_⟩
  refine ⟨guarantee_log hinv3 nofun, h a (hfair _ _ _ _ _ ha) _ ⟨?_, _, List.mem_cons_self, rfl, rfl⟩⟩
  have h1 := C.known_stable _ _ (hr1.1.trans ((List.suffix_cons _ _).trans hr2.1))
    (C.evolves_trans _ _ _ hr1.2 hr2.2) hg
  exact C.known_stable _ _ ((List.suffix_cons _ _).trans (hr3.1.trans (List.suffix_cons _ _)))
    hr3.2 h1

end Keeps

/-- **Contracts hold.**  If every operation keeps the contract, then after every run from a good
state the state is good, and so was every state on the way; and every result was sound when it was
returned. -/
theorem run_sound (hcode : ∀ op i, C.Keeps P i (P.code op i)) (hknown : ∀ g, C.known g)
    {shared : S.Shared} {env : S.Env} (hinit : C.good shared) (actions : List (Action S)) :
    C.good (run P (World.initial shared env) actions).shared ∧
      Throughout C.Proper (run P (World.initial shared env) actions).history := by
  refine Discipline.sound (D := C.discipline P) (fun g op i hinv _ => ?_) ⟨hinit, trivial⟩ actions
  exact ⟨guarantee_log hinv nofun, hcode op i _ (hknown _)⟩

end Contract

end Async
