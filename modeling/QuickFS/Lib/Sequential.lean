import QuickFS.Lib.Call

/-!
# Calls one after another

When every question has one answer, given the state of whoever answers it (`answer`), a call that
nobody else interferes with has one outcome.  `Task.eval` computes it: the steps of the task in
order, with the tasks it spawns carried out on the spot.  It is `none` if the task has to wait for
something, which would be forever.  `eval_run` says that this is one of the runs of the program.
What the answers depend on may be more than the environment of the program keeps (`view`): an
environment that answers as it likes covers every way of answering.

`Call.Wp` is the judgement for calls that are carried out in this way: the call ends, and it ends in
such an outcome and such a point.  Its rules follow the constructs of `Call`.  `Call.Wlp` is the
same for a call that may have to wait: it says what is true if the call ends.
-/

namespace Async

variable {S : Sig} {E ε α β : Type}

/-- Where a program is between calls: the shared state, the state of whoever answers its questions,
and how many tasks there have been. -/
@[ext]
structure Point (S : Sig) (E : Type) where
  shared : S.Shared
  env : E
  tasks : ℕ

/-- The outcome of a task, and where that leaves the program. -/
def Task.eval (answer : E → (q : S.Question) → E × S.Answer q) :
    Task S → Point S E → Option (S.Result × Point S E)
  | .done r, c => some (r, c)
  | .sync ready update next, c =>
    if ready c.shared then (next c.shared).eval answer { c with shared := update c.shared } else none
  | .ask q next, c =>
    (next (answer c.env q).2).eval answer { c with env := (answer c.env q).1 }
  | .spawn child next, c =>
    ((child c.tasks).eval answer { c with tasks := c.tasks + 1 }).bind fun r => next.eval answer r.2

section Program

variable (P : Program S) (answer : E → (q : S.Question) → E × S.Answer q)

/-- One call. -/
def evalOp (op : S.Op) (c : Point S E) : Option (S.Result × Point S E) :=
  (P.code op c.tasks).eval answer { c with tasks := c.tasks + 1 }

/-- Calls, each of which starts when the one before it has ended: the result of each, and where it
left the program. -/
def evalOps : List S.Op → Point S E → Option (List (S.Result × Point S E))
  | [], _ => some []
  | op :: rest, c => do
    let (r, c') ← evalOp P answer op c
    let results ← evalOps rest c'
    pure ((r, c') :: results)

/-- Where calls leave the program that started at `c`. -/
def lastPoint (c : Point S E) (results : List (S.Result × Point S E)) : Point S E :=
  (results.getLast?.map Prod.snd).getD c

/-- `C` is true of each of the calls at the point where it starts. -/
def Along (C : Point S E → S.Op → Prop) : List S.Op → Point S E → Prop
  | [], _ => True
  | op :: rest, c => C c op ∧ ∀ r c', evalOp P answer op c = some (r, c') → Along C rest c'

end Program

section Calls

variable {P : Program S} {answer : E → (q : S.Question) → E × S.Answer q}

theorem lastPoint_cons (c c' : Point S E) (r : S.Result) (results : List (S.Result × Point S E)) :
    lastPoint c ((r, c') :: results) = lastPoint c' results := by
  cases results with
  | nil => rfl
  | cons => rw [lastPoint, lastPoint, List.getLast?_cons_cons]; rfl

theorem Along.imp {C D : Point S E → S.Op → Prop} {ops : List S.Op} {c : Point S E}
    (h : ∀ c op, C c op → D c op) (hC : Along P answer C ops c) : Along P answer D ops c := by
  induction ops generalizing c with
  | nil => trivial
  | cons op _ ih => exact ⟨h c op hC.1, fun r c' heval => ih (hC.2 r c' heval)⟩

theorem along_of_forall {C : Point S E → S.Op → Prop} {ops : List S.Op} {c : Point S E}
    (h : ∀ c, ∀ op ∈ ops, C c op) : Along P answer C ops c := by
  induction ops generalizing c with
  | nil => trivial
  | cons op _ ih => exact ⟨h c op List.mem_cons_self, fun _ _ _ =>
      ih fun c op' hop' => h c op' (List.mem_cons_of_mem _ hop')⟩

theorem evalOps_cons {op : S.Op} {rest : List S.Op} {c c' : Point S E} {r : S.Result}
    {results : List (S.Result × Point S E)} (hfirst : evalOp P answer op c = some (r, c'))
    (hrest : evalOps P answer rest c' = some results) :
    evalOps P answer (op :: rest) c = some ((r, c') :: results) := by
  rw [evalOps, hfirst]
  simp only [Option.bind_eq_bind, Option.bind_some, hrest, Option.pure_def]

/-- **An invariant of the calls that meet a condition**: they end, each of them, and the invariant
is true where they end. -/
theorem evalOps_invariant {I : Point S E → Prop} {C : Point S E → S.Op → Prop} {ops : List S.Op}
    (hstep : ∀ op ∈ ops, ∀ c, I c → C c op → ∃ r c', evalOp P answer op c = some (r, c') ∧ I c')
    {c : Point S E} (hI : I c) (hC : Along P answer C ops c) :
    ∃ results, evalOps P answer ops c = some results ∧ I (lastPoint c results) := by
  induction ops generalizing c with
  | nil => exact ⟨[], rfl, hI⟩
  | cons op _ ih =>
    obtain ⟨r, c', heval, hI'⟩ := hstep op List.mem_cons_self c hI hC.1
    obtain ⟨results, hrest, hlast⟩ := ih (fun op' h => hstep op' (List.mem_cons_of_mem _ h)) hI'
      (hC.2 r c' heval)
    refine ⟨(r, c') :: results, evalOps_cons heval hrest, ?_⟩
    rw [lastPoint_cons]
    exact hlast

end Calls

/-! ## Runs -/

section Run

variable {P : Program S} {answer : E → (q : S.Question) → E × S.Answer q} {view : E → S.Env}

theorem run_append (w : World S) (first second : List (Action S)) :
    run P w (first ++ second) = run P (run P w first) second := by
  induction first generalizing w with
  | nil => rfl
  | cons _ _ ih => exact ih _

theorem run_single {w w' : World S} {action : Action S} (h : perform P w action = some w') :
    run P w [action] = w' := by
  rw [run, h]
  rfl

/-- A world that is at a point. -/
structure World.At (view : E → S.Env) (w : World S) (c : Point S E) : Prop where
  shared : w.shared = c.shared
  env : w.env = view c.env
  tasks : w.pool.length = c.tasks

/-- Nothing that task `i` has done concerns the others. -/
structure World.Moved (w : World S) (i : ℕ) (w' : World S) : Prop where
  length : w.pool.length ≤ w'.pool.length
  others : ∀ j, j ≠ i → j < w.pool.length → w'.pool[j]? = w.pool[j]?
  past : w.history <:+ w'.history

/-- Task `i` was carried out to its end. -/
structure World.Ended (view : E → S.Env) (w : World S) (i : ℕ) (r : S.Result) (c' : Point S E)
    (w' : World S) : Prop extends w.Moved i w' where
  at_end : w'.At view c'
  returned : ∃ m ∈ w'.history, m.task = i ∧ m.event = .returned r

theorem World.Moved.trans {w w1 w' : World S} {i : ℕ} (h : w.Moved i w1) (h' : w1.Moved i w') :
    w.Moved i w' where
  length := Nat.le_trans h.length h'.length
  others j hj hlt :=
    (h'.others j hj (Nat.lt_of_lt_of_le hlt h.length)).trans (h.others j hj hlt)
  past := h.past.trans h'.past

theorem World.Moved.set {w : World S} {i : ℕ} {g : Global S} {entry : Entry S}
    (hpast : w.history <:+ g.history) : w.Moved i ⟨g, w.pool.set i entry⟩ where
  length := Nat.le_of_eq (List.length_set ..).symm
  others _ hj _ := List.getElem?_set_ne (Ne.symm hj)
  past := hpast

/-- The environment of the program can answer in this way. -/
def Answers (P : Program S) (answer : E → (q : S.Question) → E × S.Answer q) (view : E → S.Env) :
    Prop :=
  ∀ e q, ∃ choice, P.serve (view e) choice q = some (view (answer e q).1, (answer e q).2)

/-- **The outcome of a task is that of a run.** -/
theorem Task.eval_run (hanswer : Answers P answer view)
    {t : Task S} {c c' : Point S E} {r : S.Result} (h : t.eval answer c = some (r, c'))
    {w : World S} (hw : w.At view c) {i : ℕ} (hi : w.pool[i]? = some (.running t)) :
    ∃ actions, w.Ended view i r c' (run P w actions) := by
  have hlt : i < w.pool.length := (List.getElem?_eq_some_iff.1 hi).1
  induction t generalizing c w i r c' with
  | done r' =>
    cases h
    refine ⟨[.resume i], ?_⟩
    have hstep : run P w [.resume i] = ⟨w.toGlobal.log i (.returned r'), w.pool.set i .finished⟩ :=
      run_single (by rw [perform, hi]; rfl)
    rw [hstep]
    exact ⟨.set (List.suffix_cons _ _), ⟨hw.shared, hw.env, (List.length_set ..).trans hw.tasks⟩,
      _, List.mem_cons_self, rfl, rfl⟩
  | sync _ update next ih =>
    rw [Task.eval] at h
    split at h
    · rename_i hready
      rw [← hw.shared] at hready h
      let stepped : World S :=
        ⟨w.toGlobal.step i (update w.shared), w.pool.set i (.running (next w.shared))⟩
      have hstep : run P w [.resume i] = stepped := by
        refine run_single ?_
        rw [perform, hi]
        exact if_pos hready
      have hmoved : w.Moved i stepped := .set (List.suffix_cons _ _)
      obtain ⟨actions, hend⟩ := ih _ h (w := stepped)
        ⟨rfl, hw.env, (List.length_set ..).trans hw.tasks⟩ (List.getElem?_set_self hlt)
        (Nat.lt_of_lt_of_le hlt hmoved.length)
      refine ⟨[.resume i] ++ actions, ?_⟩
      rw [run_append, hstep]
      exact { hend with toMoved := hmoved.trans hend.toMoved }
    · cases h
  | ask q next ih =>
    obtain ⟨choice, hchoice⟩ := hanswer c.env q
    rw [← hw.env] at hchoice
    -- The question is sent, served and answered.
    let sent : World S := ⟨w.toGlobal.log i (.sent q), w.pool.set i (.waiting q next)⟩
    let served : World S := ⟨sent.toGlobal.serve i (view (answer c.env q).1) q (answer c.env q).2,
      w.pool.set i (.arriving q (answer c.env q).2 next)⟩
    let answered : World S := ⟨served.toGlobal.log i (.answered q (answer c.env q).2),
      w.pool.set i (.running (next (answer c.env q).2))⟩
    have hsent : run P w [.resume i] = sent := run_single (by rw [perform, hi]; rfl)
    have hserved : run P sent [.serve i choice] = served := by
      refine run_single ?_
      rw [perform, List.getElem?_set_self hlt]
      dsimp only [sent, Global.log]
      rw [hchoice]
      dsimp only
      rw [List.set_set]
      rfl
    have hdelivered : run P served [.deliver i] = answered := by
      refine run_single ?_
      rw [perform, List.getElem?_set_self hlt]
      dsimp only [served]
      rw [List.set_set]
    have hmoved : w.Moved i answered := .set
      ((List.suffix_cons _ _).trans ((List.suffix_cons _ _).trans (List.suffix_cons _ _)))
    rw [Task.eval] at h
    obtain ⟨actions, hend⟩ := ih _ h (w := answered)
      ⟨hw.shared, rfl, (List.length_set ..).trans hw.tasks⟩ (List.getElem?_set_self hlt)
      (Nat.lt_of_lt_of_le hlt hmoved.length)
    refine ⟨[.resume i] ++ ([.serve i choice] ++ ([.deliver i] ++ actions)), ?_⟩
    rw [run_append, hsent, run_append, hserved, run_append, hdelivered]
    exact { hend with toMoved := hmoved.trans hend.toMoved }
  | spawn child next ihchild ihnext =>
    rw [Task.eval] at h
    obtain ⟨⟨r0, c0⟩, hchild, hnext⟩ := Option.bind_eq_some_iff.1 h
    -- The child is carried out first, and leaves this task where it is.
    let spawned : World S := ⟨w.toGlobal.log i .spawned,
      w.pool.set i (.running next) ++ [.running (child w.pool.length)]⟩
    have hlen : spawned.pool.length = w.pool.length + 1 := by
      rw [List.length_append, List.length_set, List.length_singleton]
    have hold : ∀ j, j < w.pool.length → spawned.pool[j]? = (w.pool.set i (.running next))[j]? :=
      fun j hj => List.getElem?_append_left (by rwa [List.length_set])
    have hstep : run P w [.resume i] = spawned := run_single (by rw [perform, hi]; rfl)
    rw [← hw.tasks] at hchild
    have hnew : spawned.pool[w.pool.length]? = some (.running (child w.pool.length)) := by
      rw [List.getElem?_append_right (Nat.le_of_eq (List.length_set ..)), List.length_set,
        Nat.sub_self]
      rfl
    obtain ⟨actions, hend⟩ := ihchild _ hchild (w := spawned) ⟨hw.shared, hw.env, hlen⟩ hnew
      (hlen ▸ Nat.lt_succ_self _)
    have hothers : ∀ j, j < w.pool.length →
        (run P spawned actions).pool[j]? = (w.pool.set i (.running next))[j]? := fun j hj =>
      (hend.others j (Nat.ne_of_lt hj) (by rw [hlen]; exact Nat.lt_succ_of_lt hj)).trans (hold j hj)
    have hrunning : (run P spawned actions).pool[i]? = some (.running next) := by
      rw [hothers i hlt, List.getElem?_set_self hlt]
    obtain ⟨actions', hend'⟩ := ihnext hnext hend.at_end hrunning
      (List.getElem?_eq_some_iff.1 hrunning).1
    refine ⟨[.resume i] ++ (actions ++ actions'), ?_⟩
    rw [run_append, hstep, run_append]
    have hmoved : w.Moved i (run P spawned actions) := by
      refine ⟨?_, fun j hj hjlt => ?_, (List.suffix_cons _ _).trans hend.past⟩
      · have hgrown := hend.length
        omega
      · rw [hothers j hjlt, List.getElem?_set_ne (Ne.symm hj)]
    exact { hend' with toMoved := hmoved.trans hend'.toMoved }

/-- One call is carried out by a run. -/
theorem evalOp_run (hanswer : Answers P answer view)
    {op : S.Op} {c c' : Point S E} {r : S.Result} (h : evalOp P answer op c = some (r, c'))
    {w : World S} (hw : w.At view c) :
    ∃ actions, w.Ended view w.pool.length r c' (run P w actions) := by
  let called : World S := ⟨w.toGlobal.log w.pool.length (.called op),
    w.pool ++ [.running (P.code op w.pool.length)]⟩
  have hstep : run P w [.call op] = called := run_single rfl
  have hlen : called.pool.length = w.pool.length + 1 := by
    rw [List.length_append, List.length_singleton]
  have hmoved : w.Moved w.pool.length called :=
    ⟨hlen ▸ Nat.le_succ _, fun j _ hlt => List.getElem?_append_left hlt, List.suffix_cons _ _⟩
  rw [evalOp, ← hw.tasks] at h
  obtain ⟨actions, hend⟩ := Task.eval_run hanswer h (w := called) ⟨hw.shared, hw.env, hlen⟩
    (List.getElem?_concat_length ..)
  refine ⟨[.call op] ++ actions, ?_⟩
  rw [run_append, hstep]
  exact { hend with toMoved := hmoved.trans hend.toMoved }

end Run

/-! ## Outcomes of calls -/

namespace Call

variable (answer : E → (q : S.Question) → E × S.Answer q)

/-- Carried out from `c`, the call ends, in an outcome and at a point that `Q` is true of. -/
def Wp (m : Call S ε α) (c : Point S E) (Q : Except ε α → Point S E → Prop) : Prop :=
  ∃ r c', (∀ k, (m k).eval answer c = (k r).eval answer c') ∧ Q r c'

/-- Carried out from `c`, the call ends in a value. -/
abbrev Succeeds (m : Call S ε α) (c : Point S E) (G : α → Point S E → Prop) : Prop :=
  Wp answer m c fun r c' => ∃ a, r = .ok a ∧ G a c'

variable {answer} {c : Point S E} {Q Q' : Except ε α → Point S E → Prop} {m : Call S ε α}
  {m0 : Call S ε β} {f : β → Call S ε α} {q : S.Question} {ready : S.Shared → Bool}
  {update : S.Shared → S.Shared} {K : Point S E → Prop}

namespace Wp

theorem conseq (h : Wp answer m c Q) (hQ : ∀ r c', Q r c' → Q' r c') : Wp answer m c Q' := by
  obtain ⟨r, c', heval, hr⟩ := h
  exact ⟨r, c', heval, hQ r c' hr⟩

theorem pure {a : α} (h : Q (.ok a) c) : Wp answer (Pure.pure a : Call S ε α) c Q :=
  ⟨.ok a, c, fun _ => rfl, h⟩

theorem throw {e : ε} (h : Q (.error e) c) : Wp answer (Call.throw e : Call S ε α) c Q :=
  ⟨.error e, c, fun _ => rfl, h⟩

theorem ofExcept {r : Except ε α} (h : Q r c) : Wp answer (Call.ofExcept r) c Q :=
  ⟨r, c, fun _ => rfl, h⟩

theorem bind (h : Wp answer m0 c fun r c' => match r with
      | .ok b => Wp answer (f b) c' Q
      | .error e => Q (.error e) c') : Wp answer (m0 >>= f) c Q := by
  obtain ⟨r, c', heval, hr⟩ := h
  cases r with
  | ok =>
    obtain ⟨r', c'', heval', hr'⟩ := hr
    exact ⟨r', c'', fun k => (heval _).trans (heval' k), hr'⟩
  | error e => exact ⟨.error e, c', fun k => heval _, hr⟩

theorem attempt {Q : Except ε (Except ε α) → Point S E → Prop}
    (h : Wp answer m c fun r c' => Q (.ok r) c') : Wp answer (Call.attempt m) c Q := by
  obtain ⟨r, c', heval, hr⟩ := h
  exact ⟨.ok r, c', fun k => heval _, hr⟩

theorem access {read : S.Shared → α} (hready : ready c.shared = true)
    (h : Q (.ok (read c.shared)) { c with shared := update c.shared }) :
    Wp answer (Call.access ready update read : Call S ε α) c Q :=
  ⟨.ok (read c.shared), { c with shared := update c.shared }, fun _ => if_pos hready, h⟩

theorem read {f : S.Shared → α} (h : Q (.ok (f c.shared)) c) :
    Wp answer (Call.read f : Call S ε α) c Q :=
  access rfl h

theorem modify {f : S.Shared → S.Shared} {Q : Except ε Unit → Point S E → Prop}
    (h : Q (.ok ()) { c with shared := f c.shared }) :
    Wp answer (Call.modify f : Call S ε Unit) c Q :=
  access rfl h

theorem ask {Q : Except ε (S.Answer q) → Point S E → Prop}
    (h : Q (.ok (answer c.env q).2) { c with env := (answer c.env q).1 }) :
    Wp answer (Call.ask q : Call S ε (S.Answer q)) c Q :=
  ⟨.ok (answer c.env q).2, { c with env := (answer c.env q).1 }, fun _ => rfl, h⟩

theorem bind_access {g : S.Shared → β} (hready : ready c.shared = true)
    (h : Wp answer (f (g c.shared)) { c with shared := update c.shared } Q) :
    Wp answer (Call.access ready update g >>= f) c Q :=
  bind (access hready h)

theorem bind_read {g : S.Shared → β} (h : Wp answer (f (g c.shared)) c Q) :
    Wp answer (Call.read g >>= f) c Q :=
  bind (read h)

theorem bind_modify {g : S.Shared → S.Shared} {f : Unit → Call S ε α}
    (h : Wp answer (f ()) { c with shared := g c.shared } Q) :
    Wp answer (Call.modify g >>= f) c Q :=
  bind (modify h)

theorem bind_ask {f : S.Answer q → Call S ε α}
    (h : Wp answer (f (answer c.env q).2) { c with env := (answer c.env q).1 } Q) :
    Wp answer (Call.ask q >>= f) c Q :=
  bind (ask h)

theorem holding {acquire release : Call S ε Unit}
    (h : Wp answer acquire c fun r c1 => match r with
      | .ok _ => Wp answer m c1 fun r c2 => Wp answer release c2 fun r' c3 => match r' with
        | .ok _ => Q r c3
        | .error e => Q (.error e) c3
      | .error e => Q (.error e) c1) :
    Wp answer (Call.holding acquire release m) c Q := by
  refine bind (h.conseq fun r c1 h1 => ?_)
  cases r with
  | error => exact h1
  | ok =>
    refine bind (attempt (h1.conseq fun r c2 h2 => ?_))
    refine bind (h2.conseq fun r' c3 h3 => ?_)
    cases r' with
    | ok => exact ofExcept h3
    | error => exact h3

/-- The outcome of a call that is the whole of a task. -/
theorem eval (h : Wp answer m c Q) (result : Except ε α → S.Result) :
    ∃ r c', (m.toTask result).eval answer c = some (result r, c') ∧ Q r c' := by
  obtain ⟨r, c', heval, hr⟩ := h
  exact ⟨r, c', heval _, hr⟩

end Wp

namespace Succeeds

variable {G G' : α → Point S E → Prop}

theorem imp (h : Succeeds answer m c G) (hG : ∀ a c', G a c' → G' a c') : Succeeds answer m c G' :=
  h.conseq fun _ c' ⟨a, hr, ha⟩ => ⟨a, hr, hG a c' ha⟩

theorem pure {a : α} (h : G a c) : Succeeds answer (Pure.pure a : Call S ε α) c G :=
  Wp.pure ⟨a, rfl, h⟩

/-- What comes after a call that succeeds. -/
theorem bind {G : β → Point S E → Prop}
    (h : Succeeds answer m0 c G) (hf : ∀ b c', G b c' → Wp answer (f b) c' Q) :
    Wp answer (m0 >>= f) c Q := by
  refine Wp.bind (h.conseq fun r c' hr => ?_)
  obtain ⟨b, rfl, hb⟩ := hr
  exact hf b c' hb

end Succeeds

variable (answer) in
/-- Carried out from a point that `K` is true of, the call ends at another. -/
def Maintains (K : Point S E → Prop) (m : Call S ε α) : Prop :=
  ∀ c, K c → Wp answer m c fun _ c' => K c'

namespace Maintains

theorem pure {a : α} : Maintains answer K (Pure.pure a : Call S ε α) := fun _ hc => Wp.pure hc

theorem throw {e : ε} : Maintains answer K (Call.throw e : Call S ε α) := fun _ hc => Wp.throw hc

theorem bind (hm : Maintains answer K m0)
    (hf : ∀ b, Maintains answer K (f b)) : Maintains answer K (m0 >>= f) := by
  refine fun c hc => Wp.bind ((hm c hc).conseq fun r c' hc' => ?_)
  cases r with
  | ok b => exact hf b c' hc'
  | error => exact hc'

/-- What comes after a call that maintains `K`. -/
theorem bind_wp (hm : Maintains answer K m0) (hc : K c)
    (hf : ∀ b c', K c' → Wp answer (f b) c' Q) (herr : ∀ e c', K c' → Q (.error e) c') :
    Wp answer (m0 >>= f) c Q := by
  refine Wp.bind ((hm c hc).conseq fun r c' hc' => ?_)
  cases r with
  | ok b => exact hf b c' hc'
  | error e => exact herr e c' hc'

theorem attempt (hm : Maintains answer K m) : Maintains answer K (Call.attempt m) :=
  fun c hc => Wp.attempt (hm c hc)

theorem read {f : S.Shared → α} : Maintains answer K (Call.read f : Call S ε α) :=
  fun _ hc => Wp.read hc

theorem ask (h : ∀ c, K c → K { c with env := (answer c.env q).1 }) :
    Maintains answer K (Call.ask q : Call S ε (S.Answer q)) :=
  fun c hc => Wp.ask (h c hc)

end Maintains

variable (answer) in
/-- The same, and a value it ends in satisfies `post`. -/
def Yields (K : Point S E → Prop) (m : Call S ε α) (post : α → Prop) : Prop :=
  ∀ c, K c → Wp answer m c fun r c' => K c' ∧ ∀ a, r = .ok a → post a

theorem Maintains.yields (h : Maintains answer K m) : Yields answer K m fun _ => True :=
  fun c hc => (h c hc).conseq fun _ _ hc' => ⟨hc', fun _ _ => trivial⟩

namespace Yields

variable {post post' : α → Prop}

theorem conseq (h : Yields answer K m post) (hpost : ∀ a, post a → post' a) :
    Yields answer K m post' :=
  fun c hc => (h c hc).conseq fun _ _ h' => ⟨h'.1, fun a ha => hpost a (h'.2 a ha)⟩

theorem maintains (h : Yields answer K m post) : Maintains answer K m :=
  fun c hc => (h c hc).conseq fun _ _ h' => h'.1

/-- Whatever the value. -/
theorem any (h : Yields answer K m post) : Yields answer K m fun _ => True :=
  h.conseq fun _ _ => trivial

theorem pure {a : α} (h : post a) : Yields answer K (Pure.pure a : Call S ε α) post :=
  fun _ hc => Wp.pure ⟨hc, fun _ ha => Except.ok.inj ha ▸ h⟩

theorem throw {e : ε} : Yields answer K (Call.throw e : Call S ε α) post :=
  fun _ hc => Wp.throw ⟨hc, nofun⟩

theorem ofExcept {r : Except ε α} (h : ∀ a, r = .ok a → post a) :
    Yields answer K (Call.ofExcept r) post :=
  fun _ hc => Wp.ofExcept ⟨hc, h⟩

theorem bind {R : β → Prop} (hm : Yields answer K m0 R)
    (hf : ∀ b, R b → Yields answer K (f b) post) : Yields answer K (m0 >>= f) post := by
  refine fun c hc => Wp.bind ((hm c hc).conseq fun r c' h => ?_)
  cases r with
  | ok b => exact hf b (h.2 b rfl) c' h.1
  | error => exact ⟨h.1, nofun⟩

/-- What comes after a call that maintains `K` and yields such a value. -/
theorem bind_wp {R : β → Prop} (hm : Yields answer K m0 R)
    (hc : K c) (hf : ∀ b c', K c' → R b → Wp answer (f b) c' Q)
    (herr : ∀ e c', K c' → Q (.error e) c') : Wp answer (m0 >>= f) c Q := by
  refine Wp.bind ((hm c hc).conseq fun r c' h => ?_)
  cases r with
  | ok b => exact hf b c' h.1 (h.2 b rfl)
  | error e => exact herr e c' h.1

/-- Two calls, the first of which is called for what it does. -/
theorem seq {R : β → Prop} (hm : Yields answer K m0 R)
    (hf : ∀ b, Yields answer K (f b) post) : Yields answer K (m0 >>= f) post :=
  hm.bind fun b _ => hf b

theorem attempt {Q : α → Prop} (hm : Yields answer K m Q) :
    Yields answer K (Call.attempt m) fun r => ∀ a, r = .ok a → Q a :=
  fun c hc => Wp.attempt ((hm c hc).conseq fun _ _ h =>
    ⟨h.1, fun _ hr => Except.ok.inj hr ▸ h.2⟩)

theorem read {f : S.Shared → α} (h : ∀ c, K c → post (f c.shared)) :
    Yields answer K (Call.read f : Call S ε α) post :=
  fun c hc => Wp.read ⟨hc, fun _ ha => Except.ok.inj ha ▸ h c hc⟩

theorem modify {f : S.Shared → S.Shared} (h : ∀ c, K c → K { c with shared := f c.shared }) :
    Yields answer K (Call.modify f : Call S ε Unit) fun _ => True :=
  fun c hc => Wp.modify ⟨h c hc, fun _ _ => trivial⟩

theorem ask {post : S.Answer q → Prop}
    (h : ∀ c, K c → K { c with env := (answer c.env q).1 } ∧ post (answer c.env q).2) :
    Yields answer K (Call.ask q : Call S ε (S.Answer q)) post :=
  fun c hc => Wp.ask ⟨(h c hc).1, fun _ ha => Except.ok.inj ha ▸ (h c hc).2⟩

end Yields

/-! ### Calls that may have to wait -/

/-- If the call, carried out from `c`, ends, it ends in an outcome and at a point that `Q` is true
of. -/
def Wlp (answer : E → (q : S.Question) → E × S.Answer q) (m : Call S ε α) (c : Point S E)
    (Q : Except ε α → Point S E → Prop) : Prop :=
  ∀ k x, (m k).eval answer c = some x → ∃ r c', (k r).eval answer c' = some x ∧ Q r c'

namespace Wlp

theorem conseq (h : Wlp answer m c Q) (hQ : ∀ r c', Q r c' → Q' r c') : Wlp answer m c Q' := by
  intro k x hx
  obtain ⟨r, c', heval, hr⟩ := h k x hx
  exact ⟨r, c', heval, hQ r c' hr⟩

theorem ofExcept {r : Except ε α} (h : Q r c) : Wlp answer (Call.ofExcept r) c Q :=
  fun _ _ hx => ⟨r, c, hx, h⟩

theorem pure {a : α} (h : Q (.ok a) c) : Wlp answer (Pure.pure a : Call S ε α) c Q :=
  ofExcept h

theorem throw {e : ε} (h : Q (.error e) c) : Wlp answer (Call.throw e : Call S ε α) c Q :=
  ofExcept h

theorem bind (h : Wlp answer m0 c fun r c' => match r with
      | .ok b => Wlp answer (f b) c' Q
      | .error e => Q (.error e) c') : Wlp answer (m0 >>= f) c Q := by
  intro k x hx
  obtain ⟨r, c', heval, hr⟩ := h _ x hx
  cases r with
  | ok => exact hr k x heval
  | error e => exact ⟨.error e, c', heval, hr⟩

theorem attempt {Q : Except ε (Except ε α) → Point S E → Prop}
    (h : Wlp answer m c fun r c' => Q (.ok r) c') : Wlp answer (Call.attempt m) c Q := by
  intro k x hx
  obtain ⟨r, c', heval, hr⟩ := h _ x hx
  exact ⟨.ok r, c', heval, hr⟩

theorem access {read : S.Shared → α}
    (h : Q (.ok (read c.shared)) { c with shared := update c.shared }) :
    Wlp answer (Call.access ready update read : Call S ε α) c Q := by
  intro k x hx
  rw [Call.access, Task.eval] at hx
  split at hx
  · exact ⟨_, _, hx, h⟩
  · cases hx

theorem ask {Q : Except ε (S.Answer q) → Point S E → Prop}
    (h : Q (.ok (answer c.env q).2) { c with env := (answer c.env q).1 }) :
    Wlp answer (Call.ask q : Call S ε (S.Answer q)) c Q :=
  fun _ _ hx => ⟨_, _, hx, h⟩

theorem holding {acquire release : Call S ε Unit}
    (h : Wlp answer acquire c fun r c1 => match r with
      | .ok _ => Wlp answer m c1 fun r c2 => Wlp answer release c2 fun r' c3 => match r' with
        | .ok _ => Q r c3
        | .error e => Q (.error e) c3
      | .error e => Q (.error e) c1) :
    Wlp answer (Call.holding acquire release m) c Q := by
  refine bind (h.conseq fun r c1 h1 => ?_)
  cases r with
  | error => exact h1
  | ok =>
    refine bind (attempt (h1.conseq fun r c2 h2 => ?_))
    refine bind (h2.conseq fun r' c3 h3 => ?_)
    cases r' with
    | ok => exact ofExcept h3
    | error => exact h3

/-- What is true of the outcome of a call is true of the outcome of the task that it is. -/
theorem of_eval {result : Except ε α → S.Result} (h : Wlp answer m c Q)
    {x : S.Result} {c' : Point S E} (heval : (m.toTask result).eval answer c = some (x, c')) :
    ∃ r, x = result r ∧ Q r c' := by
  obtain ⟨r, c'', heval', hr⟩ := h _ _ heval
  cases heval'
  exact ⟨r, rfl, hr⟩

end Wlp

/-- Carried out from a point that `K` is true of, the call ends at another, if it ends. -/
def Preserves (answer : E → (q : S.Question) → E × S.Answer q) (K : Point S E → Prop)
    (m : Call S ε α) : Prop :=
  ∀ c, K c → Wlp answer m c fun _ c' => K c'

namespace Preserves

theorem ofExcept {r : Except ε α} : Preserves answer K (Call.ofExcept r) :=
  fun _ hc => Wlp.ofExcept hc

theorem pure {a : α} : Preserves answer K (Pure.pure a : Call S ε α) := fun _ hc => Wlp.pure hc

theorem throw {e : ε} : Preserves answer K (Call.throw e : Call S ε α) := fun _ hc => Wlp.throw hc

theorem bind (hm : Preserves answer K m0)
    (hf : ∀ b, Preserves answer K (f b)) : Preserves answer K (m0 >>= f) := by
  refine fun c hc => Wlp.bind ((hm c hc).conseq fun r c' h => ?_)
  cases r with
  | ok b => exact hf b c' h
  | error => exact h

theorem access {read : S.Shared → α} (h : ∀ c, K c → K { c with shared := update c.shared }) :
    Preserves answer K (Call.access ready update read : Call S ε α) :=
  fun c hc => Wlp.access (h c hc)

theorem read {f : S.Shared → α} : Preserves answer K (Call.read f : Call S ε α) :=
  access fun _ hc => hc

theorem ask (h : ∀ c, K c → K { c with env := (answer c.env q).1 }) :
    Preserves answer K (Call.ask q : Call S ε (S.Answer q)) :=
  fun c hc => Wlp.ask (h c hc)

theorem attempt (hm : Preserves answer K m) : Preserves answer K (Call.attempt m) :=
  fun c hc => Wlp.attempt (hm c hc)

end Preserves

end Call

end Async
