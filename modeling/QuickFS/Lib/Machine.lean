import Mathlib.Logic.Basic

/-!
# Machines that answer requests

A server that handles one request after another is a function `step : σ → ι → σ × ο` from a state
and a request to the next state and the answer, and `run` is what it does with a whole list of
requests; `trace` is the states it meets them in.  The rules are the ones such servers are verified
by: an invariant of one step is an invariant of every run, and a relation between two machines that
one step of each preserves is preserved by runs, which then give the same answers.
-/

namespace Machine

variable {σ τ ι ο π : Type*}

/-- Handle the requests in order; the answers come back in the same order. -/
def run (step : σ → ι → σ × ο) : σ → List ι → σ × List ο
  | s, [] => (s, [])
  | s, i :: rest =>
    let answered := step s i
    let finished := run step answered.1 rest
    (finished.1, answered.2 :: finished.2)

variable {step : σ → ι → σ × ο} {I : σ → Prop} {s : σ}

theorem run_invariant (hstep : ∀ s i, I s → I (step s i).1) (hs : I s) (requests : List ι) :
    I (run step s requests).1 := by
  induction requests generalizing s with
  | nil => exact hs
  | cons i _ ih => exact ih (hstep s i hs)

/-- The requests in order, each with the state it is met in. -/
def trace (step : σ → ι → σ × ο) : σ → List ι → List (σ × ι)
  | _, [] => []
  | s, i :: rest => (s, i) :: trace step (step s i).1 rest

theorem trace_invariant (hstep : ∀ s i, I s → I (step s i).1) (hs : I s) {requests : List ι}
    {met : σ × ι} (hmet : met ∈ trace step s requests) : I met.1 := by
  induction requests generalizing s with
  | nil => cases hmet
  | cons i _ ih =>
    rcases List.mem_cons.1 hmet with rfl | hmet
    · exact hs
    · exact ih (hstep s i hs) hmet

/-- An invariant of the requests that meet a condition. -/
theorem run_invariant_when {C : σ → ι → Prop} (hstep : ∀ s i, I s → C s i → I (step s i).1)
    (hs : I s) (requests : List ι) (hC : ∀ met ∈ trace step s requests, C met.1 met.2) :
    I (run step s requests).1 := by
  induction requests generalizing s with
  | nil => exact hs
  | cons i _ ih =>
    exact ih (hstep s i hs (hC _ List.mem_cons_self))
      fun met hmet => hC met (List.mem_cons_of_mem _ hmet)

/-- An invariant of the state and of the answers so far, the latest first, when the requests meet a
condition. -/
theorem run_history {I : σ → List ο → Prop} {C : σ → ι → Prop}
    (hstep : ∀ s i past, I s past → C s i → I (step s i).1 ((step s i).2 :: past)) {past : List ο}
    (hs : I s past) (requests : List ι) (hC : ∀ met ∈ trace step s requests, C met.1 met.2) :
    I (run step s requests).1 ((run step s requests).2.reverse ++ past) := by
  induction requests generalizing s past with
  | nil => exact hs
  | cons i _ ih =>
    have hnext := ih (hstep s i past hs (hC _ List.mem_cons_self))
      fun met hmet => hC met (List.mem_cons_of_mem _ hmet)
    simpa only [run, List.reverse_cons, List.append_assoc, List.singleton_append] using hnext

/-- **Simulation.**  Machines whose steps keep a relation and answer alike, up to a translation `f`
of the answers, keep it and answer alike over every list of requests. -/
theorem run_simulates {step' : τ → ι → τ × π} {R : σ → τ → Prop}
    {f : ο → π} (hstep : ∀ s t i, R s t → R (step s i).1 (step' t i).1 ∧
      f (step s i).2 = (step' t i).2) {t : τ} (hst : R s t) (requests : List ι) :
    R (run step s requests).1 (run step' t requests).1 ∧
      (run step s requests).2.map f = (run step' t requests).2 := by
  induction requests generalizing s t with
  | nil => exact ⟨hst, rfl⟩
  | cons i _ ih =>
    obtain ⟨hnext, hanswer⟩ := hstep s t i hst
    obtain ⟨hfinal, hrest⟩ := ih hnext
    exact ⟨hfinal, by simp only [run, List.map_cons, hanswer, hrest]⟩

end Machine
