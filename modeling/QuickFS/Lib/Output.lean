import Mathlib.Data.List.Basic

/-!
# Programs that put things out

A program of type `Output ε φ α` puts out values of type `φ`, one after another, and ends with a
result of type `α` or with an error of type `ε`.  What it has put out before an error stays put out.

There are three ways to say what such a program does.  `Writes p a items` says that it succeeds, and
exactly what it puts out; `Only Q p` says that whatever it puts out, before an error or not, is of a
certain kind; `Ends p P` says that it succeeds with a value of a certain kind, whatever was put out
before.  All of them go through a program statement by statement.
-/

abbrev Output (ε φ : Type) := ExceptT ε (StateM (List φ))

namespace Output

variable {ε φ α β : Type}

def emit (item : φ) : Output ε φ Unit := ExceptT.mk fun before => (.ok (), before ++ [item])

/-- The result of a program, and all that has been put out when it ends. -/
def on (p : Output ε φ α) (before : List φ) : Except ε α × List φ := p.run before

theorem on_bind (p : Output ε φ α) (f : α → Output ε φ β) (before : List φ) :
    (p >>= f).on before =
      match p.on before with
      | (.ok a, after) => (f a).on after
      | (.error e, after) => (.error e, after) := by
  change (do
    let (a, after) ← p.run before
    ExceptT.bindCont f a after : Id _) = _
  rcases h : p.run before with ⟨a | a, after⟩ <;> simp only [on, h] <;> rfl

theorem on_pure (a : α) (before : List φ) : (pure a : Output ε φ α).on before = (.ok a, before) :=
  rfl

/-- The result of a program as a value, whether it has succeeded or not. -/
def attempt (p : Output ε φ α) : Output ε φ (Except ε α) :=
  ExceptT.mk fun before => (.ok (p.on before).1, (p.on before).2)

/-! ## Programs that succeed -/

/-- The program ends with `a`, and has put out `items`. -/
def Writes (p : Output ε φ α) (a : α) (items : List φ) : Prop :=
  ∀ before, p.on before = (.ok a, before ++ items)

namespace Writes

theorem emit (item : φ) : Writes (Output.emit item : Output ε φ Unit) () [item] := fun _ => rfl

theorem pure (a : α) : Writes (Pure.pure a : Output ε φ α) a [] := by
  intro before
  rw [on_pure, List.append_nil]

theorem bind {p : Output ε φ α} {f : α → Output ε φ β} {a : α} {b : β} {items more : List φ}
    (hp : Writes p a items) (hf : Writes (f a) b more) : Writes (p >>= f) b (items ++ more) := by
  intro before
  rw [on_bind, hp]
  simp only
  rw [hf, List.append_assoc]

end Writes

/-- The program ends with a value of the kind `P`. -/
def Ends (p : Output ε φ α) (P : α → Prop) : Prop := ∀ before, ∃ a, (p.on before).1 = .ok a ∧ P a

namespace Ends

theorem pure {P : α → Prop} {a : α} (h : P a) : Ends (Pure.pure a : Output ε φ α) P :=
  fun _ => ⟨a, rfl, h⟩

theorem bind {p : Output ε φ α} {f : α → Output ε φ β} {P : α → Prop} {R : β → Prop}
    (hp : Ends p P) (hf : ∀ a, P a → Ends (f a) R) : Ends (p >>= f) R := by
  intro before
  obtain ⟨a, ha, hP⟩ := hp before
  obtain ⟨b, hb, hR⟩ := hf a hP (p.on before).2
  refine ⟨b, ?_, hR⟩
  rw [on_bind]
  rcases hon : p.on before with ⟨r, after⟩
  rw [hon] at ha hb
  cases ha
  exact hb

theorem attempt {p : Output ε φ α} {P : Except ε α → Prop} (h : ∀ before, P (p.on before).1) :
    Ends (Output.attempt p) P :=
  fun before => ⟨_, rfl, h before⟩

theorem mapM {f : α → Output ε φ β} {R : α → β → Prop} {l : List α}
    (h : ∀ a ∈ l, Ends (f a) (R a)) : Ends (l.mapM f) (List.Forall₂ R l) := by
  induction l with
  | nil => exact .pure .nil
  | cons a l ih =>
    rw [List.mapM_cons]
    exact (h a List.mem_cons_self).bind fun b hb =>
      (ih fun a' ha' => h a' (List.mem_cons_of_mem _ ha')).bind fun bs hbs => .pure (.cons hb hbs)

end Ends

/-! ## What a program may put out -/

/-- All that the program puts out is of the kind `Q`. -/
def Only (Q : φ → Prop) (p : Output ε φ α) : Prop :=
  ∀ before, ∃ items, (p.on before).2 = before ++ items ∧ ∀ item ∈ items, Q item

namespace Only

variable {Q : φ → Prop}

theorem emit {item : φ} (h : Q item) : Only Q (Output.emit item : Output ε φ Unit) :=
  fun _ => ⟨[item], rfl, by simpa using h⟩

theorem pure (a : α) : Only Q (Pure.pure a : Output ε φ α) :=
  fun before => ⟨[], (List.append_nil before).symm, by simp⟩

theorem throw (e : ε) : Only Q (throw e : Output ε φ α) :=
  fun before => ⟨[], (List.append_nil before).symm, by simp⟩

variable {p : Output ε φ α}

theorem bind {f : α → Output ε φ β} (hp : Only Q p) (hf : ∀ a, Only Q (f a)) :
    Only Q (p >>= f) := by
  intro before
  obtain ⟨items, hitems, hQ⟩ := hp before
  rw [on_bind]
  rcases h : p.on before with ⟨e | a, after⟩
  · rw [h] at hitems
    exact ⟨items, hitems, hQ⟩
  rw [h] at hitems
  obtain ⟨more, hmore, hQ'⟩ := hf a after
  refine ⟨items ++ more, ?_, ?_⟩
  · simp only at hitems ⊢
    rw [hmore, hitems, List.append_assoc]
  intro item hitem
  rcases List.mem_append.1 hitem with hitem | hitem
  · exact hQ item hitem
  · exact hQ' item hitem

theorem attempt (h : Only Q p) : Only Q (Output.attempt p) := h

theorem mapM {f : α → Output ε φ β} {l : List α} (h : ∀ a ∈ l, Only Q (f a)) :
    Only Q (l.mapM f) := by
  induction l with
  | nil => exact .pure []
  | cons a l ih =>
    rw [List.mapM_cons]
    exact (h a List.mem_cons_self).bind fun b =>
      (ih fun a' ha' => h a' (List.mem_cons_of_mem _ ha')).bind fun bs => .pure (b :: bs)

theorem mem_on (h : Only Q p) {item : φ} (hitem : item ∈ (p.on []).2) : Q item := by
  obtain ⟨items, hitems, hQ⟩ := h []
  rw [hitems, List.nil_append] at hitem
  exact hQ item hitem

end Only

/-- What a program has put out first stays, whatever comes after it. -/
theorem mem_on_bind {p : Output ε φ α} {f : α → Output ε φ β} {a : α} {items : List φ} {item : φ}
    (hp : Writes p a items) (hf : Only (fun _ => True) (f a)) (hitem : item ∈ items) :
    item ∈ ((p >>= f).on []).2 := by
  obtain ⟨more, hmore, -⟩ := hf ([] ++ items)
  rw [on_bind, hp]
  simp only
  rw [hmore]
  exact List.mem_append_left _ (by simpa using hitem)

end Output
