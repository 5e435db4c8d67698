import QuickFS.Export.Looks
import QuickFS.Lib.Asks

/-!
# What the server asks of the host

A `Policy` limits what is asked of the host: by name only through certain descriptors, by certain
names and without following a symbolic link, and nothing that changes anything unless `writes`.
Every request keeps to every policy (`asks_request`), as long as the host's answers do: what it
opens through such a descriptor is such a descriptor, and what it lists are such names.  A policy is
a view that knows no more than that (`Policy.view`), so that functions that look keep to it
(`Looks.asks`).

Two policies are put to use: `QuickFS.Export.ReadOnly` lets nothing be changed, and
`QuickFS.Export.Confinement` lets nothing be reached but from the root.
-/

namespace QuickFS.Export

open Server Async
open Call (Asks)

/-! ## Policies -/

/-- The descriptors that names may be looked up in, the names that may be looked at and those that
may be used otherwise, and whether anything may be changed. -/
structure Policy where
  held : Fd → Prop
  looked : Name → Prop
  opened : Name → Prop
  writes : Prop
  held_root : held rootFile
  opened_normal : ∀ name, isNormal name = true → opened name
  looked_opened : ∀ name, opened name → looked name

namespace Policy

/-- The calls that may be made. -/
def Allows (p : Policy) : HostCall → Prop
  | .dup directory => p.held directory
  | .openat directory name flags _ => p.held directory ∧ p.opened name ∧
      (flags.nofollow = true ∨ flags.create = true ∧ flags.excl = true) ∧
      (flags.create = true → p.writes)
  | .statat directory name => p.held directory ∧ p.looked name
  | .readlinkat directory name => p.held directory ∧ p.opened name
  | .mkdirat directory name _ | .symlinkat _ directory name | .mknodat directory name ..
  | .unlinkat directory name _ | .chmodat directory name _ | .utimensat directory name .. =>
      p.held directory ∧ p.opened name ∧ p.writes
  | .linkat directory name directory' name' | .renameat directory name directory' name' _ =>
      p.held directory ∧ p.opened name ∧ p.held directory' ∧ p.opened name' ∧ p.writes
  | call => call.mutates = true → p.writes

/-- The answers that may be given. -/
def Fair (p : Policy) : (call : HostCall) → call.Answer → Prop
  | .dup directory, answer => p.Allows (.dup directory) → ∀ file, answer = .ok file → p.held file
  | .openat directory name flags mode, answer =>
      p.Allows (.openat directory name flags mode) → ∀ file, answer = .ok file → p.held file
  | .readdir _ search, answer => ∀ names, answer = .ok names → Streams p.looked p.opened search names
  | _, _ => True

/-- Session `i` can write only if things may be changed, and so does the name of the volume. -/
structure Good (p : Policy) (config : Config) (i : ℕ) (volume : Bytes) (s : State) : Prop where
  writable : canWrite config i s = true → p.writes
  volume : p.writes ∨ s.volumeName = volume

/-- The policy as the terms of a program. -/
def terms (p : Policy) (config : Config) (i : ℕ) (volume : Bytes) (F : Frame) : Terms F.sig where
  good := p.Good config i volume
  fair := p.Fair
  allowed := p.Allows

/-- What may be changed may only be changed where that is allowed. -/
theorem Allows.mutates {p : Policy} {call : HostCall} (h : p.Allows call)
    (hcall : call.mutates = true) : p.writes := by
  cases call <;> first | exact h hcall | exact h.2.2 | exact h.2.2.2 hcall | exact h.2.2.2.2 |
    cases hcall

end Policy

variable {F : Frame} {α : Type} {p : Policy} {config : Config} {i : ℕ} {volume : Bytes}

/-- A function keeps to the policy. -/
abbrev Keeps (p : Policy) (config : Config) (i : ℕ) (volume : Bytes) (m : Run F α)
    (post : α → Prop) : Prop :=
  Asks (p.terms config i volume F) m post fun _ => True

/-! ## Rules -/

section Rules

variable {post : α → Prop}

theorem asks_throw {error : ServerError} :
    Keeps p config i volume (Call.throw error : Run F α) post :=
  Asks.throw trivial

variable {call : HostCall} {read : call.Answer → Except Errno α}

theorem asks_host {post : call.Answer → Prop} (hcall : p.Allows call)
    (h : ∀ answer, p.Fair call answer → post answer) :
    Keeps p config i volume (host call : Run F _) post :=
  Asks.ask (S := F.sig) (by exact hcall) h

theorem asks_system (hcall : p.Allows call)
    (h : ∀ answer, p.Fair call answer → ∀ a, read answer = .ok a → post a) :
    Keeps p config i volume (system call read : Run F α) post := by
  refine Asks.bind (asks_host hcall fun _ hfair => hfair) fun answer hfair => ?_
  split
  · rename_i a ha
    exact Asks.pure (h answer hfair a ha)
  · exact asks_throw

/-- A call of the system whose answer does not matter here. -/
theorem asks_call (hcall : p.Allows call) :
    Keeps p config i volume (system call read : Run F α) fun _ => True :=
  asks_system hcall fun _ _ _ _ => trivial

theorem asks_atomically {f : State → Except ServerError α × State}
    (h : ∀ s, p.Good config i volume s → p.Good config i volume (f s).2) :
    Keeps p config i volume (atomically f : Run F α) fun _ => True := by
  have haccess : Keeps (F := F) p config i volume (Call.access (fun _ => true) (fun s => (f s).2)
      fun s => (f s).1) fun _ => True :=
    Asks.access fun s hs => ⟨h s hs, trivial⟩
  exact haccess.seq fun _ => Asks.ofExcept (fun _ _ => trivial) fun _ _ => trivial

theorem asks_ofExcept {r : Except ServerError α} :
    Keeps p config i volume (Call.ofExcept r : Run F α) fun _ => True :=
  Asks.ofExcept (fun _ _ => trivial) fun _ _ => trivial

theorem asks_releasing {release : State → State} {m : Run F α} (hm : Keeps p config i volume m post)
    (h : ∀ s, p.Good config i volume s → p.Good config i volume (release s)) :
    Keeps p config i volume (releasing release m) post := by
  refine Asks.bind hm.attempt fun outcome houtcome => ?_
  split
  · rename_i a
    exact Asks.pure (houtcome.1 a rfl)
  · exact (Asks.modify h).seq fun _ => asks_throw

theorem asks_provided {condition : Bool} {m : Run F Unit}
    (h : condition = true → Keeps p config i volume m fun _ => True) :
    Keeps p config i volume (provided condition m) fun _ => True := by
  rw [provided]
  split
  · rename_i hcondition
    exact h hcondition
  · exact Asks.pure trivial

end Rules

/-! ## The state -/

section Alike

variable {s s' : State}

theorem alike_dropNodePermits {j : ℕ} : Alike s (dropNodePermits j s) :=
  alike_setSession (by rfl) (by rfl) rfl

theorem Alike.canWrite (h : Alike s s') (j : ℕ) : canWrite config j s' = canWrite config j s := by
  rw [Export.canWrite, Export.canWrite, writeAuthorized_session, writeAuthorized_session, h.sessions]

theorem Policy.Good.alike (hs : p.Good config i volume s) (h : Alike s s') :
    p.Good config i volume s' := by
  refine ⟨fun hwrite => hs.writable ?_, ?_⟩
  · rw [← h.canWrite]
    exact hwrite
  · rw [h.volumeName]
    exact hs.volume

/-- What leaves states alike is no matter of policy. -/
theorem asks_alike {f : State → Except ServerError α × State} (h : ∀ s, Alike s (f s).2) :
    Keeps p config i volume (atomically f : Run F α) fun _ => True :=
  asks_atomically fun s hs => hs.alike (h s)

variable (identity : FileIdentity) (path : PathBuf)

theorem alike_rememberExisting (s : State) : Alike s (rememberExisting identity path s).2 := by
  rw [rememberExisting]
  split
  · exact .refl s
  · refine alike_of_eq ?_ ?_ <;> dsimp only <;> split <;> rfl

theorem alike_insertReserved (s : State) : Alike s (insertReserved config identity path s).2 := by
  have hexisting := alike_rememberExisting identity path s
  rw [insertReserved]
  split
  · rename_i node s1 heq
    rw [heq] at hexisting
    exact hexisting.trans (alike_of_eq rfl rfl)
  rename_i s1 _ heq
  rw [heq] at hexisting
  dsimp only
  split
  · exact hexisting.trans (alike_of_eq rfl rfl)
  · exact hexisting.trans (alike_of_eq rfl rfl)

end Alike

/-! ## Looking -/

variable {m : Run F α}

/-- A function without state keeps to the policy. -/
theorem Plain.keeps {writes : Prop} {forks : NodeId → Prop}
    (hp : writes → p.writes) (h : Plain writes forks m) :
    Keeps p config i volume m fun _ => True := by
  induction h with
  | pure => exact Asks.pure trivial
  | throw => exact asks_throw
  | ask hfile hwrites =>
    refine asks_host ?_ fun _ _ => trivial
    rename_i call _
    cases call <;> first | exact fun h => hp (hwrites h) | cases hfile
  | bind _ _ hm hf => exact hm.seq hf
  | attempt _ hm => exact hm.attempt.any

theorem Plain.asks (h : Plain p.writes (fun _ => True) m) :
    Keeps p config i volume m fun _ => True :=
  h.keeps id

/-- What may be known where there is a policy. -/
def Policy.view (p : Policy) : View where
  held file _ := p.held file
  file _ _ := True
  child _ _ _ := True
  found _ _ := True
  known _ _ := True
  named _ _ := True
  looked := p.looked
  opened := p.opened
  held_root := p.held_root
  found_file _ _ := trivial
  found_child _ _ := trivial
  named_known _ := trivial
  opened_normal := p.opened_normal
  looked_opened := p.looked_opened

/-- **A function that only looks keeps to the policy.** -/
theorem Looks.asks {post : α → Prop} (h : Looks p.view config m post) :
    Keeps p config i volume m post := by
  induction h with
  | ofExcept h => exact Asks.ofExcept h fun _ _ => trivial
  | bind _ _ hm hf => exact hm.bind hf
  | attempt _ hm => exact hm.attempt.conseq (fun _ h => h.1) fun _ h => h
  | conseq _ h hm => exact hm.conseq h fun _ h => h
  | read => exact Asks.read fun _ _ => trivial
  | plain h => exact h.keeps False.elim
  | dup h => exact asks_system h fun _ hfair file hfile => hfair h file hfile
  | openat h hname hcreate hnofollow =>
    rename_i directory _ name flags mode
    have hallows : p.Allows (.openat directory name flags mode) :=
      ⟨h, hname, .inl hnofollow, fun h => absurd (hcreate.symm.trans h) Bool.false_ne_true⟩
    exact asks_system hallows fun _ hfair file hfile => hfair hallows file hfile
  | statat h hname => exact asks_system ⟨h, hname⟩ fun _ _ _ _ _ => trivial
  | fstat => exact asks_system nofun fun _ _ _ _ => trivial
  | readdir => exact asks_system nofun fun _ hfair names hnames => hfair names hnames
  | loses h => exact asks_alike fun s => (h s).toAlike
  | releasing _ h hm => exact asks_releasing hm fun s hs => hs.alike (h s).toAlike
  | remembers =>
    exact (asks_alike (alike_rememberExisting _ _)).conseq (fun _ _ _ _ => trivial) fun _ h => h
  | inserts => exact asks_alike (alike_insertReserved _ _)
  | lookUp =>
    refine asks_alike fun s => ?_
    rw [Export.lookUp]
    split <;> exact .refl s
  | opens => exact asks_alike fun s => alike_setSession (by rfl) (by rfl) rfl

/-- The outcome of a call is looked at, and its value and its errors are told or passed over. -/
theorem asks_attempt {β : Type} {f : Except ServerError α → Run F β}
    (hm : Keeps p config i volume m fun _ => True)
    (hf : ∀ r, Keeps p config i volume (f r) fun _ => True) :
    Keeps p config i volume (Call.attempt m >>= f) fun _ => True :=
  hm.attempt.seq hf

end QuickFS.Export
