import QuickFS.Export.RequestPolicy

/-!
# A session that cannot write

Whether a session can write is asked anew by every request that would change something: the export
has to be writable, and the session to have been granted writing.  A handle that was opened for
writing while that was so is no exception.  So as long as it is not so, the session's requests ask
the host for nothing that changes anything, in whatever order the host and the requests take their
steps (`read_only`).  What the tree is does not matter: `tree` is any view of the host that the
calls which change nothing leave alone — its names, the contents of its files and their sizes, modes
and times of modification, their attributes and the resource forks.
-/

namespace QuickFS.Export

open Server Async

/-- Nothing is changed, and nothing else is asked. -/
def changeNothing : Policy where
  held _ := True
  looked _ := True
  opened _ := True
  writes := False
  held_root := trivial
  opened_normal _ _ := trivial
  looked_opened _ _ := trivial

theorem mutates_of_changeNothing {call : HostCall} (h : changeNothing.Allows call) :
    call.mutates = false := by
  cases hmutates : call.mutates with
  | false => rfl
  | true => exact (h.mutates hmutates).elim

/-- A request of session `i` that does not let it write. -/
def KeepsReadOnly (config : Config) (i : ℕ) (op : ExportOp) : Prop :=
  ∃ request, op = .request i request ∧
    ∀ authorized, request = .setWriteAuthorized authorized → (config.writable && authorized) = false

variable {Env Choice T : Type}

/-- **A session that cannot write changes nothing.**  From any state, with whatever handles the
session has open, and in any interleaving of its requests: if it cannot write and no request lets
it, then at the end the tree and the name of the volume are what they were, and nothing was asked of
the host that changes anything. -/
theorem read_only (config : Config)
    (serve : Env → Choice → (call : HostCall) → Option (Env × call.Answer)) (tree : Env → T)
    (hserve : ∀ env choice call env' answer, call.mutates = false →
      serve env choice call = some (env', answer) → tree env' = tree env)
    (i : ℕ) (s : State) (env : Env) (hs : canWrite config i s = false)
    (actions : List (Action (exportFrame Env Choice).sig))
    (hactions : ∀ op, .call op ∈ actions → KeepsReadOnly config i op) :
    tree (run (server config serve) (World.initial s env) actions).env = tree env ∧
      (run (server config serve) (World.initial s env) actions).shared.volumeName = s.volumeName ∧
      canWrite config i (run (server config serve) (World.initial s env) actions).shared = false ∧
      ∀ m ∈ (run (server config serve) (World.initial s env) actions).history, ∀ call,
        m.event = .sent call → call.mutates = false := by
  have hgood : changeNothing.Good config i s.volumeName s :=
    ⟨fun hwrite => absurd hwrite (by rw [hs]; exact Bool.false_ne_true), .inr rfl⟩
  have hholds := Task.Asks.run_sound (P := server config serve)
    (T := changeNothing.terms config i s.volumeName (exportFrame Env Choice))
    (J := fun env' => tree env' = tree env)
    (fun env₁ choice call env₂ answer hallowed hanswer htree =>
      (hserve env₁ choice call env₂ answer (mutates_of_changeNothing hallowed) hanswer).trans htree)
    hgood rfl
    (fun op _ hop => by
      obtain ⟨request, rfl, hgrant⟩ := hactions op hop
      refine (asks_request request fun authorized hrequest hwrite => ?_).toTask
        (fun _ _ => trivial) fun _ _ => trivial
      rw [hgrant authorized hrequest] at hwrite
      cases hwrite)
    (fun _ _ call answer _ => by
      cases call <;>
        first | exact fun _ _ _ => trivial | exact fun _ _ _ _ => ⟨fun _ => trivial, fun _ => trivial⟩ |
          trivial)
  refine ⟨hholds.env, hholds.good.volume.resolve_left id, ?_, fun m hm call hcall => ?_⟩
  · exact Bool.eq_false_iff.2 hholds.good.writable
  · exact mutates_of_changeNothing ((hholds.kept m hm).2 call hcall)

/-- A host that counts the calls that would change something, and does nothing. -/
def countingHost (count : ℕ) (_ : Unit) (call : HostCall) : Option (ℕ × call.Answer) :=
  some (if call.mutates then count + 1 else count, call.refuse)

/-- A session without a grant asks to open a file for writing, and to truncate it. -/
theorem read_only_open :
    (run (server smallExport countingHost)
      (World.initial { State.new smallExport ⟨1, 2⟩ [] with
        sessions := [Session.new smallExport false] } 0)
      [.call (.request 0 (.openNode 6 ⟨.readWrite, true, false⟩)), .resume 0, .resume 0]).env = 0 :=
  (read_only smallExport countingHost id
    (fun env _ call env' answer hmutates hserve => by
      rw [countingHost, hmutates] at hserve
      exact (congrArg Prod.fst (Option.some.inj hserve)).symm) 0 _ 0 rfl _
    (fun op hop => by
      cases hop with
      | head => exact ⟨_, rfl, nofun⟩
      | tail _ hop =>
        cases hop with
        | tail _ hop =>
          cases hop with
          | tail _ hop => cases hop)).1

end QuickFS.Export
