import QuickFS.Adapter.Calls
import QuickFS.Lib.Sequential
import QuickFS.Server.LockLifetime

/-!
# Which flushes release locks

A process loses its locks on a file when it closes any descriptor of it.  The kernel calls `flush`
for that, with the process as the owner of the locks, and the server drops whatever the owner holds
on the file, through whichever handle it was acquired.  `flush_async` spares itself the call when
the handle can only read and no lock was set through it (`used_locks`).

But the flag belongs to the handle, and the locks belong to the process.  A process that has opened
a file twice, for reading, and has locked it through the one handle keeps its lock when it closes
the other one (`lock_survives_flush`).  The flag is right otherwise: in every sequence of calls, the
flushes release what they should exactly if each of them goes to the server or finds nothing to
release (`flushes_release_iff`).
-/

namespace QuickFS.Adapter.LockFlushes

open Async
open Call (Wlp Preserves)

/-! ## The server -/

/-- The owner holds nothing on the file, in the session. -/
def Released (e : Server.Export) (session : Uuid) (identity : Server.FileIdentity) (owner : ℕ) :
    Prop :=
  ∀ record ∈ e.locks,
    ¬ (record.session = session ∧ record.identity = identity ∧ record.lock.owner = owner)

theorem released_flush {e e' : Server.Export} {session : Uuid} {handle : FileHandle}
    {file : Server.OpenFile} {owner : ℕ} (hfile : e.sessions.openHandle session handle = .ok file)
    (h : e.flush session handle (some owner) = (e', .ok ())) :
    Released e' session file.identity owner := by
  rw [Server.Export.flush, hfile] at h
  obtain ⟨rfl, -⟩ := Prod.mk.inj h
  rintro record hrecord ⟨rfl, hidentity, rfl⟩
  obtain ⟨-, hkept⟩ := List.mem_filter.1 hrecord
  simp [hidentity] at hkept

variable {O : Outside} {E : Type}

/-- The calls of the adapter are answered by a session of an export.  A flush that is answered by
`Ok` was carried out; writing, and asking for the capabilities, has nothing to do with locks. -/
structure Serves (session : Uuid) (server : E → Server.Export)
    (answer : E → (q : Question) → E × q.Answer) : Prop where
  flush : ∀ e file lockOwner, (answer e (.call (.flushFile file lockOwner))).2 = some (.ok ()) →
    (server e).flush session file lockOwner =
      (server (answer e (.call (.flushFile file lockOwner))).1, .ok ())
  write : ∀ e file offset data,
    server (answer e (.call (.writeRange file offset data))).1 = server e
  capabilities : ∀ e, server (answer e (.call .capabilities)).1 = server e

/-! ## What is sent before a flush -/

section Pending

variable {answer : E → (q : Question) → E × q.Answer} {server : E → Server.Export}
  {session : Uuid} {handle : ℕ} {opened : FileHandleRecord} {e : Server.Export}

/-- What a flush depends on: the handle, but for the revision and the size on record, and the
server. -/
structure Still (server : E → Server.Export) (handle : ℕ) (opened : FileHandleRecord)
    (e : Server.Export) (c : Point (sig O) E) : Prop where
  record : ∃ revision size, c.shared.handles.find handle =
    some { opened with revision := revision, size := size }
  server : server c.env = e

theorem Still.remote {op : RemoteCall} (h : ∀ e, server (answer e (.call op)).1 = server e) :
    Preserves answer (Still (O := O) server handle opened e) (remote op) := by
  refine (Preserves.ask fun c hc => ⟨hc.record, (h _).trans hc.server⟩).bind fun a => ?_
  split
  · exact .throw
  · exact .throw
  · exact .pure

theorem Still.ensure {condition : Bool} {error : AdapterError} :
    Preserves answer (Still (O := O) server handle opened e) (ensure condition error) := by
  rw [Adapter.ensure]
  split
  · exact .pure
  · exact .throw

theorem Still.capabilitiesAsync (h : Serves session server answer) :
    Preserves answer (Still (O := O) server handle opened e) capabilitiesAsync := by
  refine Preserves.read.bind fun a => ?_
  split
  · exact .pure
  · exact (Still.remote h.capabilities).bind fun _ => Still.ensure.bind fun _ =>
      .access fun c hc => ⟨hc.record, hc.server⟩

theorem Still.writeChunks (h : Serves session server answer) (file : FileHandle)
    (chunkLimit rounds position : ℕ) (data : List UInt8) (revision : FileRevision) (size : ℕ) :
    Preserves answer (Still (O := O) server handle opened e)
      (writeChunks file chunkLimit rounds position data revision size) := by
  induction rounds generalizing position data revision size with
  | zero => exact .pure
  | succ _ ih =>
    rw [Adapter.writeChunks]
    split
    · exact .pure
    refine (Still.remote fun e => h.write e _ _ _).bind fun result =>
      Still.ensure.bind fun _ => ?_
    split
    · exact .throw
    · exact ih _ _ _ _

/-- Of the file of a handle, a write changes the revision and the size that are on record. -/
theorem Still.updateFileHandle (handle' : ℕ) (revision : FileRevision) (size : ℕ) :
    Preserves answer (Still (O := O) server handle opened e)
      (updateFileHandle handle' revision size) := by
  refine Preserves.bind (.access fun c hc => ⟨?_, hc.server⟩) fun _ => Still.ensure
  obtain ⟨oldRevision, oldSize, hrecord⟩ := hc.record
  rw [State.updateFileHandle]
  split
  · rename_i record hfound
    by_cases heq : handle = handle'
    · subst heq
      rw [hrecord] at hfound
      cases hfound
      exact ⟨revision, size, Entries.find_insert_self⟩
    · exact ⟨oldRevision, oldSize, (Entries.find_insert_of_ne heq).trans hrecord⟩
  · exact ⟨oldRevision, oldSize, hrecord⟩

theorem Still.writeThrough (h : Serves session server answer) (handle' offset : ℕ)
    (data : List UInt8) :
    Preserves answer (Still (O := O) server handle opened e)
      (writeThrough handle' offset data) := by
  rw [Adapter.writeThrough]
  split
  · exact .pure
  refine Preserves.bind (Preserves.read.bind fun a => ?_) fun file => ?_
  · split
    · exact .pure
    · exact .throw
  refine (Still.capabilitiesAsync h).bind fun _ => Still.ensure.bind fun _ =>
    (Still.writeChunks h _ _ _ _ _ _ _).bind fun _ =>
      (Still.updateFileHandle _ _ _).bind fun _ => ?_
  refine Preserves.bind (Preserves.read.bind fun a => ?_) fun record => ?_
  · split
    · exact .pure
    · exact .throw
  exact Preserves.read.bind fun _ =>
    Preserves.bind (.access fun c hc => ⟨hc.record, hc.server⟩) fun _ =>
      Preserves.bind (.access fun c hc => ⟨hc.record, hc.server⟩) fun _ =>
        .access fun c hc => ⟨hc.record, hc.server⟩

theorem Still.flushPending (h : Serves session server answer) (handle' : ℕ) :
    Preserves answer (Still (O := O) server handle opened e) (flushPending handle') := by
  refine Preserves.bind (.access fun c hc => ⟨hc.record, hc.server⟩) fun pending => ?_
  cases pending with
  | none => exact .pure
  | some => exact Still.writeThrough h _ _ _

end Pending

/-! ## A flush -/

section Flush

variable {answer : E → (q : Question) → E × q.Answer} {server : E → Server.Export}
  {session : Uuid} {handle owner : ℕ} {opened : FileHandleRecord} {file : Server.OpenFile}

/-- A flush goes to the server, or finds nothing to release. -/
def Reaches (e : Server.Export) (session : Uuid) (opened : FileHandleRecord)
    (file : Server.OpenFile) (owner : ℕ) : Prop :=
  opened.access.canWrite = true ∨ opened.usedLocks = true ∨
    Released e session file.identity owner

/-- What `flush_async` does once the pending bytes were sent. -/
theorem flushRemote_wlp (opened : FileHandleRecord) (h : Serves session server answer)
    {c : Point (sig O) E}
    (hfile : (server c.env).sessions.openHandle session opened.remote = .ok file) :
    Wlp answer (if !opened.access.canWrite && !opened.usedLocks then pure ()
        else remote (.flushFile opened.remote (some owner)) : M O Unit) c fun r c' => r = .ok () →
      (Released (server c'.env) session file.identity owner ↔
        Reaches (server c.env) session opened file owner) := by
  split
  · rename_i hquiet
    simp only [Bool.and_eq_true, Bool.not_eq_true'] at hquiet
    refine Wlp.pure fun _ => ⟨fun hreleased => .inr (.inr hreleased), fun hreaches => ?_⟩
    rcases hreaches with hwrite | hlocks | hreleased
    · rw [hquiet.1] at hwrite
      cases hwrite
    · rw [hquiet.2] at hlocks
      cases hlocks
    · exact hreleased
  · rename_i hcalled
    refine Wlp.bind (Wlp.ask ?_)
    dsimp only
    split
    · exact Wlp.throw fun hok => by cases hok
    · exact Wlp.throw fun hok => by cases hok
    rename_i hanswer
    refine Wlp.pure fun _ => iff_of_true (released_flush hfile (h.flush _ _ _ hanswer)) ?_
    cases hwrite : opened.access.canWrite with
    | true => exact .inl hwrite
    | false =>
      rw [hwrite, Bool.not_false, Bool.true_and, Bool.not_eq_true', Bool.not_eq_false] at hcalled
      exact .inr (.inl hcalled)

theorem flushAsync_wlp (h : Serves session server answer) {c : Point (sig O) E}
    (hopened : c.shared.handles.find handle = some opened)
    (hfile : (server c.env).sessions.openHandle session opened.remote = .ok file) :
    Wlp answer (flushAsync handle (some owner) : M O Unit) c fun r c' => r = .ok () →
      (Released (server c'.env) session file.identity owner ↔
        Reaches (server c.env) session opened file owner) := by
  have hstill : Still (O := O) server handle opened (server c.env) c := ⟨⟨_, _, hopened⟩, rfl⟩
  refine Wlp.bind (((Preserves.read.bind fun _ => Still.ensure) c hstill).conseq fun r c1 h1 => ?_)
  cases r with
  | error => exact fun hok => by cases hok
  | ok =>
    refine Wlp.holding (Wlp.access (Wlp.bind ?_))
    have hlocked : Still (O := O) server handle opened (server c.env)
        { c1 with shared := { c1.shared with writers := handle :: c1.shared.writers } } :=
      ⟨h1.record, h1.server⟩
    refine (Still.flushPending h handle _ hlocked).conseq fun r c2 h2 => ?_
    cases r with
    | error => exact Wlp.access fun hok => by cases hok
    | ok =>
      refine Wlp.bind (Wlp.bind (Wlp.access ?_))
      obtain ⟨revision, size, hrecord⟩ := h2.record
      dsimp only
      rw [hrecord]
      refine Wlp.pure ?_
      have hserver := h2.server
      rw [← hserver] at hfile ⊢
      exact (flushRemote_wlp { opened with revision := revision, size := size } h hfile).conseq
        fun r c3 h3 => Wlp.access h3

end Flush

/-! ## Every sequence of calls -/

section Calls

variable (config : Config) (session : Uuid) (server : E → Server.Export)
  (answer : E → (q : Question) → E × q.Answer)

/-- A flush that was called at `c` has returned `Ok` at `c'`: its handle, the owner it names, and
the file behind the handle. -/
structure Flushed (c : Point (sig O) E) (op : Op) (handle owner : ℕ) (opened : FileHandleRecord)
    (file : Server.OpenFile) (c' : Point (sig O) E) : Prop where
  call : op = .call (.flush handle (some owner))
  found : c.shared.handles.find handle = some opened
  behind : (server c.env).sessions.openHandle session opened.remote = .ok file
  ok : evalOp (program O config) answer op c =
    some (some ⟨.flush handle (some owner), .ok ()⟩, c')

variable {config session server answer}

theorem Flushed.released_iff (hserves : Serves session server answer) {c c' : Point (sig O) E}
    {op : Op} {handle owner : ℕ} {opened : FileHandleRecord} {file : Server.OpenFile}
    (h : Flushed config session server answer c op handle owner opened file c') :
    Released (server c'.env) session file.identity owner ↔
      Reaches (server c.env) session opened file owner := by
  obtain ⟨rfl, hfound, hbehind, hok⟩ := h
  have hflush : Wlp answer (flushAsync handle (some owner) : M O Unit)
      { c with tasks := c.tasks + 1 } _ := flushAsync_wlp hserves hfound hbehind
  obtain ⟨r, hr, hflushed⟩ := hflush.of_eval hok
  cases hr
  exact hflushed rfl

variable (config session server answer)

/-- **The flushes of a sequence of calls release every lock of the owners they name, if and only if
each of them goes through a handle that can write, or that a lock was set through, or is for an
owner that has no locks on the file.** -/
theorem flushes_release_iff (hserves : Serves session server answer) (start : Point (sig O) E)
    (ops : List Op) :
    Along (program O config) answer (fun c op => ∀ handle owner opened file c',
        Flushed config session server answer c op handle owner opened file c' →
          Released (server c'.env) session file.identity owner) ops start ↔
      Along (program O config) answer (fun c op => ∀ handle owner opened file c',
        Flushed config session server answer c op handle owner opened file c' →
          Reaches (server c.env) session opened file owner) ops start := by
  constructor
  · exact Along.imp fun c op hop _ _ _ _ _ h => (h.released_iff hserves).1 (hop _ _ _ _ _ h)
  · exact Along.imp fun c op hop _ _ _ _ _ h => (h.released_iff hserves).2 (hop _ _ _ _ _ h)

end Calls

/-! ## Two handles of one file -/

namespace Readers

/-- A server with one file. -/
def reply (e : Server.Export) : (operation : RemoteCall) → Server.Export × operation.Reply
  | .capabilities => (e, .ok ⟨0, true, true, true, true, true, true, true, true, true, true, true,
      true, true, true, true, true, true, true, true, true, "", 1, 1⟩)
  | .openFileWithOptions _ options =>
    let handle := if (e.sessions.handles 0 0).isSome then 1 else 0
    ({ e with sessions := e.sessions.insertHandle 0 handle ⟨⟨1, 1⟩, options.access⟩ },
      .ok ⟨handle, 1, 0⟩)
  | .setLock file lock _ =>
    ((e.setLock 0 file lock).1, (e.setLock 0 file lock).2.mapError fun _ => .transport)
  | .flushFile file lockOwner =>
    ((e.flush 0 file lockOwner).1, (e.flush 0 file lockOwner).2.mapError fun _ => .transport)
  | .closeFile file =>
    ((e.close 0 file).1, (e.close 0 file).2.mapError fun _ => .transport)
  | _ => (e, .error .transport)

def answer (e : Server.Export) : (q : Question) → Server.Export × q.Answer
  | .call operation => ((reply e operation).1, some (reply e operation).2)
  | .sleep => (e, ())

def outside : Outside := ⟨Server.Export, Unit, fun e _ q => some (answer e q)⟩

def config : Config := ⟨some⟩

def start : Point (sig outside) Server.Export :=
  ⟨State.new, ⟨⟨fun _ _ => none, fun _ => true⟩, []⟩, 0⟩

theorem serves : Serves 0 id answer where
  flush e file lockOwner h := by
    have hok : (e.flush 0 file lockOwner).2.mapError (fun _ => ClientError.transport) = .ok () :=
      Option.some.inj h
    cases hflush : (e.flush 0 file lockOwner).2 with
    | ok => exact Prod.ext rfl hflush
    | error =>
      rw [hflush] at hok
      cases hok
  write _ _ _ _ := rfl
  capabilities _ := rfl

/-- A process opens the file twice, locks it through the first handle, and flushes the second. -/
def calls : List Op :=
  [.call (.openFile rootInode .readOnly), .call (.openFile rootInode .readOnly),
    .call (.setLock 1 (Server.firstTen .read) false), .call (.flush 2 (some 7))]

def succeeded : (sig outside).Result → Bool
  | some ⟨_, .ok _⟩ => true
  | _ => false

end Readers

open Readers in
theorem readers_release_iff :
    Along (program outside config) answer (fun c op => ∀ handle owner opened file c',
        Flushed config 0 id answer c op handle owner opened file c' →
          Released c'.env 0 file.identity owner) calls start ↔
      Along (program outside config) answer (fun c op => ∀ handle owner opened file c',
        Flushed config 0 id answer c op handle owner opened file c' →
          Reaches c.env 0 opened file owner) calls start :=
  flushes_release_iff config 0 id answer serves start calls

open Readers in
/-- Every call succeeds, and the lock is still there after the flush. -/
theorem lock_survives_flush :
    (evalOps (program outside config) answer calls start).map (List.map fun result =>
        (succeeded result.1, result.2.env.locks)) =
      some [(true, []), (true, []), (true, [⟨⟨1, 1⟩, 0, Server.firstTen .read⟩]),
        (true, [⟨⟨1, 1⟩, 0, Server.firstTen .read⟩])] := by
  decide +kernel

end QuickFS.Adapter.LockFlushes
