import QuickFS.Export.RequestPolicy

/-!
# Confinement

The server reaches the objects of an export by name, and the names of a path are looked up one at a
time, each in the directory that the one before has opened.  A descriptor is *reached* in a run if
it is the root's, a duplicate of one that is reached, or was opened in a directory that is reached,
by a name that is neither `.` nor `..` and contains no separator, without following a symbolic link
(`Reached`). Whatever the other processes of the host do meanwhile, every call by name is made in a
directory that is reached and by such a name (`Confined`) — with one exception.  A node that the
registry does not know is looked for in the whole export, and the search asks for the status of
every entry of a directory before it skips `.` and `..`; in the root, the latter is a directory
outside the export (`discovery_looks_outside`).  There is no other exception: a directory that is
listed may list both and neither is looked at, and where no search has read them there is none
(`confined`).
-/

namespace QuickFS.Export

open Server Async

/-! ## Lookups -/

namespace HostCall

/-- The names that a call looks up, each with the directory it is looked up in. -/
def lookups : HostCall → List (Fd × Name)
  | openat directory name .. | statat directory name | mkdirat directory name _
  | symlinkat _ directory name | mknodat directory name .. | unlinkat directory name _
  | readlinkat directory name | chmodat directory name _ | utimensat directory name .. =>
    [(directory, name)]
  | linkat directory name directory' name' | renameat directory name directory' name' _ =>
    [(directory, name), (directory', name')]
  | _ => []

/-- Whether a call follows a symbolic link that it finds under the name.  To create a file
exclusively fails if there is one. -/
def follows : HostCall → Bool
  | openat _ _ flags _ => !(flags.nofollow || (flags.create && flags.excl))
  | _ => false

end HostCall

/-- Names are looked up in these directories only, they are ordinary names, and links are not
followed. -/
def Confined (held : Fd → Prop) (call : HostCall) : Prop :=
  call.follows = false ∧ ∀ lookup ∈ call.lookups, held lookup.1 ∧ isNormal lookup.2 = true

/-- The status of `.` or `..` is asked for. -/
def LooksAtDots (held : Fd → Prop) (call : HostCall) : Prop :=
  ∃ directory name, call = .statat directory name ∧ held directory ∧ (name = [46] ∨ name = [46, 46])

/-- A name as it may stand in a directory. -/
def isEntryName (name : Name) : Bool := !(name.isEmpty || name.contains 47)

theorem isNormal_of_isEntryName {name : Name} (h : isEntryName name = true)
    (hdots : ¬(name = [46] ∨ name = [46, 46])) : isNormal name = true := by
  rw [isEntryName, Bool.not_eq_true', Bool.or_eq_false_iff] at h
  rw [not_or] at hdots
  rw [isNormal, h.1, h.2, beq_eq_false_iff_ne.2 hdots.1, beq_eq_false_iff_ne.2 hdots.2]
  rfl

variable {Env Choice : Type}

/-! ## Descriptors -/

/-- The descriptors that have been reached from the root. -/
inductive Reached (past : List (Moment (exportFrame Env Choice).sig)) : Fd → Prop
  | root : Reached past rootFile
  | dup {m : Moment (exportFrame Env Choice).sig} {directory file : Fd} (hm : m ∈ past)
      (hanswer : m.event = .answered (HostCall.dup directory) (.ok file))
      (hdirectory : Reached past directory) : Reached past file
  | openat {m : Moment (exportFrame Env Choice).sig} {directory file : Fd} {name : Name}
      {flags : OFlags} {mode : ℕ} (hm : m ∈ past)
      (hanswer : m.event = .answered (HostCall.openat directory name flags mode) (.ok file))
      (hcall : (HostCall.openat directory name flags mode).follows = false)
      (hname : isNormal name = true) (hdirectory : Reached past directory) : Reached past file

/-- A kind of descriptor that the root is of, and every descriptor that is opened as `Reached` says
in a directory of that kind. -/
structure Inside (past : List (Moment (exportFrame Env Choice).sig)) (kind : Fd → Prop) :
    Prop where
  root : kind rootFile
  dup : ∀ m ∈ past, ∀ directory file : Fd,
    m.event = .answered (HostCall.dup directory) (.ok file) → kind directory → kind file
  openat : ∀ m ∈ past, ∀ (directory : Fd) name flags mode (file : Fd),
    m.event = .answered (HostCall.openat directory name flags mode) (.ok file) →
    (HostCall.openat directory name flags mode).follows = false → isNormal name = true →
    kind directory → kind file

theorem Reached.inside {past : List (Moment (exportFrame Env Choice).sig)} {kind : Fd → Prop}
    (h : Inside past kind) {file : Fd} (hfile : Reached past file) : kind file := by
  induction hfile with
  | root => exact h.root
  | dup hm hanswer _ ih => exact h.dup _ hm _ _ hanswer ih
  | openat hm hanswer hcall hname _ ih => exact h.openat _ hm _ _ _ _ _ hanswer hcall hname ih

/-! ## The policy -/

/-- Only what has been reached is used, and at most `.` and `..` are looked at besides. -/
def reaching (past : List (Moment (exportFrame Env Choice).sig)) (dots : Prop) : Policy where
  held := Reached past
  looked name := isNormal name = true ∨ (dots ∧ (name = [46] ∨ name = [46, 46]))
  opened name := isNormal name = true
  writes := True
  held_root := .root
  opened_normal _ h := h
  looked_opened _ h := .inl h

/-- What a directory lists are names, and if `dots` is not the case then neither `.` nor `..` is
among what `discover_node` reads. -/
def Lists (dots : Prop) (past : List (Moment (exportFrame Env Choice).sig)) : Prop :=
  ∀ m ∈ past, ∀ (directory : Fd) search names,
    m.event = .answered (HostCall.readdir directory search) (.ok names) →
    ∀ name, .ok name ∈ names → isEntryName name = true ∧
      (search = true → name = [46] ∨ name = [46, 46] → dots)

section Policy

variable {past : List (Moment (exportFrame Env Choice).sig)} {dots : Prop}

theorem confined_of_allows {call : HostCall} (h : (reaching past dots).Allows call) :
    Confined (Reached past) call ∨ (dots ∧ LooksAtDots (Reached past) call) := by
  have hpair : ∀ {directory : Fd} {name : Name}, Reached past directory → isNormal name = true →
      ∀ lookup ∈ [(directory, name)], Reached past lookup.1 ∧ isNormal lookup.2 = true := by
    intro directory name hdirectory hname lookup hlookup
    rw [List.mem_singleton.1 hlookup]
    exact ⟨hdirectory, hname⟩
  cases call with
  | openat =>
    refine .inl ⟨?_, hpair h.1 h.2.1⟩
    rw [HostCall.follows, Bool.not_eq_false', Bool.or_eq_true, Bool.and_eq_true]
    exact h.2.2.1
  | statat directory name =>
    rcases h.2 with hnormal | hdots
    · exact .inl ⟨rfl, hpair h.1 hnormal⟩
    · exact .inr ⟨hdots.1, directory, name, rfl, h.1, hdots.2⟩
  | readlinkat => exact .inl ⟨rfl, hpair h.1 h.2⟩
  | mkdirat | symlinkat | mknodat | unlinkat | chmodat | utimensat =>
    exact .inl ⟨rfl, hpair h.1 h.2.1⟩
  | linkat directory name directory' name' | renameat directory name directory' name' =>
    refine .inl ⟨rfl, fun lookup hlookup => ?_⟩
    rcases List.mem_cons.1 hlookup with rfl | hlookup
    · exact ⟨h.1, h.2.1⟩
    · exact hpair h.2.2.1 h.2.2.2.1 lookup hlookup
  | _ => exact .inl ⟨rfl, nofun⟩

variable {config : Config} {i : ℕ} {volume : Bytes}

/-- What has been answered is fair: a descriptor that was opened is reached by that. -/
theorem answered_reaching (hlists : Lists dots past) :
    Task.Asks.Answered
      ((reaching past dots).terms config i volume (exportFrame Env Choice)) past := by
  intro m hm call answer hanswer
  cases call with
  | dup =>
    intro hdirectory file hfile
    subst hfile
    exact .dup hm hanswer hdirectory
  | openat =>
    intro hallows file hfile
    subst hfile
    rcases confined_of_allows hallows with hconfined | ⟨_, _, _, hcall, _⟩
    · exact .openat hm hanswer hconfined.1 hallows.2.1 hallows.1
    · cases hcall
  | readdir directory search =>
    intro names hnames name hname
    subst hnames
    obtain ⟨hentry, hdots⟩ := hlists m hm directory search names hanswer name hname
    have hnormal := isNormal_of_isEntryName hentry
    refine ⟨hnormal, fun hsearch => ?_⟩
    by_cases hdot : name = [46] ∨ name = [46, 46]
    · exact .inr ⟨hdots hsearch hdot, hdot⟩
    · exact .inl (hnormal hdot)
  | _ => trivial

theorem good_reaching {s : State} : (reaching past dots).Good config i volume s :=
  ⟨fun _ => trivial, .inl trivial⟩

/-- Every operation keeps to it, of whichever session. -/
theorem asks_reaching {op : ExportOp} :
    Keeps (reaching past dots) config i volume
      (op.run config : Run (exportFrame Env Choice) Reply) fun _ => True := by
  cases op with
  | newSession =>
    exact (Call.Asks.modify fun s _ => good_reaching).seq fun _ => Call.Asks.pure trivial
  | request j asked =>
    have hterms : (reaching past dots).terms config j volume (exportFrame Env Choice) =
        (reaching past dots).terms config i volume (exportFrame Env Choice) := by
      have hgood : (reaching past dots).Good config j volume =
          (reaching past dots).Good config i volume :=
        funext fun s => propext (iff_of_true good_reaching good_reaching)
      rw [Policy.terms, Policy.terms, hgood]
    rw [Keeps, ← hterms]
    exact asks_request asked fun _ _ _ => trivial
  | dropSession => exact looks_dropSession.asks.seq fun _ => Call.Asks.pure trivial

end Policy

/-! ## Runs -/

/-- What is asked last in a run. -/
theorem asked_last (config : Config)
    (serve : Env → Choice → (call : HostCall) → Option (Env × call.Answer)) (start : State)
    (env : Env) (actions : List (Action (exportFrame Env Choice).sig)) {dots : Prop} {task : ℕ}
    {call : HostCall} {s : State} {past : List (Moment (exportFrame Env Choice).sig)}
    (hlast : (run (server config serve) (World.initial start env) actions).history =
      ⟨task, .sent call, s⟩ :: past) (hlists : Lists dots past) :
    Confined (Reached past) call ∨ (dots ∧ LooksAtDots (Reached past) call) := by
  have hholds := Task.Asks.run_sound (P := server config serve)
    (T := (reaching past dots).terms config 0 start.volumeName (exportFrame Env Choice))
    (J := fun _ => True) (fun _ _ _ _ _ _ _ _ => trivial)
    good_reaching trivial
    (fun op _ _ => asks_reaching.toTask (fun _ _ => trivial) fun _ _ => trivial) (by
      rw [hlast]
      intro m hm call answer hanswer
      rcases List.mem_cons.1 hm with rfl | hm
      · cases hanswer
      · exact answered_reaching hlists m hm call answer hanswer)
  refine confined_of_allows ((hholds.kept ⟨task, .sent call, s⟩ ?_).2 call rfl)
  rw [hlast]
  exact List.mem_cons_self

/-- **Every call by name is confined to what is reached from the root**, in every run of any
sessions' requests on any host, but for the status of `.` and `..`; and those are not asked for
unless `discover_node` has read them in a directory.  That what a directory lists are names at all is
assumed of the host.  If the root is inside some part of the host, and what is opened in a directory inside is inside, then
whatever is looked up is looked up inside. -/
theorem confined (config : Config)
    (serve : Env → Choice → (call : HostCall) → Option (Env × call.Answer))
    (rootIdentity : FileIdentity) (volumeName : Bytes) (env : Env)
    (actions : List (Action (exportFrame Env Choice).sig)) :
    Throughout
      (fun m past => ∀ call, m.event = .sent call → Lists True past →
        (Confined (Reached past) call ∨ LooksAtDots (Reached past) call) ∧
          (Lists False past → Confined (Reached past) call) ∧
          ∀ kind, Inside past kind → ∀ lookup ∈ call.lookups, kind lookup.1)
      (run (server config serve) (World.initial (State.new config rootIdentity volumeName) env)
        actions).history := by
  refine throughout_of_last (fun actions m past hlast call hsent hlists => ?_) actions
  obtain ⟨task, event, s⟩ := m
  cases hsent
  have hcall := asked_last config serve _ env actions hlast hlists
  refine ⟨hcall.imp id fun h => h.2, fun hnone => ?_, fun kind hkind lookup hlookup => ?_⟩
  · exact (asked_last config serve _ env actions hlast hnone).resolve_right fun h => h.1
  rcases hcall with hconfined | ⟨_, directory, name, rfl, hdirectory, _⟩
  · exact (hconfined.2 lookup hlookup).1.inside hkind
  · rw [List.mem_singleton.1 hlookup]
    exact hdirectory.inside hkind

/-- A host on which the root lists its parent and nothing else. -/
def barrenHost (_ : Unit) (_ : Unit) : (call : HostCall) → Option (Unit × call.Answer)
  | .dup _ => some ((), .ok 1)
  | .readdir .. => some ((), .ok [.ok [46, 46]])
  | call => some ((), call.refuse)

/-- The lookups of a run, the latest first. -/
def lookupsOf (w : World (exportFrame Unit Unit).sig) : List (Fd × Name) :=
  w.history.flatMap fun m => match m.event with
    | .sent call => HostCall.lookups call
    | _ => []

/-- A session asks for the metadata of a node that the registry does not know.  Descriptor 1 is a
duplicate of the root's, and the parent of the root is looked up in it. -/
theorem discovery_looks_outside :
    lookupsOf (run (server smallExport barrenHost)
      (World.initial (State.new smallExport ⟨1, 2⟩ []) ())
      [.call (.newSession false), .resume 0, .resume 0, .call (.request 0 (.metadata 6)),
        .resume 1, .resume 1, .serve 1 (), .deliver 1, .resume 1, .serve 1 (), .deliver 1,
        .resume 1]) = [(1, [46, 46])] := by
  decide +kernel

end QuickFS.Export
