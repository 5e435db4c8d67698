import QuickFS.Daemon.Requests
import QuickFS.Lib.Machine

/-!
# Logging in

What the daemon promises about authentication, over every interleaving of requests on any number of
connections, with deadlines that may pass at any time:

* a request that needs authentication reaches the export session only after an `Authenticate` whose
  credentials were accepted has set the connection to authenticated;
* a connection is authenticated at most once;
* the write grant of its session is that of the account that was accepted.

The fourth promise, that at most five passwords are tried in vain, is kept by the counter of
failures, and the counter is the business of the request that has started the verification.  If that
request is dropped because its deadline has passed, the verification goes on, ends in a rejection,
and nobody counts it (`sixth_rejection`).  The promise is kept as long as no request is dropped
while its verification is running (`Patient`).

Both parts rest on the guard of `auth_state`: the stages in which a task holds it are those of one
task at a time (`Guarded.owns`), and in none of them the connection is authenticated or out of
attempts.
-/

namespace QuickFS.Daemon

/-! ## What has happened -/

/-- What has been seen so far, the latest first. -/
abbrev Past := List (Option Event)

/-- A verification of these credentials on this connection has found this account: it has the name,
is enabled, and has the password. -/
def Verified (config : Config) (job c : ℕ) (username password : Bytes) (user : UserRecord)
    (past : Past) : Prop :=
  ∃ users : List UserRecord,
    some (.verified job c username password (.ok users) (.ok (some ⟨user.writable⟩))) ∈ past ∧
    users.find? (fun user => decide (user.username = username) && user.enabled) = some user ∧
    config.crypto.verifyPassword user.passwordHash password = true

/-- An `Authenticate` whose credentials had been found to be those of this account has completed on
this connection. -/
def Authenticated (config : Config) (c : ℕ) (user : UserRecord) (past : Past) : Prop :=
  ∃ later t job username password before,
    past = later ++ some (.authenticated t c job (.authenticate username password)
      ⟨user.writable⟩) :: before ∧ Verified config job c username password user before

def Event.isAck (c : ℕ) : Option Event → Bool
  | some (.authenticated _ c' ..) => decide (c' = c)
  | _ => false

/-- A verification on the connection that ended in a rejection. -/
def Event.isRejection (c : ℕ) : Option Event → Bool
  | some (.verified _ c' _ _ _ (.ok none)) => decide (c' = c)
  | _ => false

/-- How often a connection has been authenticated. -/
def acks (c : ℕ) (past : Past) : ℕ := past.countP (Event.isAck c)

/-- How many verifications have ended in a rejection. -/
def rejections (c : ℕ) (past : Past) : ℕ := past.countP (Event.isRejection c)

/-- No request reaches the export session before a login. -/
def Gated (config : Config) (past : Past) : Prop :=
  ∀ later before t c, past = later ++ some (.reached t c) :: before →
    ∃ user, Authenticated config c user before

variable {config : Config} {c : ℕ} {past : Past} {e : Option Event}

theorem Authenticated.cons {user : UserRecord} (h : Authenticated config c user past)
    (e : Option Event) : Authenticated config c user (e :: past) := by
  obtain ⟨later, t, job, username, password, before, rfl, hverified⟩ := h
  exact ⟨e :: later, t, job, username, password, before, rfl, hverified⟩

/-- A connection is authenticated by an account, and has no grant that the account does not have. -/
def Connection.Accepted (config : Config) (c : ℕ) (past : Past) (connection : Connection) : Prop :=
  connection.authenticated = true ∨ connection.writeAuthorized = true →
    ∃ user, (connection.writeAuthorized = true → user.writable = true) ∧
      Authenticated config c user past

theorem Connection.Accepted.cons {connection : Connection} (h : connection.Accepted config c past)
    (e : Option Event) : connection.Accepted config c (e :: past) := by
  intro hc
  obtain ⟨user, hwrite, huser⟩ := h hc
  exact ⟨user, hwrite, huser.cons e⟩

theorem acks_cons : acks c (e :: past) = acks c past + if Event.isAck c e then 1 else 0 :=
  List.countP_cons

theorem rejections_cons :
    rejections c (e :: past) = rejections c past + if Event.isRejection c e then 1 else 0 :=
  List.countP_cons

/-- An event that authenticates nobody and counts for nothing. -/
structure Event.Minor (config : Config) (past : Past) (e : Option Event) : Prop where
  ack : ∀ c, Event.isAck c e = false
  reached : ∀ t c, e = some (.reached t c) → ∃ user, Authenticated config c user past
  rejection : ∀ c, Event.isRejection c e = false

/-- The events that are told of a task while it is on its way. -/
def Event.isMinor : Option Event → Bool
  | none | some (.loaded ..) | some (.stored _) | some (.produced ..) => true
  | _ => false

theorem minor (h : Event.isMinor e = true) : Event.Minor config past e := by
  unfold Event.isMinor at h
  split at h <;> first | exact ⟨fun _ => rfl, nofun, fun _ => rfl⟩ | cases h

theorem isRejection_verified {k c' : ℕ} {username password : Bytes}
    {database : Except AuthError (List UserRecord)}
    {result : Except AuthError (Option UserAuthorization)}
    (h : Event.isRejection c (some (.verified k c' username password database result)) = true) :
    c' = c ∧ result = .ok none := by
  rcases result with error | _ | authorization
  · cases h
  · exact ⟨of_decide_eq_true h, rfl⟩
  · cases h

theorem Gated.cons (h : Gated config past)
    (he : ∀ t c, e = some (.reached t c) → ∃ user, Authenticated config c user past) :
    Gated config (e :: past) := by
  intro later before t c hpast
  cases later with
  | nil =>
    obtain ⟨rfl, rfl⟩ := List.cons.inj hpast
    exact he t c rfl
  | cons _ later =>
    obtain ⟨rfl, hrest⟩ := List.cons.inj hpast
    exact h later before t c hrest

/-! ## The guard -/

/-- A rejection that the task it is for has not taken note of yet. -/
def Pending (d : State) (c : ℕ) : Prop :=
  ∃ (t : ℕ) (task : RequestTask) (k : ℕ) (job : Job), d.tasks[t]? = some task ∧
    task.connection = c ∧ task.stage = .verifying k ∧ d.jobs[k]? = some job ∧
      job.result = some (some (.ok none))

/-- The verification is that of the credentials in the request of a task. -/
def Job.For (job : Job) (task : RequestTask) : Prop :=
  job.connection = task.connection ∧ task.request = .authenticate job.username job.password

/-- The result is that of a verification, which has been seen. -/
def Checked (config : Config) (k : ℕ) (job : Job) (result : Except AuthError (Option UserAuthorization))
    (past : Past) : Prop :=
  ∃ database, some (.verified k job.connection job.username job.password database result) ∈ past ∧
    result = verifyUserAuthorization config.crypto database job.username job.password

theorem Checked.cons {k : ℕ} {job : Job} {result : Except AuthError (Option UserAuthorization)}
    (h : Checked config k job result past) : Checked config k job result (e :: past) := by
  obtain ⟨database, hmem, hresult⟩ := h
  exact ⟨database, List.mem_cons_of_mem _ hmem, hresult⟩

/-- Credentials are accepted as those of an account. -/
theorem Checked.verified {k : ℕ} {job : Job} {authorization : UserAuthorization}
    (h : Checked config k job (.ok (some authorization)) past) :
    ∃ user, Verified config k job.connection job.username job.password user past ∧
      authorization = ⟨user.writable⟩ := by
  obtain ⟨database, hmem, hresult⟩ := h
  unfold verifyUserAuthorization at hresult
  split at hresult
  · cases hresult
  split at hresult
  · cases hresult
  rename_i users
  split at hresult
  · cases hresult
  rename_i user hfind
  split at hresult
  · cases hresult
  split at hresult
  · rename_i hpassword
    cases hresult
    exact ⟨user, ⟨users, hmem, hfind, hpassword⟩, rfl⟩
  · cases hresult

/-- **The invariant of the daemon.**  The last two parts of it are for runs in which no request is
dropped while its verification is running. -/
structure Guarded (config : Config) (patient : Prop) (d : State) (past : Past) : Prop where
  owns : ∀ (t : ℕ) (task : RequestTask), d.tasks[t]? = some task → task.stage.holdsAuth = true →
    (d.connections task.connection).authLock = some t
  undecided : ∀ (t : ℕ) (task : RequestTask), d.tasks[t]? = some task → task.stage.holdsAuth = true →
    (d.connections task.connection).authenticated = false ∧
      (d.connections task.connection).failedAttempts < 5
  jobs : ∀ (t : ℕ) (task : RequestTask) k, d.tasks[t]? = some task → task.stage = .verifying k →
    ∃ job, d.jobs[k]? = some job ∧ job.For task
  checked : ∀ (k : ℕ) (job : Job) result, d.jobs[k]? = some job → job.result = some (some result) →
    Checked config k job result past
  accepted : ∀ c, (d.connections c).Accepted config c past
  once : ∀ c, acks c past ≤ 1 ∧ ((d.connections c).authenticated = false → acks c past = 0)
  gated : Gated config past
  bounded : ∀ c, (d.connections c).failedAttempts ≤ 5
  running : patient → ∀ (k : ℕ) (job : Job), d.jobs[k]? = some job → job.result = none →
    ∃ (t : ℕ) (task : RequestTask), d.tasks[t]? = some task ∧ task.stage = .verifying k
  counted : patient → ∀ c, rejections c past ≤ (d.connections c).failedAttempts ∨
    (rejections c past ≤ (d.connections c).failedAttempts + 1 ∧ Pending d c)

/-- What a step of task `t` has done: it is at another stage, its connection has changed and no
other, and jobs are only added. -/
structure Moves (d : State) (t : ℕ) (task : RequestTask) (stage : Stage) (d' : State) : Prop where
  tasks : d'.tasks = d.tasks.set t { task with stage := stage }
  others : ∀ c, c ≠ task.connection → d'.connections c = d.connections c
  jobs : ∃ added, d'.jobs = d.jobs ++ added ∧ ∀ job ∈ added, job.result = none

section Moves

variable {patient : Prop} {d d' : State} {t : ℕ} {task : RequestTask} {stage : Stage} {past : Past}
  {e : Option Event}

section

variable (h : Moves d t task stage d')

include h

/-- A task of the pool after the step. -/
theorem Moves.pool (ht : d.tasks[t]? = some task) {t' : ℕ} {task' : RequestTask}
    (ht' : d'.tasks[t']? = some task') :
    (t' = t ∧ task' = { task with stage := stage }) ∨ (t' ≠ t ∧ d.tasks[t']? = some task') := by
  have hlt : t < d.tasks.length := (List.getElem?_eq_some_iff.1 ht).1
  rw [h.tasks] at ht'
  by_cases hs : t' = t
  · subst hs
    rw [List.getElem?_set_self hlt] at ht'
    exact .inl ⟨rfl, (Option.some.inj ht').symm⟩
  · rw [List.getElem?_set_ne (Ne.symm hs)] at ht'
    exact .inr ⟨hs, ht'⟩

theorem Moves.other {t' : ℕ} {task' : RequestTask} (hne : t' ≠ t)
    (ht' : d.tasks[t']? = some task') : d'.tasks[t']? = some task' := by
  rw [h.tasks, List.getElem?_set_ne (Ne.symm hne)]
  exact ht'

theorem Moves.job {k : ℕ} {job : Job} (hk : d.jobs[k]? = some job) : d'.jobs[k]? = some job := by
  obtain ⟨added, hadded, -⟩ := h.jobs
  rw [hadded, List.getElem?_append_left (List.getElem?_eq_some_iff.1 hk).1]
  exact hk

theorem Moves.job_finished {k : ℕ} {job : Job} (hk : d'.jobs[k]? = some job)
    (hresult : job.result ≠ none) : d.jobs[k]? = some job := by
  obtain ⟨added, hadded, hnone⟩ := h.jobs
  rw [hadded] at hk
  by_cases hlt : k < d.jobs.length
  · rwa [List.getElem?_append_left hlt] at hk
  · rw [List.getElem?_append_right (Nat.le_of_not_lt hlt)] at hk
    exact absurd (hnone job (List.mem_of_getElem? hk)) hresult

end

section

-- The step leaves its connection like this, which is all right with whoever holds the guard, with
-- the number of failures, and with a verification that the task has waited for.
variable {connection : Connection} (h : Guarded config patient d past) (ht : d.tasks[t]? = some task)
  (hmove : Moves d t task stage d') (hown : d'.connections task.connection = connection)
  (hother : ∀ t', t' ≠ t → (d.connections task.connection).authLock = some t' →
    connection = d.connections task.connection)
  (hself : stage.holdsAuth = true → connection.authLock = some t ∧
    connection.authenticated = false ∧ connection.failedAttempts < 5)
  (hjob : ∀ k, stage = .verifying k → ∃ job, d'.jobs[k]? = some job ∧ job.For task)
  (hfail : (d.connections task.connection).failedAttempts ≤ connection.failedAttempts ∧
    connection.failedAttempts ≤ 5)
  (hleave : patient → ∀ k job, task.stage = .verifying k → d.jobs[k]? = some job →
    job.result ≠ none ∧ (job.result = some (some (.ok none)) →
      (d.connections task.connection).failedAttempts < connection.failedAttempts))
  (hnew : ∀ k, d.jobs.length ≤ k → k < d'.jobs.length → stage = .verifying k)

include h ht hmove hown hother hself hjob hfail hleave hnew

omit ht hself hjob hfail hleave hnew in
/-- Whoever else holds a guard finds its connection as it was. -/
theorem Guarded.others {t' : ℕ} {task' : RequestTask} (hne : t' ≠ t)
    (hold : d.tasks[t']? = some task') (hholds : task'.stage.holdsAuth = true) :
    d'.connections task'.connection = d.connections task'.connection := by
  by_cases hc : task'.connection = task.connection
  · rw [hc, hown]
    exact hother t' hne (hc ▸ h.owns t' task' hold hholds)
  · exact hmove.others _ hc

/-- **One step of a task keeps the invariant**, if what it does to its connection is right. -/
theorem Guarded.move
    (haccepted : connection.Accepted config task.connection (e :: past))
    (honce : acks task.connection (e :: past) ≤ 1 ∧
      (connection.authenticated = false → acks task.connection (e :: past) = 0))
    (hack : ∀ c, c ≠ task.connection → Event.isAck c e = false)
    (hreached : ∀ t' c, e = some (.reached t' c) → ∃ user, Authenticated config c user past)
    (hrejection : ∀ c, Event.isRejection c e = false) : Guarded config patient d' (e :: past) where
  owns t' task' ht' hholds := by
    rcases hmove.pool ht ht' with ⟨rfl, rfl⟩ | ⟨hne, hold⟩
    · exact hown ▸ (hself hholds).1
    · rw [h.others hmove hown hother hne hold hholds]
      exact h.owns t' task' hold hholds
  undecided t' task' ht' hholds := by
    rcases hmove.pool ht ht' with ⟨rfl, rfl⟩ | ⟨hne, hold⟩
    · exact hown ▸ (hself hholds).2
    · rw [h.others hmove hown hother hne hold hholds]
      exact h.undecided t' task' hold hholds
  jobs t' task' k ht' hstage := by
    rcases hmove.pool ht ht' with ⟨rfl, rfl⟩ | ⟨-, hold⟩
    · exact hjob k hstage
    · obtain ⟨job, hk, hc⟩ := h.jobs t' task' k hold hstage
      exact ⟨job, hmove.job hk, hc⟩
  checked k job result hk hresult := by
    have hold := hmove.job_finished hk (by rw [hresult]; exact Option.some_ne_none _)
    exact (h.checked k job result hold hresult).cons
  accepted c := by
    by_cases hsame : c = task.connection
    · subst hsame
      exact hown ▸ haccepted
    · rw [hmove.others c hsame]
      exact (h.accepted c).cons e
  once c := by
    by_cases hsame : c = task.connection
    · subst hsame
      exact hown ▸ honce
    · rw [acks_cons, hack c hsame, hmove.others c hsame]
      exact h.once c
  gated := h.gated.cons hreached
  bounded c := by
    by_cases hsame : c = task.connection
    · rw [hsame, hown]
      exact hfail.2
    · rw [hmove.others c hsame]
      exact h.bounded c
  running hpatient k job hk hresult := by
    by_cases hold : k < d.jobs.length
    · obtain ⟨added, hadded, -⟩ := hmove.jobs
      rw [hadded, List.getElem?_append_left hold] at hk
      obtain ⟨t', task', ht', hstage'⟩ := h.running hpatient k job hk hresult
      by_cases hs : t' = t
      · subst hs
        cases ht.symm.trans ht'
        exact absurd hresult (hleave hpatient k job hstage' hk).1
      · exact ⟨t', task', hmove.other hs ht', hstage'⟩
    · refine ⟨t, { task with stage := stage }, ?_, ?_⟩
      · rw [hmove.tasks, List.getElem?_set_self (List.getElem?_eq_some_iff.1 ht).1]
      · exact hnew k (Nat.le_of_not_lt hold) (List.getElem?_eq_some_iff.1 hk).1
  counted hpatient c := by
    rw [rejections_cons, hrejection]
    have hle : (d.connections c).failedAttempts ≤ (d'.connections c).failedAttempts := by
      by_cases hsame : c = task.connection
      · rw [hsame, hown]
        exact hfail.1
      · rw [hmove.others c hsame]
    rcases h.counted hpatient c with hfew | ⟨hfew, t', task', k, job, ht', hc, hstage', hk, hresult⟩
    · exact .inl (hfew.trans hle)
    by_cases hs : t' = t
    · subst hs
      cases ht.symm.trans ht'
      subst hc
      have hlt := (hleave hpatient k job hstage' hk).2 hresult
      exact .inl (hown ▸ hfew.trans hlt)
    · exact .inr ⟨hfew.trans (Nat.succ_le_succ hle), t', task', k, job, hmove.other hs ht', hc,
        hstage', hmove.job hk, hresult⟩

/-- The same for a step that authenticates nobody. -/
theorem Guarded.keep
    (hauth : connection.authenticated = (d.connections task.connection).authenticated)
    (hwrite : connection.writeAuthorized = (d.connections task.connection).writeAuthorized)
    (he : Event.Minor config past e) : Guarded config patient d' (e :: past) := by
  refine h.move ht hmove hown hother hself hjob hfail hleave hnew ?_ ?_ (fun c _ => he.ack c)
    he.reached he.rejection
  · rw [Connection.Accepted, hauth, hwrite]
    exact (h.accepted task.connection).cons e
  · rw [hauth, acks_cons, he.ack]
    exact h.once task.connection

end

/-- A step that is not one of a task: connections stay as they are, and a task that is new holds no
guard. -/
theorem Guarded.observe (h : Guarded config patient d past)
    (htasks : ∀ (t' : ℕ) (task' : RequestTask), d'.tasks[t']? = some task' →
      task'.stage.holdsAuth = true → d.tasks[t']? = some task')
    (hconnections : d'.connections = d.connections)
    (hjobs : ∀ (k : ℕ) (job : Job), d.jobs[k]? = some job → ∃ job' : Job, d'.jobs[k]? = some job' ∧
      ∀ task, job.For task → job'.For task)
    (hchecked : ∀ (k : ℕ) (job : Job) result, d'.jobs[k]? = some job →
      job.result = some (some result) → d.jobs[k]? = some job ∨
      Checked config k job result (e :: past))
    (hack : ∀ c, Event.isAck c e = false) (hreached : ∀ t' c, e ≠ some (.reached t' c))
    (hkeep : ∀ (t' : ℕ) (task' : RequestTask), d.tasks[t']? = some task' →
      d'.tasks[t']? = some task')
    (hrunning : ∀ (k : ℕ) (job : Job), d'.jobs[k]? = some job → job.result = none →
      d.jobs[k]? = some job)
    (hcounted : patient → ∀ c, rejections c (e :: past) ≤ (d.connections c).failedAttempts ∨
      (rejections c (e :: past) ≤ (d.connections c).failedAttempts + 1 ∧ Pending d' c)) :
    Guarded config patient d' (e :: past) where
  owns t' task' ht' hholds := by
    rw [hconnections]
    exact h.owns t' task' (htasks t' task' ht' hholds) hholds
  undecided t' task' ht' hholds := by
    rw [hconnections]
    exact h.undecided t' task' (htasks t' task' ht' hholds) hholds
  jobs t' task' k ht' hstage := by
    obtain ⟨job, hk, hc⟩ := h.jobs t' task' k (htasks t' task' ht' (by rw [hstage]; rfl)) hstage
    obtain ⟨job', hk', hc'⟩ := hjobs k job hk
    exact ⟨job', hk', hc' task' hc⟩
  checked k job result hk hresult := by
    rcases hchecked k job result hk hresult with hold | hnew
    · exact (h.checked k job result hold hresult).cons
    · exact hnew
  accepted c := by
    rw [hconnections]
    exact (h.accepted c).cons e
  once c := by
    rw [acks_cons, hack, hconnections]
    exact h.once c
  gated := h.gated.cons fun t' c he => absurd he (hreached t' c)
  bounded := by
    rw [hconnections]
    exact h.bounded
  running hpatient k job hk hresult := by
    obtain ⟨t', task', ht', hstage⟩ := h.running hpatient k job (hrunning k job hk hresult) hresult
    exact ⟨t', task', hkeep t' task' ht', hstage⟩
  counted := by
    rw [hconnections]
    exact hcounted

/-- A step that concerns neither connections nor jobs. -/
theorem Guarded.aside (h : Guarded config patient d past)
    (htasks : ∀ (t' : ℕ) (task' : RequestTask), d'.tasks[t']? = some task' →
      task'.stage.holdsAuth = true → d.tasks[t']? = some task')
    (hkeep : ∀ (t' : ℕ) (task' : RequestTask), d.tasks[t']? = some task' →
      d'.tasks[t']? = some task')
    (hconnections : d'.connections = d.connections) (hjobs : d'.jobs = d.jobs)
    (he : Event.isMinor e = true) : Guarded config patient d' (e :: past) := by
  have hminor : Event.Minor config past e := minor he
  refine h.observe htasks hconnections
    (fun _ job hk => ⟨job, by rw [hjobs]; exact hk, fun _ hfor => hfor⟩)
    (fun _ _ _ hk _ => .inl (hjobs ▸ hk)) hminor.ack (fun _ _ hreached => ?_) hkeep
    (fun _ _ hk _ => hjobs ▸ hk) fun hpatient c => ?_
  · rw [hreached] at he
    cases he
  rw [rejections_cons, hminor.rejection]
  rcases h.counted hpatient c with hfew | ⟨hfew, t', task', k, job, ht', hc, hstage', hk, hresult⟩
  · exact .inl hfew
  · exact .inr ⟨hfew, t', task', k, job, hkeep t' task' ht', hc, hstage', by rw [hjobs]; exact hk,
      hresult⟩

/-- Nothing is to be seen. -/
theorem Guarded.idle (h : Guarded config patient d past) : Guarded config patient d (none :: past) :=
  h.aside (fun _ _ ht' _ => ht') (fun _ _ ht' => ht') rfl rfl rfl

theorem moves_setStage {d0 : State} (hconnections : ∀ c, c ≠ task.connection →
      d.connections c = d0.connections c) (htasks : d.tasks = d0.tasks) (hjobs : d.jobs = d0.jobs) :
    Moves d0 t task stage (d.setStage t task stage) where
  tasks := by rw [State.setStage, htasks]
  others := hconnections
  jobs := ⟨[], by rw [State.setStage, hjobs, List.append_nil], nofun⟩

end Moves

/-! ## The steps -/

section Steps

variable {patient : Prop} {config : Config} {d : State} {t : ℕ} {task : RequestTask} {past : Past}
  {outside : Outside}

/-- A step of a task and its event keep the invariant. -/
def Preserves (config : Config) (patient : Prop) (past : Past) (result : State × Option Event) : Prop :=
  Guarded config patient result.1 (result.2 :: past)

variable {k : ℕ} {job : Job} {username password : Bytes} {stage : Stage} {e : Option Event}

section

variable (h : Guarded config patient d past) (ht : d.tasks[t]? = some task)

include h ht

/-- A task moves on to a stage in which it does not hold the guard, and its connection is as
authenticated as it was. -/
theorem settle_preserves {d' : State} (connection : Connection)
    (hother : ∀ t', t' ≠ t → (d.connections task.connection).authLock = some t' →
      connection = d.connections task.connection)
    (hfail : (d.connections task.connection).failedAttempts ≤ connection.failedAttempts ∧
      connection.failedAttempts ≤ 5)
    (hleave : patient → ∀ k job, task.stage = .verifying k → d.jobs[k]? = some job →
      job.result ≠ none ∧ (job.result = some (some (.ok none)) →
        (d.connections task.connection).failedAttempts < connection.failedAttempts))
    (hd : (d'.connections, d'.tasks, d'.jobs) =
      (fun c => if c = task.connection then connection else d.connections c, d.tasks, d.jobs))
    (hauth : (connection.authenticated, connection.writeAuthorized) =
      ((d.connections task.connection).authenticated,
        (d.connections task.connection).writeAuthorized))
    (hstage : stage.holdsAuth = false) (he : Event.Minor config past e) :
    Preserves config patient past (d'.setStage t task stage, e) := by
  simp only [Prod.mk.injEq, funext_iff] at hd hauth
  obtain ⟨hconnections, htasks, hjobs⟩ := hd
  refine h.keep ht (moves_setStage (fun c hc => (hconnections c).trans (if_neg hc)) htasks hjobs)
    ((hconnections _).trans (if_pos rfl)) hother (fun hholds => ?_) (fun k hk => ?_) hfail hleave
    (fun k hle hlt => ?_) hauth.1 hauth.2 he
  · rw [hstage] at hholds
    cases hholds
  · rw [hk] at hstage
    cases hstage
  · rw [State.setStage, hjobs] at hlt
    exact absurd hlt (Nat.not_lt_of_le hle)

/-- The task that holds the guard is this one. -/
theorem Guarded.lock_unique {p : Prop} (hholds : task.stage.holdsAuth = true) {t' : ℕ}
    (hne : t' ≠ t) (hlocked : (d.connections task.connection).authLock = some t') : p :=
  absurd (Option.some.inj (hlocked.symm.trans (h.owns t task ht hholds))) hne

section Free

-- The task does not wait for a verification.
variable (hnot : ∀ k, task.stage ≠ .verifying k)

include hnot

omit h ht in
theorem leaves_nothing {failed : ℕ} : patient → ∀ (k : ℕ) (job : Job), task.stage = .verifying k →
    d.jobs[k]? = some job → job.result ≠ none ∧ (job.result = some (some (.ok none)) →
      (d.connections task.connection).failedAttempts < failed) :=
  fun _ k _ hk => absurd hk (hnot k)

/-- A task moves on, and its connection stays as it is. -/
theorem stay_preserves {d' : State}
    (hd : (d'.connections, d'.tasks, d'.jobs) = (d.connections, d.tasks, d.jobs))
    (hstage : stage.holdsAuth = false) (he : Event.Minor config past e) :
    Preserves config patient past (d'.setStage t task stage, e) := by
  refine settle_preserves h ht (d.connections task.connection) (fun _ _ _ => rfl)
    ⟨Nat.le_refl _, h.bounded _⟩ (leaves_nothing hnot) ?_ rfl hstage he
  rw [hd, Prod.mk.injEq, funext_iff]
  refine ⟨fun c => ?_, rfl⟩
  split
  · rename_i hc
    rw [hc]
  · rfl

theorem dispatch_preserves (hopen : task.request.isOpen = false →
      ∃ user, Authenticated config task.connection user past) :
    Preserves config patient past (dispatch d t task) := by
  rw [dispatch]
  split
  · exact stay_preserves h ht hnot rfl rfl (minor rfl)
  · exact stay_preserves h ht hnot rfl rfl (minor rfl)
  · exact stay_preserves h ht hnot rfl rfl (minor rfl)
  · exact stay_preserves h ht hnot rfl rfl (minor rfl)
  all_goals
    rename_i hrequest
    refine stay_preserves h ht hnot rfl rfl ⟨fun _ => rfl, fun t' c he => ?_, fun _ => rfl⟩
    cases he
    exact hopen (by rw [hrequest]; rfl)

theorem receive_preserves : Preserves config patient past (receive d t task) := by
  rw [receive]
  split
  · exact stay_preserves h ht hnot rfl rfl (minor rfl)
  split
  · rename_i hopen
    exact dispatch_preserves h ht hnot fun hno => absurd hopen (by rw [hno]; decide)
  · exact stay_preserves h ht hnot rfl rfl (minor rfl)

theorem passGate_preserves : Preserves config patient past (passGate d t task) := by
  rw [passGate]
  split
  · exact h.idle
  split
  · rename_i hauth
    obtain ⟨user, -, huser⟩ := h.accepted task.connection (.inl hauth)
    exact dispatch_preserves h ht hnot fun _ => ⟨user, huser⟩
  · exact stay_preserves h ht hnot rfl rfl (minor rfl)

omit h ht hnot in
theorem failedAttempts_countFailure {connection : Connection} (h : connection.failedAttempts < 5) :
    connection.countFailure.failedAttempts = connection.failedAttempts + 1 :=
  min_eq_left (by omega)

theorem login_preserves : Preserves config patient past (login d t task username password) := by
  simp only [login]
  split
  · exact h.idle
  rename_i hfree
  have hnone : ∀ {p : Prop} t', t' ≠ t →
      (d.connections task.connection).authLock = some t' → p := by
    intro p t' _ hlocked
    rw [Option.not_isSome_iff_eq_none.1 hfree] at hlocked
    cases hlocked
  split
  · exact stay_preserves h ht hnot rfl rfl (minor rfl)
  rename_i hauth
  split
  · exact stay_preserves h ht hnot rfl rfl (minor rfl)
  rename_i hfew
  split
  · refine settle_preserves h ht (d.connections task.connection).countFailure hnone ?_
      (leaves_nothing hnot) rfl rfl rfl (minor rfl)
    rw [failedAttempts_countFailure (Nat.lt_of_not_le hfew)]
    exact ⟨Nat.le_succ _, Nat.lt_of_not_le hfew⟩
  · exact h.keep ht (moves_setStage (fun c hc => if_neg hc) rfl rfl) (if_pos rfl) hnone
      (fun _ => ⟨rfl, eq_false_of_ne_true hauth, Nat.lt_of_not_le hfew⟩) (by nofun)
      ⟨Nat.le_refl _, h.bounded _⟩ (leaves_nothing hnot)
      (fun k hle hlt => absurd hlt (Nat.not_lt_of_le hle)) rfl rfl (minor rfl)

theorem limit_preserves (hholds : task.stage.holdsAuth = true) {now : Instant}
    (hrequest : task.request = .authenticate username password) :
    Preserves config patient past (limit d t task username password now) := by
  have hself := h.owns t task ht hholds
  have hundecided := h.undecided t task ht hholds
  have hbounded := h.bounded task.connection
  simp only [limit]
  split
  · exact settle_preserves h ht { d.connections task.connection with authLock := none }
      (fun _ => h.lock_unique ht hholds) ⟨Nat.le_refl _, hbounded⟩ (leaves_nothing hnot) rfl rfl rfl
      (minor rfl)
  split
  · exact h.keep ht (moves_setStage (fun _ _ => rfl) rfl rfl) rfl (fun _ _ _ => rfl)
      (fun _ => ⟨hself, hundecided⟩) (by nofun) ⟨Nat.le_refl _, hbounded⟩ (leaves_nothing hnot)
      (fun k hle hlt => absurd hlt (Nat.not_lt_of_le hle)) rfl rfl (minor rfl)
  · have hmove : Moves d t task (.verifying d.jobs.length) (State.setStage { d with
        limiter := (d.limiter.allow (d.connections task.connection).peer now).2
        authPermits := d.authPermits - 1
        jobs := d.jobs ++ [⟨task.connection, username, password, none⟩] } t task
        (.verifying d.jobs.length)) :=
      ⟨rfl, fun _ _ => rfl, ⟨_, rfl, fun job hjob => by rw [List.mem_singleton.1 hjob]⟩⟩
    refine h.keep ht hmove rfl (fun _ _ _ => rfl) (fun _ => ⟨hself, hundecided⟩) (fun k hk => ?_)
      ⟨Nat.le_refl _, hbounded⟩ (leaves_nothing hnot) (fun k hle hlt => ?_) rfl rfl
      (minor rfl)
    · cases hk
      exact ⟨_, List.getElem?_concat_length .., rfl, hrequest⟩
    · rw [State.setStage, List.length_append, List.length_singleton] at hlt
      rw [Nat.le_antisymm hle (Nat.lt_succ_iff.1 hlt)]

theorem pairing_preserves (pairingId : Uuid) :
    Preserves config patient past (validate d t task pairingId outside) ∧
      Preserves config patient past (readRecord d t task pairingId outside) ∧
      (∀ clientNonce clientProof record,
        Preserves config patient past (prove config d t task pairingId clientNonce clientProof record outside)) ∧
      (∀ response,
        Preserves config patient past ((removeFile d pairingId outside).respond t task response)) ∧
      ∀ proof, Preserves config patient past (consume config d t task pairingId proof outside) := by
  have hremove : ∀ response,
      Preserves config patient past ((removeFile d pairingId outside).respond t task response) := by
    intro response
    refine stay_preserves h ht hnot ?_ rfl (minor rfl)
    rw [removeFile]
    split <;> rfl
  refine ⟨?_, ?_, fun clientNonce clientProof record => ?_, hremove, fun proof => ?_⟩
  · rw [validate]
    split <;> exact stay_preserves h ht hnot rfl rfl (minor rfl)
  · rw [readRecord]
    split
    · exact stay_preserves h ht hnot rfl rfl (minor rfl)
    split <;> exact stay_preserves h ht hnot rfl rfl (minor rfl)
  · rw [prove]
    repeat' split
    all_goals exact stay_preserves h ht hnot rfl rfl (minor rfl)
  · rw [consume]
    split
    · exact stay_preserves h ht hnot rfl rfl (minor rfl)
    · exact hremove _

end Free

theorem conclude_preserves (hholds : task.stage.holdsAuth = true)
    {result : Option (Except AuthError (Option UserAuthorization))}
    (hresult : ∀ authorization, result = some (.ok (some authorization)) →
      ∃ user username password, authorization = ⟨user.writable⟩ ∧
        task.request = .authenticate username password ∧
        Verified config k task.connection username password user past)
    (hjob : ∀ k job, task.stage = .verifying k → d.jobs[k]? = some job → job.result = some result) :
    Preserves config patient past (conclude d t task k result) := by
  have hundecided := h.undecided t task ht hholds
  have hbounded := h.bounded task.connection
  -- Only a rejection has to be counted.
  have hleave : ∀ failed : ℕ, (result = some (.ok none) →
      (d.connections task.connection).failedAttempts < failed) → patient → ∀ (k : ℕ) (job : Job),
      task.stage = .verifying k → d.jobs[k]? = some job → job.result ≠ none ∧
        (job.result = some (some (.ok none)) →
          (d.connections task.connection).failedAttempts < failed) := by
    intro failed hcount _ k job hstage hk
    rw [hjob k job hstage hk]
    exact ⟨Option.some_ne_none _, fun hrejected => hcount (Option.some.inj hrejected)⟩
  rcases result with _ | error | _ | authorization <;> simp only [conclude]
  rotate_right
  · obtain ⟨user, username, password, rfl, hrequest, hverified⟩ := hresult authorization rfl
    have huser : Authenticated config task.connection user
        (some (.authenticated t task.connection k task.request ⟨user.writable⟩) :: past) := by
      rw [hrequest]
      exact ⟨[], t, k, username, password, past, rfl, hverified⟩
    have hack : Event.isAck task.connection (some (.authenticated t task.connection k task.request
        ⟨user.writable⟩)) = true := decide_eq_true rfl
    have hacks := (h.once task.connection).2 hundecided.1
    exact h.move ht (moves_setStage (fun c hc => if_neg hc) rfl rfl) (if_pos rfl)
      (fun _ => h.lock_unique ht hholds) (by nofun) (by nofun) ⟨Nat.le_refl _, hbounded⟩
      (hleave _ nofun) (fun k hle hlt => absurd hlt (Nat.not_lt_of_le hle))
      (fun _ => ⟨user, id, huser⟩)
      ⟨by rw [acks_cons, hacks, if_pos (by exact hack)], nofun⟩
      (fun c hc => decide_eq_false (Ne.symm hc)) (by nofun) fun _ => rfl
  rotate_right
  · have hcount : ({ d.connections task.connection with authLock := none } :
        Connection).countFailure.failedAttempts =
          (d.connections task.connection).failedAttempts + 1 :=
      failedAttempts_countFailure (by exact hundecided.2)
    exact settle_preserves h ht
      ({ d.connections task.connection with authLock := none } : Connection).countFailure
      (fun _ => h.lock_unique ht hholds) (by rw [hcount]; exact ⟨Nat.le_succ _, hundecided.2⟩)
      (hleave _ fun _ => by rw [hcount]; exact Nat.lt_succ_self _) rfl rfl rfl (minor rfl)
  all_goals
    exact settle_preserves h ht { d.connections task.connection with authLock := none }
      (fun _ => h.lock_unique ht hholds) ⟨Nat.le_refl _, hbounded⟩ (hleave _ nofun) rfl rfl rfl
      (minor rfl)

/-- A task that waits for a verification. -/
theorem pollTask_verifying_preserves (hstage : task.stage = .verifying k) :
    Preserves config patient past (pollTask config d t task outside) := by
  simp only [pollTask, hstage]
  split
  · rename_i c username password result hk
    obtain ⟨job, hk', hc⟩ := h.jobs t task k ht hstage
    cases hk.symm.trans hk'
    refine conclude_preserves h ht (by rw [hstage]; rfl) (fun authorization hresult => ?_)
      fun k' job' hstage' hk' => ?_
    · obtain ⟨user, hverified, huser⟩ := (h.checked k _ _ hk (congrArg some hresult)).verified
      exact ⟨user, username, password, huser, hc.2, hc.1 ▸ hverified⟩
    cases hstage.symm.trans hstage'
    cases hk.symm.trans hk'
    rfl
  · exact h.idle

theorem pollTask_preserves : Preserves config patient past (pollTask config d t task outside) := by
  by_cases hverifying : ∃ k, task.stage = .verifying k
  · obtain ⟨k, hstage⟩ := hverifying
    exact pollTask_verifying_preserves h ht hstage
  have hnot : ∀ k, task.stage ≠ .verifying k := not_exists.1 hverifying
  rw [pollTask]
  split
  · exact receive_preserves h ht hnot
  · exact passGate_preserves h ht hnot
  · exact stay_preserves h ht hnot rfl rfl (minor rfl)
  · exact login_preserves h ht hnot
  · rename_i hstage _
    exact limit_preserves h ht hnot (by rw [hstage]; rfl) ‹_›
  · rename_i hstage
    exact absurd hstage (hnot _)
  · rename_i hstage
    exact settle_preserves h ht { d.connections task.connection with authLock := none }
      (fun _ => h.lock_unique ht (by rw [hstage]; rfl)) ⟨Nat.le_refl _, h.bounded _⟩
      (leaves_nothing hnot) rfl rfl rfl (minor rfl)
  · exact (pairing_preserves h ht hnot _).1
  · exact (pairing_preserves h ht hnot _).2.1
  · exact (pairing_preserves h ht hnot _).2.2.1 _ _ _
  · exact (pairing_preserves h ht hnot _).2.2.2.1 _
  · exact (pairing_preserves h ht hnot _).2.2.2.2 _
  · exact stay_preserves h ht hnot rfl rfl (minor rfl)
  · exact h.idle

/-- A task is dropped, which is not to happen to one that waits for a verification. -/
theorem expireTask_preserves (hpatient : patient → ∀ k, task.stage ≠ .verifying k) :
    Preserves config patient past (expireTask d t task, none) := by
  rw [expireTask]
  split
  · rename_i hholds
    exact settle_preserves h ht { d.connections task.connection with authLock := none }
      (fun _ => h.lock_unique ht hholds) ⟨Nat.le_refl _, h.bounded _⟩
      (fun hp k _ hk => absurd hk (hpatient hp k)) rfl rfl rfl (minor rfl)
  rename_i hfree
  have hnot : ∀ k, task.stage ≠ .verifying k := by
    intro k hk
    rw [hk] at hfree
    exact hfree rfl
  split
  · exact stay_preserves h ht hnot rfl rfl (minor rfl)
  · exact h.idle

/-- While a verification is running, no rejection is pending on its connection. -/
theorem Guarded.not_pending (hstage : task.stage = .verifying k) (hk : d.jobs[k]? = some job)
    (hrunning : job.result = none) : ¬ Pending d task.connection := by
  rintro ⟨t', task', k', job', ht', hc, hstage', hk', hresult⟩
  have hlocked := h.owns t' task' ht' (by rw [hstage']; rfl)
  rw [hc] at hlocked
  by_cases hne : t' = t
  · subst hne
    cases ht.symm.trans ht'
    cases hstage.symm.trans hstage'
    cases hk.symm.trans hk'
    rw [hrunning] at hresult
    cases hresult
  · exact h.lock_unique ht (by rw [hstage]; rfl) hne hlocked

end

/-- A verification ends, and its result is seen. -/
theorem finishJob_preserves (h : Guarded config patient d past) (hk : d.jobs[k]? = some job)
    (hrunning : job.result = none) {database : Except AuthError (List UserRecord)} {panics : Bool} :
    Preserves config patient past (finishJob config d k job database panics) := by
  have hlt : k < d.jobs.length := (List.getElem?_eq_some_iff.1 hk).1
  have hset : ∀ result (e : Option Event),
      (∀ r, result = some r → Checked config k job r (e :: past)) →
      (∀ c, Event.isAck c e = false) → (∀ t' c, e ≠ some (.reached t' c)) →
      (∀ c, Event.isRejection c e = true → job.connection = c ∧ result = some (.ok none)) →
      Guarded config patient { d with
        authPermits := d.authPermits + 1
        jobs := d.jobs.set k { job with result := some result } } (e :: past) := by
    intro result e hverified hack hreached hrejection
    have hold : ∀ (k' : ℕ) (job' : Job),
        (d.jobs.set k { job with result := some result })[k']? = some job' →
        d.jobs[k']? = some job' ∨ k' = k ∧ job' = { job with result := some result } := by
      intro k' job' hk'
      by_cases hsame : k' = k
      · subst hsame
        rw [List.getElem?_set_self hlt] at hk'
        exact .inr ⟨rfl, (Option.some.inj hk').symm⟩
      · rw [List.getElem?_set_ne (Ne.symm hsame)] at hk'
        exact .inl hk'
    refine h.observe (fun _ _ ht' _ => ht') rfl (fun k' job' hk' => ?_)
      (fun k' job' r hk' hr => ?_) hack hreached (fun _ _ ht' => ht') (fun k' job' hk' hr => ?_)
      fun hpatient c => ?_
    · by_cases hsame : k' = k
      · subst hsame
        cases hk.symm.trans hk'
        exact ⟨_, List.getElem?_set_self hlt, fun _ h => h⟩
      · exact ⟨job', by rwa [List.getElem?_set_ne (Ne.symm hsame)], fun _ h => h⟩
    · rcases hold k' job' hk' with hold | ⟨rfl, rfl⟩
      · exact .inl hold
      · exact .inr (hverified r (Option.some.inj hr))
    · rcases hold k' job' hk' with hold | ⟨-, rfl⟩
      · exact hold
      · cases hr
    rw [rejections_cons]
    split
    · rename_i hrejected
      obtain ⟨t', task', ht', hstage'⟩ := h.running hpatient k job hk hrunning
      obtain ⟨job', hk', hc', -⟩ := h.jobs t' task' k ht' hstage'
      cases hk.symm.trans hk'
      obtain ⟨rfl, hresult⟩ := hrejection c hrejected
      rw [hc']
      rcases h.counted hpatient task'.connection with hfew | ⟨-, hpend⟩
      · exact .inr ⟨Nat.succ_le_succ hfew, t', task', k, _, ht', rfl, hstage',
          List.getElem?_set_self hlt, congrArg some hresult⟩
      · exact absurd hpend (h.not_pending ht' hstage' hk hrunning)
    rcases h.counted hpatient c with hfew | ⟨hfew, t', task', k', job', ht', hc, hstage', hk', hr⟩
    · exact .inl hfew
    -- A rejection that is pending is not that of a job that has been running until now.
    refine .inr ⟨hfew, t', task', k', job', ht', hc, hstage', ?_, hr⟩
    rw [List.getElem?_set_ne]
    · exact hk'
    rintro rfl
    cases hk.symm.trans hk'
    rw [hrunning] at hr
    cases hr
  rw [finishJob]
  split
  · exact hset none none nofun (fun _ => rfl) nofun nofun
  · refine hset (some _) _ (fun r hr => ?_) (fun _ => rfl) nofun fun c hc => ?_
    · cases hr
      exact ⟨database, List.mem_cons_self, rfl⟩
    obtain ⟨hc, hresult⟩ := isRejection_verified hc
    exact ⟨hc, congrArg some hresult⟩

/-- No request is dropped while its verification is running. -/
def Patient (d : State) : Action → Prop
  | .expire t => ∀ task ∈ d.tasks[t]?, ∀ k, task.stage ≠ .verifying k
  | _ => True

/-- **One step of the daemon keeps the invariant.** -/
theorem step_preserves (h : Guarded config patient d past) {action : Action}
    (hpatient : patient → Patient d action) : Preserves config patient past (step config d action) := by
  cases action with
  | request =>
    refine h.aside (fun t' task' ht' hholds => ?_) (fun t' task' ht' => ?_) rfl rfl rfl
    · by_cases hlt : t' < d.tasks.length
      · rwa [step, List.getElem?_append_left hlt] at ht'
      rw [step, List.getElem?_append_right (Nat.le_of_not_lt hlt)] at ht'
      rw [List.mem_singleton.1 (List.mem_of_getElem? ht')] at hholds
      cases hholds
    · rw [step, List.getElem?_append_left (List.getElem?_eq_some_iff.1 ht').1]
      exact ht'
  | poll =>
    rw [step]
    split
    · rename_i task ht
      exact pollTask_preserves h ht
    · exact h.idle
  | expire =>
    rw [step]
    split
    · rename_i task ht
      exact expireTask_preserves h ht fun hp => hpatient hp task ht
    · exact h.idle
  | verify =>
    rw [step]
    split
    · rename_i job hk
      split
      · exact h.idle
      · rename_i hrunning
        exact finishJob_preserves h hk (Option.not_isSome_iff_eq_none.1 hrunning)
    · exact h.idle
  | createPairing =>
    rw [step]
    split
    · exact h.idle
    · exact h.aside (fun _ _ ht' _ => ht') (fun _ _ ht' => ht') rfl rfl rfl
  | removePairing => exact h.aside (fun _ _ ht' _ => ht') (fun _ _ ht' => ht') rfl rfl rfl

end Steps

/-! ## Every run -/

/-- The daemon before the first request. -/
theorem guarded_new {patient : Prop} {peers : ℕ → IpAddr}
    {attemptsPerMinute maxConcurrentAuth : ℕ} :
    Guarded config patient (State.new peers attemptsPerMinute maxConcurrentAuth) [] where
  owns _ _ ht := by cases ht
  undecided _ _ ht := by cases ht
  jobs _ _ _ ht := by cases ht
  checked _ _ _ hk := by cases hk
  accepted _ hc := by rcases hc with hc | hc <;> cases hc
  once _ := ⟨Nat.zero_le _, fun _ => rfl⟩
  gated later _ _ _ hpast := by cases later <;> cases hpast
  bounded _ := Nat.zero_le _
  running _ _ _ hk := by cases hk
  counted _ _ := .inl (Nat.le_refl _)

/-- What has happened in a run, the latest first. -/
def history (config : Config) (d : State) (actions : List Action) : Past :=
  (Machine.run (step config) d actions).2.reverse

section Runs

variable (config : Config) (peers : ℕ → IpAddr) (attemptsPerMinute maxConcurrentAuth : ℕ)
  (actions : List Action)

/-- **Nobody gets past the gate without a password.**  Whatever the interleaving: a request that
needs authentication reaches the export session only after an `Authenticate` that was accepted; a
connection is authenticated at most once; its session may write only if the account that was
accepted may; and as long as no request is dropped while its verification is running, at most five
verifications of a connection end in a rejection. -/
theorem login_gate :
    let new := State.new peers attemptsPerMinute maxConcurrentAuth
    Gated config (history config new actions) ∧
      ∀ c, acks c (history config new actions) ≤ 1 ∧
        (((Machine.run (step config) new actions).1.connections c).writeAuthorized = true →
          ∃ user, user.writable = true ∧
            Authenticated config c user (history config new actions)) ∧
        ((∀ met ∈ Machine.trace (step config) new actions, Patient met.1 met.2) →
          rejections c (history config new actions) ≤ 5) := by
  intro new
  have hany : Guarded config False (Machine.run (step config) new actions).1
      (history config new actions ++ []) :=
    Machine.run_history (I := Guarded config False) (C := fun _ _ => True)
      (fun _ action _ h _ => step_preserves h nofun)
      guarded_new actions fun _ _ => trivial
  rw [List.append_nil] at hany
  refine ⟨hany.gated, fun c => ⟨(hany.once c).1, fun hgrant => ?_, fun hpatient => ?_⟩⟩
  · obtain ⟨user, hwrite, huser⟩ := hany.accepted c (.inr hgrant)
    exact ⟨user, hwrite hgrant, huser⟩
  have hrun : Guarded config True (Machine.run (step config) new actions).1
      (history config new actions ++ []) :=
    Machine.run_history (I := Guarded config True) (C := Patient)
      (fun _ action _ h hC => step_preserves h fun _ => hC)
      guarded_new actions hpatient
  rw [List.append_nil] at hrun
  have hbounded := hrun.bounded c
  -- A rejection that is pending is one of a task with the guard, and then there was an attempt left.
  rcases hrun.counted trivial c with hfew | ⟨hfew, t, task, k, job, ht, rfl, hstage, -⟩
  · exact hfew.trans hbounded
  · have hleft := (hrun.undecided t task ht (by rw [hstage]; rfl)).2
    exact hfew.trans hleft

/-- **A connection has one login at a time**, and only while it is not authenticated and has an
attempt left.  The verification of a login that was dropped may go on. -/
theorem one_login_at_a_time (c : ℕ) :
    let d : State := (Machine.run (step config)
      (State.new peers attemptsPerMinute maxConcurrentAuth) actions).1
    ∃ holder, ∀ t : ℕ, ∀ task ∈ d.tasks[t]?, task.connection = c → task.stage.holdsAuth →
      t = holder ∧ (d.connections c).authenticated = false ∧
        (d.connections c).failedAttempts < 5 := by
  intro d
  have hrun : Guarded config False d (history config _ actions ++ []) :=
    Machine.run_history (I := Guarded config False) (C := fun _ _ => True)
      (fun _ _ _ h _ => step_preserves h nofun) guarded_new actions fun _ _ => trivial
  refine ⟨(d.connections c).authLock.getD 0, ?_⟩
  rintro t task ht rfl hholds
  rw [hrun.owns t task ht hholds, Option.getD_some]
  exact ⟨rfl, hrun.undecided t task ht hholds⟩

end Runs

/-! ## A password too many -/

/-- A cryptography with which nothing verifies. -/
def noCrypto : Crypto := ⟨fun _ => true, fun _ _ => false, fun _ => none, fun _ _ => none, fun _ => []⟩

/-- A login that is dropped while its verification is running, and the end of that verification: the
database has no such user. -/
def abandonedLogin (k : ℕ) : List Action :=
  let outside : Outside := ⟨0, .ok 0, true, false⟩
  [.request 0 (makeVersion protocolMajor protocolMinor) (.authenticate [97] [98]), .poll k outside,
    .poll k outside, .poll k outside, .expire k, .verify k (.ok []) false]

/-- **Six verifications of one connection end in a rejection**: none of them is counted. -/
theorem sixth_rejection :
    rejections 0 (history ⟨noCrypto, []⟩ (State.new (fun _ => 0) 10 4)
      ((List.range 6).flatMap abandonedLogin)) = 6 := by
  decide +kernel

end QuickFS.Daemon
