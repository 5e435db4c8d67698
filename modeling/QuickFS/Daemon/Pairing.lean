import QuickFS.Daemon.Login

/-!
# Pairing

A pairing is good for one `PairingProof`.  `load_pairing` and the two proofs only look at the file
of a pairing, and any number of tasks may have got that far with one file; what decides between them
is the removal of the file, which succeeds for one.  So the invariant is about the files: once there
has been a proof for an identifier its file is gone, and as an identifier is not used twice, the
file does not come back.

What a task has established when it is about to remove the file is carried along with its stage
(`Proven`), and the response is the only other place where it is needed.  The record it has loaded
is one that was created under its identifier, because nothing else is ever in a file.
-/

namespace QuickFS.Daemon

/-! ## What has happened -/

/-- A proof has been produced for a pairing. -/
def Event.isProof (id : Uuid) : Option Event → Bool
  | some (.produced _ _ (.pair pairingId _ _) (.pairingProof _ _)) => decide (pairingId = id)
  | _ => false

/-- How many proofs have been produced for a pairing. -/
def proofs (id : Uuid) (past : Past) : ℕ := past.countP (Event.isProof id)

/-- The request of a task is one for a proof, and the task has loaded the record of that pairing,
which had been created before and had not expired at that time, and with the secret of which the
proof of the client was verified and the proof of the server made. -/
def Proven (config : Config) (t : ℕ) (request : Request) (answer : Bytes)
    (past : Past) : Prop :=
  ∃ pairingId clientNonce clientProof record seconds secret later before,
    request = .pair pairingId clientNonce clientProof ∧
    past = later ++ some (.loaded t record seconds) :: before ∧
    some (.stored record) ∈ before ∧ record.id = pairingId ∧
    seconds < record.expiresUnixSeconds ∧ record.decode config.crypto = .ok secret ∧
    verifyClientProof config.crypto secret pairingId config.fingerprint clientNonce clientProof ∧
    serverProof config.crypto secret pairingId config.fingerprint clientNonce = .ok answer

/-- Every proof was produced for a request that had earned it. -/
def Earned (config : Config) (past : Past) : Prop :=
  ∀ later before t c request fingerprint proof,
    past = later ++ some (.produced t c request (.pairingProof fingerprint proof)) :: before →
      fingerprint = config.fingerprint ∧ Proven config t request proof before

variable {config : Config} {t : ℕ} {e : Option Event} {request : Request} {past : Past}

theorem proofs_cons {id : Uuid} :
    proofs id (e :: past) = proofs id past + if Event.isProof id e then 1 else 0 :=
  List.countP_cons

theorem Proven.cons {proof : Bytes} (h : Proven config t request proof past) (e : Option Event) :
    Proven config t request proof (e :: past) := by
  obtain ⟨pairingId, clientNonce, clientProof, record, seconds, secret, later, before, hrequest, rfl,
    hrest⟩ := h
  exact ⟨pairingId, clientNonce, clientProof, record, seconds, secret, e :: later, before, hrequest,
    rfl, hrest⟩

theorem Earned.cons (h : Earned config past)
    (he : ∀ t c request fingerprint proof,
      e = some (.produced t c request (.pairingProof fingerprint proof)) →
      fingerprint = config.fingerprint ∧ Proven config t request proof past) :
    Earned config (e :: past) := by
  intro later before t c request fingerprint proof hpast
  cases later with
  | nil =>
    obtain ⟨rfl, rfl⟩ := List.cons.inj hpast
    exact he t c request fingerprint proof rfl
  | cons _ later =>
    obtain ⟨rfl, hrest⟩ := List.cons.inj hpast
    exact h later before t c request fingerprint proof hrest

/-! ## The files -/

/-- What a task has established at a stage. -/
def Stage.Backed (config : Config) (t : ℕ) (request : Request) (past : Past) : Stage → Prop
  | .timing record => ∃ pairingId clientNonce clientProof,
      request = .pair pairingId clientNonce clientProof ∧ record.id = pairingId ∧
        some (.stored record) ∈ past
  | .consuming proof => Proven config t request proof past
  | _ => True

theorem Stage.Backed.cons {stage : Stage} (h : stage.Backed config t request past)
    (e : Option Event) : stage.Backed config t request (e :: past) := by
  cases stage with
  | consuming => exact Proven.cons h e
  | timing =>
    obtain ⟨pairingId, clientNonce, clientProof, hrequest, hid, hstored⟩ := h
    exact ⟨pairingId, clientNonce, clientProof, hrequest, hid, List.mem_cons_of_mem _ hstored⟩
  | _ => trivial

/-- **The invariant of the pairings.** -/
structure Paired (config : Config) (d : State) (past : Past) : Prop where
  backed : ∀ (t : ℕ) (task : RequestTask), d.tasks[t]? = some task →
    task.stage.Backed config t task.request past
  unused : ∀ id, id ∉ d.usedPairings → d.pairings id = none ∧ proofs id past = 0
  stored : ∀ id record, d.pairings id = some record → some (.stored record) ∈ past
  once : ∀ id, proofs id past ≤ 1 ∧ (d.pairings id ≠ none → proofs id past = 0)
  earned : Earned config past

section Steps

variable {config : Config} {d d' : State} {t : ℕ} {task : RequestTask} {stage : Stage} {past : Past}
  {e : Option Event} {outside : Outside}

/-- An event that is not a proof. -/
def Event.IsPlain (e : Option Event) : Prop :=
  ∀ t c request fingerprint proof,
    e ≠ some (.produced t c request (.pairingProof fingerprint proof))

def Event.provesNothing : Option Event → Bool
  | some (.produced _ _ _ (.pairingProof ..)) => false
  | _ => true

/-- What is in a file after one has been removed was there before. -/
theorem of_removed {pairings : Uuid → Option PairingRecord} {pairingId id : Uuid}
    {record : PairingRecord}
    (h : (if id = pairingId then none else pairings id) = some record) :
    pairings id = some record := by
  split at h
  · cases h
  · exact h

theorem isPlain (h : Event.provesNothing e = true) : Event.IsPlain e := by
  rintro _ _ _ _ _ rfl
  cases h

theorem Event.IsPlain.isProof_eq_false (h : Event.IsPlain e) {id : Uuid} :
    Event.isProof id e = false := by
  unfold Event.isProof
  split
  · exact absurd rfl (h _ _ _ _ _)
  · rfl

variable {username password : Bytes}

section

variable (h : Paired config d past)

include h

/-- A step in which no proof is produced: files may go, and identifiers that have not been used may
be used. -/
theorem Paired.plain (hbacked : ∀ (t' : ℕ) (task' : RequestTask), d'.tasks[t']? = some task' →
      task'.stage.Backed config t' task'.request (e :: past))
    (hused : ∀ id ∈ d.usedPairings, id ∈ d'.usedPairings)
    (hpairings : ∀ id record, d'.pairings id = some record → d.pairings id = some record ∨
      (id ∉ d.usedPairings ∧ id ∈ d'.usedPairings ∧ e = some (.stored record)))
    (he : Event.IsPlain e) : Paired config d' (e :: past) where
  backed := hbacked
  unused id hid := by
    rw [proofs_cons, he.isProof_eq_false]
    have hold : id ∉ d.usedPairings := fun hmem => hid (hused id hmem)
    refine ⟨Option.eq_none_iff_forall_ne_some.2 fun record hrecord => ?_, (h.unused id hold).2⟩
    rcases hpairings id record hrecord with hsome | ⟨-, hmem, -⟩
    · exact Option.some_ne_none _ (hsome.symm.trans (h.unused id hold).1)
    · exact hid hmem
  stored id record hrecord := by
    rcases hpairings id record hrecord with hsome | ⟨-, -, rfl⟩
    · exact List.mem_cons_of_mem _ (h.stored id record hsome)
    · exact List.mem_cons_self
  once id := by
    rw [proofs_cons, he.isProof_eq_false]
    refine ⟨(h.once id).1, fun hne => ?_⟩
    obtain ⟨record, hrecord⟩ := Option.ne_none_iff_exists'.1 hne
    rcases hpairings id record hrecord with hsome | ⟨hnew, -⟩
    · exact (h.once id).2 (hsome ▸ Option.some_ne_none _)
    · exact (h.unused id hnew).2
  earned := h.earned.cons fun t' c request fingerprint proof hproof =>
    absurd hproof (he t' c request fingerprint proof)

/-- The tasks after a task has moved on. -/
theorem Paired.backed_setStage (ht : d.tasks[t]? = some task) (htasks : d'.tasks = d.tasks)
    (hstage : stage.Backed config t task.request (e :: past)) (t' : ℕ) (task' : RequestTask)
    (ht' : (d'.setStage t task stage).tasks[t']? = some task') :
    task'.stage.Backed config t' task'.request (e :: past) := by
  have hlt : t < d.tasks.length := (List.getElem?_eq_some_iff.1 ht).1
  rw [State.setStage, htasks] at ht'
  by_cases hs : t' = t
  · subst hs
    rw [List.getElem?_set_self hlt] at ht'
    cases ht'
    exact hstage
  · rw [List.getElem?_set_ne (Ne.symm hs)] at ht'
    exact (h.backed t' task' ht').cons e

/-- A task moves, and nothing happens to the pairings. -/
theorem Paired.setStage {connections : ℕ → Connection} {jobs : List Job}
    {limiter : AuthRateLimiter} {permits : ℕ}
    (ht : d.tasks[t]? = some task) (hstage : stage.Backed config t task.request (e :: past))
    (he : Event.provesNothing e = true) :
    Paired config (State.setStage ⟨connections, d.tasks, jobs, limiter, permits, d.pairings,
      d.usedPairings⟩ t task stage) (e :: past) :=
  h.plain (h.backed_setStage ht rfl hstage) (fun _ hid => hid) (fun _ _ hid => .inl hid) (isPlain he)

/-- Nothing is to be seen, and no task has moved. -/
theorem Paired.idle : Paired config d (none :: past) :=
  h.plain (fun t' task' ht' => (h.backed t' task' ht').cons _) (fun _ hid => hid)
    (fun _ _ hid => .inl hid) (isPlain rfl)

end

/-- A step of a task that does not concern pairings. -/
structure Unrelated (d : State) (t : ℕ) (task : RequestTask) (result : State × Option Event) :
    Prop where
  tasks : result.1.tasks = d.tasks ∨ ∃ stage : Stage,
    result.1.tasks = d.tasks.set t { task with stage := stage } ∧
      ∀ config past, stage.Backed config t task.request past
  pairings : result.1.pairings = d.pairings
  used : result.1.usedPairings = d.usedPairings
  plain : Event.IsPlain result.2

theorem Unrelated.paired {result : State × Option Event} (hstep : Unrelated d t task result)
    (h : Paired config d past) (ht : d.tasks[t]? = some task) :
    Paired config result.1 (result.2 :: past) := by
  refine h.plain (fun t' task' ht' => ?_) (fun id hid => by rwa [hstep.used])
    (fun id record hid => .inl (by rwa [hstep.pairings] at hid)) hstep.plain
  rcases hstep.tasks with htasks | ⟨stage, htasks, hstage⟩
  · rw [htasks] at ht'
    exact (h.backed t' task' ht').cons _
  refine h.backed_setStage ht (rfl : d.tasks = d.tasks) (hstage config _) t' task' ?_
  rw [← ht', htasks]
  rfl

theorem unrelated_idle : Unrelated d t task (d, none) := ⟨.inl rfl, rfl, rfl, isPlain rfl⟩

theorem unrelated_setStage {connections : ℕ → Connection} {jobs : List Job}
    {limiter : AuthRateLimiter} {permits : ℕ}
    (hstage : ∀ config past, stage.Backed config t task.request past)
    (he : Event.provesNothing e = true) :
    Unrelated d t task (State.setStage ⟨connections, d.tasks, jobs, limiter, permits, d.pairings,
      d.usedPairings⟩ t task stage, e) :=
  ⟨.inr ⟨stage, rfl, hstage⟩, rfl, rfl, isPlain he⟩

theorem dispatch_unrelated : Unrelated d t task (dispatch d t task) := by
  rw [dispatch]
  split <;> exact unrelated_setStage (fun _ _ => trivial) rfl

theorem receive_unrelated : Unrelated d t task (receive d t task) := by
  rw [receive]
  split
  · exact unrelated_setStage (fun _ _ => trivial) rfl
  split
  · exact dispatch_unrelated
  · exact unrelated_setStage (fun _ _ => trivial) rfl

theorem passGate_unrelated : Unrelated d t task (passGate d t task) := by
  rw [passGate]
  split
  · exact unrelated_idle
  split
  · exact dispatch_unrelated
  · exact unrelated_setStage (fun _ _ => trivial) rfl

theorem login_unrelated : Unrelated d t task (login d t task username password) := by
  simp only [login]
  split
  · exact unrelated_idle
  repeat' split
  all_goals exact unrelated_setStage (fun _ _ => trivial) rfl

theorem limit_unrelated {now : Instant} :
    Unrelated d t task (limit d t task username password now) := by
  simp only [limit]
  repeat' split
  all_goals exact unrelated_setStage (fun _ _ => trivial) rfl

theorem conclude_unrelated {job : ℕ} {result : Option (Except AuthError (Option UserAuthorization))} :
    Unrelated d t task (conclude d t task job result) := by
  simp only [conclude]
  split <;> exact unrelated_setStage (fun _ _ => trivial) rfl

section Tasks

variable {pairingId : Uuid} {clientNonce clientProof : Bytes} (h : Paired config d past)
  (ht : d.tasks[t]? = some task)

include h ht

section

variable (hrequest : task.request = .pair pairingId clientNonce clientProof)

include hrequest

theorem readRecord_paired :
    Paired config (readRecord d t task pairingId outside).1
      ((readRecord d t task pairingId outside).2 :: past) := by
  rw [readRecord]
  split
  · exact h.setStage ht trivial rfl
  rename_i record hrecord
  split
  · exact h.setStage ht trivial rfl
  rename_i hmatch
  exact h.setStage ht ⟨pairingId, clientNonce, clientProof, hrequest, not_not.1 (not_or.1 hmatch).2,
    List.mem_cons_of_mem _ (h.stored pairingId record hrecord)⟩ rfl

theorem prove_paired {record : PairingRecord} (hrecord : record.id = pairingId)
    (hstored : some (.stored record) ∈ past) :
    Paired config (prove config d t task pairingId clientNonce clientProof record outside).1
      ((prove config d t task pairingId clientNonce clientProof record outside).2 :: past) := by
  rw [prove]
  split
  · exact h.setStage ht trivial rfl
  rename_i now hnow
  split
  · exact h.setStage ht trivial rfl
  rename_i hexpires
  split
  · exact h.setStage ht trivial rfl
  rename_i secret hsecret
  split
  · rename_i hverified
    split
    · rename_i proof hproof
      exact h.setStage ht
        ⟨pairingId, clientNonce, clientProof, record, now, secret, [], past, hrequest, rfl, hstored,
          hrecord, Nat.lt_of_not_le hexpires, hsecret, hverified, hproof⟩ rfl
    · exact h.setStage ht trivial rfl
  · exact h.setStage ht trivial rfl

/-- **The removal of the file decides**: it was there, so there has been no proof; and now it is
gone. -/
theorem consume_paired {proof : Bytes} (hproof : Proven config t task.request proof past) :
    Paired config (consume config d t task pairingId proof outside).1
      ((consume config d t task pairingId proof outside).2 :: past) := by
  rw [consume]
  split
  · exact h.setStage ht trivial rfl
  rename_i hgone
  obtain ⟨hthere, hsucceeds⟩ := not_or.1 hgone
  have hsome : d.pairings pairingId ≠ none := fun hnone => hthere (Option.isNone_iff_eq_none.2 hnone)
  have hcount : ∀ id, Event.isProof id (some (.produced t task.connection task.request
      (.pairingProof config.fingerprint proof))) = decide (pairingId = id) := by
    intro id
    rw [hrequest]
    rfl
  have hremove : removeFile d pairingId outside =
      { d with pairings := fun id => if id = pairingId then none else d.pairings id } :=
    if_neg hsucceeds
  rw [hremove]
  refine ⟨h.backed_setStage ht rfl trivial, fun id hid => ?_, fun id record hrecord => ?_,
    fun id => ?_, h.earned.cons ?_⟩
  · have hother : pairingId ≠ id := by
      rintro rfl
      exact hsome (h.unused pairingId hid).1
    refine ⟨(if_neg (Ne.symm hother)).trans (h.unused id hid).1, ?_⟩
    rw [State.respond, proofs_cons, hcount, decide_eq_false hother]
    exact (h.unused id hid).2
  · exact List.mem_cons_of_mem _ (h.stored id record (of_removed hrecord))
  · rw [State.respond, proofs_cons, hcount]
    by_cases hid : pairingId = id
    · subst hid
      rw [(h.once pairingId).2 hsome, decide_eq_true rfl]
      exact ⟨Nat.le_refl 1, fun hne => absurd (if_pos rfl) hne⟩
    rw [decide_eq_false hid]
    refine ⟨(h.once id).1, fun hne => (h.once id).2 fun hnone => hne ?_⟩
    exact (if_neg (Ne.symm hid)).trans hnone
  · intro t' c request fingerprint proof' he
    cases he
    exact ⟨rfl, hproof⟩

end

theorem pollTask_paired : Paired config (pollTask config d t task outside).1
      ((pollTask config d t task outside).2 :: past) := by
  have hbacked := h.backed t task ht
  rw [pollTask]
  split
  · exact receive_unrelated.paired h ht
  · exact passGate_unrelated.paired h ht
  · exact h.setStage ht trivial rfl
  · exact login_unrelated.paired h ht
  · exact limit_unrelated.paired h ht
  · split
    · exact conclude_unrelated.paired h ht
    · exact h.idle
  · exact h.setStage ht trivial rfl
  · rw [validate]
    split
    · exact h.setStage ht trivial rfl
    · exact h.setStage ht trivial rfl
  · rename_i hrequest
    exact readRecord_paired h ht hrequest
  · rename_i record pairingId clientNonce clientProof hstage hrequest
    rw [hstage, hrequest] at hbacked
    obtain ⟨_, _, _, hpair, hrecord, hstored⟩ := hbacked
    cases hpair
    exact prove_paired h ht hrequest hrecord hstored
  · rw [removeFile]
    split
    · exact h.setStage ht trivial rfl
    · exact h.plain (h.backed_setStage ht rfl trivial) (fun _ hid => hid)
        (fun _ _ hid => .inl (of_removed hid)) (isPlain rfl)
  · rename_i proof pairingId clientNonce clientProof hstage hrequest
    rw [hstage] at hbacked
    exact consume_paired h ht hrequest hbacked
  · exact h.setStage ht trivial rfl
  · exact h.idle

end Tasks

theorem expireTask_unrelated : Unrelated d t task (expireTask d t task, none) := by
  rw [expireTask]
  split
  · exact unrelated_setStage (fun _ _ => trivial) rfl
  split
  · exact unrelated_setStage (fun _ _ => trivial) rfl
  · exact unrelated_idle

/-- **One step of the daemon keeps the invariant.** -/
theorem step_paired (h : Paired config d past) (action : Action) :
    Paired config (step config d action).1 ((step config d action).2 :: past) := by
  cases action with
  | request =>
    refine h.plain (fun t' task' ht' => ?_) (fun _ hid => hid) (fun _ _ hid => .inl hid)
      (isPlain rfl)
    by_cases hlt : t' < d.tasks.length
    · rw [step, List.getElem?_append_left hlt] at ht'
      exact (h.backed t' task' ht').cons _
    rw [step, List.getElem?_append_right (Nat.le_of_not_lt hlt)] at ht'
    rw [List.mem_singleton.1 (List.mem_of_getElem? ht')]
    trivial
  | poll =>
    rw [step]
    split
    · rename_i task ht
      exact pollTask_paired h ht
    · exact h.idle
  | expire =>
    rw [step]
    split
    · rename_i task ht
      exact expireTask_unrelated.paired h ht
    · exact h.idle
  | verify =>
    have hkeep : ∀ (t' : ℕ) (task' : RequestTask) e, d.tasks[t']? = some task' →
        task'.stage.Backed config t' task'.request (e :: past) :=
      fun t' task' e ht' => (h.backed t' task' ht').cons e
    rw [step]
    split
    · split
      · exact h.idle
      rw [finishJob]
      split <;>
        exact h.plain (fun t' task' ht' => hkeep t' task' _ ht') (fun _ hid => hid)
          (fun _ _ hid => .inl hid) (isPlain rfl)
    · exact h.idle
  | createPairing record =>
    rw [step]
    split
    · exact h.idle
    rename_i hnew
    refine h.plain (fun t' task' ht' => (h.backed t' task' ht').cons _)
      (fun _ hid => List.mem_cons_of_mem _ hid) (fun id record' hrecord => ?_) (isPlain rfl)
    dsimp only at hrecord
    split at hrecord
    · rename_i hid
      cases hrecord
      exact .inr ⟨hid ▸ hnew, hid ▸ List.mem_cons_self, rfl⟩
    · exact .inl hrecord
  | removePairing pairingId =>
    exact h.plain (fun t' task' ht' => (h.backed t' task' ht').cons _) (fun _ hid => hid)
      (fun _ _ hid => .inl (of_removed hid)) (isPlain rfl)

end Steps

/-! ## Every run -/

/-- **A pairing is good for one proof.**  Whatever the interleaving, at most one `PairingProof` is
produced for a pairing, and only to a request whose own proof was verified for that pairing, the
fingerprint of the server and its nonce against the record that was created for the pairing and had
not expired when it was loaded. -/
theorem pairing_proof_once (config : Config) (peers : ℕ → IpAddr)
    (attemptsPerMinute maxConcurrentAuth : ℕ) (actions : List Action) :
    let past := history config (State.new peers attemptsPerMinute maxConcurrentAuth) actions
    (∀ id, proofs id past ≤ 1) ∧ Earned config past := by
  intro past
  have hnew : Paired config (State.new peers attemptsPerMinute maxConcurrentAuth) [] := by
    refine ⟨fun _ _ ht => ?_, fun _ _ => ⟨rfl, rfl⟩, fun _ _ hrecord => ?_,
      fun _ => ⟨Nat.zero_le _, fun _ => rfl⟩, fun later _ _ _ _ _ _ hpast => ?_⟩
    · cases ht
    · cases hrecord
    · cases later <;> cases hpast
  have hrun := Machine.run_history (I := Paired config) (C := fun _ _ => True)
    (fun _ action _ h _ => step_paired h action) hnew actions fun _ _ => trivial
  rw [List.append_nil] at hrun
  exact ⟨fun id => (hrun.once id).1, hrun.earned⟩

end QuickFS.Daemon
