import QuickFS.Daemon.Auth
import QuickFS.Client.Remote

/-!
# How the daemon handles a request

`handle` of `servers/linux/server-daemon`, for any number of connections and of requests under way
on each of them.  Every request is a task, and a task is at one of the places where it waits or
where it asks the operating system for something (`Stage`); what happens between two of these places
happens in one step.  A step is taken by whoever the scheduler chooses (`Action`).

* A guard of `auth_state` is held from one stage to the next; `authLock` is the task that holds it.
  The guard of `auth_limiter` is only ever held within a step.
* The verification of a password runs on a thread of its own (`Job`) and is not stopped by anything.
* A request has a deadline, and when that has passed its task is dropped at the next place where it
  waits, with the guards it holds (`expire`).  While it works with the files of a pairing it does not
  wait, and is not dropped.
* The files of pairings are removed by the tasks themselves, by an administrator or by nobody.  A
  pairing is created under an identifier that has not been used before.

What a request does once it has reached the export session is not part of this.
-/

namespace QuickFS.Daemon

/-! ## Requests -/

/-- A request.  All that is not handled by the daemon itself is an operation of the export. -/
inductive Request where
  | hello
  | pair (pairingId : Uuid) (clientNonce clientProof : Bytes)
  | authenticate (username password : Bytes)
  | ping (nonce : ℕ)
  | getMetadataBatch (nodes : List NodeId)
  | operation (operation : RemoteCall)

inductive Response where
  | helloAck (version : ℕ)
  | authenticateAck
  | pairingProof (certificateFingerprint proof : Bytes)
  | pong (nonce : ℕ)
  | exported
  | error (code : ErrorCode) (message : String)
deriving DecidableEq

/-- `PROTOCOL_MAJOR`. -/
def protocolMajor : ℕ := 6

/-- `PROTOCOL_MINOR`. -/
def protocolMinor : ℕ := 4

/-- `make_version`. -/
def makeVersion (major minor : ℕ) : ℕ := major * 256 + minor % 256

/-- `version_major`. -/
def versionMajor (version : ℕ) : ℕ := version / 256

def authenticationError (message : String) : Response := .error .unauthenticated message

def internalError : Response := .error .internal "internal server error"

def pairingUnavailable : Response := authenticationError "pairing session is unavailable"

/-- The requests that need no authentication. -/
def Request.isOpen : Request → Bool
  | hello | pair .. | authenticate .. | ping _ => true
  | getMetadataBatch _ | operation _ => false

/-! ## State -/

/-- A connection: its `ConnectionAuth`, the task that holds the guard of it, and the write grant of
its session. -/
structure Connection where
  peer : IpAddr
  authenticated : Bool
  failedAttempts : ℕ
  authLock : Option ℕ
  writeAuthorized : Bool

def Connection.new (peer : IpAddr) : Connection := ⟨peer, false, 0, none, false⟩

/-- Where a task is. -/
inductive Stage where
  /-- It has read its request. -/
  | received
  /-- It waits for `auth_state`, to see whether the connection is authenticated. -/
  | gate
  /-- It is with the export session. -/
  | exporting
  /-- It waits for `auth_state`, to authenticate the connection. -/
  | login
  /-- It holds `auth_state` and waits for `auth_limiter`. -/
  | limiting
  /-- It holds `auth_state` and waits for a job. -/
  | verifying (job : ℕ)
  /-- It holds `auth_state` and writes its response. -/
  | busy
  /-- `load_pairing` is about to look at the file. -/
  | validating
  /-- `load_pairing` is about to read the file. -/
  | reading
  /-- `load_pairing` is about to look at the clock. -/
  | timing (record : PairingRecord)
  /-- `load_pairing` is about to remove the file of a record that has expired. -/
  | expiring
  /-- `consume_pairing` is about to remove the file. -/
  | consuming (proof : Bytes)
  /-- It writes its response. -/
  | responding (response : Response)
  | finished
deriving DecidableEq

/-- The stages in which a task holds the guard of `auth_state`. -/
def Stage.holdsAuth : Stage → Bool
  | limiting | verifying _ | busy => true
  | _ => false

/-- The stages in which a task waits for something. -/
def Stage.waits : Stage → Bool
  | gate | exporting | login | limiting | verifying _ | busy | responding _ => true
  | _ => false

structure RequestTask where
  connection : ℕ
  version : ℕ
  request : Request
  stage : Stage

/-- A verification of a password: `none` while it runs, and then its result, if it did not panic. -/
structure Job where
  connection : ℕ
  username : Bytes
  password : Bytes
  result : Option (Option (Except AuthError (Option UserAuthorization)))

structure State where
  connections : ℕ → Connection
  tasks : List RequestTask
  jobs : List Job
  limiter : AuthRateLimiter
  authPermits : ℕ
  pairings : Uuid → Option PairingRecord
  usedPairings : List Uuid

structure Config where
  crypto : Crypto
  fingerprint : Bytes

/-- The daemon before the first request. -/
def State.new (peers : ℕ → IpAddr) (attemptsPerMinute maxConcurrentAuth : ℕ) : State where
  connections c := .new (peers c)
  tasks := []
  jobs := []
  limiter := .new attemptsPerMinute
  authPermits := maxConcurrentAuth
  pairings _ := none
  usedPairings := []

/-! ## What can happen -/

/-- What the operating system tells a task in a step: the two clocks, whether a file may be used,
and whether a call fails. -/
structure Outside where
  instant : Instant
  seconds : Except AuthError ℕ
  isPrivate : Bool
  fails : Bool

inductive Action where
  | request (connection version : ℕ) (request : Request)
  | poll (task : ℕ) (outside : Outside)
  | expire (task : ℕ)
  | verify (job : ℕ) (database : Except AuthError (List UserRecord)) (panics : Bool)
  | createPairing (record : PairingRecord)
  | removePairing (pairingId : Uuid)

/-- What is to be seen of a step. -/
inductive Event where
  /-- The request of a task has reached the export session. -/
  | reached (task connection : ℕ)
  /-- A verification made for a connection has ended. -/
  | verified (job connection : ℕ) (username password : Bytes)
      (database : Except AuthError (List UserRecord))
      (result : Except AuthError (Option UserAuthorization))
  /-- A task has authenticated its connection by a verification, and its response is
  `AuthenticateAck`. -/
  | authenticated (task connection job : ℕ) (request : Request) (authorization : UserAuthorization)
  /-- A pairing has been created. -/
  | stored (record : PairingRecord)
  /-- A record has been loaded and found valid at a time. -/
  | loaded (task : ℕ) (record : PairingRecord) (seconds : ℕ)
  /-- A task has its response, another one. -/
  | produced (task connection : ℕ) (request : Request) (response : Response)

namespace State

variable (d : State)

/-- A task has moved to another stage. -/
def setStage (t : ℕ) (task : RequestTask) (stage : Stage) : State :=
  { d with tasks := d.tasks.set t { task with stage := stage } }

def setConnection (c : ℕ) (connection : Connection) : State :=
  { d with connections := fun c' => if c' = c then connection else d.connections c' }

/-- A task has its response. -/
def respond (t : ℕ) (task : RequestTask) (response : Response) : State × Option Event :=
  (d.setStage t task (.responding response),
    some (.produced t task.connection task.request response))

/-- The guard of `auth_state` is dropped. -/
def unlock (c : ℕ) : State := d.setConnection c { d.connections c with authLock := none }

end State

/-- `failed_attempts.saturating_add(1)`. -/
def Connection.countFailure (connection : Connection) : Connection :=
  { connection with failedAttempts := min (connection.failedAttempts + 1) 255 }

section Program

variable (config : Config) (d : State) (t : ℕ) (task : RequestTask)

/-- A request that has been let through. -/
def dispatch : State × Option Event :=
  match task.request with
  | .hello => d.respond t task (.helloAck (makeVersion protocolMajor protocolMinor))
  | .ping nonce => d.respond t task (.pong nonce)
  | .pair .. => (d.setStage t task .validating, none)
  | .authenticate .. => (d.setStage t task .login, none)
  | .getMetadataBatch _ | .operation _ =>
    (d.setStage t task .exporting, some (.reached t task.connection))

/-- The beginning: the version, and which requests have to pass the gate. -/
def receive : State × Option Event :=
  if versionMajor task.version ≠ protocolMajor then
    d.respond t task (.error .unsupportedVersion "unsupported protocol major version")
  else if task.request.isOpen then dispatch d t task
  else (d.setStage t task .gate, none)

/-- `auth_state.lock().await.authenticated`. -/
def passGate : State × Option Event :=
  if (d.connections task.connection).authLock.isSome then (d, none)
  else if (d.connections task.connection).authenticated then dispatch d t task
  else d.respond t task (authenticationError "authenticate first")

/-- `Request::Authenticate`, from the guard of `auth_state` to the rate limiter. -/
def login (username password : Bytes) : State × Option Event :=
  let connection := d.connections task.connection
  if connection.authLock.isSome then (d, none)
  else if connection.authenticated then
    d.respond t task (.error .invalidRequest "connection is already authenticated")
  else if connection.failedAttempts ≥ 5 then
    d.respond t task
      (authenticationError "too many failed authentication attempts; reconnect to try again")
  else if (validateUsername username).isOk = false ∨ password = [] ∨
      password.length > maxPasswordLength then
    (d.setConnection task.connection connection.countFailure).respond t task
      (authenticationError "invalid username or password")
  else
    ((d.setConnection task.connection { connection with authLock := some t }).setStage t task
      .limiting, none)

/-- From the rate limiter to the verification. -/
def limit (username password : Bytes) (now : Instant) : State × Option Event :=
  let (allowed, limiter) := d.limiter.allow (d.connections task.connection).peer now
  let d := { d with limiter := limiter }
  if allowed = false then
    (d.unlock task.connection).respond t task
      (authenticationError "authentication rate limit exceeded; retry later")
  else if d.authPermits = 0 then
    (d.setStage t task .busy, some (.produced t task.connection task.request
      (.error .timeout "authentication capacity is busy; retry later")))
  else
    (State.setStage { d with
        authPermits := d.authPermits - 1
        jobs := d.jobs ++ [⟨task.connection, username, password, none⟩] } t task
      (.verifying d.jobs.length), none)

/-- From the result of the verification to the end. -/
def conclude (job : ℕ) (result : Option (Except AuthError (Option UserAuthorization))) :
    State × Option Event :=
  let connection := { d.connections task.connection with authLock := none }
  match result with
  | some (.ok (some authorization)) =>
    ((d.setConnection task.connection { connection with
      writeAuthorized := authorization.writable, authenticated := true }).setStage t task
        (.responding .authenticateAck),
      some (.authenticated t task.connection job task.request authorization))
  | some (.ok none) =>
    (d.setConnection task.connection connection.countFailure).respond t task
      (authenticationError "invalid username or password")
  | some (.error _) | none => (d.setConnection task.connection connection).respond t task internalError

/-- `validate_private_file`, in `load_pairing`. -/
def validate (pairingId : Uuid) (outside : Outside) : State × Option Event :=
  if (d.pairings pairingId).isNone ∨ outside.fails = true ∨ outside.isPrivate = false then
    d.respond t task pairingUnavailable
  else (d.setStage t task .reading, none)

/-- `read_json`, in `load_pairing`, and the check of the identifier. -/
def readRecord (pairingId : Uuid) (outside : Outside) : State × Option Event :=
  match d.pairings pairingId with
  | none => d.respond t task pairingUnavailable
  | some record =>
    if outside.fails = true ∨ record.id ≠ pairingId then d.respond t task pairingUnavailable
    else (d.setStage t task (.timing record), none)

/-- The rest of `load_pairing`, and the proofs. -/
def prove (pairingId : Uuid) (clientNonce clientProof : Bytes) (record : PairingRecord)
    (outside : Outside) : State × Option Event :=
  match outside.seconds with
  | .error _ => d.respond t task pairingUnavailable
  | .ok now =>
    if record.expiresUnixSeconds ≤ now then (d.setStage t task .expiring, none)
    else
      match record.decode config.crypto with
      | .error _ => d.respond t task pairingUnavailable
      | .ok secret =>
        if verifyClientProof config.crypto secret pairingId config.fingerprint clientNonce
            clientProof then
          match serverProof config.crypto secret pairingId config.fingerprint clientNonce with
          | .ok proof => (d.setStage t task (.consuming proof), some (.loaded t record now))
          | .error _ => d.respond t task internalError
        else d.respond t task (authenticationError "pairing code was not accepted")

/-- The file of a pairing is removed, unless the call fails. -/
def removeFile (pairingId : Uuid) (outside : Outside) : State :=
  if outside.fails then d
  else { d with pairings := fun id => if id = pairingId then none else d.pairings id }

/-- `consume_pairing`. -/
def consume (pairingId : Uuid) (proof : Bytes) (outside : Outside) : State × Option Event :=
  if (d.pairings pairingId).isNone ∨ outside.fails = true then d.respond t task pairingUnavailable
  else
    (removeFile d pairingId outside).respond t task (.pairingProof config.fingerprint proof)

/-- One step of a task. -/
def pollTask (outside : Outside) : State × Option Event :=
  match task.stage, task.request with
  | .received, _ => receive d t task
  | .gate, _ => passGate d t task
  | .exporting, _ => d.respond t task .exported
  | .login, .authenticate username password => login d t task username password
  | .limiting, .authenticate username password => limit d t task username password outside.instant
  | .verifying job, _ =>
    match d.jobs[job]? with
    | some ⟨_, _, _, some result⟩ => conclude d t task job result
    | _ => (d, none)
  | .busy, _ => ((d.unlock task.connection).setStage t task .finished, none)
  | .validating, .pair pairingId _ _ => validate d t task pairingId outside
  | .reading, .pair pairingId _ _ => readRecord d t task pairingId outside
  | .timing record, .pair pairingId clientNonce clientProof =>
    prove config d t task pairingId clientNonce clientProof record outside
  | .expiring, .pair pairingId _ _ =>
    (removeFile d pairingId outside).respond t task pairingUnavailable
  | .consuming proof, .pair pairingId _ _ => consume config d t task pairingId proof outside
  | .responding _, _ => (d.setStage t task .finished, none)
  | _, _ => (d, none)

/-- The deadline of a request has passed. -/
def expireTask : State :=
  if task.stage.holdsAuth then (d.unlock task.connection).setStage t task .finished
  else if task.stage.waits then d.setStage t task .finished
  else d

/-- A verification has ended, and gives its permit back. -/
def finishJob (k : ℕ) (job : Job) (database : Except AuthError (List UserRecord)) (panics : Bool) :
    State × Option Event :=
  if panics then
    ({ d with authPermits := d.authPermits + 1, jobs := d.jobs.set k { job with result := some none } },
      none)
  else
    let result := verifyUserAuthorization config.crypto database job.username job.password
    ({ d with
        authPermits := d.authPermits + 1
        jobs := d.jobs.set k { job with result := some (some result) } },
      some (.verified k job.connection job.username job.password database result))

end Program

/-- One step of the daemon. -/
def step (config : Config) (d : State) : Action → State × Option Event
  | .request connection version request =>
    ({ d with tasks := d.tasks ++ [⟨connection, version, request, .received⟩] }, none)
  | .poll t outside =>
    match d.tasks[t]? with
    | some task => pollTask config d t task outside
    | none => (d, none)
  | .expire t =>
    match d.tasks[t]? with
    | some task => (expireTask d t task, none)
    | none => (d, none)
  | .verify k database panics =>
    match d.jobs[k]? with
    | some job => if job.result.isSome then (d, none) else finishJob config d k job database panics
    | none => (d, none)
  | .createPairing record =>
    if record.id ∈ d.usedPairings then (d, none)
    else
      ({ d with
          pairings := fun id => if id = record.id then some record else d.pairings id
          usedPairings := record.id :: d.usedPairings }, some (.stored record))
  | .removePairing pairingId =>
    ({ d with pairings := fun id => if id = pairingId then none else d.pairings id }, none)

end QuickFS.Daemon
