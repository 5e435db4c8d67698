import QuickFS.Daemon.Auth
import QuickFS.Lib.Formats

/-!
# Installing an identity

`install_identity` of `crates/auth` gives the server a new certificate and a new key.  They go into
a directory of their own, a *generation*, and one small file says which generation is active; so
the old pair stays what it is, and the new one is selected by a single `rename`.

This module is about being interrupted.  Each change of the state directory is one step (writing a
file by way of a temporary one counts as one), and any set of steps may fail, those that clean up
included.  A crash is the set of all steps from some point on.

The pair that is resolved is always a whole one, the old or the new (`installation_interrupted`).
But the directory of the new generation is there before its files are, and `validate_server_state`
insists on the files of every generation.  A server that stops in between does not start again, and
no account can be administered (`crash_leaves_empty_generation`).  A step that merely fails does the
same harm where nothing takes away what was begun: `secure_directory` returns before the clean-up is
reached, and the removals of the clean-up may fail themselves.
-/

namespace QuickFS.Daemon.Identity

/-! ## The state directory -/

inductive FileType where
  | file
  | directory
  | other
deriving DecidableEq

structure FileNode where
  fileType : FileType
  uid : ℕ
  mode : ℕ
  bytes : Bytes
deriving DecidableEq

/-- A directory below `identities`. -/
structure Generation where
  node : FileNode
  certificate : Option FileNode
  privateKey : Option FileNode
deriving DecidableEq

/-- The directory `identities`, with its entries. -/
structure Identities where
  node : FileNode
  generations : Entries Name Generation
deriving DecidableEq

/-- What the crate looks at in the state directory of a server. -/
structure StateDirectory where
  root : Option FileNode
  pairings : Option FileNode
  users : Option FileNode
  certificate : Option FileNode
  privateKey : Option FileNode
  activeIdentity : Option FileNode
  identityLock : Option FileNode
  identities : Option Identities
deriving DecidableEq

/-- The user the server runs as, and what the `uuid` crate and `str` make of bytes. -/
structure Platform where
  euid : ℕ
  isUtf8 : Bytes → Bool
  trim : Bytes → Bytes
  parseUuid : Bytes → Option (BitVec 128)
  uuidText : BitVec 128 → Bytes
  isUtf8_text : ∀ uuid, isUtf8 (uuidText uuid) = true
  trim_text : ∀ uuid, trim (uuidText uuid) = uuidText uuid
  parse_text : ∀ uuid, parseUuid (uuidText uuid) = some uuid
  length_text : ∀ uuid, (uuidText uuid).length ≤ 64
  /-- The permissions of a new directory, which depend on the `umask`. -/
  createdMode : ℕ

/-- `MAX_IDENTITY_GENERATIONS`. -/
def maxIdentityGenerations : ℕ := 128

/-- `MAX_CERTIFICATE_PEM_SIZE`. -/
def maxCertificatePemSize : ℕ := 4 * 1024 * 1024

/-- `MAX_PRIVATE_KEY_PEM_SIZE`. -/
def maxPrivateKeyPemSize : ℕ := 64 * 1024

section Checks

variable (platform : Platform)

/-- The checks that `validate_private_directory` and `validate_private_file` have in common. -/
def validatePrivate (expected : FileType) (misplaced exposed : String) :
    Option FileNode → Except AuthError Unit
  | none => .error .io
  | some node =>
    if node.fileType ≠ expected then .error (.invalidData misplaced)
    else if node.uid ≠ platform.euid then
      .error (.invalidData "private state path must be owned by the effective server user")
    else if node.mode &&& 0o077 ≠ 0 then .error (.invalidData exposed)
    else .ok ()

def validatePrivateDirectory : Option FileNode → Except AuthError Unit :=
  validatePrivate platform .directory "private state directory is not a real directory"
    "private state directory must not be accessible by group or other users"

def validatePrivateFile : Option FileNode → Except AuthError Unit :=
  validatePrivate platform .file "private state file is not a regular file"
    "private state file must not be accessible by group or other users"

def validateIdentityPem (certificatePem privateKeyPem : Bytes) : Except AuthError Unit :=
  if certificatePem = [] ∨ certificatePem.length > maxCertificatePemSize then
    .error (.invalidData "certificate PEM is empty or exceeds the safety limit")
  else if privateKeyPem = [] ∨ privateKeyPem.length > maxPrivateKeyPemSize then
    .error (.invalidData "private-key PEM is empty or exceeds the safety limit")
  else .ok ()

/-- One round of the loop of `validate_identity_generations`, once the entry is counted. -/
def validateGeneration (name : Name) (generation : Generation) : Except AuthError Unit :=
  if platform.isUtf8 name = false then
    .error (.invalidData "identity generation name is not UTF-8")
  else if platform.parseUuid name = none then
    .error (.invalidData "identity generation name is invalid")
  else do
    validatePrivateDirectory platform (some generation.node)
    validatePrivateFile platform generation.certificate
    validatePrivateFile platform generation.privateKey

def validateGenerations (count : ℕ) : Entries Name Generation → Except AuthError Unit
  | [] => .ok ()
  | (name, generation) :: rest =>
    if count + 1 > maxIdentityGenerations then
      .error (.invalidData "identity generation limit of 128 exceeded")
    else do
      validateGeneration platform name generation
      validateGenerations (count + 1) rest

def validateIdentityGenerations : Option Identities → Except AuthError Unit
  | none => .ok ()
  | some identities => do
    validatePrivateDirectory platform (some identities.node)
    validateGenerations platform 0 identities.generations

namespace StateDirectory

variable (state : StateDirectory)

/-- The generation of this name, if there is one. -/
def generation (name : Name) : Option Generation :=
  state.identities.bind fun identities => identities.generations.find name

/-- `StatePaths::resolve`, with what is found at the two paths. -/
def resolve : Except AuthError (Option FileNode × Option FileNode) :=
  match state.activeIdentity with
  | none => .ok (state.certificate, state.privateKey)
  | some active => do
    validatePrivateFile platform (some active)
    if active.bytes.length > 64 then
      .error (.invalidData "active identity selector is too large")
    else if platform.isUtf8 active.bytes = false then
      .error (.invalidData "active identity selector is not UTF-8")
    else
      match platform.parseUuid (platform.trim active.bytes) with
      | none => .error (.invalidData "active identity selector is invalid")
      | some uuid =>
        .ok ((state.generation (platform.uuidText uuid)).bind Generation.certificate,
          (state.generation (platform.uuidText uuid)).bind Generation.privateKey)

def validateServerState : Except AuthError Unit := do
  validatePrivateDirectory platform state.root
  validatePrivateDirectory platform state.pairings
  validatePrivateFile platform state.certificate
  validatePrivateFile platform state.privateKey
  validatePrivateFile platform state.users
  validateIdentityGenerations platform state.identities
  let active ← state.resolve platform
  validatePrivateFile platform active.1
  validatePrivateFile platform active.2

/-- The certificate and the key that a server would use. -/
def identity : Except AuthError (Option Bytes × Option Bytes) := do
  let active ← state.resolve platform
  return (active.1.map FileNode.bytes, active.2.map FileNode.bytes)

end StateDirectory

end Checks

/-! ## The installation -/

/-- The state directory, and the number of changes that were tried. -/
structure Disk where
  state : StateDirectory
  tried : ℕ
deriving DecidableEq

/-- A change of the state directory, which may fail and then changes nothing. -/
abbrev Change := StateDirectory → Except AuthError StateDirectory

section Changes

variable (platform : Platform) (name : Name)

def privateFile (bytes : Bytes) : FileNode := ⟨.file, platform.euid, 0o600, bytes⟩

def privateDirectory : FileNode := ⟨.directory, platform.euid, 0o700, []⟩

/-- `lock_identity`. -/
def lockIdentity : Change := fun state =>
  if state.identityLock.isSome then
    .error (.invalidData "another identity installation is in progress")
  else .ok { state with identityLock := some (privateFile platform []) }

/-- The end of an `IdentityLock`. -/
def dropLock : Change := fun state => .ok { state with identityLock := none }

def createdDirectory : FileNode := ⟨.directory, platform.euid, platform.createdMode, []⟩

def secureDirectory (node : FileNode) : Except AuthError FileNode :=
  if node.fileType ≠ .directory then
    .error (.invalidData "private state directory is not a real directory")
  else if node.uid ≠ platform.euid then
    .error (.invalidData "private state path must be owned by the effective server user")
  else .ok { node with mode := 0o700 }

/-- `create_dir_all` of the directory of all generations. -/
def createIdentities : Change := fun state =>
  match state.identities with
  | none => .ok { state with identities := some ⟨createdDirectory platform, []⟩ }
  | some identities => if identities.node.fileType = .directory then .ok state else .error .io

def secureIdentities : Change := fun state =>
  match state.identities with
  | none => .error .io
  | some identities => do
    let node ← secureDirectory platform identities.node
    return { state with identities := some { identities with node := node } }

/-- A change of the entries of `identities`. -/
def changeGenerations
    (f : Entries Name Generation → Except AuthError (Entries Name Generation)) : Change :=
  fun state =>
    match state.identities with
    | none => .error .io
    | some identities => do
      let generations ← f identities.generations
      return { state with identities := some { identities with generations := generations } }

/-- `create_dir` of a generation. -/
def createGeneration : Change :=
  changeGenerations fun generations =>
    if (generations.find name).isSome then .error .io
    else .ok (generations.insert name ⟨createdDirectory platform, none, none⟩)

/-- A change of one generation. -/
def changeGeneration (f : Generation → Except AuthError Generation) : Change :=
  changeGenerations fun generations =>
    match generations.find name with
    | none => .error .io
    | some generation => do
      let changed ← f generation
      return generations.insert name changed

def secureGeneration : Change :=
  changeGeneration name fun g => do
    let node ← secureDirectory platform g.node
    return { g with node := node }

/-- `remove_dir`, of a generation that has no files. -/
def removeGeneration : Change :=
  changeGenerations fun generations =>
    match generations.find name with
    | none => .error .io
    | some generation =>
      if generation.certificate.isSome ∨ generation.privateKey.isSome then .error .io
      else .ok (generations.erase name)

end Changes

section Install

variable (platform : Platform) (fails : ℕ → Bool)

/-- A change is tried.  Those that fail are given by their numbers. -/
def attempt (change : Change) (disk : Disk) : Except AuthError Unit × Disk :=
  if fails disk.tried then (.error .io, { disk with tried := disk.tried + 1 })
  else
    match change disk.state with
    | .error error => (.error error, { disk with tried := disk.tried + 1 })
    | .ok state => (.ok (), ⟨state, disk.tried + 1⟩)

/-- Changes that are tried one after the other, up to one that fails. -/
def attemptAll : List Change → Disk → Except AuthError Unit × Disk
  | [], disk => (.ok (), disk)
  | change :: rest, disk =>
    match attempt fails change disk with
    | (.ok (), disk) => attemptAll rest disk
    | failed => failed

/-- Changes that are tried one after the other, whether or not they fail. -/
def attemptEach (changes : List Change) (disk : Disk) : Disk :=
  changes.foldl (fun disk change => (attempt fails change disk).2) disk

variable (certificatePem privateKeyPem : Bytes) (generation : BitVec 128)

/-- The changes that write the new pair and select it. -/
def writeIdentity : List Change :=
  let name := platform.uuidText generation
  [changeGeneration name fun g =>
      .ok { g with privateKey := some (privateFile platform privateKeyPem) },
    changeGeneration name fun g =>
      .ok { g with certificate := some (privateFile platform certificatePem) },
    fun state => .ok { state with activeIdentity := some (privateFile platform name) }]

/-- What is done about a pair that could not be written. -/
def discardIdentity : List Change :=
  let name := platform.uuidText generation
  [changeGeneration name fun g => .ok { g with certificate := none },
    changeGeneration name fun g => .ok { g with privateKey := none }, removeGeneration name]

/-- The body of `install_identity`, under the lock. -/
def installLocked (disk : Disk) : Except AuthError Unit × Disk :=
  let name := platform.uuidText generation
  match attemptAll fails [createIdentities platform, secureIdentities platform] disk with
  | (.error error, disk) => (.error error, disk)
  | (.ok (), disk) =>
    if (disk.state.identities.map fun identities => identities.generations.length).getD 0 ≥
        maxIdentityGenerations then
      (.error (.invalidData "identity generation limit of 128 reached"), disk)
    else
      match attemptAll fails [createGeneration platform name, secureGeneration platform name]
          disk with
      | (.error error, disk) => (.error error, disk)
      | (.ok (), disk) =>
        match attemptAll fails (writeIdentity platform certificatePem privateKeyPem generation)
            disk with
        | (.ok (), disk) => (.ok (), disk)
        | (.error error, disk) =>
          (.error error, attemptEach fails (discardIdentity platform generation) disk)

def installIdentity (disk : Disk) : Except AuthError Unit × Disk :=
  match validateIdentityPem certificatePem privateKeyPem,
      disk.state.validateServerState platform with
  | .error error, _ | .ok (), .error error => (.error error, disk)
  | .ok (), .ok () =>
    match attempt fails (lockIdentity platform) disk with
    | (.error error, disk) => (.error error, disk)
    | (.ok (), disk) =>
      let (result, disk) :=
        installLocked platform fails certificatePem privateKeyPem generation disk
      (result, (attempt fails dropLock disk).2)

/-- The state directory that an installation leaves behind. -/
def leftBehind (state : StateDirectory) : StateDirectory :=
  (installIdentity platform fails certificatePem privateKeyPem generation ⟨state, 0⟩).2.state

/-- Making `identities` and not its permissions leaves a directory that others can read. -/
def exposes (state : StateDirectory) : Bool :=
  state.identities.isNone && platform.createdMode &&& 0o077 != 0

end Install

/-- A clean-up whose first change has this number leaves an incomplete generation: one of the files
that were there, or the directory without them.  A directory is not removed while it holds a file,
and one that keeps both files is complete. -/
def litters (fails : ℕ → Bool) (change : ℕ) (certificate privateKey : Bool) : Bool :=
  let certificate := certificate && fails change
  let privateKey := privateKey && fails (change + 1)
  (certificate || privateKey || fails (change + 2)) && !(certificate && privateKey)

/-- The failures that leave an incomplete generation, or `identities` open to others.  The changes
are numbered as they are tried: 0 the lock, 1 and 2 `identities` and its permissions, 3 and 4 the
generation and its permissions, 5 the key, 6 the certificate, 7 the selector; after a failure of one
of the last three, the clean-up. -/
def tears (exposed : Bool) (fails : ℕ → Bool) : Bool :=
  if fails 0 || fails 1 then false
  else if fails 2 then exposed
  else if fails 3 then false
  else if fails 4 then true
  else if fails 5 then litters fails 6 false false
  else if fails 6 then litters fails 7 false true
  else if fails 7 then litters fails 8 true true
  else false

/-! ## What the checks say -/

section Valid

variable {platform : Platform} {state : StateDirectory} {name : Name}

theorem bind_eq_ok {α β : Type} {x : Except AuthError α} {f : α → Except AuthError β} {b : β} :
    (x >>= f) = .ok b ↔ ∃ a, x = .ok a ∧ f a = .ok b := by
  cases x with
  | error => exact ⟨nofun, nofun⟩
  | ok a => exact ⟨fun h => ⟨a, rfl, h⟩, fun ⟨_, ha, h⟩ => by cases ha; exact h⟩

theorem check_eq_ok {α : Type} {x : Except AuthError Unit} {f : Unit → Except AuthError α} {b : α} :
    (x >>= f) = .ok b ↔ x = .ok () ∧ f () = .ok b :=
  bind_eq_ok.trans ⟨fun ⟨_, h⟩ => h, fun h => ⟨(), h⟩⟩

@[simp]
theorem validatePrivateFile_privateFile {bytes : Bytes} :
    validatePrivateFile platform (some (privateFile platform bytes)) = .ok () := by
  simp [validatePrivateFile, validatePrivate, privateFile]

@[simp]
theorem validatePrivateDirectory_privateDirectory :
    validatePrivateDirectory platform (some (privateDirectory platform)) = .ok () := by
  simp [validatePrivateDirectory, validatePrivate, privateDirectory]

/-- All generations pass, and there are not too many. -/
theorem validateGenerations_eq_ok {count : ℕ} {generations : Entries Name Generation} :
    validateGenerations platform count generations = .ok () ↔
      (generations = [] ∨ count + generations.length ≤ maxIdentityGenerations) ∧
        ∀ entry ∈ generations, validateGeneration platform entry.1 entry.2 = .ok () := by
  induction generations generalizing count with
  | nil => simp [validateGenerations]
  | cons _ _ ih =>
    rw [validateGenerations]
    split
    · rename_i hlimit
      simp
      omega
    rename_i hlimit
    simp only [check_eq_ok, ih, List.forall_mem_cons, List.length_cons, reduceCtorEq, false_or]
    constructor
    · rintro ⟨hentry, hcount, hrest⟩
      refine ⟨?_, hentry, hrest⟩
      rcases hcount with rfl | hcount
      · simp; omega
      · omega
    · rintro ⟨hcount, hentry, hrest⟩
      exact ⟨hentry, .inr (by omega), hrest⟩

/-- A generation of this name passes if its directory and its files do. -/
theorem validateGeneration_text {uuid : BitVec 128} {generation : Generation} :
    validateGeneration platform (platform.uuidText uuid) generation = .ok () ↔
      validatePrivateDirectory platform (some generation.node) = .ok () ∧
        validatePrivateFile platform generation.certificate = .ok () ∧
          validatePrivateFile platform generation.privateKey = .ok () := by
  simp [validateGeneration, platform.isUtf8_text, platform.parse_text, check_eq_ok]

/-- The entries of `identities`, if there is such a directory. -/
def StateDirectory.generations (state : StateDirectory) : Entries Name Generation :=
  (state.identities.map Identities.generations).getD []

theorem generation_eq_find : state.generation name = state.generations.find name := by
  rw [StateDirectory.generation, StateDirectory.generations]
  cases state.identities <;> rfl

/-- What an installation changes: the lock, the selector, and the generations. -/
def staged (state : StateDirectory) (lock active : Option FileNode) (node : FileNode)
    (generations : Entries Name Generation) : StateDirectory :=
  { state with
    identityLock := lock
    activeIdentity := active
    identities := some ⟨node, generations⟩ }

/-- The checks of what an installation does not change. -/
def RootValid (platform : Platform) (state : StateDirectory) : Prop :=
  validatePrivateDirectory platform state.root = .ok () ∧
    validatePrivateDirectory platform state.pairings = .ok () ∧
    validatePrivateFile platform state.certificate = .ok () ∧
    validatePrivateFile platform state.privateKey = .ok () ∧
    validatePrivateFile platform state.users = .ok ()

theorem validateServerState_eq_ok :
    state.validateServerState platform = .ok () ↔
      RootValid platform state ∧ validateIdentityGenerations platform state.identities = .ok () ∧
        ∃ active, state.resolve platform = .ok active ∧
          validatePrivateFile platform active.1 = .ok () ∧
          validatePrivateFile platform active.2 = .ok () := by
  simp only [StateDirectory.validateServerState, check_eq_ok, RootValid, and_assoc,
    bind_eq_ok (α := Option FileNode × Option FileNode)]

variable {lock : Option FileNode} {node : FileNode} {added : Entries Name Generation}

/-- Names that are found are found where they were. -/
theorem find_append_of_new (hnew : ∀ entry ∈ added, state.generations.find entry.1 = none)
    (hfound : state.generations.find name ≠ none) :
    Entries.find (added ++ state.generations) name = state.generations.find name := by
  induction added with
  | nil => rfl
  | cons entry _ ih =>
    have hne : name ≠ entry.1 := fun h => hfound (h ▸ hnew entry List.mem_cons_self)
    rw [List.cons_append, Entries.find_cons, if_neg hne]
    exact ih fun other hother => hnew other (List.mem_cons_of_mem _ hother)

/-- As long as the selector is the same, so is what it selects. -/
theorem resolve_staged (hvalid : state.validateServerState platform = .ok ())
    (hnew : ∀ entry ∈ added, state.generations.find entry.1 = none) :
    (staged state lock state.activeIdentity node (added ++ state.generations)).resolve platform =
      state.resolve platform := by
  obtain ⟨-, -, active, hresolve, hcertificate, -⟩ := validateServerState_eq_ok.1 hvalid
  rw [hresolve]
  rw [StateDirectory.resolve] at hresolve ⊢
  cases hactive : state.activeIdentity with
  | none =>
    rw [hactive] at hresolve
    exact hresolve
  | some =>
    rw [hactive] at hresolve
    simp only [staged, check_eq_ok] at hresolve ⊢
    refine ⟨hresolve.1, ?_⟩
    have hrest := hresolve.2
    split at hrest
    · cases hrest
    split at hrest
    · cases hrest
    split at hrest
    · cases hrest
    rename_i hlength hutf8 _ uuid huuid
    cases hrest
    have hfound : state.generations.find (platform.uuidText uuid) ≠ none := by
      intro hnone
      rw [generation_eq_find, hnone] at hcertificate
      cases hcertificate
    have hsame : Entries.find (added ++ state.generations) (platform.uuidText uuid) =
        state.generation (platform.uuidText uuid) :=
      (find_append_of_new hnew hfound).trans generation_eq_find.symm
    rw [if_neg hlength, if_neg hutf8]
    simp only [StateDirectory.generation, Option.bind_some] at hsame ⊢
    rw [hsame]

theorem generations_valid (hvalid : state.validateServerState platform = .ok ()) :
    ∀ entry ∈ state.generations, validateGeneration platform entry.1 entry.2 = .ok () := by
  obtain ⟨-, hgenerations, -⟩ := validateServerState_eq_ok.1 hvalid
  rw [StateDirectory.generations]
  cases hidentities : state.identities with
  | none => simp
  | some =>
    rw [hidentities, validateIdentityGenerations, check_eq_ok] at hgenerations
    exact (validateGenerations_eq_ok.1 hgenerations.2).2

/-- **The state directory with more generations** passes if they do, and are not too many. -/
theorem validate_staged (added : Entries Name Generation)
    (hvalid : state.validateServerState platform = .ok ())
    (hnode : validatePrivateDirectory platform (some node) = .ok ())
    (hnew : ∀ entry ∈ added, state.generations.find entry.1 = none)
    (hroom : (added ++ state.generations).length ≤ maxIdentityGenerations) :
    (staged state lock state.activeIdentity node
        (added ++ state.generations)).validateServerState platform = .ok () ↔
      ∀ entry ∈ added, validateGeneration platform entry.1 entry.2 = .ok () := by
  have hold := generations_valid hvalid
  obtain ⟨hroot, -, hactive⟩ := validateServerState_eq_ok.1 hvalid
  rw [validateServerState_eq_ok, resolve_staged hvalid hnew]
  simp only [staged, validateIdentityGenerations, check_eq_ok, validateGenerations_eq_ok, hnode,
    true_and, Nat.zero_add, hroom, or_true, List.forall_mem_append]
  exact ⟨fun h => h.2.1.1, fun h => ⟨hroot, ⟨h, hold⟩, hactive⟩⟩

/-- The new pair, once it is selected. -/
theorem staged_selected (lock : Option FileNode)
    (hvalid : state.validateServerState platform = .ok ())
    (hnode : validatePrivateDirectory platform (some node) = .ok ())
    (hroom : state.generations.length < maxIdentityGenerations) (uuid : BitVec 128)
    (certificatePem privateKeyPem : Bytes) :
    let selected := staged state lock (some (privateFile platform (platform.uuidText uuid))) node
      ((platform.uuidText uuid, ⟨privateDirectory platform,
        some (privateFile platform certificatePem), some (privateFile platform privateKeyPem)⟩) ::
        state.generations)
    selected.validateServerState platform = .ok () ∧
      selected.identity platform = .ok (some certificatePem, some privateKeyPem) := by
  have hold := generations_valid hvalid
  obtain ⟨hroot, -, -⟩ := validateServerState_eq_ok.1 hvalid
  have hresolve : (staged state lock (some (privateFile platform (platform.uuidText uuid))) node
      ((platform.uuidText uuid, ⟨privateDirectory platform,
        some (privateFile platform certificatePem), some (privateFile platform privateKeyPem)⟩) ::
        state.generations)).resolve platform =
      .ok (some (privateFile platform certificatePem),
        some (privateFile platform privateKeyPem)) := by
    simp only [StateDirectory.resolve, staged, check_eq_ok, validatePrivateFile_privateFile,
      true_and]
    simp [privateFile, platform.isUtf8_text, platform.trim_text, platform.parse_text,
      Nat.not_lt.2 (platform.length_text uuid), StateDirectory.generation, Entries.find_cons]
  refine ⟨validateServerState_eq_ok.2 ⟨hroot, ?_, _, hresolve, by simp, by simp⟩, ?_⟩
  · simp only [staged, validateIdentityGenerations, check_eq_ok, validateGenerations_eq_ok, hnode,
      true_and, List.forall_mem_cons, validateGeneration_text]
    exact ⟨.inr (by rw [List.length_cons]; omega), by simp, hold⟩
  · rw [StateDirectory.identity, hresolve]
    rfl

end Valid

/-! ## Stages of an installation -/

section Stages

variable {platform : Platform} {state : StateDirectory} {lock active : Option FileNode}
  {node : FileNode} {generations : Entries Name Generation} {name : Name}

/-- `identities` is there, and can be made private. -/
theorem createIdentities_valid (lock : Option FileNode)
    (hvalid : state.validateServerState platform = .ok ()) :
    ∃ node, createIdentities platform { state with identityLock := lock } =
        .ok (staged state lock state.activeIdentity node state.generations) ∧
      secureDirectory platform node = .ok { node with mode := 0o700 } ∧
      (validatePrivateDirectory platform (some node) = .ok () ↔ exposes platform state = false) ∧
      validatePrivateDirectory platform (some { node with mode := 0o700 }) = .ok () := by
  obtain ⟨-, hgenerations, -⟩ := validateServerState_eq_ok.1 hvalid
  rw [createIdentities]
  cases hidentities : state.identities with
  | none =>
    refine ⟨createdDirectory platform, ?_⟩
    by_cases hmode : platform.createdMode &&& 63 = 0 <;>
      simp [staged, StateDirectory.generations, hidentities, createdDirectory, secureDirectory,
        validatePrivateDirectory, validatePrivate, exposes, hmode]
  | some identities =>
    rw [hidentities, validateIdentityGenerations, check_eq_ok] at hgenerations
    obtain ⟨htype, huid⟩ :
        identities.node.fileType = .directory ∧ identities.node.uid = platform.euid := by
      have h := hgenerations.1
      rw [validatePrivateDirectory, validatePrivate] at h
      split at h
      · cases h
      split at h
      · cases h
      · simp_all
    refine ⟨identities.node, ?_, ?_, ?_, ?_⟩
    · simp [staged, StateDirectory.generations, hidentities, htype]
    · simp [secureDirectory, htype, huid]
    · simp [hgenerations.1, exposes, hidentities]
    · simp [validatePrivateDirectory, validatePrivate, htype, huid]

theorem secureIdentities_staged
    (hnode : secureDirectory platform node = .ok { node with mode := 0o700 }) :
    secureIdentities platform (staged state lock active node generations) =
      .ok (staged state lock active { node with mode := 0o700 } generations) := by
  simp [secureIdentities, staged, hnode, bind, Except.bind, pure, Except.pure]

section

variable (hname : generations.find name = none)

include hname

theorem createGeneration_staged :
    createGeneration platform name (staged state lock active node generations) =
      .ok (staged state lock active node
        ((name, ⟨createdDirectory platform, none, none⟩) :: generations)) := by
  simp [createGeneration, changeGenerations, staged, hname, Entries.insert,
    Entries.erase_of_find_eq_none hname]

theorem erase_begun (g : Generation) :
    Entries.erase ((name, g) :: generations) name = generations := by
  rw [Entries.erase, List.filter_cons_of_neg (by simp)]
  exact Entries.erase_of_find_eq_none hname

theorem changeGeneration_staged (g : Generation) (f : Generation → Except AuthError Generation) :
    changeGeneration name f (staged state lock active node ((name, g) :: generations)) =
      (f g).map fun g => staged state lock active node ((name, g) :: generations) := by
  cases hf : f g <;>
    simp [changeGeneration, changeGenerations, staged, Entries.find_cons, Entries.insert,
      erase_begun hname, hf, Except.map, bind, Except.bind, pure, Except.pure]

theorem secureGeneration_staged :
    secureGeneration platform name (staged state lock active node
        ((name, ⟨createdDirectory platform, none, none⟩) :: generations)) =
      .ok (staged state lock active node
        ((name, ⟨privateDirectory platform, none, none⟩) :: generations)) := by
  rw [secureGeneration, changeGeneration_staged hname]
  simp [secureDirectory, createdDirectory, privateDirectory, bind, Except.bind, pure, Except.pure,
    Except.map]

theorem removeGeneration_staged (g : Generation) :
    removeGeneration name (staged state lock active node ((name, g) :: generations)) =
      if g.certificate.isSome ∨ g.privateKey.isSome then .error .io
      else .ok (staged state lock active node generations) := by
  by_cases hfiles : g.certificate.isSome ∨ g.privateKey.isSome <;>
    simp [removeGeneration, changeGenerations, staged, Entries.find_cons, erase_begun hname, hfiles,
      bind, Except.bind, pure, Except.pure]

end

end Stages

/-! ## Interrupted installations -/

section Interrupted

variable {platform : Platform} {state : StateDirectory} {certificatePem privateKeyPem : Bytes}
  {generation : BitVec 128}

/-- Nothing is in the way of an installation: it is given a pair of reasonable size, nobody else is
installing one, and there is room for a generation of this name. -/
structure Unhindered (platform : Platform) (state : StateDirectory)
    (certificatePem privateKeyPem : Bytes) (generation : BitVec 128) : Prop where
  pem : validateIdentityPem certificatePem privateKeyPem = .ok ()
  lock : state.identityLock = none
  room : state.generations.length < maxIdentityGenerations
  name : state.generations.find (platform.uuidText generation) = none

/-- The state directory is as good as before. -/
def Intact (platform : Platform) (state state' : StateDirectory) : Prop :=
  state'.validateServerState platform = .ok () ∧ state'.identity platform = state.identity platform

theorem Intact.withLock {state' : StateDirectory} (h : Intact platform state state')
    (lock : Option FileNode) : Intact platform state { state' with identityLock := lock } :=
  h

theorem length_generations_le (hvalid : state.validateServerState platform = .ok ()) :
    state.generations.length ≤ maxIdentityGenerations := by
  obtain ⟨-, hgenerations, -⟩ := validateServerState_eq_ok.1 hvalid
  rw [StateDirectory.generations]
  cases hidentities : state.identities with
  | none => simp
  | some =>
    rw [hidentities, validateIdentityGenerations, check_eq_ok, validateGenerations_eq_ok]
      at hgenerations
    rcases hgenerations.2.1 with hnil | hle
    · simp [hnil]
    · simpa using hle

variable {lock : Option FileNode} {fails : ℕ → Bool} {change : Change} {disk : Disk}

theorem identity_staged {node : FileNode} (added : Entries Name Generation)
    (hvalid : state.validateServerState platform = .ok ())
    (hnew : ∀ entry ∈ added, state.generations.find entry.1 = none) :
    (staged state lock state.activeIdentity node (added ++ state.generations)).identity platform =
      state.identity platform := by
  rw [StateDirectory.identity, resolve_staged hvalid hnew, StateDirectory.identity]

theorem intact_staged {node : FileNode} (lock : Option FileNode)
    (hvalid : state.validateServerState platform = .ok ())
    (hnode : validatePrivateDirectory platform (some node) = .ok ()) :
    Intact platform state (staged state lock state.activeIdentity node state.generations) :=
  ⟨(validate_staged [] hvalid hnode (by simp) (length_generations_le hvalid)).2 (by simp),
    identity_staged [] hvalid (by simp)⟩

section Attempts

variable {rest : List Change} {state' : StateDirectory} {k : ℕ}

/-- A change is made, and then the others are tried. -/
theorem attemptAll_passes (hpass : fails k = false) (hchange : change state = .ok state') :
    attemptAll fails (change :: rest) ⟨state, k⟩ = attemptAll fails rest ⟨state', k + 1⟩ := by
  simp [attemptAll, attempt, hpass, hchange]

/-- A change fails, and nothing else is tried. -/
theorem attemptAll_fails (hfail : fails k = true) :
    attemptAll fails (change :: rest) ⟨state, k⟩ = (.error .io, ⟨state, k + 1⟩) := by
  simp [attemptAll, attempt, hfail]

/-- A change that cannot be made fails one way or the other. -/
theorem attemptAll_refused (fails : ℕ → Bool) (rest : List Change) (k : ℕ) {error : AuthError}
    (hchange : change state = .error error) : ∃ error,
      attemptAll fails (change :: rest) ⟨state, k⟩ = (.error error, ⟨state, k + 1⟩) := by
  cases hfails : fails k with
  | true => exact ⟨_, attemptAll_fails hfails⟩
  | false => exact ⟨error, by simp [attemptAll, attempt, hfails, hchange]⟩

end Attempts

theorem attempt_lockIdentity (hpass : fails 0 = false) (hlock : state.identityLock = none) :
    attempt fails (lockIdentity platform) ⟨state, 0⟩ =
      (.ok (), ⟨{ state with identityLock := some (privateFile platform []) }, 1⟩) := by
  simp [attempt, hpass, lockIdentity, hlock]

theorem intact_dropLock (h : Intact platform state disk.state) :
    Intact platform state (attempt fails dropLock disk).2.state := by
  rw [attempt]
  split
  · exact h
  · exact h.withLock none

/-- The two changes that make `identities` private. -/
theorem attemptAll_identities (fails : ℕ → Bool) (lock : Option FileNode) (k : ℕ)
    (hvalid : state.validateServerState platform = .ok ())
    (hclosed : exposes platform state = false) :
    ∃ disk : Disk, Intact platform state disk.state ∧
      (attemptAll fails [createIdentities platform, secureIdentities platform]
          ⟨{ state with identityLock := lock }, k⟩ = (.error .io, disk) ∨
        ∃ node, validatePrivateDirectory platform (some node) = .ok () ∧
          disk.state = staged state lock state.activeIdentity node state.generations ∧
          attemptAll fails [createIdentities platform, secureIdentities platform]
            ⟨{ state with identityLock := lock }, k⟩ = (.ok (), disk)) := by
  obtain ⟨node, hcreate, hsecure, hexposes, hprivate⟩ := createIdentities_valid lock hvalid
  cases hcreated : fails k with
  | true => exact ⟨_, ⟨hvalid, rfl⟩, .inl (attemptAll_fails hcreated)⟩
  | false =>
  rw [attemptAll_passes hcreated hcreate]
  cases hsecured : fails (k + 1) with
  | true =>
    exact ⟨_, intact_staged lock hvalid (hexposes.2 hclosed), .inl (attemptAll_fails hsecured)⟩
  | false =>
    rw [attemptAll_passes hsecured (secureIdentities_staged hsecure)]
    exact ⟨_, intact_staged lock hvalid hprivate, .inr ⟨_, hprivate, rfl, rfl⟩⟩

/-- Where there is no room for the generation, nothing comes of it. -/
theorem intact_installLocked (fails : ℕ → Bool) (k : ℕ)
    (hvalid : state.validateServerState platform = .ok ())
    (h : state.generations.length < maxIdentityGenerations →
      state.generations.find (platform.uuidText generation) ≠ none) :
    Intact platform state (installLocked platform fails certificatePem privateKeyPem generation
      ⟨{ state with identityLock := lock }, k⟩).2.state := by
  have hclosed : exposes platform state = false := by
    cases hidentities : state.identities with
    | none =>
      rw [StateDirectory.generations, hidentities] at h
      exact absurd rfl (h (by decide))
    | some => simp [exposes, hidentities]
  rw [installLocked]
  obtain ⟨⟨state', k'⟩, hintact, hfailed | ⟨node, -, rfl, hmade⟩⟩ :=
    attemptAll_identities fails lock k hvalid hclosed
  · rw [hfailed]
    exact hintact
  rw [hmade]
  dsimp only
  split
  · exact hintact
  rename_i hcount
  have hfound := h (by simpa [staged] using hcount)
  have hrefused : createGeneration platform (platform.uuidText generation)
      (staged state lock state.activeIdentity node state.generations) = .error .io := by
    simp [createGeneration, changeGenerations, staged, Option.isSome_iff_ne_none, hfound, bind,
      Except.bind]
  obtain ⟨error, hfailed⟩ := attemptAll_refused fails
    [secureGeneration platform (platform.uuidText generation)] k' hrefused
  rw [hfailed]
  exact hintact

/-- An installation that is hindered leaves the state directory as good as it was. -/
theorem intact_of_hindered (hvalid : state.validateServerState platform = .ok ())
    (fails : ℕ → Bool) (h : ¬ Unhindered platform state certificatePem privateKeyPem generation) :
    Intact platform state
      (leftBehind platform fails certificatePem privateKeyPem generation state) := by
  have hrefl : Intact platform state state := ⟨hvalid, rfl⟩
  rw [leftBehind, installIdentity, hvalid]
  cases hpem : validateIdentityPem certificatePem privateKeyPem with
  | error => exact hrefl
  | ok =>
    cases hfails : fails 0 with
    | true => simpa [attempt, hfails] using hrefl
    | false =>
    cases hlock : state.identityLock with
    | some => simpa [attempt, hfails, lockIdentity, hlock] using hrefl
    | none =>
      simp only [attempt_lockIdentity hfails hlock]
      exact intact_dropLock
        (intact_installLocked fails _ hvalid fun hroom hname => h ⟨hpem, hlock, hroom, hname⟩)

/-- What an installation that nothing is in the way of may leave behind, torn or not. -/
inductive Outcome (platform : Platform) (state : StateDirectory)
    (certificatePem privateKeyPem : Bytes) : Bool → StateDirectory → Prop
  | intact {state' : StateDirectory} (h : Intact platform state state') :
      Outcome platform state certificatePem privateKeyPem false state'
  | replaced {state' : StateDirectory} (hvalid : state'.validateServerState platform = .ok ())
      (h : state'.identity platform = .ok (some certificatePem, some privateKeyPem)) :
      Outcome platform state certificatePem privateKeyPem false state'
  | torn {state' : StateDirectory} (hinvalid : state'.validateServerState platform ≠ .ok ())
      (h : state'.identity platform = state.identity platform) :
      Outcome platform state certificatePem privateKeyPem true state'

theorem Outcome.summary {torn : Bool} {state' : StateDirectory}
    (h : Outcome platform state certificatePem privateKeyPem torn state') :
    (state'.validateServerState platform = .ok () ↔ torn = false) ∧
      (state'.identity platform = state.identity platform ∨
        state'.identity platform = .ok (some certificatePem, some privateKeyPem)) := by
  cases h with
  | intact h => exact ⟨⟨fun _ => rfl, fun _ => h.1⟩, .inl h.2⟩
  | replaced hvalid h => exact ⟨⟨fun _ => rfl, fun _ => hvalid⟩, .inr h⟩
  | torn hinvalid h => exact ⟨⟨fun hvalid => absurd hvalid hinvalid, nofun⟩, .inl h⟩

theorem Outcome.dropLock {torn : Bool}
    (h : Outcome platform state certificatePem privateKeyPem torn disk.state) :
    Outcome platform state certificatePem privateKeyPem torn
      (attempt fails dropLock disk).2.state := by
  rw [attempt]
  split
  · exact h
  cases h with
  | intact h => exact .intact h
  | replaced hvalid h => exact .replaced hvalid h
  | torn hinvalid h => exact .torn hinvalid h

section

variable (hvalid : state.validateServerState platform = .ok ())
  (h : Unhindered platform state certificatePem privateKeyPem generation)

include hvalid h

/-- A generation beside those that were there, not selected: it has to be complete. -/
theorem outcome_begun (lock : Option FileNode) {node : FileNode} (g : Generation) {torn : Bool}
    (hnode : validatePrivateDirectory platform (some node) = .ok ())
    (hg : (validatePrivateDirectory platform (some g.node) = .ok () ∧
      validatePrivateFile platform g.certificate = .ok () ∧
        validatePrivateFile platform g.privateKey = .ok ()) ↔ torn = false) :
    Outcome platform state certificatePem privateKeyPem torn
      (staged state lock state.activeIdentity node
        ((platform.uuidText generation, g) :: state.generations)) := by
  have hnew : ∀ entry ∈ [(platform.uuidText generation, g)],
      state.generations.find entry.1 = none := by simpa using h.name
  have hiff : (staged state lock state.activeIdentity node
      ([(platform.uuidText generation, g)] ++ state.generations)).validateServerState platform =
      .ok () ↔ torn = false := by
    rw [validate_staged _ hvalid hnode hnew (by simpa [Nat.succ_le_iff] using h.room),
      List.forall_mem_singleton, validateGeneration_text, hg]
  cases torn with
  | false => exact .intact ⟨hiff.2 rfl, identity_staged [(_, g)] hvalid hnew⟩
  | true =>
    exact .torn (fun hok => Bool.noConfusion (hiff.1 hok)) (identity_staged [(_, g)] hvalid hnew)

/-- What is left of a generation with these files. -/
theorem outcome_discarded (fails : ℕ → Bool) (lock : Option FileNode) {node : FileNode} (k : ℕ)
    (certificate key : Option Bytes)
    (hnode : validatePrivateDirectory platform (some node) = .ok ()) :
    Outcome platform state certificatePem privateKeyPem
      (litters fails k certificate.isSome key.isSome)
      (attemptEach fails (discardIdentity platform generation) ⟨staged state lock
        state.activeIdentity node ((platform.uuidText generation, ⟨privateDirectory platform,
          certificate.map (privateFile platform), key.map (privateFile platform)⟩) ::
            state.generations), k⟩).state := by
  have hmissing : validatePrivateFile platform none ≠ .ok () := nofun
  have hremovals : attemptEach fails (discardIdentity platform generation) ⟨staged state lock
      state.activeIdentity node ((platform.uuidText generation, ⟨privateDirectory platform,
        certificate.map (privateFile platform), key.map (privateFile platform)⟩) ::
          state.generations), k⟩ =
      (attempt fails (removeGeneration (platform.uuidText generation)) ⟨staged state lock
        state.activeIdentity node ((platform.uuidText generation, ⟨privateDirectory platform,
          (if fails k then certificate else none).map (privateFile platform),
          (if fails (k + 1) then key else none).map (privateFile platform)⟩) ::
            state.generations), k + 2⟩).2 := by
    cases h0 : fails k <;> cases h1 : fails (k + 1) <;>
      simp [attemptEach, discardIdentity, attempt, changeGeneration_staged h.name, h0, h1,
        Except.map]
  have hlitters : litters fails k certificate.isSome key.isSome =
      (((if fails k then certificate else none).isSome ||
          (if fails (k + 1) then key else none).isSome || fails (k + 2)) &&
        !((if fails k then certificate else none).isSome &&
          (if fails (k + 1) then key else none).isSome)) := by
    cases h0 : fails k <;> cases h1 : fails (k + 1) <;> simp [litters, h0, h1]
  rw [hremovals, hlitters, attempt, removeGeneration_staged h.name]
  generalize (if fails k then certificate else none) = certificate
  generalize (if fails (k + 1) then key else none) = key
  cases certificate <;> cases key <;> cases fails (k + 2) <;> simp
  case none.none.false => exact .intact (intact_staged lock hvalid hnode)
  all_goals exact outcome_begun hvalid h lock _ hnode (by simp [hmissing])

/-- The pair is written and selected, or discarded. -/
theorem outcome_installLocked {node : FileNode} {lock : Option FileNode}
    (hcreate : createIdentities platform { state with identityLock := lock } =
      .ok (staged state lock state.activeIdentity node state.generations))
    (hsecure : secureDirectory platform node = .ok { node with mode := 0o700 })
    (hexposes : validatePrivateDirectory platform (some node) = .ok () ↔
      exposes platform state = false)
    (hprivate : validatePrivateDirectory platform (some { node with mode := 0o700 }) = .ok ())
    (h0 : fails 0 = false) :
    Outcome platform state certificatePem privateKeyPem (tears (exposes platform state) fails)
      (installLocked platform fails certificatePem privateKeyPem generation
        ⟨{ state with identityLock := lock }, 1⟩).2.state := by
  have hdiscarded := fun k certificate key =>
    outcome_discarded hvalid h fails lock k certificate key hprivate
  have hroom : ¬ ((staged state lock state.activeIdentity { node with mode := 0o700 }
      state.generations).identities.map fun identities => identities.generations.length).getD 0 ≥
      maxIdentityGenerations := Nat.not_le.2 h.room
  -- The steps in order: each of them fails, or leads to the next.
  simp only [installLocked, tears, h0, Bool.false_or]
  cases h1 : fails 1 with
  | true =>
    rw [attemptAll_fails h1, if_pos rfl]
    exact .intact ⟨hvalid, rfl⟩
  | false =>
  rw [if_neg Bool.false_ne_true, attemptAll_passes h1 hcreate]
  cases h2 : fails 2 with
  | true =>
    rw [attemptAll_fails h2, if_pos rfl]
    cases hexposed : exposes platform state with
    | false => exact .intact (intact_staged lock hvalid (hexposes.2 hexposed))
    | true =>
      refine .torn (fun hok => ?_) (identity_staged [] hvalid (by simp))
      obtain ⟨-, hgenerations, -⟩ := validateServerState_eq_ok.1 hok
      simp only [staged, validateIdentityGenerations, check_eq_ok, hexposes, hexposed]
        at hgenerations
      exact Bool.noConfusion hgenerations.1
  | false =>
  rw [if_neg Bool.false_ne_true, attemptAll_passes h2 (secureIdentities_staged hsecure), attemptAll]
  dsimp only
  rw [if_neg hroom]
  cases h3 : fails 3 with
  | true =>
    rw [attemptAll_fails h3, if_pos rfl]
    exact .intact (intact_staged lock hvalid hprivate)
  | false =>
  rw [if_neg Bool.false_ne_true, attemptAll_passes h3 (createGeneration_staged h.name)]
  cases h4 : fails 4 with
  | true =>
    rw [attemptAll_fails h4, if_pos rfl]
    exact outcome_begun hvalid h lock _ hprivate (by simp [validatePrivateFile, validatePrivate])
  | false =>
  rw [if_neg Bool.false_ne_true, attemptAll_passes h4 (secureGeneration_staged h.name), attemptAll,
    writeIdentity]
  dsimp only
  cases h5 : fails 5 with
  | true =>
    rw [attemptAll_fails h5, if_pos rfl]
    exact hdiscarded 6 none none
  | false =>
  rw [if_neg Bool.false_ne_true, attemptAll_passes h5 (changeGeneration_staged h.name _ _)]
  cases h6 : fails 6 with
  | true =>
    rw [attemptAll_fails h6, if_pos rfl]
    exact hdiscarded 7 none (some privateKeyPem)
  | false =>
  rw [if_neg Bool.false_ne_true, attemptAll_passes h6 (changeGeneration_staged h.name _ _)]
  cases h7 : fails 7 with
  | true =>
    rw [attemptAll_fails h7, if_pos rfl]
    exact hdiscarded 8 (some certificatePem) (some privateKeyPem)
  | false =>
    obtain ⟨hvalid', hidentity⟩ := staged_selected lock hvalid hprivate h.room generation
      certificatePem privateKeyPem
    simp only [attemptAll, attempt, h7, Bool.false_eq_true, if_false]
    exact .replaced hvalid' hidentity

theorem outcome_unhindered (fails : ℕ → Bool) :
    Outcome platform state certificatePem privateKeyPem (tears (exposes platform state) fails)
      (leftBehind platform fails certificatePem privateKeyPem generation state) := by
  obtain ⟨node, hcreate, hsecure, hexposes, hprivate⟩ :=
    createIdentities_valid (some (privateFile platform [])) hvalid
  cases h0 : fails 0 with
  | true =>
    simpa [leftBehind, installIdentity, h.pem, hvalid, attempt, h0, tears] using
      .intact ⟨hvalid, rfl⟩
  | false =>
    have hlocked := outcome_installLocked hvalid h hcreate hsecure hexposes hprivate h0
    simpa only [leftBehind, installIdentity, h.pem, hvalid, attempt_lockIdentity h0 h.lock] using
      hlocked.dropLock

end

end Interrupted

/-- **An interrupted installation.**  Whichever changes of an installation in a valid state
directory fail, the pair that is resolved afterwards is the old one or the new one; and the state
directory is valid afterwards unless nothing is in the way of the installation and the failures
tear it. -/
theorem installation_interrupted (platform : Platform) (state : StateDirectory)
    (hvalid : state.validateServerState platform = .ok ()) (fails : ℕ → Bool)
    (certificatePem privateKeyPem : Bytes) (generation : BitVec 128) :
    let left := leftBehind platform fails certificatePem privateKeyPem generation state
    (left.validateServerState platform = .ok () ↔
      ¬ (Unhindered platform state certificatePem privateKeyPem generation ∧
        tears (exposes platform state) fails = true)) ∧
    (left.identity platform = state.identity platform ∨
      left.identity platform = .ok (some certificatePem, some privateKeyPem)) := by
  by_cases h : Unhindered platform state certificatePem privateKeyPem generation
  · have hsummary := (outcome_unhindered hvalid h fails).summary
    simpa [h] using hsummary
  · have hintact := intact_of_hindered hvalid fails h
    exact ⟨⟨fun _ hno => h hno.1, fun _ => hintact.1⟩, .inl hintact.2⟩

/-! ### A new server -/

/-- Identifiers are written as their sixteen bytes. -/
def plainPlatform : Platform where
  euid := 0
  isUtf8 _ := true
  trim := id
  parseUuid := (Format.fixed 16).parse
  uuidText := (Format.fixed 16).encode
  isUtf8_text _ := rfl
  trim_text _ := rfl
  parse_text := (Format.fixed 16).parse_encode
  length_text uuid := by rw [Format.fixed_length]; decide
  createdMode := 0o755

/-- The state directory as `initialize` leaves it. -/
def initialized : StateDirectory where
  root := some (privateDirectory plainPlatform)
  pairings := some (privateDirectory plainPlatform)
  users := some (privateFile plainPlatform [])
  certificate := some (privateFile plainPlatform [1])
  privateKey := some (privateFile plainPlatform [2])
  activeIdentity := none
  identityLock := none
  identities := none

/-- A selector that cannot be written does no harm if the clean-up can be done. -/
theorem installation_interrupted_by_write_error :
    initialized.validateServerState plainPlatform = .ok () ∧
      (leftBehind plainPlatform (fun k => k == 7) [3] [4] 7 initialized).validateServerState
        plainPlatform = .ok () :=
  ⟨by decide +kernel, ((installation_interrupted plainPlatform initialized (by decide +kernel)
    (fun k => k == 7) [3] [4] 7).1).2 fun h => absurd h.2 (by decide)⟩

/-- A crash before the first file of the generation is written leaves a state directory that is no
longer accepted. -/
theorem crash_leaves_empty_generation :
    initialized.validateServerState plainPlatform = .ok () ∧
      (leftBehind plainPlatform (fun k => 5 ≤ k) [3] [4] 7 initialized).validateServerState
        plainPlatform = .error .io := by
  decide +kernel

end QuickFS.Daemon.Identity
