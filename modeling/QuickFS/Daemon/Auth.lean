import QuickFS.Protocol
import QuickFS.Lib.Entries

/-!
# Accounts, pairings and the rate limiter

What the daemon uses of `crates/auth` when it handles a request — the verification of a password and
the checks of a pairing record — and its own `AuthRateLimiter`.  Argon2, HMAC and base64 come from
elsewhere and are parameters (`Crypto`).
-/

namespace QuickFS.Daemon

abbrev Bytes := List UInt8

/-- The cryptography the crate is built on. -/
structure Crypto where
  parsesHash : Bytes → Bool
  verifyPassword : Bytes → Bytes → Bool
  decodeSecret : Bytes → Option Bytes
  hmac : Bytes → Bytes → Option Bytes
  uuidBytes : Uuid → Bytes

inductive AuthError where
  | io
  | invalidData (reason : String)
  | pairingNotFound
  | pairingExpired
  | crypto
deriving DecidableEq

/-! ## Accounts -/

/-- `MAX_PASSWORD_LENGTH`. -/
def maxPasswordLength : ℕ := 1024

structure UserRecord where
  username : Bytes
  passwordHash : Bytes
  enabled : Bool
  writable : Bool
deriving DecidableEq

structure UserAuthorization where
  writable : Bool
deriving DecidableEq

/-- An ASCII letter, a digit, `_`, `-` or `.`. -/
def isUsernameByte (byte : UInt8) : Bool :=
  (48 ≤ byte && byte ≤ 57) || (65 ≤ byte && byte ≤ 90) || (97 ≤ byte && byte ≤ 122) ||
    byte == 95 || byte == 45 || byte == 46

/-- `validate_username`. -/
def validateUsername (username : Bytes) : Except AuthError Unit :=
  if 1 ≤ username.length ∧ username.length ≤ 64 ∧ username.all isUsernameByte = true then .ok ()
  else .error (.invalidData "username must be 1-64 ASCII letters, digits, '.', '_' or '-'")

/-- `verify_user_authorization`, given what reading the database results in. -/
def verifyUserAuthorization (crypto : Crypto) (database : Except AuthError (List UserRecord))
    (username password : Bytes) : Except AuthError (Option UserAuthorization) :=
  if (validateUsername username).isOk = false ∨ password.length > maxPasswordLength then .ok none
  else
    match database with
    | .error error => .error error
    | .ok users =>
      match users.find? fun user => decide (user.username = username) && user.enabled with
      | none => .ok none
      | some user =>
        if crypto.parsesHash user.passwordHash = false then
          .error (.invalidData "invalid password hash")
        else if crypto.verifyPassword user.passwordHash password then
          .ok (some ⟨user.writable⟩)
        else .ok none

/-! ## Pairings -/

/-- `PAIRING_SECRET_LENGTH`. -/
def pairingSecretLength : ℕ := 20

structure PairingRecord where
  id : Uuid
  secret : Bytes
  expiresUnixSeconds : ℕ
deriving DecidableEq

def pairingClientProofDomain : Bytes := "quickfs pairing client proof v1\x00".toUTF8.toList

def pairingServerProofDomain : Bytes := "quickfs pairing server proof v1\x00".toUTF8.toList

section Proofs

variable (crypto : Crypto) (secret : Bytes)

/-- `PairingSecret::proof`. -/
def proof (domain : Bytes) (pairingId : Uuid) (fingerprint nonce : Bytes) : Except AuthError Bytes :=
  match crypto.hmac secret (domain ++ crypto.uuidBytes pairingId ++ fingerprint ++ nonce) with
  | some mac => .ok mac
  | none => .error .crypto

/-- `PairingSecret::verify_proof`. -/
def verifyProof (domain : Bytes) (pairingId : Uuid) (fingerprint nonce candidate : Bytes) : Bool :=
  match crypto.hmac secret (domain ++ crypto.uuidBytes pairingId ++ fingerprint ++ nonce) with
  | some mac => decide (mac = candidate)
  | none => false

def verifyClientProof (pairingId : Uuid) (fingerprint nonce candidate : Bytes) : Bool :=
  verifyProof crypto secret pairingClientProofDomain pairingId fingerprint nonce candidate

def serverProof (pairingId : Uuid) (fingerprint nonce : Bytes) : Except AuthError Bytes :=
  proof crypto secret pairingServerProofDomain pairingId fingerprint nonce

end Proofs

/-- The end of `load_pairing`: the secret of a record. -/
def PairingRecord.decode (crypto : Crypto) (record : PairingRecord) : Except AuthError Bytes :=
  match crypto.decodeSecret record.secret with
  | none => .error (.invalidData "invalid pairing secret")
  | some bytes =>
    if bytes.length ≠ pairingSecretLength then .error (.invalidData "invalid pairing secret length")
    else .ok bytes

/-! ## The rate limiter -/

abbrev IpAddr := ℕ

/-- A point in time, in nanoseconds. -/
abbrev Instant := ℕ

/-- `AUTH_RATE_WINDOW`. -/
def authRateWindow : ℕ := 60 * 10 ^ 9

/-- `MAX_AUTH_RATE_BUCKETS`. -/
def maxAuthRateBuckets : ℕ := 4096

structure AuthRateLimiter where
  attemptsPerPeer : Entries IpAddr (List Instant)
  maximumAttempts : ℕ

namespace AuthRateLimiter

variable (limiter : AuthRateLimiter)

def new (maximumAttempts : ℕ) : AuthRateLimiter := ⟨[], maximumAttempts⟩

/-- The attempts after `cutoff`. -/
def recent (cutoff : Instant) (attempts : List Instant) : List Instant :=
  attempts.dropWhile fun attempt => decide (attempt ≤ cutoff)

/-- The table without the attempts up to `cutoff` and without the peers that have no others. -/
def retainRecent (cutoff : Instant) : Entries IpAddr (List Instant) :=
  (limiter.attemptsPerPeer.map fun entry => (entry.1, recent cutoff entry.2)).filter
    fun entry => !entry.2.isEmpty

/-- The part of `allow` that is about one peer. -/
def allowPeer (peer : IpAddr) (now cutoff : Instant) : Bool × AuthRateLimiter :=
  let attempts := recent cutoff ((limiter.attemptsPerPeer.find peer).getD [])
  if attempts.length ≥ limiter.maximumAttempts then
    (false, { limiter with attemptsPerPeer := limiter.attemptsPerPeer.insert peer attempts })
  else
    (true, { limiter with
      attemptsPerPeer := limiter.attemptsPerPeer.insert peer (attempts ++ [now]) })

/-- `AuthRateLimiter::allow`. -/
def allow (peer : IpAddr) (now : Instant) : Bool × AuthRateLimiter :=
  let cutoff := if authRateWindow ≤ now then now - authRateWindow else now
  if limiter.attemptsPerPeer.find peer = none ∧
      limiter.attemptsPerPeer.length ≥ maxAuthRateBuckets then
    let pruned := { limiter with attemptsPerPeer := limiter.retainRecent cutoff }
    if pruned.attemptsPerPeer.length ≥ maxAuthRateBuckets then (false, pruned)
    else pruned.allowPeer peer now cutoff
  else limiter.allowPeer peer now cutoff

end AuthRateLimiter

end QuickFS.Daemon
