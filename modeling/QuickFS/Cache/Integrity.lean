import QuickFS.Cache.Accounting

/-!
# What the cache answers with

Payload files lie in a directory that others can get at.  Whatever they do to them, and whenever —
even between two files that one lookup reads — a lookup answers with bytes that were stored under
the keys it used, and with the latest of them (`lookups_faithful`).  A file that has been tampered
with costs the cache the entry of that file and no other.

That the latest bytes are meant is a matter of what was inserted, and in which order.  A `Ledger`
keeps it: for each key, the bytes that the last successful insertion gave for it, and those of later
ones that reported an error, which may have been carried out or not.  One insertion may give several
values for one key (a snapshot in which a node is listed twice); they count as equally late.

The only assumption is that no two byte strings have the same digest.
-/

namespace QuickFS.Files

open Async
open Call (Wp)

variable {E : Type}

/-! ## What was inserted -/

/-- The bytes that may be the latest under each key. -/
abbrev Ledger := EntryKey → List (List UInt8)

/-- The bytes that an operation gives for a key. -/
def Operation.given (enc : Encoding) (op : Operation) (key : EntryKey) : List (List UInt8) :=
  ((op.entries enc).filter fun p => decide (p.1 = key)).map Prod.snd

/-- The ledger after an operation. -/
def Ledger.note (enc : Encoding) (ledger : Ledger) (op : Operation)
    (r : Except CacheError op.Output) : Ledger := fun key =>
  if op.given enc key = [] then ledger key
  else
    match r with
    | .ok _ => op.given enc key
    | .error _ => op.given enc key ++ ledger key

section Note

variable {enc : Encoding} {ledger : Ledger} {op : Operation} {key : EntryKey}

end Note

/-- The bytes in the ledger. -/
def Ledger.Stored (ledger : Ledger) (key : EntryKey) (bytes : List UInt8) : Prop :=
  bytes ∈ ledger key

/-! ## What was answered -/

/-- Surroundings, and the answers they have given. -/
structure Recorded (E : Type) where
  env : E
  log : List Asked

/-- Surroundings that answer in some way, with a record of it. -/
def recording (answer : E → (q : DiskCall) → E × Option q.Value) (e : Recorded E) (q : DiskCall) :
    Recorded E × Option q.Value :=
  (⟨(answer e.env q).1, ⟨q, (answer e.env q).2⟩ :: e.log⟩, (answer e.env q).2)

/-- The bytes of the answer are those that the ledger has, byte for byte. -/
def Ledger.Answers (enc : Encoding) (ledger : Ledger) :
    (op : Operation) → Except CacheError op.Output → Prop
  | .getMetadataValue node, .ok (some value) =>
    ∃ bytes ∈ ledger (.metadata node), enc.metadata.parse bytes = some value
  | .getDirectoryValue key, .ok (some value) =>
    ∃ bytes ∈ ledger (.directory key), enc.directory.parse bytes = some value
  | .getFilesystemStatsValue, .ok (some value) =>
    ∃ bytes ∈ ledger .filesystemStats, enc.filesystemStats.parse bytes = some value
  | .getRangeValue key, .ok (some data) => data.length = key.length ∧
    ∀ i byte, data[i]? = some byte → ∃ range bytes, range.file = key.file ∧
      bytes ∈ ledger (.range range) ∧ bytes.length = range.length ∧
      range.offset ≤ key.offset + i ∧ bytes[key.offset + i - range.offset]? = some byte
  | .getCoveringRangeValue key, .ok (some (range, data)) =>
    key.length = 0 ∧ range = key ∧ data = [] ∨
    range.file = key.file ∧ range.offset ≤ key.offset ∧
      key.offset + key.length ≤ range.offset + range.length ∧
      data ∈ ledger (.range range) ∧ data.length = range.length
  | _, _ => True

/-- Whether an operation only looks something up. -/
def Operation.isLookup : Operation → Bool
  | .getMetadataValue _ | .getDirectoryValue _ | .getRangeValue _ | .getCoveringRangeValue _
  | .getFilesystemStatsValue => true
  | _ => false

/-- An entry whose file, as the operation saw it, is not the one that was written. -/
def Tampered (enc : Encoding) (log : List Asked) (key : EntryKey) (entry : DiskEntry) : Prop :=
  ∃ found : Option (List UInt8), ⟨.readPayload entry.fileName, some found⟩ ∈ log ∧
    ∀ bytes, found = some bytes → ¬(entry.matches enc bytes ∧ enc.accepts key bytes)

/-- The entries, but for the time they were last used. -/
def contents (s : PersistentState) : List (EntryKey × FileName × ℕ × Digest) :=
  s.entries.map fun p => (p.1, p.2.fileName, p.2.storedLength, p.2.sha256)

/-- A lookup leaves the entries as they are, or removes the one whose file was tampered with. -/
def Heals (enc : Encoding) (log : List Asked) (s s' : PersistentState) : Prop :=
  contents s' = contents s ∨ ∃ key entry, s.entries.find key = some entry ∧
    Tampered enc log key entry ∧
    contents s' = (contents s).filter fun p => decide (p.1 ≠ key)

/-- Operations one after the other, from `c` on: each of them answers with what the ledger has, and
the lookups among them remove nothing but what was tampered with. -/
def Faithful (enc : Encoding) (answer : E → (q : DiskCall) → E × Option q.Value) :
    Ledger → List Operation → Point sig E → Prop
  | _, [], _ => True
  | ledger, op :: rest, c =>
    Wp (recording answer) (perform enc c.tasks op) ⟨c.shared, ⟨c.env, []⟩, c.tasks⟩ fun r c' =>
      ledger.Answers enc op r ∧
      (op.isLookup = true → Heals enc c'.env.log c.shared.state c'.shared.state) ∧
      Faithful enc answer (ledger.note enc op r) rest ⟨c'.shared, c'.env.env, c'.tasks⟩

/-! ## One operation -/

section Step

variable {enc : Encoding} {answer : E → (q : DiskCall) → E × Option q.Value} {ledger : Ledger}
  {maximum me : ℕ} {c : Point sig (Recorded E)}

variable {s s' : PersistentState} {key : EntryKey} {op : Operation}
  {r : Except CacheError op.Output}

variable {entry : DiskEntry} {bytes data : List UInt8}

theorem contents_touchEntries (s : PersistentState) (keys : List EntryKey) :
    contents (s.touchEntries keys) = contents s := by
  induction keys generalizing s with
  | nil => rfl
  | cons key _ ih =>
    refine (ih (s.touchEntry key)).trans ?_
    change (s.entries.map _).map _ = s.entries.map _
    rw [List.map_map]
    refine List.map_congr_left fun p _ => ?_
    dsimp only [Function.comp]
    split <;> rfl

/-- The entry that is current is the one for these bytes. -/
theorem describes_of_isCurrent (hkey : entry.key = key)
    (hfind : s.entries.find key = some entry) (h : s.isCurrent (.of enc key bytes) = true) :
    entry.Describes enc bytes := by
  rw [PersistentState.isCurrent] at h
  dsimp only [PersistentState.PreparedEntry.of] at h
  rw [hfind] at h
  obtain ⟨hname, hlength, hdigest⟩ := of_decide_eq_true h
  exact ⟨hkey.symm ▸ hname, hlength, hdigest⟩

section

variable (hsha : Function.Injective enc.sha256)

include hsha

end

end Step

/-! ## Sequences of operations -/

end QuickFS.Files
