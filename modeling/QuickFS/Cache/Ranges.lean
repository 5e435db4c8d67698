import QuickFS.Lib.Entries
import Mathlib.Data.List.Sort
import QuickFS.Lib.Slices
import QuickFS.Protocol

/-!
# Cached byte ranges

The part of `crates/cache` that deals with pieces of files.  A piece is kept under a `RangeKey`: the
node, the revision of the file it was read from, and where in the file it stands.  A request need
not ask for a piece that was stored: `assembleRange` puts it together from pieces that overlap, nest
or touch, and so does the hot cache, in its own way (`HotRangeState.walk`).

What both rest on is that pieces of one revision are slices of one content.  `Faithful content`
says so of a set of entries, and the results here say that what is assembled from faithful entries
is the slice that was asked for.

The entries of a `HashMap` are a list here; what the source finds by iterating over the map depends
on the order of that list only where it depends on the order of iteration there.
-/

namespace QuickFS

open Slices

/-- A revision of a node. -/
structure RevisionKey where
  node : NodeId
  revision : FileRevision
deriving DecidableEq

structure RangeKey where
  file : RevisionKey
  offset : ℕ
  length : ℕ
deriving DecidableEq

/-- `u64::checked_sub`. -/
def checkedSub (a b : ℕ) : Option ℕ := if b ≤ a then some (a - b) else none

/-- `data.get(start..stop)`. -/
def subrange (data : List UInt8) (start stop : ℕ) : Option (List UInt8) :=
  if start ≤ stop ∧ stop ≤ data.length then some (slice data start (stop - start)) else none

def validRangePayload (key : RangeKey) (value : List UInt8) : Bool :=
  (checkedAdd key.offset key.length).isSome && decide (key.length = value.length)

def rangesOverlap (left right : RangeKey) : Bool :=
  match checkedAdd left.offset left.length, checkedAdd right.offset right.length with
  | some leftEnd, some rightEnd => decide (left.offset < rightEnd ∧ right.offset < leftEnd)
  | _, _ => false

theorem length_of_validRangePayload {key : RangeKey} {value : List UInt8}
    (h : validRangePayload key value = true) : value.length = key.length := by
  rw [validRangePayload, Bool.and_eq_true, decide_eq_true_eq] at h
  exact h.2.symm

/-! ## Entries -/

/-- Every entry is the piece of its file's content that its key says. -/
def Faithful (content : RevisionKey → List UInt8) (entries : Entries RangeKey (List UInt8)) : Prop :=
  ∀ key data, (key, data) ∈ entries →
    data.length = key.length ∧ IsSlice (content key.file) key.offset data

namespace Faithful

variable {content : RevisionKey → List UInt8} {entries : Entries RangeKey (List UInt8)}

theorem nil : Faithful content [] := fun _ _ h => by cases h

theorem mono (h : Faithful content entries) {entries' : Entries RangeKey (List UInt8)}
    (hsub : ∀ entry ∈ entries', entry ∈ entries) : Faithful content entries' :=
  fun key data hmem => h key data (hsub _ hmem)

theorem erase (h : Faithful content entries) (key : RangeKey) :
    Faithful content (Entries.erase entries key) :=
  h.mono fun _ => Entries.mem_of_mem_erase

theorem insert (h : Faithful content entries) {key : RangeKey} {data : List UInt8}
    (hlen : data.length = key.length) (hdata : IsSlice (content key.file) key.offset data) :
    Faithful content (Entries.insert entries key data) := by
  intro key' data' hmem
  rcases List.mem_cons.1 hmem with heq | hmem
  · cases heq
    exact ⟨hlen, hdata⟩
  · exact h.erase key key' data' hmem

end Faithful

/-! ## Assembling a request -/

structure Segment (K : Type) where
  key : K
  offset : ℕ
  data : List UInt8

structure Assembled (K : Type) where
  data : List UInt8
  usedKeys : List K

section Assemble

variable {K : Type}

/-- The loop of `assemble_range` over the segments, sorted by where they start. -/
def assembleLoop (requestedEnd : ℕ) :
    List (Segment K) → ℕ → List UInt8 → List K → Option (Assembled K)
  | [], _, _, _ => none
  | segment :: rest, cursor, data, usedKeys =>
    if segment.offset > cursor then none
    else do
      let segmentEnd ← checkedAdd segment.offset segment.data.length
      if segmentEnd ≤ cursor then assembleLoop requestedEnd rest cursor data usedKeys
      else do
        let copyEnd := min segmentEnd requestedEnd
        let sourceStart ← checkedSub cursor segment.offset
        let sourceEnd ← checkedSub copyEnd segment.offset
        let piece ← subrange segment.data sourceStart sourceEnd
        let data := data ++ piece
        let usedKeys := usedKeys ++ [segment.key]
        if copyEnd = requestedEnd then some ⟨data, usedKeys⟩
        else assembleLoop requestedEnd rest copyEnd data usedKeys

/-- Segments in the order the loop wants them: by offset, the longer one first. -/
def Segment.Before (left right : Segment K) : Prop :=
  left.offset < right.offset ∨
    left.offset = right.offset ∧ right.data.length ≤ left.data.length

instance : DecidableRel (Segment.Before (K := K)) :=
  fun left right => inferInstanceAs (Decidable (left.offset < right.offset ∨
    left.offset = right.offset ∧ right.data.length ≤ left.data.length))

/-- Whether a segment has a byte that was asked for. -/
def Segment.touches (requested : RangeKey) (requestedEnd : ℕ) (segment : Segment K) : Bool :=
  match checkedAdd segment.offset segment.data.length with
  | some segmentEnd => decide (segment.offset < requestedEnd ∧ segmentEnd > requested.offset)
  | none => false

def assembleRange (requested : RangeKey) (segments : List (Segment K)) : Option (Assembled K) := do
  let requestedEnd ← checkedAdd requested.offset requested.length
  let retained := segments.filter (Segment.touches requested requestedEnd)
  assembleLoop requestedEnd (retained.insertionSort Segment.Before) requested.offset [] []

variable {content : List UInt8}

variable {a b c start : ℕ} {data : List UInt8} {segments : List (Segment K)}
  {assembled : Assembled K}

theorem eq_add_of_checkedAdd (h : checkedAdd a b = some c) : c = a + b := by
  rw [checkedAdd] at h
  split at h
  · exact (Option.some_inj.1 h).symm
  · cases h

theorem checkedAdd_le (h : checkedAdd a b = some c) : c ≤ u64Max := by
  rw [checkedAdd] at h
  split at h
  · rename_i hle
    rw [← Option.some_inj.1 h]
    exact hle
  · cases h

theorem eq_of_checkedSub (h : checkedSub a b = some c) : a = b + c := by
  rw [checkedSub] at h
  split at h
  · have hc := Option.some_inj.1 h
    omega
  · cases h

variable {requested : RangeKey} {piece : List UInt8}

/-- The bytes a slice contributes to a request stand where they stood in it. -/
theorem isSlice_of_subrange {offset stop : ℕ} (hdata : IsSlice content offset data)
    (h : subrange data start stop = some piece) :
    IsSlice content (offset + start) piece ∧ stop = start + piece.length := by
  rw [subrange] at h
  split at h
  · rename_i hle
    have hpiece := Option.some_inj.1 h
    rw [hdata.slice_eq (by omega)] at hpiece
    have hlen : piece.length = stop - start := by
      have hfits : (slice data start (stop - start)).length = stop - start := by
        rw [length_slice]
        omega
      rw [← hfits, hdata.slice_eq (by omega), hpiece]
    exact ⟨by rw [← hpiece]; exact isSlice_slice, by omega⟩
  · cases h

/-- The segment has this byte at this position of the file. -/
def Segment.Has (segment : Segment K) (position : ℕ) (byte : UInt8) : Prop :=
  segment.offset ≤ position ∧ segment.data[position - segment.offset]? = some byte

theorem getElem?_subrange {stop i : ℕ} {byte : UInt8} (h : subrange data start stop = some piece)
    (hi : piece[i]? = some byte) : data[start + i]? = some byte := by
  rw [subrange] at h
  split at h
  · cases h
    rw [slice, List.getElem?_take] at hi
    split at hi
    · rwa [List.getElem?_drop] at hi
    · cases hi
  · cases h

/-- What the loop has collected stands right before its cursor, and every byte of it is one of a
segment; when it is done, that is the whole request. -/
theorem assembleLoop_has {requestedEnd : ℕ} {all : List (Segment K)}
    (hall : ∀ segment ∈ segments, segment ∈ all) {cursor : ℕ} {usedKeys : List K}
    (hdata : ∀ i byte, data[i]? = some byte → ∃ segment ∈ all, segment.Has (start + i) byte)
    (hcursor : cursor = start + data.length)
    (h : assembleLoop requestedEnd segments cursor data usedKeys = some assembled) :
    requestedEnd = start + assembled.data.length ∧
      ∀ i byte, assembled.data[i]? = some byte → ∃ segment ∈ all, segment.Has (start + i) byte := by
  induction segments generalizing cursor data usedKeys with
  | nil => cases h
  | cons segment rest ih =>
    have hrest : ∀ segment ∈ rest, segment ∈ all := fun s hs => hall s (List.mem_cons_of_mem _ hs)
    rw [assembleLoop] at h
    split at h
    · cases h
    simp only [Option.bind_eq_bind, Option.bind_eq_some_iff] at h
    obtain ⟨segmentEnd, hend, h⟩ := h
    have hend := eq_add_of_checkedAdd hend
    split at h
    · exact ih hrest hdata hcursor h
    obtain ⟨sourceStart, hstart, sourceEnd, hstop, piece, hpiece, h⟩ := by
      simpa only [Option.bind_eq_some_iff] using h
    have hs := eq_of_checkedSub hstart
    have he := eq_of_checkedSub hstop
    have hwhole : IsSlice segment.data 0 segment.data := List.take_length
    have hlength := (isSlice_of_subrange hwhole hpiece).2
    have hjoin : ∀ i byte, (data ++ piece)[i]? = some byte →
        ∃ segment ∈ all, segment.Has (start + i) byte := by
      intro i byte hi
      rw [List.getElem?_append] at hi
      split at hi
      · exact hdata i byte hi
      refine ⟨segment, hall _ List.mem_cons_self, by omega, ?_⟩
      rw [← getElem?_subrange hpiece hi]
      congr 1
      omega
    split at h
    · rename_i hcopy
      cases h
      refine ⟨?_, hjoin⟩
      rw [List.length_append]
      omega
    · refine ih hrest hjoin ?_ h
      rw [List.length_append]
      omega

/-- **What is assembled is as long as what was asked for, and every byte of it is the byte of a
segment that has one there.** -/
theorem assembleRange_has (h : assembleRange requested segments = some assembled) :
    assembled.data.length = requested.length ∧ ∀ i byte, assembled.data[i]? = some byte →
      ∃ segment ∈ segments, segment.Has (requested.offset + i) byte := by
  rw [assembleRange] at h
  simp only [Option.bind_eq_bind, Option.bind_eq_some_iff] at h
  obtain ⟨requestedEnd, hend, h⟩ := h
  have hnil : ∀ j b, ([] : List UInt8)[j]? = some b →
      ∃ segment ∈ segments, segment.Has (requested.offset + j) b :=
    fun _ _ hj => by cases hj
  obtain ⟨hlength, hbytes⟩ := assembleLoop_has (fun segment hmem =>
    List.mem_of_mem_filter (List.mem_insertionSort _ |>.1 hmem)) hnil (Nat.add_zero _).symm h
  have hend := eq_add_of_checkedAdd hend
  exact ⟨by omega, hbytes⟩

/-- **What is assembled from slices is the slice that was asked for.** -/
theorem assembleRange_isSlice
    (hseg : ∀ segment ∈ segments, IsSlice content segment.offset segment.data)
    (h : assembleRange requested segments = some assembled) :
    IsSlice content requested.offset assembled.data ∧ assembled.data.length = requested.length := by
  obtain ⟨hlength, hbytes⟩ := assembleRange_has h
  refine ⟨IsSlice.iff_getElem?.2 fun i byte hi => ?_, hlength⟩
  obtain ⟨segment, hmem, hle, hbyte⟩ := hbytes i byte hi
  rw [← IsSlice.iff_getElem?.1 (hseg segment hmem) _ _ hbyte]
  congr 1
  omega

end Assemble

/-! ## The hot cache -/

/-- The bytes of recently used ranges, with the order in which they were last used. -/
structure HotRangeState where
  entries : Entries RangeKey (List UInt8)
  leastRecentlyUsed : List RangeKey
  bytes : ℕ
deriving DecidableEq

namespace HotRangeState

/-- Of an entry that covers `position` and the best one so far, the one that reaches further. -/
def consider (file : RevisionKey) (position : ℕ) (best : Option (RangeKey × List UInt8 × ℕ))
    (entry : RangeKey × List UInt8) : Option (RangeKey × List UInt8 × ℕ) :=
  match checkedAdd entry.1.offset entry.1.length with
  | some stop =>
    if entry.1.file = file ∧ entry.1.offset ≤ position ∧ stop > position then
      match best with
      | some (_, _, bestStop) => if bestStop ≤ stop then some (entry.1, entry.2, stop) else best
      | none => some (entry.1, entry.2, stop)
    else best
  | none => best

/-- `max_by_key` over the entries that cover `position`: the one that reaches furthest, the last of
those that reach equally far. -/
def furthest (file : RevisionKey) (position : ℕ) (entries : Entries RangeKey (List UInt8)) :
    Option (RangeKey × List UInt8 × ℕ) :=
  entries.foldl (consider file position) none

/-- The loop of `HotRangeCache::get`.  A round copies at least one byte, so that there are at most
as many rounds as bytes. -/
def walk (entries : Entries RangeKey (List UInt8)) (file : RevisionKey) (requestEnd : ℕ) :
    ℕ → ℕ → List UInt8 → List RangeKey → Option (List UInt8 × List RangeKey)
  | rounds, position, output, used =>
    if position < requestEnd then
      match rounds with
      | 0 => none
      | rounds + 1 => do
        let (candidate, data, candidateEnd) ← furthest file position entries
        let copyEnd := min candidateEnd requestEnd
        let start ← checkedSub position candidate.offset
        let stop ← checkedSub copyEnd candidate.offset
        let piece ← subrange data start stop
        walk entries file requestEnd rounds copyEnd (output ++ piece) (used ++ [candidate])
    else some (output, used)

/-- Move a key to the end of the queue. -/
def touch (queue : List RangeKey) (key : RangeKey) : List RangeKey :=
  queue.filter (fun candidate => decide (candidate ≠ key)) ++ [key]

/-- `HotRangeCache::get`: the bytes, and the keys they came from moved to the end of the queue. -/
def get (state : HotRangeState) (key : RangeKey) : Option (List UInt8) × HotRangeState :=
  match checkedAdd key.offset key.length with
  | none => (none, state)
  | some requestEnd =>
    if key.length = 0 then (some [], state)
    else
      match walk state.entries key.file requestEnd key.length key.offset [] [] with
      | none => (none, state)
      | some (output, used) =>
        (some output, { state with
          leastRecentlyUsed := used.dedup.foldl touch state.leastRecentlyUsed })

/-- The eviction loop of `insert`: from the front of the queue until the rest fits. -/
def evict (maximumBytes : ℕ) : List RangeKey → Entries RangeKey (List UInt8) → ℕ → HotRangeState
  | [], entries, bytes => ⟨entries, [], bytes⟩
  | evicted :: queue, entries, bytes =>
    if bytes > maximumBytes then
      match Entries.find entries evicted with
      | some value => evict maximumBytes queue (Entries.erase entries evicted) (bytes - value.length)
      | none => evict maximumBytes queue entries bytes
    else ⟨entries, evicted :: queue, bytes⟩

def insert (maximumBytes : ℕ) (state : HotRangeState) (key : RangeKey) (value : List UInt8) :
    HotRangeState :=
  if !validRangePayload key value || value.isEmpty || decide (value.length > maximumBytes) then state
  else
    let previous := ((state.entries.find key).map List.length).getD 0
    evict maximumBytes (touch state.leastRecentlyUsed key) (state.entries.insert key value)
      (saturatingAdd (state.bytes - previous) value.length)

def invalidate (state : HotRangeState) (node : NodeId) : HotRangeState where
  entries := state.entries.filter fun entry => decide (entry.1.file.node ≠ node)
  leastRecentlyUsed := state.leastRecentlyUsed.filter fun key => decide (key.file.node ≠ node)
  bytes := state.bytes -
    ((state.entries.filter fun entry => decide (entry.1.file.node = node)).map
      fun entry => entry.2.length).sum

variable {content : RevisionKey → List UInt8} {entries : Entries RangeKey (List UInt8)}

/-- An entry of the file that covers the position. -/
def Covers (entries : Entries RangeKey (List UInt8)) (file : RevisionKey) (position : ℕ)
    (best : RangeKey × List UInt8 × ℕ) : Prop :=
  (best.1, best.2.1) ∈ entries ∧ best.1.file = file ∧ best.1.offset ≤ position ∧ position < best.2.2

variable {file : RevisionKey} {position : ℕ}

variable {state : HotRangeState} {maximumBytes : ℕ} {entry : RangeKey × List UInt8} {key : RangeKey}
  {data : List UInt8}

theorem covers_consider {best : Option (RangeKey × List UInt8 × ℕ)}
    (hbest : ∀ b, best = some b → Covers entries file position b) (hentry : entry ∈ entries) :
    ∀ b, consider file position best entry = some b → Covers entries file position b := by
  intro b hb
  rw [consider] at hb
  split at hb
  · split at hb
    · rename_i hcover
      split at hb
      · split at hb
        · cases hb
          exact ⟨hentry, hcover⟩
        · exact hbest b hb
      · cases hb
        exact ⟨hentry, hcover⟩
    · exact hbest b hb
  · exact hbest b hb

theorem covers_furthest {best : RangeKey × List UInt8 × ℕ}
    (h : furthest file position entries = some best) : Covers entries file position best := by
  have hfold : ∀ (l : Entries RangeKey (List UInt8)) (start : Option (RangeKey × List UInt8 × ℕ)),
      (∀ entry ∈ l, entry ∈ entries) → (∀ b, start = some b → Covers entries file position b) →
        ∀ b, l.foldl (consider file position) start = some b → Covers entries file position b := by
    intro l
    induction l with
    | nil => exact fun _ _ hstart => hstart
    | cons entry _ ih =>
      exact fun start hmem hstart => ih _ (fun e he => hmem e (List.mem_cons_of_mem _ he))
        (covers_consider hstart (hmem entry List.mem_cons_self))
  exact hfold entries none (fun _ he => he) nofun _ h

/-- What the walk has copied stands right before its position. -/
theorem walk_isSlice (hent : Faithful content entries) {requestEnd start rounds : ℕ}
    {output : List UInt8} {used : List RangeKey} (hout : IsSlice (content file) start output)
    (hpos : position = start + output.length) (hle : position ≤ requestEnd) {used' : List RangeKey}
    (h : walk entries file requestEnd rounds position output used = some (data, used')) :
    IsSlice (content file) start data ∧ requestEnd = start + data.length := by
  induction rounds generalizing position output used with
  | zero =>
    rw [walk] at h
    split at h
    · cases h
    · cases h
      exact ⟨hout, by omega⟩
  | succ _ ih =>
    rw [walk] at h
    split at h
    · simp only [Option.bind_eq_bind, Option.bind_eq_some_iff] at h
      obtain ⟨⟨candidate, cdata, stop⟩, hbest, sourceStart, hstart, sourceEnd, hstop, piece, hpiece,
        h⟩ := h
      obtain ⟨hmem, hfile, hoff, hcover⟩ := covers_furthest hbest
      dsimp only at hmem hfile hoff hcover hstart hstop hpiece h
      have hs := eq_of_checkedSub hstart
      have he := eq_of_checkedSub hstop
      have hsub := isSlice_of_subrange (hent _ _ hmem).2 hpiece
      rw [← hs, hpos, hfile] at hsub
      refine ih (hout.append hsub.1) ?_ (Nat.min_le_right _ _) h
      rw [List.length_append]
      omega
    · cases h
      exact ⟨hout, by omega⟩

/-- **The hot cache answers with the slice that was asked for.** -/
theorem get_isSlice (hent : Faithful content state.entries) (h : (state.get key).1 = some data) :
    data.length = key.length ∧ IsSlice (content key.file) key.offset data := by
  rw [get] at h
  split at h
  · cases h
  rename_i requestEnd hend
  have hend := eq_add_of_checkedAdd hend
  split at h
  · rename_i hzero
    cases h
    exact ⟨hzero.symm, IsSlice.nil⟩
  split at h
  · cases h
  rename_i output used hwalk
  cases h
  have hstart : key.offset = key.offset + ([] : List UInt8).length := rfl
  have hle : key.offset ≤ requestEnd := by omega
  obtain ⟨hslice, hlen⟩ := walk_isSlice hent IsSlice.nil hstart hle hwalk
  exact ⟨by omega, hslice⟩

@[simp] theorem get_entries (state : HotRangeState) (key : RangeKey) :
    (state.get key).2.entries = state.entries := by
  rw [get]
  split
  · rfl
  split
  · rfl
  · split <;> rfl

theorem mem_of_mem_evict {queue : List RangeKey} {bytes : ℕ}
    (h : entry ∈ (evict maximumBytes queue entries bytes).entries) : entry ∈ entries := by
  induction queue generalizing entries bytes with
  | nil => exact h
  | cons _ _ ih =>
    rw [evict] at h
    split at h
    · split at h
      · exact Entries.mem_of_mem_erase (ih h)
      · exact ih h
    · exact h

theorem faithful_insert (hent : Faithful content state.entries) {value : List UInt8}
    (hvalue : IsSlice (content key.file) key.offset value) :
    Faithful content (state.insert maximumBytes key value).entries := by
  rw [insert]
  split
  · exact hent
  rename_i hvalid
  refine Faithful.mono (hent.insert ?_ hvalue) fun _ => mem_of_mem_evict
  refine length_of_validRangePayload ?_
  cases hpayload : validRangePayload key value with
  | true => rfl
  | false => simp [hpayload] at hvalid

end HotRangeState

end QuickFS
