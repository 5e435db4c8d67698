import Mathlib.Data.List.MinMax
import QuickFS.Cache.Ranges

/-!
# Sequential read-ahead

`SequentialPrefetcher` of `crates/client-core/src/cached.rs`: the controller of an open file that
guesses, from the reads it sees, which blocks will be asked for next.  It follows a few streams at a
time; a read that continues one of them may move that stream's window forward, and `observe` returns
the blocks to be fetched ahead of it.  `unschedule` takes back blocks for which there was no budget,
and `complete` reports the end of a fetch.

A `Duration` is a number of nanoseconds.  The diagnostic output is left out.
-/

namespace QuickFS

/-- `u64::saturating_mul`. -/
def saturatingMul (a b : ℕ) : ℕ := min (a * b) u64Max

/-- `u64::wrapping_add`. -/
def wrappingAdd (a b : ℕ) : ℕ := (a + b) % 2 ^ 64

/-- `u64::div_ceil`. -/
def divCeil (a b : ℕ) : ℕ := (a + b - 1) / b

/-- `u64::abs_diff`. -/
def absDiff (a b : ℕ) : ℕ := max a b - min a b

/-- `Vec::swap_remove`: the last element takes the place of the one that goes. -/
def swapRemove {α : Type} (xs : List α) (index : ℕ) : List α :=
  match xs.getLast? with
  | none => xs
  | some last => (xs.set index last).dropLast

/-- `SEQUENTIAL_TRIGGER`. -/
def sequentialTrigger : ℕ := 2

/-- `PRIME_WINDOW_BLOCKS`. -/
def primeWindowBlocks : ℕ := 2

/-- `INITIAL_ACTIVE_WINDOW_BLOCKS`. -/
def initialActiveWindowBlocks : ℕ := 4

/-- `SEQUENTIAL_SLACK_BLOCKS`. -/
def sequentialSlackBlocks : ℕ := 1

/-- `MAX_PREFETCH_STREAMS`. -/
def maxPrefetchStreams : ℕ := 4

/-- `DEMAND_STALL_FLOOR`, ten milliseconds. -/
def demandStallFloor : ℕ := 10000000

/-- `SCHEDULE_BURST_BLOCKS`. -/
def scheduleBurstBlocks : ℕ := 8

structure PrefetchStream where
  id : ℕ
  lastTouch : ℕ
  active : Bool
  nextExpected : ℕ
  run : ℕ
  cursor : ℕ
  windowBlocks : ℕ
  inflight : ℕ
  bytesSinceGrowth : ℕ
deriving DecidableEq

structure SequentialPrefetcher where
  revision : FileRevision
  nextStreamId : ℕ
  touchCounter : ℕ
  streams : List PrefetchStream
deriving DecidableEq

namespace SequentialPrefetcher

/-- `SequentialPrefetcher::default`. -/
def empty : SequentialPrefetcher := ⟨0, 0, 0, []⟩

/-! ## Scheduling -/

/-- The loop of `schedule`: blocks from the cursor on, as many as the budget allows. -/
def scheduleLoop (file : RevisionKey) (size blockSize target : ℕ) :
    ℕ → ℕ → List RangeKey × ℕ
  | 0, cursor => ([], cursor)
  | budget + 1, cursor =>
    if cursor < target then
      let length := min blockSize (size - cursor)
      if length = 0 then ([], cursor)
      else
        let (blocks, final) :=
          scheduleLoop file size blockSize target budget (saturatingAdd cursor blockSize)
        (⟨file, cursor, length⟩ :: blocks, final)
    else ([], cursor)

def schedule (stream : PrefetchStream) (node : NodeId) (revision : FileRevision)
    (readEnd size blockSize capBlocks : ℕ) : PrefetchStream × List RangeKey :=
  let window := min stream.windowBlocks capBlocks
  if window = 0 ∨ size = 0 then (stream, [])
  else
    let demandBlockEnd := min (saturatingMul (divCeil readEnd blockSize) blockSize) size
    let target := min (saturatingAdd demandBlockEnd (saturatingMul window blockSize)) size
    let budget := min (window - stream.inflight) scheduleBurstBlocks
    let (blocks, cursor) := scheduleLoop ⟨node, revision⟩ size blockSize target budget
      (max stream.cursor demandBlockEnd)
    ({ stream with
        cursor := cursor, inflight := saturatingAdd stream.inflight blocks.length }, blocks)

/-! ## A read is seen -/

/-- The stream that a read continues: the one that expects an offset nearest to it, within the
slack. -/
def matching (streams : List PrefetchStream) (offset slack : ℕ) : Option ℕ :=
  ((streams.zipIdx.filter fun (stream, _) =>
      decide (offset ≤ saturatingAdd stream.nextExpected slack ∧
        saturatingAdd offset slack ≥ stream.nextExpected)).argmin
    fun (stream, _) => absDiff stream.nextExpected offset).map Prod.snd

/-- The streams with room for one more: the least recently used one goes if there are too many. -/
def recycle (streams : List PrefetchStream) : List PrefetchStream :=
  if streams.length ≥ maxPrefetchStreams then
    match streams.zipIdx.argmin fun (stream, _) => stream.lastTouch with
    | some (_, oldest) => swapRemove streams oldest
    | none => streams
  else streams

/-- A read that continues no stream starts one.  Only the first read of a handle fetches ahead. -/
def startStream (self : SequentialPrefetcher) (node : NodeId) (revision : FileRevision)
    (touch readEnd size blockSize capBlocks : ℕ) : SequentialPrefetcher × ℕ × List RangeKey :=
  let primeColdStart := self.streams.isEmpty
  let streams := recycle self.streams
  let id := wrappingAdd self.nextStreamId 1
  let stream : PrefetchStream := ⟨id, touch, false, readEnd, 1, readEnd, 0, 0, 0⟩
  let (stream, prime) :=
    if primeColdStart then
      let (stream, scheduled) :=
        schedule { stream with windowBlocks := min primeWindowBlocks capBlocks } node revision readEnd
          size blockSize capBlocks
      ({ stream with windowBlocks := 0 }, scheduled)
    else (stream, [])
  ({ self with nextStreamId := id, streams := streams ++ [stream] }, id, prime)

/-- What a stream learns from a read that continues it, before it schedules anything. -/
def advance (stream : PrefetchStream) (returned elapsed blockSize capBlocks readEnd : ℕ) :
    PrefetchStream :=
  let stream :=
    if stream.active then stream
    else { stream with
      active := true
      windowBlocks := min initialActiveWindowBlocks capBlocks
      cursor := max stream.cursor readEnd
      bytesSinceGrowth := 0 }
  let stream := { stream with bytesSinceGrowth := saturatingAdd stream.bytesSinceGrowth returned }
  if elapsed ≥ demandStallFloor ∧ stream.windowBlocks < capBlocks ∧
      stream.bytesSinceGrowth ≥ saturatingMul (max stream.windowBlocks 1) blockSize / 2 then
    { stream with
      windowBlocks := min (saturatingMul stream.windowBlocks 2) capBlocks
      bytesSinceGrowth := 0 }
  else stream

/-- A read that continues the stream at `index`. -/
def continueStream (self : SequentialPrefetcher) (index : ℕ) (stream : PrefetchStream)
    (node : NodeId) (touch readEnd returned size elapsed blockSize capBlocks : ℕ) :
    SequentialPrefetcher × ℕ × List RangeKey :=
  let stream := { stream with
    lastTouch := touch
    run := saturatingAdd stream.run 1
    nextExpected := max stream.nextExpected readEnd }
  if stream.run < sequentialTrigger then
    ({ self with streams := self.streams.set index stream }, stream.id, [])
  else
    let (stream, blocks) :=
      schedule (advance stream returned elapsed blockSize capBlocks readEnd) node self.revision
        readEnd size blockSize capBlocks
    ({ self with streams := self.streams.set index stream }, stream.id, blocks)

/-- The controller that sees a revision: a new one if it is not the one it knows. -/
def atRevision (self : SequentialPrefetcher) (revision : FileRevision) : SequentialPrefetcher :=
  if revision ≠ self.revision then { empty with revision := revision } else self

def observe (self : SequentialPrefetcher) (node : NodeId) (offset returned : ℕ)
    (revision : FileRevision) (size elapsed blockSize capBlocks : ℕ) :
    SequentialPrefetcher × ℕ × List RangeKey :=
  if blockSize = 0 ∨ capBlocks = 0 then (self, 0, [])
  else
    let self := self.atRevision revision
    let readEnd := saturatingAdd offset returned
    let slack := saturatingMul blockSize sequentialSlackBlocks
    let touch := wrappingAdd self.touchCounter 1
    let self := { self with touchCounter := touch }
    match matching self.streams offset slack with
    | none => self.startStream node revision touch readEnd size blockSize capBlocks
    | some index =>
      match self.streams[index]? with
      | none => (self, 0, [])
      | some stream =>
        self.continueStream index stream node touch readEnd returned size elapsed blockSize capBlocks

/-! ## Fetches are reported -/

/-- Change the first stream with an identifier, if there is one. -/
def updateStream (self : SequentialPrefetcher) (streamId : ℕ)
    (f : PrefetchStream → PrefetchStream) : SequentialPrefetcher :=
  match self.streams.findIdx? fun stream => decide (stream.id = streamId) with
  | none => self
  | some index => { self with streams := self.streams.modify index f }

def unschedule (self : SequentialPrefetcher) (streamId : ℕ) : List RangeKey → SequentialPrefetcher
  | [] => self
  | first :: rest => self.updateStream streamId fun stream =>
    { stream with
      inflight := stream.inflight - (first :: rest).length
      cursor := min stream.cursor first.offset }

def complete (self : SequentialPrefetcher) (streamId : ℕ) (ok : Bool) : SequentialPrefetcher :=
  self.updateStream streamId fun stream =>
    let stream := { stream with inflight := stream.inflight - 1 }
    if ok then stream
    else { stream with active := false, windowBlocks := 0, bytesSinceGrowth := 0 }

/-! ## Every block is one of the file and revision that was read -/

variable {blockSize size : ℕ}

theorem scheduleLoop_file {file : RevisionKey} {target budget cursor : ℕ} :
    ∀ block ∈ (scheduleLoop file size blockSize target budget cursor).1, block.file = file := by
  induction budget generalizing cursor with
  | zero => exact nofun
  | succ _ ih =>
    intro block hmem
    rw [scheduleLoop] at hmem
    split at hmem
    · dsimp only at hmem
      split at hmem
      · cases hmem
      rcases List.mem_cons.1 hmem with rfl | hmem
      · rfl
      · exact ih block hmem
    · cases hmem

theorem schedule_file {stream : PrefetchStream} {node : NodeId} {revision : FileRevision}
    {readEnd capBlocks : ℕ} :
    ∀ block ∈ (schedule stream node revision readEnd size blockSize capBlocks).2,
      block.file = ⟨node, revision⟩ := by
  intro block hmem
  rw [schedule] at hmem
  split at hmem
  · cases hmem
  · exact scheduleLoop_file block hmem

theorem atRevision_revision (self : SequentialPrefetcher) (revision : FileRevision) :
    (self.atRevision revision).revision = revision := by
  rw [atRevision]
  split
  · rfl
  · rename_i h
    exact (not_not.1 h).symm

/-- **What is fetched ahead is of the file and revision that was read.** -/
theorem observe_file {self : SequentialPrefetcher} {node : NodeId} {offset returned : ℕ}
    {revision : FileRevision} {elapsed capBlocks : ℕ} :
    ∀ block ∈ (self.observe node offset returned revision size elapsed blockSize capBlocks).2.2,
      block.file = ⟨node, revision⟩ := by
  intro block hmem
  rw [observe] at hmem
  split at hmem
  · cases hmem
  dsimp only at hmem
  split at hmem
  · rw [startStream] at hmem
    dsimp only at hmem
    split at hmem
    · exact schedule_file block hmem
    · cases hmem
  · split at hmem
    · cases hmem
    rw [continueStream] at hmem
    dsimp only at hmem
    split at hmem
    · cases hmem
    · have h := schedule_file block hmem
      rwa [atRevision_revision] at h

end SequentialPrefetcher

end QuickFS
