import QuickFS.Cache.Files

/-!
# What lookups and invalidations are made of

Lookups and invalidations read payload files, touch entries and remove them, all of it with the mutex
held.  `Tends` says that a call does nothing else, and `tends_method` that they do not, so that
whatever is kept by these steps is kept by all of these methods.
-/

namespace QuickFS.Files

open Async

/-- Made of such steps alone: with the mutex held, or in sections that take it. -/
inductive Tends (enc : Encoding) (me : ℕ) : Bool → {α : Type} → M α → Prop
  | ofExcept {held : Bool} {α : Type} (r : Except CacheError α) :
      Tends enc me held (Call.ofExcept r : M α)
  | bind {held : Bool} {α β : Type} {m : M β} {f : β → M α} (hm : Tends enc me held m)
      (hf : ∀ b, Tends enc me held (f b)) : Tends enc me held (m >>= f)
  | attempt {held : Bool} {α : Type} {m : M α} (hm : Tends enc me held m) :
      Tends enc me held (Call.attempt m)
  | read {held : Bool} {α : Type} (f : PersistentCache → α) :
      Tends enc me held (Call.read f)
  | readPayload (name : FileName) : Tends enc me true (disk (.readPayload name))
  | touchEntries (keys : List EntryKey) : Tends enc me true (touchEntries keys)
  | removeKeysLocked (keys : List EntryKey) : Tends enc me true (removeKeysLocked enc keys)
  | locked {α : Type} {m : M α} (hm : Tends enc me true m) : Tends enc me false (locked me m)

section Tends

variable {enc : Encoding} {me maximum : ℕ} {held : Bool} {α : Type} {m : M α} {key : EntryKey}

namespace Tends

theorem pure (a : α) : Tends enc me held (Pure.pure a : M α) := ofExcept (.ok a)

theorem throw (error : CacheError) : Tends enc me held (Call.throw error : M α) :=
  ofExcept (.error error)

end Tends

theorem tends_readDiskEntry {entry : DiskEntry} :
    Tends enc me true (readDiskEntry enc maximum entry) := by
  refine .bind (.readPayload _) fun found => ?_
  cases found with
  | none => exact .throw _
  | some =>
    dsimp only
    split
    · exact .pure _
    · exact .throw _

theorem tends_healing (hm : Tends enc me true m) : Tends enc me true (healing enc key m) := by
  refine .bind (.attempt hm) fun r => ?_
  split
  · exact .pure _
  · exact .bind (.removeKeysLocked _) fun _ => .throw _
  · exact .throw _

theorem tends_readKey : Tends enc me false (readKey enc me maximum key) := by
  refine .locked (.bind (.read _) fun state => ?_)
  split
  · exact .pure _
  · exact .bind (tends_healing tends_readDiskEntry) fun _ => .bind (.touchEntries _) fun _ => .pure _

theorem tends_removeCorruptKey : Tends enc me false (removeCorruptKey enc me key) :=
  .locked (.removeKeysLocked _)

theorem tends_decodeValue {parse : List UInt8 → Option α} {bytes : List UInt8} :
    Tends enc me false (decodeValue enc me key parse bytes) := by
  rw [decodeValue]
  split
  · exact .pure _
  · exact .bind tends_removeCorruptKey fun _ => .throw _

/-- A lookup of one value, with a check that it may have to pass. -/
theorem tends_getValue {parse : List UInt8 → Option α} {f : α → M (Option α)}
    (hf : ∀ value, Tends enc me false (f value)) :
    Tends enc me false (readKey enc me maximum key >>= fun
      | none => Pure.pure none
      | some bytes => decodeValue enc me key parse bytes >>= f) := by
  refine .bind tends_readKey fun found => ?_
  cases found with
  | none => exact .pure _
  | some => exact .bind tends_decodeValue hf

theorem tends_readRange {range : RangeKey} {entry : DiskEntry} :
    Tends enc me true (readRange enc maximum range entry) := by
  refine .bind tends_readDiskEntry fun data => ?_
  split
  · exact .pure _
  · exact .throw _

theorem tends_readSegments {candidates : List (RangeKey × DiskEntry)}
    {segments : List (Segment EntryKey)} :
    Tends enc me true (readSegments enc maximum candidates segments) := by
  induction candidates generalizing segments with
  | nil => exact .pure _
  | cons _ _ ih => exact .bind (tends_healing tends_readRange) fun _ => ih

theorem tends_getRangeValue {key : RangeKey} :
    Tends enc me false (getRangeValue enc me maximum key) := by
  rw [getRangeValue]
  split
  · exact .throw _
  split_ifs
  · exact .pure _
  · exact .pure _
  refine .locked (.bind (.read _) fun state => .bind tends_readSegments fun segments => ?_)
  split
  · exact .pure _
  · exact .bind (.touchEntries _) fun _ => .pure _

theorem tends_getCoveringRangeValue {key : RangeKey} :
    Tends enc me false (getCoveringRangeValue enc me maximum key) := by
  rw [getCoveringRangeValue]
  split
  · exact .throw _
  split_ifs
  · exact .pure _
  · exact .pure _
  refine .locked (.bind (.read _) fun state => ?_)
  split
  · exact .pure _
  · exact .bind (tends_healing tends_readRange) fun _ =>
      .bind (.touchEntries _) fun _ => .pure _

theorem tends_containing {node : NodeId} {entries : Entries EntryKey DiskEntry} :
    Tends enc me true (containing enc maximum node entries) := by
  induction entries with
  | nil => exact .pure _
  | cons _ _ ih =>
    refine .bind (.bind (.attempt tends_readDiskEntry) fun r => ?_) fun _ =>
      .bind ih fun _ => .pure _
    split
    · exact .pure _
    · exact .pure _
    · exact .throw _

/-- The operations that threads call on a cache they share, outside of batches. -/
def Operation.isShared : Operation → Bool
  | .openCache _ | .beginDeferredCommits | .flushDeferredCommits => false
  | _ => true

/-- **Lookups and invalidations**. -/
theorem tends_method {op : Operation} (hshared : op.isShared = true)
    (hop : op.isInsertion = false) : Tends enc me false (method enc me maximum op) := by
  cases op with
  | getMetadataValue =>
    refine tends_getValue fun value => ?_
    split
    · exact .bind tends_removeCorruptKey fun _ => .throw _
    · exact .pure _
  | getDirectoryValue | getFilesystemStatsValue => exact tends_getValue fun _ => .pure _
  | getRangeValue => exact tends_getRangeValue
  | getCoveringRangeValue => exact tends_getCoveringRangeValue
  | invalidateMetadata | invalidateDirectories | invalidateRanges =>
    exact .locked (.bind (.read _) fun _ => .removeKeysLocked _)
  | invalidateNode | invalidateDirectoriesContaining =>
    exact .locked (.bind (.read _) fun _ => .bind tends_containing fun _ => .removeKeysLocked _)
  | openCache | beginDeferredCommits | flushDeferredCommits => cases hshared
  | _ => cases hop

end Tends

end QuickFS.Files
