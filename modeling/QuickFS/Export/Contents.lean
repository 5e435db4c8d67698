import QuickFS.Export.Registry

/-!
# The bytes of open files

Reading, writing and copying by descriptor, as the server does it.  The host may do less than it is
asked for, so each of these is a loop.  A loop over bytes gets as many passes as there are bytes,
which is enough: a pass that neither ends the loop nor fails moves at least one byte.
-/

namespace QuickFS.Export

open Server Async

variable {F : Frame}

/-! ## Reading and writing -/

/-- The loop of `read_all_at`. -/
def readAllFrom (file : Fd) : ℕ → ℕ → ℕ → Run F Bytes
  | 0, _, _ => pure []
  | passes + 1, offset, length =>
    if length = 0 then pure []
    else do
      let chunk ← system (.readAt file offset length) id
      if chunk = [] then Call.throw .conflict
      else do
        let rest ← readAllFrom file passes (offset + chunk.length) (length - chunk.length)
        pure (chunk ++ rest)

/-- `read_all_at`. -/
def readAllAt (file : Fd) (offset length : ℕ) : Run F Bytes := readAllFrom file length offset length

/-- The loop of `read_consistent`, which a short file ends. -/
def readUpTo (file : Fd) : ℕ → ℕ → ℕ → Run F Bytes
  | 0, _, _ => pure []
  | passes + 1, offset, length =>
    if length = 0 then pure []
    else do
      let chunk ← system (.readAt file offset length) id
      if chunk = [] then pure []
      else do
        let rest ← readUpTo file passes (saturatingAdd offset chunk.length) (length - chunk.length)
        pure (chunk ++ rest)

/-- `read_consistent`. -/
def readConsistent (config : Config) (file : Fd) (offset length : ℕ) :
    Run F (FileRevision × Bytes) := do
  let before ← system (.fstat file) id
  let amount := min length (before.size - offset)
  let data ← readUpTo file amount offset amount
  let after ← system (.fstat file) id
  if before.revision config.digests ≠ after.revision config.digests then Call.throw .conflict
  else pure (after.revision config.digests, data)

/-- The loop of `write_all_at`, or of `write_all` on a file that is appended to. -/
def writeAllFrom (file : Fd) (append : Bool) : ℕ → ℕ → Bytes → Run F Unit
  | 0, _, _ => pure ()
  | passes + 1, offset, data =>
    if data = [] then pure ()
    else do
      let written ←
        if append then system (.append file data) id else system (.writeAt file offset data) id
      if written = 0 then Call.throw .io
      else writeAllFrom file append passes (saturatingAdd offset written) (data.drop written)

/-- `write_all_at`. -/
def writeAllAt (file : Fd) (offset : ℕ) (data : Bytes) (append : Bool) : Run F Unit :=
  writeAllFrom file append data.length offset data

/-! ## Copying -/

/-- `CHUNK`. -/
def copyChunk : ℕ := 1024 * 1024

/-- The loop of `copy_range_buffered`. -/
def copyBufferedFrom (input output : Fd) : ℕ → ℕ → ℕ → ℕ → Run F Unit
  | 0, _, _, _ => pure ()
  | passes + 1, inputOffset, outputOffset, length =>
    if length = 0 then pure ()
    else do
      let amount := min length copyChunk
      let data ← readAllAt input inputOffset amount
      writeAllAt output outputOffset data false
      copyBufferedFrom input output passes (inputOffset + amount) (outputOffset + amount)
        (length - amount)

/-- `copy_range_buffered`. -/
def copyRangeBuffered (input : Fd) (inputOffset : ℕ) (output : Fd) (outputOffset length : ℕ) :
    Run F Unit :=
  copyBufferedFrom input output length inputOffset outputOffset length

/-- The loop of `copy_range_buffered_overlap`, from the end of the range to its start. -/
def copyBackwards (input : Fd) (inputOffset : ℕ) (output : Fd) (outputOffset : ℕ) :
    ℕ → ℕ → Run F Unit
  | 0, _ => pure ()
  | passes + 1, remaining =>
    if remaining = 0 then pure ()
    else do
      let amount := min remaining copyChunk
      let data ← readAllAt input (inputOffset + remaining - amount) amount
      writeAllAt output (outputOffset + remaining - amount) data false
      copyBackwards input inputOffset output outputOffset passes (remaining - amount)

/-- `copy_range_buffered_overlap`. -/
def copyRangeBufferedOverlap (input : Fd) (inputOffset : ℕ) (output : Fd)
    (outputOffset length : ℕ) : Run F Unit :=
  if outputOffset ≤ inputOffset then copyRangeBuffered input inputOffset output outputOffset length
  else copyBackwards input inputOffset output outputOffset length length

/-- An error of `copy_file_range` after which the bytes are copied through a buffer. -/
def isUnsupportedCopy : Errno → Bool
  | .xdev | .inval | .nosys | .notsup => true
  | _ => false

/-- The loop of `copy_range_server` around `copy_file_range`: how much it has copied when it ends.
-/
def copyInKernel (input output : Fd) : ℕ → ℕ → ℕ → ℕ → Run F ℕ
  | 0, _, _, _ => pure 0
  | passes + 1, source, destination, remaining =>
    if remaining = 0 then pure 0
    else do
      let answer ← host (.copyFileRange input source output destination remaining)
      match answer with
      | .ok written =>
        if written = 0 then pure 0
        else do
          let more ← copyInKernel input output passes (source + written) (destination + written)
            (remaining - written)
          pure (written + more)
      | .error errno =>
        if isUnsupportedCopy errno then pure 0 else Call.throw (fromErrno errno)

/-- Whether the whole of a file has been cloned into an empty one. -/
def cloneWhole (input : Fd) (inputOffset : ℕ) (output : Fd) (outputOffset amount : ℕ) :
    Run F Bool :=
  if inputOffset = 0 ∧ outputOffset = 0 then do
    let source ← system (.fstat input) id
    if amount = source.size then do
      let destination ← system (.fstat output) id
      if destination.size = 0 then do
        let answer ← host (.ficlone output input)
        match answer with
        | .ok () => pure true
        | .error _ => pure false
      else pure false
    else pure false
  else pure false

/-- `copy_range_server`. -/
def copyRangeServer (input : Fd) (inputOffset : ℕ) (output : Fd) (outputOffset length : ℕ) :
    Run F ℕ := do
  let stat ← system (.fstat input) id
  let amount := min length (stat.size - inputOffset)
  if amount = 0 then pure 0
  else do
    let cloned ← cloneWhole input inputOffset output outputOffset amount
    if cloned then pure amount
    else do
      let source ← system (.fstat input) id
      let destination ← system (.fstat output) id
      if source.identity = destination.identity ∧ inputOffset < saturatingAdd outputOffset amount ∧
          outputOffset < saturatingAdd inputOffset amount then do
        copyRangeBufferedOverlap input inputOffset output outputOffset amount
        pure amount
      else do
        let copied ← copyInKernel input output amount inputOffset outputOffset amount
        if copied = amount then pure copied
        else do
          copyRangeBuffered input (inputOffset + copied) output (outputOffset + copied)
            (amount - copied)
          pure amount

/-- The loop of `copy_range_in_chunks`. -/
def copyChunksFrom (input output : Fd) : ℕ → ℕ → ℕ → Run F Unit
  | 0, _, _ => pure ()
  | passes + 1, offset, length =>
    if length = 0 then pure ()
    else do
      let copied ← copyRangeServer input offset output offset (min length (8 * copyChunk))
      if copied = 0 then Call.throw .conflict
      else copyChunksFrom input output passes (offset + copied) (length - copied)

/-- `copy_range_in_chunks`. -/
def copyRangeInChunks (input output : Fd) (length : ℕ) : Run F Unit :=
  copyChunksFrom input output length 0 length

/-! ## Attributes -/

/-- `apply_file_changes`. -/
def applyFileChanges (file : Fd) (changes : AttributeChanges) : Run F Stat := do
  optionally changes.size fun size => system (.setLen file size) id
  optionally changes.mode fun mode => system (.setPermissions file (mode % 4096)) id
  provided (changes.accessedUnixMs.isSome || changes.modifiedUnixMs.isSome)
    (system (.setTimes file changes.accessedUnixMs changes.modifiedUnixMs) id)
  system (.fstat file) id

end QuickFS.Export
