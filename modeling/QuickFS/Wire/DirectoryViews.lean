import QuickFS.Cache.Files
import QuickFS.Daemon.Requests
import QuickFS.Lib.Output
import QuickFS.Lib.Packing
import QuickFS.Wire.Frames

/-!
# Directory views that do not fit a frame

`write_directory_view` of `servers/linux/server-daemon` and `list_directory_view_streamed` of
`crates/client-core`.  The daemon sends a view in one frame if that is possible.  If not, it sends
everything but the entries, then the entries in as many frames as it takes, and then a frame that
says that this was all; an entry that is too large for a frame of its own loses the values of its
extended attributes, and the attributes altogether if it is still too large.  The client puts the
pieces together again.

What is assumed of the encoding is in `ViewPostcard`: an envelope and the variants of an enumeration
are written field by field, and a vector as its length and its elements.  How an entry is written is
left open.

The main result is `view_survives_streaming`: all frames can be sent, and the client ends up with
the view, except for what entries have lost on the way.
-/

namespace QuickFS.Wire

open Daemon (makeVersion versionMajor protocolMajor protocolMinor)

/-! ## Messages -/

/-- `PROTOCOL_VERSION`. -/
def protocolVersion : ℕ := makeVersion protocolMajor protocolMinor

/-- `MAX_DIRECTORY_ENTRIES`. -/
def maxDirectoryEntries : ℕ := 1024 * 1024

/-- `DIRECTORY_VIEW_CHUNK_BUDGET`. -/
def directoryViewChunkBudget : ℕ := maxFrameSize - 16 * 1024

/-- A UUID that has to fit its sixteen bytes. -/
abbrev RequestId := BitVec 128

structure Envelope (α : Type) where
  version : ℕ
  requestId : RequestId
  message : α

inductive BatchedMetadata where
  | found (metadata : Metadata)
  | failed (code : ErrorCode)
deriving DecidableEq

inductive Response where
  | helloAck (version : ℕ)
  | authenticateAck
  | pairingProof (certificateFingerprint proof : Bytes)
  | capabilities (capabilities : FilesystemCapabilities)
  | filesystemStats (statistics : FilesystemStats)
  | metadata (metadata : Metadata)
  | directoryListing (revision : DirectoryRevision) (entries : List DirectoryEntry)
  | directoryView (view : DirectoryView)
  | directoryViewStart (revision : DirectoryRevision) (directory parent : Metadata)
      (xattrs : Option XattrSnapshot) (entryCount : ℕ)
  | directoryViewChunk (entries : List DirectoryViewEntry)
  | directoryViewEnd
  | fileOpened (handle : FileHandle) (revision : FileRevision) (size : ℕ)
  | fileCreated (metadata : Metadata) (handle : FileHandle) (revision : FileRevision) (size : ℕ)
  | nodeCreated (metadata : Metadata)
  | hardLinkCreated (metadata : Metadata)
  | nodeRemoved
  | nodeRenamed
  | linkTarget (target : Bytes)
  | attributesChanged (metadata : Metadata)
  | readData (revision : FileRevision) (length : ℕ)
  | writeComplete (written : ℕ) (revision : FileRevision) (size : ℕ)
  | fileFlushed
  | fileSynced
  | directorySynced
  | fileAllocated (revision : FileRevision) (size : ℕ)
  | xattrData (length totalSize : ℕ)
  | xattrSet
  | xattrNames (names : List Name)
  | xattrRemoved
  | rangeCopied (copied : ℕ) (revision : FileRevision) (size : ℕ)
  | fileSeeked (offset : ℕ)
  | ioctlResult (value : ℕ)
  | blockMapped (block : ℕ)
  | dataExchanged
  | volumeNameSet
  | nodesForgotten
  | lockStatus (conflict : Option FileLock)
  | lockUpdated
  | fileClosed
  | pong (nonce : ℕ)
  | error (code : ErrorCode) (message : String)
  | metadataBatch (results : List BatchedMetadata)
deriving DecidableEq

/-! ## How messages are written -/

/-- The fields of an envelope that stand in front of the message: the version, and the identifier as
a vector of sixteen bytes. -/
def envelopeBytes (version : ℕ) (id : RequestId) : Bytes :=
  Format.varint.encode version ++ (Format.varint.encode 16 ++ (Format.fixed 16).encode id)

/-- Postcard, for what the daemon sends.  `entry` is what it makes of an entry of a view; that an
entry cannot be written does not occur. -/
structure ViewPostcard extends Postcard (Envelope Response) where
  entry : DirectoryViewEntry → Bytes
  view_encodes : ∀ version id view, (toAllocvec ⟨version, id, .directoryView view⟩).isSome
  start_encodes : ∀ version id revision directory parent xattrs entryCount,
    (toAllocvec ⟨version, id,
      .directoryViewStart revision directory parent xattrs entryCount⟩).isSome
  -- The variants of `Response` are numbered, and these are the tenth and the eleventh.
  chunk_encodes : ∀ version id entries,
    toAllocvec ⟨version, id, .directoryViewChunk entries⟩ =
      some (envelopeBytes version id ++ (Format.varint.encode 9 ++
        (Format.varint.encode entries.length ++ entries.flatMap entry)))
  end_encodes : ∀ version id,
    toAllocvec ⟨version, id, .directoryViewEnd⟩ =
      some (envelopeBytes version id ++ Format.varint.encode 10)

/-- A frame that the daemon has sent, with the message in it. -/
structure Frame where
  envelope : Envelope Response
  header : BitVec 32
  body : Bytes

def Frame.bytes (frame : Frame) : Bytes := frameBytes frame.header frame.body

/-- What is done with the sending half of a stream. -/
abbrev Sending := Output CodecError Frame

section Program

variable (postcard : ViewPostcard) (zstd : Zstd)

/-! ## The daemon -/

/-- `encoded_len`, of an entry. -/
def encodedLen (entry : DirectoryViewEntry) : ℕ := (postcard.entry entry).length

def writeResponse (id : RequestId) (message : Response) (compress : Bool) : Sending Unit :=
  match encodeFrame postcard.toPostcard zstd ⟨protocolVersion, id, message⟩ compress with
  | .ok (header, body) => Output.emit ⟨⟨protocolVersion, id, message⟩, header, body⟩
  | .error error => throw error

/-- `xattrs.inline_values.clear()`. -/
def clearInlineValues (entry : DirectoryViewEntry) : DirectoryViewEntry :=
  { entry with xattrs := entry.xattrs.map fun xattrs => { xattrs with inlineValues := [] } }

/-- `entry.xattrs = None`. -/
def dropXattrs (entry : DirectoryViewEntry) : DirectoryViewEntry := { entry with xattrs := none }

/-- What is sent of an entry, and how long it is. -/
def shed (entry : DirectoryViewEntry) : DirectoryViewEntry × ℕ :=
  if encodedLen postcard entry > directoryViewChunkBudget then
    if encodedLen postcard (clearInlineValues entry) > directoryViewChunkBudget then
      (dropXattrs (clearInlineValues entry),
        encodedLen postcard (dropXattrs (clearInlineValues entry)))
    else (clearInlineValues entry, encodedLen postcard (clearInlineValues entry))
  else (entry, encodedLen postcard entry)

/-- The loop over the entries, with the `chunk` that has been begun and its `chunk_bytes`. -/
def streamEntries (id : RequestId) (compress : Bool) :
    List DirectoryViewEntry → List DirectoryViewEntry → ℕ → Sending Unit
  | [], chunk, _ =>
    if chunk.isEmpty then pure ()
    else writeResponse postcard zstd id (.directoryViewChunk chunk) compress
  | entry :: entries, chunk, chunkBytes =>
    let shedded := shed postcard entry
    if ¬ chunk.isEmpty ∧ chunkBytes + shedded.2 > directoryViewChunkBudget then do
      writeResponse postcard zstd id (.directoryViewChunk chunk) compress
      streamEntries id compress entries [shedded.1] shedded.2
    else streamEntries id compress entries (chunk ++ [shedded.1]) (chunkBytes + shedded.2)

/-- The header of a view: all of it but the entries. -/
def startOf (view : DirectoryView) : Response :=
  .directoryViewStart view.revision view.directory view.parent view.xattrs view.entries.length

def streamDirectoryView (id : RequestId) (view : DirectoryView) (compress : Bool) :
    Sending Unit := do
  writeResponse postcard zstd id (startOf view) compress
  streamEntries postcard zstd id compress view.entries [] 0
  writeResponse postcard zstd id .directoryViewEnd compress

def writeDirectoryView (id : RequestId) (view : DirectoryView) (compress : Bool) : Sending Unit :=
  let single : Envelope Response := ⟨protocolVersion, id, .directoryView view⟩
  match encodeFrame postcard.toPostcard zstd single compress with
  | .ok (header, body) => Output.emit ⟨single, header, body⟩
  | .error (.tooLarge _) => streamDirectoryView postcard zstd id view compress
  | .error error => throw error

/-! ## The client -/

def responseError : Response → ClientError
  | .error code message => .server code message
  | _ => .unexpectedResponse

/-- A frame that answers another request, or comes from a server of another major version. -/
def misplaced (id : RequestId) (envelope : Envelope Response) : Bool :=
  versionMajor envelope.version ≠ protocolMajor ∨ envelope.requestId ≠ id

/-- The loop over the frames after the first one. -/
def reassemble (id : RequestId) (stream : Bytes) (entries : List DirectoryViewEntry) :
    Except ClientError (List DirectoryViewEntry) :=
  match _h : readFrame postcard.toPostcard zstd stream with
  | .error _ => .error .transport
  | .ok (frame, rest) =>
    if misplaced id frame then .error .unexpectedResponse
    else
      match frame.message with
      | .directoryViewChunk chunk =>
        if saturatingAdd entries.length chunk.length > maxDirectoryEntries then
          .error .unexpectedResponse
        else reassemble id rest (entries ++ chunk)
      | .directoryViewEnd => .ok entries
      | response => .error (responseError response)
termination_by stream.length
decreasing_by exact readFrame_length_lt postcard.toPostcard zstd (by assumption)

/-- `list_directory_view_streamed`, from the answer on.  The number of entries that the server has
announced is only used to reserve memory. -/
def listDirectoryViewStreamed (id : RequestId) (stream : Bytes) :
    Except ClientError DirectoryView :=
  match readFrame postcard.toPostcard zstd stream with
  | .error _ => .error .transport
  | .ok (first, rest) =>
    if misplaced id first then .error .unexpectedResponse
    else
      match first.message with
      | .directoryView view => .ok view
      | .directoryViewStart revision directory parent xattrs _ =>
        match reassemble postcard zstd id rest [] with
        | .error error => .error error
        | .ok entries => .ok ⟨revision, directory, parent, xattrs, entries⟩
      | response => .error (responseError response)

end Program

/-! ## What is sent of an entry -/

section Shed

variable (postcard : ViewPostcard)

variable {entry : DirectoryViewEntry} (entries : List DirectoryViewEntry)

theorem shed_snd : (shed postcard entry).2 = encodedLen postcard (shed postcard entry).1 := by
  rw [shed]
  split
  · split
    · rfl
    · rfl
  · rfl

/-- An entry that is small enough without its extended attributes is small enough when sent. -/
theorem shed_le (h : encodedLen postcard (dropXattrs entry) ≤ directoryViewChunkBudget) :
    encodedLen postcard (shed postcard entry).1 ≤ directoryViewChunkBudget := by
  rw [shed]
  split
  · split
    · exact h
    · simp only
      omega
  · simp only
    omega

/-- What can have become of an entry: it is unchanged, or it was too large for a frame, and has lost
its inline values, or else its extended attributes because it was still too large without them. -/
inductive Arrives (entry : DirectoryViewEntry) : DirectoryViewEntry → Prop
  | unchanged : Arrives entry entry
  | cleared (hlarge : directoryViewChunkBudget < encodedLen postcard entry)
      (hfits : encodedLen postcard (clearInlineValues entry) ≤ directoryViewChunkBudget) :
      Arrives entry (clearInlineValues entry)
  | dropped (hlarge : directoryViewChunkBudget < encodedLen postcard entry)
      (hstill : directoryViewChunkBudget < encodedLen postcard (clearInlineValues entry)) :
      Arrives entry (dropXattrs entry)

theorem arrives_shed (entry : DirectoryViewEntry) :
    Arrives postcard entry (shed postcard entry).1 := by
  rw [shed]
  split
  · rename_i hlarge
    split
    · rename_i hstill
      exact .dropped hlarge hstill
    · rename_i hfits
      exact .cleared hlarge (by omega)
  · exact .unchanged

theorem arrives_map_shed :
    List.Forall₂ (Arrives postcard) entries (entries.map fun e => (shed postcard e).1) := by
  induction entries with
  | nil => exact .nil
  | cons entry _ ih => exact .cons (arrives_shed postcard entry) ih

theorem arrives_refl : List.Forall₂ (Arrives postcard) entries entries :=
  List.forall₂_same.2 fun _ _ => .unchanged

end Shed

/-! ## The frames of a view -/

section Frames

variable (postcard : ViewPostcard) (zstd : Zstd)

/-- The frame that `write_response` makes of a message. -/
structure Framed (id : RequestId) (compress : Bool) (message : Response) (frame : Frame) : Prop where
  envelope : frame.envelope = ⟨protocolVersion, id, message⟩
  encoded : encodeFrame postcard.toPostcard zstd frame.envelope compress =
    .ok (frame.header, frame.body)

variable (id : RequestId) (compress : Bool) {chunk : List DirectoryViewEntry}

/-- Some message can be framed, and what `write_response` then does. -/
theorem writeResponse_writes {id : RequestId} {message : Response} {payload : Bytes}
    (hencoded : postcard.toAllocvec ⟨protocolVersion, id, message⟩ = some payload)
    (hle : payload.length ≤ maxFrameSize) :
    ∃ frame, Framed postcard zstd id compress message frame ∧
      (writeResponse postcard zstd id message compress).Writes () [frame] := by
  obtain ⟨header, body, hframe⟩ := encodeFrame_of_le postcard.toPostcard zstd compress hencoded hle
  refine ⟨⟨_, header, body⟩, ⟨rfl, hframe⟩, ?_⟩
  rw [writeResponse]
  simp only [hframe]
  exact .emit _

theorem envelopeBytes_length_le : (envelopeBytes protocolVersion id).length ≤ 20 := by
  have hversion := Format.varint_length_le protocolVersion 1 (by decide)
  have hsixteen := Format.varint_length_le 16 0 (by decide)
  rw [envelopeBytes, List.length_append, List.length_append, Format.fixed_length]
  omega

theorem flatMap_entry_length (entries : List DirectoryViewEntry) :
    (entries.flatMap postcard.entry).length = Packing.total (encodedLen postcard) entries := by
  rw [List.length_flatMap]
  rfl

/-- A chunk that keeps to the budget can be sent: what stands in front of the entries takes less
than what the budget leaves of a frame. -/
theorem chunk_writes (hcount : chunk.length ≤ maxDirectoryEntries)
    (hbudget : Packing.total (encodedLen postcard) chunk ≤ directoryViewChunkBudget) :
    ∃ frame, Framed postcard zstd id compress (.directoryViewChunk chunk) frame ∧
      (writeResponse postcard zstd id (.directoryViewChunk chunk) compress).Writes () [frame] := by
  refine writeResponse_writes postcard zstd compress (postcard.chunk_encodes _ _ chunk) ?_
  have henvelope := envelopeBytes_length_le id
  have hvariant := Format.varint_length_le 9 0 (by decide)
  have hvector := Format.varint_length_le chunk.length 2 (lt_of_le_of_lt hcount (by decide))
  have hframe : directoryViewChunkBudget + 16 * 1024 = maxFrameSize := by decide
  simp only [List.length_append, flatMap_entry_length]
  omega

theorem end_writes :
    ∃ frame, Framed postcard zstd id compress .directoryViewEnd frame ∧
      (writeResponse postcard zstd id .directoryViewEnd compress).Writes () [frame] := by
  refine writeResponse_writes postcard zstd compress (postcard.end_encodes _ _) ?_
  have henvelope := envelopeBytes_length_le id
  have hvariant := Format.varint_length_le 10 0 (by decide)
  have hframe : 1024 ≤ maxFrameSize := by decide
  rw [List.length_append]
  omega

/-- The chunks that the entries of a view are sent in. -/
def chunksOf (entries chunk : List DirectoryViewEntry) (chunkBytes : ℕ) :
    List (List DirectoryViewEntry) :=
  Packing.pack (encodedLen postcard) directoryViewChunkBudget
    (entries.map fun e => (shed postcard e).1) chunk chunkBytes

/-- **The loop sends the chunks of a greedy packing**, if all of these can be sent. -/
theorem streamEntries_writes {id : RequestId} {compress : Bool} {entries : List DirectoryViewEntry}
    {chunkBytes : ℕ}
    (h : ∀ parcel ∈ chunksOf postcard entries chunk chunkBytes, ∃ frame,
      Framed postcard zstd id compress (.directoryViewChunk parcel) frame ∧
      (writeResponse postcard zstd id (.directoryViewChunk parcel) compress).Writes () [frame]) :
    ∃ frames,
      List.Forall₂ (fun parcel => Framed postcard zstd id compress (.directoryViewChunk parcel))
        (chunksOf postcard entries chunk chunkBytes) frames ∧
      (streamEntries postcard zstd id compress entries chunk chunkBytes).Writes () frames := by
  induction entries generalizing chunk chunkBytes with
  | nil =>
    rw [chunksOf, List.map_nil, Packing.pack] at h ⊢
    rw [streamEntries]
    split at h
    · rename_i hempty
      rw [if_pos hempty, if_pos hempty]
      exact ⟨[], .nil, .pure ()⟩
    rename_i hempty
    rw [if_neg hempty, if_neg hempty]
    obtain ⟨frame, hframed, hwrites⟩ := h chunk List.mem_cons_self
    exact ⟨[frame], .cons hframed .nil, hwrites⟩
  | cons _ _ ih =>
    rw [chunksOf, List.map_cons, Packing.pack] at h ⊢
    rw [streamEntries]
    simp only [shed_snd]
    split at h
    · rename_i hfull
      rw [if_pos hfull, if_pos hfull]
      obtain ⟨frame, hframed, hwrites⟩ := h chunk List.mem_cons_self
      obtain ⟨frames, hframes, hrest⟩ :=
        ih fun parcel hparcel => h parcel (List.mem_cons_of_mem _ hparcel)
      exact ⟨frame :: frames, .cons hframed hframes, hwrites.bind hrest⟩
    · rename_i hroom
      rw [if_neg hroom, if_neg hroom]
      exact ih h

end Frames

/-! ## Reading the frames -/

section Reading

variable (postcard : ViewPostcard) (zstd : Zstd) {id : RequestId} {compress : Bool}

variable {frame : Frame} {entries : List DirectoryViewEntry}

/-- The next frame of a stream is read, and is in place. -/
theorem Framed.read {message : Response} (h : Framed postcard zstd id compress message frame)
    (rest : Bytes) :
    readFrame postcard.toPostcard zstd (frame.bytes ++ rest) =
      .ok (⟨protocolVersion, id, message⟩, rest) := by
  rw [← h.envelope]
  exact readFrame_frameBytes postcard.toPostcard zstd h.encoded rest

theorem not_misplaced (message : Response) :
    misplaced id ⟨protocolVersion, id, message⟩ = false := by
  have hmajor : versionMajor protocolVersion = protocolMajor := by decide
  simp [misplaced, hmajor]

theorem reassemble_chunk {chunk : List DirectoryViewEntry} (rest : Bytes)
    (h : Framed postcard zstd id compress (.directoryViewChunk chunk) frame)
    (hcount : entries.length + chunk.length ≤ maxDirectoryEntries) :
    reassemble postcard zstd id (frame.bytes ++ rest) entries =
      reassemble postcard zstd id rest (entries ++ chunk) := by
  have hsum : ¬ saturatingAdd entries.length chunk.length > maxDirectoryEntries := by
    rw [saturatingAdd_eq (le_trans hcount (by decide))]
    omega
  rw [reassemble]
  split
  · rename_i error hread
    rw [h.read] at hread
    cases hread
  rename_i envelope remaining hread
  rw [h.read] at hread
  cases hread
  rw [not_misplaced]
  simp only [Bool.false_eq_true, if_false, if_neg hsum]

theorem reassemble_end (rest : Bytes)
    (h : Framed postcard zstd id compress .directoryViewEnd frame) :
    reassemble postcard zstd id (frame.bytes ++ rest) entries = .ok entries := by
  rw [reassemble]
  split
  · rename_i error hread
    rw [h.read] at hread
    cases hread
  rename_i envelope remaining hread
  rw [h.read] at hread
  cases hread
  rw [not_misplaced]
  rfl

/-- The client puts chunks together in order, until the end is announced. -/
theorem reassemble_chunks {chunks : List (List DirectoryViewEntry)} {frames : List Frame}
    {last : Frame}
    (hframes : List.Forall₂
      (fun parcel => Framed postcard zstd id compress (.directoryViewChunk parcel)) chunks frames)
    (hlast : Framed postcard zstd id compress .directoryViewEnd last)
    (hcount : entries.length + chunks.flatten.length ≤ maxDirectoryEntries) :
    reassemble postcard zstd id (frames.flatMap Frame.bytes ++ last.bytes) entries =
      .ok (entries ++ chunks.flatten) := by
  induction hframes generalizing entries with
  | nil =>
    have hend : reassemble postcard zstd id (last.bytes ++ []) entries = .ok entries :=
      reassemble_end postcard zstd [] hlast
    rw [List.append_nil] at hend
    rw [List.flatMap_nil, List.nil_append, hend, List.flatten_nil, List.append_nil]
  | @cons chunk frame chunks frames hframe hframes ih =>
    rw [List.flatten_cons, List.length_append] at hcount
    rw [List.flatMap_cons, List.append_assoc, reassemble_chunk postcard zstd _ hframe (by omega),
      ih (by rw [List.length_append]; omega), List.flatten_cons, List.append_assoc]

end Reading

/-! ## The result -/

section Result

variable (postcard : ViewPostcard) (zstd : Zstd)

variable {id : RequestId} {compress : Bool} {frame : Frame}

/-- A frame can be sent because its payload is not too long. -/
theorem Framed.payload {message : Response} (h : Framed postcard zstd id compress message frame) :
    ∃ payload, postcard.toAllocvec frame.envelope = some payload ∧
      payload.length ≤ maxFrameSize := by
  obtain ⟨payload, hencoded, hle, -⟩ := encodeFrame_cases postcard.toPostcard zstd h.encoded
  exact ⟨payload, hencoded, hle⟩

theorem payload_of_mem_chunks {chunks : List (List DirectoryViewEntry)} {frames : List Frame}
    (h : List.Forall₂ (fun parcel => Framed postcard zstd id compress (.directoryViewChunk parcel))
      chunks frames) (hframe : frame ∈ frames) :
    ∃ payload, postcard.toAllocvec frame.envelope = some payload ∧
      payload.length ≤ maxFrameSize := by
  induction h with
  | nil => cases hframe
  | cons hfirst _ ih =>
    rcases List.mem_cons.1 hframe with rfl | hframe
    · exact hfirst.payload
    · exact ih hframe

/-- A view that is streamed: the frames, and what the client makes of them. -/
theorem streamDirectoryView_spec (id : RequestId) (view : DirectoryView) (compress : Bool)
    (hcount : view.entries.length ≤ maxDirectoryEntries)
    (hstart : ∀ payload, postcard.toAllocvec ⟨protocolVersion, id, startOf view⟩ = some payload →
      payload.length ≤ maxFrameSize)
    (hstripped : ∀ entry ∈ view.entries,
      encodedLen postcard (dropXattrs entry) ≤ directoryViewChunkBudget) :
    ∃ frames, (streamDirectoryView postcard zstd id view compress).Writes () frames ∧
      (∀ frame ∈ frames, ∃ payload, postcard.toAllocvec frame.envelope = some payload ∧
        payload.length ≤ maxFrameSize) ∧
      listDirectoryViewStreamed postcard zstd id (frames.flatMap Frame.bytes) =
        .ok { view with entries := view.entries.map fun e => (shed postcard e).1 } := by
  obtain ⟨header, hheader⟩ := Option.isSome_iff_exists.1 (postcard.start_encodes protocolVersion id
    view.revision view.directory view.parent view.xattrs view.entries.length)
  obtain ⟨first, hfirst, hfirstWrites⟩ :=
    writeResponse_writes postcard zstd compress hheader (hstart header hheader)
  obtain ⟨last, hlast, hlastWrites⟩ := end_writes postcard zstd id compress
  have hflatten : (chunksOf postcard view.entries [] 0).flatten =
      view.entries.map fun e => (shed postcard e).1 := by
    rw [chunksOf, Packing.flatten_pack, List.nil_append]
  -- No chunk is too heavy, because no entry is once it has been shed.
  have hbudget : ∀ parcel ∈ chunksOf postcard view.entries [] 0,
      Packing.total (encodedLen postcard) parcel ≤ directoryViewChunkBudget := by
    refine Packing.pack_le (encodedLen postcard) directoryViewChunkBudget ?_ (Nat.zero_le _)
    intro entry hentry
    obtain ⟨original, horiginal, rfl⟩ := List.mem_map.1 hentry
    exact shed_le postcard (hstripped original horiginal)
  have hlength : (chunksOf postcard view.entries [] 0).flatten.length ≤ maxDirectoryEntries := by
    rw [hflatten, List.length_map]
    exact hcount
  obtain ⟨chunks, hchunks, hchunksWrite⟩ := streamEntries_writes postcard zstd
    fun parcel hparcel => chunk_writes postcard zstd id compress
      ((Packing.length_le_of_mem hparcel).trans hlength) (hbudget parcel hparcel)
  refine ⟨[first] ++ (chunks ++ [last]), hfirstWrites.bind (hchunksWrite.bind hlastWrites), ?_, ?_⟩
  · intro frame hframe
    rcases List.mem_append.1 hframe with hframe | hframe
    · rw [List.mem_singleton.1 hframe]
      exact hfirst.payload
    rcases List.mem_append.1 hframe with hframe | hframe
    · exact payload_of_mem_chunks postcard zstd hchunks hframe
    · rw [List.mem_singleton.1 hframe]
      exact hlast.payload
  · have hread : (([first] ++ (chunks ++ [last])).flatMap Frame.bytes) =
        first.bytes ++ (chunks.flatMap Frame.bytes ++ last.bytes) := by
      simp
    rw [listDirectoryViewStreamed, hread, hfirst.read]
    simp only [not_misplaced, Bool.false_eq_true, if_false]
    rw [reassemble_chunks postcard zstd hchunks hlast (by simpa using hlength)]
    simp only [hflatten, List.nil_append]

/-- **Streaming loses nothing but what it sheds.**  If the header of a view fits a frame, and every
entry without its extended attributes fits a chunk, then all frames that the daemon makes of the
view are within the limit and get sent, and the client reads from them the view with its entries in
the same order, each of them as it was or without what made it too large. -/
theorem view_survives_streaming (id : RequestId) (view : DirectoryView) (compress : Bool)
    (hcount : view.entries.length ≤ maxDirectoryEntries)
    (hstart : ∀ payload, postcard.toAllocvec ⟨protocolVersion, id, startOf view⟩ = some payload →
      payload.length ≤ maxFrameSize)
    (hstripped : ∀ entry ∈ view.entries,
      encodedLen postcard (dropXattrs entry) ≤ directoryViewChunkBudget) :
    ∃ frames entries,
      (writeDirectoryView postcard zstd id view compress).on [] = (.ok (), frames) ∧
      (∀ frame ∈ frames, ∃ payload, postcard.toAllocvec frame.envelope = some payload ∧
        payload.length ≤ maxFrameSize) ∧
      listDirectoryViewStreamed postcard zstd id (frames.flatMap Frame.bytes) =
        .ok { view with entries := entries } ∧
      List.Forall₂ (Arrives postcard) view.entries entries := by
  obtain ⟨single, hsingle⟩ :=
    Option.isSome_iff_exists.1 (postcard.view_encodes protocolVersion id view)
  rcases Nat.lt_or_ge maxFrameSize single.length with hlarge | hfits
  · obtain ⟨frames, hwrites, hpayloads, hread⟩ :=
      streamDirectoryView_spec postcard zstd id view compress hcount hstart hstripped
    refine ⟨frames, _, ?_, hpayloads, hread, arrives_map_shed postcard view.entries⟩
    simp only [writeDirectoryView, encodeFrame_of_lt postcard.toPostcard zstd compress hsingle hlarge]
    exact hwrites []
  · obtain ⟨header, body, hframe⟩ :=
      encodeFrame_of_le postcard.toPostcard zstd compress hsingle hfits
    have hframed : Framed postcard zstd id compress (.directoryView view)
        ⟨⟨protocolVersion, id, .directoryView view⟩, header, body⟩ := ⟨rfl, hframe⟩
    refine ⟨[⟨⟨protocolVersion, id, .directoryView view⟩, header, body⟩], view.entries, ?_, ?_, ?_,
      arrives_refl postcard view.entries⟩
    · simp only [writeDirectoryView, hframe]
      exact Output.Writes.emit _ []
    · intro frame hmem
      rw [List.mem_singleton.1 hmem]
      exact hframed.payload
    rw [List.flatMap_singleton]
    have hread := hframed.read postcard zstd []
    rw [List.append_nil] at hread
    rw [listDirectoryViewStreamed, hread]
    simp only [not_misplaced, Bool.false_eq_true, if_false]

end Result

/-! ## An encoding

The formats that `crates/cache` could use will do for what is inside the messages. -/

namespace Plain

open Files.Plain (metadata directoryEntry)

def name : Format Name := .vec .byte

def inlineXattr : Format InlineXattr :=
  (Format.pair name (.vec .byte)).map (fun x => (x.name, x.value)) (fun p => some ⟨p.1, p.2⟩)
    fun _ => rfl

def xattrSnapshot : Format XattrSnapshot :=
  (Format.pair (.vec name) (.vec inlineXattr)).map (fun x => (x.names, x.inlineValues))
    (fun p => some ⟨p.1, p.2⟩) fun _ => rfl

def viewEntry : Format DirectoryViewEntry :=
  (Format.pair directoryEntry (.option xattrSnapshot)).map (fun e => (e.entry, e.xattrs))
    (fun p => some ⟨p.1, p.2⟩) fun _ => rfl

/-- All of a view but the entries. -/
def viewHead : Format (DirectoryRevision × Metadata × Metadata × Option XattrSnapshot) :=
  .pair .varint (.pair metadata (.pair metadata (.option xattrSnapshot)))

def view : Format DirectoryView :=
  (Format.pair viewHead (.vec viewEntry)).map
    (fun v => ((v.revision, v.directory, v.parent, v.xattrs), v.entries))
    (fun p => some ⟨p.1.1, p.1.2.1, p.1.2.2.1, p.1.2.2.2, p.2⟩) fun _ => rfl

def envelope : Format (ℕ × RequestId) :=
  (Format.pair .varint (.pair .varint (.fixed 16))).map (fun e => (e.1, 16, e.2))
    (fun p => if p.2.1 = 16 then some (p.1, p.2.2) else none) fun _ => rfl

/-- The messages of which a view is made; the others are not written. -/
def message : Response → Option Bytes
  | .directoryView v => some (Format.varint.encode 7 ++ view.encode v)
  | .directoryViewStart revision directory parent xattrs entryCount =>
    some (Format.varint.encode 8 ++
      (Format.pair viewHead .varint).encode ((revision, directory, parent, xattrs), entryCount))
  | .directoryViewChunk entries =>
    some (Format.varint.encode 9 ++ (Format.vec viewEntry).encode entries)
  | .directoryViewEnd => some (Format.varint.encode 10)
  | _ => none

def messageOf (input : Bytes) : Option Response :=
  match Format.varint.decode input with
  | some (7, rest) => (view.decode rest).map fun r => .directoryView r.1
  | some (8, rest) =>
    ((Format.pair viewHead .varint).decode rest).map fun r =>
      .directoryViewStart r.1.1.1 r.1.1.2.1 r.1.1.2.2.1 r.1.1.2.2.2 r.1.2
  | some (9, rest) => ((Format.vec viewEntry).decode rest).map fun r => .directoryViewChunk r.1
  | some (10, _) => some .directoryViewEnd
  | _ => none

theorem parsed {α : Type} {F : Format α} {a : α} : F.decode (F.encode a) = some (a, []) := by
  have h := F.decode_encode a []
  rwa [List.append_nil] at h

theorem messageOf_message {response : Response} {bytes : Bytes}
    (h : message response = some bytes) : messageOf bytes = some response := by
  rw [message.eq_def] at h
  split at h
  · rw [← Option.some.inj h, messageOf, Format.decode_encode]
    simp only [parsed, Option.map_some]
  · rw [← Option.some.inj h, messageOf, Format.decode_encode]
    simp only [parsed, Option.map_some]
  · rw [← Option.some.inj h, messageOf, Format.decode_encode]
    simp only [parsed, Option.map_some]
  · rw [← Option.some.inj h, messageOf, parsed]
    rfl
  · cases h

def postcard : ViewPostcard where
  toAllocvec e := (message e.message).map (envelope.encode (e.version, e.requestId) ++ ·)
  fromBytes input := (envelope.decode input).bind fun r =>
    (messageOf r.2).map fun response => ⟨r.1.1, r.1.2, response⟩
  fromBytes_toAllocvec {value bytes} h := by
    obtain ⟨payload, hpayload, rfl⟩ := Option.map_eq_some_iff.1 h
    rw [envelope.decode_encode, Option.bind_some, messageOf_message hpayload]
    rfl
  entry := viewEntry.encode
  view_encodes _ _ _ := rfl
  start_encodes _ _ _ _ _ _ _ := rfl
  chunk_encodes _ _ _ := rfl
  end_encodes _ _ := rfl

/-- A compression that knows only runs of zeros. -/
def zstd : Zstd where
  compress payload :=
    if payload = List.replicate payload.length 0 then some (Format.varint.encode payload.length)
    else none
  decompress input capacity := (Format.varint.decode input).bind fun r =>
    if r.1 ≤ capacity then some (List.replicate r.1 0) else none
  decompress_compress {payload compressed capacity} h hle := by
    split at h
    · rename_i hzeros
      rw [← Option.some.inj h, parsed, Option.bind_some, if_pos hle, ← hzeros]
    · cases h

def someMetadata (node : NodeId) (kind : NodeKind) : Metadata :=
  ⟨node, kind, 0, 0, 0, 0, 0, 0, none, none, 1, 0, 0⟩

/-- A file whose one extended attribute takes more than a frame. -/
def someEntry : DirectoryViewEntry :=
  ⟨⟨1, [97], .file, someMetadata 1 .file⟩, some ⟨[[120]], [⟨[120], List.replicate (2 ^ 20) 0⟩]⟩⟩

/-- One of many names of a file. -/
def someLink (i : ℕ) : DirectoryViewEntry :=
  ⟨⟨1, [i % 64, i / 64 % 64, i / 4096].map fun digit => UInt8.ofNat (digit + 64), .file,
    someMetadata 1 .file⟩, none⟩

theorem length_someLink (i : ℕ) : encodedLen postcard (someLink i) = 62 := rfl

def someLinks (n : ℕ) : List DirectoryViewEntry := (List.range n).map someLink

theorem length_someLinks (n : ℕ) : (someLinks n).length = n := by
  rw [someLinks, List.length_map, List.length_range]

def viewOf (entries : List DirectoryViewEntry) : DirectoryView :=
  ⟨0, someMetadata 0 .directory, someMetadata 0 .directory, none, entries⟩

theorem start_fits {entries : List DirectoryViewEntry} {n : ℕ} (hcount : entries.length = n)
    (h : (postcard.toAllocvec ⟨protocolVersion, 1, .directoryViewStart 0 (someMetadata 0 .directory)
      (someMetadata 0 .directory) none n⟩).all fun payload => payload.length ≤ 1024) :
    ∀ payload, postcard.toAllocvec ⟨protocolVersion, 1, startOf (viewOf entries)⟩ = some payload →
      payload.length ≤ maxFrameSize := by
  subst hcount
  intro payload hpayload
  exact le_trans (of_decide_eq_true ((Option.all_eq_true _ _).1 h payload hpayload)) (by decide)

end Plain

open Plain in
/-- The view of a directory whose entries take several frames, one of which has to be shed. -/
theorem some_view_survives :
    let view : DirectoryView := viewOf (someEntry :: someLinks 60000)
    ∃ frames entries,
      (writeDirectoryView postcard zstd 1 view true).on [] = (.ok (), frames) ∧
      (∀ frame ∈ frames, ∃ payload, postcard.toAllocvec frame.envelope = some payload ∧
        payload.length ≤ maxFrameSize) ∧
      listDirectoryViewStreamed postcard zstd 1 (frames.flatMap Frame.bytes) =
        .ok { view with entries := entries } ∧
      List.Forall₂ (Arrives postcard) view.entries entries := by
  have hlength : (someEntry :: someLinks 60000).length = 60001 := by
    rw [List.length_cons, length_someLinks]
  refine view_survives_streaming postcard zstd 1 (viewOf (someEntry :: someLinks 60000)) true ?_
    (start_fits hlength (by decide +kernel)) fun entry hentry => ?_
  · exact hlength.trans_le (by decide)
  rcases List.mem_cons.1 hentry with rfl | hentry
  · decide +kernel
  · obtain ⟨i, -, rfl⟩ := List.mem_map.1 hentry
    exact (length_someLink i).trans_le (by decide)

end QuickFS.Wire
