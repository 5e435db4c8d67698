import QuickFS.Lib.Machine
import QuickFS.Wire.DirectoryViews

/-!
# What is sent to a peer of an older version

Both sides of a connection speak version 6 of the protocol, but not the same minor version of it.
The specification says with which minor version streamed directory views (6.1), compressed frames
(6.3) and batches of metadata (6.4) came, and a peer must not be sent what it does not know.

The first part is the daemon: what `handle` sends for a request, given what the task that handles it
has come to (`Daemon.Stage`) and what the export session has answered.  Every request carries the
version of the peer.  The second part is the client: `QuicClient`, `negotiate` and
`get_metadata_batch`.  The client learns the version of the server from `HelloAck`.

Compression and batches keep to the rule on both sides.  Streaming does not: `write_directory_view`
is not told who it writes to.  `minor_versions_respected` says exactly when a reply contains
something that the peer does not know, and `baseline_peer_gets_stream` is a request of a 6.0 peer
for which it does.
-/

namespace QuickFS.Wire

open Daemon (makeVersion versionMajor protocolMajor protocolMinor)

/-! ## Versions -/

def versionMinor (version : ℕ) : ℕ := version % 256

/-- The minor version with which streamed directory views came; the code has no name for it. -/
def minorStreamedViews : ℕ := 1

/-- `MINOR_FRAME_COMPRESSION`. -/
def minorFrameCompression : ℕ := 3

/-- `MINOR_METADATA_BATCH`. -/
def minorMetadataBatch : ℕ := 4

/-- `MAX_METADATA_BATCH`. -/
def maxMetadataBatch : ℕ := 4096

/-- What `peer_supports_frame_compression` and `peer_supports_metadata_batch` have in common. -/
def peerSupports (minor peerVersion : ℕ) : Bool :=
  versionMajor peerVersion = protocolMajor ∧ versionMinor peerVersion ≥ minor

def peerSupportsFrameCompression (peerVersion : ℕ) : Bool :=
  peerSupports minorFrameCompression peerVersion

def peerSupportsMetadataBatch (peerVersion : ℕ) : Bool := peerSupports minorMetadataBatch peerVersion

theorem versionMinor_makeVersion {minor : ℕ} (h : minor < 256) {major : ℕ} :
    versionMinor (makeVersion major minor) = minor := by
  rw [versionMinor, makeVersion]
  omega

theorem versionMajor_makeVersion {major minor : ℕ} :
    versionMajor (makeVersion major minor) = major := by
  rw [versionMajor, makeVersion]
  omega

/-- A body of a frame that has been compressed. -/
def IsCompressed (header : BitVec 32) : Prop := ∃ length, parseFrameHeader header = .ok (true, length)

theorem not_isCompressed {α : Type} {postcard : Postcard α} {zstd : Zstd} {value : α}
    {header : BitVec 32} {body : Bytes}
    (h : encodeFrame postcard zstd value false = .ok (header, body)) : ¬ IsCompressed header := by
  rintro ⟨length, hparse⟩
  obtain ⟨payload, -, hle, hraw | ⟨hcompress, -⟩⟩ := encodeFrame_cases postcard zstd h
  · obtain ⟨rfl, rfl⟩ := hraw
    rw [parse_raw hle] at hparse
    cases hparse
  · cases hcompress

/-! ## The daemon -/

/-- What the export session answers to the operations it is asked for, and to the nodes of a batch,
one by one.  The limits that the daemon checks before it asks are among the errors. -/
structure Answers where
  operation : (call : RemoteCall) → Except (ErrorCode × String) call.Output
  batch : ℕ → Except (ErrorCode × String) Metadata

def errorResponse (error : ErrorCode × String) : Response := .error error.1 error.2

/-- The response to an operation that has succeeded.  The data of a read follow the frame and are
not in it. -/
def operationResponse : (call : RemoteCall) → call.Output → Response
  | .ping _, nonce => .pong nonce
  | .capabilities, capabilities => .capabilities capabilities
  | .statFilesystem, statistics => .filesystemStats statistics
  | .getMetadata _, metadata => .metadata metadata
  | .listDirectorySnapshot _, snapshot => .directoryListing snapshot.revision snapshot.entries
  | .listDirectoryView _ _, view => .directoryView view
  | .openFileWithOptions _ _, opened => .fileOpened opened.handle opened.revision opened.size
  | .createFile _ _ _ _, created =>
    .fileCreated created.metadata created.opened.handle created.opened.revision created.opened.size
  | .createDirectory _ _ _, metadata => .nodeCreated metadata
  | .createSymlink _ _ _, metadata => .nodeCreated metadata
  | .createHardLink _ _ _, metadata => .hardLinkCreated metadata
  | .createSpecialNode _ _ _ _ _ _, metadata => .nodeCreated metadata
  | .removeNode _ _ _, _ => .nodeRemoved
  | .renameNode _ _ _ _ _, _ => .nodeRenamed
  | .readLink _, target => .linkTarget target
  | .setAttributes _ _ _, metadata => .attributesChanged metadata
  | .readRangeVersioned _ _ _, read => .readData read.revision read.data.length
  | .writeRange _ _ _, result => .writeComplete result.written result.revision result.size
  | .flushFile _ _, _ => .fileFlushed
  | .syncFile _ _, _ => .fileSynced
  | .syncDirectory _, _ => .directorySynced
  | .allocateFile _ _ _, result => .fileAllocated result.revision result.size
  | .getXattr _ _ _ _, read => .xattrData read.data.length read.totalSize
  | .setXattr _ _ _ _ _, _ => .xattrSet
  | .listXattrs _, names => .xattrNames names
  | .removeXattr _ _, _ => .xattrRemoved
  | .copyFileRange _ _ _ _ _, result => .rangeCopied result.written result.revision result.size
  | .seekFile _ _ _, offset => .fileSeeked offset
  | .safeIoctl _ _, value => .ioctlResult value
  | .mapBlock _ _ _, block => .blockMapped block
  | .exchangeData _ _ _ _ _, _ => .dataExchanged
  | .setVolumeName _, _ => .volumeNameSet
  | .forgetNodes _, _ => .nodesForgotten
  | .getLock _ _, conflict => .lockStatus conflict
  | .setLock _ _ _, _ => .lockUpdated
  | .closeFile _, _ => .fileClosed

/-- `Request::GetMetadataBatch`. -/
def batchResponse (answers : Answers) (nodes : List NodeId) : Response :=
  if nodes.length > maxMetadataBatch then
    .error .tooLarge ("metadata batch of " ++ toString nodes.length ++ " exceeds the 4096 limit")
  else
    .metadataBatch ((List.range nodes.length).map fun i =>
      match answers.batch i with
      | .ok metadata => .found metadata
      | .error error => .failed error.1)

section Daemon

variable (postcard : ViewPostcard) (zstd : Zstd) (answers : Answers)

def directoryListingResponse (id : RequestId) (revision : DirectoryRevision)
    (entries : List DirectoryEntry) : Response :=
  match encode postcard.toPostcard ⟨protocolVersion, id, .directoryListing revision entries⟩ with
  | .ok _ => .directoryListing revision entries
  | .error _ => .error .tooLarge "directory listing exceeds the control-frame limit"

/-- What is sent for a request that has been with the export session. -/
def writeExported (id : RequestId) (compress : Bool) : Daemon.Request → Sending Unit
  | .operation (.listDirectoryView node options) =>
    match answers.operation (.listDirectoryView node options) with
    | .ok view => writeDirectoryView postcard zstd id view compress
    | .error error => writeResponse postcard zstd id (errorResponse error) compress
  | .operation (.listDirectorySnapshot node) =>
    match answers.operation (.listDirectorySnapshot node) with
    | .ok snapshot =>
      writeResponse postcard zstd id
        (directoryListingResponse postcard id snapshot.revision snapshot.entries) compress
    | .error error => writeResponse postcard zstd id (errorResponse error) compress
  | .operation call =>
    match answers.operation call with
    | .ok output => writeResponse postcard zstd id (operationResponse call output) compress
    | .error error => writeResponse postcard zstd id (errorResponse error) compress
  | .getMetadataBatch nodes => writeResponse postcard zstd id (batchResponse answers nodes) compress
  -- The others do not get to the export session.
  | .hello | .pair .. | .authenticate .. | .ping _ => pure ()

/-- What is sent for a response of the daemon. -/
def writeReply (id : RequestId) (compress : Bool) (request : Daemon.Request) :
    Daemon.Response → Sending Unit
  | .helloAck version => writeResponse postcard zstd id (.helloAck version) compress
  | .authenticateAck => writeResponse postcard zstd id .authenticateAck compress
  | .pairingProof fingerprint proof =>
    writeResponse postcard zstd id (.pairingProof fingerprint proof) compress
  | .pong nonce => writeResponse postcard zstd id (.pong nonce) compress
  | .error code message => writeResponse postcard zstd id (.error code message) compress
  | .exported => writeExported postcard zstd answers id compress request

/-- Whether the replies to a request may be compressed; a peer of another major version gets its
error as it is. -/
def compressFor (peerVersion : ℕ) : Bool :=
  if versionMajor peerVersion ≠ protocolMajor then false else peerSupportsFrameCompression peerVersion

/-- What a task sends when it is next polled: a task sends its response at the end, and one that
finds the daemon busy sends that while it still holds a lock. -/
def sending (id : RequestId) (task : Daemon.RequestTask) : Sending Unit :=
  match task.stage with
  | .responding response =>
    writeReply postcard zstd answers id (compressFor task.version) task.request response
  | .busy =>
    writeResponse postcard zstd id
      (.error .timeout "authentication capacity is busy; retry later") (compressFor task.version)
  | _ => pure ()

/-- The frames that the daemon sends when it polls task `t`, which handles the request with the
identifier `id`; when the peer goes away or the deadline passes, only some of them. -/
def framesSent (d : Daemon.State) (t : ℕ) (id : RequestId) : List Frame :=
  match d.tasks[t]? with
  | some task => ((sending postcard zstd answers id task).on []).2
  | none => []

end Daemon

/-! ## What a peer knows -/

/-- The messages of a streamed view. -/
def Response.isStreamed : Response → Bool
  | directoryViewStart .. | directoryViewChunk _ | directoryViewEnd => true
  | _ => false

/-- A frame that may be sent to a peer of version `6.m` which has sent `request`. -/
structure Known (m : ℕ) (request : Daemon.Request) (frame : Frame) : Prop where
  compression : m < minorFrameCompression → ¬ IsCompressed frame.header
  streaming : m < minorStreamedViews → frame.envelope.message.isStreamed = false
  batching : ∀ results, frame.envelope.message = .metadataBatch results →
    ∃ nodes, request = .getMetadataBatch nodes

section Replies

variable (postcard : ViewPostcard) (zstd : Zstd) (answers : Answers)

variable {Q : Frame → Prop} {id : RequestId} {message : Response} {compress : Bool} {m : ℕ}
  {request : Daemon.Request}

/-- What `write_response` may send. -/
theorem writeResponse_only
    (h : ∀ header body,
      encodeFrame postcard.toPostcard zstd ⟨protocolVersion, id, message⟩ compress =
        .ok (header, body) → Q ⟨⟨protocolVersion, id, message⟩, header, body⟩) :
    Output.Only Q (writeResponse postcard zstd id message compress) := by
  rw [writeResponse]
  split
  · rename_i header body hframe
    exact .emit (h header body hframe)
  · exact .throw _

/-- The same of the loop over the entries: it sends chunks. -/
theorem streamEntries_only
    (h : ∀ chunk, Output.Only Q
      (writeResponse postcard zstd id (.directoryViewChunk chunk) compress))
    (entries chunk : List DirectoryViewEntry) (chunkBytes : ℕ) :
    Output.Only Q (streamEntries postcard zstd id compress entries chunk chunkBytes) := by
  induction entries generalizing chunk chunkBytes with
  | nil =>
    rw [streamEntries]
    split
    · exact .pure ()
    · exact h chunk
  | cons _ _ ih =>
    rw [streamEntries]
    split
    · exact (h chunk).bind fun _ => ih _ _
    · exact ih _ _

/-- And of a view. -/
theorem writeDirectoryView_only (view : DirectoryView)
    (hsingle : Output.Only Q (writeResponse postcard zstd id (.directoryView view) compress))
    (hstream : ∀ message : Response, message.isStreamed = true →
      Output.Only Q (writeResponse postcard zstd id message compress)) :
    Output.Only Q (writeDirectoryView postcard zstd id view compress) := by
  rw [writeDirectoryView]
  split
  · rename_i header body hframe
    rw [writeResponse, hframe] at hsingle
    exact hsingle
  · exact (hstream _ rfl).bind fun _ =>
      (streamEntries_only postcard zstd (fun _ => hstream _ rfl) _ _ _).bind fun _ => hstream _ rfl
  · exact .throw _

/-- A message that is no news to the peer, sent as compressed as it may be. -/
theorem writeResponse_known (hcompress : m < minorFrameCompression → compress = false)
    (hstream : m < minorStreamedViews → message.isStreamed = false)
    (hbatch : ∀ results, message = .metadataBatch results →
      ∃ nodes, request = .getMetadataBatch nodes) :
    Output.Only (Known m request) (writeResponse postcard zstd id message compress) := by
  refine writeResponse_only postcard zstd fun header body hframe => ⟨?_, hstream, hbatch⟩
  intro hm
  rw [hcompress hm] at hframe
  exact not_isCompressed hframe

/-- The responses to operations are neither streamed nor batches. -/
theorem operationResponse_plain {call : RemoteCall} {output : call.Output} :
    (operationResponse call output).isStreamed = false ∧
      ∀ results, operationResponse call output ≠ .metadataBatch results := by
  cases call <;> exact ⟨rfl, fun _ => nofun⟩

theorem directoryListingResponse_plain {revision : DirectoryRevision}
    {entries : List DirectoryEntry} :
    (directoryListingResponse postcard id revision entries).isStreamed = false ∧
      ∀ results, directoryListingResponse postcard id revision entries ≠ .metadataBatch results := by
  rw [directoryListingResponse]
  split
  · exact ⟨rfl, fun _ => nofun⟩
  · exact ⟨rfl, fun _ => nofun⟩

theorem batchResponse_isStreamed (nodes : List NodeId) :
    (batchResponse answers nodes).isStreamed = false := by
  rw [batchResponse]
  split
  · rfl
  · rfl

/-- The daemon has a view for the peer that does not fit a frame, and begins to stream it: the
header of the view does fit one. -/
def Streams (id : RequestId) (task : Daemon.RequestTask) : Prop :=
  task.stage = .responding .exported ∧ ∃ node options view,
    task.request = .operation (.listDirectoryView node options) ∧
    answers.operation (.listDirectoryView node options) = .ok view ∧
    (∀ payload, postcard.toAllocvec ⟨protocolVersion, id, .directoryView view⟩ = some payload →
      maxFrameSize < payload.length) ∧
    ∀ payload, postcard.toAllocvec ⟨protocolVersion, id, startOf view⟩ = some payload →
      payload.length ≤ maxFrameSize

variable {view : DirectoryView} {task : Daemon.RequestTask}

/-- The first frame of a view that is streamed. -/
theorem start_mem_writeDirectoryView (compress : Bool)
    (hlarge : ∀ payload, postcard.toAllocvec ⟨protocolVersion, id, .directoryView view⟩ =
      some payload → maxFrameSize < payload.length)
    (hstart : ∀ payload, postcard.toAllocvec ⟨protocolVersion, id, startOf view⟩ = some payload →
      payload.length ≤ maxFrameSize) :
    ∃ frame ∈ ((writeDirectoryView postcard zstd id view compress).on []).2,
      frame.envelope.message = startOf view := by
  obtain ⟨single, hsingle⟩ :=
    Option.isSome_iff_exists.1 (postcard.view_encodes protocolVersion id view)
  obtain ⟨header, hheader⟩ := Option.isSome_iff_exists.1 (postcard.start_encodes protocolVersion id
    view.revision view.directory view.parent view.xattrs view.entries.length)
  obtain ⟨first, hfirst, hwrites⟩ :=
    writeResponse_writes postcard zstd compress hheader (hstart header hheader)
  refine ⟨first, ?_, by rw [hfirst.envelope]; rfl⟩
  simp only [writeDirectoryView,
    encodeFrame_of_lt postcard.toPostcard zstd compress hsingle (hlarge single hsingle)]
  have hany : ∀ message, Output.Only (fun _ => True)
      (writeResponse postcard zstd id message compress) :=
    fun _ => writeResponse_only postcard zstd fun _ _ _ => trivial
  exact Output.mem_on_bind hwrites
    ((streamEntries_only postcard zstd (fun _ => hany _) _ _ _).bind fun _ => hany _)
    List.mem_cons_self

/-- A view that is not streamed, or may be. -/
theorem writeDirectoryView_known (hcompress : m < minorFrameCompression → compress = false)
    (h : m < minorStreamedViews →
      ¬ ((∀ payload, postcard.toAllocvec ⟨protocolVersion, id, .directoryView view⟩ =
      some payload → maxFrameSize < payload.length) ∧
      ∀ payload, postcard.toAllocvec ⟨protocolVersion, id, startOf view⟩ = some payload →
      payload.length ≤ maxFrameSize)) :
    Output.Only (Known m request) (writeDirectoryView postcard zstd id view compress) := by
  have hsingle : Output.Only (Known m request)
      (writeResponse postcard zstd id (.directoryView view) compress) :=
    writeResponse_known postcard zstd hcompress (fun _ => rfl) fun _ => nofun
  by_cases hm : m < minorStreamedViews
  · obtain ⟨single, hencoded⟩ :=
      Option.isSome_iff_exists.1 (postcard.view_encodes protocolVersion id view)
    by_cases hlarge : maxFrameSize < single.length
    · -- Streaming is begun, but the header cannot be sent.
      obtain ⟨header, hheader⟩ := Option.isSome_iff_exists.1
        (postcard.start_encodes protocolVersion id view.revision view.directory view.parent
          view.xattrs view.entries.length)
      have htoo : maxFrameSize < header.length := by
        by_contra hfits
        refine h hm ⟨fun payload hpayload => ?_, fun payload hpayload => ?_⟩
        · rw [hencoded] at hpayload
          cases hpayload
          exact hlarge
        rw [startOf, hheader] at hpayload
        cases hpayload
        omega
      simp only [writeDirectoryView,
        encodeFrame_of_lt postcard.toPostcard zstd compress hencoded hlarge]
      have hnothing : writeResponse postcard zstd id (startOf view) compress =
          throw (.tooLarge header.length) := by
        rw [writeResponse, startOf,
          encodeFrame_of_lt postcard.toPostcard zstd compress hheader htoo]
      rw [streamDirectoryView, hnothing]
      intro before
      exact ⟨[], (List.append_nil before).symm, by simp⟩
    · obtain ⟨header, body, hframe⟩ :=
        encodeFrame_of_le postcard.toPostcard zstd compress hencoded (by omega)
      rw [writeResponse, hframe] at hsingle
      simp only [writeDirectoryView, hframe]
      exact hsingle
  · exact writeDirectoryView_only postcard zstd view hsingle fun message hmessage =>
      writeResponse_known postcard zstd hcompress (fun hm' => absurd hm' hm)
        fun results hresults => by
          subst hresults
          cases hmessage

/-- Anything but a view. -/
theorem writeResponse_plain_known (hcompress : m < minorFrameCompression → compress = false)
    (hplain : message.isStreamed = false ∧ ∀ results, message ≠ .metadataBatch results) :
    Output.Only (Known m request) (writeResponse postcard zstd id message compress) :=
  writeResponse_known postcard zstd hcompress (fun _ => hplain.1)
    fun results hresults => absurd hresults (hplain.2 results)

theorem compressFor_eq_false (hm : m < 256) (h : m < minorFrameCompression) :
    compressFor (makeVersion protocolMajor m) = false := by
  rw [compressFor, if_neg (by rw [versionMajor_makeVersion]; simp), peerSupportsFrameCompression,
    peerSupports, versionMinor_makeVersion hm]
  exact decide_eq_false fun hsupports => absurd hsupports.2 (by omega)

/-- **A reply holds nothing that the peer does not know**, unless it is a stream for a peer of
before there were any. -/
theorem sending_known (hm : m < 256) (hversion : task.version = makeVersion protocolMajor m)
    (h : ¬ (m < minorStreamedViews ∧ Streams postcard answers id task)) :
    Output.Only (Known m task.request) (sending postcard zstd answers id task) := by
  have hcompress : m < minorFrameCompression → compressFor task.version = false := by
    intro hlt
    rw [hversion]
    exact compressFor_eq_false hm hlt
  have herror : ∀ code text, Output.Only (Known m task.request)
      (writeResponse postcard zstd id (.error code text) (compressFor task.version)) :=
    fun _ _ => writeResponse_plain_known postcard zstd hcompress ⟨rfl, fun _ => nofun⟩
  rw [sending]
  split
  · rename_i response hstage
    cases response with
    | helloAck | authenticateAck | pairingProof | pong =>
      exact writeResponse_plain_known postcard zstd hcompress ⟨rfl, fun _ => nofun⟩
    | error code text => exact herror code text
    | exported =>
      rw [writeReply, writeExported.eq_def]
      split
      · rename_i node options hrequest
        split
        · rename_i view hview
          refine writeDirectoryView_known postcard zstd hcompress fun hlt hstreams => h ⟨hlt, ?_⟩
          exact ⟨hstage, node, options, view, hrequest, hview, hstreams⟩
        · exact herror _ _
      · split
        · exact writeResponse_plain_known postcard zstd hcompress (directoryListingResponse_plain _)
        · exact herror _ _
      · split
        · exact writeResponse_plain_known postcard zstd hcompress operationResponse_plain
        · exact herror _ _
      · rename_i nodes hrequest
        exact writeResponse_known postcard zstd hcompress
          (fun _ => batchResponse_isStreamed answers nodes) fun _ _ => ⟨nodes, hrequest⟩
      all_goals exact .pure ()
  · exact herror _ _
  · exact .pure ()

theorem streamed_reply (h : Streams postcard answers id task) :
    ∃ frame ∈ ((sending postcard zstd answers id task).on []).2,
      frame.envelope.message.isStreamed = true := by
  obtain ⟨hstage, node, options, view, hrequest, hview, hlarge, hstart⟩ := h
  obtain ⟨frame, hframe, hmessage⟩ :=
    start_mem_writeDirectoryView postcard zstd (compressFor task.version) hlarge hstart
  refine ⟨frame, ?_, by rw [hmessage]; rfl⟩
  simp only [sending, hstage, writeReply, hrequest, writeExported, hview]
  exact hframe

end Replies

/-! ## The client -/

/-- The part of a `QuicClient` that is about versions. -/
structure QuicClient where
  compression : Bool
  serverVersion : ℕ

/-- A connection before anything has been said on it. -/
def QuicClient.connect : QuicClient := ⟨false, 0⟩

/-- A frame that the client has sent. -/
structure ClientFrame where
  request : Daemon.Request
  header : BitVec 32
  body : Bytes

/-- A program of the client: it sends frames, and gets an answer to each of them. -/
abbrev Asking := Output ClientError ClientFrame

section Client

variable (postcard : Postcard (Envelope Daemon.Request)) (zstd : Zstd)

/-- What the server answers when it has been sent these frames, the last of them just now. -/
abbrev Server := List ClientFrame → Except ClientError Response

variable (client : QuicClient) (id : RequestId) (server : Server)

/-- `request`: `send_frame`, and the answer. -/
def request (message : Daemon.Request) : Asking Response :=
  ExceptT.mk fun sent =>
    match encodeFrame postcard zstd ⟨protocolVersion, id, message⟩ client.compression with
    | .error _ => (.error .transport, sent)
    | .ok (header, body) =>
      (server (sent ++ [⟨message, header, body⟩]), sent ++ [⟨message, header, body⟩])

/-- `negotiate`: the client afterwards. -/
def negotiate : Asking QuicClient := do
  match ← request postcard zstd client id server .hello with
  | .helloAck version => pure ⟨peerSupportsFrameCompression version, version⟩
  | response => throw (responseError response)

def getMetadata (node : NodeId) : Asking Metadata := do
  match ← request postcard zstd client id server (.operation (.getMetadata node)) with
  | .metadata metadata => pure metadata
  | response => throw (responseError response)

def batchedResult : BatchedMetadata → Except ClientError Metadata
  | .found metadata => .ok metadata
  | .failed code => .error (.server code "metadata unavailable")

/-- One request for each node. -/
def getMetadataEach (nodes : List NodeId) : Asking (List (Except ClientError Metadata)) :=
  nodes.mapM fun node => Output.attempt (getMetadata postcard zstd client id server node)

/-- One request for a chunk of nodes, and one for each of them if it is not answered in kind. -/
def getMetadataChunk (chunk : List NodeId) : Asking (List (Except ClientError Metadata)) := do
  match ← Output.attempt (request postcard zstd client id server (.getMetadataBatch chunk)) with
  | .ok (.metadataBatch batch) =>
    if batch.length = chunk.length then pure (batch.map batchedResult)
    else getMetadataEach postcard zstd client id server chunk
  | _ => getMetadataEach postcard zstd client id server chunk

def getMetadataBatch (nodes : List NodeId) : Asking (List (Except ClientError Metadata)) :=
  if nodes.isEmpty then pure []
  else if peerSupportsMetadataBatch client.serverVersion = false then
    getMetadataEach postcard zstd client id server nodes
  else do
    let results ←
      (nodes.toChunks maxMetadataBatch).mapM (getMetadataChunk postcard zstd client id server)
    pure results.flatten

end Client

/-- What is done with a connection.  Every other method of the client is one request, and no method
but `get_metadata_batch` sends a batch. -/
inductive ClientCall where
  | negotiate
  | authenticate (username password : Bytes)
  | pair (pairingId : Uuid) (clientNonce clientProof : Bytes)
  | ping (nonce : ℕ)
  | call (call : RemoteCall)
  | getMetadataBatch (nodes : List NodeId)

/-- A connection and, for the sake of what is said about it, the version in the last `HelloAck` that
came on it. -/
structure Link where
  client : QuicClient
  advertised : Option ℕ

def Link.connect : Link := ⟨.connect, none⟩

section Runs

variable (postcard : Postcard (Envelope Daemon.Request)) (zstd : Zstd)

/-- What a call sends. -/
def ClientCall.frames (link : Link) (id : RequestId) (server : Server) :
    ClientCall → List ClientFrame
  | .negotiate => ((Wire.negotiate postcard zstd link.client id server).on []).2
  | .authenticate username password =>
    ((request postcard zstd link.client id server (.authenticate username password)).on []).2
  | .pair pairingId clientNonce clientProof =>
    ((request postcard zstd link.client id server
      (.pair pairingId clientNonce clientProof)).on []).2
  | .ping nonce => ((request postcard zstd link.client id server (.ping nonce)).on []).2
  | .call operation =>
    ((request postcard zstd link.client id server (.operation operation)).on []).2
  | .getMetadataBatch nodes =>
    ((Wire.getMetadataBatch postcard zstd link.client id server nodes).on []).2

/-- One call on a connection, for the request identifier and the answers that it gets. -/
def Link.step (link : Link) (input : ClientCall × RequestId × Server) : Link × List ClientFrame :=
  (match input.1 with
    | .negotiate =>
      match ((negotiate postcard zstd link.client input.2.1 input.2.2).on []).1 with
      | .ok client => ⟨client, some client.serverVersion⟩
      | .error _ => link
    | _ => link,
    input.1.frames postcard zstd link input.2.1 input.2.2)

/-- The server has said that it is of version 6, and of at least this minor version. -/
def Link.Advertised (link : Link) (minor : ℕ) : Prop :=
  ∃ version, link.advertised = some version ∧ versionMajor version = protocolMajor ∧
    minor ≤ versionMinor version

/-- A frame that the client may send. -/
structure Link.Understands (link : Link) (frame : ClientFrame) : Prop where
  compression : IsCompressed frame.header → link.Advertised minorFrameCompression
  batching : ∀ nodes, frame.request = .getMetadataBatch nodes → link.Advertised minorMetadataBatch

/-- The client believes what the server has said. -/
structure Link.Informed (link : Link) : Prop where
  version : link.client.serverVersion = link.advertised.getD 0
  compression : link.client.compression = peerSupportsFrameCompression link.client.serverVersion

variable {link : Link} {id : RequestId} {server : Server}

theorem Link.Informed.advertised (h : link.Informed) {minor : ℕ}
    (hsupports : peerSupports minor link.client.serverVersion = true) : link.Advertised minor := by
  obtain ⟨hmajor, hminor⟩ := of_decide_eq_true hsupports
  rw [h.version] at hmajor hminor
  cases hadvertised : link.advertised with
  | none =>
    rw [hadvertised] at hmajor
    exact absurd hmajor (by decide)
  | some version =>
    rw [hadvertised] at hmajor hminor
    exact ⟨version, hadvertised, hmajor, hminor⟩

theorem Link.Informed.connect : Link.connect.Informed := ⟨rfl, rfl⟩

section

variable (h : link.Informed)

include h

/-- A request that is not a batch, or is one and may be sent. -/
theorem request_understood {message : Daemon.Request}
    (hbatch : ∀ nodes, message = .getMetadataBatch nodes → link.Advertised minorMetadataBatch) :
    Output.Only link.Understands (request postcard zstd link.client id server message) := by
  intro sent
  change ∃ items, (match encodeFrame postcard zstd _ _ with
    | .error _ => _
    | .ok (header, body) => _ : _ × _).2 = _ ∧ _
  split
  · exact ⟨[], (List.append_nil sent).symm, by simp⟩
  rename_i header body hframe
  refine ⟨[⟨message, header, body⟩], rfl, ?_⟩
  intro frame hmem
  rw [List.mem_singleton.1 hmem]
  refine ⟨fun hcompressed => h.advertised ?_, hbatch⟩
  by_contra hsupports
  rw [h.compression, peerSupportsFrameCompression, Bool.not_eq_true _ |>.mp hsupports] at hframe
  exact not_isCompressed hframe hcompressed

theorem getMetadata_understood (node : NodeId) :
    Output.Only link.Understands (getMetadata postcard zstd link.client id server node) := by
  refine (request_understood postcard zstd h (by nofun)).bind fun response => ?_
  split
  · exact .pure _
  · exact .throw _

theorem getMetadataEach_understood (nodes : List NodeId) :
    Output.Only link.Understands (getMetadataEach postcard zstd link.client id server nodes) :=
  .mapM fun node _ => (getMetadata_understood postcard zstd h node).attempt

theorem getMetadataChunk_understood (hbatch : link.Advertised minorMetadataBatch)
    (chunk : List NodeId) :
    Output.Only link.Understands (getMetadataChunk postcard zstd link.client id server chunk) := by
  refine (request_understood postcard zstd h fun _ _ => hbatch).attempt.bind fun response => ?_
  split
  · split
    · exact .pure _
    · exact getMetadataEach_understood postcard zstd h chunk
  · exact getMetadataEach_understood postcard zstd h chunk

theorem getMetadataBatch_understood (nodes : List NodeId) :
    Output.Only link.Understands (getMetadataBatch postcard zstd link.client id server nodes) := by
  rw [getMetadataBatch]
  split
  · exact .pure _
  split
  · exact getMetadataEach_understood postcard zstd h nodes
  rename_i hsupports
  have hbatch := h.advertised (Bool.of_not_eq_false hsupports)
  refine Output.Only.bind (.mapM fun chunk _ => ?_) fun _ => .pure _
  exact getMetadataChunk_understood postcard zstd h hbatch chunk

theorem negotiate_understood :
    Output.Only link.Understands (negotiate postcard zstd link.client id server) := by
  refine (request_understood postcard zstd h (by nofun)).bind fun response => ?_
  split
  · exact .pure _
  · exact .throw _

/-- **What a call sends, the server understands.** -/
theorem frames_understood (id : RequestId) (server : Server) (call : ClientCall) :
    ∀ frame ∈ call.frames postcard zstd link id server, link.Understands frame := by
  intro frame hframe
  cases call with
  | negotiate => exact (negotiate_understood postcard zstd h).mem_on hframe
  | authenticate | pair | ping | call =>
    exact (request_understood postcard zstd h (by nofun)).mem_on hframe
  | getMetadataBatch nodes => exact (getMetadataBatch_understood postcard zstd h nodes).mem_on hframe

end

/-- A client that has negotiated goes by the version it was told. -/
theorem compression_of_negotiate {client after : QuicClient}
    (h : ((negotiate postcard zstd client id server).on []).1 = .ok after) :
    after.compression = peerSupportsFrameCompression after.serverVersion := by
  rw [negotiate, Output.on_bind] at h
  split at h
  · split at h
    · cases h
      rfl
    · cases h
  · cases h

theorem Link.Informed.step (h : link.Informed) (input : ClientCall × RequestId × Server) :
    (link.step postcard zstd input).1.Informed := by
  rw [Link.step]
  simp only
  split
  · split
    · rename_i client hclient
      exact ⟨rfl, compression_of_negotiate postcard zstd hclient⟩
    · exact h
  · exact h

end Runs

/-! ## The result -/

/-- **Which replies keep to the version of the peer.**  For a request of version 6.m and whatever
state the daemon is in, all frames of the reply are such as the peer knows, unless `m` is 0 and the
reply is a view that is streamed.  And on every connection, whatever calls are made on it and
whatever is answered, a client sends batches and compressed frames only after the server has said
that it is of a version that has them. -/
theorem minor_versions_respected (postcard : ViewPostcard)
    (requests : Postcard (Envelope Daemon.Request)) (zstd : Zstd) :
    (∀ (answers : Answers) (d : Daemon.State) (t : ℕ) (id : RequestId) (task : Daemon.RequestTask)
        (m : ℕ), m < 256 → d.tasks[t]? = some task → task.version = makeVersion protocolMajor m →
      ((∀ frame ∈ framesSent postcard zstd answers d t id, Known m task.request frame) ↔
        ¬ (m = 0 ∧ Streams postcard answers id task))) ∧
    ∀ (calls : List (ClientCall × RequestId × Server)),
      ∀ met ∈ Machine.trace (Link.step requests zstd) Link.connect calls,
        ∀ frame ∈ (met.1.step requests zstd met.2).2, met.1.Understands frame := by
  refine ⟨fun answers d t id task m hm htask hversion => ⟨?_, ?_⟩, ?_⟩
  · rintro hknown ⟨rfl, hstreams⟩
    obtain ⟨frame, hframe, hstreamed⟩ := streamed_reply postcard zstd answers hstreams
    have hmem : frame ∈ framesSent postcard zstd answers d t id := by
      simp only [framesSent, htask]
      exact hframe
    rw [(hknown frame hmem).streaming (by decide)] at hstreamed
    cases hstreamed
  · intro hnot frame hframe
    simp only [framesSent, htask] at hframe
    refine (sending_known postcard zstd answers hm hversion ?_).mem_on hframe
    rintro ⟨hlt, hstreams⟩
    exact hnot ⟨by rw [minorStreamedViews] at hlt; omega, hstreams⟩
  · intro calls met hmet
    have hinformed := Machine.trace_invariant
      (fun link input (h : link.Informed) => h.step requests zstd input) Link.Informed.connect hmet
    exact frames_understood requests zstd hinformed met.2.2.1 met.2.2.2 met.2.1

/-! ## A peer of version 6.0 -/

namespace Plain

/-- All entries are in the encoding of a view. -/
theorem sum_le_of_viewOf {id : RequestId} {entries : List DirectoryViewEntry} {payload : Bytes}
    (h : postcard.toAllocvec ⟨protocolVersion, id, .directoryView (viewOf entries)⟩ = some payload) :
    (entries.map (encodedLen postcard)).sum ≤ payload.length := by
  have hlength : (entries.flatMap viewEntry.encode).length =
      (entries.map (encodedLen postcard)).sum := List.length_flatMap
  rw [← Option.some.inj h]
  simp only [view, viewOf, Format.map, Format.pair, Format.vec, List.length_append, hlength]
  omega

theorem sum_someLinks (n : ℕ) : ((someLinks n).map (encodedLen postcard)).sum = n * 62 := by
  have h : (someLinks n).map (encodedLen postcard) = List.replicate n 62 := by
    rw [someLinks, List.map_map, List.eq_replicate_iff]
    simp [length_someLink]
  rw [h, List.sum_replicate_nat]

end Plain

/-- A cryptography for which a password is its own hash. -/
def plainCrypto : Daemon.Crypto :=
  ⟨fun _ => true, fun hash password => hash = password, fun _ => none, fun _ _ => none, fun _ => []⟩

/-- A peer of version 6.0 logs in and asks for the view of the root. -/
def baselinePeer : List Daemon.Action :=
  let outside : Daemon.Outside := ⟨0, .ok 0, true, false⟩
  [.request 0 (makeVersion protocolMajor 0) (.authenticate [97] [98]), .poll 0 outside,
    .poll 0 outside, .poll 0 outside, .verify 0 (.ok [⟨[97], [98], true, false⟩]) false,
    .poll 0 outside, .poll 0 outside,
    .request 0 (makeVersion protocolMajor 0) (.operation (.listDirectoryView 0 .native)),
    .poll 1 outside, .poll 1 outside, .poll 1 outside]

/-- The daemon then. -/
def baselineDaemon : Daemon.State :=
  (Machine.run (Daemon.step ⟨plainCrypto, []⟩) (Daemon.State.new (fun _ => 0) 10 4) baselinePeer).1

theorem baselineDaemon_task :
    baselineDaemon.tasks[1]? = some ⟨0, makeVersion protocolMajor 0,
      .operation (.listDirectoryView 0 .native), .responding .exported⟩ := by
  rfl

/-- A directory with so many links. -/
def someAnswers (n : ℕ) : Answers where
  operation
    | .listDirectoryView _ _ => .ok (Plain.viewOf (Plain.someLinks n))
    | _ => .error (.notSupported, "")
  batch _ := .error (.notSupported, "")

/-- If there are enough of them the view is larger than a frame. -/
theorem baseline_stream {n : ℕ} (hmany : maxFrameSize < n * 62)
    (hstart : ∀ payload, Plain.postcard.toAllocvec ⟨protocolVersion, 1,
      startOf (Plain.viewOf (Plain.someLinks n))⟩ = some payload → payload.length ≤ maxFrameSize) :
    ∃ frame ∈ framesSent Plain.postcard Plain.zstd (someAnswers n) baselineDaemon 1 1,
      frame.envelope.message.isStreamed = true := by
  have hstreams : Streams Plain.postcard (someAnswers n) 1 ⟨0, makeVersion protocolMajor 0,
      .operation (.listDirectoryView 0 .native), .responding .exported⟩ := by
    refine ⟨rfl, 0, .native, Plain.viewOf (Plain.someLinks n), rfl, rfl, fun payload hpayload => ?_,
      hstart⟩
    have hle := Plain.sum_le_of_viewOf hpayload
    rw [Plain.sum_someLinks] at hle
    exact lt_of_lt_of_le hmany hle
  obtain ⟨frame, hframe, hstreamed⟩ := streamed_reply Plain.postcard Plain.zstd _ hstreams
  refine ⟨frame, ?_, hstreamed⟩
  simp only [framesSent, baselineDaemon_task]
  exact hframe

/-- **A peer of version 6.0 is sent a stream**: the daemon is asked for a view by a peer of before
there were streamed views, and the view is larger than a frame. -/
theorem baseline_peer_gets_stream :
    baselineDaemon.tasks[1]? = some ⟨0, makeVersion protocolMajor 0,
      .operation (.listDirectoryView 0 .native), .responding .exported⟩ ∧
    ¬ ∀ frame ∈ framesSent Plain.postcard Plain.zstd (someAnswers 60000) baselineDaemon 1 1,
        Known 0 (.operation (.listDirectoryView 0 .native)) frame := by
  refine ⟨baselineDaemon_task, fun hknown => ?_⟩
  obtain ⟨frame, hframe, hstreamed⟩ := baseline_stream (by decide)
    (Plain.start_fits (Plain.length_someLinks 60000) (by decide +kernel))
  rw [(hknown frame hframe).streaming (by decide)] at hstreamed
  cases hstreamed

end QuickFS.Wire
