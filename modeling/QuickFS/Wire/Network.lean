import QuickFS.Wire.Versions
import Mathlib.Data.List.Forall2

/-!
# What the client makes of an answer

`NetworkFilesystem` of `crates/client-core` turns methods into requests, and answers into results.
Most methods match one answer against one request.  Two things are more than that.

`get_metadata_batch` asks for many nodes at a time.  A chunk whose answer is not a batch of the
right length is asked for node by node, and so every node gets the result it would have got by
itself (`getMetadataBatch_agrees`).

`read_range_versioned` and `get_xattr` get an answer that says how many bytes follow it.  The first
compares that number with what it has asked for; the second does not, and the server decides how
much memory the client sets aside (`bodies_bounded`, `xattr_body_exceeds_request`).
-/

namespace QuickFS.Wire

/-! ## Batches -/

/-- Two outcomes are the same, but for the text of an error. -/
def SameAnswer (outcome outcome' : Except ClientError Metadata) : Prop :=
  outcome = outcome' ∨ ∃ code text text',
    outcome = .error (.server code text) ∧ outcome' = .error (.server code text')

section Batches

variable (postcard : Postcard (Envelope Daemon.Request)) (zstd : Zstd) (client : QuicClient)
  (id : RequestId) (server : Server)

/-- The server's answers for each of the nodes do not change.  A request for one node can be sent,
and gets what the daemon sends for it.  A batch of the length that was asked for is the daemon's;
what else a request for a batch comes to is left open. -/
structure Answered (session : NodeId → Except (ErrorCode × String) Metadata) (nodes : List NodeId) :
    Prop where
  sent : ∀ node ∈ nodes, ∃ frame, encodeFrame postcard zstd
    ⟨protocolVersion, id, .operation (.getMetadata node)⟩ client.compression = .ok frame
  single : ∀ before node header body,
    server (before ++ [⟨.operation (.getMetadata node), header, body⟩]) = .ok (match session node with
      | .ok metadata => operationResponse (.getMetadata node) metadata
      | .error error => errorResponse error)
  batch : ∀ before chunk header body results,
    server (before ++ [⟨.getMetadataBatch chunk, header, body⟩]) = .ok (.metadataBatch results) →
    results.length = chunk.length → ∃ answers : Answers,
      (∀ i node, chunk[i]? = some node → answers.batch i = session node) ∧
        .metadataBatch results = batchResponse answers chunk

variable {postcard zstd client id server}

variable {session : NodeId → Except (ErrorCode × String) Metadata} {nodes : List NodeId}
  {node : NodeId}

/-- What `get_metadata` makes of the answer of the session. -/
def outcomeOf : Except (ErrorCode × String) Metadata → Except ClientError Metadata
  | .ok metadata => .ok metadata
  | .error error => .error (.server error.1 error.2)

theorem getMetadata_on (h : Answered postcard zstd client id server session nodes)
    (hnode : node ∈ nodes) (before : List ClientFrame) :
    ((getMetadata postcard zstd client id server node).on before).1 = outcomeOf (session node) := by
  obtain ⟨⟨header, body⟩, hframe⟩ := h.sent node hnode
  have hrequest : ((request postcard zstd client id server (.operation (.getMetadata node))).on
      before).1 = .ok (match session node with
        | .ok metadata => operationResponse (.getMetadata node) metadata
        | .error error => errorResponse error) := by
    simp only [request, Output.on, ExceptT.run_mk, hframe]
    exact h.single before node header body
  rw [getMetadata, Output.on_bind]
  rcases hon : (request postcard zstd client id server (.operation (.getMetadata node))).on before
    with ⟨response, after⟩
  rw [hon] at hrequest
  cases hrequest
  cases session node with
  | ok => rfl
  | error => rfl

/-- A result is the one that the node would have got by itself. -/
def Agrees (session : NodeId → Except (ErrorCode × String) Metadata) (node : NodeId)
    (result : Except ClientError Metadata) : Prop :=
  SameAnswer result (outcomeOf (session node))

variable {chunk : List NodeId}

theorem getMetadataEach_ends (h : Answered postcard zstd client id server session nodes)
    (hchunk : chunk ⊆ nodes) :
    Output.Ends (getMetadataEach postcard zstd client id server chunk)
      (List.Forall₂ (Agrees session) chunk) :=
  .mapM fun _ hnode => .attempt fun before => .inl (getMetadata_on h (hchunk hnode) before)

/-- The entries of a batch, in the order of the nodes. -/
theorem forall₂_batch {results : List BatchedMetadata} {answers : Answers}
    (hanswers : ∀ i node, chunk[i]? = some node → answers.batch i = session node)
    (h : Response.metadataBatch results = batchResponse answers chunk) :
    List.Forall₂ (Agrees session) chunk (results.map batchedResult) := by
  rw [batchResponse] at h
  split at h
  · cases h
  cases h
  refine List.forall₂_iff_get.2 ⟨by simp, fun i hi _ => ?_⟩
  have hbatch := hanswers i chunk[i] (List.getElem?_eq_getElem hi)
  simp only [List.get_eq_getElem, List.getElem_map, List.getElem_range, hbatch, Agrees]
  cases session chunk[i] with
  | ok => exact .inl rfl
  | error error => exact .inr ⟨error.1, _, error.2, rfl, rfl⟩

theorem getMetadataChunk_ends (h : Answered postcard zstd client id server session nodes)
    (hchunk : chunk ⊆ nodes) :
    Output.Ends (getMetadataChunk postcard zstd client id server chunk)
      (List.Forall₂ (Agrees session) chunk) := by
  have heach := getMetadataEach_ends h hchunk
  refine Output.Ends.bind (P := fun answer => ∀ results, answer = .ok (.metadataBatch results) →
    results.length = chunk.length → List.Forall₂ (Agrees session) chunk (results.map batchedResult))
    (.attempt fun before results hresults hlength => ?_) fun answer hanswer => ?_
  · simp only [request, Output.on, ExceptT.run_mk] at hresults
    split at hresults
    · cases hresults
    · obtain ⟨answers, hanswers, hbatch⟩ := h.batch _ _ _ _ _ hresults hlength
      exact forall₂_batch hanswers hbatch
  · split
    · split
      · rename_i results hlength
        exact .pure (hanswer results rfl hlength)
      · exact heach
    · exact heach

theorem flatten_toChunks_go {α : Type} {n : ℕ} (xs : List α) (chunk : Array α)
    (done : Array (List α)) :
    (List.toChunks.go n xs chunk done).flatten = done.toList.flatten ++ chunk.toList ++ xs := by
  induction xs generalizing chunk done with
  | nil => simp [List.toChunks.go]
  | cons _ _ ih =>
    rw [List.toChunks.go]
    split
    · simp [ih]
    · simp [ih]

theorem flatten_toChunks {α : Type} {n : ℕ} (xs : List α) : (xs.toChunks n).flatten = xs := by
  cases xs with
  | nil => cases n <;> rfl
  | cons =>
    cases n with
    | zero => simp [List.toChunks]
    | succ => simp [List.toChunks, flatten_toChunks_go]

/-- **Every node of a batch gets the result that `get_metadata` gets for it**: the metadata, or an
error with the same code.  There are as many results as nodes, and they are in the same order. -/
theorem getMetadataBatch_agrees (h : Answered postcard zstd client id server session nodes)
    (before : List ClientFrame) :
    ∃ results, ((getMetadataBatch postcard zstd client id server nodes).on before).1 = .ok results ∧
      List.Forall₂ (fun node result => ∀ before', SameAnswer result
        ((getMetadata postcard zstd client id server node).on before').1) nodes results := by
  have hends : Output.Ends (getMetadataBatch postcard zstd client id server nodes)
      (List.Forall₂ (Agrees session) nodes) := by
    rw [getMetadataBatch]
    split
    · rename_i hempty
      rw [List.isEmpty_iff.1 hempty]
      exact .pure .nil
    split
    · exact getMetadataEach_ends h (List.Subset.refl _)
    have hflatten := flatten_toChunks (n := maxMetadataBatch) nodes
    refine (Output.Ends.mapM fun chunk hchunk => getMetadataChunk_ends h ?_).bind
      fun results hresults => .pure ?_
    · intro node hnode
      rw [← hflatten]
      exact List.mem_flatten_of_mem hchunk hnode
    · have hjoined := List.rel_flatten hresults
      rwa [hflatten] at hjoined
  obtain ⟨results, hok, hagree⟩ := hends before
  refine ⟨results, hok, List.forall₂_iff_zip.2 ⟨hagree.length_eq, fun {node result} hmem before' => ?_⟩⟩
  rw [getMetadata_on h (List.of_mem_zip hmem).1 before']
  exact (List.forall₂_iff_zip.1 hagree).2 hmem

end Batches

/-! ### A server with one file -/

namespace Plain

/-- The nodes that a request is about, and whether it is one for a batch. -/
def nodesAsked : Daemon.Request → Option (ℕ × List NodeId)
  | .operation (.getMetadata node) => some (0, [node])
  | .getMetadataBatch nodes => some (1, nodes)
  | _ => none

def askedNodes : ℕ × List NodeId → Option Daemon.Request
  | (0, [node]) => some (.operation (.getMetadata node))
  | (1, nodes) => some (.getMetadataBatch nodes)
  | _ => none

theorem askedNodes_of_nodesAsked {message : Daemon.Request} {asked : ℕ × List NodeId}
    (h : nodesAsked message = some asked) : askedNodes asked = some message := by
  rw [nodesAsked.eq_def] at h
  split at h
  · cases h
    rfl
  · cases h
    rfl
  · cases h

def requests : Postcard (Envelope Daemon.Request) where
  toAllocvec e := (nodesAsked e.message).map
    (envelope.encode (e.version, e.requestId) ++ (Format.pair .varint (.vec .varint)).encode ·)
  fromBytes input := (envelope.decode input).bind fun r =>
    ((Format.pair .varint (.vec .varint)).decode r.2).bind fun asked =>
      (askedNodes asked.1).map fun message => ⟨r.1.1, r.1.2, message⟩
  fromBytes_toAllocvec {value bytes} h := by
    obtain ⟨asked, hasked, rfl⟩ := Option.map_eq_some_iff.1 h
    rw [envelope.decode_encode, Option.bind_some, parsed, Option.bind_some,
      askedNodes_of_nodesAsked hasked]
    rfl

def session (node : NodeId) : Except (ErrorCode × String) Metadata :=
  if node = 1 then .ok (someMetadata 1 .file) else .error (.notFound, "not found")

def server : Server := fun sent =>
  match sent.getLast? with
  | some ⟨.operation (.getMetadata node), _, _⟩ => .ok (match session node with
    | .ok metadata => .metadata metadata
    | .error error => errorResponse error)
  | some ⟨.getMetadataBatch chunk, _, _⟩ => .ok (batchResponse
      ⟨fun _ => .error (.notSupported, ""), fun i => session (chunk.getD i 0)⟩ chunk)
  | _ => .error .transport

theorem answered (version : ℕ) :
    Answered requests zstd ⟨false, version⟩ 1 server session [1, 2] where
  sent node hnode := by
    have hsmall : ∀ node ∈ [1, 2], (encodeFrame requests zstd
        ⟨protocolVersion, 1, .operation (.getMetadata node)⟩ false).isOk := by
      decide +kernel
    have hframe := hsmall node hnode
    cases h : encodeFrame requests zstd ⟨protocolVersion, 1, .operation (.getMetadata node)⟩ false with
    | error =>
      rw [h] at hframe
      cases hframe
    | ok frame => exact ⟨frame, rfl⟩
  single before node header body := by
    rw [server, List.getLast?_concat]
    rfl
  batch before chunk header body results h _ := by
    rw [server, List.getLast?_concat] at h
    refine ⟨_, fun i node hnode => ?_, (Except.ok.inj h).symm⟩
    dsimp only
    rw [List.getD_eq_getElem?_getD, hnode, Option.getD_some]

end Plain

/-- One of two nodes is there, and a server of the current version is asked for both at once. -/
theorem getMetadataBatch_agrees_two :
    ∃ results, ((getMetadataBatch Plain.requests Plain.zstd ⟨false, protocolVersion⟩ 1 Plain.server
        [1, 2]).on []).1 = .ok results ∧
      List.Forall₂ (fun node result => ∀ before', SameAnswer result ((getMetadata Plain.requests
        Plain.zstd ⟨false, protocolVersion⟩ 1 Plain.server node).on before').1) [1, 2] results :=
  getMetadataBatch_agrees (Plain.answered protocolVersion) []

/-! ## Bodies -/

/-- What is done for the bytes that follow an answer. -/
inductive BodyStep where
  | allocated (size : ℕ)
  | received (size : ℕ)
deriving DecidableEq

def BodyStep.size : BodyStep → ℕ
  | .allocated size => size
  | .received size => size

/-- A method that may receive bytes after the answer. -/
abbrev Receiving := Output ClientError BodyStep

/-- `vec![0; size]`. -/
def allocate (size : ℕ) : Receiving Unit := Output.emit (.allocated size)

/-- `receive_exact` into a buffer of this size: the stream may end before it is full. -/
def receiveExact (stream : Bytes) (size : ℕ) : Receiving Bytes := do
  Output.emit (.received size)
  if stream.length < size then throw .transport else pure (stream.take size)

section Bodies

-- What `request` comes to: the answer, and the stream it came on.
variable (request : Daemon.Request → Except ClientError (Response × Option Bytes))

/-- `read_range_versioned`. -/
def readRangeVersioned (handle : FileHandle) (offset length : ℕ) : Receiving RangeRead :=
  if length > maxClientReadSize then throw (.readTooLarge maxClientReadSize)
  else
    match request (.operation (.readRangeVersioned handle offset length)) with
    | .error error => throw error
    | .ok (.readData revision responseLength, recv) =>
      if responseLength > length ∨ responseLength > maxClientReadSize then throw .unexpectedResponse
      else
        match recv with
        | none => throw .unexpectedResponse
        | some stream => do
          allocate responseLength
          let data ← receiveExact stream responseLength
          pure ⟨revision, data⟩
    | .ok (response, _) => throw (responseError response)

/-- `get_xattr`.  The length that the answer gives is the one that is used from there on. -/
def getXattr (node : NodeId) (name : Name) (offset length : ℕ) : Receiving XattrRead :=
  if length > maxClientReadSize then throw (.readTooLarge length)
  else
    match request (.operation (.getXattr node name offset length)) with
    | .error error => throw error
    | .ok (.xattrData length totalSize, recv) => do
      allocate length
      match recv with
      | none => throw .unexpectedResponse
      | some stream => do
        let data ← receiveExact stream length
        pure ⟨totalSize, data⟩
    | .ok (response, _) => throw (responseError response)

/-- How many bytes an answer says will follow. -/
def declared : Except ClientError (Response × Option Bytes) → Option ℕ
  | .ok (.readData _ length, _) => some length
  | .ok (.xattrData length _, _) => some length
  | _ => none

/-- No more than `length` bytes are set aside or returned, and an answer that declares more is an
error, of which nothing is received. -/
structure KeepsTo {α : Type} (length : ℕ) (data : α → Bytes)
    (answer : Except ClientError (Response × Option Bytes)) (p : Receiving α) : Prop where
  steps : ∀ step ∈ (p.on []).2, step.size ≤ length
  result : ∀ a, (p.on []).1 = .ok a → (data a).length ≤ length
  refused : ∀ size, declared answer = some size → length < size →
    (∃ error, (p.on []).1 = .error error) ∧ (p.on []).2 = []

variable {request}

variable {α : Type} {length : ℕ} {data : α → Bytes}
  {answer : Except ClientError (Response × Option Bytes)}

theorem KeepsTo.throw (error : ClientError) : KeepsTo length data answer (throw error) where
  steps _ h := absurd h List.not_mem_nil
  result := nofun
  refused _ _ _ := ⟨⟨error, rfl⟩, rfl⟩

/-- What is set aside is no more than was asked for, and nor is what is returned. -/
theorem KeepsTo.receives {size : ℕ} (hdeclared : declared answer = some size) (hsize : size ≤ length)
    (stream : Bytes) {f : Bytes → α} (hf : ∀ bytes, data (f bytes) = bytes) :
    KeepsTo length data answer (do
      allocate size
      let bytes ← receiveExact stream size
      pure (f bytes)) := by
  have hon : (do
      allocate size
      let bytes ← receiveExact stream size
      pure (f bytes) : Receiving α).on [] =
      (if stream.length < size then .error .transport else .ok (f (stream.take size)),
        [.allocated size, .received size]) := by
    rw [receiveExact]
    split <;> rfl
  refine ⟨fun step hstep => ?_, fun a ha => ?_, fun size' hsize' hlt => ?_⟩
  · rw [hon] at hstep
    simp only [List.mem_cons, List.not_mem_nil, or_false] at hstep
    rcases hstep with rfl | rfl
    · exact hsize
    · exact hsize
  · rw [hon] at ha
    dsimp only at ha
    split at ha
    · cases ha
    cases ha
    rw [hf, List.length_take]
    omega
  · cases hdeclared.symm.trans hsize'
    omega

variable (request)

/-- **A read never sets aside or returns more than was asked for, and refuses an answer that
declares more.  For an extended attribute this is so exactly if the answer declares no more than was
asked for.** -/
theorem bodies_bounded (handle : FileHandle) (node : NodeId) (name : Name) (offset length : ℕ) :
    KeepsTo length RangeRead.data (request (.operation (.readRangeVersioned handle offset length)))
      (readRangeVersioned request handle offset length) ∧
    (KeepsTo length XattrRead.data (request (.operation (.getXattr node name offset length)))
        (getXattr request node name offset length) ↔
      ¬(length ≤ maxClientReadSize ∧ ∃ size totalSize recv,
        request (.operation (.getXattr node name offset length)) =
          .ok (.xattrData size totalSize, recv) ∧ length < size)) := by
  constructor
  · rw [readRangeVersioned]
    split
    · exact .throw _
    generalize request (.operation (.readRangeVersioned handle offset length)) = answer
    split
    · exact .throw _
    · split
      · exact .throw _
      rename_i hsize
      split
      · exact .throw _
      · exact .receives rfl (by omega) _ fun _ => rfl
    · exact .throw _
  · rw [getXattr]
    generalize request (.operation (.getXattr node name offset length)) = answer
    split
    · rename_i hlarge
      exact iff_of_true (.throw _) fun h => absurd h.1 (by omega)
    rename_i hlength
    split
    · exact iff_of_true (.throw _) (by simp)
    · rename_i size totalSize recv
      constructor
      · rintro hkeeps ⟨-, _, _, _, heq, hlt⟩
        cases heq
        have hallocated := (hkeeps.refused size rfl hlt).2
        cases recv with
        | none => cases hallocated
        | some =>
          dsimp only at hallocated
          rw [receiveExact] at hallocated
          split at hallocated <;> cases hallocated
      · intro h
        have hsize : size ≤ length := Nat.le_of_not_lt fun hlt =>
          h ⟨by omega, size, totalSize, recv, rfl, hlt⟩
        cases recv with
        | some stream => exact .receives rfl hsize stream fun _ => rfl
        | none =>
          refine ⟨fun step hstep => ?_, nofun, fun size' hsize' hlt => ?_⟩
          · cases List.mem_singleton.1 hstep
            exact hsize
          · cases hsize'
            omega
    · rename_i hresponse
      refine iff_of_true (.throw _) ?_
      rintro ⟨-, size, totalSize, recv, heq, -⟩
      cases heq
      exact hresponse size totalSize rfl

end Bodies

/-- **The server decides how much memory a request for one byte of an attribute takes**: it answers
with two, and they are set aside, received and returned. -/
theorem xattr_body_exceeds_request :
    (getXattr (fun _ => .ok (.xattrData 2 2, some [0, 0])) 1 [120] 0 1).on [] =
      (.ok ⟨2, [0, 0]⟩, [.allocated 2, .received 2]) ∧
    ¬KeepsTo 1 XattrRead.data (.ok (.xattrData 2 2, some [0, 0]))
      (getXattr (fun _ => .ok (.xattrData 2 2, some [0, 0])) 1 [120] 0 1) := by
  refine ⟨rfl, fun h => ?_⟩
  have hstep : (BodyStep.allocated 2).size ≤ 1 := h.steps _ (List.mem_cons_self)
  exact absurd hstep (by decide)

end QuickFS.Wire
