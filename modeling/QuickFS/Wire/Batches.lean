import Mathlib.Algebra.Order.BigOperators.Group.List
import QuickFS.Wire.Network

/-!
# A batch of metadata fits a frame

The answer to `GetMetadataBatch` is one frame, whatever the metadata in it are.  Postcard writes a
message as its scalars, one after another, and all that is assumed of it is how long a scalar can
get: seven bits of an integer to a byte, a UUID in seventeen bytes, and the tags of variants and
options and the lengths of vectors as integers.
-/

namespace QuickFS.Wire

/-- What postcard writes of a value that is not made of others; the tag of an option is written with
its value. -/
inductive Scalar where
  | u32 (n : ℕ)
  | u64 (n : ℕ)
  | optionU64 (value : Option ℕ)
  | uuid (id : ℕ)

namespace Scalar

/-- The value is one of its type. -/
def InRange : Scalar → Prop
  | u32 n => n < 2 ^ 32
  | u64 n => n < 2 ^ 64
  | optionU64 value => ∀ n ∈ value, n < 2 ^ 64
  | uuid id => id < 2 ^ 128

/-- How many bytes it may take. -/
def limit : Scalar → ℕ
  | u32 _ => 5
  | u64 _ => 10
  | optionU64 _ => 15
  | uuid _ => 17

end Scalar

def metadataScalars (m : Metadata) : List Scalar :=
  [.uuid m.node, .u32 m.kind.ctorIdx, .u64 m.size, .u32 m.mode, .u64 m.allocatedBlocks,
    .u64 m.revision, .u64 m.accessedUnixMs, .u64 m.modifiedUnixMs, .optionU64 m.createdUnixMs,
    .optionU64 m.backupUnixMs, .u32 m.linkCount, .u32 m.deviceMajor, .u32 m.deviceMinor]

def BatchedMetadata.scalars : BatchedMetadata → List Scalar
  | found metadata => .u32 0 :: metadataScalars metadata
  | failed code => [.u32 1, .u32 code.ctorIdx]

/-- Every field has a value of its type. -/
def Fits (m : Metadata) : Prop := ∀ s ∈ metadataScalars m, s.InRange

/-- A batch in an envelope, by what is made of a scalar. -/
def batchBytes (scalar : Scalar → Bytes) (version : ℕ) (id : RequestId)
    (results : List BatchedMetadata) : Bytes :=
  envelopeBytes version id ++ (scalar (.u32 41) ++ (scalar (.u64 results.length) ++
    results.flatMap (·.scalars.flatMap scalar)))

section Fits

variable {scalar : Scalar → Bytes} (hscalar : ∀ s, s.InRange → (scalar s).length ≤ s.limit)
  {answers : Answers} {nodes : List NodeId}

include hscalar

/-- A result takes 127 bytes at most. -/
theorem result_length {result : BatchedMetadata} (h : ∀ m, result = .found m → Fits m) :
    (result.scalars.flatMap scalar).length ≤ 127 := by
  have hle : (result.scalars.flatMap scalar).length ≤ (result.scalars.map Scalar.limit).sum := by
    rw [List.length_flatMap]
    refine List.sum_le_sum fun s hs => hscalar s ?_
    cases result with
    | found metadata =>
      rcases List.mem_cons.1 hs with rfl | hs
      · exact Nat.two_pow_pos 32
      · exact h metadata rfl s hs
    | failed code =>
      rcases List.mem_pair.1 hs with rfl | rfl
      · exact Nat.one_lt_two_pow (by decide)
      · change code.ctorIdx < _
        cases code <;> decide
  cases result with
  | found => exact hle.trans_eq (by simp [BatchedMetadata.scalars, metadataScalars, Scalar.limit])
  | failed => exact hle.trans (by decide : 10 ≤ 127)

/-- 4096 results leave room for all that stands before them. -/
theorem batch_length {version : ℕ} (hversion : version < 2 ^ 16) (id : RequestId)
    {results : List BatchedMetadata} (hcount : results.length ≤ maxMetadataBatch)
    (h : ∀ m, .found m ∈ results → Fits m) :
    (batchBytes scalar version id results).length ≤ maxFrameSize := by
  have hresults : (results.flatMap (·.scalars.flatMap scalar)).length ≤ results.length * 127 := by
    rw [List.length_flatMap]
    refine (List.sum_le_card_nsmul _ 127 fun n hn => ?_).trans (by simp)
    obtain ⟨result, hresult, rfl⟩ := List.mem_map.1 hn
    exact result_length hscalar fun m heq => h m (heq ▸ hresult)
  have htag := hscalar (.u32 41) (by decide : 41 < 2 ^ 32)
  have hlength := hscalar (.u64 results.length) (hcount.trans_lt (by decide) : _ < 2 ^ 64)
  have hnumber := Format.varint_length_le version 2 (hversion.trans (by decide))
  have hsixteen := Format.varint_length_le 16 0 (by decide)
  simp only [batchBytes, envelopeBytes, List.length_append, Format.fixed_length, Scalar.limit] at *
  rw [maxMetadataBatch] at hcount
  rw [maxFrameSize]
  omega

omit hscalar in
theorem batchResponse_of_le (hcount : nodes.length ≤ maxMetadataBatch) :
    ∃ results, batchResponse answers nodes = .metadataBatch results ∧
      results.length = nodes.length ∧
      ∀ m, .found m ∈ results → ∃ i, answers.batch i = .ok m := by
  refine ⟨_, if_neg (not_lt.2 hcount), by simp, fun m hmem => ?_⟩
  obtain ⟨i, -, heq⟩ := List.mem_map.1 hmem
  refine ⟨i, ?_⟩
  split at heq
  · rename_i hi
    cases heq
    exact hi
  · cases heq

/-- **A batch that is accepted is answered in one frame**, whatever is in the envelope and in the
metadata, and so the daemon never fails to send it. -/
theorem metadataBatch_fits (postcard : ViewPostcard) (zstd : Zstd) (id : RequestId) :
    (∀ version results, version < 2 ^ 16 → results.length ≤ maxMetadataBatch →
      (∀ m, .found m ∈ results → Fits m) →
      (batchBytes scalar version id results).length ≤ maxFrameSize) ∧
    ∀ answers nodes compress, nodes.length ≤ maxMetadataBatch →
      (∀ i m, answers.batch i = .ok m → Fits m) →
      (∀ results, batchResponse answers nodes = .metadataBatch results →
        postcard.toAllocvec ⟨protocolVersion, id, .metadataBatch results⟩ =
          some (batchBytes scalar protocolVersion id results)) →
      ∃ frame, (writeResponse postcard zstd id (batchResponse answers nodes) compress).on [] =
        (.ok (), [frame]) := by
  refine ⟨fun version results hversion => batch_length hscalar hversion id,
    fun answers nodes compress hcount h hencodes => ?_⟩
  obtain ⟨results, hbatch, hlength, hfound⟩ := batchResponse_of_le hcount
  have hle := batch_length hscalar (by decide : protocolVersion < 2 ^ 16) id
    (hlength.trans_le hcount) fun m hmem => (hfound m hmem).elim (h · m)
  obtain ⟨frame, -, hwrites⟩ :=
    writeResponse_writes postcard zstd compress (hencodes results hbatch) hle
  rw [hbatch]
  exact ⟨frame, hwrites []⟩

end Fits

namespace Plain

open Format (varint)

def scalar : Scalar → Bytes
  | .u32 n | .u64 n => varint.encode n
  | .optionU64 value => (Format.option varint).encode value
  | .uuid id => varint.encode 16 ++ (Format.fixed 16).encode (BitVec.ofNat _ id)

theorem scalar_length (s : Scalar) (h : s.InRange) : (scalar s).length ≤ s.limit := by
  cases s with
  | u32 n => exact Format.varint_length_le n 4 (lt_trans h (by decide))
  | u64 n => exact Format.varint_length_le n 9 (lt_trans h (by decide))
  | optionU64 value =>
    cases value with
    | none => decide
    | some n =>
      have hn := Format.varint_length_le n 9 (lt_trans (h n rfl) (by decide))
      change (1 :: 0 :: (varint.encode n ++ [])).length ≤ 15
      rw [List.append_nil, List.length_cons, List.length_cons]
      omega
  | uuid id =>
    have hsixteen := Format.varint_length_le 16 0 (by decide)
    rw [scalar, List.length_append, Format.fixed_length]
    exact Nat.add_le_add_right hsixteen 16

def someResults : List BatchedMetadata := [.failed .notFound, .found (someMetadata 1 .file)]

def answers : Answers := ⟨fun _ => .error (.notSupported, ""), session⟩

/-- One batch is written, too. -/
def batchPostcard : ViewPostcard where
  toAllocvec e := match e.message with
    | .metadataBatch results => if results = someResults then
        some (batchBytes scalar e.version e.requestId someResults) else none
    | _ => postcard.toAllocvec e
  fromBytes input := (envelope.decode input).map fun r =>
    ⟨r.1.1, r.1.2, (messageOf r.2).getD (.metadataBatch someResults)⟩
  fromBytes_toAllocvec {value bytes} h := by
    obtain ⟨version, id, message⟩ := value
    dsimp only at h
    split at h
    · split at h
      · rename_i hresults
        cases hresults
        cases h
        change (envelope.decode (envelope.encode (version, id) ++ _)).map _ = _
        rw [envelope.decode_encode, Option.map_some, messageOf, scalar, Format.decode_encode]
        rfl
      · cases h
    · obtain ⟨payload, hpayload, rfl⟩ := Option.map_eq_some_iff.1 h
      rw [envelope.decode_encode, Option.map_some, messageOf_message hpayload]
      rfl
  entry := viewEntry.encode
  view_encodes _ _ _ := rfl
  start_encodes _ _ _ _ _ _ _ := rfl
  chunk_encodes _ _ _ := rfl
  end_encodes _ _ := rfl

end Plain

/-- Two nodes, one of which is gone. -/
theorem metadataBatch_fits_two :
    (∀ s, s.InRange → (Plain.scalar s).length ≤ s.limit) ∧
      ∃ frame, (writeResponse Plain.batchPostcard Plain.zstd 1 (batchResponse Plain.answers [2, 1])
        true).on [] = (.ok (), [frame]) := by
  refine ⟨Plain.scalar_length, (metadataBatch_fits Plain.scalar_length _ _ 1).2 _ _ _ (by decide)
    (fun i m h => ?_) fun results h => ?_⟩
  · change Plain.session i = _ at h
    rw [Plain.session] at h
    split at h
    · cases h
      simp [Fits, metadataScalars, Plain.someMetadata, Scalar.InRange, NodeKind.ctorIdx]
    · cases h
  · cases h
    rfl

end QuickFS.Wire
