import Mathlib.Data.BitVec
import QuickFS.Lib.Formats

/-!
# Frames

How `crates/protocol` turns a message into the bytes of a frame and back, and how `transport-quic`
puts frames on a stream.  A frame is a word of 32 bits and a body.  The word holds the length of the
body and, in its highest bit, whether the body has been compressed; `encodeFrame` compresses only
when it is told that it may, and only what gets shorter by it.

Serialisation and compression are libraries of others.  A `Postcard` and a `Zstd` are what the
program calls of them, with the one law that it relies on: that reading undoes writing.  Neither law
says anything about bytes which come from somewhere else, so what is proved about a frame that a
peer has made up holds whatever the libraries do with it.

The main result is `frames_round_trip`.
-/

namespace QuickFS.Wire

abbrev Bytes := List UInt8

/-- `MAX_FRAME_SIZE`. -/
def maxFrameSize : ℕ := 1024 * 1024

/-- `FRAME_COMPRESSED_FLAG`. -/
def frameCompressedFlag : BitVec 32 := 1#32 <<< 31

/-- `FRAME_COMPRESSION_THRESHOLD`. -/
def frameCompressionThreshold : ℕ := 1024

inductive CodecError where
  | tooLarge (bytes : ℕ)
  | malformed
  | unsupportedVersion (version : ℕ)
  | decompress
deriving DecidableEq

/-! ## The libraries -/

/-- `postcard`, for the values of one type. -/
structure Postcard (α : Type) where
  toAllocvec : α → Option Bytes
  fromBytes : Bytes → Option α
  fromBytes_toAllocvec : ∀ {value bytes}, toAllocvec value = some bytes → fromBytes bytes = some value

/-- `zstd::bulk`, at the one level that is used.  The second argument of `decompress` is a bound for
its result. -/
structure Zstd where
  compress : Bytes → Option Bytes
  decompress : Bytes → ℕ → Option Bytes
  decompress_compress : ∀ {payload compressed capacity}, compress payload = some compressed →
    payload.length ≤ capacity → decompress compressed capacity = some payload

/-! ## Encoding and decoding -/

section Codec

variable {α : Type} (postcard : Postcard α) (fromBytes : Bytes → Option α) (zstd : Zstd)

def encode (value : α) : Except CodecError Bytes :=
  match postcard.toAllocvec value with
  | none => .error .malformed
  | some out => if out.length > maxFrameSize then .error (.tooLarge out.length) else .ok out

/-- `decode`, with the reader that postcard is for it. -/
def decode (bytes : Bytes) : Except CodecError α :=
  if bytes.length > maxFrameSize then .error (.tooLarge bytes.length)
  else
    match fromBytes bytes with
    | none => .error .malformed
    | some value => .ok value

/-- `payload.len() as u32`. -/
def lengthWord (payload : Bytes) : BitVec 32 := BitVec.ofNat 32 payload.length

def frameBody (payload : Bytes) : BitVec 32 × Bytes :=
  match zstd.compress payload with
  | some compressed =>
    if payload.length ≥ frameCompressionThreshold ∧ compressed.length < payload.length then
      (lengthWord compressed ||| frameCompressedFlag, compressed)
    else (lengthWord payload, payload)
  | none => (lengthWord payload, payload)

def encodeFrame (value : α) (compress : Bool) : Except CodecError (BitVec 32 × Bytes) :=
  match encode postcard value with
  | .error error => .error error
  | .ok payload =>
    if compress then .ok (frameBody zstd payload) else .ok (lengthWord payload, payload)

/-- The flag of a header, and the length of the body that follows it. -/
def parseFrameHeader (header : BitVec 32) : Except CodecError (Bool × ℕ) :=
  let compressed : Bool := header &&& frameCompressedFlag ≠ 0
  let length := (header &&& ~~~frameCompressedFlag).toNat
  if length > maxFrameSize then .error (.tooLarge length) else .ok (compressed, length)

def decodeFrame (compressed : Bool) (body : Bytes) : Except CodecError α :=
  if compressed then
    match zstd.decompress body maxFrameSize with
    | none => .error .decompress
    | some payload => decode fromBytes payload
  else decode fromBytes body

end Codec

/-! ## Headers -/

variable {payload body : Bytes}

theorem lengthWord_toNat (h : payload.length ≤ maxFrameSize) :
    (lengthWord payload).toNat = payload.length := by
  rw [lengthWord, BitVec.toNat_ofNat, Nat.mod_eq_of_lt]
  exact lt_of_le_of_lt h (by decide)

/-- A length never reaches the flag. -/
theorem lengthWord_getLsbD (h : payload.length ≤ maxFrameSize) :
    (lengthWord payload).getLsbD 31 = false := by
  rw [BitVec.getLsbD, lengthWord_toNat h]
  exact Nat.testBit_lt_two_pow (lt_of_le_of_lt h (by decide))

theorem getLsbD_flag {i : ℕ} : frameCompressedFlag.getLsbD i = decide (i = 31) := by
  rw [frameCompressedFlag, ← BitVec.twoPow_eq, BitVec.getLsbD_twoPow]
  by_cases hi : i = 31
  · subst hi
    rfl
  · simp [hi, Ne.symm hi]

theorem lengthWord_and_flag (h : payload.length ≤ maxFrameSize) :
    lengthWord payload &&& frameCompressedFlag = 0#32 := by
  apply BitVec.eq_of_getLsbD_eq
  intro i hi
  rw [BitVec.getLsbD_and, getLsbD_flag]
  by_cases h31 : i = 31
  · subst h31
    rw [lengthWord_getLsbD h, Bool.false_and]
    rfl
  · simp [h31]

theorem lengthWord_and_not_flag (h : payload.length ≤ maxFrameSize) :
    lengthWord payload &&& ~~~frameCompressedFlag = lengthWord payload := by
  apply BitVec.eq_of_getLsbD_eq
  intro i hi
  rw [BitVec.getLsbD_and, BitVec.getLsbD_not, getLsbD_flag]
  by_cases h31 : i = 31
  · subst h31
    rw [lengthWord_getLsbD h, Bool.false_and]
  · simp [h31, hi]

theorem flag_and_not_flag : frameCompressedFlag &&& ~~~frameCompressedFlag = 0#32 := by decide

/-- The header of a body that is sent as it is. -/
theorem parse_raw (h : body.length ≤ maxFrameSize) :
    parseFrameHeader (lengthWord body) = .ok (false, body.length) := by
  simp only [parseFrameHeader, lengthWord_and_flag h, lengthWord_and_not_flag h, lengthWord_toNat h]
  rw [if_neg (Nat.not_lt.mpr h)]
  rfl

/-- The header of a body that has been compressed. -/
theorem parse_compressed (h : body.length ≤ maxFrameSize) :
    parseFrameHeader (lengthWord body ||| frameCompressedFlag) = .ok (true, body.length) := by
  have hflag : (lengthWord body ||| frameCompressedFlag) &&& frameCompressedFlag =
      frameCompressedFlag := by
    rw [BitVec.and_comm, BitVec.and_or_distrib_left, BitVec.and_comm, lengthWord_and_flag h,
      BitVec.and_self, BitVec.zero_or]
  have hlength : (lengthWord body ||| frameCompressedFlag) &&& ~~~frameCompressedFlag =
      lengthWord body := by
    rw [BitVec.and_comm, BitVec.and_or_distrib_left, BitVec.and_comm, lengthWord_and_not_flag h,
      BitVec.and_comm, flag_and_not_flag, BitVec.or_zero]
  simp only [parseFrameHeader, hflag, hlength, lengthWord_toNat h]
  rw [if_neg (Nat.not_lt.mpr h)]
  rfl

/-- What a peer announces is never longer than a frame may be. -/
theorem length_le_of_parse {header : BitVec 32} {compressed : Bool} {length : ℕ}
    (h : parseFrameHeader header = .ok (compressed, length)) : length ≤ maxFrameSize := by
  rw [parseFrameHeader] at h
  split at h
  · cases h
  · cases h
    omega

/-! ## Round trips -/

section RoundTrip

variable {α : Type} (postcard : Postcard α) (zstd : Zstd)

variable {value : α} {body payload : Bytes}

theorem encode_eq_ok (h : encode postcard value = .ok payload) :
    postcard.toAllocvec value = some payload ∧ payload.length ≤ maxFrameSize := by
  rw [encode] at h
  split at h
  · cases h
  rename_i out hout
  split at h
  · cases h
  · cases h
    exact ⟨hout, by omega⟩

variable {fromBytes : Bytes → Option α} {compress : Bool} {bytes : Bytes} {header : BitVec 32}

/-- A body is the payload, or it is the payload compressed, and then it is shorter. -/
theorem frameBody_cases (payload : Bytes) :
    frameBody zstd payload = (lengthWord payload, payload) ∨
      ∃ compressed, zstd.compress payload = some compressed ∧ compressed.length < payload.length ∧
        frameBody zstd payload = (lengthWord compressed ||| frameCompressedFlag, compressed) := by
  rw [frameBody]
  split
  · rename_i compressed hcompress
    split
    · rename_i hshorter
      exact .inr ⟨compressed, hcompress, hshorter.2, rfl⟩
    · exact .inl rfl
  · exact .inl rfl

/-- **What `encode_frame` makes of a value**: the payload itself, or what it compresses to. -/
theorem encodeFrame_cases (h : encodeFrame postcard zstd value compress = .ok (header, body)) :
    ∃ payload, postcard.toAllocvec value = some payload ∧ payload.length ≤ maxFrameSize ∧
      (header = lengthWord body ∧ body = payload ∨
        compress = true ∧ header = lengthWord body ||| frameCompressedFlag ∧
          zstd.compress payload = some body ∧ body.length < payload.length) := by
  rw [encodeFrame] at h
  split at h
  · cases h
  rename_i payload hpayload
  obtain ⟨hencoded, hle⟩ := encode_eq_ok postcard hpayload
  refine ⟨payload, hencoded, hle, ?_⟩
  split at h
  · rename_i hcompress
    injection h with h
    rcases frameBody_cases zstd payload with hraw | ⟨compressed, hzstd, hshorter, hbody⟩
    · rw [hraw] at h
      cases h
      exact .inl ⟨rfl, rfl⟩
    rw [hbody] at h
    cases h
    exact .inr ⟨hcompress, rfl, hzstd, hshorter⟩
  · cases h
    exact .inl ⟨rfl, rfl⟩

/-- A value whose payload is short enough can be sent. -/
theorem encodeFrame_of_le (compress : Bool) (h : postcard.toAllocvec value = some payload)
    (hle : payload.length ≤ maxFrameSize) :
    ∃ header body, encodeFrame postcard zstd value compress = .ok (header, body) := by
  simp only [encodeFrame, encode, h, if_neg (Nat.not_lt.2 hle)]
  split
  · exact ⟨_, _, rfl⟩
  · exact ⟨_, _, rfl⟩

/-- And one whose payload is not cannot. -/
theorem encodeFrame_of_lt (compress : Bool) (h : postcard.toAllocvec value = some payload)
    (hlt : maxFrameSize < payload.length) :
    encodeFrame postcard zstd value compress = .error (.tooLarge payload.length) := by
  simp only [encodeFrame, encode, h]
  rw [if_pos hlt]

/-- A frame is read as what it was made of. -/
theorem decodeFrame_encodeFrame
    (h : encodeFrame postcard zstd value compress = .ok (header, body)) :
    ∃ flag payload, parseFrameHeader header = .ok (flag, body.length) ∧
      postcard.toAllocvec value = some payload ∧ body.length ≤ payload.length ∧
      decodeFrame postcard.fromBytes zstd flag body = .ok value := by
  obtain ⟨payload, hencoded, hle, hbody⟩ := encodeFrame_cases postcard zstd h
  have hdecode : decode postcard.fromBytes payload = .ok value := by
    rw [decode, if_neg (by omega), postcard.fromBytes_toAllocvec hencoded]
  rcases hbody with ⟨rfl, rfl⟩ | ⟨-, rfl, hzstd, hshorter⟩
  · exact ⟨false, body, parse_raw hle, hencoded, le_rfl, hdecode⟩
  refine ⟨true, payload, parse_compressed (by omega), hencoded, hshorter.le, ?_⟩
  simp only [decodeFrame, if_true, zstd.decompress_compress hzstd hle]
  exact hdecode

/-- What the reader of a frame is handed: the result of `decode_frame` with a reader that returns
what it is given. -/
def handed (compressed : Bool) (body : Bytes) : Except CodecError Bytes :=
  decodeFrame some zstd compressed body

/-- A reader and what it makes of the bytes it is handed. -/
def readWith (fromBytes : Bytes → Option α) (bytes : Bytes) : Except CodecError α :=
  match fromBytes bytes with
  | none => .error .malformed
  | some value => .ok value

theorem decode_eq_handed :
    decode fromBytes bytes = (decode some bytes).bind (readWith fromBytes) := by
  rw [decode, decode]
  split
  · rfl
  · rfl

theorem decodeFrame_eq_handed (fromBytes : Bytes → Option α) (compressed : Bool) (body : Bytes) :
    decodeFrame fromBytes zstd compressed body =
      (handed zstd compressed body).bind (readWith fromBytes) := by
  rw [handed, decodeFrame, decodeFrame]
  split
  · split
    · rfl
    · exact decode_eq_handed
  · exact decode_eq_handed

theorem decode_some_length (h : decode some bytes = .ok payload) :
    payload.length ≤ maxFrameSize := by
  rw [decode] at h
  split at h
  · cases h
  · cases h
    omega

theorem handed_length {compressed : Bool} (h : handed zstd compressed body = .ok payload) :
    payload.length ≤ maxFrameSize := by
  rw [handed, decodeFrame] at h
  split at h
  · split at h
    · cases h
    · exact decode_some_length h
  · exact decode_some_length h

/-- **Frames are read as they were written, and no frame makes postcard read more than a frame's
worth.**  Whatever the flag said, the header of a frame that `encode_frame` has made is taken apart
into a flag and the length of its body, the body is not longer than the value's own encoding, and
`decode_frame` gets the value back.  And of a frame that a peer has sent, whatever is in it,
postcard is handed at most `MAX_FRAME_SIZE` bytes: what it is handed is all that the result depends
on. -/
theorem frames_round_trip :
    (∀ (value : α) (compress : Bool) (header : BitVec 32) (body : Bytes),
      encodeFrame postcard zstd value compress = .ok (header, body) →
        ∃ flag payload, parseFrameHeader header = .ok (flag, body.length) ∧
          postcard.toAllocvec value = some payload ∧ body.length ≤ payload.length ∧
          decodeFrame postcard.fromBytes zstd flag body = .ok value) ∧
    (∀ (header : BitVec 32) (flag : Bool) (body : Bytes),
      parseFrameHeader header = .ok (flag, body.length) →
        body.length ≤ maxFrameSize ∧
        decodeFrame postcard.fromBytes zstd flag body =
          (handed zstd flag body).bind (readWith postcard.fromBytes) ∧
        ∀ payload, handed zstd flag body = .ok payload → payload.length ≤ maxFrameSize) := by
  refine ⟨fun value compress header body h => decodeFrame_encodeFrame postcard zstd h,
    fun header flag body h => ⟨length_le_of_parse h, ?_, ?_⟩⟩
  · exact decodeFrame_eq_handed zstd postcard.fromBytes flag body
  · exact fun payload hpayload => handed_length zstd hpayload

end RoundTrip

/-! ## Frames on a stream -/

/-- `TransportError`, as far as reading a frame can end in it. -/
inductive TransportError where
  | readExact
  | codec (error : CodecError)
deriving DecidableEq

/-- What `write_frame` puts on the stream: `prefix.to_be_bytes()`, and then the body. -/
def frameBytes (header : BitVec 32) (body : Bytes) : Bytes := (Format.fixed 4).encode header ++ body

section Stream

variable {α : Type} (postcard : Postcard α) (zstd : Zstd)

/-- `read_frame`, and what is left of the stream. -/
def readFrame (stream : Bytes) : Except TransportError (α × Bytes) :=
  match (Format.fixed 4).decode stream with
  | none => .error .readExact
  | some (header, rest) =>
    match parseFrameHeader header with
    | .error error => .error (.codec error)
    | .ok (compressed, size) =>
      if rest.length < size then .error .readExact
      else
        match decodeFrame postcard.fromBytes zstd compressed (rest.take size) with
        | .error error => .error (.codec error)
        | .ok value => .ok (value, rest.drop size)

/-- Reading a frame takes it off the stream. -/
theorem readFrame_length_lt {stream rest : Bytes} {value : α}
    (h : readFrame postcard zstd stream = .ok (value, rest)) : rest.length < stream.length := by
  rw [readFrame] at h
  split at h
  · cases h
  rename_i header body hheader
  split at h
  · cases h
  rename_i compressed size hparse
  split at h
  · cases h
  split at h
  · cases h
  cases h
  rw [Format.length_of_fixed_decode hheader, List.length_drop]
  omega

/-- A frame at the front of a stream is read, and the rest is left. -/
theorem readFrame_frameBytes {value : α} {compress : Bool} {header : BitVec 32}
    (h : encodeFrame postcard zstd value compress = .ok (header, body)) (rest : Bytes) :
    readFrame postcard zstd (frameBytes header body ++ rest) = .ok (value, rest) := by
  obtain ⟨flag, payload, hparse, -, -, hdecode⟩ := decodeFrame_encodeFrame postcard zstd h
  have hheader : (Format.fixed 4).decode (frameBytes header body ++ rest) =
      some (header, body ++ rest) := by
    rw [frameBytes, List.append_assoc, Format.decode_encode]
  rw [readFrame]
  simp only [hheader, hparse, List.take_left', List.drop_left', hdecode]
  rw [if_neg (by rw [List.length_append]; omega)]

end Stream

end QuickFS.Wire
