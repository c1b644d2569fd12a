import ClickHouse.Decompression

/-!
# The buffer of a frame

`Decompress` works in a buffer `tmp` of the size that the header of a frame names.  It writes the
header there, has the payload read in after it, and gives ranges of the buffer to the hash function
and to the codec.  Here it is modelled with these ranges and with the arithmetic of their sizes,
and refines `readFrame`.
-/

namespace ClickHouse

open Kit List

/-! ## BufferOutput -/

/-- `BufferOutput`: the buffer it writes to, and `pos_`. -/
structure BufferOutput where
  buffer : Bytes
  pos : Nat

/-- `memcpy` of the data to a position of a buffer. -/
def overwrite (buffer : Bytes) (start : Nat) (data : Bytes) : Bytes :=
  buffer.take start ++ (data ++ buffer.drop (start + data.length))

namespace BufferOutput

/-- `BufferOutput::DoNext`: the buffer grows if there is no room for `len` bytes at `pos_`. -/
def doNext (out : BufferOutput) (len : Nat) : BufferOutput where
  buffer :=
    if out.pos + len > out.buffer.length then
      out.buffer ++ replicate (out.pos + len - out.buffer.length) 0
    else out.buffer
  pos := out.pos + len

/-- `ZeroCopyOutput::DoWrite`.  Its loop ends after one round, since `DoNext` gives room for all
the bytes it is asked for. -/
def write (out : BufferOutput) (data : Bytes) : BufferOutput :=
  ⟨overwrite (out.doNext data.length).buffer out.pos data, (out.doNext data.length).pos⟩

/-- The data replace what stood at the position, and may reach beyond the end of the buffer. -/
theorem write_eq (written rest data : Bytes) :
    write ⟨written ++ rest, written.length⟩ data =
      ⟨(written ++ data) ++ rest.drop data.length, (written ++ data).length⟩ := by
  have grown : (doNext ⟨written ++ rest, written.length⟩ data.length).buffer =
      written ++ (rest ++ replicate (data.length - rest.length) 0) := by
    simp only [doNext, length_append]
    split
    · rw [append_assoc, Nat.add_sub_add_left]
    · have room : data.length - rest.length = 0 := by omega
      rw [room, replicate_zero, append_nil]
  have kept : (rest ++ replicate (data.length - rest.length) 0).drop data.length =
      rest.drop data.length := by
    simp [drop_append]
  rw [write, grown, overwrite]
  simp [doNext, kept]

end BufferOutput

/-! ## Ranges of the buffer -/

/-- A range of a buffer.  Its length is an `Int`, since the codecs are given an `int`. -/
structure Span where
  start : Nat
  len : Int
deriving DecidableEq

namespace Span

def Inside (span : Span) (buffer : Bytes) : Prop :=
  0 ≤ span.len ∧ span.start + span.len ≤ buffer.length

instance (span : Span) (buffer : Bytes) : Decidable (span.Inside buffer) :=
  inferInstanceAs (Decidable (_ ∧ _))

/-- The bytes of the range. -/
def of (span : Span) (buffer : Bytes) : Bytes := (buffer.drop span.start).take span.len.toNat

end Span

/-- `compressed - HEADER_SIZE`, a difference of `size_t`. -/
def payloadSize (compressed : Nat) : Nat := (compressed + 2 ^ 64 - headerSize) % 2 ^ 64

/-- `static_cast<int>` of a `size_t`. -/
def toInt (size : Nat) : Int := Int.bmod size (2 ^ 32)

/-- The buffer `tmp` once the header is written to it. -/
def headerBuffer (byte compressed original : Nat) : Bytes :=
  ((((BufferOutput.mk (replicate compressed 0) 0).write (encodeLE 1 byte)).write
    (encodeLE 4 compressed)).write (encodeLE 4 original)).buffer

/-- The buffer `tmp` and the ranges of it that `Decompress` uses. -/
structure FrameAccess where
  tmp : Bytes
  /-- What `ReadBytes` is to fill. -/
  payload : Span
  /-- What is hashed. -/
  hashed : Span
  /-- What the codec is given. -/
  packed : Span

def frameAccess (byte compressed original : Nat) : FrameAccess where
  tmp := headerBuffer byte compressed original
  payload := ⟨headerSize, payloadSize compressed⟩
  hashed := ⟨0, compressed⟩
  packed := ⟨headerSize, toInt (payloadSize compressed)⟩

/-! ## Decompress -/

def FrameFields.access (fields : FrameFields) : FrameAccess :=
  frameAccess fields.byte fields.compressed fields.original

section Decompress

variable {σ : Type} [Source Error σ] [Codec]

/-- `Decompress` once the payload is read in.  A range that is not inside of the buffer is one of
memory that the buffer does not own. -/
def decompressPayload (fields : FrameFields) (payload : Bytes) : EStateM Error σ (Option Bytes) :=
  let access := fields.access
  let tmp := overwrite access.tmp access.payload.start payload
  if ¬ access.hashed.Inside tmp then throw .undefinedBehavior
  else if fields.hash ≠ (Codec.cityHash128 (access.hashed.of tmp)).val then
    throw (.compressionError (ascii "data was corrupted"))
  else if ¬ access.packed.Inside tmp then throw .undefinedBehavior
  else unpackFrame fields.method fields.original (access.packed.of tmp)

/-- `Decompress` from the allocation of `tmp` on. -/
def decompressInto (fields : FrameFields) : EStateM Error σ (Option Bytes) :=
  let access := fields.access
  if ¬ access.payload.Inside access.tmp then throw .undefinedBehavior
  else do
    let some payload ← readFixed access.payload.len.toNat | pure none
    decompressPayload fields payload

/-- `CompressedInput::Decompress` -/
def decompress : EStateM Error σ (Option Bytes) := do
  let some fields ← readHeader | pure none
  if fields.compressed > dbmsMaxCompressedSize then
    throw (.compressionError (ascii "compressed data too big"))
  else decompressInto fields

end Decompress

/-! ## The ranges of a frame -/

theorem headerBuffer_eq (byte compressed original : Nat) :
    headerBuffer byte compressed original =
      frameHeader byte compressed original ++ replicate (compressed - headerSize) 0 := by
  have start : BufferOutput.mk (replicate compressed 0) 0 =
      ⟨[] ++ replicate compressed 0, ([] : Bytes).length⟩ := rfl
  rw [headerBuffer, start, BufferOutput.write_eq, BufferOutput.write_eq, BufferOutput.write_eq]
  simp [frameHeader, headerSize, Nat.sub_sub]

theorem length_frameHeader (byte compressed original : Nat) :
    (frameHeader byte compressed original).length = headerSize := by
  simp [frameHeader, headerSize]

/-- `tmp` is grown to the size of the header if it is shorter. -/
theorem length_headerBuffer (byte compressed original : Nat) :
    (headerBuffer byte compressed original).length = max compressed headerSize := by
  rw [headerBuffer_eq, length_append, length_frameHeader, length_replicate]
  omega

variable {compressed byte original : Nat}

theorem payloadSize_eq (long : headerSize ≤ compressed)
    (small : compressed ≤ dbmsMaxCompressedSize) :
    payloadSize compressed = compressed - headerSize := by
  unfold headerSize dbmsMaxCompressedSize at *
  unfold payloadSize headerSize
  omega

/-- Below the size of the header the difference wraps around. -/
theorem payloadSize_wraps (short : compressed < headerSize) :
    payloadSize compressed = 2 ^ 64 - (headerSize - compressed) := by
  unfold headerSize at *
  unfold payloadSize headerSize
  omega

theorem toInt_eq {size : Nat} (fits : size < 2 ^ 31) : toInt size = size := by
  unfold toInt
  exact Int.bmod_eq_of_le (by omega) (by omega)

/-- The buffer and the ranges of a frame that is not shorter than its header. -/
theorem frameAccess_eq (long : headerSize ≤ compressed)
    (small : compressed ≤ dbmsMaxCompressedSize) : frameAccess byte compressed original =
      { tmp := frameHeader byte compressed original ++ replicate (compressed - headerSize) 0
        payload := ⟨headerSize, (compressed - headerSize : Nat)⟩
        hashed := ⟨0, compressed⟩
        packed := ⟨headerSize, (compressed - headerSize : Nat)⟩ } := by
  have limit : dbmsMaxCompressedSize < 2 ^ 31 := by decide
  have fits : compressed - headerSize < 2 ^ 31 := by omega
  rw [frameAccess, headerBuffer_eq, payloadSize_eq long small, toInt_eq fits]

/-- What is asked of the ranges: the request is the difference of the sizes, it starts after the
header, and all ranges are inside of the buffer. -/
structure FrameAccess.Exact (access : FrameAccess) (compressed : Nat) : Prop where
  request : access.payload.len = (compressed : Int) - headerSize
  start : access.payload.start = headerSize
  payload : access.payload.Inside access.tmp
  hashed : access.hashed.Inside access.tmp
  packed : access.packed.Inside access.tmp

theorem frameAccess_exact (long : headerSize ≤ compressed)
    (small : compressed ≤ dbmsMaxCompressedSize) :
    (frameAccess byte compressed original).Exact compressed := by
  have length : (frameHeader byte compressed original ++
      replicate (compressed - headerSize) 0).length = compressed := by
    rw [length_append, length_frameHeader, length_replicate]
    omega
  rw [frameAccess_eq long small]
  constructor <;> simp only [Span.Inside, length] <;> omega

/-- The buffer of a frame that is shorter than its header does not have the room for what is
requested. -/
theorem not_inside_of_short (short : compressed < headerSize) :
    ¬ (frameAccess byte compressed original).payload.Inside
      (frameAccess byte compressed original).tmp := by
  have length := length_headerBuffer byte compressed original
  have size := payloadSize_wraps short
  simp only [frameAccess, Span.Inside, length, size]
  unfold headerSize at *
  omega

/-! ## The refinement -/

theorem overwrite_payload (header zeros : Bytes) {payload : Bytes} (length : payload.length = zeros.length) :
    overwrite (header ++ zeros) header.length payload = header ++ payload := by
  simp [overwrite, length]

section Refines

variable {σ : Type} [Codec]

/-- What is hashed is the header with the payload, and the codec is given the payload. -/
theorem decompressPayload_eq {fields : FrameFields} (long : headerSize ≤ fields.compressed)
    (small : fields.compressed ≤ dbmsMaxCompressedSize) {payload : Bytes}
    (length : payload.length = fields.compressed - headerSize) :
    decompressPayload (σ := σ) fields payload =
      if fields.hash ≠ (Codec.cityHash128
          (frameHeader fields.byte fields.compressed fields.original ++ payload)).val then
        throw (.compressionError (ascii "data was corrupted"))
      else unpackFrame fields.method fields.original payload := by
  have header := length_frameHeader fields.byte fields.compressed fields.original
  have filled := overwrite_payload (frameHeader fields.byte fields.compressed fields.original)
    (replicate (fields.compressed - headerSize) 0) (by rw [length, length_replicate])
  have whole : (frameHeader fields.byte fields.compressed fields.original ++ payload).length =
      fields.compressed := by
    rw [length_append, header, length]
    omega
  rw [header] at filled
  have hashed : (⟨0, fields.compressed⟩ : Span).of
      (frameHeader fields.byte fields.compressed fields.original ++ payload) =
      frameHeader fields.byte fields.compressed fields.original ++ payload :=
    take_of_length_le (Nat.le_of_eq whole)
  have packed : (⟨headerSize, (fields.compressed - headerSize : Nat)⟩ : Span).of
      (frameHeader fields.byte fields.compressed fields.original ++ payload) = payload := by
    rw [Span.of, drop_left' header, Int.toNat_natCast, ← length, take_length]
  simp only [decompressPayload, FrameFields.access, frameAccess_eq long small, filled, hashed, packed]
  rw [if_neg, if_neg (c := ¬ Span.Inside ⟨headerSize, _⟩ _)]
  · simp only [not_not, Span.Inside, whole]
    omega
  · simp only [not_not, Span.Inside, whole]
    omega

variable [Source Error σ]

omit [Codec] in
/-- What is read at once has the length that was asked for. -/
theorem readFixed_bind_congr {width : Nat} {α : Type} {f g : Option Bytes → EStateM Error σ α}
    (failed : f none = g none)
    (done : ∀ bytes : Bytes, bytes.length = width → f (some bytes) = g (some bytes)) :
    readFixed width >>= f = readFixed width >>= g := by
  unfold readFixed
  simp only [bind_assoc, pure_bind]
  refine bind_congr fun bytes => ?_
  by_cases length : bytes.length = width
  · simp only [if_pos length, done bytes length]
  · simp only [if_neg length, failed]

theorem decompressInto_short {fields : FrameFields} (short : fields.compressed < headerSize) :
    decompressInto (σ := σ) fields = throw .undefinedBehavior := by
  rw [decompressInto, if_pos]
  exact not_inside_of_short short

/-- `Decompress` with its buffer does what `readFrame` says. -/
theorem decompress_eq : decompress (σ := σ) = readFrame := by
  unfold decompress readFrame readFrameWithin
  refine bind_congr fun header => ?_
  cases header with
  | none => rfl
  | some fields =>
    by_cases big : fields.compressed > dbmsMaxCompressedSize
    · simp only [if_pos big]
    · simp only [if_neg big]
      unfold readPayload
      by_cases short : fields.compressed < headerSize
      · rw [if_pos short, decompressInto_short short]
      · have long := Nat.le_of_not_lt short
        have inside : fields.access.payload.Inside fields.access.tmp :=
          (frameAccess_exact long (Nat.le_of_not_lt big)).payload
        rw [if_neg short, decompressInto, if_neg (not_not_intro inside), FrameFields.access,
          frameAccess_eq long (Nat.le_of_not_lt big)]
        refine readFixed_bind_congr rfl fun payload length => ?_
        exact decompressPayload_eq long (Nat.le_of_not_lt big) length

end Refines

/-! ## Every header -/

/-- The 25 bytes of a header, whatever they are. -/
structure RawHeader where
  hash : Word 16
  byte : Word 1
  compressed : Word 4
  original : Word 4

namespace RawHeader

def bytes (header : RawHeader) : Bytes :=
  header.hash.1 ++ (header.byte.1 ++ (header.compressed.1 ++ header.original.1))

def fields (header : RawHeader) (method : CompressionMethod) : FrameFields :=
  ⟨header.hash.1, header.byte.toNat, method, header.compressed.toNat, header.original.toNat⟩

end RawHeader

section Sizes

variable {σ : Type} [LawfulSource Error σ] [Codec]

/-- `Decompress` refuses the header, or goes on with ranges that are exact. -/
def SizesExact (header : RawHeader) (s : σ) : Prop :=
  (∃ text m, Throws decompress s (.compressionError text) m) ∨
  ∃ method m, decompress s = decompressInto (header.fields method) m ∧
    (header.fields method).access.Exact header.compressed.toNat

omit [Codec] in
theorem decodes_readFixedUInt_word {w : Nat} (word : Word w) :
    Decodes (σ := σ) (readFixedUInt w) word.1 (some word.toNat) := by
  refine (decodes_readFixed word.2).bind_pure ?_
  exact .pure _

variable {header : RawHeader} {s t : σ} {rest : Bytes}

theorem decompress_unsupported (unsupported : methodOfByte header.byte.toNat = none)
    (feeds : LawfulSource.Feeds s (header.bytes ++ rest) t) :
    ∃ text m, Throws decompress s (.compressionError text) m := by
  simp only [RawHeader.bytes, append_assoc] at feeds
  obtain ⟨_, hash, feeds⟩ := decodes_readFixed header.hash.2 feeds
  obtain ⟨m, byte, feeds⟩ := decodes_readFixedUInt_word header.byte feeds
  refine ⟨ascii "unsupported compression method " ++ toDecimal header.byte.toNat, m,
    Throws.bind (hash.bind_throws (byte.bind_throws ?_)) _⟩
  simp only [unsupported]
  exact throws_throw _ m

theorem decompress_supported {method : CompressionMethod}
    (supported : methodOfByte header.byte.toNat = some method)
    (feeds : LawfulSource.Feeds s (header.bytes ++ rest) t) :
    ∃ m, LawfulSource.Feeds m rest t ∧ decompress s =
      (if header.compressed.toNat > dbmsMaxCompressedSize then
        throw (.compressionError (ascii "compressed data too big"))
      else decompressInto (header.fields method) : EStateM Error σ (Option Bytes)) m := by
  have decodes : Decodes (σ := σ) readHeader header.bytes (some (header.fields method)) := by
    refine (decodes_readFixed header.hash.2).bind ((decodes_readFixedUInt_word header.byte).bind ?_)
    simp only [supported]
    rw [← append_nil header.original.1]
    exact (decodes_readFixedUInt_word _).bind ((decodes_readFixedUInt_word _).bind (.pure _))
  obtain ⟨m, run, feeds⟩ := decodes feeds
  refine ⟨m, feeds, ?_⟩
  unfold decompress
  rw [run.bind_eq]
  rfl

/-- The sizes of a header are refused or used without wrap-around exactly if it names no supported
method, or a size above the limit, or one that covers the header itself. -/
theorem sizesExact_iff (header : RawHeader)
    (feeds : LawfulSource.Feeds s (header.bytes ++ rest) t) :
    SizesExact header s ↔ methodOfByte header.byte.toNat = none ∨
      dbmsMaxCompressedSize < header.compressed.toNat ∨ headerSize ≤ header.compressed.toNat := by
  cases supported : methodOfByte header.byte.toNat with
  | none => exact iff_of_true (.inl (decompress_unsupported supported feeds)) (.inl rfl)
  | some method =>
    obtain ⟨m, -, ran⟩ := decompress_supported supported feeds
    by_cases big : header.compressed.toNat > dbmsMaxCompressedSize
    · rw [if_pos big] at ran
      exact iff_of_true (.inl ⟨_, m, ran⟩) (.inr (.inl big))
    · rw [if_neg big] at ran
      by_cases long : headerSize ≤ header.compressed.toNat
      · refine iff_of_true (.inr ⟨method, m, ran, ?_⟩) (.inr (.inr long))
        exact frameAccess_exact long (Nat.le_of_not_lt big)
      · have short := Nat.lt_of_not_le long
        refine iff_of_false ?_ (by simp [big, long])
        rw [decompressInto_short short] at ran
        rintro (⟨text, m', throws⟩ | ⟨method, m', -, exact⟩)
        · cases ran.symm.trans throws
        · exact not_inside_of_short short exact.payload

end Sizes

/-- A header of LZ4 that names the given sizes. -/
def lz4Header (compressed original : Nat) : RawHeader :=
  ⟨Word.ofNat 16 0, Word.ofNat 1 0x82, Word.ofNat 4 compressed, Word.ofNat 4 original⟩

theorem sizesExact_lz4Header :
    letI : Codec := storingCodec
    SizesExact (lz4Header 12 3) (⟨(lz4Header 12 3).bytes ++ [1, 2, 3]⟩ : ArrayInput) := by
  let _ : Codec := storingCodec
  refine (sizesExact_iff (lz4Header 12 3)
    (show LawfulSource.Feeds (⟨(lz4Header 12 3).bytes ++ [1, 2, 3]⟩ : ArrayInput) _ ⟨[]⟩ from
      (append_nil _).symm)).mpr (.inr (.inr ?_))
  decide

/-- A frame that is said to have 8 bytes: 2 ^ 64 - 1 bytes are requested, for a buffer of 9. -/
theorem not_sizesExact_short :
    letI : Codec := storingCodec
    payloadSize 8 = 2 ^ 64 - 1 ∧ (headerBuffer 0x82 8 0).length = 9 ∧
      ¬ SizesExact (lz4Header 8 0) (⟨(lz4Header 8 0).bytes ++ [1, 2, 3]⟩ : ArrayInput) := by
  let _ : Codec := storingCodec
  refine ⟨by decide, by decide, ?_⟩
  rintro (⟨text, m, throws⟩ | ⟨method, m, -, exact⟩)
  · cases throws
  · have short : (lz4Header 8 0).compressed.toNat < headerSize := by decide
    exact not_inside_of_short short exact.payload

end ClickHouse
