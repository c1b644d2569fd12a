import ClickHouse.Kit.Chunked
import ClickHouse.Output
import ClickHouse.WireFormat

/-!
# Compressed streams

`compressed.cpp`: `CompressedOutput` sends what it is given as frames of
compressed chunks, and `CompressedInput` reads such frames.  A frame is the
hash of what follows, the method, the two sizes and the compressed chunk.  The
codecs and the hash function are parameters.
-/

namespace ClickHouse

open Kit

inductive CompressionMethod
  | none
  | lz4
  | zstd
deriving DecidableEq, Repr

/-- `CompressionMethodByte` of a method that compresses. -/
def CompressionMethod.byte : CompressionMethod → Nat
  | .none => 0x02
  | .lz4 => 0x82
  | .zstd => 0x90

/-- The vendored libraries.  A compressor or a decompressor is given the size of its output buffer
and fails with the text that stands for its error code. -/
class Codec where
  compress : CompressionMethod → Bytes → Nat → Except Bytes Bytes
  decompress : CompressionMethod → Bytes → Nat → Except Bytes Bytes
  cityHash128 : Bytes → Word 16

def headerSize : Nat := 9

def extraCompressBufferSize : Nat := 4096

def dbmsMaxCompressedSize : Nat := 0x40000000

/-- `LZ4_compressBound` of a size that is converted to `int`; 0 is an error. -/
def lz4CompressBound (size : Nat) : Nat :=
  let size := size % 2 ^ 32
  if size > 0x7E000000 then 0 else size + size / 255 + 16

/-- `ZSTD_compressBound` of a size that is converted to `int`; a negative `int` is an error. -/
def zstdCompressBound (size : Nat) : Nat :=
  let size := size % 2 ^ 32
  if size ≥ 2 ^ 31 then 0
  else size + size / 2 ^ 8 + if size < 128 * 2 ^ 10 then (128 * 2 ^ 10 - size) / 2 ^ 11 else 0

def CompressionMethod.bound : CompressionMethod → Nat → Nat
  | .none, _ => 0
  | .lz4, size => lz4CompressBound size
  | .zstd, size => zstdCompressBound size

/-- The header of a frame, which is hashed with the chunk. -/
def frameHeader (method compressed original : Nat) : Bytes :=
  encodeLE 1 method ++ encodeLE 4 compressed ++ encodeLE 4 original

/-! ## CompressedInput -/

section Input

variable {σ : Type} [Source Error σ] [Codec]

/-- The method a frame names. -/
def methodOfByte (byte : Nat) : Option CompressionMethod :=
  if byte = CompressionMethod.lz4.byte then some .lz4
  else if byte = CompressionMethod.zstd.byte then some .zstd
  else none

def decompressFailed (method : CompressionMethod) (error : Bytes) : Error :=
  match method with
  | .zstd => .compressionError (ascii "can't decompress ZSTD-encoded data, ZSTD error: " ++ error)
  | _ => .compressionError (ascii "can't decompress LZ4-encoded data")

/-- The header of a frame whose method is known, with the hash before it. -/
structure FrameFields where
  hash : Bytes
  byte : Nat
  method : CompressionMethod
  compressed : Nat
  original : Nat

/-- What `Decompress` reads first. -/
def readHeader : EStateM Error σ (Option FrameFields) := do
  let some hash ← readFixed 16 | pure none
  let some byte ← readFixedUInt 1 | pure none
  match methodOfByte byte with
  | none => throw (.compressionError (ascii "unsupported compression method " ++ toDecimal byte))
  | some method => do
    let some compressed ← readFixedUInt 4 | pure none
    let some original ← readFixedUInt 4 | pure none
    pure (some ⟨hash, byte, method, compressed, original⟩)

/-- The buffer `data_` that is filled from a payload whose hash is right.  It has the original size,
whatever the codec fills of it. -/
def unpackFrame (method : CompressionMethod) (original : Nat) (packed : Bytes) :
    EStateM Error σ (Option Bytes) :=
  match Codec.decompress method packed original with
  | .error error => throw (decompressFailed method error)
  | .ok data => pure (some (data.take original ++ List.replicate (original - data.length) 0))

/-- The payload of a frame whose size is within the limit. -/
def readPayload (fields : FrameFields) : EStateM Error σ (Option Bytes) :=
  -- The rest of a frame that is shorter than its header is read past the end of the buffer.
  if fields.compressed < headerSize then throw .undefinedBehavior
  else do
    let some packed ← readFixed (fields.compressed - headerSize) | pure none
    if fields.hash ≠ (Codec.cityHash128
        (frameHeader fields.byte fields.compressed fields.original ++ packed)).val then
      throw (.compressionError (ascii "data was corrupted"))
    else unpackFrame fields.method fields.original packed

/-- `Decompress` with any limit on the size of a frame. -/
def readFrameWithin (limit : Nat) : EStateM Error σ (Option Bytes) := do
  let some fields ← readHeader | pure none
  if fields.compressed > limit then throw (.compressionError (ascii "compressed data too big"))
  else readPayload fields

/-- `CompressedInput::Decompress`, which returns the buffer `data_` it fills, or false. -/
def readFrame : EStateM Error σ (Option Bytes) := readFrameWithin dbmsMaxCompressedSize

end Input

/-- `CompressedInput`: what is left of the current chunk, and the stream of frames that `DoNext`
takes the next chunk from. -/
abbrev CompressedInput (σ : Type) [Source Error σ] [Codec] : Type := Chunked (readFrame (σ := σ))

namespace CompressedInput

variable {σ : Type} [Source Error σ] [Codec]

abbrev doNext : Nat → EStateM Error (CompressedInput σ) Bytes := Chunked.next

/-- The destructor, where no exception is being handled. -/
def destroy : EStateM Error (CompressedInput σ) Unit := do
  let s ← get
  if s.mem ≠ [] then throw (.compressionError (ascii "some data was not read"))

end CompressedInput

/-! ## CompressedOutput -/

/-- `CompressedOutput`; of the buffer `compressed_buffer_` only the size matters. -/
structure CompressedOutput (δ : Type) where
  destination : δ
  maxCompressedChunkSize : Nat
  compressedBufferSize : Nat
  method : CompressionMethod

namespace CompressedOutput

variable {δ : Type}

def toDestination {α : Type} (p : EStateM Error δ α) : EStateM Error (CompressedOutput δ) α :=
  zoom CompressedOutput.destination (fun d s => { s with destination := d }) p

/-- The message for a size that `ZSTD_compressBound` or `LZ4_compressBound` refuses. -/
def estimateFailed : CompressionMethod → Error
  | .zstd => .compressionError (ascii "Failed to estimate compressed buffer size, ZSTD error: " ++
      ascii "Src size is incorrect")
  | _ => .compressionError (ascii "Failed to estimate compressed buffer size, LZ4 error: " ++
      toDecimal 0)

def preallocateCompressBuffer (inputSize : Nat) : EStateM Error (CompressedOutput δ) Unit := do
  let s ← get
  if s.method ≠ .none then
    if s.method.bound inputSize = 0 then throw (estimateFailed s.method)
    else set { s with
      compressedBufferSize := s.method.bound inputSize + headerSize + extraCompressBufferSize }

/-- The constructor. -/
def create (destination : δ) (maxCompressedChunkSize : Nat) (method : CompressionMethod) :
    Except Error (CompressedOutput δ) :=
  match preallocateCompressBuffer maxCompressedChunkSize
    ⟨destination, maxCompressedChunkSize, 0, method⟩ with
  | .ok _ s => .ok s
  | .error e _ => .error e

def compressFailed (method : CompressionMethod) (len : Nat) (error : Bytes) : Error :=
  match method with
  | .zstd => .compressionError (ascii "Failed to compress chunk of " ++ toDecimal len ++
      ascii " bytes, " ++ ascii "ZSTD error: " ++ error)
  | _ => .compressionError (ascii "Failed to compress chunk of " ++ toDecimal len ++
      ascii " bytes, " ++ ascii "LZ4 error: " ++ error)

/-- What follows the hash in a frame. -/
def frameBody (method : CompressionMethod) (original : Nat) (packed : Bytes) : Bytes :=
  frameHeader method.byte (packed.length + headerSize) original ++ packed

variable [Codec] [Output Error δ]

/-- The branch of `Compress` for a method.  The sizes are converted to `int`, so one that does not
fit is not a size any more. -/
def sendFrame (method : CompressionMethod) (data : Bytes) :
    EStateM Error (CompressedOutput δ) Unit := do
  let s ← get
  if 2 ^ 31 ≤ data.length ∨ 2 ^ 31 ≤ s.compressedBufferSize then throw .undefinedBehavior
  else
    match Codec.compress method data (s.compressedBufferSize - headerSize) with
    | .error error => throw (compressFailed method data.length error)
    | .ok packed => do
      let body := frameBody method data.length packed
      toDestination (writeAll (Codec.cityHash128 body).val)
      toDestination (writeAll body)

/-- `Compress` of one chunk. -/
def compress (data : Bytes) : EStateM Error (CompressedOutput δ) Unit := do
  let s ← get
  match s.method with
  | .lz4 => sendFrame .lz4 data
  | .zstd => sendFrame .zstd data
  | .none => throw (.compressionError (ascii "no compression defined"))
  toDestination Output.flush

/-- The loop of `DoWrite`: chunks of at most the given size, which is not 0. -/
def writeChunks (maxChunkSize : Nat) : Nat → Bytes → EStateM Error (CompressedOutput δ) Unit
  | _, [] => pure ()
  | 0, _ => throw .diverges
  | fuel + 1, data => do
    compress (data.take maxChunkSize)
    writeChunks maxChunkSize fuel (data.drop maxChunkSize)

def doWrite (data : Bytes) : EStateM Error (CompressedOutput δ) Nat := do
  let s ← get
  let maxChunkSize :=
    if s.maxCompressedChunkSize > 0 then s.maxCompressedChunkSize else data.length
  if maxChunkSize > s.maxCompressedChunkSize then preallocateCompressBuffer data.length
  writeChunks maxChunkSize data.length data
  pure data.length

def doFlush : EStateM Error (CompressedOutput δ) Unit :=
  toDestination Output.flush

instance : Output Error (CompressedOutput δ) := ⟨doWrite, doFlush⟩

end CompressedOutput

end ClickHouse
