import ClickHouse.Compressed

/-!
# Compressed transport

What is written through a `BufferedOutput` over a `CompressedOutput` comes back
from a `CompressedInput`, whatever the sizes of the writes, of the buffers, of
the chunks and of the reads are.
-/

namespace ClickHouse

open Kit List CompressedOutput Codec

/-- What is assumed of the codecs: a chunk compresses into a buffer of the estimated size, and it
decompresses to itself into a buffer of its own size. -/
class LawfulCodec [Codec] : Prop where
  compress_fits {method : CompressionMethod} {data : Bytes} {capacity : Nat} :
    method ≠ .none → data.length ≤ 2 ^ 29 → method.bound data.length ≤ capacity →
    ∃ packed, compress method data capacity = .ok packed ∧
      packed.length ≤ method.bound data.length
  decompress_compress {method : CompressionMethod} {data packed : Bytes} {capacity : Nat} :
    compress method data capacity = .ok packed →
    decompress method packed data.length = .ok data

theorem methodOfByte_byte {method : CompressionMethod} (compresses : method ≠ .none) :
    methodOfByte method.byte = some method := by
  cases method with
  | none => exact absurd rfl compresses
  | lz4 => rfl
  | zstd => rfl

theorem CompressionMethod.byte_lt (method : CompressionMethod) : method.byte < 256 ^ 1 := by
  cases method <;> decide

/-! ## Frames -/

/-- A frame of a chunk as `Compress` sends it. -/
structure IsFrame [Codec] (method : CompressionMethod) (frame chunk : Bytes) : Prop where
  nonempty : chunk ≠ []
  short : chunk.length < 2 ^ 32
  packed : ∃ packed : Bytes, packed.length + headerSize ≤ dbmsMaxCompressedSize ∧
    decompress method packed chunk.length = .ok chunk ∧
    frame = (cityHash128 (frameBody method chunk.length packed)).val ++
      frameBody method chunk.length packed

variable {limit : Nat} {bs : Bytes}

section Frames

variable [Codec] {σ : Type} [LawfulSource Error σ] {method : CompressionMethod}

/-- The bytes of a frame. -/
def frameBytes (method : CompressionMethod) (original : Nat) (packed : Bytes) : Bytes :=
  (cityHash128 (frameBody method original packed)).val ++
    frameBody method original packed

omit [Codec] in
theorem decodes_readHeader {byte compressed original : Nat} {hash : Bytes}
    (hashed : hash.length = 16) (small : byte < 256 ^ 1) (known : methodOfByte byte = some method)
    (size : compressed < 256 ^ 4) (short : original < 256 ^ 4) :
    Decodes (σ := σ) readHeader (hash ++ frameHeader byte compressed original)
      (some ⟨hash, byte, method, compressed, original⟩) := by
  have bytes : frameHeader byte compressed original = writeFixedUInt 1 byte ++
      (writeFixedUInt 4 compressed ++ (writeFixedUInt 4 original ++ [])) := by
    simp only [frameHeader, writeFixedUInt, append_assoc, append_nil]
  rw [bytes]
  refine (decodes_readFixed hashed).bind ((decodes_readFixedUInt small).bind ?_)
  simp only [known]
  exact (decodes_readFixedUInt size).bind ((decodes_readFixedUInt short).bind (.pure _))

theorem readFrameWithin_header (limit : Nat) {fields : FrameFields} {s t : σ}
    {header rest : Bytes}
    (decodes : Decodes (σ := σ) readHeader header (some fields))
    (feeds : LawfulSource.Feeds s (header ++ rest) t) :
    ∃ m, LawfulSource.Feeds m rest t ∧ readFrameWithin limit s =
      (if fields.compressed > limit then throw (.compressionError (ascii "compressed data too big"))
      else readPayload fields : EStateM Error σ (Option Bytes)) m := by
  obtain ⟨m, run, feeds⟩ := decodes feeds
  refine ⟨m, feeds, ?_⟩
  unfold readFrameWithin
  rw [run.bind_eq]

theorem readFrameWithin_eq {original : Nat} {packed : Bytes} (compresses : method ≠ .none)
    (small : packed.length + headerSize ≤ limit) (size : packed.length + headerSize < 256 ^ 4)
    (short : original < 256 ^ 4) {s t : σ} {rest : Bytes}
    (feeds : LawfulSource.Feeds s (frameBytes method original packed ++ rest) t) :
    ∃ m, LawfulSource.Feeds m rest t ∧
      readFrameWithin limit s = unpackFrame method original packed m := by
  rw [frameBytes, frameBody, ← append_assoc, append_assoc] at feeds
  obtain ⟨_, feeds, run⟩ := readFrameWithin_header limit (decodes_readHeader
    (cityHash128 _).property method.byte_lt (methodOfByte_byte compresses) size short) feeds
  have reads : Decodes (σ := σ) (readFixed packed.length) packed (some packed) :=
    decodes_readFixed rfl
  obtain ⟨m, payload, feeds⟩ := reads feeds
  refine ⟨m, feeds, run.trans ?_⟩
  rw [if_neg (Nat.not_lt_of_le small), readPayload, if_neg (by dsimp only; omega)]
  dsimp only
  rw [Nat.add_sub_cancel, payload.bind_eq]
  dsimp only
  rw [if_neg (fun differs => differs rfl)]

theorem decodes_readFrameWithin {packed chunk : Bytes} (compresses : method ≠ .none)
    (small : packed.length + headerSize ≤ limit) (size : packed.length + headerSize < 256 ^ 4)
    (short : chunk.length < 256 ^ 4)
    (unpacks : decompress method packed chunk.length = .ok chunk) :
    Decodes (σ := σ) (readFrameWithin limit) (frameBytes method chunk.length packed)
      (some chunk) := by
  intro s t rest feeds
  obtain ⟨m, feeds, run⟩ := readFrameWithin_eq compresses small size short feeds
  refine ⟨m, run.trans ?_, feeds⟩
  simp only [unpackFrame, unpacks, Nat.sub_self, replicate_zero, take_length,
    append_nil]
  rfl

theorem IsFrame.decodes {frame chunk : Bytes} (isFrame : IsFrame method frame chunk)
    (compresses : method ≠ .none) : Decodes (σ := σ) readFrame frame (some chunk) := by
  obtain ⟨packed, small, unpacks, rfl⟩ := isFrame.packed
  exact decodes_readFrameWithin compresses small (Nat.lt_of_le_of_lt small (by decide))
    isFrame.short unpacks

end Frames

/-! ## Sending frames -/

theorem lz4CompressBound_eq {size : Nat} (small : size ≤ 2 ^ 29) :
    lz4CompressBound size = size + size / 255 + 16 := by
  have narrow : size % 2 ^ 32 = size := Nat.mod_eq_of_lt (by omega)
  rw [lz4CompressBound, narrow, if_neg (by omega)]

theorem zstdCompressBound_eq {size : Nat} (small : size ≤ 2 ^ 29) :
    zstdCompressBound size = size + size / 2 ^ 8 + (128 * 2 ^ 10 - size) / 2 ^ 11 := by
  have narrow : size % 2 ^ 32 = size := Nat.mod_eq_of_lt (by omega)
  rw [zstdCompressBound, narrow, if_neg (by omega)]
  split <;> omega

/-- Up to `2 ^ 29` the estimates are positive, increase, and are values of `int` with room to
spare. -/
theorem CompressionMethod.bound_range {method : CompressionMethod} (compresses : method ≠ .none)
    {size : Nat} (within : size ≤ limit) (small : limit ≤ 2 ^ 29) :
    0 < method.bound size ∧ method.bound size ≤ method.bound limit ∧
      method.bound limit ≤ 2 ^ 29 + 2 ^ 22 := by
  have small' : size ≤ 2 ^ 29 := Nat.le_trans within small
  cases method with
  | none => exact absurd rfl compresses
  | lz4 =>
    rw [CompressionMethod.bound, CompressionMethod.bound, lz4CompressBound_eq small,
      lz4CompressBound_eq small']
    omega
  | zstd =>
    rw [CompressionMethod.bound, CompressionMethod.bound, zstdCompressBound_eq small,
      zstdCompressBound_eq small']
    omega

namespace CompressedOutput

variable [Codec] {δ : Type} [LawfulOutput Error δ]

open LawfulOutput

/-- The buffer has room for every chunk up to the given size. -/
def HasRoom (s : CompressedOutput δ) (chunkSize : Nat) : Prop :=
  chunkSize ≤ 2 ^ 29 ∧
    s.compressedBufferSize = s.method.bound chunkSize + headerSize + extraCompressBufferSize

variable {s : CompressedOutput δ} {chunkSize : Nat} {data : Bytes}

omit [Codec] [LawfulOutput Error δ] in
theorem runs_preallocate (compresses : s.method ≠ .none) {size : Nat} (small : size ≤ 2 ^ 29) :
    Runs (preallocateCompressBuffer size) s () { s with
      compressedBufferSize := s.method.bound size + headerSize + extraCompressBufferSize } := by
  have range := CompressionMethod.bound_range compresses (Nat.le_refl size) small
  refine (runs_get s).bind ?_
  rw [if_pos compresses, if_neg (by omega)]
  exact runs_set _ _

variable [LawfulCodec]

/-- One chunk becomes one frame. -/
theorem compress_sent (compresses : s.method ≠ .none) (room : s.HasRoom chunkSize)
    (unlimited : ∀ n, Fits (ε := Error) δ n) (sent : Sent s.destination bs) (nonempty : data ≠ [])
    (short : data.length ≤ chunkSize) :
    ∃ frame d, IsFrame s.method frame data ∧
      Runs (compress data) s () { s with destination := d } ∧ Sent d (bs ++ frame) := by
  obtain ⟨destination, maxChunk, bufferSize, method⟩ := s
  obtain ⟨small, size⟩ := room
  dsimp only at compresses size sent
  have range := CompressionMethod.bound_range compresses short small
  have header : headerSize = 9 := rfl
  have extra : extraCompressBufferSize = 4096 := rfl
  obtain ⟨packed, packs, length⟩ := LawfulCodec.compress_fits compresses (Nat.le_trans short small)
    (show method.bound data.length ≤ bufferSize - headerSize by omega)
  let body := frameBody method data.length packed
  obtain ⟨d₁, wroteHash, took⟩ :=
    writeAll_took (took_of_sent sent) (unlimited (cityHash128 body).val.length)
  obtain ⟨d₂, wroteBody, took⟩ := writeAll_took took (unlimited body.length)
  obtain ⟨d, flushed, sent⟩ := flush_sent took
  rw [append_assoc] at sent
  refine ⟨_, d, ⟨nonempty, by omega, packed, ?_, LawfulCodec.decompress_compress packs, rfl⟩, ?_,
    sent⟩
  · show _ ≤ 0x40000000
    omega
  · have wroteHash' : Runs (toDestination (writeAll (cityHash128 body).val))
        (⟨destination, maxChunk, bufferSize, method⟩ : CompressedOutput δ) ()
        ⟨d₁, maxChunk, bufferSize, method⟩ := wroteHash.zoom
    have wroteBody' : Runs (toDestination (writeAll body))
        (⟨d₁, maxChunk, bufferSize, method⟩ : CompressedOutput δ) ()
        ⟨d₂, maxChunk, bufferSize, method⟩ := wroteBody.zoom
    have flushed' : Runs (toDestination Output.flush)
        (⟨d₂, maxChunk, bufferSize, method⟩ : CompressedOutput δ) ()
        ⟨d, maxChunk, bufferSize, method⟩ := flushed.zoom
    have narrow : ¬ (2 ^ 31 ≤ data.length ∨ 2 ^ 31 ≤ bufferSize) := by omega
    have sends : Runs (sendFrame method data)
        (⟨destination, maxChunk, bufferSize, method⟩ : CompressedOutput δ) ()
        ⟨d₂, maxChunk, bufferSize, method⟩ := by
      refine (runs_get _).bind ?_
      rw [if_neg narrow]
      dsimp only
      rw [packs]
      exact wroteHash'.bind wroteBody'
    refine (runs_get _).bind ?_
    cases method with
    | none => exact absurd rfl compresses
    | lz4 => exact sends.bind flushed'
    | zstd => exact sends.bind flushed'

/-- The chunks of one write become frames one after the other. -/
theorem writeChunks_sent {fuel : Nat} (compresses : s.method ≠ .none) (room : s.HasRoom chunkSize)
    (positive : 0 < chunkSize) (unlimited : ∀ n, Fits (ε := Error) δ n)
    (sent : Sent s.destination bs) (enough : data.length ≤ fuel) :
    ∃ frames chunks d, Forall₂ (IsFrame s.method) frames chunks ∧ chunks.flatten = data ∧
      Runs (writeChunks chunkSize fuel data) s () { s with destination := d } ∧
      Sent d (bs ++ frames.flatten) := by
  induction fuel generalizing s bs data with
  | zero =>
    have none : data = [] := eq_nil_of_length_eq_zero (by omega)
    subst none
    exact ⟨[], [], s.destination, .nil, rfl, runs_pure _ _, by rwa [flatten_nil,
      append_nil]⟩
  | succ fuel ih =>
    cases data with
    | nil =>
      exact ⟨[], [], s.destination, .nil, rfl, runs_pure _ _, by rwa [flatten_nil,
        append_nil]⟩
    | cons byte data =>
      have nonempty : (byte :: data).take chunkSize ≠ [] := by
        intro none
        rcases take_eq_nil_iff.mp none with zero | nil
        · omega
        · cases nil
      obtain ⟨frame, d, isFrame, run, sent'⟩ := compress_sent compresses room unlimited sent nonempty
        (length_take_le ..)
      have shorter : ((byte :: data).drop chunkSize).length ≤ fuel := by
        rw [length_drop]
        omega
      obtain ⟨frames, chunks, d', areFrames, flat, run', sent''⟩ :=
        ih (s := { s with destination := d }) compresses room sent' shorter
      refine ⟨frame :: frames, _ :: chunks, d', .cons isFrame areFrames, ?_, run.bind run', ?_⟩
      · rw [flatten_cons, flat, take_append_drop]
      · rw [flatten_cons, ← append_assoc]
        exact sent''

/-- The bytes were sent as frames. -/
def Holds (s : CompressedOutput δ) (bs : Bytes) : Prop :=
  ((∀ n, Fits (ε := Error) δ n) ∧ s.method ≠ .none ∧ s.maxCompressedChunkSize ≤ 2 ^ 29 ∧
    (0 < s.maxCompressedChunkSize → s.HasRoom s.maxCompressedChunkSize)) ∧
  ∃ frames chunks, Forall₂ (IsFrame s.method) frames chunks ∧ chunks.flatten = bs ∧
    Sent s.destination frames.flatten

theorem doWrite_holds (holds : s.Holds bs) (short : data.length ≤ 2 ^ 29) :
    ∃ t : CompressedOutput δ, Runs (doWrite data) s data.length t ∧ t.Holds (bs ++ data) := by
  obtain ⟨⟨unlimited, compresses, small, room⟩, frames, chunks, areFrames, rfl, sent⟩ := holds
  have joined {more chunks' : List Bytes} {d : δ} (size : Nat)
      (areFrames' : Forall₂ (IsFrame s.method) more chunks') (flat : chunks'.flatten = data)
      (room' : 0 < s.maxCompressedChunkSize →
        HasRoom { s with compressedBufferSize := size } s.maxCompressedChunkSize)
      (sent' : Sent d (frames.flatten ++ more.flatten)) :
      Holds { s with destination := d, compressedBufferSize := size } (chunks.flatten ++ data) :=
    ⟨⟨unlimited, compresses, small, room'⟩, frames ++ more, chunks ++ chunks',
      rel_append areFrames areFrames', by rw [flatten_append, flat],
      by rw [flatten_append]; exact sent'⟩
  by_cases chunked : 0 < s.maxCompressedChunkSize
  · obtain ⟨more, chunks', d, areFrames', flat, run, sent'⟩ := writeChunks_sent compresses
      (room chunked) chunked unlimited sent (Nat.le_refl data.length)
    refine ⟨_, (runs_get s).bind ?_, joined _ areFrames' flat room sent'⟩
    dsimp only
    rw [if_pos chunked, if_neg (Nat.lt_irrefl _)]
    exact run.bind (runs_pure _ _)
  · have none : s.maxCompressedChunkSize = 0 := Nat.eq_zero_of_not_pos chunked
    cases data with
    | nil =>
      have chunked' : ¬ ([] : Bytes).length > s.maxCompressedChunkSize := Nat.not_lt_zero _
      refine ⟨s, (runs_get s).bind ?_, joined _ .nil rfl room (by simpa using sent)⟩
      dsimp only
      rw [if_neg chunked, if_neg chunked']
      exact (runs_pure _ _).bind (runs_pure _ _)
    | cons byte data =>
      -- The buffer is made for this write alone.
      have positive : 0 < (byte :: data).length := Nat.succ_pos _
      have allocated := runs_preallocate compresses short
      obtain ⟨more, chunks', d, areFrames', flat, run, sent'⟩ := writeChunks_sent
        (s := { s with compressedBufferSize := s.method.bound (byte :: data).length + headerSize +
          extraCompressBufferSize }) compresses ⟨short, rfl⟩ positive unlimited sent
        (Nat.le_refl (byte :: data).length)
      refine ⟨_, (runs_get s).bind ?_,
        joined (s.method.bound (byte :: data).length + headerSize + extraCompressBufferSize)
          areFrames' flat (fun some => absurd some chunked) sent'⟩
      dsimp only
      rw [if_neg chunked, if_pos (by rw [none]; exact positive)]
      exact allocated.bind (run.bind (runs_pure _ _))

/-- A compressed output in front of a lawful one sends what it takes at once. -/
instance : PromptOutput Error (CompressedOutput δ) where
  Fits n := n ≤ 2 ^ 29
  fits_le := Nat.le_trans
  Took := Holds
  Sent := Holds
  took_of_sent := id
  sent_of_took := id
  write_took := doWrite_holds
  flush_sent := by
    rintro s bs ⟨ready, frames, chunks, areFrames, flat, sent⟩
    obtain ⟨d, flushed, sent'⟩ := flush_sent (took_of_sent sent)
    have flushed' : Runs (toDestination Output.flush) s () { s with destination := d } :=
      flushed.zoom
    exact ⟨_, flushed', ready, frames, chunks, areFrames, flat, sent'⟩

omit [LawfulCodec] in
theorem holds_create {destination : δ} {method : CompressionMethod} (compresses : method ≠ .none)
    (small : chunkSize ≤ 2 ^ 29) (unlimited : ∀ n, Fits (ε := Error) δ n)
    (sent : Sent destination []) :
    ∃ s : CompressedOutput δ, create destination chunkSize method = .ok s ∧ s.Holds [] := by
  have allocated : Runs (preallocateCompressBuffer chunkSize)
      (⟨destination, chunkSize, 0, method⟩ : CompressedOutput δ) () _ :=
    runs_preallocate compresses small
  unfold Runs at allocated
  refine ⟨⟨destination, chunkSize, method.bound chunkSize + headerSize + extraCompressBufferSize,
    method⟩, ?_, ⟨unlimited, compresses, small, fun _ => ⟨small, rfl⟩⟩, [], [], .nil, rfl, sent⟩
  rw [create, allocated]

end CompressedOutput

/-! ## Transport -/

/-- One read after the other. -/
def readEach {σ : Type} [Source Error σ] : List Nat → EStateM Error σ (List Bytes)
  | [] => pure []
  | size :: sizes => do
    let piece ← Source.read size
    let others ← readEach sizes
    pure (piece :: others)

section Transport

variable [Codec] {σ : Type} [LawfulSource Error σ]

/-- Reads of any sizes return the bytes in order, and each of them some bytes if its size is not 0,
until all bytes are read. -/
theorem readEach_feeds {sizes : List Nat} {s t : CompressedInput σ} (feeds : Chunked.Feeds s bs t) :
    ∃ n pieces m, Runs (readEach (sizes.take n)) s pieces m ∧
      Forall₂ (fun size piece => piece.length ≤ size ∧ (0 < size → piece ≠ []))
        (sizes.take n) pieces ∧
      (pieces.flatten = bs ∧ m = t ∨
        n = sizes.length ∧ ∃ more, more ≠ [] ∧ pieces.flatten ++ more = bs) := by
  induction sizes generalizing s bs with
  | nil =>
    refine ⟨0, [], s, runs_pure _ _, .nil, ?_⟩
    by_cases done : bs = []
    · subst done
      exact .inl ⟨rfl, LawfulSource.feeds_nil feeds⟩
    · exact .inr ⟨rfl, bs, done, rfl⟩
  | cons size sizes ih =>
    by_cases done : bs = []
    · subst done
      exact ⟨0, [], s, runs_pure _ _, .nil, .inl ⟨rfl, LawfulSource.feeds_nil feeds⟩⟩
    · obtain ⟨piece, rest, m, rfl, short, nonempty, run, feeds⟩ :=
        Chunked.next_feeds feeds done size
      obtain ⟨n, pieces, m', run', fits, outcome⟩ := ih feeds
      refine ⟨n + 1, piece :: pieces, m', ?_, .cons ⟨short, nonempty⟩ fits, ?_⟩
      · exact Runs.bind run (run'.bind (runs_pure _ _))
      · rcases outcome with ⟨rfl, rfl⟩ | ⟨rfl, more, some, rfl⟩
        · exact .inl ⟨rfl, rfl⟩
        · exact .inr ⟨rfl, more, some, by rw [flatten_cons, append_assoc]⟩

/-- A `CompressedInput` over the bytes `sent` returns `plain` under any sequence of read sizes: the
bytes come in order, each read returns some of them if its size is not 0, and once all are read the
input stands right after `sent`, with no byte of a chunk left. -/
def ReadsBack (σ : Type) [LawfulSource Error σ] (sent plain : Bytes) : Prop :=
  ∀ {input after : σ}, LawfulSource.Feeds input sent after →
    ∀ sizes : List Nat, ∃ n pieces, ∃ m : CompressedInput σ,
      Runs (readEach (sizes.take n)) (⟨input, []⟩ : CompressedInput σ) pieces m ∧
      Forall₂ (fun size piece => piece.length ≤ size ∧ (0 < size → piece ≠ []))
        (sizes.take n) pieces ∧
      (pieces.flatten = plain ∧ m = ⟨after, []⟩ ∨
        n = sizes.length ∧ ∃ more, more ≠ [] ∧ pieces.flatten ++ more = plain)

/-- What is written to a `BufferedOutput` over a `CompressedOutput` and flushed arrives at the
destination, with nothing left in a buffer, and is read back. -/
theorem compressed_transport [LawfulCodec] {method : CompressionMethod}
    (compresses : method ≠ .none) {chunkSize buflen destinationSize : Nat}
    (smallChunks : chunkSize ≤ 2 ^ 29) (smallBuffer : buflen ≤ 2 ^ 29) {writes : List Bytes}
    (short : ∀ data ∈ writes, data.length < 2 ^ 29) :
    ∃ (compressed : CompressedOutput (BufferedOutput Sink))
      (final : BufferedOutput (CompressedOutput (BufferedOutput Sink))),
      CompressedOutput.create (BufferedOutput.create ⟨[]⟩ destinationSize) chunkSize method =
        .ok compressed ∧
      Runs (do let counts ← writeEach writes; Output.flush; pure counts)
        (BufferedOutput.create compressed buflen) (writes.map length) final ∧
      final.filled = [] ∧ final.destination.destination.filled = [] ∧
      ReadsBack σ final.destination.destination.destination.written writes.flatten := by
  have unlimited (n : Nat) : LawfulOutput.Fits (ε := Error) (BufferedOutput Sink) n := trivial
  have empty : LawfulOutput.Sent (BufferedOutput.create (⟨[]⟩ : Sink) destinationSize) [] :=
    ⟨⟨trivial, [], rfl, rfl⟩, rfl⟩
  obtain ⟨compressed, created, holds⟩ :=
    holds_create compresses smallChunks unlimited empty
  have start : LawfulOutput.Took (BufferedOutput.create compressed buflen) [] :=
    BufferedOutput.holds_create holds smallBuffer
  obtain ⟨written, wrote, took⟩ :=
    writeEach_took start fun data mem => Nat.le_of_lt (short data mem)
  obtain ⟨final, flushed, ⟨_, sent, isSent, all⟩, emptied⟩ := LawfulOutput.flush_sent took
  rw [emptied, append_nil, nil_append] at all
  obtain ⟨ready, frames, chunks, areFrames, flat, ⟨_, arrived, atSink, allFrames⟩, passed⟩ := isSent
  rw [passed, append_nil] at allFrames
  refine ⟨compressed, final, created, wrote.bind (flushed.bind (runs_pure _ _)), emptied, passed,
    fun {input after} feeds sizes => ?_⟩
  have arrives : final.destination.destination.destination.written = frames.flatten :=
    Eq.trans atSink allFrames
  have decodes : Forall₂ (fun frame chunk => chunk ≠ [] ∧
      Decodes (σ := σ) readFrame frame (some chunk)) frames chunks :=
    areFrames.imp fun _ _ isFrame => ⟨isFrame.nonempty, isFrame.decodes ready.2.1⟩
  rw [arrives] at feeds
  exact readEach_feeds ⟨frames, chunks, decodes, (flat.trans all).symm, feeds, rfl⟩

end Transport

/-- A codec that stores chunks as they are. -/
@[reducible] def storingCodec : Codec where
  compress _ data capacity := if data.length ≤ capacity then .ok data else .error (ascii "0")
  decompress _ packed capacity :=
    if packed.length ≤ capacity then .ok packed else .error (ascii "Destination buffer is too small")
  cityHash128 data := Word.ofNat 16 data.length

theorem lawful_storingCodec : @LawfulCodec storingCodec := by
  let _ : Codec := storingCodec
  constructor
  · intro method data capacity compresses small fits
    have below : data.length ≤ method.bound data.length := by
      cases method with
      | none => exact absurd rfl compresses
      | lz4 => rw [CompressionMethod.bound, lz4CompressBound_eq small]; omega
      | zstd => rw [CompressionMethod.bound, zstdCompressBound_eq small]; omega
    exact ⟨data, if_pos (Nat.le_trans below fits), below⟩
  · intro method data packed capacity packs
    have packs : (if data.length ≤ capacity then .ok data else .error (ascii "0")) =
      Except.ok packed := packs
    split at packs
    · cases packs
      exact if_pos (Nat.le_refl _)
    · cases packs

/-- Seven bytes in writes of 2, 4, 0 and 1 bytes, in chunks of at most 3 bytes. -/
theorem compressed_transport_sample :
    letI : Codec := storingCodec
    ∃ (compressed : CompressedOutput (BufferedOutput Sink))
      (final : BufferedOutput (CompressedOutput (BufferedOutput Sink))),
      CompressedOutput.create (BufferedOutput.create ⟨[]⟩ 20) 3 .zstd = .ok compressed ∧
      Runs (do let counts ← writeEach [[1, 2], [3, 4, 5, 6], [], [7]]; Output.flush; pure counts)
        (BufferedOutput.create compressed 3) [2, 4, 0, 1] final ∧
      ReadsBack ArrayInput final.destination.destination.destination.written
        [1, 2, 3, 4, 5, 6, 7] := by
  let _ : Codec := storingCodec
  have lawful := lawful_storingCodec
  obtain ⟨compressed, final, created, ran, _, _, reads⟩ := compressed_transport (σ := ArrayInput)
    (show CompressionMethod.zstd ≠ .none by decide) (show 3 ≤ 2 ^ 29 by decide)
    (show 3 ≤ 2 ^ 29 by decide)
    (show ∀ data ∈ ([[1, 2], [3, 4, 5, 6], [], [7]] : List Bytes), data.length < 2 ^ 29 by decide)
  exact ⟨compressed, final, created, ran, reads⟩

end ClickHouse
