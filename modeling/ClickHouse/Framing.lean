import ClickHouse.Transport

/-!
# What compressed outputs write

Whatever the sizes of the chunks and of the writes are and however the
destination fails, a `CompressedOutput` whose calls return has written frames of
the bytes it was given.  Frames are read back here without the limit that
`CompressedInput` puts on their size, which is not one of the format.
-/

namespace ClickHouse

open Kit List

/-- What is also assumed of the codecs: a compressor keeps within its buffer. -/
class BoundedCodec [Codec] : Prop extends LawfulCodec where
  compress_length {method : CompressionMethod} {data packed : Bytes} {capacity : Nat} :
    Codec.compress method data capacity = .ok packed → packed.length ≤ capacity

/-- A frame as `Compress` writes it. -/
structure WrittenFrame [Codec] (method : CompressionMethod) (frame chunk : Bytes) : Prop where
  compresses : method ≠ .none
  nonempty : chunk ≠ []
  short : chunk.length < 2 ^ 31
  packed : ∃ packed bufferSize, bufferSize < 2 ^ 31 ∧
    Codec.compress method chunk (bufferSize - headerSize) = .ok packed ∧
    frame = frameBytes method chunk.length packed

section Reading

variable [Codec] {σ : Type}

/-- A frame of any size that its header can name. -/
abbrev readAnyFrame [LawfulSource Error σ] : EStateM Error σ (Option Bytes) :=
  readFrameWithin (2 ^ 32)

theorem WrittenFrame.decodes [BoundedCodec] [LawfulSource Error σ] {method : CompressionMethod}
    {frame chunk : Bytes} (written : WrittenFrame method frame chunk) :
    chunk ≠ [] ∧ Decodes (σ := σ) readAnyFrame frame (some chunk) := by
  obtain ⟨packed, bufferSize, small, packs, rfl⟩ := written.packed
  have length := BoundedCodec.compress_length packs
  have header : headerSize = 9 := rfl
  have short := written.short
  exact ⟨written.nonempty, decodes_readFrameWithin written.compresses (by omega) (by omega)
    (by omega) (LawfulCodec.decompress_compress packs)⟩

/-- The first bytes carry the second ones: as they are, or as frames. -/
inductive Carries (method : CompressionMethod) : Bool → Bytes → Bytes → Prop
  | raw (plain : Bytes) : Carries method false plain plain
  | framed {frames chunks : List Bytes} : Forall₂ (WrittenFrame method) frames chunks →
    Carries method true frames.flatten chunks.flatten

/-- A decoder of what is carried, over the source of the frames or over the source itself. -/
def readCarried {α : Type} [LawfulSource Error σ] (compression : Bool)
    (read : (τ : Type) → [Source Error τ] → EStateM Error τ α) : EStateM Error σ α :=
  if compression then unchunk readAnyFrame (read (Chunked (readAnyFrame (σ := σ)))) else read σ

variable {α : Type} {method : CompressionMethod} {compression : Bool} {body plain : Bytes}
  {read : (τ : Type) → [Source Error τ] → EStateM Error τ α} [BoundedCodec]

omit [BoundedCodec] in
theorem areFrames_of_written [BoundedCodec] [LawfulSource Error σ] {frames chunks : List Bytes}
    (written : Forall₂ (WrittenFrame method) frames chunks) :
    Chunked.AreFrames (readAnyFrame (σ := σ)) frames chunks :=
  written.imp fun _ _ isFrame => isFrame.decodes

/-- What is carried is decoded, and exactly what carries it is consumed. -/
theorem Carries.decodes [DivisibleSource Error σ] (carries : Carries method compression body plain)
    {holds : α → Prop}
    (decoded : ∀ (τ : Type) [LawfulSource Error τ], ∃ a, holds a ∧ Decodes (read τ) plain a) :
    ∃ a, holds a ∧ Decodes (σ := σ) (readCarried compression read) body a := by
  cases carries with
  | raw => exact decoded σ
  | framed written =>
    obtain ⟨a, isHeld, decodes⟩ := decoded (Chunked (readAnyFrame (σ := σ)))
    exact ⟨a, isHeld, decodes_unchunk (areFrames_of_written written) decodes⟩

/-- The first bytes of what is carried are decoded. -/
theorem Carries.runs [DivisibleSource Error σ] (carries : Carries method compression body plain)
    {start rest : Bytes} {a : α} (split : plain = start ++ rest)
    (decoded : ∀ (τ : Type) [LawfulSource Error τ], Decodes (read τ) start a) {s t : σ}
    {others : Bytes} (feeds : LawfulSource.Feeds s (body ++ others) t) :
    ∃ m, Runs (readCarried compression read) s a m := by
  cases carries with
  | raw =>
    rw [split, append_assoc] at feeds
    obtain ⟨m, run, _⟩ := decoded σ feeds
    exact ⟨m, run⟩
  | @framed frames chunks written =>
    obtain ⟨m, feeds, _⟩ := DivisibleSource.feeds_append feeds
    have whole : LawfulSource.Feeds (⟨s, []⟩ : Chunked (readAnyFrame (σ := σ))) (start ++ rest)
        ⟨m, []⟩ := ⟨frames, chunks, areFrames_of_written written, split.symm, feeds, rfl⟩
    obtain ⟨chunked, run, _⟩ := decoded _ whole
    refine ⟨chunked.input, ?_⟩
    unfold Runs at run
    unfold Runs readCarried
    rw [if_pos rfl]
    unfold unchunk zoom
    rw [run]

end Reading

/-! ## Writing -/

namespace CompressedOutput

variable [Codec] {δ : Type} [Output Error δ] {took : δ → Bytes → Prop}

variable {bs data : Bytes} {s t : CompressedOutput δ}

theorem sendFrame_accounted (accounts : Accounts took) {method : CompressionMethod}
    (compresses : method ≠ .none) (nonempty : data ≠ []) (holds : took s.destination bs)
    (run : Runs (sendFrame method data) s () t) :
    ∃ frame d, WrittenFrame method frame data ∧ t = { s with destination := d } ∧
      took d (bs ++ frame) := by
  obtain ⟨_, _, ⟨⟩, run⟩ := runs_bind_iff.mp run
  split at run
  · cases run
  · rename_i narrow
    split at run
    · cases run
    · rename_i packed packs
      obtain ⟨_, m, hashed, run⟩ := runs_bind_iff.mp run
      obtain ⟨d, wroteHash, rfl⟩ := hashed.of_zoom
      obtain ⟨d', wroteBody, rfl⟩ := run.of_zoom
      have taken := writeAll_accounted accounts (writeAll_accounted accounts holds wroteHash) wroteBody
      rw [append_assoc] at taken
      exact ⟨frameBytes method data.length packed, d',
        ⟨compresses, nonempty, by omega, packed, s.compressedBufferSize, by omega, packs, rfl⟩,
        rfl, taken⟩

theorem compress_accounted (accounts : Accounts took) (nonempty : data ≠ [])
    (holds : took s.destination bs) (run : Runs (compress data) s () t) :
    ∃ frame d, WrittenFrame s.method frame data ∧ t = { s with destination := d } ∧
      took d (bs ++ frame) := by
  obtain ⟨_, _, ⟨⟩, run⟩ := runs_bind_iff.mp run
  have sent {method : CompressionMethod} (same : s.method = method) (compresses : method ≠ .none)
      (run : Runs (do sendFrame method data; toDestination Output.flush) s () t) :
      ∃ frame d, WrittenFrame s.method frame data ∧ t = { s with destination := d } ∧
        took d (bs ++ frame) := by
    obtain ⟨_, m, sent, run⟩ := runs_bind_iff.mp run
    obtain ⟨frame, d, written, rfl, taken⟩ :=
      sendFrame_accounted accounts compresses nonempty holds sent
    obtain ⟨d', flushed, rfl⟩ := run.of_zoom
    exact ⟨frame, d', same ▸ written, rfl, accounts.flush taken flushed⟩
  split at run
  · exact sent ‹_› (by decide) run
  · exact sent ‹_› (by decide) run
  · cases run

theorem writeChunks_accounted (accounts : Accounts took) {maxChunkSize fuel : Nat}
    (positive : data ≠ [] → 0 < maxChunkSize) (holds : took s.destination bs)
    (run : Runs (writeChunks maxChunkSize fuel data) s () t) :
    ∃ frames chunks d, Forall₂ (WrittenFrame s.method) frames chunks ∧
      chunks.flatten = data ∧ t = { s with destination := d } ∧ took d (bs ++ frames.flatten) := by
  induction fuel generalizing s bs data with
  | zero =>
    cases data with
    | nil =>
      cases run
      exact ⟨[], [], _, .nil, rfl, rfl, by rwa [flatten_nil, append_nil]⟩
    | cons byte data => cases run
  | succ fuel ih =>
    cases data with
    | nil =>
      cases run
      exact ⟨[], [], _, .nil, rfl, rfl, by rwa [flatten_nil, append_nil]⟩
    | cons byte data =>
      have positive' := positive (cons_ne_nil _ _)
      have nonempty : (byte :: data).take maxChunkSize ≠ [] := by
        intro none
        rcases take_eq_nil_iff.mp none with zero | nil
        · omega
        · cases nil
      obtain ⟨_, m, first, run⟩ := runs_bind_iff.mp run
      obtain ⟨frame, d, written, rfl, taken⟩ := compress_accounted accounts nonempty holds first
      obtain ⟨frames, chunks, d', areWritten, flat, rfl, taken'⟩ :=
        ih (fun _ => positive') taken run
      refine ⟨frame :: frames, _ :: chunks, d', .cons written areWritten, ?_, rfl, ?_⟩
      · rw [flatten_cons, flat, take_append_drop]
      · rw [flatten_cons, ← append_assoc]
        exact taken'

omit [Codec] [Output Error δ] in
theorem preallocate_keeps {size : Nat} (run : Runs (preallocateCompressBuffer size) s () t) :
    t.destination = s.destination ∧ t.method = s.method := by
  obtain ⟨_, _, ⟨⟩, run⟩ := runs_bind_iff.mp run
  split at run
  · split at run
    · cases run
    · cases run
      exact ⟨rfl, rfl⟩
  · cases run
    exact ⟨rfl, rfl⟩

/-- After `base`, the destination has taken frames of the bytes. -/
def Accounted (took : δ → Bytes → Prop) (base : Bytes) (method : CompressionMethod)
    (s : CompressedOutput δ) (bs : Bytes) : Prop :=
  s.method = method ∧ ∃ frames chunks, Forall₂ (WrittenFrame method) frames chunks ∧
    chunks.flatten = bs ∧ took s.destination (base ++ frames.flatten)

theorem accounts (destination : Accounts took) (base : Bytes) (method : CompressionMethod) :
    Accounts (Accounted took base method) where
  write := by
    rintro s t bs data n ⟨rfl, frames, chunks, areWritten, rfl, holds⟩ run
    have positive : data ≠ [] → 0 < if s.maxCompressedChunkSize > 0 then s.maxCompressedChunkSize
        else data.length := by
      intro nonempty
      split
      · assumption
      · exact length_pos_iff.mpr nonempty
    -- The rest is the same whether or not the buffer is made for this write.
    have rest {m : CompressedOutput δ} (destination' : m.destination = s.destination)
        (method : m.method = s.method) (run : Runs (do
          writeChunks (if s.maxCompressedChunkSize > 0 then s.maxCompressedChunkSize
            else data.length) data.length data
          pure data.length) m n t) :
        n ≤ data.length ∧ t.Accounted took base s.method (chunks.flatten ++ data.take n) := by
      obtain ⟨_, m', wrote, run⟩ := runs_bind_iff.mp run
      cases run
      rw [← destination'] at holds
      obtain ⟨more, chunks', d, areWritten', flat, rfl, taken⟩ :=
        writeChunks_accounted destination positive holds wrote
      rw [method] at areWritten'
      refine ⟨Nat.le_refl _, method, frames ++ more, chunks ++ chunks',
        rel_append areWritten areWritten', ?_, ?_⟩
      · rw [flatten_append, flat, take_length]
      · rw [flatten_append, ← append_assoc]
        exact taken
    have run : Runs (doWrite data) s n t := run
    obtain ⟨_, _, ⟨⟩, run⟩ := runs_bind_iff.mp run
    dsimp only at run
    by_cases unchunked : (if s.maxCompressedChunkSize > 0 then s.maxCompressedChunkSize
        else data.length) > s.maxCompressedChunkSize
    · rw [if_pos unchunked] at run
      obtain ⟨_, m, allocated, run⟩ := runs_bind_iff.mp run
      obtain ⟨destination', method⟩ := preallocate_keeps allocated
      exact rest destination' method run
    · rw [if_neg unchunked] at run
      exact rest rfl rfl run
  flush := by
    rintro s t bs ⟨rfl, frames, chunks, areWritten, flat, holds⟩ run
    obtain ⟨d, flushed, rfl⟩ := run.of_zoom
    exact ⟨rfl, frames, chunks, areWritten, flat, destination.flush holds flushed⟩

omit [Codec] [Output Error δ] in
theorem create_keeps {destination : δ} {chunkSize : Nat} {method : CompressionMethod}
    (created : create destination chunkSize method = .ok s) :
    s.destination = destination ∧ s.method = method := by
  unfold create at created
  split at created
  · rename_i allocated
    cases created
    exact preallocate_keeps allocated
  · cases created

end CompressedOutput

theorem bounded_storingCodec : @BoundedCodec storingCodec := by
  let _ : Codec := storingCodec
  have lawful := lawful_storingCodec
  constructor
  intro method data packed capacity packs
  have packs : (if data.length ≤ capacity then .ok data else .error (ascii "0")) =
    Except.ok packed := packs
  split at packs
  · cases packs
    assumption
  · cases packs

end ClickHouse
