import ClickHouse.Framing

/-!
# What a decompressed frame exposes

The size of the decompressed bytes stands in the header of a frame, and how many
bytes its payload decompresses to is another matter.  `CompressedInput` gives its
reader a buffer of the size in the header, whatever the codec has filled of it.
-/

namespace ClickHouse

open Kit CompressedInput

/-- A frame whose method is one that compresses, whose sizes fit their fields and the limit, and
whose hash is the one of its contents. -/
structure CheckedFrame where
  method : CompressionMethod
  compressed : Nat
  original : Nat
  payload : Bytes
  compresses : method ≠ .none
  small : compressed ≤ dbmsMaxCompressedSize
  fits : original < 2 ^ 32
  whole : payload.length = compressed - headerSize

section Frames

variable [Codec]

namespace CheckedFrame

def hashed (frame : CheckedFrame) : Bytes :=
  frameHeader frame.method.byte frame.compressed frame.original ++ frame.payload

def bytes (frame : CheckedFrame) : Bytes :=
  (Codec.cityHash128 frame.hashed).val ++ frame.hashed

/-- What the codec makes of the payload, given room for the size in the header. -/
def unpacked (frame : CheckedFrame) : Except Bytes Bytes :=
  Codec.decompress frame.method frame.payload frame.original

/-- A frame that is as long as its header makes it is one that could have been written. -/
theorem bytes_eq {frame : CheckedFrame} (long : headerSize ≤ frame.compressed) :
    frame.bytes = frameBytes frame.method frame.original frame.payload := by
  have size : frame.payload.length + headerSize = frame.compressed := by
    have whole := frame.whole
    omega
  rw [bytes, hashed, frameBytes, CompressedOutput.frameBody, size]

end CheckedFrame

variable {σ : Type} [LawfulSource Error σ]

/-- `Decompress` is refused, or the reader gets the bytes the codec has produced, as many as the
header says: the piece it asked for and what is kept for its next calls. -/
def DecompressesInFull (frame : CheckedFrame) (len : Nat) (s : σ) : Prop :=
  (∃ text m, Throws (doNext len) ⟨s, []⟩ (.compressionError text) m) ∨
  ∃ piece kept m, Runs (doNext len) ⟨s, []⟩ piece ⟨m, kept⟩ ∧
    frame.unpacked = .ok (piece ++ kept) ∧ (piece ++ kept).length = frame.original

variable {frame : CheckedFrame} {s t : σ} {rest : Bytes}

theorem readFrame_short (short : frame.compressed < headerSize)
    (feeds : LawfulSource.Feeds s (frame.bytes ++ rest) t) :
    ∃ m, Throws readFrame s .undefinedBehavior m := by
  have small := frame.small
  have size : frame.compressed < 256 ^ 4 := Nat.lt_of_le_of_lt small (by decide)
  rw [CheckedFrame.bytes, CheckedFrame.hashed, ← List.append_assoc, List.append_assoc] at feeds
  obtain ⟨m, _, run⟩ := readFrameWithin_header dbmsMaxCompressedSize (decodes_readHeader
    (Codec.cityHash128 _).property frame.method.byte_lt (methodOfByte_byte frame.compresses) size
    frame.fits) feeds
  refine ⟨m, run.trans ?_⟩
  rw [if_neg (Nat.not_lt_of_le small), readPayload, if_pos short]
  rfl

theorem readFrame_checked (long : headerSize ≤ frame.compressed)
    (feeds : LawfulSource.Feeds s (frame.bytes ++ rest) t) :
    ∃ m : σ, readFrame s = unpackFrame frame.method frame.original frame.payload m := by
  have whole := frame.whole
  have small := frame.small
  have limit : dbmsMaxCompressedSize < 256 ^ 4 := by decide
  rw [CheckedFrame.bytes_eq long] at feeds
  obtain ⟨m, -, run⟩ := readFrameWithin_eq frame.compresses
    (show frame.payload.length + headerSize ≤ dbmsMaxCompressedSize by omega) (by omega)
    frame.fits feeds
  exact ⟨m, run⟩

/-- Where no bytes are left, the reader gets what `Decompress` does. -/
theorem doNext_of_throws (len : Nat) {e : Error} {m : σ} (throws : Throws readFrame s e m) :
    Throws (doNext len) ⟨s, []⟩ e ⟨m, []⟩ := by
  refine (runs_get _).bind_throws ?_
  rw [if_pos rfl]
  exact (Throws.zoom throws).bind _

theorem doNext_of_runs (len : Nat) {chunk : Bytes} {m : σ} (run : Runs readFrame s (some chunk) m) :
    Runs (doNext len) ⟨s, []⟩ (chunk.take len) ⟨m, chunk.drop len⟩ := by
  refine (runs_get _).bind ?_
  rw [if_pos rfl]
  have read : Runs (zoom Chunked.input (fun input s => { s with input := input }) readFrame)
      (⟨s, []⟩ : CompressedInput σ) (some chunk) ⟨m, []⟩ := run.zoom
  exact read.bind ((runs_modify _ _).bind (runs_pure _ _))

omit [Codec] in
theorem decompressFailed_eq (method : CompressionMethod) (error : Bytes) :
    ∃ text, decompressFailed method error = .compressionError text := by
  cases method <;> exact ⟨_, rfl⟩

/-- A frame is decompressed in full exactly if its payload is there and either is refused by the
codec or decompresses to as many bytes as the header says. -/
theorem decompressesInFull_iff (frame : CheckedFrame) (len : Nat)
    (feeds : LawfulSource.Feeds s (frame.bytes ++ rest) t) :
    DecompressesInFull frame len s ↔ headerSize ≤ frame.compressed ∧
      ∀ data, frame.unpacked = .ok data → data.length = frame.original := by
  by_cases long : headerSize ≤ frame.compressed
  · obtain ⟨m, run⟩ := readFrame_checked long feeds
    rw [and_iff_right long]
    cases outcome : frame.unpacked with
    | error error =>
      -- The codec refuses the payload, and `Decompress` says so.
      obtain ⟨text, failed⟩ := decompressFailed_eq frame.method error
      have throws : Throws readFrame s (.compressionError text) m := by
        refine run.trans ?_
        unfold CheckedFrame.unpacked at outcome
        rw [unpackFrame, outcome, ← failed]
        rfl
      refine iff_of_true (.inl ⟨text, _, doNext_of_throws len throws⟩) ?_
      intro data impossible
      cases impossible
    | ok data =>
      have read : Runs readFrame s (some (data.take frame.original ++
          List.replicate (frame.original - data.length) 0)) m := by
        refine run.trans ?_
        unfold CheckedFrame.unpacked at outcome
        rw [unpackFrame, outcome]
        rfl
      have exposed := doNext_of_runs len read
      constructor
      · rintro (⟨text, _, throws⟩ | ⟨piece, kept, _, _, produced, length⟩) data' same
        · cases exposed.symm.trans throws
        · rw [outcome] at produced
          cases same
          cases produced
          exact length
      · intro full
        have length := full data rfl
        rw [← length, List.take_length, Nat.sub_self, List.replicate_zero, List.append_nil]
          at exposed
        refine .inr ⟨_, _, _, exposed, ?_⟩
        rw [List.take_append_drop, outcome]
        exact ⟨rfl, length⟩
  · obtain ⟨m, throws⟩ := readFrame_short (Nat.lt_of_not_le long) feeds
    have thrown := doNext_of_throws len throws
    refine iff_of_false ?_ (fun both => long both.1)
    rintro (⟨text, _, throws⟩ | ⟨piece, kept, _, run, -⟩)
    · cases thrown.symm.trans throws
    · cases thrown.symm.trans run

end Frames

/-- A frame of the bytes 1, 2 and 3 that is right about its size. -/
def threeByteFrame : CheckedFrame :=
  ⟨.lz4, 12, 3, [1, 2, 3], by decide, by decide, by decide, by decide⟩

theorem decompressesInFull_threeBytes :
    letI : Codec := storingCodec
    DecompressesInFull threeByteFrame 2 (⟨threeByteFrame.bytes ++ [7]⟩ : ArrayInput) := by
  let _ : Codec := storingCodec
  refine (decompressesInFull_iff threeByteFrame 2
    (show LawfulSource.Feeds (⟨threeByteFrame.bytes ++ [7]⟩ : ArrayInput) _ ⟨[]⟩ from
      (List.append_nil _).symm)).mpr ⟨by decide, ?_⟩
  intro data unpacked
  cases unpacked
  rfl

/-- The same payload in a frame that promises five bytes. -/
def overstatedFrame : CheckedFrame :=
  ⟨.lz4, 12, 5, [1, 2, 3], by decide, by decide, by decide, by decide⟩

theorem not_decompressesInFull_overstated :
    letI : Codec := storingCodec
    ¬ DecompressesInFull overstatedFrame 5 (⟨overstatedFrame.bytes⟩ : ArrayInput) := by
  let _ : Codec := storingCodec
  rintro (⟨text, m, throws⟩ | ⟨piece, kept, m, run, unpacked, length⟩)
  · cases throws
  · have produced : (.ok [1, 2, 3] : Except Bytes Bytes) = .ok (piece ++ kept) := unpacked
    rw [← Except.ok.inj produced] at length
    cases length

end ClickHouse
