import ClickHouse.Kit.Source
import Mathlib.Data.List.Forall2

/-!
# Sources made of chunks

A format may send its bytes in frames that are decoded one by one.  `Chunked`
is the source of what the frames carry: it hands out the bytes of the current
chunk and decodes the next frame when there are none left.  A decoder of the
bytes thereby is a decoder of the frames.
-/

namespace Kit

open List
variable {ε σ α : Type}

/-- What is left of the current chunk, and the source of the frames. -/
structure Chunked (readFrame : EStateM ε σ (Option Bytes)) where
  input : σ
  mem : Bytes

namespace Chunked

variable {readFrame : EStateM ε σ (Option Bytes)}

/-- Bytes of the current chunk, or of the next one; none if there is no frame. -/
def next (len : Nat) : EStateM ε (Chunked readFrame) Bytes := do
  let s ← get
  if s.mem = [] then
    match ← zoom Chunked.input (fun input s => { s with input := input }) readFrame with
    | none => pure []
    | some chunk => do
      modify fun s : Chunked readFrame => { s with mem := chunk.drop len }
      pure (chunk.take len)
  else do
    set ({ s with mem := s.mem.drop len } : Chunked readFrame)
    pure (s.mem.take len)

instance : Source ε (Chunked readFrame) := ⟨next, next⟩

variable [LawfulSource ε σ]

/-- The frames decode to the chunks, none of which is empty. -/
def AreFrames (readFrame : EStateM ε σ (Option Bytes)) : List Bytes → List Bytes → Prop :=
  Forall₂ fun frame chunk => chunk ≠ [] ∧ Decodes readFrame frame (some chunk)

/-- What is left of the current chunk, and the chunks of the frames that follow. -/
def Feeds (s : Chunked readFrame) (bs : Bytes) (t : Chunked readFrame) : Prop :=
  ∃ frames chunks, AreFrames readFrame frames chunks ∧ bs = s.mem ++ chunks.flatten ∧
    LawfulSource.Feeds s.input frames.flatten t.input ∧ t.mem = []

variable {s t : Chunked readFrame}

/-- A read of any size returns the next bytes, and some of them if its size is not 0. -/
theorem next_feeds {bs : Bytes} (feeds : s.Feeds bs t) (more : bs ≠ []) (len : Nat) :
    ∃ piece rest m, bs = piece ++ rest ∧ piece.length ≤ len ∧ (0 < len → piece ≠ []) ∧
      Runs (next len) s piece m ∧ m.Feeds rest t := by
  obtain ⟨input, mem⟩ := s
  obtain ⟨frames, chunks, areFrames, rfl, feeds, empty⟩ := feeds
  have takes {chunk : Bytes} (nonempty : chunk ≠ []) (positive : 0 < len) :
      chunk.take len ≠ [] := by
    intro none
    rcases take_eq_nil_iff.mp none with zero | nil
    · omega
    · exact nonempty nil
  cases mem with
  | nil =>
    cases areFrames with
    | nil => exact absurd rfl more
    | @cons frame chunk frames chunks isFrame areFrames =>
      obtain ⟨nonempty, decodes⟩ := isFrame
      obtain ⟨m, run, feeds⟩ := decodes feeds
      have run' : Runs (zoom Chunked.input (fun input s => { s with input := input }) readFrame)
        (⟨input, []⟩ : Chunked readFrame) (some chunk) ⟨m, []⟩ := run.zoom
      refine ⟨chunk.take len, chunk.drop len ++ chunks.flatten, ⟨m, chunk.drop len⟩, ?_,
        length_take_le .., takes nonempty, ?_, frames, chunks, areFrames, rfl, feeds, empty⟩
      · rw [← append_assoc, take_append_drop]
        rfl
      · refine (runs_get _).bind ?_
        rw [if_pos rfl]
        exact run'.bind ((runs_modify _ _).bind (runs_pure _ _))
  | cons byte mem =>
    refine ⟨(byte :: mem).take len, (byte :: mem).drop len ++ chunks.flatten,
      ⟨input, (byte :: mem).drop len⟩, ?_, length_take_le .., takes (cons_ne_nil _ _), ?_,
      frames, chunks, areFrames, rfl, feeds, empty⟩
    · rw [← append_assoc, take_append_drop]
    · refine (runs_get _).bind ?_
      rw [if_neg (cons_ne_nil _ _)]
      exact (runs_set _ _).bind (runs_pure _ _)

theorem next_within {bs : Bytes} {n : Nat} (feeds : s.Feeds bs t) (positive : 0 < n)
    (fits : n ≤ bs.length) :
    ∃ piece rest m, bs = piece ++ rest ∧ piece ≠ [] ∧ piece.length ≤ n ∧
      Runs (next n) s piece m ∧ m.Feeds rest t := by
  obtain ⟨piece, rest, m, split, short, nonempty, run, feeds⟩ :=
    next_feeds feeds (length_pos_iff.mp (by omega)) n
  exact ⟨piece, rest, m, split, nonempty positive, short, run, feeds⟩

/-- Without bytes left nothing is left at all. -/
theorem eq_of_feeds_nil (feeds : s.Feeds [] t) : s = t := by
  obtain ⟨input, mem⟩ := s
  obtain ⟨input', mem'⟩ := t
  obtain ⟨frames, chunks, areFrames, none, feeds, empty⟩ := feeds
  obtain ⟨rfl, flat⟩ := append_eq_nil_iff.mp none.symm
  cases areFrames with
  | nil =>
    cases empty
    exact congrArg (Chunked.mk · []) (LawfulSource.feeds_nil feeds)
  | cons isFrame areFrames =>
    rw [flatten_cons] at flat
    exact absurd (append_eq_nil_iff.mp flat).1 isFrame.1

instance : LawfulSource ε (Chunked readFrame) where
  read := next
  next := next
  Feeds := Feeds
  feeds_nil := eq_of_feeds_nil
  read_feeds := next_within
  next_feeds := next_within

end Chunked

/-- A decoder of what the frames carry. -/
def unchunk (readFrame : EStateM ε σ (Option Bytes)) (p : EStateM ε (Chunked readFrame) α) :
    EStateM ε σ α :=
  zoom (fun input => ⟨input, []⟩) (fun chunked _ => chunked.input) p

/-- The frames of exactly what a decoder consumes are what it consumes as a decoder of frames. -/
theorem decodes_unchunk [DivisibleSource ε σ] {readFrame : EStateM ε σ (Option Bytes)}
    {p : EStateM ε (Chunked readFrame) α} {frames chunks : List Bytes} {a : α}
    (areFrames : Chunked.AreFrames readFrame frames chunks) (decodes : Decodes p chunks.flatten a) :
    Decodes (unchunk readFrame p) frames.flatten a := by
  intro s t rest feeds
  obtain ⟨m, feeds, feeds'⟩ := DivisibleSource.feeds_append feeds
  have whole : LawfulSource.Feeds (⟨s, []⟩ : Chunked readFrame) chunks.flatten ⟨m, []⟩ :=
    ⟨frames, chunks, areFrames, rfl, feeds, rfl⟩
  have run := decodes.runs whole
  refine ⟨m, ?_, feeds'⟩
  unfold Runs at run
  unfold Runs unchunk zoom
  rw [run]

end Kit
