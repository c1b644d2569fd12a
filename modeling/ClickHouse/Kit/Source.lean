import ClickHouse.Kit.Program

/-!
# Byte sources and exact decoding

A byte source hands out its bytes in pieces of its own choosing: a request for
`n` bytes returns some non-empty piece of at most `n` of them.  What a decoder
may rely on is `LawfulSource.Feeds s bs t`: from `s` the source can deliver
`bs`, in whatever pieces, and is then in the state `t`.

`Decodes p bs a` says that the decoder `p` consumes exactly `bs` and returns
`a`, from every source that can deliver `bs` followed by anything.  Sequential
composition of decoders is concatenation of what they consume, so a round trip
over a format is assembled field by field.
-/

namespace Kit

open List
abbrev Bytes := List UInt8

/-- A stream read in pieces; `read` copies a piece, `next` only passes over it. -/
class Source (ε : outParam Type) (σ : Type) where
  read : Nat → EStateM ε σ Bytes
  next : Nat → EStateM ε σ Bytes

class LawfulSource (ε : outParam Type) (σ : Type) extends Source ε σ where
  Feeds : σ → Bytes → σ → Prop
  feeds_nil {s t : σ} : Feeds s [] t → s = t
  read_feeds {s t : σ} {bs : Bytes} {n : Nat} :
    Feeds s bs t → 0 < n → n ≤ bs.length →
    ∃ piece rest m, bs = piece ++ rest ∧ piece ≠ [] ∧ piece.length ≤ n ∧
      Runs (read n) s piece m ∧ Feeds m rest t
  next_feeds {s t : σ} {bs : Bytes} {n : Nat} :
    Feeds s bs t → 0 < n → n ≤ bs.length →
    ∃ piece rest m, bs = piece ++ rest ∧ piece ≠ [] ∧ piece.length ≤ n ∧
      Runs (next n) s piece m ∧ Feeds m rest t

/-- A source that can be handed over between any two of its bytes. -/
class DivisibleSource (ε : outParam Type) (σ : Type) extends LawfulSource ε σ where
  feeds_append {s t : σ} {xs ys : Bytes} :
    Feeds s (xs ++ ys) t → ∃ m, Feeds s xs m ∧ Feeds m ys t

variable {ε σ α β : Type} [LawfulSource ε σ]

open LawfulSource

variable {bs rest xs : Bytes} {s t : σ} {a : α} {p : EStateM ε σ α}

/-- A piece of `bs ++ rest` no longer than `bs` is a piece of `bs`. -/
theorem split_piece {piece others : Bytes} (split : bs ++ rest = piece ++ others)
    (short : piece.length ≤ bs.length) : ∃ tail, bs = piece ++ tail ∧ others = tail ++ rest := by
  rcases append_eq_append_iff.mp split with ⟨tail, longer, shorter⟩ | ⟨tail, longer, shorter⟩
  · have lengths := congrArg length longer
    rw [length_append] at lengths
    have nil : tail = [] := eq_nil_of_length_eq_zero (by omega)
    subst nil
    exact ⟨[], by rw [longer, append_nil, append_nil], shorter.symm⟩
  · exact ⟨tail, longer, shorter⟩

/-- Reading up to the end of `bs` yields a non-empty first piece of it. -/
theorem read_within (feeds : Feeds s (bs ++ rest) t) (nonempty : bs ≠ []) :
    ∃ piece tail m, bs = piece ++ tail ∧ piece ≠ [] ∧
      Runs (Source.read bs.length) s piece m ∧ Feeds m (tail ++ rest) t := by
  obtain ⟨piece, others, m, split, some, short, run, feeds⟩ :=
    read_feeds (n := bs.length) feeds (length_pos_iff.mpr nonempty)
      (by rw [length_append]; omega)
  obtain ⟨tail, same, rfl⟩ := split_piece split short
  exact ⟨piece, tail, m, same, some, run, feeds⟩

/-- Passing over bytes up to the end of `bs` passes over a non-empty first piece of it. -/
theorem next_within (feeds : Feeds s (bs ++ rest) t) (nonempty : bs ≠ []) :
    ∃ piece tail m, bs = piece ++ tail ∧ piece ≠ [] ∧
      Runs (Source.next bs.length) s piece m ∧ Feeds m (tail ++ rest) t := by
  obtain ⟨piece, others, m, split, some, short, run, feeds⟩ :=
    next_feeds (n := bs.length) feeds (length_pos_iff.mpr nonempty)
      (by rw [length_append]; omega)
  obtain ⟨tail, same, rfl⟩ := split_piece split short
  exact ⟨piece, tail, m, same, some, run, feeds⟩

/-- The decoder consumes exactly `bs` and returns `a`, whatever follows. -/
def Decodes (p : EStateM ε σ α) (bs : Bytes) (a : α) : Prop :=
  ∀ ⦃s t : σ⦄ ⦃rest : Bytes⦄, Feeds s (bs ++ rest) t → ∃ m, Runs p s a m ∧ Feeds m rest t

theorem Decodes.pure (a : α) : Decodes (Pure.pure a : EStateM ε σ α) [] a := by
  intro s t rest feeds
  exact ⟨s, runs_pure a s, feeds⟩

theorem Decodes.bind {f : α → EStateM ε σ β} {ys : Bytes} {b : β} (first : Decodes p xs a)
    (next : Decodes (f a) ys b) : Decodes (p >>= f) (xs ++ ys) b := by
  intro s t rest feeds
  rw [append_assoc] at feeds
  obtain ⟨m, run, feeds⟩ := first feeds
  obtain ⟨u, run', feeds⟩ := next feeds
  exact ⟨u, run.bind run', feeds⟩

/-- A continuation that reads nothing. -/
theorem Decodes.bind_pure {f : α → EStateM ε σ β} {b : β} (first : Decodes p xs a)
    (next : Decodes (f a) [] b) : Decodes (p >>= f) xs b := by
  have both := first.bind next
  rwa [append_nil] at both

theorem Decodes.tryCatch (decodes : Decodes p bs a) (handler : ε → EStateM ε σ α) :
    Decodes (tryCatch p handler) bs a := by
  intro s t rest feeds
  obtain ⟨m, run, feeds⟩ := decodes feeds
  exact ⟨m, run.tryCatch handler, feeds⟩

/-- A decoder run from a source that holds exactly its bytes ends where the source does. -/
theorem Decodes.runs (decodes : Decodes p bs a) (feeds : Feeds s bs t) : Runs p s a t := by
  rw [← append_nil bs] at feeds
  obtain ⟨m, run, feeds⟩ := decodes feeds
  rw [feeds_nil feeds] at run
  exact run

end Kit
