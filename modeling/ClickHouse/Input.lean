import ClickHouse.Error

/-!
# Input streams

`input.h`: a `ZeroCopyInput` hands out views of its own bytes (`Next`), and
`Read` copies such a view.  A stream here is a state with these two operations,
both of which may return fewer bytes than asked for.
-/

namespace ClickHouse

open Kit List

/-- `ZeroCopyInput::Skip`.  Every round passes over at least one byte, so `bytes` rounds are
enough. -/
def skipLoop {σ : Type} [Source Error σ] : Nat → Nat → EStateM Error σ Bool
  | 0, bytes => pure (bytes == 0)
  | fuel + 1, bytes =>
    if bytes = 0 then pure true
    else do
      let piece ← Source.next bytes
      if piece.isEmpty then pure false
      else skipLoop fuel (bytes - piece.length)

def skip {σ : Type} [Source Error σ] (bytes : Nat) : EStateM Error σ Bool :=
  skipLoop bytes bytes

/-- `ArrayInput`: the bytes from `data_` on, `len_` of them. -/
structure ArrayInput where
  data : Bytes
deriving DecidableEq, Repr

/-- `ArrayInput::DoNext` -/
def ArrayInput.doNext (len : Nat) : EStateM Error ArrayInput Bytes :=
  fun s => .ok (s.data.take len) ⟨s.data.drop len⟩

/-- Within the bytes an array starts with, `DoNext` returns all that is asked for. -/
theorem ArrayInput.doNext_feeds {s t : ArrayInput} {bs : Bytes} {n : Nat}
    (feeds : s.data = bs ++ t.data) (positive : 0 < n) (fits : n ≤ bs.length) :
    ∃ piece rest m, bs = piece ++ rest ∧ piece ≠ [] ∧ piece.length ≤ n ∧
      Runs (ArrayInput.doNext n) s piece m ∧ m.data = rest ++ t.data := by
  obtain ⟨data⟩ := s
  dsimp only at feeds
  subst feeds
  have length : (bs.take n).length = n := by
    rw [length_take]
    omega
  refine ⟨bs.take n, bs.drop n, ⟨bs.drop n ++ t.data⟩, (take_append_drop n bs).symm, ?_,
    Nat.le_of_eq length, ?_, rfl⟩
  · exact length_pos_iff.mp (by omega)
  · unfold Runs ArrayInput.doNext
    rw [take_append_of_le_length fits, drop_append_of_le_length fits]

/-- An array delivers any bytes it starts with and is left with the others. -/
instance : LawfulSource Error ArrayInput where
  read := ArrayInput.doNext
  next := ArrayInput.doNext
  Feeds s bs t := s.data = bs ++ t.data
  feeds_nil := by
    rintro ⟨data⟩ ⟨rest⟩ feeds
    exact congrArg ArrayInput.mk feeds
  read_feeds := ArrayInput.doNext_feeds
  next_feeds := ArrayInput.doNext_feeds

instance : DivisibleSource Error ArrayInput :=
  { (inferInstance : LawfulSource Error ArrayInput) with
    feeds_append := by
      rintro s t xs ys feeds
      exact ⟨⟨ys ++ t.data⟩, feeds.trans (append_assoc ..), rfl⟩ }

/-- A decoder over an array returns its value and leaves exactly what follows. -/
theorem ArrayInput.runs_of_decodes {α : Type} {p : EStateM Error ArrayInput α} {bs : Bytes} {a : α}
    (decodes : Decodes p bs a) (rest : Bytes) : Runs p ⟨bs ++ rest⟩ a ⟨rest⟩ :=
  decodes.runs rfl

theorem ArrayInput.runs_nil (n : Nat) : Runs (Source.read n) (⟨[]⟩ : ArrayInput) [] ⟨[]⟩ := by
  cases n with
  | zero => rfl
  | succ n => rfl

theorem ArrayInput.runs_cons (byte : UInt8) (data : Bytes) :
    Runs (Source.read 1) (⟨byte :: data⟩ : ArrayInput) [byte] ⟨data⟩ := rfl

theorem decodes_skipLoop {σ : Type} [LawfulSource Error σ] (fuel : Nat) (bs : Bytes)
    (enough : bs.length ≤ fuel) : Decodes (σ := σ) (skipLoop fuel bs.length) bs true := by
  induction fuel generalizing bs with
  | zero =>
    have empty : bs = [] := eq_nil_of_length_eq_zero (by omega)
    subst empty
    exact .pure true
  | succ fuel ih =>
    by_cases empty : bs = []
    · subst empty
      exact .pure true
    · intro s t rest feeds
      obtain ⟨piece, tail, m, rfl, nonempty, run, feeds⟩ := next_within feeds empty
      have progress := length_pos_iff.mpr nonempty
      rw [length_append] at enough
      obtain ⟨u, run', feeds⟩ := ih tail (by omega) feeds
      refine ⟨u, ?_, feeds⟩
      rw [skipLoop, if_neg (by rw [length_append]; omega)]
      refine run.bind ?_
      rw [if_neg (by simpa using nonempty), length_append, Nat.add_sub_cancel_left]
      exact run'

theorem decodes_skip {σ : Type} [LawfulSource Error σ] (bs : Bytes) :
    Decodes (σ := σ) (skip bs.length) bs true :=
  decodes_skipLoop bs.length bs (Nat.le_refl _)

end ClickHouse
