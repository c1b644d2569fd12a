import ClickHouse.WireFormat

/-!
# Buffered input

`BufferedInput` reads its source a buffer at a time, or directly into the
caller's memory if a request is large.  How the source splits its bytes decides
which bytes are read when, but not which bytes the callers get.
-/

namespace ClickHouse

open Kit List

/-- The piece has at most `len` of the bytes.  It is empty only at their end, or if nothing is asked
for. -/
def IsPiece (len : Nat) (bytes piece : Bytes) : Prop :=
  piece.length ≤ len ∧ (0 < len → bytes ≠ [] → piece ≠ [])

/-- From `s`, of which `left` says what is left, the program takes a piece. -/
def TakesPiece {σ : Type} (left : σ → Bytes) (len : Nat) (p : EStateM Error σ Bytes) (s : σ) :
    Prop :=
  ∃ piece t, Runs p s piece t ∧ left s = piece ++ left t ∧ IsPiece len (left s) piece

/-- A source of known bytes, which splits them in any way. -/
class ExactSource (σ : Type) [Source Error σ] where
  left : σ → Bytes
  read_takes : ∀ len s, TakesPiece left len (Source.read len) s
  next_takes : ∀ len s, TakesPiece left len (Source.next len) s

open ExactSource

theorem isPiece_take {len : Nat} {bytes buffered : Bytes} (filled : bytes ≠ [] → buffered ≠ []) :
    IsPiece len bytes (buffered.take len) := by
  refine ⟨length_take_le .., fun asked more none => ?_⟩
  rcases take_eq_nil_iff.mp none with zero | empty
  · exact absurd zero (Nat.ne_of_gt asked)
  · exact filled more empty

theorem ArrayInput.takes_doNext (len : Nat) (s : ArrayInput) :
    TakesPiece ArrayInput.data len (ArrayInput.doNext len) s :=
  ⟨_, _, rfl, (take_append_drop len s.data).symm, isPiece_take id⟩

instance : ExactSource ArrayInput where
  left := ArrayInput.data
  read_takes := ArrayInput.takes_doNext
  next_takes := ArrayInput.takes_doNext

/-- `BufferedInput` over a buffer of at least one byte, with the rest of `array_input_`. -/
structure BufferedInput (σ : Type) where
  source : σ
  arrayInput : Bytes
  buflen : Nat
  positive : 0 < buflen

namespace BufferedInput

variable {σ : Type}

def create (source : σ) (buflen : Nat) (positive : 0 < buflen) : BufferedInput σ :=
  ⟨source, [], buflen, positive⟩

variable [Source Error σ]

/-- `source_->Read` -/
def readSource (len : Nat) : EStateM Error (BufferedInput σ) Bytes :=
  zoom source (fun source s => { s with source := source }) (Source.read len)

/-- `array_input_.Reset` with what is read into the buffer. -/
def refill : EStateM Error (BufferedInput σ) Unit := do
  let s ← get
  let piece ← readSource s.buflen
  modify fun s => { s with arrayInput := piece }

/-- `array_input_.Next` and `array_input_.Read` -/
def takeBuffered (len : Nat) : EStateM Error (BufferedInput σ) Bytes := do
  let s ← get
  set { s with arrayInput := s.arrayInput.drop len }
  pure (s.arrayInput.take len)

def doNext (len : Nat) : EStateM Error (BufferedInput σ) Bytes := do
  let s ← get
  if s.arrayInput.isEmpty then refill
  takeBuffered len

def doRead (len : Nat) : EStateM Error (BufferedInput σ) Bytes := do
  let s ← get
  if s.arrayInput.isEmpty then
    if s.buflen / 2 < len then readSource len
    else do
      refill
      takeBuffered len
  else takeBuffered len

instance : Source Error (BufferedInput σ) := ⟨doRead, doNext⟩

/-- What the callers have not got yet. -/
def rest [ExactSource σ] (s : BufferedInput σ) : Bytes := s.arrayInput ++ left s.source

variable [ExactSource σ] {s : BufferedInput σ}

theorem runs_readSource (empty : s.arrayInput = []) (len : Nat) :
    ∃ piece t, Runs (readSource len) s piece { s with source := t } ∧ s.rest = piece ++ left t ∧
      IsPiece len s.rest piece := by
  obtain ⟨piece, t, run, split, isPiece⟩ := read_takes len s.source
  have same : s.rest = left s.source := by rw [rest, empty, nil_append]
  rw [same]
  exact ⟨piece, t, run.zoom, split, isPiece⟩

/-- A refill changes nothing but where the bytes are. -/
theorem runs_refill (empty : s.arrayInput = []) :
    ∃ t, Runs refill s () t ∧ t.rest = s.rest ∧ (t.rest ≠ [] → t.arrayInput ≠ []) := by
  obtain ⟨piece, t, run, split, -, some⟩ := runs_readSource empty s.buflen
  refine ⟨{ s with source := t, arrayInput := piece },
    (runs_get s).bind (run.bind (runs_modify _ _)), split.symm, ?_⟩
  exact fun more => some s.positive (split ▸ more)

theorem takes_takeBuffered (filled : s.rest ≠ [] → s.arrayInput ≠ []) (len : Nat) :
    TakesPiece rest len (takeBuffered len) s := by
  refine ⟨s.arrayInput.take len, { s with arrayInput := s.arrayInput.drop len },
    (runs_get s).bind ((runs_set s _).bind (runs_pure _ _)), ?_, isPiece_take filled⟩
  rw [rest, rest, ← append_assoc, take_append_drop]

theorem takes_refill_takeBuffered (empty : s.arrayInput = []) (len : Nat) :
    TakesPiece rest len (do refill; takeBuffered len) s := by
  obtain ⟨m, refilled, same, filled⟩ := runs_refill empty
  obtain ⟨piece, t, run, split⟩ := takes_takeBuffered filled len
  rw [same] at split
  exact ⟨piece, t, refilled.bind run, split⟩

theorem takes_doNext (len : Nat) (s : BufferedInput σ) : TakesPiece rest len (doNext len) s := by
  by_cases empty : s.arrayInput.isEmpty
  · obtain ⟨piece, t, run, split⟩ := takes_refill_takeBuffered (isEmpty_iff.mp empty) len
    refine ⟨piece, t, (runs_get s).bind ?_, split⟩
    rw [if_pos empty]
    exact run
  · obtain ⟨piece, t, run, split⟩ := takes_takeBuffered (s := s) (fun _ => by simpa using empty) len
    refine ⟨piece, t, (runs_get s).bind ?_, split⟩
    rw [if_neg empty]
    exact run

theorem takes_doRead (len : Nat) (s : BufferedInput σ) : TakesPiece rest len (doRead len) s := by
  by_cases empty : s.arrayInput.isEmpty
  · have array := isEmpty_iff.mp empty
    by_cases large : s.buflen / 2 < len
    · obtain ⟨piece, t, run, split⟩ := runs_readSource array len
      refine ⟨piece, { s with source := t }, (runs_get s).bind ?_, ?_⟩
      · rw [if_pos empty, if_pos large]
        exact run
      · simpa [rest, array] using split
    · obtain ⟨piece, t, run, split⟩ := takes_refill_takeBuffered array len
      refine ⟨piece, t, (runs_get s).bind ?_, split⟩
      rw [if_pos empty, if_neg large]
      exact run
  · obtain ⟨piece, t, run, split⟩ := takes_takeBuffered (s := s) (fun _ => by simpa using empty) len
    refine ⟨piece, t, (runs_get s).bind ?_, split⟩
    rw [if_neg empty]
    exact run

/-- Buffered input is again a source of known bytes. -/
instance : ExactSource (BufferedInput σ) where
  left := rest
  read_takes := takes_doRead
  next_takes := takes_doNext

end BufferedInput

/-! ## Loops over pieces -/

section Loops

variable {σ : Type} [Source Error σ] [ExactSource σ] {fuel len : Nat}

/-- The first `len` bytes are a piece of them and the first of the others. -/
theorem take_drop_of_piece {bytes piece after : Bytes} (split : bytes = piece ++ after)
    (short : piece.length ≤ len) :
    bytes.take len = piece ++ after.take (len - piece.length) ∧
      bytes.drop len = after.drop (len - piece.length) := by
  subst split
  rw [take_append, drop_append, take_of_length_le short, drop_of_length_le short, nil_append]
  exact ⟨rfl, rfl⟩

/-- An empty piece of a source that is asked for bytes is its end. -/
theorem left_eq_nil {s t : σ} (split : left s = [] ++ left t) (isPiece : IsPiece len (left s) [])
    (asked : len ≠ 0) : left s = [] ∧ left t = [] := by
  have done : left s = [] := by
    by_contra more
    exact isPiece.2 (Nat.pos_of_ne_zero asked) more rfl
  exact ⟨done, split.symm.trans done⟩

theorem runs_readAllLoop (enough : len ≤ fuel) (s : σ) :
    ∃ t, Runs (readAllLoop fuel len) s ((left s).take len) t ∧ left t = (left s).drop len := by
  induction fuel generalizing len s with
  | zero =>
    obtain rfl := Nat.le_zero.mp enough
    exact ⟨s, runs_pure _ s, rfl⟩
  | succ fuel ih =>
    rw [readAllLoop]
    split
    · rename_i none
      subst none
      exact ⟨s, runs_pure _ s, rfl⟩
    · rename_i asked
      obtain ⟨piece, m, read, split, isPiece⟩ := read_takes len s
      cases piece with
      | nil =>
        obtain ⟨done, done'⟩ := left_eq_nil split isPiece asked
        rw [done, take_nil, drop_nil]
        exact ⟨m, read.bind (runs_pure _ m), done'⟩
      | cons byte bytes =>
        obtain ⟨first, others⟩ := take_drop_of_piece split isPiece.1
        rw [first, others]
        have less : len - (byte :: bytes).length ≤ fuel := by
          rw [length_cons]
          omega
        obtain ⟨t, run, after⟩ := ih less m
        exact ⟨t, read.bind (run.bind (runs_pure _ t)), after⟩

/-- `ReadAll` reads up to `len` bytes, however they are split. -/
theorem runs_readAll (len : Nat) (s : σ) :
    ∃ t, Runs (readAll len) s ((left s).take len) t ∧ left t = (left s).drop len :=
  runs_readAllLoop (Nat.le_refl len) s

theorem runs_skipLoop (enough : len ≤ fuel) (s : σ) :
    ∃ t, Runs (skipLoop fuel len) s (decide (len ≤ (left s).length)) t ∧
      left t = (left s).drop len := by
  induction fuel generalizing len s with
  | zero =>
    obtain rfl := Nat.le_zero.mp enough
    exact ⟨s, runs_pure _ s, rfl⟩
  | succ fuel ih =>
    rw [skipLoop]
    split
    · rename_i none
      subst none
      exact ⟨s, runs_pure _ s, rfl⟩
    · rename_i asked
      obtain ⟨piece, m, next, split, isPiece⟩ := next_takes len s
      cases piece with
      | nil =>
        obtain ⟨done, done'⟩ := left_eq_nil split isPiece asked
        rw [done, drop_nil, length_nil, decide_eq_false (by omega)]
        exact ⟨m, next.bind (runs_pure _ m), done'⟩
      | cons byte bytes =>
        have less : len - (byte :: bytes).length ≤ fuel := by
          rw [length_cons]
          omega
        obtain ⟨t, run, after⟩ := ih less m
        have enough : len - (byte :: bytes).length ≤ (left m).length ↔ len ≤ (left s).length := by
          rw [split, length_append]
          omega
        rw [(take_drop_of_piece split isPiece.1).2, ← decide_eq_decide.mpr enough]
        exact ⟨t, next.bind run, after⟩

theorem runs_skip (bytes : Nat) (s : σ) :
    ∃ t, Runs (skip bytes) s (decide (bytes ≤ (left s).length)) t ∧
      left t = (left s).drop bytes :=
  runs_skipLoop (Nat.le_refl bytes) s

theorem runs_readByte (s : σ) :
    ∃ t, Runs (Source.read 1) s ((left s).take 1) t ∧ left t = (left s).drop 1 := by
  obtain ⟨piece, t, read, split, isPiece⟩ := read_takes 1 s
  obtain ⟨first, others⟩ := take_drop_of_piece split isPiece.1
  rw [first, others]
  rcases piece with _ | ⟨byte, bytes⟩
  · obtain ⟨-, done⟩ := left_eq_nil split isPiece Nat.one_ne_zero
    rw [done]
    exact ⟨t, read, done⟩
  · rw [length_cons, Nat.sub_eq_zero_of_le (Nat.le_add_left 1 _), take_zero, append_nil]
    exact ⟨t, read, rfl⟩

/-! ## The same bytes in one piece -/

/-- The program does on any source what `q` does on an array of the same bytes. -/
def ReadsAs {α : Type} (p : EStateM Error σ α) (q : EStateM Error ArrayInput α) : Prop :=
  ∀ s, ∃ a t, Runs p s a t ∧ Runs q ⟨left s⟩ a ⟨left t⟩

theorem ReadsAs.pure {α : Type} (a : α) : ReadsAs (Pure.pure a : EStateM Error σ α) (Pure.pure a) :=
  fun s => ⟨a, s, runs_pure a s, runs_pure a _⟩

theorem ReadsAs.bind {α β : Type} {p : EStateM Error σ α} {q : EStateM Error ArrayInput α}
    {f : α → EStateM Error σ β} {g : α → EStateM Error ArrayInput β} (first : ReadsAs p q)
    (next : ∀ a, ReadsAs (f a) (g a)) : ReadsAs (p >>= f) (q >>= g) := by
  intro s
  obtain ⟨a, m, run, run'⟩ := first s
  obtain ⟨b, t, runs, runs'⟩ := next a m
  exact ⟨b, t, run.bind runs, run'.bind runs'⟩

theorem readsAs_readAll (len : Nat) :
    ReadsAs (readAll len : EStateM Error σ Bytes) (readAll len) := by
  intro s
  obtain ⟨t, run, after⟩ := runs_readAll len s
  obtain ⟨⟨data⟩, run', after'⟩ := runs_readAll len (⟨left s⟩ : ArrayInput)
  obtain rfl : data = left t := after'.trans after.symm
  exact ⟨_, t, run, run'⟩

theorem readsAs_readVarintLoop (i value : Nat) :
    ReadsAs (readVarintLoop fuel i value : EStateM Error σ _) (readVarintLoop fuel i value) := by
  have one : ReadsAs (Source.read 1 : EStateM Error σ Bytes) (Source.read 1) := by
    intro s
    obtain ⟨t, run, after⟩ := runs_readByte s
    refine ⟨_, t, run, ?_⟩
    rw [after]
    rfl
  induction fuel generalizing i value with
  | zero => exact .pure none
  | succ fuel ih =>
    refine one.bind fun piece => ?_
    rcases piece with _ | ⟨byte, _ | ⟨_, _⟩⟩
    · exact .pure none
    · dsimp only
      split
      · exact .pure _
      · exact ih _ _
    · exact .pure none

theorem readsAs_readString : ReadsAs (readString : EStateM Error σ _) readString := by
  refine (readsAs_readVarintLoop 0 0).bind fun found => ?_
  cases found with
  | none => exact .pure none
  | some len =>
    dsimp only
    split
    · exact .pure none
    · exact (readsAs_readAll len).bind fun _ => .pure _

end Loops

/-! ## Requests -/

inductive InputRequest
  | read (len : Nat)
  | readByte
  | next (len : Nat)
  | skip (bytes : Nat)

/-- What a request returns: bytes, a byte if there is one, or whether all bytes were skipped. -/
inductive InputReply
  | bytes (piece : Bytes)
  | byte (found : Option UInt8)
  | skipped (all : Bool)

section Requests

variable {σ : Type} [Source Error σ]

def InputRequest.serve : InputRequest → EStateM Error σ InputReply
  | .read len => do pure (.bytes (← Source.read len))
  | .readByte => do
    match ← Source.read 1 with
    | [byte] => pure (.byte (some byte))
    | _ => pure (.byte none)
  | .next len => do pure (.bytes (← Source.next len))
  | .skip bytes => do pure (.skipped (← ClickHouse.skip bytes))

def serveAll : List InputRequest → EStateM Error σ (List InputReply)
  | [] => pure []
  | request :: requests => do
    let reply ← request.serve
    let replies ← serveAll requests
    pure (reply :: replies)

/-- The reply to a request that takes `piece` off the available bytes. -/
def InputRequest.Gives (available piece : Bytes) : InputRequest → InputReply → Prop
  | .read len, .bytes found | .next len, .bytes found => found = piece ∧ IsPiece len available piece
  | .readByte, .byte found => found = available.head? ∧ piece = available.take 1
  | .skip bytes, .skipped all => (all = true ↔ bytes ≤ available.length) ∧
    piece = available.take bytes
  | _, _ => False

/-- The replies are made of consecutive pieces of the available bytes, and `rest` is left. -/
def Delivers (available : Bytes) : List InputRequest → List InputReply → Bytes → Prop
  | [], [], rest => rest = available
  | request :: requests, reply :: replies, rest => ∃ piece after, available = piece ++ after ∧
    request.Gives available piece reply ∧ Delivers after requests replies rest
  | _, _, _ => False

variable [ExactSource σ]

theorem serve_gives (request : InputRequest) (s : σ) :
    ∃ reply t piece, Runs request.serve s reply t ∧ left s = piece ++ left t ∧
      request.Gives (left s) piece reply := by
  have divides {len : Nat} {t : σ} (after : left t = (left s).drop len) :
      left s = (left s).take len ++ left t := by
    rw [after, take_append_drop]
  cases request with
  | read len =>
    obtain ⟨piece, t, run, split, isPiece⟩ := read_takes len s
    exact ⟨_, t, piece, run.bind (runs_pure _ t), split, rfl, isPiece⟩
  | readByte =>
    obtain ⟨t, run, after⟩ := runs_readByte s
    refine ⟨.byte (left s).head?, t, (left s).take 1, run.bind ?_, divides after, rfl, rfl⟩
    cases left s with
    | nil => exact runs_pure _ t
    | cons byte bytes => exact runs_pure _ t
  | next len =>
    obtain ⟨piece, t, run, split, isPiece⟩ := next_takes len s
    exact ⟨_, t, piece, run.bind (runs_pure _ t), split, rfl, isPiece⟩
  | skip bytes =>
    obtain ⟨t, run, after⟩ := runs_skip bytes s
    exact ⟨.skipped _, t, (left s).take bytes, run.bind (runs_pure _ t), divides after,
      decide_eq_true_iff, rfl⟩

theorem serveAll_delivers (requests : List InputRequest) (s : σ) :
    ∃ replies t, Runs (serveAll requests) s replies t ∧
      Delivers (left s) requests replies (left t) := by
  induction requests generalizing s with
  | nil => exact ⟨[], s, runs_pure _ s, rfl⟩
  | cons request requests ih =>
    obtain ⟨reply, m, piece, run, split, gives⟩ := serve_gives request s
    obtain ⟨replies, t, runs, delivers⟩ := ih m
    exact ⟨reply :: replies, t, run.bind (runs.bind (runs_pure _ t)), piece, left m, split, gives,
      delivers⟩

/-- Whatever is asked of a buffered input, and however its source splits the bytes, the replies are
consecutive pieces of them; `ReadAll` and `ReadString` read as if the bytes were in one piece. -/
theorem bufferedInput_transparent (s : BufferedInput σ) :
    (∀ requests, ∃ replies t, Runs (serveAll requests) s replies t ∧
      Delivers s.rest requests replies t.rest) ∧
    (∀ len, ∃ bytes t, Runs (readAll len) s bytes t ∧
      Runs (readAll len) (⟨s.rest⟩ : ArrayInput) bytes ⟨t.rest⟩) ∧
    ∃ string t, Runs readString s string t ∧
      Runs readString (⟨s.rest⟩ : ArrayInput) string ⟨t.rest⟩ :=
  ⟨fun requests => serveAll_delivers requests s, fun len => readsAs_readAll len s,
    readsAs_readString s⟩

end Requests

end ClickHouse
