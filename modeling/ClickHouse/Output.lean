import ClickHouse.Error
import ClickHouse.Kit.Output

/-!
# Output streams

`output.cpp`: `BufferedOutput`, and `WireFormat::WriteAll` over any stream.
The stream that everything ends in is a `Sink`, which takes what it is given.
-/

namespace ClickHouse

open Kit List

/-! ## Writing all bytes -/

section WriteAll

variable {σ : Type} [Output Error σ]

/-- The loop of `WireFormat::WriteAll`.  Every round writes at least one byte or is the last. -/
def writeAllLoop (originalLen : Nat) : Nat → Bytes → EStateM Error σ Unit
  | _, [] => pure ()
  | 0, data => throw (failed data)
  | fuel + 1, data => do
    let written ← Output.write data
    if written = 0 then throw (failed data) else writeAllLoop originalLen fuel (data.drop written)
where
  failed (data : Bytes) : Error :=
    .protocolError (ascii "Failed to write " ++ toDecimal originalLen ++
      ascii " bytes, only written " ++ toDecimal (originalLen - data.length))

def writeAll (data : Bytes) : EStateM Error σ Unit :=
  writeAllLoop data.length data.length data

theorem writeAllLoop_nil (originalLen fuel : Nat) :
    (writeAllLoop originalLen fuel [] : EStateM Error σ Unit) = pure () := by
  cases fuel <;> rfl

end WriteAll

/-! ## The buffer -/

/-- `BufferedOutput`: the bytes of the buffer before the write position of `array_output_`. -/
structure BufferedOutput (δ : Type) where
  destination : δ
  capacity : Nat
  filled : Bytes
  fits : filled.length ≤ capacity

namespace BufferedOutput

variable {δ : Type}

/-- A buffer of the given size before the first write. -/
def create (destination : δ) (buflen : Nat) : BufferedOutput δ :=
  ⟨destination, buflen, [], Nat.zero_le _⟩

def toDestination {α : Type} (p : EStateM Error δ α) : EStateM Error (BufferedOutput δ) α :=
  zoom BufferedOutput.destination (fun d s => { s with destination := d }) p

/-- `array_output_.Reset` -/
def reset (s : BufferedOutput δ) : BufferedOutput δ :=
  ⟨s.destination, s.capacity, [], Nat.zero_le _⟩

/-- `array_output_.Write`: the bytes for which there is room. -/
def arrayWrite (data : Bytes) : EStateM Error (BufferedOutput δ) Nat := do
  let s ← get
  let taken := data.take (s.capacity - s.filled.length)
  set (⟨s.destination, s.capacity, s.filled ++ taken, by
    have filled := s.fits
    have room : taken.length ≤ s.capacity - s.filled.length := length_take_le ..
    rw [length_append]
    omega⟩ : BufferedOutput δ)
  pure taken.length

variable [Output Error δ]

/-- The loop of `DoFlush`.  A destination that takes nothing keeps it going. -/
def flushLoop : Nat → Bytes → EStateM Error (BufferedOutput δ) Unit
  | _, [] => pure ()
  | 0, _ => throw .diverges
  | fuel + 1, data => do
    let written ← toDestination (Output.write data)
    flushLoop fuel (data.drop written)

theorem flushLoop_nil (fuel : Nat) :
    (flushLoop fuel [] : EStateM Error (BufferedOutput δ) Unit) = pure () := by
  cases fuel <;> rfl

def doFlush : EStateM Error (BufferedOutput δ) Unit := do
  let s ← get
  if s.filled ≠ [] then do
    flushLoop s.filled.length s.filled
    toDestination Output.flush
    modify reset

/-- `DoNext` for as many bytes as `data` has, and the caller's `data` in the memory it returns. -/
def doNext (data : Bytes) : EStateM Error (BufferedOutput δ) Nat := do
  let s ← get
  if s.capacity - s.filled.length < data.length then doFlush
  arrayWrite data

def doWrite (data : Bytes) : EStateM Error (BufferedOutput δ) Nat := do
  let s ← get
  if s.capacity - s.filled.length < data.length then do
    doFlush
    if data.length > s.capacity / 2 then toDestination (Output.write data)
    else arrayWrite data
  else arrayWrite data

instance : Output Error (BufferedOutput δ) := ⟨doWrite, doFlush⟩

end BufferedOutput

/-- The end of a chain of streams: everything that was written. -/
structure Sink where
  written : Bytes

instance : PromptOutput Error Sink where
  write data := do
    modify fun sink => ⟨sink.written ++ data⟩
    pure data.length
  flush := pure ()
  Fits _ := True
  fits_le _ _ := trivial
  Took sink bs := sink.written = bs
  Sent sink bs := sink.written = bs
  took_of_sent same := same
  write_took := by
    rintro sink _ data rfl _
    exact ⟨_, (runs_modify _ sink).bind (runs_pure _ _), rfl⟩
  flush_sent same := ⟨_, runs_pure _ _, same⟩
  sent_of_took same := same

/-! ## What a buffer takes and sends -/

variable {bs data : Bytes}

section Lawful

variable {σ : Type}

open LawfulOutput

theorem writeAll_took [LawfulOutput Error σ] {s : σ} (took : Took s bs)
    (fits : Fits (ε := Error) σ data.length) :
    ∃ t, Runs (writeAll data) s () t ∧ Took t (bs ++ data) := by
  cases data with
  | nil =>
    refine ⟨s, runs_pure _ _, ?_⟩
    rw [append_nil]
    exact took
  | cons byte data =>
    obtain ⟨t, run, took⟩ := write_took took fits
    refine ⟨t, run.bind ?_, took⟩
    rw [if_neg (by simp), drop_length, writeAllLoop_nil]
    exact runs_pure _ _

namespace BufferedOutput

variable {δ : Type} [PromptOutput Error δ]

/-- The destination has sent what is not in the buffer. -/
def Holds (s : BufferedOutput δ) (bs : Bytes) : Prop :=
  Fits (ε := Error) δ s.capacity ∧ ∃ sent, Sent s.destination sent ∧ sent ++ s.filled = bs

theorem holds_create {destination : δ} {buflen : Nat} (sent : Sent destination bs)
    (fits : Fits (ε := Error) δ buflen) : (create destination buflen).Holds bs :=
  ⟨fits, bs, sent, append_nil bs⟩

variable {s : BufferedOutput δ}

/-- After a flush everything was sent. -/
theorem doFlush_sent (holds : s.Holds bs) :
    ∃ t : BufferedOutput δ, Runs doFlush s () t ∧ Sent t.destination bs ∧ t.filled = [] ∧
      t.capacity = s.capacity := by
  obtain ⟨destination, capacity, filled, within⟩ := s
  obtain ⟨fits, sent, isSent, rfl⟩ := holds
  cases filled with
  | nil =>
    refine ⟨_, (runs_get _).bind (runs_pure _ _), ?_, rfl, rfl⟩
    rw [append_nil]
    exact isSent
  | cons byte rest =>
    have short : Fits (ε := Error) δ (byte :: rest).length := fits_le within fits
    obtain ⟨d, wrote, took⟩ := write_took (took_of_sent isSent) short
    obtain ⟨d', flushed, isSent'⟩ := flush_sent took
    refine ⟨⟨d', capacity, [], Nat.zero_le _⟩, (runs_get _).bind ?_, isSent', rfl, rfl⟩
    rw [if_pos (cons_ne_nil _ _)]
    have wrote' : Runs (toDestination (Output.write (byte :: rest)))
        (⟨destination, capacity, byte :: rest, within⟩ : BufferedOutput δ) (byte :: rest).length
        ⟨d, capacity, byte :: rest, within⟩ := wrote.zoom
    have flushed' : Runs (toDestination Output.flush)
        (⟨d, capacity, byte :: rest, within⟩ : BufferedOutput δ) ()
        ⟨d', capacity, byte :: rest, within⟩ := flushed.zoom
    have loop : Runs (flushLoop (byte :: rest).length (byte :: rest))
        (⟨destination, capacity, byte :: rest, within⟩ : BufferedOutput δ) ()
        ⟨d, capacity, byte :: rest, within⟩ := by
      refine wrote'.bind ?_
      rw [drop_length, flushLoop_nil]
      exact runs_pure _ _
    exact loop.bind (flushed'.bind (runs_modify _ _))

/-- With enough room the bytes go to the buffer. -/
theorem arrayWrite_holds (holds : s.Holds bs) (room : data.length ≤ s.capacity - s.filled.length) :
    ∃ t : BufferedOutput δ, Runs (arrayWrite data) s data.length t ∧ t.Holds (bs ++ data) := by
  obtain ⟨fits, sent, isSent, rfl⟩ := holds
  have all : data.take (s.capacity - s.filled.length) = data := take_of_length_le room
  have count : (data.take (s.capacity - s.filled.length)).length = data.length := by rw [all]
  have wrote : Runs (arrayWrite data) s (data.take (s.capacity - s.filled.length)).length _ :=
    (runs_get s).bind ((runs_set _ _).bind (runs_pure _ _))
  rw [count] at wrote
  refine ⟨_, wrote, fits, sent, isSent, ?_⟩
  dsimp only
  rw [all, append_assoc]

theorem doWrite_holds (holds : s.Holds bs) (fits : Fits (ε := Error) δ data.length) :
    ∃ t : BufferedOutput δ, Runs (doWrite data) s data.length t ∧ t.Holds (bs ++ data) := by
  by_cases full : s.capacity - s.filled.length < data.length
  · obtain ⟨m, flushed, isSent, empty, capacity⟩ := doFlush_sent holds
    have emptied : m.Holds bs := ⟨capacity ▸ holds.1, bs, isSent, by rw [empty, append_nil]⟩
    by_cases long : data.length > s.capacity / 2
    · obtain ⟨d, wrote, took⟩ := write_took (took_of_sent isSent) fits
      have wrote' : Runs (toDestination (Output.write data)) m data.length
        { m with destination := d } := wrote.zoom
      refine ⟨{ m with destination := d }, (runs_get s).bind ?_, ?_, bs ++ data,
        PromptOutput.sent_of_took took, ?_⟩
      · rw [if_pos full]
        refine flushed.bind ?_
        rw [if_pos long]
        exact wrote'
      · exact capacity ▸ holds.1
      · show bs ++ data ++ m.filled = _
        rw [empty, append_nil]
    · obtain ⟨t, wrote, holds'⟩ := arrayWrite_holds emptied (show data.length ≤ _ by
        rw [capacity, empty, length_nil]
        omega)
      refine ⟨t, (runs_get s).bind ?_, holds'⟩
      rw [if_pos full]
      refine flushed.bind ?_
      rw [if_neg long]
      exact wrote
  · obtain ⟨t, wrote, holds'⟩ := arrayWrite_holds holds (Nat.le_of_not_lt full)
    refine ⟨t, (runs_get s).bind ?_, holds'⟩
    rw [if_neg full]
    exact wrote

/-- A buffer in front of a prompt output takes every write that fits its destination. -/
instance : LawfulOutput Error (BufferedOutput δ) where
  Fits n := Fits (ε := Error) δ n
  fits_le := fits_le
  Took := Holds
  Sent s bs := s.Holds bs ∧ s.filled = []
  took_of_sent := And.left
  write_took := doWrite_holds
  flush_sent := by
    intro s bs holds
    obtain ⟨t, flushed, isSent, empty, capacity⟩ := doFlush_sent holds
    exact ⟨t, flushed, ⟨capacity ▸ holds.1, bs, isSent, by rw [empty, append_nil]⟩, empty⟩

end BufferedOutput

end Lawful

/-! ## Accounts -/

section Accounts

theorem writeAll_accounted {σ : Type} [Output Error σ] {took : σ → Bytes → Prop}
    (accounts : Accounts took) {s t : σ} (holds : took s bs) (run : Runs (writeAll data) s () t) :
    took t (bs ++ data) := by
  unfold writeAll at run
  generalize data.length = originalLen at run
  -- The induction is on the rounds the loop may still take.
  suffices loop : ∀ fuel, ∀ {s : σ} {bs data : Bytes}, took s bs →
      Runs (writeAllLoop originalLen fuel data) s () t → took t (bs ++ data) from
    loop originalLen holds run
  intro fuel
  induction fuel with
  | zero =>
    intro s bs data holds run
    cases data with
    | nil =>
      cases run
      rw [append_nil]
      exact holds
    | cons byte data => cases run
  | succ fuel ih =>
    intro s bs data holds run
    cases data with
    | nil =>
      cases run
      rw [append_nil]
      exact holds
    | cons byte data =>
      obtain ⟨written, m, wrote, run⟩ := runs_bind_iff.mp run
      split at run
      · cases run
      · have took := ih (accounts.write holds wrote).2 run
        rw [append_assoc, take_append_drop] at took
        exact took

namespace BufferedOutput

variable {δ : Type} [Output Error δ] {took : δ → Bytes → Prop}

/-- The account of the destination, and the bytes in the buffer. -/
def Accounted (took : δ → Bytes → Prop) (s : BufferedOutput δ) (bs : Bytes) : Prop :=
  ∃ sent, took s.destination sent ∧ sent ++ s.filled = bs

theorem flushLoop_accounted (accounts : Accounts took) {fuel : Nat} {s t : BufferedOutput δ}
    (holds : took s.destination bs) (run : Runs (flushLoop fuel data) s () t) :
    took t.destination (bs ++ data) := by
  induction fuel generalizing s bs data with
  | zero =>
    cases data with
    | nil =>
      cases run
      rw [append_nil]
      exact holds
    | cons byte data => cases run
  | succ fuel ih =>
    cases data with
    | nil =>
      cases run
      rw [append_nil]
      exact holds
    | cons byte data =>
      obtain ⟨written, m, wrote, run⟩ := runs_bind_iff.mp run
      obtain ⟨d, taken, rfl⟩ := wrote.of_zoom
      have took := ih (accounts.write holds taken).2 run
      rw [append_assoc, take_append_drop] at took
      exact took

/-- After a flush that returns, the destination has taken everything. -/
theorem doFlush_accounted (accounts : Accounts took) {s t : BufferedOutput δ} {bs : Bytes}
    (holds : s.Accounted took bs) (run : Runs doFlush s () t) :
    took t.destination bs ∧ t.filled = [] := by
  obtain ⟨sent, isSent, rfl⟩ := holds
  have run : Runs (if s.filled ≠ [] then do
      flushLoop s.filled.length s.filled
      toDestination Output.flush
      modify reset
    else pure ()) s () t := run
  split at run
  · obtain ⟨_, m, looped, run⟩ := runs_bind_iff.mp run
    obtain ⟨_, m', flushed, run⟩ := runs_bind_iff.mp run
    obtain ⟨d, passed, rfl⟩ := flushed.of_zoom
    cases run
    exact ⟨accounts.flush (flushLoop_accounted accounts isSent looped) passed, rfl⟩
  · rename_i none
    cases run
    have none : s.filled = [] := Classical.not_not.mp none
    refine ⟨?_, none⟩
    rw [none, append_nil]
    exact isSent

omit [Output Error δ] in
theorem arrayWrite_accounted {s t : BufferedOutput δ} {n : Nat} (holds : s.Accounted took bs)
    (run : Runs (arrayWrite data) s n t) :
    n ≤ data.length ∧ t.Accounted took (bs ++ data.take n) := by
  obtain ⟨sent, isSent, rfl⟩ := holds
  cases run
  refine ⟨by rw [length_take]; omega, sent, isSent, ?_⟩
  dsimp only
  rw [append_assoc, length_take, take_eq_take_min (l := data)]

theorem accounts (destination : Accounts took) :
    Accounts (Accounted took : BufferedOutput δ → Bytes → Prop) where
  write := by
    intro s t bs data n holds run
    have run : Runs (if s.capacity - s.filled.length < data.length then do
        doFlush
        if data.length > s.capacity / 2 then toDestination (Output.write data) else arrayWrite data
      else arrayWrite data) s n t := run
    split at run
    · obtain ⟨_, m, flushed, run⟩ := runs_bind_iff.mp run
      obtain ⟨isSent, empty⟩ := doFlush_accounted destination holds flushed
      split at run
      · obtain ⟨d, taken, rfl⟩ := run.of_zoom
        obtain ⟨short, isSent⟩ := destination.write isSent taken
        refine ⟨short, _, isSent, ?_⟩
        dsimp only
        rw [empty, append_nil]
      · exact arrayWrite_accounted ⟨bs, isSent, by rw [empty, append_nil]⟩ run
    · exact arrayWrite_accounted holds run
  flush := by
    intro s t bs holds run
    obtain ⟨isSent, empty⟩ := doFlush_accounted destination holds run
    exact ⟨bs, isSent, by rw [empty, append_nil]⟩

end BufferedOutput

end Accounts

end ClickHouse
