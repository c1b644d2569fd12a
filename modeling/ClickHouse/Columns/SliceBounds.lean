import ClickHouse.Columns.ArrayRuns

/-!
# The bounds of ColumnArray::Slice

`ColumnArray::Slice` compares `begin + size` with the number of rows, in
`size_t` and only if `size` is not 0, and then reads offsets and slices the
data.  Here it is executed with a log of what it accesses, so that the accesses
can be compared with the bounds for all arguments.
-/

namespace ClickHouse

open Kit

/-- What a slice accesses: an offset by its index, or rows of the data. -/
inductive Access
  | offset (index : Nat)
  | data (start len : Nat)
deriving DecidableEq, Repr

def Access.InBounds (rows size : Nat) : Access → Prop
  | .offset index => index < rows
  | .data start len => start + len ≤ size

/-- Programs that add what they access to a log. -/
abbrev Logged := EStateM Error (List Access)

def logAccess (access : Access) : Logged Unit := modify (· ++ [access])

/-- `(*offsets_)[n]` -/
def readOffset (offsets : ColumnVector 8) (n : Nat) : Logged Nat := do
  logAccess (.offset n)
  ofExcept (vectorAt offsets n)

/-- `ColumnArray::GetOffset` -/
def loggedOffset (offsets : ColumnVector 8) (n : Nat) : Logged Nat :=
  if n = 0 then pure 0 else readOffset offsets (n - 1)

/-- `ColumnArray::GetSize` -/
def loggedRowSize (offsets : ColumnVector 8) (n : Nat) : Logged Nat := do
  let last ← readOffset offsets n
  if n = 0 then pure last
  else
    let first ← readOffset offsets (n - 1)
    pure ((last + 2 ^ 64 - first) % 2 ^ 64)

/-- The loop of `ColumnArray::Slice`. -/
def loggedSliceOffsets (offsets : ColumnVector 8) : Nat → Nat → Nat → Logged (ColumnVector 8)
  | _, 0, _ => pure []
  | n, len + 1, offset => do
    let size ← loggedRowSize offsets (wrapPosition offsets.length n)
    let next := (offset + size) % 2 ^ 64
    let others ← loggedSliceOffsets offsets (n + 1) len next
    pure (Word.ofNat 8 next :: others)

section Slices

variable [Hashing]

/-- `data_->Slice` -/
def sliceData (data : Column) (start len : Nat) : Logged Column := do
  logAccess (.data start len)
  ofExcept (data.slice start len)

/-- The part of `ColumnArray::Slice` behind the check of its arguments. -/
def ColumnArray.loggedRows (array : ColumnArray) (start len : Nat) : Logged Column := do
  let first ← loggedOffset array.offsets start
  let last ← loggedOffset array.offsets (wrapPosition array.offsets.length (start + len))
  let slicedData ← sliceData array.data first ((last + 2 ^ 64 - first) % 2 ^ 64)
  let slicedOffsets ← loggedSliceOffsets array.offsets start len 0
  ofExcept (arrayWithOffsets slicedData slicedOffsets)

/-- `ColumnArray::Slice` -/
def ColumnArray.loggedSlice (array : ColumnArray) (start len : Nat) : Logged Column :=
  if len ≠ 0 ∧ array.offsets.length < wrapPosition array.offsets.length (start + len) then
    throw (.validationError (ascii "Slice indexes are out of bounds"))
  else array.loggedRows start len

/-- The slice refuses its arguments before it accesses anything, or all it accesses is within the
bounds. -/
def ColumnArray.ChecksBounds (array : ColumnArray) (start len : Nat) : Prop :=
  (∃ what, Throws (array.loggedSlice start len) [] (.validationError what) []) ∨
    ∀ access ∈ after (array.loggedSlice start len) [],
      access.InBounds array.offsets.length array.data.size

end Slices

/-! ## Logs -/

/-- A result with the state it leaves. -/
def withLog {α : Type} : Except Error α → List Access → EStateM.Result Error (List Access) α
  | .ok a, log => .ok a log
  | .error e, log => .error e log

/-- The program computes `x` and adds the accesses to the log. -/
def Logs {α : Type} (p : Logged α) (x : Except Error α) (accesses : List Access) : Prop :=
  ∀ log, p log = withLog x (log ++ accesses)

theorem logs_pure {α : Type} (a : α) : Logs (pure a) (.ok a) [] := by
  intro log
  rw [List.append_nil]
  rfl

theorem logs_ofExcept {α : Type} (x : Except Error α) : Logs (ofExcept x) x [] := by
  intro log
  rw [List.append_nil]
  cases x <;> rfl

namespace Logs

variable {α β : Type} {p : Logged α} {f : α → Logged β} {l m : List Access}

theorem bind_ok {a : α} {y : Except Error β} (first : Logs p (.ok a) l) (rest : Logs (f a) y m) :
    Logs (p >>= f) y (l ++ m) := by
  intro log
  show EStateM.bind p f log = _
  rw [EStateM.bind, first log, ← List.append_assoc]
  exact rest _

theorem bind_error {e : Error} (first : Logs p (.error e) l) (f : α → Logged β) :
    Logs (p >>= f) (.error e) l := by
  intro log
  show EStateM.bind p f log = _
  rw [EStateM.bind, first log]
  rfl

theorem after_eq {x : Except Error α} (logs : Logs p x l) : after p [] = l := by
  have run := logs []
  rw [List.nil_append] at run
  unfold after
  rw [run]
  cases x <;> rfl

end Logs

/-- The program computes `x` whatever is in the log. -/
def Computes {α : Type} (p : Logged α) (x : Except Error α) : Prop := ∃ l, Logs p x l

theorem computes_pure {α : Type} (a : α) : Computes (pure a) (.ok a) := ⟨[], logs_pure a⟩

theorem Computes.bind {α β : Type} {p : Logged α} {f : α → Logged β} {x : Except Error α}
    {g : α → Except Error β} (first : Computes p x) (rest : ∀ a, Computes (f a) (g a)) :
    Computes (p >>= f) (x >>= g) := by
  obtain ⟨l, logs⟩ := first
  cases x with
  | ok a =>
    obtain ⟨m, logs'⟩ := rest a
    exact ⟨l ++ m, logs.bind_ok logs'⟩
  | error e => exact ⟨l, logs.bind_error f⟩

/-- Every access is reported to the log, whatever comes of it. -/
theorem logs_access {α : Type} (access : Access) (x : Except Error α) :
    Logs (do logAccess access; ofExcept x) x [access] :=
  Logs.bind_ok (fun _ => rfl) (logs_ofExcept x)

theorem logs_readOffset (offsets : ColumnVector 8) (n : Nat) :
    Logs (readOffset offsets n) (vectorAt offsets n) [.offset n] :=
  logs_access (.offset n) (vectorAt offsets n)

theorem logs_loggedOffset (offsets : ColumnVector 8) (n : Nat) :
    Logs (loggedOffset offsets n) (checkedOffset offsets n)
      (if n = 0 then [] else [.offset (n - 1)]) := by
  rw [loggedOffset, checkedOffset]
  split
  · exact logs_pure 0
  · exact logs_readOffset offsets (n - 1)

/-! ### The log is all that is added -/

theorem computes_loggedRowSize (offsets : ColumnVector 8) (n : Nat) :
    Computes (loggedRowSize offsets n) (checkedRowSize offsets n) := by
  refine Computes.bind ⟨_, logs_readOffset offsets n⟩ fun last => ?_
  split
  · exact computes_pure last
  · exact Computes.bind ⟨_, logs_readOffset offsets (n - 1)⟩ fun first => computes_pure _

theorem computes_loggedSliceOffsets (offsets : ColumnVector 8) (len : Nat) : ∀ n offset,
    Computes (loggedSliceOffsets offsets n len offset) (sliceOffsets offsets n len offset) := by
  induction len with
  | zero => exact fun n offset => computes_pure []
  | succ len ih =>
    intro n offset
    refine Computes.bind (computes_loggedRowSize offsets _) fun size => ?_
    exact Computes.bind (ih (n + 1) _) fun others => computes_pure _

/-- The slice with the log is the slice. -/
theorem ColumnArray.computes_loggedSlice [Hashing] (array : ColumnArray) (start len : Nat) :
    Computes (array.loggedSlice start len) (array.toColumn.slice start len) := by
  rw [ColumnArray.loggedSlice, ColumnArray.toColumn, Column.slice]
  split
  · exact ⟨[], logs_ofExcept (.error _)⟩
  · unfold loggedRows
    refine Computes.bind ⟨_, logs_loggedOffset _ _⟩ fun first => ?_
    refine Computes.bind ⟨_, logs_loggedOffset _ _⟩ fun last => ?_
    refine Computes.bind ⟨_, logs_access _ _⟩ fun slicedData => ?_
    refine Computes.bind (computes_loggedSliceOffsets ..) fun slicedOffsets => ?_
    exact ⟨[], logs_ofExcept _⟩

/-! ## Programs within bounds and others -/

/-- The program returns `a`, and all it accesses is as `ok` says. -/
def Accesses {α : Type} (ok : Access → Prop) (p : Logged α) (a : α) : Prop :=
  ∃ l, Logs p (.ok a) l ∧ ∀ access ∈ l, ok access

/-- All that the program accesses is as `ok` says. -/
def Within {α : Type} (ok : Access → Prop) (p : Logged α) : Prop :=
  ∃ x l, Logs p x l ∧ ∀ access ∈ l, ok access

/-- The program accesses something that is as `bad` says. -/
def Asks {α : Type} (bad : Access → Prop) (p : Logged α) : Prop :=
  ∃ x l, Logs p x l ∧ ∃ access ∈ l, bad access

/-- The program accesses something that is as `bad` says, and then throws. -/
def Fails {α : Type} (bad : Access → Prop) (p : Logged α) : Prop :=
  ∃ e l, Logs p (.error e) l ∧ ∃ access ∈ l, bad access

section Rules

variable {α β : Type} {ok bad : Access → Prop} {p : Logged α} {f : α → Logged β} {a : α} {b : β}

theorem accesses_pure (a : α) : Accesses ok (pure a) a :=
  ⟨[], logs_pure a, fun _ mem => absurd mem List.not_mem_nil⟩

theorem Accesses.bind (first : Accesses ok p a) (rest : Accesses ok (f a) b) :
    Accesses ok (p >>= f) b := by
  obtain ⟨l, logs, own⟩ := first
  obtain ⟨m, logs', others⟩ := rest
  refine ⟨l ++ m, logs.bind_ok logs', ?_⟩
  intro access mem
  rcases List.mem_append.mp mem with mem | mem
  · exact own access mem
  · exact others access mem

theorem within_ofExcept (x : Except Error α) : Within ok (ofExcept x) :=
  ⟨x, [], logs_ofExcept x, fun _ mem => absurd mem List.not_mem_nil⟩

theorem Accesses.bind_within (first : Accesses ok p a) (rest : Within ok (f a)) :
    Within ok (p >>= f) := by
  obtain ⟨l, logs, own⟩ := first
  obtain ⟨x, m, logs', others⟩ := rest
  refine ⟨x, l ++ m, logs.bind_ok logs', ?_⟩
  intro access mem
  rcases List.mem_append.mp mem with mem | mem
  · exact own access mem
  · exact others access mem

theorem Fails.asks (fails : Fails bad p) : Asks bad p := by
  obtain ⟨e, rest⟩ := fails
  exact ⟨.error e, rest⟩

theorem Fails.bind (fails : Fails bad p) (f : α → Logged β) : Fails bad (p >>= f) := by
  obtain ⟨e, l, logs, asked⟩ := fails
  exact ⟨e, l, logs.bind_error f, asked⟩

theorem Accesses.bind_fails (first : Accesses ok p a) (rest : Fails bad (f a)) :
    Fails bad (p >>= f) := by
  obtain ⟨l, logs, _⟩ := first
  obtain ⟨e, m, logs', access, mem, holds⟩ := rest
  exact ⟨e, l ++ m, logs.bind_ok logs', access, List.mem_append_right _ mem, holds⟩

theorem Accesses.bind_asks (first : Accesses ok p a) (rest : Asks bad (f a)) : Asks bad (p >>= f) := by
  obtain ⟨l, logs, _⟩ := first
  obtain ⟨x, m, logs', access, mem, holds⟩ := rest
  exact ⟨x, l ++ m, logs.bind_ok logs', access, List.mem_append_right _ mem, holds⟩

theorem Asks.bind (asks : Asks bad p) {g : α → Except Error β} (rest : ∀ a, Computes (f a) (g a)) :
    Asks bad (p >>= f) := by
  obtain ⟨x, l, logs, access, mem, holds⟩ := asks
  cases x with
  | error e => exact ⟨.error e, l, logs.bind_error f, access, mem, holds⟩
  | ok a =>
    obtain ⟨m, logs'⟩ := rest a
    exact ⟨g a, l ++ m, logs.bind_ok logs', access, List.mem_append_left _ mem, holds⟩

end Rules

/-! ## Positions within the array and behind it -/

section Offsets

variable {offsets : ColumnVector 8} {size n : Nat}

theorem accesses_readOffset (inside : n < offsets.length) :
    Accesses (·.InBounds offsets.length size) (readOffset offsets n) (getOffset offsets (n + 1)) := by
  refine ⟨_, vectorAt_eq inside ▸ logs_readOffset offsets n, ?_⟩
  intro access mem
  rw [List.mem_singleton.mp mem]
  exact inside

/-- An offset that does not exist is asked for. -/
theorem fails_readOffset (behind : offsets.length ≤ n) :
    Fails (¬·.InBounds offsets.length size) (readOffset offsets n) := by
  have logs := logs_readOffset offsets n
  rw [vectorAt, List.getElem?_eq_none behind] at logs
  exact ⟨_, _, logs, _, List.mem_singleton_self _, Nat.not_lt.mpr behind⟩

theorem accesses_loggedOffset (inside : n ≤ offsets.length) :
    Accesses (·.InBounds offsets.length size) (loggedOffset offsets n) (getOffset offsets n) := by
  cases n with
  | zero => exact accesses_pure 0
  | succ n => exact accesses_readOffset inside

theorem accesses_loggedRowSize (inside : n < offsets.length) :
    ∃ rowSize, Accesses (·.InBounds offsets.length size) (loggedRowSize offsets n) rowSize := by
  cases n with
  | zero => exact ⟨_, (accesses_readOffset inside).bind (accesses_pure _)⟩
  | succ n =>
    have before : n < offsets.length := Nat.lt_of_succ_lt inside
    exact ⟨_, (accesses_readOffset inside).bind ((accesses_readOffset before).bind (accesses_pure _))⟩

/-- The loop over rows of the array. -/
theorem accesses_loggedSliceOffsets (len : Nat) : ∀ {n : Nat} (offset : Nat),
    n + len ≤ offsets.length →
    ∃ sliced, Accesses (·.InBounds offsets.length size) (loggedSliceOffsets offsets n len offset)
      sliced := by
  induction len with
  | zero => exact fun offset _ => ⟨[], accesses_pure []⟩
  | succ len ih =>
    intro n offset inside
    obtain ⟨rowSize, own⟩ : ∃ rowSize, Accesses (·.InBounds offsets.length size)
        (loggedRowSize offsets n) rowSize := accesses_loggedRowSize (by omega)
    obtain ⟨others, rest⟩ := ih (n := n + 1) ((offset + rowSize) % 2 ^ 64) (by omega)
    refine ⟨Word.ofNat 8 ((offset + rowSize) % 2 ^ 64) :: others, ?_⟩
    rw [loggedSliceOffsets, wrapPosition_eq (by omega)]
    exact own.bind (rest.bind (accesses_pure _))

/-- The loop over more rows than there are asks for the offset behind the last one. -/
theorem fails_loggedSliceOffsets (len : Nat) : ∀ {n : Nat} (offset : Nat), n ≤ offsets.length →
    offsets.length < n + len →
    Fails (¬·.InBounds offsets.length size) (loggedSliceOffsets offsets n len offset) := by
  induction len with
  | zero =>
    intro n offset inside behind
    omega
  | succ len ih =>
    intro n offset inside behind
    rw [loggedSliceOffsets, wrapPosition_eq inside]
    rcases Nat.lt_or_eq_of_le inside with within | last
    · obtain ⟨rowSize, own⟩ : ∃ rowSize, Accesses (·.InBounds offsets.length size)
          (loggedRowSize offsets n) rowSize := accesses_loggedRowSize within
      have others := ih (n := n + 1) ((offset + rowSize) % 2 ^ 64) within (by omega)
      exact own.bind_fails (others.bind _)
    · exact ((fails_readOffset (Nat.le_of_eq last.symm)).bind _).bind _

end Offsets

/-! ## The slice -/

section Slice

variable [Hashing] {known : Ty → Prop} {array : ColumnArray} {start len : Nat}

theorem logs_sliceData (data : Column) (start len : Nat) :
    Logs (sliceData data start len) (data.slice start len) [.data start len] :=
  logs_access (.data start len) _

theorem ColumnArray.checksBounds_of_refused
    (refused : len ≠ 0 ∧ array.offsets.length < wrapPosition array.offsets.length (start + len)) :
    array.ChecksBounds start len := by
  refine .inl ⟨ascii "Slice indexes are out of bounds", ?_⟩
  rw [loggedSlice, if_pos refused]
  exact throws_throw _ _

section Accepted

variable
  (accepted : ¬(len ≠ 0 ∧ array.offsets.length < wrapPosition array.offsets.length (start + len)))

include accepted

theorem ColumnArray.checksBounds_of_within
    (within : Within (·.InBounds array.offsets.length array.data.size) (array.loggedRows start len)) :
    array.ChecksBounds start len := by
  obtain ⟨x, l, logs, own⟩ := within
  rw [ChecksBounds, loggedSlice, if_neg accepted, logs.after_eq]
  exact .inr own

theorem ColumnArray.not_checksBounds_of_asks
    (asks : Asks (¬·.InBounds array.offsets.length array.data.size) (array.loggedRows start len)) :
    ¬array.ChecksBounds start len := by
  obtain ⟨x, l, logs, access, mem, outside⟩ := asks
  rw [ChecksBounds, loggedSlice, if_neg accepted]
  rintro (⟨what, throws⟩ | inside)
  · have empty := throws.after_eq
    rw [logs.after_eq] at empty
    rw [empty] at mem
    cases mem
  · rw [logs.after_eq] at inside
    exact outside (inside access mem)

end Accepted

variable (sound : array.toColumn.Sound known)

include sound

/-- A slice of the data between two offsets in their order. -/
theorem ColumnArray.accesses_sliceData {first last : Nat} (ordered : first ≤ last)
    (inside : last ≤ array.data.size) :
    ∃ sliced, Accesses (·.InBounds array.offsets.length array.data.size)
      (sliceData array.data first (last - first)) sliced := by
  have within : first + (last - first) ≤ array.data.size := by omega
  obtain ⟨sliced, made, _⟩ := Column.Sound.slice sound.2.2 within
  have logs := logs_sliceData array.data first (last - first)
  rw [made] at logs
  refine ⟨sliced, _, logs, ?_⟩
  intro access mem
  rw [List.mem_singleton.mp mem]
  exact within

/-- Arguments within the array. -/
theorem ColumnArray.checksBounds_of_inside (inside : start + len ≤ array.offsets.length) :
    array.ChecksBounds start len := by
  have consistent : ConsistentOffsets array.offsets array.data.size := sound.2.1
  have ordered := consistent.mono (Nat.le_add_right start len) inside
  have bound := getOffset_lt array.offsets (start + len)
  have length : (getOffset array.offsets (start + len) + 2 ^ 64 - getOffset array.offsets start) %
      2 ^ 64 = getOffset array.offsets (start + len) - getOffset array.offsets start := by omega
  obtain ⟨slicedData, data⟩ := accesses_sliceData sound ordered (consistent.le_size inside)
  obtain ⟨slicedOffsets, rows⟩ : ∃ sliced, Accesses
      (·.InBounds array.offsets.length array.data.size)
      (loggedSliceOffsets array.offsets start len 0) sliced := accesses_loggedSliceOffsets len 0 inside
  refine checksBounds_of_within (by rw [wrapPosition_eq inside]; omega) ?_
  unfold loggedRows
  rw [wrapPosition_eq inside]
  refine (accesses_loggedOffset (by omega)).bind_within
    ((accesses_loggedOffset inside).bind_within ?_)
  rw [length]
  exact data.bind_within (rows.bind_within (within_ofExcept _))

omit sound in
/-- A slice that starts behind the array and is not refused. -/
theorem ColumnArray.not_checksBounds_of_behind
    (accepted : ¬(len ≠ 0 ∧
      array.offsets.length < wrapPosition array.offsets.length (start + len)))
    (behind : array.offsets.length < start) : ¬array.ChecksBounds start len := by
  refine not_checksBounds_of_asks accepted (Fails.asks (Fails.bind ?_ _))
  rw [loggedOffset, if_neg (by omega)]
  exact fails_readOffset (by omega)

/-- A sum that wraps around to a position within the array. -/
theorem ColumnArray.not_checksBounds_of_wrapped (rows : array.offsets.length < 2 ^ 64)
    (inside : start ≤ array.offsets.length) (small : len < 2 ^ 64) (wraps : 2 ^ 64 ≤ start + len)
    (within : start + len - 2 ^ 64 ≤ array.offsets.length) : ¬array.ChecksBounds start len := by
  have consistent : ConsistentOffsets array.offsets array.data.size := sound.2.1
  have wrapped : wrapPosition array.offsets.length (start + len) = start + len - 2 ^ 64 := by
    rw [wrapPosition, if_neg (by omega)]
    omega
  have ordered := consistent.mono (by omega : start + len - 2 ^ 64 ≤ start) inside
  have last := getOffset_lt array.offsets (start + len - 2 ^ 64)
  have first := getOffset_lt array.offsets start
  have size : array.data.size < 2 ^ 64 := by
    rw [← consistent.2]
    exact getOffset_lt _ _
  refine not_checksBounds_of_asks (by rw [wrapped]; omega) ?_
  unfold loggedRows
  rw [wrapped]
  have readOffset {n : Nat} (inside : n ≤ array.offsets.length) :
      Accesses (·.InBounds array.offsets.length array.data.size) (loggedOffset array.offsets n)
        (getOffset array.offsets n) := accesses_loggedOffset inside
  refine (readOffset inside).bind_asks ((readOffset within).bind_asks ?_)
  rcases Nat.lt_or_eq_of_le ordered with below | same
  · -- the rows of the data end before they start
    refine Asks.bind ⟨_, _, logs_sliceData _ _ _, _, List.mem_singleton_self _, ?_⟩ fun slicedData =>
      (computes_loggedSliceOffsets ..).bind fun slicedOffsets => ⟨[], logs_ofExcept _⟩
    show ¬(_ + _ ≤ _)
    omega
  · -- there are no rows of the data between the two, but more rows of the array than there are
    obtain ⟨slicedData, data⟩ := accesses_sliceData sound (Nat.le_refl (getOffset array.offsets start))
      (consistent.le_size inside)
    have none : (getOffset array.offsets (start + len - 2 ^ 64) + 2 ^ 64 -
        getOffset array.offsets start) % 2 ^ 64 =
          getOffset array.offsets start - getOffset array.offsets start := by omega
    rw [none]
    exact data.bind_asks (Fails.asks (Fails.bind (fails_loggedSliceOffsets len 0 inside (by omega)) _))

/-- A slice of an array stays within the bounds or is refused, exactly if an empty slice does not
start behind the array, and the end of another slice does not wrap around to a position of the
array. -/
theorem ColumnArray.checksBounds_iff (rows : array.offsets.length < 2 ^ 64) (start_lt : start < 2 ^ 64)
    (len_lt : len < 2 ^ 64) :
    array.ChecksBounds start len ↔
      (len = 0 → start ≤ array.offsets.length) ∧
        (2 ^ 64 ≤ start + len → array.offsets.length < start + len - 2 ^ 64) := by
  have position (outside : array.offsets.length < start + len) :
      wrapPosition array.offsets.length (start + len) = (start + len) % 2 ^ 64 :=
    if_neg (Nat.not_le.mpr outside)
  constructor
  · intro checks
    constructor
    · rintro rfl
      by_contra behind
      exact not_checksBounds_of_behind (by omega) (by omega) checks
    · intro wraps
      by_contra within
      rcases Nat.lt_or_ge array.offsets.length start with behind | inside
      · refine not_checksBounds_of_behind ?_ behind checks
        rw [position (by omega)]
        omega
      · exact not_checksBounds_of_wrapped sound rows inside len_lt wraps (by omega) checks
  · rintro ⟨empty, wrapped⟩
    rcases Nat.lt_or_ge array.offsets.length (start + len) with outside | inside
    · refine checksBounds_of_refused ⟨?_, ?_⟩
      · rintro rfl
        have := empty rfl
        omega
      · rw [position outside]
        omega
    · exact checksBounds_of_inside sound inside

end Slice

/-- The array of the rows `[1]` and `[2]`. -/
def twoRows : ColumnArray :=
  ⟨uint8Column [1, 2], [Word.ofNat 8 1, Word.ofNat 8 2]⟩

theorem sound_twoRows : twoRows.toColumn.Sound IsBytesType := by
  have consistent : ConsistentOffsets twoRows.offsets twoRows.data.size :=
    ⟨(isIncreasing_zero_iff _).mp rfl, rfl⟩
  exact ⟨.inr rfl, consistent, .inl rfl, trivial, trivial⟩

theorem ColumnArray.checksBounds_twoRows :
    letI := lengthHashing
    twoRows.ChecksBounds 1 1 ∧ twoRows.ChecksBounds 1 (2 ^ 63) := by
  let _ := lengthHashing
  exact ⟨(ColumnArray.checksBounds_iff sound_twoRows (by decide) (by decide) (by decide)).mpr
      (by decide),
    (ColumnArray.checksBounds_iff sound_twoRows (by decide) (by decide) (by decide)).mpr (by decide)⟩

/-- From row 1 on, as many rows that the end wraps around to row 0; and no rows from row 3 on. -/
theorem ColumnArray.not_checksBounds_twoRows :
    letI := lengthHashing
    ¬twoRows.ChecksBounds 1 (2 ^ 64 - 1) ∧ ¬twoRows.ChecksBounds 3 0 ∧
      Throws (twoRows.loggedSlice 3 0) [] (.outOfRange (ascii
        "vector::_M_range_check: __n (which is 2) >= this->size() (which is 2)")) [.offset 2] := by
  let _ := lengthHashing
  exact ⟨not_checksBounds_of_wrapped sound_twoRows (by decide) (by decide) (by decide) (by decide)
      (by decide), not_checksBounds_of_behind (by decide) (by decide), rfl⟩

end ClickHouse
