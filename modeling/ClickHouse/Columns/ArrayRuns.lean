import ClickHouse.Columns.Appending
import ClickHouse.Kit.Runs

/-!
# Arrays over whole runs

The arrays of a program and the calls that make and change them.  An array is
consistent if its offsets increase and end at the size of its data; the
constructor checks this, the other functions do not.  It holds in every state of
a run whose calls are given sound columns that do not overflow the offsets.
-/

namespace ClickHouse

open Kit List ColumnArray

variable {known : Ty → Prop} {arrays : List ColumnArray}

/-! ## The arrays of a program -/

/-- A column that a constructor or `Slice` made is a further array. -/
def addArray (made : Except Error Column) : EStateM Error (List ColumnArray) Unit := do
  match ← ofExcept made with
  | .array data offsets => modify fun arrays => arrays ++ [⟨data, offsets⟩]
  | _ => pure ()

/-- A member function of array `n`, if there is one. -/
def onArray (n : Nat) (member : EStateM Error ColumnArray Unit) :
    EStateM Error (List ColumnArray) Unit :=
  fun arrays =>
    match arrays[n]? with
    | some array => embed (arrays.set n) (member array)
    | none => .ok () arrays

variable {array : ColumnArray} {n : Nat} {e : Error} {member : EStateM Error ColumnArray Unit}

theorem sound_set (sound : ∀ array ∈ arrays, array.Sound known) (new : array.Sound known) :
    ∀ array' ∈ arrays.set n array, array'.Sound known := by
  intro array' mem
  rcases mem_or_eq_of_mem_set mem with old | rfl
  · exact sound array' old
  · exact new

theorem runs_addArray (sound : ∀ array ∈ arrays, array.Sound known) {made : Except Error Column}
    {column : Column} (ok : made = .ok column)
    (own : column.Sound known) {item : Ty} (type : column.type = .array item) :
    ∃ arrays', Runs (addArray made) arrays () arrays' ∧ ∀ array ∈ arrays', array.Sound known := by
  obtain ⟨data, offsets, rfl, _⟩ := own.array_of_type type
  refine ⟨arrays ++ [⟨data, offsets⟩], (runs_ofExcept ok arrays).bind (runs_modify _ _), ?_⟩
  intro array mem
  rcases mem_append.mp mem with old | new
  · exact sound array old
  · rw [mem_singleton.mp new]
    exact own

theorem throws_addArray {made : Except Error Column} (error : made = .error e) :
    Throws (addArray made) arrays e arrays :=
  (throws_ofExcept error arrays).bind _

theorem runs_onArray {array' : ColumnArray} (found : arrays[n]? = some array)
    (run : Runs member array () array') :
    Runs (onArray n member) arrays () (arrays.set n array') := by
  unfold Runs at run ⊢
  rw [onArray, found]
  dsimp only
  rw [run]
  rfl

/-- A member function that throws and leaves its array leaves all arrays. -/
theorem throws_onArray (found : arrays[n]? = some array) (throws : Throws member array e array) :
    Throws (onArray n member) arrays e arrays := by
  obtain ⟨inside, same⟩ := List.getElem?_eq_some_iff.mp found
  unfold Throws at throws ⊢
  rw [onArray, found]
  dsimp only
  rw [throws, embed, ← same, List.set_getElem_self]

theorem runs_onArray_none (none : arrays[n]? = none) (member : EStateM Error ColumnArray Unit) :
    Runs (onArray n member) arrays () arrays := by
  unfold Runs
  rw [onArray, none]

/-- A call of a member function of an array. -/
theorem safe_onArray (sound : ∀ array ∈ arrays, array.Sound known)
    (safe : ∀ array, arrays[n]? = some array →
      (∃ array', Runs member array () array' ∧ array'.Sound known) ∨
        ∃ e, Throws member array e array) :
    (∃ arrays', Runs (onArray n member) arrays () arrays' ∧ ∀ array ∈ arrays', array.Sound known) ∨
      ∃ e, Throws (onArray n member) arrays e arrays := by
  cases found : arrays[n]? with
  | none => exact .inl ⟨arrays, runs_onArray_none found member, sound⟩
  | some array =>
    rcases safe array found with ⟨array', run, own⟩ | ⟨e, throws⟩
    · exact .inl ⟨_, runs_onArray found run, sound_set sound own⟩
    · exact .inr ⟨e, throws_onArray found throws⟩

/-- The offset of the only row of an array. -/
theorem consistent_makeSingleOffset {size : Nat} (fits : size < 2 ^ 64) :
    ConsistentOffsets (makeSingleOffset size) size := by
  by_cases empty : size = 0
  · subst empty
    exact ⟨nofun, rfl⟩
  · have word : (Word.ofNat 8 size).toNat = size := Word.toNat_ofNat fits
    rw [makeSingleOffset, if_pos empty]
    constructor
    · intro n below
      rw [length_singleton] at below
      rw [show n = 0 by omega]
      exact Nat.zero_le _
    · simp [getOffset, word]

section Runs

variable [Hashing]

/-! ## Calls -/

/-- A call of a public function of `ColumnArray`.  Arrays are numbered as they are made. -/
inductive ArrayCall
  | create (data : Column)
  | createWithOffsets (data : Column) (offsets : ColumnVector 8)
  | appendAsColumn (n : Nat) (source : Column)
  | append (n : Nat) (source : Column)
  | clear (n : Nat)
  | swap (m n : Nat)
  | slice (n start len : Nat)

def ArrayCall.perform : ArrayCall → EStateM Error (List ColumnArray) Unit
  | .create data => addArray (arrayOfOneRow data)
  | .createWithOffsets data offsets => addArray (arrayWithOffsets data offsets)
  | .appendAsColumn n source => onArray n (ColumnArray.appendAsColumn source)
  | .append n source => onArray n (ColumnArray.append source)
  | .clear n => onArray n ColumnArray.clear
  | .swap m n => fun arrays =>
    match arrays[m]?, arrays[n]? with
    | some left, some right =>
      embed (fun both => (arrays.set m both.1).set n both.2) (left.swap right)
    | _, _ => .ok () arrays
  | .slice n start len => do
    match (← get)[n]? with
    | some array => addArray (array.toColumn.slice start len)
    | none => pure ()

/-- The arrays after a call, whether it returns or throws. -/
def arrayStep (arrays : List ColumnArray) (call : ArrayCall) : List ColumnArray :=
  after call.perform arrays

/-! ## What a call is given and what it does -/

/-- The offsets increase and end at the size of the data. -/
def ColumnArray.Consistent (array : ColumnArray) : Prop :=
  ConsistentOffsets array.offsets array.data.size

/-- The columns that a call is given are sound and do not overflow the sizes; arrays are swapped
with arrays of their type, and slices are of rows that exist. -/
def ArrayCall.Allowed (known : Ty → Prop) (arrays : List ColumnArray) : ArrayCall → Prop
  | .create data => data.Sound known ∧ known (.array data.type) ∧ data.total < 2 ^ 64
  | .createWithOffsets data _ => data.Sound known ∧ known (.array data.type)
  | .appendAsColumn n source => source.Sound known ∧
      ∀ array, arrays[n]? = some array → array.data.total + source.total < 2 ^ 64
  | .append n source => source.Sound known ∧
      ∀ array, arrays[n]? = some array → array.toColumn.total + source.total < 2 ^ 64
  | .clear _ => True
  | .swap m n => ∀ left right, arrays[m]? = some left → arrays[n]? = some right →
      left.data.type = right.data.type
  | .slice n start len => ∀ array, arrays[n]? = some array → start + len ≤ array.offsets.length

/-- `AppendAsColumn` of the column to array `n` adds one row as long as the column, with the
elements that `Append` adds to the data; a column of another type changes nothing. -/
def AddsOneRow (arrays : List ColumnArray) (n : Nat) (source : Column) : Prop :=
  ∀ array, arrays[n]? = some array →
    (canAppendType array.data.type source.type = true → ∃ array',
      Runs (ArrayCall.perform (.appendAsColumn n source)) arrays () (arrays.set n array') ∧
      Runs (Column.append source) array.data () array'.data ∧
      array'.data.size = array.data.size + source.size ∧
      array'.offsets.length = array.offsets.length + 1 ∧
      (∀ i < array.offsets.length, getSize array'.offsets i = getSize array.offsets i) ∧
      getSize array'.offsets array.offsets.length = source.size) ∧
    (canAppendType array.data.type source.type = false →
      Throws (ArrayCall.perform (.appendAsColumn n source)) arrays
        (cannotAppend source.type array.data.type) arrays)

/-- The call does what it is for: a call that throws changes nothing, and `AppendAsColumn` adds
one row. -/
def ArrayCall.Meets (arrays : List ColumnArray) (call : ArrayCall) : Prop :=
  (∀ e arrays', Throws call.perform arrays e arrays' → arrays' = arrays) ∧
    ∀ n source, call = .appendAsColumn n source → AddsOneRow arrays n source

/-! ## One call -/

/-- The call returns and leaves sound arrays, or it throws and changes nothing. -/
def ArrayCall.Safe (known : Ty → Prop) (arrays : List ColumnArray) (call : ArrayCall) : Prop :=
  (∃ arrays', Runs call.perform arrays () arrays' ∧ ∀ array ∈ arrays', array.Sound known) ∨
    ∃ e, Throws call.perform arrays e arrays

variable {source : Column}

section Safe

variable (sound : ∀ array ∈ arrays, array.Sound known)

include sound

theorem safe_create {data : Column} (own : data.Sound known) (isKnown : known (.array data.type))
    (fits : data.total < 2 ^ 64) : ArrayCall.Safe known arrays (.create data) := by
  have size := own.size_le_total
  have consistent := consistent_makeSingleOffset (Nat.lt_of_le_of_lt size fits)
  have made : arrayOfOneRow data = .ok (.array data (makeSingleOffset data.size)) := by
    rw [arrayOfOneRow, own.checkSize_eq]
    exact arrayWithOffsets_of_consistent consistent own.sizeDefined
  exact .inl (runs_addArray sound made ⟨isKnown, consistent, own⟩ rfl)

theorem safe_createWithOffsets {data : Column} (own : data.Sound known)
    (isKnown : known (.array data.type)) (offsets : ColumnVector 8) :
    ArrayCall.Safe known arrays (.createWithOffsets data offsets) := by
  cases made : arrayWithOffsets data offsets with
  | ok column =>
    obtain ⟨rfl, consistent⟩ := consistent_of_arrayWithOffsets made
    exact .inl (runs_addArray sound made ⟨isKnown, consistent, own⟩ rfl)
  | error e => exact .inr ⟨e, throws_addArray made⟩

theorem safe_appendAsColumn (distinguished : Distinguished known) (own : source.Sound known)
    (fits : ∀ array, arrays[n]? = some array → array.data.total + source.total < 2 ^ 64) :
    ArrayCall.Safe known arrays (.appendAsColumn n source) := by
  refine safe_onArray sound fun array found => ?_
  have arraySound := sound array (mem_of_getElem? found)
  cases accepted : canAppendType array.data.type source.type with
  | true =>
    have appends := Column.appends_append distinguished array.data.depth
    obtain ⟨array', run, _, added⟩ := runs_appendAsColumnWith appends (Nat.le_refl _)
      arraySound own accepted (fits array found)
    exact .inl ⟨array', run, added.sound arraySound own (fits array found)⟩
  | false => exact .inr ⟨_, ColumnArray.throws_appendAsColumnWith accepted⟩

theorem safe_append (distinguished : Distinguished known) (own : source.Sound known)
    (fits : ∀ array, arrays[n]? = some array → array.toColumn.total + source.total < 2 ^ 64) :
    ArrayCall.Safe known arrays (.append n source) := by
  refine safe_onArray sound fun array found => ?_
  have arraySound := sound array (mem_of_getElem? found)
  cases source with
  | array data offsets =>
    have sourceSound : Sound known ⟨data, offsets⟩ := own
    cases accepted : canAppendType array.data.type data.type with
    | true =>
      have appends := Column.appends_append distinguished array.data.depth
      obtain ⟨array', run, added⟩ := runs_appendAll appends arraySound sourceSound
        (Nat.le_refl _) accepted (fits array found)
      exact .inl ⟨array', run, added.sound⟩
    | false =>
      -- all rows are of the type that is refused, so the first is, if there is one
      cases offsets with
      | nil => exact .inl ⟨array, runs_pure _ _, arraySound⟩
      | cons offset offsets =>
        obtain ⟨row, read, _, type, _⟩ := sourceSound.getAsColumn (Nat.succ_pos offsets.length)
        have refused : canAppendType array.data.type row.type = false := by rw [type, accepted]
        refine .inr ⟨cannotAppend row.type array.data.type, ?_⟩
        rw [ColumnArray.append, length_cons, range_succ_eq_map]
        exact (runs_ofExcept read array).bind_throws
          ((throws_appendAsColumnWith refused).bind _)
  | _ => exact .inl ⟨array, runs_pure _ _, arraySound⟩

theorem safe_clear (n : Nat) : ArrayCall.Safe known arrays (.clear n) := by
  refine safe_onArray sound fun array found => ?_
  have arraySound := sound array (mem_of_getElem? found)
  obtain ⟨data, cleared, remade, size⟩ := Column.Sound.clear arraySound.2.2
  have consistent : ConsistentOffsets [] data.size :=
    ⟨fun n inside => absurd inside (Nat.not_lt_zero n), size.symm⟩
  refine .inl ⟨⟨data, []⟩, ?_, (Column.Remade.ofArray arraySound remade consistent).sound⟩
  unfold Runs
  rw [ColumnArray.clear, cleared]
  rfl

theorem safe_swap {m : Nat}
    (same : ∀ left right, arrays[m]? = some left →
    arrays[n]? = some right → left.data.type = right.data.type) :
    ArrayCall.Safe known arrays (.swap m n) := by
  cases first : arrays[m]? with
  | none =>
    refine .inl ⟨arrays, ?_, sound⟩
    unfold Runs
    rw [ArrayCall.perform]
    dsimp only
    rw [first]
  | some left =>
    cases second : arrays[n]? with
    | none =>
      refine .inl ⟨arrays, ?_, sound⟩
      unfold Runs
      rw [ArrayCall.perform]
      dsimp only
      rw [first, second]
    | some right =>
      have leftSound := sound left (mem_of_getElem? first)
      have rightSound := sound right (mem_of_getElem? second)
      have types := same left right first second
      obtain ⟨data, data', swapped, exchange⟩ :=
        Column.Sound.swap leftSound.2.2 rightSound.2.2 (types ▸ .same left.data.type)
      have left' : Sound known ⟨data, right.offsets⟩ := (Column.Remade.ofArray leftSound
        exchange.leftRemade (exchange.leftSize ▸ rightSound.2.1)).sound
      have right' : Sound known ⟨data', left.offsets⟩ := (Column.Remade.ofArray rightSound
        exchange.rightRemade (exchange.rightSize ▸ leftSound.2.1)).sound
      refine .inl ⟨(arrays.set m ⟨data, right.offsets⟩).set n ⟨data', left.offsets⟩, ?_,
        sound_set (sound_set sound left') right'⟩
      unfold Runs
      rw [ArrayCall.perform]
      dsimp only
      rw [first, second]
      dsimp only
      rw [ColumnArray.swap, swapped]
      rfl

theorem safe_slice {start len : Nat}
    (inside : ∀ array, arrays[n]? = some array → start + len ≤ array.offsets.length) :
    ArrayCall.Safe known arrays (.slice n start len) := by
  cases found : arrays[n]? with
  | none =>
    refine .inl ⟨arrays, (runs_get arrays).bind ?_, sound⟩
    rw [found]
    exact runs_pure ..
  | some array =>
    have arraySound := sound array (mem_of_getElem? found)
    obtain ⟨column, sliced, isSlice⟩ := Column.Sound.slice arraySound (inside array found)
    obtain ⟨arrays', run, sound'⟩ := runs_addArray sound sliced isSlice.sound isSlice.sameType
    refine .inl ⟨arrays', (runs_get arrays).bind ?_, sound'⟩
    rw [found]
    exact run

theorem ArrayCall.Allowed.safe (distinguished : Distinguished known) {call : ArrayCall}
    (allowed : call.Allowed known arrays) : call.Safe known arrays := by
  cases call with
  | create data => exact safe_create sound allowed.1 allowed.2.1 allowed.2.2
  | createWithOffsets data offsets => exact safe_createWithOffsets sound allowed.1 allowed.2 offsets
  | appendAsColumn n source => exact safe_appendAsColumn sound distinguished allowed.1 allowed.2
  | append n source => exact safe_append sound distinguished allowed.1 allowed.2
  | clear n => exact safe_clear sound n
  | swap m n => exact safe_swap sound allowed
  | slice n start len => exact safe_slice sound allowed

end Safe

theorem ArrayCall.Safe.keeps {call : ArrayCall} (safe : call.Safe known arrays)
    (sound : ∀ array ∈ arrays, array.Sound known) :
    ∀ array ∈ arrayStep arrays call, array.Sound known := by
  rw [arrayStep]
  rcases safe with ⟨arrays', run, own⟩ | ⟨e, throws⟩
  · rw [run.after_eq]
    exact own
  · rw [throws.after_eq]
    exact sound

/-- A safe call that throws changes nothing. -/
theorem ArrayCall.Safe.unchanged {call : ArrayCall} (safe : call.Safe known arrays)
    {arrays' : List ColumnArray} (throws : Throws call.perform arrays e arrays') :
    arrays' = arrays := by
  unfold Throws at throws
  rcases safe with ⟨_, run, _⟩ | ⟨e', throws'⟩
  · unfold Runs at run
    rw [run] at throws
    cases throws
  · unfold Throws at throws'
    rw [throws'] at throws
    cases throws
    rfl

theorem addsOneRow (distinguished : Distinguished known)
    (sound : ∀ array ∈ arrays, array.Sound known) (own : source.Sound known)
    (fits : ∀ array, arrays[n]? = some array → array.data.total + source.total < 2 ^ 64) :
    AddsOneRow arrays n source := by
  intro array found
  have arraySound := sound array (mem_of_getElem? found)
  constructor
  · intro accepted
    have appends := Column.appends_append distinguished array.data.depth
    obtain ⟨array', run, data, added⟩ := runs_appendAsColumnWith appends
      (Nat.le_refl _) arraySound own accepted (fits array found)
    have rows := added.getSize arraySound (added.sound arraySound own (fits array found))
    exact ⟨array', runs_onArray found run, data, added.data.size, added.length, rows⟩
  · intro refused
    exact throws_onArray found (throws_appendAsColumnWith refused)

theorem ArrayCall.Allowed.meets (distinguished : Distinguished known)
    (sound : ∀ array ∈ arrays, array.Sound known) {call : ArrayCall}
    (allowed : call.Allowed known arrays) : call.Meets arrays := by
  constructor
  · intro e arrays' throws
    exact (allowed.safe sound distinguished).unchanged throws
  · rintro n source rfl
    exact addsOneRow distinguished sound allowed.1 allowed.2

/-! ## Whole runs -/

/-- In a run of allowed calls every array is consistent between any two calls, every call that
throws changes nothing, and `AppendAsColumn` adds one row as long as the column it is given. -/
theorem arrays_stay_consistent (distinguished : Distinguished known) {calls : List ArrayCall}
    (allowed : EachStep arrayStep (fun arrays call => call.Allowed known arrays) [] calls) :
    Always arrayStep (fun arrays => ∀ array ∈ arrays, array.Consistent) [] calls ∧
      EachStep arrayStep (fun arrays call => call.Meets arrays) [] calls := by
  have keeps (arrays : List ColumnArray) (call : ArrayCall)
      (sound : ∀ array ∈ arrays, array.Sound known) (allowed : call.Allowed known arrays) :
      ∀ array ∈ arrayStep arrays call, array.Sound known :=
    (allowed.safe sound distinguished).keeps sound
  have start : ∀ array ∈ ([] : List ColumnArray), array.Sound known := nofun
  constructor
  · exact (always_of_eachStep keeps start allowed).mono
      fun arrays sound array mem => (sound array mem).2.1
  · exact eachStep_of_eachStep keeps
      (fun arrays call sound allowed => allowed.meets distinguished sound) start allowed

end Runs

/-- A column of bytes. -/
def uint8Column (values : List Nat) : Column :=
  .leaf (.fixed .uint8 (values.map (Word.ofNat 1)))

/-- The types of columns of bytes and of arrays of bytes. -/
def IsBytesType (type : Ty) : Prop :=
  type = .leaf (.fixed .uint8) ∨ type = .array (.leaf (.fixed .uint8))

theorem distinguished_isBytesType [Hashing] : Distinguished IsBytesType := by
  intro type other own own' same
  rcases own with rfl | rfl <;> rcases own' with rfl | rfl
  · rfl
  · simp [Ty.isEqual, Ty.code, LeafType.code, FixedType.code] at same
  · simp [Ty.isEqual, Ty.code, LeafType.code, FixedType.code] at same
  · rfl

/-- An array is made, gets a row of two bytes, and is sliced; the two arrays are swapped, one gets
another row, and one is cleared. -/
theorem arrays_stay_consistent_bytes :
    letI := lengthHashing
    let calls : List ArrayCall :=
      [.create (uint8Column [7]), .appendAsColumn 0 (uint8Column [1, 2]), .slice 0 1 1, .swap 0 1,
        .append 0 (.array (uint8Column [3]) [Word.ofNat 8 1]), .clear 1]
    Always arrayStep (fun arrays => ∀ array ∈ arrays, array.Consistent) [] calls ∧
      EachStep arrayStep (fun arrays call => call.Meets arrays) [] calls := by
  let _ := lengthHashing
  have sound (values : List Nat) : (uint8Column values).Sound IsBytesType :=
    ⟨.inl rfl, trivial, trivial⟩
  have oneRow : (Column.array (uint8Column [3]) [Word.ofNat 8 1]).Sound IsBytesType := by
    have consistent : ConsistentOffsets (makeSingleOffset 1) 1 :=
      consistent_makeSingleOffset (by decide)
    exact ⟨.inr rfl, consistent, sound [3]⟩
  refine arrays_stay_consistent distinguished_isBytesType
    ⟨⟨sound [7], .inr rfl, by decide⟩, ⟨sound [1, 2], ?_⟩, ?_, ?_, ⟨oneRow, ?_⟩, trivial, trivial⟩
  · intro array found
    have same : (⟨uint8Column [7], [Word.ofNat 8 1]⟩ : ColumnArray) = array := Option.some.inj found
    subst same
    decide
  · intro array found
    have same : (⟨uint8Column [7, 1, 2], [Word.ofNat 8 1, Word.ofNat 8 3]⟩ : ColumnArray) = array :=
      Option.some.inj found
    subst same
    decide
  · intro left right first second
    have same : (⟨uint8Column [7, 1, 2], [Word.ofNat 8 1, Word.ofNat 8 3]⟩ : ColumnArray) = left :=
      Option.some.inj first
    have same' : (⟨uint8Column [1, 2], [Word.ofNat 8 2]⟩ : ColumnArray) = right :=
      Option.some.inj second
    subst same same'
    rfl
  · intro array found
    have same : (⟨uint8Column [1, 2], [Word.ofNat 8 2]⟩ : ColumnArray) = array :=
      Option.some.inj found
    subst same
    decide

/-- The offset of one more row wraps around, so the offsets decrease. -/
theorem not_consistent_wrappedOffset :
    letI := lengthHashing
    ¬ Always arrayStep (fun arrays => ∀ array ∈ arrays, array.Consistent) []
      [.create (.leaf (.nothing (2 ^ 64 - 1))), .appendAsColumn 0 (.leaf (.nothing 1))] := by
  let _ := lengthHashing
  intro always
  have last : arrayStep (arrayStep [] (.create (.leaf (.nothing (2 ^ 64 - 1)))))
      (.appendAsColumn 0 (.leaf (.nothing 1))) =
      [⟨.leaf (.nothing 0), [Word.ofNat 8 (2 ^ 64 - 1), Word.ofNat 8 (2 ^ 64)]⟩] := rfl
  have consistent : ColumnArray.Consistent _ := (last ▸ always.2.2) _ (mem_singleton_self _)
  exact absurd (consistent.1 1 (by decide)) (by decide)

end ClickHouse
