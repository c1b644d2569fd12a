import ClickHouse.Columns.RefinementRuns

/-!
# Columns of dates and times

`date.cpp`: `ColumnDate`, `ColumnDate32` and `ColumnDateTime` take and return
values of `std::time_t` and keep numbers of 2 or 4 bytes.  `ColumnLowCardinalityT`
of these columns makes an item of the value as it is given, which has 8 bytes.
-/

namespace ClickHouse

open Kit List

/-! ## The plain columns -/

/-- The column classes whose `ValueType` is `std::time_t`. -/
inductive TimeClass
  | date
  | date32
  | dateTime (timezone : Bytes)

namespace TimeClass

def type : TimeClass → FixedType
  | .date => .date
  | .date32 => .date32
  | .dateTime timezone => .dateTime timezone

/-- What `Append` stores of a value. -/
def stored : (kind : TimeClass) → Int64 → Word kind.type.width
  | .date, value => Word.ofNat 2 (value / 86400).toUInt64.toUInt16.toNat
  | .date32, value => Word.ofNat 4 (value / 86400).toInt32.toUInt32.toNat
  | .dateTime _, value => Word.ofNat 4 value.toUInt64.toUInt32.toNat

/-- What `At` makes of the bytes of a row. -/
def shown : TimeClass → Bytes → Int64
  | .date, data => (UInt16.ofNat (decodeLE data)).toUInt64.toInt64 * 86400
  | .date32, data => (UInt32.ofNat (decodeLE data)).toInt32.toInt64 * 86400
  | .dateTime _, data => (UInt32.ofNat (decodeLE data)).toUInt64.toInt64

end TimeClass

/-- `ValueType` of the column class, or of `ColumnNullableT` of it. -/
def TimeValue : Bool → Type
  | false => Int64
  | true => Option Int64

/-- NULL as `none`. -/
def TimeValue.toOption : {nullable : Bool} → TimeValue nullable → Option Int64
  | false, value => some value
  | true, value => value

/-- A column of the class, with a null map if it is a `ColumnNullableT` of it. -/
structure Times (kind : TimeClass) where
  nulls : Option (ColumnVector 1)
  data : ColumnVector kind.type.width

namespace Times

variable {kind : TimeClass} {nullable : Bool}

def empty (kind : TimeClass) (nullable : Bool) : Times kind :=
  ⟨if nullable then some [] else none, []⟩

/-- `Append(value)`; a NULL is stored as the value `std::time_t{}` with its flag set. -/
def append (column : Times kind) (value : TimeValue nullable) : Times kind where
  nulls := column.nulls.map (· ++ [Word.ofNat 1 value.toOption.isNone.toNat])
  data := column.data ++ [kind.stored (value.toOption.getD 0)]

/-- `At(n)`, if there is a row `n`. -/
def at? (column : Times kind) (n : Nat) : Option (Option Int64) :=
  let row := (column.data[n]?).map fun word => some (kind.shown word.1)
  match column.nulls with
  | none => row
  | some nulls => (nulls[n]?).bind fun flag => if flag.toNat = 0 then row else some none

/-- The column with the given values. -/
def ofValues (kind : TimeClass) (values : List (TimeValue nullable)) : Times kind :=
  values.foldl append (empty kind nullable)

theorem foldl_append (column : Times kind) (values : List (TimeValue nullable)) :
    values.foldl append column =
      ⟨column.nulls.map (· ++ values.map fun value => Word.ofNat 1 value.toOption.isNone.toNat),
        column.data ++ values.map fun value => kind.stored (value.toOption.getD 0)⟩ := by
  induction values generalizing column with
  | nil => simp
  | cons value values ih =>
    rw [foldl_cons, ih, append]
    simp [Function.comp_def]

/-- A row is NULL if NULL was appended, and what is stored of the value otherwise. -/
theorem at?_ofValues (kind : TimeClass) (values : List (TimeValue nullable)) (n : Nat) :
    (ofValues kind values).at? n =
      (values[n]?).map fun value => value.toOption.map fun time => kind.shown (kind.stored time).1 := by
  rw [ofValues, foldl_append, at?]
  cases nullable with
  | false =>
    simp only [empty, Bool.false_eq_true, if_false, Option.map_none, nil_append,
      getElem?_map, Option.map_map]
    rfl
  | true =>
    cases found : values[n]? with
    | none => simp [empty, found]
    | some value =>
      cases isNull : TimeValue.toOption value with
      | none =>
        have marked : (Word.ofNat 1 1).toNat ≠ 0 := by decide
        simp [empty, found, isNull, marked]
      | some time =>
        have unmarked : (Word.ofNat 1 0).toNat = 0 := by decide
        simp [empty, found, isNull, unmarked]

end Times

/-! ## LowCardinality columns of times -/

/-- The memory of a value of `std::time_t`. -/
def timeBytes (value : Int64) : Bytes := encodeLE 8 value.toUInt64.toNat

namespace LowCardinality

variable [Hashing] {kind : TimeClass} {nullable : Bool}

/-- `ColumnLowCardinalityT::Append`, whose item has the memory of the value. -/
def appendTime (value : TimeValue nullable) : EStateM Error LowCardinality Unit :=
  appendValue (value.toOption.map timeBytes)

/-- `ColumnLowCardinalityT::At`: that of the dictionary column. -/
def timeAt? (kind : TimeClass) (column : LowCardinality) (n : Nat) : Option (Option Int64) :=
  (column.at? n).map fun value => value.map kind.shown

/-- A new column accepts all values, and its rows are those of a plain column with these values. -/
def LikePlain (kind : TimeClass) (values : List (TimeValue nullable)) : Prop :=
  ∃ made column, ofTyped (emptyDictionary (.fixed kind.type) nullable) = .ok made ∧
    Runs (values.forM appendTime) made () column ∧
    ∀ n, column.timeAt? kind n = (Times.ofValues kind values).at? n

/-- A column of times without values, or with NULLs only. -/
structure Unfilled (kind : TimeClass) (nullable : Bool) (nulls : Nat) (column : LowCardinality) :
    Prop where
  type : column.dictionary.data.type = .fixed kind.type
  null : nullable = true → column.uniqueItems.lookup (0, 0) = some 0 ∧
    typedAt? column.dictionary 0 = some none
  index : column.index.column = replicate nulls (Word.ofNat column.index.type.width 0)

variable {column : LowCardinality} {nulls : Nat}

/-- The validator wants the width that the column class stores. -/
theorem throws_appendTime {value : TimeValue nullable} {time : Int64}
    (type : column.dictionary.data.type = .fixed kind.type) (isTime : value.toOption = some time) :
    ∃ e, Throws (appendTime value) column (.assertionError e) column := by
  have refused : ∃ e, ItemView.create column.dictionary.data.type.code (timeBytes time) =
      .error (.assertionError e) := by
    rw [type]
    have length : (timeBytes time).length = 8 := length_encodeLE ..
    cases kind <;>
      simp [ItemView.create, TimeClass.type, LeafType.code, FixedType.code, Code.allowedSizes, length]
  obtain ⟨e, refused⟩ := refused
  refine ⟨e, ?_⟩
  rw [appendTime, isTime]
  exact (runs_get column).bind_throws ((throws_ofExcept refused column).bind _)

theorem Unfilled.appendNull {value : TimeValue nullable}
    (unfilled : Unfilled kind nullable nulls column) (isNull : value.toOption = none) :
    ∃ column', Runs (appendTime value) column () column' ∧
      Unfilled kind nullable (nulls + 1) column' := by
  cases nullable with
  | false => cases isNull
  | true =>
    obtain ⟨found, shown⟩ := unfilled.null rfl
    refine ⟨column.appendIndex 0, ?_, unfilled.type, fun _ => ⟨found, shown⟩, ?_⟩
    · rw [appendTime, isNull]
      exact (runs_get column).bind (runs_appendUnsafe_known found)
    · show column.index.column ++ [_] = _
      rw [unfilled.index, replicate_succ']
      rfl

/-- Of the values of a run that returns, every one is NULL. -/
theorem Unfilled.of_run {column' : LowCardinality} {values : List (TimeValue nullable)}
    (unfilled : Unfilled kind nullable nulls column)
    (run : Runs (values.forM appendTime) column () column') :
    ∀ value ∈ values, value.toOption = none := by
  induction values generalizing column nulls with
  | nil => nofun
  | cons value values ih =>
    obtain ⟨_, next, first, rest⟩ := runs_bind_iff.mp run
    cases isTime : value.toOption with
    | some time =>
      obtain ⟨e, thrown⟩ := throws_appendTime unfilled.type isTime
      cases thrown.symm.trans first
    | none =>
      obtain ⟨column', appended, unfilled'⟩ := unfilled.appendNull isTime
      cases appended.symm.trans first
      intro other mem
      rcases mem_cons.mp mem with rfl | mem
      · exact isTime
      · exact ih unfilled' rest other mem

theorem Unfilled.run {values : List (TimeValue nullable)}
    (unfilled : Unfilled kind nullable nulls column)
    (allNull : ∀ value ∈ values, value.toOption = none) :
    ∃ column', Runs (values.forM appendTime) column () column' ∧
      Unfilled kind nullable (nulls + values.length) column' := by
  induction values generalizing column nulls with
  | nil => exact ⟨column, runs_pure () column, unfilled⟩
  | cons value values ih =>
    obtain ⟨next, first, unfilled'⟩ := unfilled.appendNull (allNull value (mem_cons_self ..))
    obtain ⟨column', rest, filled⟩ := ih unfilled' fun other mem =>
      allNull other (mem_cons_of_mem _ mem)
    refine ⟨column', first.bind rest, ?_⟩
    rw [length_cons, Nat.add_comm values.length, ← Nat.add_assoc]
    exact filled

omit [Hashing] in
theorem Unfilled.at? (unfilled : Unfilled kind nullable nulls column) {n : Nat}
    (marked : n < nulls → nullable = true) :
    column.timeAt? kind n = if n < nulls then some none else none := by
  have zero : (Word.ofNat column.index.type.width 0).toNat = 0 :=
    Nat.le_zero.mp (Word.toNat_ofNat_le ..)
  rw [timeAt?, LowCardinality.at?, dictionaryIndex?, unfilled.index, getElem?_replicate]
  split
  · rename_i below
    simp [zero, (unfilled.null (marked below)).2]
  · rfl

omit [Hashing] in
/-- A key that is found stays where it is. -/
theorem lookup_emplace {items : UniqueItems} {key : HashKey} {position : Nat}
    (found : items.lookup key = some position) (key' : HashKey) (position' : Nat) :
    (items.emplace key' position').lookup key = some position := by
  rw [UniqueItems.emplace]
  split
  · exact found
  · rw [lookup_append, found]
    rfl

theorem exists_unfilled (kind : TimeClass) (nullable : Bool) :
    ∃ made, ofTyped (emptyDictionary (.fixed kind.type) nullable) = .ok made ∧
      Unfilled kind nullable 0 made := by
  cases nullable with
  | false => cases kind <;> exact ⟨_, rfl, rfl, nofun, rfl⟩
  | true =>
    cases kind <;> exact ⟨_, rfl, rfl, fun _ => ⟨lookup_emplace rfl .., rfl⟩, rfl⟩

/-- A LowCardinality column of times behaves like the plain one exactly if all values are NULL. -/
theorem likePlain_iff (kind : TimeClass) (values : List (TimeValue nullable)) :
    LikePlain kind values ↔ ∀ value ∈ values, value.toOption = none := by
  obtain ⟨made, constructed, unfilled⟩ := exists_unfilled kind nullable
  constructor
  · rintro ⟨made', column, constructed', run, -⟩
    cases constructed.symm.trans constructed'
    exact unfilled.of_run run
  · intro allNull
    obtain ⟨column, run, filled⟩ := unfilled.run allNull
    refine ⟨made, column, constructed, run, fun n => ?_⟩
    rw [Nat.zero_add] at filled
    rw [Times.at?_ofValues, filled.at?]
    · split
      · rename_i below
        simp [getElem?_eq_getElem below, allNull _ (getElem_mem below)]
      · rename_i above
        simp [getElem?_eq_none (Nat.le_of_not_lt above)]
    · intro below
      cases nullable with
      | true => rfl
      | false => cases allNull _ (getElem_mem below)

/-- The first of January 1971. -/
def sampleTimes : List (TimeValue false) := [(31536000 : Int64)]

omit [Hashing] in
/-- The date is accepted by a `ColumnDate` and by no `LowCardinality(Date)`. -/
theorem not_likePlain_date :
    letI : Hashing := stringHashing
    (Times.ofValues .date sampleTimes).at? 0 = some (some 31536000) ∧
      ¬ LikePlain .date sampleTimes := by
  let _ : Hashing := stringHashing
  refine ⟨by decide +kernel, ?_⟩
  rintro ⟨made, column, constructed, run, -⟩
  obtain ⟨made', constructed', unfilled⟩ := exists_unfilled .date false
  cases constructed'.symm.trans constructed
  cases unfilled.of_run run _ (mem_singleton_self _)

end LowCardinality

end ClickHouse
