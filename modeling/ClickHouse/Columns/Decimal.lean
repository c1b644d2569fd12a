import ClickHouse.Columns.RoundTrip
import ClickHouse.FactoryRoundTrip

/-!
# Decimal columns

`decimal.cpp`: a `ColumnDecimal` keeps its values in a column of 32-bit, 64-bit
or 128-bit integers that it chooses by the precision.  A server sends values of
more than 38 digits in 32 bytes, for which there is no such column, and nothing
refuses their precision.
-/

namespace ClickHouse

open Kit FixedType

/-- `data_type_code_` -/
inductive DecimalStorage
  | int32 | int64 | int128
deriving DecidableEq, Repr

def DecimalStorage.width : DecimalStorage → Nat
  | .int32 => 4
  | .int64 => 8
  | .int128 => 16

/-- The choice of the constructor of `ColumnDecimal`. -/
def decimalStorage (precision : Nat) : DecimalStorage :=
  if precision ≤ 9 then .int32 else if precision ≤ 18 then .int64 else .int128

/-- `Bignum::Int128Low64` -/
def int128Low64 (value : Int) : Int := value % 2 ^ 64

namespace ColumnDecimal

variable {precision scale : Nat}

/-- `ColumnDecimal::Append(const Int128&)`: the row takes the low bytes of the value. -/
def append (data : ColumnVector (decimal precision scale).width) (value : Int) :
    ColumnVector (decimal precision scale).width :=
  data ++ [match decimalStorage precision with
    | .int32 => .ofInt _ (int128Low64 value)
    | .int64 => .ofInt _ (int128Low64 value)
    | .int128 => .ofInt _ value]

/-- `ColumnDecimal::At`, if there is a row `n`. -/
def at? (data : ColumnVector (decimal precision scale).width) (n : Nat) : Option Int :=
  (data[n]?).map Word.toInt

end ColumnDecimal

/-- The bytes of a value of the given precision on the wire, for the precisions there are. -/
def wireWidth (precision : Nat) : Option Nat :=
  if precision ≤ 9 then some 4
  else if precision ≤ 18 then some 8
  else if precision ≤ 38 then some 16
  else if precision ≤ 76 then some 32
  else none

theorem width_decimal (precision scale : Nat) :
    (decimal precision scale).width = (decimalStorage precision).width := by
  unfold width decimalStorage
  dsimp only
  split
  · rfl
  · split <;> rfl

theorem wireWidth_eq_iff (precision scale : Nat) :
    wireWidth precision = some (decimal precision scale).width ↔ precision ≤ 38 := by
  unfold wireWidth width
  dsimp only
  by_cases nine : precision ≤ 9
  · simp only [if_pos nine]
    exact iff_of_true trivial (by omega)
  · by_cases eighteen : precision ≤ 18
    · simp only [if_neg nine, if_pos eighteen]
      exact iff_of_true trivial (by omega)
    · simp only [if_neg nine, if_neg eighteen]
      -- Above 38 digits the widths are 32 and none at all.
      split
      · simp [*]
      · split <;> simp [*]

/-! ## Storing a value -/

variable {precision scale : Nat}

/-- Every number with as many digits as a precision up to 38 allows fits the column chosen for
it. -/
theorem pow_le_half_width (scale : Nat) (small : precision ≤ 38) :
    10 ^ precision ≤ 256 ^ (decimal precision scale).width / 2 := by
  have grows (most : Nat) (le : precision ≤ most) : 10 ^ precision ≤ 10 ^ most :=
    Nat.pow_le_pow_right (by decide) le
  rw [width_decimal]
  unfold decimalStorage
  split
  · exact Nat.le_trans (grows 9 ‹_›) (by decide)
  · split
    · exact Nat.le_trans (grows 18 ‹_›) (by decide)
    · exact Nat.le_trans (grows 38 small) (by decide)

/-- The 64 low bits hold all of what a narrower column stores. -/
theorem dvd_two_pow_64 (narrow : decimalStorage precision ≠ .int128) :
    (((256 ^ (decimal precision scale).width : Nat)) : Int) ∣ 2 ^ 64 := by
  rw [width_decimal]
  cases storage : decimalStorage precision with
  | int32 => decide
  | int64 => decide
  | int128 => exact absurd storage narrow

theorem ColumnDecimal.append_eq (data : ColumnVector (decimal precision scale).width)
    (value : Int) : ColumnDecimal.append data value = data ++ [.ofInt _ value] := by
  unfold ColumnDecimal.append int128Low64
  cases storage : decimalStorage precision with
  | int32 => rw [Word.ofInt_emod (dvd_two_pow_64 (by rw [storage]; decide))]
  | int64 => rw [Word.ofInt_emod (dvd_two_pow_64 (by rw [storage]; decide))]
  | int128 => rfl

theorem ColumnDecimal.at?_append (data : ColumnVector (decimal precision scale).width)
    {value : Int} (fits : value.natAbs < 256 ^ (decimal precision scale).width / 2) :
    ColumnDecimal.at? (ColumnDecimal.append data value) data.length = some value := by
  rw [ColumnDecimal.append_eq, ColumnDecimal.at?, List.getElem?_concat_length, Option.map_some,
    Word.toInt_ofInt (by omega) (by omega)]

theorem ColumnDecimal.at?_append_of_lt
    (data : ColumnVector (decimal precision scale).width) (value : Int) {n : Nat}
    (inside : n < data.length) :
    ColumnDecimal.at? (ColumnDecimal.append data value) n = ColumnDecimal.at? data n := by
  rw [ColumnDecimal.append_eq, ColumnDecimal.at?, ColumnDecimal.at?,
    List.getElem?_append_left inside]

/-! ## The declared precision -/

/-- A column of decimals is as wide as the server's, keeps every number that has no more digits
than its precision, and takes the server's bytes for its rows. -/
structure MatchesPrecision (data : ColumnVector (decimal precision scale).width) :
    Prop where
  width : wireWidth precision = some (decimal precision scale).width
  stored : ∀ value : Int, value.natAbs < 10 ^ precision →
    ColumnDecimal.at? (ColumnDecimal.append data value) data.length = some value ∧
    ∀ n < data.length, ColumnDecimal.at? (ColumnDecimal.append data value) n =
      ColumnDecimal.at? data n
  loads : ∀ (σ : Type) [LawfulSource Error σ] (bytes : Bytes) (rows width : Nat),
    wireWidth precision = some width → bytes.length = rows * width →
    ∃ loaded, Decodes (σ := σ) ((Leaf.fixed (.decimal precision scale) data).loadBody rows) bytes
      (true, .fixed (.decimal precision scale) loaded) ∧ loaded.length = rows

/-- Bytes for so many rows are the memory of a vector. -/
theorem exists_memory_eq {w rows : Nat} {bytes : Bytes} (length : bytes.length = rows * w) :
    ∃ words : ColumnVector w, memory words = bytes ∧ words.length = rows :=
  ⟨toWords w rows bytes, memory_toWords length, length_toWords ..⟩

/-- A decimal column has the width of its precision exactly up to 38 digits. -/
theorem matchesPrecision_iff (data : ColumnVector (decimal precision scale).width) :
    MatchesPrecision data ↔ precision ≤ 38 := by
  constructor
  · intro full
    exact (wireWidth_eq_iff precision scale).mp full.width
  · intro small
    have width := (wireWidth_eq_iff precision scale).mpr small
    refine ⟨width, ?_, ?_⟩
    · intro value digits
      have fits := Nat.lt_of_lt_of_le digits (pow_le_half_width scale small)
      exact ⟨ColumnDecimal.at?_append data fits,
        fun n inside => ColumnDecimal.at?_append_of_lt data value inside⟩
    · intro σ _ bytes rows wide known length
      cases width.symm.trans known
      obtain ⟨loaded, rfl, rfl⟩ := exists_memory_eq length
      exact ⟨loaded, (decodes_loadVector loaded data).bind_pure (.pure _), rfl⟩

/-- The factory makes a decimal column of any precision that the parser takes. -/
theorem createColumnByType_decimal [Hashing] (settings : CreateColumnByTypeSettings)
    (parsed : precision < 2 ^ 63 ∧ scale < 2 ^ 63) :
    createColumnByType settings (Ty.leaf (.fixed (.decimal precision scale))).getName =
      .ok (some (.leaf (.fixed (.decimal precision scale) []))) := by
  have proper : LeafType.Proper (.fixed (.decimal precision scale)) := parsed
  rw [createColumnByType,
    parseTypeName_getName (show Ty.Proper (.leaf (.fixed (.decimal precision scale))) from proper)]
  exact create_leaf proper (Ty.of_fill (.leaf (.fixed (.decimal precision scale))) rfl)

/-- The column that the factory makes for 39 digits stores rows of 16 bytes. -/
theorem not_matchesPrecision_39 :
    letI := lengthHashing
    createColumnByType ⟨false⟩ (Ty.leaf (.fixed (.decimal 39 0))).getName =
      .ok (some (.leaf (.fixed (.decimal 39 0) []))) ∧
    ¬ MatchesPrecision ([] : ColumnVector (decimal 39 0).width) := by
  let _ := lengthHashing
  refine ⟨createColumnByType_decimal ⟨false⟩ (by decide), ?_⟩
  intro full
  cases full.width

end ClickHouse
