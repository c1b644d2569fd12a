import ClickHouse.Columns.Appending
import ClickHouse.Columns.RoundTrip

/-!
# Columns that gain rows

`Column.Gains` says what an append is for: the rows that were there stay, and
the new ones follow them.  The rules of this module derive it for a composite
column from its component columns.
-/

namespace ClickHouse

open Kit List Column

/-- The second column has the rows of the first one, and then as many rows as said with the given
values. -/
structure Column.Gains (column : Column) (rows : Nat) (value : Nat → Option Value)
    (column' : Column) : Prop where
  size : column'.size = column.size + rows
  old : ∀ n < column.size, column'.row? n = column.row? n
  new : ∀ n < rows, column'.row? (column.size + n) = value n

variable {column column' column'' : Column} {rows : Nat} {value : Nat → Option Value}

theorem Column.Gains.refl (column : Column) (value : Nat → Option Value) :
    column.Gains 0 value column :=
  ⟨rfl, fun _ _ => rfl, fun _ none => absurd none (Nat.not_lt_zero _)⟩

theorem Column.Gains.congr (gains : column.Gains rows value column') {other : Nat → Option Value}
    (same : ∀ n < rows, value n = other n) : column.Gains rows other column' :=
  ⟨gains.size, gains.old, fun n below => (gains.new n below).trans (same n below)⟩

/-- The values of two appends, one after the other. -/
def joined (rows : Nat) (value value' : Nat → Option Value) (n : Nat) : Option Value :=
  if n < rows then value n else value' (n - rows)

theorem Column.Gains.trans {rows' : Nat} {value' : Nat → Option Value}
    (first : column.Gains rows value column') (second : column'.Gains rows' value' column'') :
    column.Gains (rows + rows') (joined rows value value') column'' := by
  have size := first.size
  constructor
  · rw [second.size, size, Nat.add_assoc]
  · intro n below
    rw [second.old n (by omega), first.old n below]
  · intro n below
    unfold joined
    split
    · rename_i early
      rw [second.old _ (by omega), first.new n early]
    · rename_i late
      have position : column.size + n = column'.size + (n - rows) := by omega
      rw [position, second.new _ (by omega)]

/-! ## Leaf columns -/

theorem Leaf.Extends.gains {leaf leaf' : Leaf} {row : Bytes} (extends' : leaf.Extends row leaf') :
    (Column.leaf leaf).Gains 1 (fun _ => some (ItemView.value ⟨leaf.type.code, row⟩))
      (.leaf leaf') := by
  have items {n : Nat} : (Column.leaf leaf').row? n =
      ((leaf'.bytes? n).map fun data => ⟨leaf.type.code, data⟩).map ItemView.value := by
    show (leaf'.item? n).map _ = _
    rw [Leaf.item?, extends'.hasType]
  constructor
  · exact extends'.size
  · intro n below
    rw [items, extends'.old n below]
    rfl
  · intro n below
    have only : n = 0 := by omega
    subst only
    have row : leaf'.bytes? (leaf.size + 0) = some row := extends'.new
    rw [items]
    show ((leaf'.bytes? (leaf.size + 0)).map _).map _ = _
    rw [row]
    rfl

/-! ## Arrays -/

section Arrays

variable {data data' : Column} {offsets : ColumnVector 8}

theorem length_addOffset (offsets : ColumnVector 8) (n : Nat) :
    (addOffset offsets n).length = offsets.length + 1 := by
  simp [addOffset]

/-- The rows of an array are where they were after one was added. -/
theorem ConsistentOffsets.getSize_addOffset {size n : Nat}
    (consistent : ConsistentOffsets offsets size) (fits : size + n < 2 ^ 64) :
    (∀ i < offsets.length,
      getSize (ClickHouse.addOffset offsets n) i = getSize offsets i) ∧
        getSize (ClickHouse.addOffset offsets n) offsets.length = n := by
  have grown := consistent.addOffset fits
  have length := length_addOffset offsets n
  have old {i : Nat} (inside : i ≤ offsets.length) :
      getOffset (ClickHouse.addOffset offsets n) i = getOffset offsets i :=
    getOffset_append_left inside _
  constructor
  · intro i below
    rw [grown.getSize_eq (by omega), consistent.getSize_eq below, old below, old (by omega)]
  · have last := grown.2
    rw [length] at last
    rw [grown.getSize_eq (by omega), last, old (Nat.le_refl _), consistent.2]
    omega

/-- A row of an array is made of the rows its data gained. -/
theorem Column.Gains.array (consistent : ConsistentOffsets offsets data.size)
    (gains : data.Gains rows value data') (fits : data.size + rows < 2 ^ 64) :
    (array data offsets).Gains 1
      (fun _ => ((range rows).mapM value).map .array)
      (.array data' (addOffset offsets rows)) := by
  obtain ⟨oldSize, newSize⟩ := consistent.getSize_addOffset fits
  have length := length_addOffset offsets rows
  have offset {i : Nat} (inside : i ≤ offsets.length) :
      getOffset (addOffset offsets rows) i = getOffset offsets i :=
    getOffset_append_left inside _
  constructor
  · exact length
  · intro n below
    have below : n < offsets.length := below
    have within := consistent.row_within below
    rw [row?, row?, if_pos (by omega), if_pos below, oldSize n below,
      offset (Nat.le_of_lt below)]
    congr 1
    refine mapM_congr fun i mem => gains.old _ ?_
    have isItem := mem_range.mp mem
    omega
  · intro n below
    have only : n = 0 := by omega
    subst only
    show (Column.array data' (addOffset offsets rows)).row? offsets.length = _
    rw [row?, if_pos (by omega), newSize, offset (Nat.le_refl _), consistent.2]
    congr 1
    exact mapM_congr fun i mem => gains.new i (mem_range.mp mem)

end Arrays

/-! ## Nullable columns -/

/-- The value of a row that has a flag. -/
def flagged (flags : ColumnVector 1) (value : Nat → Option Value) (n : Nat) : Option Value :=
  match flags[n]? with
  | some flag => if flag.toNat = 0 then value n else some .null
  | none => none

theorem Column.row?_nullable (nested : Column) (nulls : ColumnVector 1) (n : Nat) :
    (nullable nested nulls).row? n = flagged nulls nested.row? n := rfl

theorem Column.Gains.nullable {nested nested' : Column} {nulls flags : ColumnVector 1}
    (sizes : nested.size = nulls.length) (gains : nested.Gains flags.length value nested') :
    (Column.nullable nested nulls).Gains flags.length (flagged flags value)
      (.nullable nested' (nulls ++ flags)) := by
  constructor
  · exact length_append
  · intro n below
    have below : n < nulls.length := below
    rw [Column.row?_nullable, Column.row?_nullable, flagged, flagged,
      getElem?_append_left below, gains.old n (by omega)]
  · intro n below
    show (Column.nullable nested' (nulls ++ flags)).row? (nulls.length + n) = _
    rw [Column.row?_nullable, flagged, flagged, getElem?_append_right (Nat.le_add_right ..),
      Nat.add_sub_cancel_left, ← sizes, gains.new n below]

/-! ## Tuples -/

/-- The columns of a tuple, of one size, gain rows together. -/
structure Column.AllGain (columns : List Column) (size rows : Nat)
    (value : Nat → Option (List Value)) (columns' : List Column) : Prop where
  length : columns'.length = columns.length
  sizes : ∀ column ∈ columns', column.size = size + rows
  old : ∀ n < size, rows? columns' n = rows? columns n
  new : ∀ n < rows, rows? columns' (size + n) = value n

theorem Column.AllGain.nil (size rows : Nat) :
    AllGain [] size rows (fun _ => some []) [] :=
  ⟨rfl, fun _ mem => absurd mem not_mem_nil, fun _ _ => rfl, fun _ _ => rfl⟩

variable {columns columns' : List Column} {values : Nat → Option (List Value)}

theorem Column.AllGain.congr {size : Nat} {others : Nat → Option (List Value)}
    (gains : AllGain columns size rows values columns')
    (same : ∀ n < rows, values n = others n) : AllGain columns size rows others columns' :=
  ⟨gains.length, gains.sizes, gains.old, fun n below => (gains.new n below).trans (same n below)⟩

/-- One more value in front of those of the other columns. -/
def consValue (value : Nat → Option Value) (values : Nat → Option (List Value)) (n : Nat) :
    Option (List Value) := do
  let first ← value n
  let others ← values n
  pure (first :: others)

theorem Column.rows?_cons (column : Column) (columns : List Column) (n : Nat) :
    rows? (column :: columns) n = consValue column.row? (rows? columns) n := rfl

theorem Column.AllGain.cons (first : column.Gains rows value column')
    (others : AllGain columns column.size rows values columns') :
    AllGain (column :: columns) column.size rows (consValue value values)
      (column' :: columns') := by
  constructor
  · rw [length_cons, length_cons, others.length]
  · intro other mem
    rcases mem_cons.mp mem with rfl | mem
    · exact first.size
    · exact others.sizes other mem
  · intro n below
    rw [rows?_cons, rows?_cons, consValue, consValue, first.old n below,
      others.old n below]
  · intro n below
    rw [rows?_cons, consValue, consValue, first.new n below, others.new n below]

theorem Column.AllGain.tuple {names names' : List Bytes} (nonempty : columns ≠ [])
    (gains : AllGain columns (firstSize columns) rows values columns') :
    (tuple columns names).Gains rows (fun n => (values n).map .tuple)
      (.tuple columns' names') := by
  constructor
  · cases columns' with
    | nil => exact absurd (eq_nil_of_length_eq_zero gains.length.symm) nonempty
    | cons column' columns' => exact gains.sizes column' (mem_cons_self ..)
  · intro n below
    rw [row?, row?, gains.old n below]
  · intro n below
    show (rows? columns' (firstSize columns + n)).map _ = _
    rw [gains.new n below]

end ClickHouse
