import ClickHouse.Columns.LoadedAppends
import ClickHouse.Columns.ReceivedIndexes
import ClickHouse.Columns.Soundness

/-!
# The rows of slices

A slice has the rows of its column, in every component column.  The slice of a
LowCardinality column is filled row by row and has an index of `UInt32`, also
where the column was loaded with a wider one: an item whose position in the
new dictionary does not fit the index reads as another item.
-/

namespace ClickHouse

open Kit LowCardinality List Column

/-! ## The LowCardinality columns of a tree -/

mutual

/-- Every LowCardinality column among the component columns is as given. -/
def Column.EachLowCardinality (holds : LowCardinality → Prop) : Column → Prop
  | .leaf _ => True
  | .array data _ => data.EachLowCardinality holds
  | .nullable nested _ => nested.EachLowCardinality holds
  | .tuple columns _ => AllEachLowCardinality holds columns
  | .map data => data.EachLowCardinality holds
  | .lowCardinality column => holds column
  | .geo _ data => data.EachLowCardinality holds
  | .adaptor _ => True

def Column.AllEachLowCardinality (holds : LowCardinality → Prop) : List Column → Prop
  | [] => True
  | column :: columns => column.EachLowCardinality holds ∧ AllEachLowCardinality holds columns

end

/-- The type of the column contains no `LowCardinality(Nullable(...))`. -/
def Column.NoNullableKeys (column : Column) : Prop :=
  column.EachLowCardinality fun own => own.dictionary.nulls = none

/-- The hashes of the items of each LowCardinality column and of its default item differ. -/
def Column.KeysApart [Hashing] (column : Column) : Prop :=
  column.EachLowCardinality fun own => HashesApart (own.dictionary.data.type.zeroItem ::
    own.sliceItems 0 own.index.column.length)

mutual

/-- Row `n` of the slice reads as the row it was made of.  The items of a LowCardinality column
are stored in the order in which the rows of the slice need them, after the default item; the
index keeps 32 bits of a position. -/
def Column.RowKept : Column → Nat → Nat → Nat → Prop
  | .leaf _, _, _, _ => True
  | .array data offsets, start, len, n =>
    ∀ i < getSize offsets (start + n), data.RowKept (getOffset offsets start)
      (getOffset offsets (start + len) - getOffset offsets start)
      (getOffset offsets (start + n) - getOffset offsets start + i)
  | .nullable nested nulls, start, len, n =>
    ∀ flag, nulls[start + n]? = some flag → flag.toNat = 0 → nested.RowKept start len n
  | .tuple columns _, start, len, n => RowsKept columns start len n
  | .map data, start, len, n => data.RowKept start len n
  | .lowCardinality column, start, len, n =>
    ∀ item, column.item? (start + n) = some item →
      Addressed column.dictionary.data.type .uint32
        ((column.sliceItems start len).foldl intern [column.dictionary.data.type.zeroItem]) item
  | .geo _ data, start, len, n => data.RowKept start len n
  | .adaptor _, _, _, _ => True

def Column.RowsKept : List Column → Nat → Nat → Nat → Prop
  | [], _, _, _ => True
  | column :: columns, start, len, n =>
    column.RowKept start len n ∧ RowsKept columns start len n

end

/-- The slice of the rows from `start` on is a sound column of the type of `column` with `len` rows,
and these are the rows of `column`.  `Slice` gives a new column and changes none. -/
structure Column.SliceLaw [Hashing] (known : Ty → Prop) (column : Column) (start len : Nat)
    (column' : Column) : Prop where
  sliced : column.slice start len = .ok column'
  sameType : column'.type = column.type
  size : column'.size = len
  rows : ∀ n < len, ∃ value, column'.row? n = some value ∧ column.row? (start + n) = some value
  sound : column'.Sound known

variable {known : Ty → Prop}

/-! ## Rows of sound columns -/

mutual

/-- Every row of a sound column has a value. -/
theorem Column.Sound.exists_row : ∀ {column : Column}, column.Sound known → ∀ {n : Nat},
    n < column.size → ∃ value, column.row? n = some value
  | .leaf _, _, n, inside => by
    obtain ⟨item, read⟩ := Leaf.exists_item inside
    exact ⟨item.value, by rw [row?, read]; rfl⟩
  | .array data offsets, sound, n, inside => by
    rw [size] at inside
    have within := sound.2.1.row_within inside
    have items : ∀ i ∈ range (getSize offsets n), ∃ value,
        data.row? (getOffset offsets n + i) = some value := by
      intro i mem
      have below := mem_range.mp mem
      exact Sound.exists_row sound.2.2 (by omega)
    obtain ⟨values, all⟩ := exists_mapM items
    exact ⟨.array values, by rw [row?, if_pos inside, all]; rfl⟩
  | .nullable nested nulls, sound, n, inside => by
    have inside : n < nulls.length := inside
    rw [row?, getElem?_eq_getElem inside]
    dsimp only
    split
    · exact Sound.exists_row sound.2.2 (sound.2.1 ▸ inside)
    · exact ⟨.null, rfl⟩
  | .tuple columns names, sound, n, inside => by
    obtain ⟨values, all⟩ := AllSound.exists_rows sound.2.2 inside
    exact ⟨.tuple values, by rw [row?, all]; rfl⟩
  | .map data, sound, _, inside =>
    Sound.exists_row sound.2.2 (show _ < data.size from inside)
  | .lowCardinality _, sound, _, inside => by
    obtain ⟨item, read, _⟩ := sound.2.2.exists_item inside
    exact ⟨item.value, by rw [row?, read]; rfl⟩
  | .geo _ data, sound, _, inside =>
    Sound.exists_row sound.2.2 (show _ < data.size from inside)
  | .adaptor _, _, n, inside => by
    obtain ⟨item, read⟩ := Leaf.exists_item inside
    exact ⟨item.value, by rw [row?, read]; rfl⟩

theorem Column.AllSound.exists_rows : ∀ {columns : List Column} {rows : Nat},
    AllSound known columns rows → ∀ {n : Nat}, n < rows →
    ∃ values, rows? columns n = some values
  | [], _, _, _, _ => ⟨[], rfl⟩
  | _ :: _, _, sound, _, inside => by
    obtain ⟨size, own, others⟩ := sound
    obtain ⟨value, first⟩ := Sound.exists_row own (size.symm ▸ inside)
    obtain ⟨values, rest⟩ := AllSound.exists_rows others inside
    exact ⟨value :: values, by rw [rows?, first, rest]; rfl⟩

end

/-! ## Slices of columns without component columns -/

variable {len n start : Nat} {column : LowCardinality}

theorem FixedStrings.at?_slice {column : FixedStrings} (positive : 0 < column.stringSize)
    (inside : (start + len) * column.stringSize ≤ column.data.length) (below : n < len) :
    (column.slice start len).at? n = column.at? (start + n) := by
  have before : (n + 1) * column.stringSize ≤ len * column.stringSize :=
    Nat.mul_le_mul_right _ below
  rw [Nat.add_mul] at before inside
  have length : (column.slice start len).data.length = len * column.stringSize := by
    simp only [FixedStrings.slice, length_take, length_drop]
    omega
  have own : n * column.stringSize < (column.slice start len).data.length ∧
      n * column.stringSize + column.stringSize ≤ (column.slice start len).data.length := by
    rw [length]
    omega
  have whole : (start + n) * column.stringSize < column.data.length ∧
      (start + n) * column.stringSize + column.stringSize ≤ column.data.length := by
    rw [Nat.add_mul]
    omega
  have size : (column.slice start len).stringSize = column.stringSize := rfl
  rw [FixedStrings.at?, FixedStrings.at?, size, if_pos own, if_pos whole, FixedStrings.slice]
  dsimp only
  rw [drop_take, take_take, drop_drop, Nat.add_mul]
  congr 1
  congr 1
  omega

theorem Leaf.Whole.bytes?_slice {leaf leaf' : Leaf} (whole : leaf.Whole)
    (inside : start + len ≤ leaf.size) (sliced : leaf.slice start len = .ok leaf')
    (below : n < len) : leaf'.bytes? n = leaf.bytes? (start + n) := by
  cases leaf with
  | fixed type data =>
    cases sliced
    simp only [Leaf.bytes?, getElem?_take_of_lt below, getElem?_drop]
  | fixedString column =>
    have positive : 0 < column.stringSize := whole.positive
    rw [Leaf.slice, if_neg (Nat.ne_of_gt positive)] at sliced
    cases sliced
    exact FixedStrings.at?_slice positive ((Nat.le_div_iff_mul_le positive).mp inside) below
  | string items =>
    cases sliced
    simp only [Leaf.bytes?, getElem?_take_of_lt below, getElem?_drop]
  | json items =>
    cases sliced
    simp only [Leaf.bytes?, getElem?_take_of_lt below, getElem?_drop]
  | nothing size =>
    cases sliced
    rfl

theorem Leaf.Whole.item?_slice {leaf leaf' : Leaf} (whole : leaf.Whole)
    (inside : start + len ≤ leaf.size) (sliced : leaf.slice start len = .ok leaf')
    (below : n < len) : leaf'.item? n = leaf.item? (start + n) := by
  obtain ⟨made, created, type, _, _⟩ := whole.slice inside
  rw [sliced] at created
  cases created
  rw [Leaf.item?, Leaf.item?, whole.bytes?_slice inside sliced below, type]

/-! ## Slices of LowCardinality columns -/

namespace LowCardinality

/-- Different values are items of different values. -/
theorem value_itemOf_injective {code : Code} (isValue : code ≠ .void) :
    Function.Injective fun value => (itemOf code value).value := by
  intro a b same
  cases a <;> cases b <;> simp_all [itemOf, ItemView.value, ItemView.null]

theorem getElem?_sliceItems (readable : column.Readable)
    (inside : start + len ≤ column.index.column.length) (below : n < len) :
    (column.sliceItems start len)[n]? = column.item? (start + n) := by
  obtain ⟨gives, _⟩ := sliceItems_hasItem readable inside
  have length := gives.length_eq
  rw [length_range'] at length
  have item := (forall₂_iff_get.mp gives).2 n (by rw [length_range']; exact below)
    (length ▸ below)
  rw [get_eq_getElem, getElem_range', Nat.one_mul] at item
  rw [getElem?_eq_getElem (length ▸ below)]
  cases read : column.item? (start + n) with
  | none =>
    rw [read] at item
    cases item
  | some own =>
    rw [read] at item
    exact congrArg some (Except.ok.inj item).symm

variable [Hashing]

/-- A row of the slice has its value exactly if the index keeps the position of its item. -/
theorem Intact.slice_row_iff {column' : LowCardinality} (intact : column.Intact)
    (plain : column.dictionary.nulls = none)
    (apart : HashesApart (column.dictionary.data.type.zeroItem ::
      column.sliceItems 0 column.index.column.length))
    (inside : start + len ≤ column.index.column.length)
    (sliced : column.slice start len = .ok column') (below : n < len) :
    (column'.item? n).map ItemView.value = (column.item? (start + n)).map ItemView.value ↔
      ∀ item, column.item? (start + n) = some item →
        Addressed column.dictionary.data.type .uint32
          ((column.sliceItems start len).foldl intern [column.dictionary.data.type.zeroItem])
          item := by
  have supported := intact.dictionary.supported
  have isValue := LeafType.code_of_isDictionary supported
  have readable : column.Readable := ⟨intact.positions, intact.dictionary.flags⟩
  have isNullable : column.dictionary.nulls.isSome = false := by rw [plain]; rfl
  -- The items of the slice are among the items of the column.
  have kind : ∀ item ∈ column.dictionary.data.type.zeroItem ::
      column.sliceItems 0 column.index.column.length,
      item = .null ∨ item.type = column.dictionary.data.type.code := by
    intro item mem
    rcases mem_cons.mp mem with rfl | mem
    · exact .inr rfl
    · rcases (sliceItems_hasItem readable (by omega)).2 item mem with ⟨null, _⟩ | ⟨code, _⟩
      · exact .inl null
      · exact .inr code
  have within : Within [column.dictionary.data.type.zeroItem]
      { item | item ∈ column.dictionary.data.type.zeroItem ::
        column.sliceItems 0 column.index.column.length } (column.sliceItems start len) := by
    intro item mem
    rcases mem_append.mp mem with reserved | mem
    · rw [mem_singleton.mp reserved]
      exact mem_cons_self ..
    · obtain ⟨row, isRow, read⟩ := mem_filterMap.mp mem
      have bounds := mem_range'_1.mp isRow
      refine mem_cons_of_mem _ (mem_filterMap.mpr ⟨row, ?_, read⟩)
      exact mem_range'_1.mpr (by omega)
  obtain ⟨made, created, tracks⟩ := tracks_slice readable intact.dictionary.cloneEmpty rfl isNullable
    inside (apart.injOn isValue kind) within
  rw [sliced] at created
  cases created
  obtain ⟨item, read, _⟩ := intact.exists_item (n := start + n) (by omega)
  have found : (column.sliceItems start len)[n]? = some item := by
    rw [getElem?_sliceItems readable inside below, read]
  obtain ⟨other, isOther, value⟩ := tracks.value (mem_of_getElem? found)
  have row : column'.item? n =
      some (itemOf column.dictionary.data.type.code (column.dictionary.data.type.valueOf other)) := by
    rw [tracks.item? (fun isTrue => by cases isTrue), tracks.at?, found, Option.bind_some, value]
    rfl
  have own : item =
      itemOf column.dictionary.data.type.code (column.dictionary.data.type.valueOf item) := by
    have read' := read
    rw [LowCardinality.item?] at read'
    split at read'
    · rename_i position _
      rw [if_neg (by simp [plain])] at read'
      have typed := valueOf_item supported read'
      rw [Dictionary.item?_eq_typedAt?, typed] at read'
      exact (Option.some.inj read').symm
    · cases read'
  rw [row, read, Option.map_some, Option.map_some, Option.some.injEq]
  constructor
  · intro same item' isItem
    cases isItem
    rw [own] at same
    exact ⟨other, isOther, value_itemOf_injective isValue same⟩
  · intro addressed
    obtain ⟨other', isOther', same⟩ := addressed item rfl
    rw [isOther] at isOther'
    cases isOther'
    rw [same, ← own]

end LowCardinality

/-! ## Slices of all columns -/

/-- Two lists of defined values are equal where all their values are. -/
theorem mapM_eq_iff {α β : Type} {f g : α → Option β} {l : List α}
    (definedF : ∀ a ∈ l, ∃ b, f a = some b) (definedG : ∀ a ∈ l, ∃ b, g a = some b) :
    l.mapM f = l.mapM g ↔ ∀ a ∈ l, f a = g a := by
  refine ⟨?_, mapM_congr⟩
  induction l with
  | nil => exact fun _ _ mem => absurd mem not_mem_nil
  | cons a l ih =>
    have definedF' := fun c mem => definedF c (mem_cons_of_mem a mem)
    have definedG' := fun c mem => definedG c (mem_cons_of_mem a mem)
    obtain ⟨b, readF⟩ := definedF a (mem_cons_self ..)
    obtain ⟨c, readG⟩ := definedG a (mem_cons_self ..)
    obtain ⟨bs, othersF⟩ := exists_mapM definedF'
    obtain ⟨cs, othersG⟩ := exists_mapM definedG'
    intro same
    simp only [mapM_cons, readF, readG, othersF, othersG, bind, Option.bind, pure,
      Option.some.injEq, cons.injEq] at same
    intro d mem
    rcases mem_cons.mp mem with rfl | mem
    · rw [readF, readG, same.1]
    · exact ih definedF' definedG' (by rw [othersF, othersG, same.2]) d mem

theorem getSize_slicedOffsets {offsets : ColumnVector 8} {size : Nat}
    (consistent : ConsistentOffsets offsets size) (inside : start + len ≤ offsets.length)
    (below : n < len) :
    getSize (slicedOffsets offsets start len) n = getSize offsets (start + n) := by
  have first := consistent.mono (Nat.le_add_right start n) (by omega)
  have sliced := (consistent.sliced inside).getSize_eq (n := n) (by simpa using below)
  have own := consistent.getSize_eq (n := start + n) (by omega)
  rw [slicedOffsets, getOffset_sliced (by omega), getOffset_sliced (by omega)] at sliced
  rw [slicedOffsets, sliced, own, ← Nat.add_assoc]
  omega

/-! ## Where all rows are kept -/

theorem LowCardinality.addressed_sliceItems (few : len < 2 ^ 32) {item : ItemView}
    (mem : item ∈ column.sliceItems start len) :
    Addressed column.dictionary.data.type .uint32
      ((column.sliceItems start len).foldl intern [column.dictionary.data.type.zeroItem]) item := by
  refine addressed_of_few ?_ item mem
  have distinct := length_le_dedup (nodup_foldl_intern (nodup_singleton
    column.dictionary.data.type.zeroItem) (column.sliceItems start len)) fun _ => mem_foldl_intern
  have all := (dedup_sublist ([column.dictionary.data.type.zeroItem] ++
    column.sliceItems start len)).length_le
  have items := length_filterMap_le column.item? (range' start len)
  rw [← sliceItems, length_range'] at items
  rw [length_append, length_singleton] at all
  have width : 256 ^ IndexType.uint32.width = 2 ^ 32 := rfl
  rw [width]
  omega

mutual

/-- All rows are kept if no LowCardinality column has `2 ^ 32` rows. -/
theorem Column.Sound.rowKept_of_few : ∀ {column : Column}, column.Sound known →
    (column.EachLowCardinality fun own => own.index.column.length < 2 ^ 32) →
    ∀ {start len n : Nat}, start + len ≤ column.size → n < len → column.RowKept start len n
  | .leaf _, _, _, _, _, _, _, _ => trivial
  | .array data offsets, sound, few, start, len, n, inside, below => by
    have inside : start + len ≤ offsets.length := inside
    have consistent := sound.2.1
    have first := consistent.mono (Nat.le_add_right start n) (by omega)
    have last := consistent.mono (show start + n + 1 ≤ start + len by omega) inside
    have size := consistent.getSize_eq (n := start + n) (by omega)
    have step := consistent.1 (start + n) (by omega)
    have most := consistent.le_size inside
    intro i isItem
    exact Sound.rowKept_of_few sound.2.2 few (by omega) (by omega)
  | .nullable nested nulls, sound, few, start, len, n, inside, below => by
    have inside : start + len ≤ nested.size := sound.2.1.symm ▸ inside
    intro _ _ _
    exact Sound.rowKept_of_few sound.2.2 few inside below
  | .tuple columns _, sound, few, _, _, _, inside, below =>
    AllSound.rowsKept_of_few sound.2.2 few inside below
  | .map data, sound, few, _, _, _, inside, below =>
    Sound.rowKept_of_few sound.2.2 few (show _ ≤ data.size from inside) below
  | .lowCardinality own, sound, few, start, len, n, inside, below => by
    have inside : start + len ≤ own.index.column.length := inside
    have few : own.index.column.length < 2 ^ 32 := few
    intro item read
    refine addressed_sliceItems (by omega) (mem_filterMap.mpr ⟨start + n, ?_, read⟩)
    exact mem_range'_1.mpr (by omega)
  | .geo _ data, sound, few, _, _, _, inside, below =>
    Sound.rowKept_of_few sound.2.2 few (show _ ≤ data.size from inside) below
  | .adaptor _, _, _, _, _, _, _, _ => trivial

theorem Column.AllSound.rowsKept_of_few : ∀ {columns : List Column} {rows : Nat},
    AllSound known columns rows →
    AllEachLowCardinality (fun own => own.index.column.length < 2 ^ 32) columns →
    ∀ {start len n : Nat}, start + len ≤ rows → n < len → RowsKept columns start len n
  | [], _, _, _, _, _, _, _, _ => trivial
  | _ :: _, _, sound, few, _, _, _, inside, below =>
    ⟨Sound.rowKept_of_few sound.2.1 few.1 (sound.1.symm ▸ inside) below,
      AllSound.rowsKept_of_few sound.2.2 few.2 inside below⟩

end

/-! ## The slice law -/

section Law

variable [Hashing]

mutual

theorem Column.Sound.slice_row_iff : ∀ {column : Column}, column.Sound known →
    column.NoNullableKeys → column.KeysApart → ∀ {start len n : Nat} {column' : Column},
    start + len ≤ column.size → column.slice start len = .ok column' → n < len →
    (column'.row? n = column.row? (start + n) ↔ column.RowKept start len n)
  | .leaf own, sound, _, _, start, len, n, column', inside, sliced, below => by
    obtain ⟨own', created, _, _, _⟩ := sound.2.slice inside
    rw [slice, created] at sliced
    cases sliced
    rw [row?, row?, sound.2.item?_slice inside created below, RowKept]
    exact iff_of_true rfl trivial
  | .array data offsets, sound, plain, apart, start, len, n, column', inside, sliced, below => by
    have inside : start + len ≤ offsets.length := inside
    have consistent := sound.2.1
    have first := consistent.mono (Nat.le_add_right start n) (by omega)
    have last := consistent.mono (show start + n + 1 ≤ start + len by omega) inside
    have size := consistent.getSize_eq (n := start + n) (by omega)
    have step := consistent.1 (start + n) (by omega)
    have most := consistent.le_size inside
    have within : getOffset offsets start +
        (getOffset offsets (start + len) - getOffset offsets start) ≤ data.size := by omega
    obtain ⟨data', created, isSlice⟩ := sound.2.2.slice within
    rw [slice_array_eq consistent inside created isSlice.size isSlice.sound.sizeDefined] at sliced
    cases sliced
    have offset : getOffset (slicedOffsets offsets start len) n =
        getOffset offsets (start + n) - getOffset offsets start := getOffset_sliced (by omega)
    have rows : n < (slicedOffsets offsets start len).length := by simpa using below
    rw [row?, row?, if_pos rows, if_pos (show start + n < offsets.length by omega),
      getSize_slicedOffsets consistent inside below, offset,
      (Option.map_injective fun _ _ same => Value.array.inj same).eq_iff,
      mapM_eq_iff, RowKept]
    · -- Each item of the row is a row of the sliced data.
      refine forall_congr' fun i => ?_
      rw [mem_range]
      refine imp_congr_right fun isItem => ?_
      have item := Sound.slice_row_iff sound.2.2 plain apart
        (n := getOffset offsets (start + n) - getOffset offsets start + i) within created (by omega)
      rw [← item, ← Nat.add_assoc, Nat.add_sub_cancel' first]
    · intro i mem
      have isItem := mem_range.mp mem
      exact isSlice.sound.exists_row (by rw [isSlice.size]; omega)
    · intro i mem
      have isItem := mem_range.mp mem
      exact sound.2.2.exists_row (by omega)
  | .nullable nested nulls, sound, plain, apart, start, len, n, column', inside, sliced, below => by
    have inside : start + len ≤ nulls.length := inside
    have within : start + len ≤ nested.size := sound.2.1.symm ▸ inside
    obtain ⟨nested', created, isSlice⟩ := sound.2.2.slice within
    have sizes : nested'.size = ((nulls.drop start).take len).length := by
      rw [isSlice.size, length_take, length_drop]
      omega
    rw [slice_nullable_eq created isSlice.sound.checkSize_eq sizes] at sliced
    cases sliced
    have row := Sound.slice_row_iff sound.2.2 plain apart within created below
    have flag := getElem?_eq_getElem (show start + n < nulls.length by omega)
    rw [row?, row?, getElem?_take_of_lt below, getElem?_drop, flag,
      RowKept, flag]
    dsimp only
    by_cases isNull : nulls[start + n].toNat = 0
    · rw [if_pos isNull, if_pos isNull, row]
      constructor
      · intro kept own isOwn _
        exact kept
      · intro kept
        exact kept _ rfl isNull
    · rw [if_neg isNull, if_neg isNull]
      refine iff_of_true rfl ?_
      intro own isOwn zero
      cases isOwn
      exact absurd zero isNull
  | .tuple columns names, sound, plain, apart, start, len, n, column', inside, sliced, below => by
    obtain ⟨columns', created, slices⟩ := AllSound.slice sound.2.2 inside
    rw [slice_tuple_eq created sound.2.1] at sliced
    cases sliced
    have rows := AllSound.slice_rows_iff sound.2.2 plain apart inside created below
    rw [row?, row?, RowKept, ← rows,
      (Option.map_injective fun _ _ same => Value.tuple.inj same).eq_iff]
  | .map data, sound, plain, apart, start, len, n, column', inside, sliced, below => by
    have inside : start + len ≤ data.size := inside
    obtain ⟨data', created, _⟩ := sound.2.2.slice inside
    rw [slice, created] at sliced
    cases sliced
    rw [row?, row?, RowKept]
    exact Sound.slice_row_iff sound.2.2 plain apart inside created below
  | .lowCardinality own, sound, plain, apart, start, len, n, column', inside, sliced, below => by
    obtain ⟨own', created, _⟩ := sound.2.2.slice inside
    rw [slice, created] at sliced
    cases sliced
    exact sound.2.2.slice_row_iff plain apart inside created below
  | .geo kind data, sound, plain, apart, start, len, n, column', inside, sliced, below => by
    have inside : start + len ≤ data.size := inside
    obtain ⟨data', created, _⟩ := sound.2.2.slice inside
    rw [slice, created] at sliced
    cases sliced
    rw [row?, row?, RowKept]
    exact Sound.slice_row_iff sound.2.2 plain apart inside created below
  | .adaptor own, sound, _, _, start, len, n, column', inside, sliced, below => by
    have whole := sound.2.1
    obtain ⟨own', created, _, _, _⟩ := whole.slice inside
    rw [slice, created] at sliced
    cases sliced
    rw [row?, row?, whole.item?_slice inside created below, RowKept]
    exact iff_of_true rfl trivial

theorem Column.AllSound.slice_rows_iff : ∀ {columns : List Column} {rows : Nat},
    AllSound known columns rows →
    AllEachLowCardinality (fun own => own.dictionary.nulls = none) columns →
    AllEachLowCardinality (fun own => HashesApart (own.dictionary.data.type.zeroItem ::
      own.sliceItems 0 own.index.column.length)) columns →
    ∀ {start len n : Nat} {columns' : List Column}, start + len ≤ rows →
    sliceAll columns start len = .ok columns' → n < len →
    (rows? columns' n = rows? columns (start + n) ↔
      RowsKept columns start len n)
  | [], _, _, _, _, start, len, n, columns', _, sliced, _ => by
    cases sliced
    exact iff_of_true rfl trivial
  | column :: columns, rows, sound, plain, apart, start, len, n, columns', inside, sliced, below => by
    obtain ⟨size, own, others⟩ := sound
    have within : start + len ≤ column.size := size.symm ▸ inside
    obtain ⟨column', created, isSlice⟩ := own.slice within
    obtain ⟨columns'', created', slices⟩ := AllSound.slice others inside
    simp only [sliceAll, created, created', bind, Except.bind] at sliced
    cases sliced
    have row := Sound.slice_row_iff own plain.1 apart.1 within created below
    have rest := AllSound.slice_rows_iff others plain.2 apart.2 inside created' below
    obtain ⟨value, read⟩ := isSlice.sound.exists_row (n := n) (by rw [isSlice.size]; exact below)
    obtain ⟨value', read'⟩ := own.exists_row (n := start + n) (by omega)
    obtain ⟨values, reads⟩ := slices.sound.exists_rows below
    obtain ⟨values', reads'⟩ := others.exists_rows (n := start + n) (by omega)
    rw [read, read', Option.some.injEq] at row
    rw [reads, reads', Option.some.injEq] at rest
    simp only [rows?, read, read', reads, reads', bind, Option.bind, pure,
      Option.some.injEq, cons.injEq, RowsKept, row, rest]

end

/-- The slice law holds exactly where all rows of the slice are kept. -/
theorem Column.Sound.sliceLaw_iff {column : Column} (sound : column.Sound known)
    (plain : column.NoNullableKeys) (apart : column.KeysApart) {start len : Nat}
    (inside : start + len ≤ column.size) :
    (∃ column', column.SliceLaw known start len column') ↔
      ∀ n < len, column.RowKept start len n := by
  constructor
  · rintro ⟨column', law⟩ n below
    obtain ⟨value, read, read'⟩ := law.rows n below
    exact (sound.slice_row_iff plain apart inside law.sliced below).mp (read.trans read'.symm)
  · intro kept
    obtain ⟨column', sliced, isSlice⟩ := sound.slice inside
    refine ⟨column', sliced, isSlice.sameType, isSlice.size, ?_, isSlice.sound⟩
    intro n below
    obtain ⟨value, read⟩ := sound.exists_row (n := start + n) (by omega)
    have same := (sound.slice_row_iff plain apart inside sliced below).mpr (kept n below)
    exact ⟨value, same.trans read, read⟩

end Law

/-- The arrays `['', 'a']` and `['a']` of LowCardinality strings. -/
def arraysOfKeys [Hashing] : Column :=
  .array (.lowCardinality (loadedStrings [0, 1, 1])) [Word.ofNat 8 2, Word.ofNat 8 3]

theorem sliceLaw_arraysOfKeys :
    letI : Hashing := LowCardinality.stringHashing
    ∃ column', arraysOfKeys.SliceLaw (fun _ => True) 1 1 column' := by
  let _ : Hashing := LowCardinality.stringHashing
  have sound : arraysOfKeys.Sound fun _ => True :=
    ⟨trivial, ⟨by decide, rfl⟩, trivial, trivial, ⟨rfl, trivial, trivial, fun _ none => by cases none⟩,
      by decide, by decide⟩
  have apart : arraysOfKeys.KeysApart := ⟨by decide, by decide⟩
  refine (Sound.sliceLaw_iff sound rfl apart (by decide)).mpr ?_
  intro n below
  exact sound.rowKept_of_few (show 3 < 2 ^ 32 by decide) (by decide) below

/-! ## More items than the index has values -/

namespace LowCardinality

theorem emplace_below {items : UniqueItems} {size position : Nat} (key : HashKey)
    (old : ∀ entry ∈ items, entry.2 < size) (inside : position < size) :
    ∀ entry ∈ items.emplace key position, entry.2 < size := by
  intro entry mem
  rw [UniqueItems.emplace] at mem
  split at mem
  · exact old entry mem
  · rcases mem_append.mp mem with mem | mem
    · exact old entry mem
    · rw [mem_singleton.mp mem]
      exact inside

/-- The lookup map of a loaded dictionary has positions of the dictionary only. -/
theorem uniqueItemsOf_below [Hashing] (dictionary : Dictionary) :
    ∀ entry ∈ uniqueItemsOf dictionary, entry.2 < dictionary.data.size := by
  rw [uniqueItemsOf]
  suffices built : ∀ (positions : List Nat) (items : UniqueItems),
      (∀ i ∈ positions, i < dictionary.data.size) →
      (∀ entry ∈ items, entry.2 < dictionary.data.size) →
      ∀ entry ∈ positions.foldl (fun items i =>
        items.emplace (((dictionary.item? i).getD .null).hashKey) i) items,
        entry.2 < dictionary.data.size by
    exact built _ _ (fun _ mem => mem_range.mp mem) (fun _ mem => absurd mem not_mem_nil)
  intro positions
  induction positions with
  | nil => exact fun _ _ old => old
  | cons i positions ih =>
    intro items inside old
    exact ih _ (fun j mem => inside j (mem_cons_of_mem _ mem))
      (emplace_below _ old (inside i (mem_cons_self ..)))

/-- The numbers below `n`. -/
def numbers (n : Nat) : ColumnVector 8 := (range n).map (Word.ofNat 8)

theorem getElem?_numbers {i : Nat} (below : i < n) : (numbers n)[i]? = some (Word.ofNat 8 i) := by
  rw [numbers, getElem?_map, getElem?_range below, Option.map_some]

/-- The numbers below `n` as they are loaded with an index of `UInt64`. -/
def numbersColumn [Hashing] (n : Nat) : LowCardinality where
  dictionary := ⟨.fixed .uint64 (numbers n), none⟩
  index := ⟨.uint64, numbers n⟩
  uniqueItems := uniqueItemsOf ⟨.fixed .uint64 (numbers n), none⟩

theorem intact_numbersColumn [Hashing] (n : Nat) : (numbersColumn n).Intact where
  dictionary := ⟨rfl, trivial, trivial, fun _ none => by cases none⟩
  positions := by
    intro word mem
    have mem : word ∈ numbers n := mem
    obtain ⟨i, isI, rfl⟩ := mem_map.mp mem
    have size : (numbersColumn n).dictionary.size = (numbers n).length := rfl
    rw [size, numbers, length_map, length_range]
    exact Nat.lt_of_le_of_lt (Word.toNat_ofNat_le ..) (mem_range.mp isI)
  table := uniqueItemsOf_below _

theorem item?_numbersColumn [Hashing] {i : Nat} (small : n < 2 ^ 64) (below : i < n) :
    (numbersColumn n).item? i = some ⟨.uint64, encodeLE 8 i⟩ := by
  have index : (numbersColumn n).dictionaryIndex? i = some i := by
    have number : (Word.ofNat 8 i).toNat = i := Word.toNat_ofNat (by omega)
    have read : (numbersColumn n).dictionaryIndex? i = ((numbers n)[i]?).map Word.toNat := rfl
    rw [read, getElem?_numbers below, Option.map_some, number]
  have key : (numbersColumn n).dictionary.item? i =
      (((numbers n)[i]?).map Subtype.val).map fun data => ⟨.uint64, data⟩ := rfl
  rw [getElem?_numbers below] at key
  rw [item?, index]
  exact key

theorem sliceItems_numbersColumn [Hashing] (small : n + 1 < 2 ^ 64) :
    (numbersColumn (n + 1)).sliceItems 0 (n + 1) =
      (LeafType.fixed .uint64).zeroItem :: (range n).map countedItem := by
  have each : (numbersColumn (n + 1)).sliceItems 0 (n + 1) =
      (range (n + 1)).map fun i => ⟨.uint64, encodeLE 8 i⟩ := by
    rw [sliceItems, ← range_eq_range', ← filterMap_eq_map]
    refine filterMap_congr fun i mem => ?_
    exact item?_numbersColumn small (mem_range.mp mem)
  rw [each, range_succ_eq_map, map_cons, map_map]
  rfl

theorem hashesApart_numbersColumn (small : n + 1 < 2 ^ 64) : letI : Hashing := countingHashing
    HashesApart ((LeafType.fixed .uint64).zeroItem ::
      (numbersColumn (n + 1)).sliceItems 0 (n + 1)) := by
  let _ : Hashing := countingHashing
  refine hashesApart_counting ?_
  intro item mem _
  rw [sliceItems_numbersColumn small] at mem
  rcases mem_cons.mp mem with rfl | mem
  · rfl
  · rcases mem_cons.mp mem with rfl | mem
    · rfl
    · obtain ⟨i, _, rfl⟩ := mem_map.mp mem
      exact length_encodeLE 8 (i + 1)

/-- The dictionary of the slice has the numbers in their order. -/
theorem stored_numbersColumn [Hashing] (small : n + 1 < 2 ^ 64) :
    ((numbersColumn (n + 1)).sliceItems 0 (n + 1)).foldl intern
        [(LeafType.fixed .uint64).zeroItem] =
      (LeafType.fixed .uint64).zeroItem :: (range n).map countedItem := by
  have distinct := nodup_counted (show n < 2 ^ 64 by omega)
  have numbers : ([(LeafType.fixed .uint64).zeroItem] ++ (range n).map countedItem).Nodup :=
    (nodup_cons.mp distinct).2
  rw [sliceItems_numbersColumn small, foldl_cons, intern, if_pos (mem_singleton_self _)]
  exact foldl_intern_of_nodup numbers

theorem not_addressed_numbersColumn [Hashing] (full : n + 1 = 2 ^ 32) :
    ¬ Addressed (.fixed .uint64) .uint32
      (((numbersColumn (n + 2)).sliceItems 0 (n + 2)).foldl intern
        [(LeafType.fixed .uint64).zeroItem]) (countedItem n) := by
  have distinct : ((LeafType.fixed .uint64).zeroItem ::
      (range (n + 1)).map countedItem).Nodup :=
    (nodup_cons.mp (nodup_counted (show n + 1 < 2 ^ 64 by omega))).2
  have position : ((LeafType.fixed .uint64).zeroItem ::
      (range (n + 1)).map countedItem).idxOf (countedItem n) = 2 ^ 32 := by
    have below : n + 1 < ((LeafType.fixed .uint64).zeroItem ::
        (range (n + 1)).map countedItem).length := by simp
    have last : ((LeafType.fixed .uint64).zeroItem ::
        (range (n + 1)).map countedItem)[n + 1] = countedItem n := by simp
    rw [← last, distinct.idxOf_getElem (n + 1) below, full]
  have wrapped : 2 ^ 32 % 256 ^ IndexType.uint32.width = 0 := by decide
  rintro ⟨other, found, value⟩
  rw [stored_numbersColumn (by omega), position, wrapped] at found
  cases found
  -- The default item is the number 0.
  have data : encodeLE 8 0 = encodeLE 8 (n + 1) := Option.some.inj value
  have same := congrArg decodeLE data
  rw [decodeLE_encodeLE (by decide), decodeLE_encodeLE (by omega)] at same
  omega

end LowCardinality

/-- With more than `2 ^ 32` items in a column that was loaded with an index of `UInt64`, the last
row of its slice reads as its first. -/
theorem Column.not_sliceLaw_numbersColumn :
    letI : Hashing := countingHashing
    ∃ column : Column, (column.Sound fun _ => True) ∧ column.NoNullableKeys ∧ column.KeysApart ∧
      ¬ ∃ column', column.SliceLaw (fun _ => True) 0 column.size column' := by
  let _ : Hashing := countingHashing
  obtain ⟨n, full⟩ : ∃ n, n + 1 = 2 ^ 32 := ⟨2 ^ 32 - 1, by decide⟩
  have rows : (numbersColumn (n + 2)).index.column.length = n + 2 := by
    show (numbers (n + 2)).length = n + 2
    rw [numbers, length_map, length_range]
  have sound : (lowCardinality (numbersColumn (n + 2))).Sound fun _ => True :=
    ⟨trivial, trivial, intact_numbersColumn _⟩
  have apart : (lowCardinality (numbersColumn (n + 2))).KeysApart := by
    show HashesApart (_ :: (numbersColumn (n + 2)).sliceItems 0 _)
    rw [rows]
    exact hashesApart_numbersColumn (by omega)
  refine ⟨.lowCardinality (numbersColumn (n + 2)), sound, rfl, apart, ?_⟩
  rw [size, rows]
  rintro ⟨column', law⟩
  obtain ⟨value, read, read'⟩ := law.rows (n + 1) (by omega)
  have inside : 0 + (n + 2) ≤ (lowCardinality (numbersColumn (n + 2))).size := by
    rw [size, rows]
    omega
  have kept := (sound.slice_row_iff rfl apart inside law.sliced
    (Nat.lt_succ_self _)).mp (read.trans read'.symm)
  rw [RowKept, Nat.zero_add, item?_numbersColumn (by omega) (Nat.lt_succ_self _)] at kept
  exact not_addressed_numbersColumn full (kept _ rfl)

end ClickHouse
