import ClickHouse.Columns.Intact
import ClickHouse.Columns.Members

/-!
# Sound columns

A column is sound if its component columns fit each other, so that every row of
it can be read.  `Slice`, `Clear` and `Swap` keep columns sound.  Unlike
`Consistent`, this does not fix where NULL stands in the dictionary of a
LowCardinality column, so slices are sound too.  Types are told apart by the
hashes of their names; `known` stands for types among which this is exact.
-/

namespace ClickHouse

open Kit Column

/-! ## Offsets -/

theorem getOffset_eq (offsets : ColumnVector 8) (n : Nat) :
    getOffset offsets n = ((0 :: offsets.map Word.toNat)[n]?).getD 0 := by
  cases n with
  | zero => rfl
  | succ n => simp [getOffset]

variable {n len start : Nat} {offsets : ColumnVector 8} {data data' column' : Column}
    {names : List Bytes} {columns columns' : List Column}

theorem getOffset_append_left (inside : n ≤ offsets.length) (others : ColumnVector 8) :
    getOffset (offsets ++ others) n = getOffset offsets n := by
  cases n with
  | zero => rfl
  | succ n => simp [getOffset, List.getElem?_append_left (Nat.lt_of_succ_le inside)]

theorem getOffset_lt (offsets : ColumnVector 8) (n : Nat) : getOffset offsets n < 2 ^ 64 := by
  unfold getOffset
  split
  · decide
  · cases offsets[n - 1]? with
    | none => decide
    | some word => exact word.toNat_lt

theorem ConsistentOffsets.mono {size : Nat} (consistent : ConsistentOffsets offsets size)
    {m : Nat} (le : m ≤ n) (inside : n ≤ offsets.length) :
    getOffset offsets m ≤ getOffset offsets n := by
  induction n, le using Nat.le_induction with
  | base => exact Nat.le_refl _
  | succ n _ ih => exact Nat.le_trans (ih (Nat.le_of_succ_le inside)) (consistent.1 n inside)

/-- Without wrapping around, `GetSize` is the difference of two offsets. -/
theorem ConsistentOffsets.getSize_eq {size : Nat} (consistent : ConsistentOffsets offsets size)
    (inside : n < offsets.length) :
    getSize offsets n = getOffset offsets (n + 1) - getOffset offsets n := by
  have increases := consistent.1 n inside
  have bound := getOffset_lt offsets (n + 1)
  unfold getSize
  omega

theorem isIncreasing_iff (previous : Nat) (offsets : ColumnVector 8) :
    isIncreasing previous offsets = true ↔
      List.IsChain (· ≤ ·) (previous :: offsets.map Word.toNat) := by
  induction offsets generalizing previous with
  | nil => simp [isIncreasing]
  | cons offset offsets ih => simp [isIncreasing, ih]

/-- What the constructor of an array checks of its offsets. -/
theorem isIncreasing_zero_iff (offsets : ColumnVector 8) :
    isIncreasing 0 offsets = true ↔
      ∀ n < offsets.length, getOffset offsets n ≤ getOffset offsets (n + 1) := by
  rw [isIncreasing_iff, List.isChain_iff_getElem]
  simp only [List.length_cons, List.length_map, getOffset_eq]
  constructor
  · intro chain n inside
    have step := chain n (by omega)
    rw [List.getElem?_eq_getElem (by simp; omega), List.getElem?_eq_getElem (by simp; omega)]
    exact step
  · intro each n inside
    have step := each n (by omega)
    rw [List.getElem?_eq_getElem (by simp; omega), List.getElem?_eq_getElem (by simp; omega)] at step
    exact step

/-- The constructor makes exactly the consistent arrays. -/
theorem arrayWithOffsets_of_consistent (consistent : ConsistentOffsets offsets data.size)
    (defined : data.sizeDefined = true) :
    arrayWithOffsets data offsets = .ok (.array data offsets) := by
  have increasing := (isIncreasing_zero_iff offsets).mpr consistent.1
  simp [arrayWithOffsets, increasing, checkSize, defined, consistent.2, bind, Except.bind]

theorem consistent_of_arrayWithOffsets {column : Column}
    (made : arrayWithOffsets data offsets = .ok column) :
    column = .array data offsets ∧ ConsistentOffsets offsets data.size := by
  simp only [arrayWithOffsets, checkSize, bind, Except.bind] at made
  split at made
  · cases made
  · rename_i increasing
    rw [Bool.not_eq_true', Bool.not_eq_false] at increasing
    split at made
    · cases made
    · rename_i checked
      split at checked
      · cases checked
        split at made
        · cases made
        · rename_i sizes
          cases made
          exact ⟨rfl, (isIncreasing_zero_iff offsets).mp increasing, (not_not.mp sizes).symm⟩
      · cases checked

/-! ### The offsets of a slice -/

theorem vectorAt_eq {data : ColumnVector 8} (inside : n < data.length) :
    vectorAt data n = .ok (getOffset data (n + 1)) := by
  simp [vectorAt, getOffset, List.getElem?_eq_getElem inside]

theorem checkedOffset_eq (inside : n ≤ offsets.length) :
    checkedOffset offsets n = .ok (getOffset offsets n) := by
  cases n with
  | zero => rfl
  | succ n => exact vectorAt_eq inside

theorem checkedRowSize_eq (inside : n < offsets.length) :
    checkedRowSize offsets n = .ok (getSize offsets n) := by
  simp only [checkedRowSize, vectorAt_eq inside, bind, Except.bind]
  cases n with
  | zero =>
    have bound := getOffset_lt offsets (0 + 1)
    have first : getOffset offsets 0 = 0 := rfl
    rw [if_pos rfl, getSize, first, Nat.sub_zero, Nat.add_mod_right, Nat.mod_eq_of_lt bound]
  | succ n =>
    simp only [Nat.succ_ne_zero, if_false, Nat.add_sub_cancel,
      vectorAt_eq (Nat.lt_of_succ_lt inside)]
    rfl

/-- The offsets of a slice are those of its rows, counted from the first of them. -/
theorem sliceOffsets_eq {offsets : ColumnVector 8} {size : Nat}
    (consistent : ConsistentOffsets offsets size) {start : Nat} :
    ∀ (len : Nat) {n : Nat}, start ≤ n → n + len ≤ offsets.length →
      sliceOffsets offsets n len (getOffset offsets n - getOffset offsets start) =
        .ok ((List.range' n len).map fun i =>
          Word.ofNat 8 (getOffset offsets (i + 1) - getOffset offsets start))
  | 0, _, _, _ => rfl
  | len + 1, n, after, inside => by
    have others := sliceOffsets_eq consistent len (Nat.le_succ_of_le after) (n := n + 1) (by omega)
    have below := consistent.mono after (by omega)
    have increases := consistent.1 n (by omega)
    have bound := getOffset_lt offsets (n + 1)
    have next : (getOffset offsets n - getOffset offsets start + getSize offsets n) % 2 ^ 64 =
        getOffset offsets (n + 1) - getOffset offsets start := by
      rw [consistent.getSize_eq (by omega)]
      omega
    simp only [sliceOffsets, wrapPosition_eq (show n ≤ offsets.length by omega),
      checkedRowSize_eq (show n < offsets.length by omega), bind, Except.bind, next, others]
    rfl

theorem getOffset_sliced {i : Nat} (inside : i ≤ len) :
    getOffset ((List.range' start len).map fun i =>
      Word.ofNat 8 (getOffset offsets (i + 1) - getOffset offsets start)) i =
      getOffset offsets (start + i) - getOffset offsets start := by
  cases i with
  | zero => simp [getOffset]
  | succ i =>
    have bound := getOffset_lt offsets (start + i + 1)
    have word : (Word.ofNat 8 (getOffset offsets (start + i + 1) - getOffset offsets start)).toNat =
        getOffset offsets (start + i + 1) - getOffset offsets start :=
      Word.toNat_ofNat (by omega)
    have row : (List.range' start len)[i]? = some (start + i) := by
      rw [List.getElem?_range' (by omega), Nat.one_mul]
    rw [getOffset, if_neg (Nat.succ_ne_zero i), Nat.add_sub_cancel, List.getElem?_map, row]
    exact word

/-! ## Sound columns -/

/-- The rows of the column have a length and fill its data. -/
structure Leaf.Whole (leaf : Leaf) : Prop where
  positive : leaf.type.Positive
  aligned : leaf.Aligned

/-- The types the wrappers of the factory are made for. -/
def LeafType.IsText : LeafType → Prop
  | .string => True
  | .fixedString size => size < 2 ^ 64
  | _ => False

section Sound

variable (known : Ty → Prop)

mutual

def Column.Sound : Column → Prop
  | .leaf column => known (.leaf column.type) ∧ column.Whole
  | .array data offsets =>
    known (.array data.type) ∧ ConsistentOffsets offsets data.size ∧ data.Sound
  | .nullable nested nulls =>
    known (.nullable nested.type) ∧ nested.size = nulls.length ∧ nested.Sound
  | .tuple columns names =>
    known (.tuple (types columns) names) ∧ names.any List.isEmpty = false ∧
      AllSound columns (firstSize columns)
  | .map data =>
    known (getMapType data.type) ∧
      (∃ key value names, data.type = .array (.tuple [key, value] names)) ∧ data.Sound
  | .lowCardinality column =>
    known (.lowCardinality column.dictionary.type) ∧ known column.dictionary.type ∧ column.Intact
  | .geo kind data => known (.geo kind) ∧ data.type.layout = kind.dataType.layout ∧ data.Sound
  | .adaptor column => known (.leaf column.type) ∧ column.Whole ∧ column.type.IsText

/-- Every column is sound and has the given number of rows. -/
def Column.AllSound : List Column → Nat → Prop
  | [], _ => True
  | column :: columns, rows => column.size = rows ∧ column.Sound ∧ AllSound columns rows

end

end Sound

variable {known : Ty → Prop}

theorem Column.Sound.isKnown {column : Column} (sound : column.Sound known) : known column.type := by
  cases column <;> exact sound.1

theorem LeafType.Positive.sizeDefined {column : Leaf} (positive : column.type.Positive) :
    (leaf column).sizeDefined = true ∧ (adaptor column).sizeDefined = true := by
  cases column with
  | fixedString column =>
    exact ⟨bne_iff_ne.mpr (Nat.ne_of_gt positive), bne_iff_ne.mpr (Nat.ne_of_gt positive)⟩
  | _ => exact ⟨rfl, rfl⟩

/-- The size of a sound column is defined. -/
theorem Column.Sound.sizeDefined : ∀ {column : Column}, column.Sound known →
    column.sizeDefined = true
  | .leaf _, sound => sound.2.positive.sizeDefined.1
  | .array _ _, _ => rfl
  | .nullable _ _, _ => rfl
  | .tuple [] _, _ => rfl
  | .tuple (column :: _) _, sound =>
    (Sound.sizeDefined sound.2.2.2.1 : column.sizeDefined = true)
  | .map data, sound => (Sound.sizeDefined sound.2.2 : data.sizeDefined = true)
  | .lowCardinality _, _ => rfl
  | .geo _ data, sound => (Sound.sizeDefined sound.2.2 : data.sizeDefined = true)
  | .adaptor _, sound => sound.2.1.positive.sizeDefined.2

theorem Column.Sound.checkSize_eq {column : Column} (sound : column.Sound known) :
    checkSize column = .ok column :=
  if_pos sound.sizeDefined

theorem Column.length_types (columns : List Column) :
    (types columns).length = columns.length := by
  induction columns with
  | nil => rfl
  | cons column columns ih => rw [types, List.length_cons, List.length_cons, ih]

theorem Column.Sound.type_map (sound : (map data).Sound known) :
    ∃ key value names, data.type = .array (.tuple [key, value] names) ∧
      (map data).type = .map key value := by
  obtain ⟨key, value, names, pairs⟩ := sound.2.1
  refine ⟨key, value, names, pairs, ?_⟩
  rw [type, pairs]
  rfl

/-! A sound column is of the class its type names, or the adaptor of such a column. -/

section Classes

variable {column : Column} (sound : column.Sound known)

include sound

theorem Column.Sound.leaf_of_type {type : LeafType} (own : column.type = .leaf type) :
    (∃ leaf, column = .leaf leaf ∧ leaf.type = type) ∨
      ∃ leaf, column = .adaptor leaf ∧ leaf.type = type := by
  cases column with
  | leaf leaf => exact .inl ⟨leaf, rfl, Ty.leaf.inj own⟩
  | adaptor leaf => exact .inr ⟨leaf, rfl, Ty.leaf.inj own⟩
  | map data =>
    obtain ⟨_, _, _, _, type⟩ := sound.type_map
    cases type.symm.trans own
  | _ => simp [Column.type] at own

theorem Column.Sound.array_of_type {item : Ty} (own : column.type = .array item) :
    ∃ data offsets, column = .array data offsets ∧ data.type = item := by
  cases column with
  | array data offsets => exact ⟨data, offsets, rfl, Ty.array.inj own⟩
  | map data =>
    obtain ⟨_, _, _, _, type⟩ := sound.type_map
    cases type.symm.trans own
  | _ => simp [type] at own

theorem Column.Sound.nullable_of_type {item : Ty} (own : column.type = .nullable item) :
    ∃ nested nulls, column = .nullable nested nulls ∧ nested.type = item := by
  cases column with
  | nullable nested nulls => exact ⟨nested, nulls, rfl, Ty.nullable.inj own⟩
  | map data =>
    obtain ⟨_, _, _, _, type⟩ := sound.type_map
    cases type.symm.trans own
  | _ => simp [type] at own

theorem Column.Sound.tuple_of_type {items : List Ty} (own : column.type = .tuple items names) :
    ∃ columns, column = .tuple columns names ∧ types columns = items := by
  cases column with
  | tuple columns names =>
    cases own
    exact ⟨columns, rfl, rfl⟩
  | map data =>
    obtain ⟨_, _, _, _, type⟩ := sound.type_map
    cases type.symm.trans own
  | _ => simp [type] at own

theorem Column.Sound.map_of_type {key value : Ty} (own : column.type = .map key value) :
    ∃ data names, column = .map data ∧ data.type = .array (.tuple [key, value] names) := by
  cases column with
  | map data =>
    obtain ⟨_, _, names, pairs, type⟩ := sound.type_map
    cases type.symm.trans own
    exact ⟨data, names, rfl, pairs⟩
  | _ => simp [type] at own

theorem Column.Sound.lowCardinality_of_type {nested : Ty} (own : column.type = .lowCardinality nested) :
    ∃ inner, column = .lowCardinality inner ∧ inner.dictionary.type = nested := by
  cases column with
  | lowCardinality inner => exact ⟨inner, rfl, Ty.lowCardinality.inj own⟩
  | map data =>
    obtain ⟨_, _, _, _, type⟩ := sound.type_map
    cases type.symm.trans own
  | _ => simp [type] at own

theorem Column.Sound.geo_of_type {kind : GeoKind} (own : column.type = .geo kind) :
    ∃ data, column = .geo kind data := by
  cases column with
  | geo kind data =>
    cases own
    exact ⟨data, rfl⟩
  | map data =>
    obtain ⟨_, _, _, _, type⟩ := sound.type_map
    cases type.symm.trans own
  | _ => simp [type] at own

end Classes

theorem Column.AllSound.first {rows : Nat} (sound : AllSound known columns rows) :
    AllSound known columns (firstSize columns) := by
  cases columns with
  | nil => trivial
  | cons column columns =>
    obtain ⟨rfl, own, others⟩ := sound
    exact ⟨rfl, own, others⟩

/-! ### Other components

A column stays sound and of its type when its components are replaced by sound ones of their types
that fit each other. -/

/-- `column'` is a sound column of the type of `column`. -/
structure Column.Remade (known : Ty → Prop) (column column' : Column) : Prop where
  sound : column'.Sound known
  sameType : column'.type = column.type

namespace Column.Remade

theorem ofLeaf {own own' : Leaf} (sound : (leaf own).Sound known)
    (type : own'.type = own.type) (aligned : own'.Aligned) :
    Remade known (.leaf own) (.leaf own') where
  sound := by
    rw [Sound, type]
    exact ⟨sound.1, type ▸ sound.2.positive, aligned⟩
  sameType := by rw [Column.type, Column.type, type]

theorem ofAdaptor {own own' : Leaf} (sound : (adaptor own).Sound known)
    (type : own'.type = own.type) (aligned : own'.Aligned) :
    Remade known (.adaptor own) (.adaptor own') where
  sound := by
    rw [Sound, type]
    exact ⟨sound.1, ⟨type ▸ sound.2.1.positive, aligned⟩, sound.2.2⟩
  sameType := by rw [Column.type, Column.type, type]

theorem ofArray {offsets' : ColumnVector 8} (sound : (array data offsets).Sound known)
    (items : Remade known data data') (consistent : ConsistentOffsets offsets' data'.size) :
    Remade known (.array data offsets) (.array data' offsets') where
  sound := by
    rw [Sound, items.sameType]
    exact ⟨sound.1, consistent, items.sound⟩
  sameType := by rw [type, type, items.sameType]

theorem ofNullable {nested nested' : Column} {nulls nulls' : ColumnVector 1}
    (sound : (nullable nested nulls).Sound known) (items : Remade known nested nested')
    (sizes : nested'.size = nulls'.length) :
    Remade known (.nullable nested nulls) (.nullable nested' nulls') where
  sound := by
    rw [Sound, items.sameType]
    exact ⟨sound.1, sizes, items.sound⟩
  sameType := by rw [type, type, items.sameType]

theorem ofTuple {rows : Nat} (sound : (tuple columns names).Sound known)
    (types : types columns' = types columns)
    (each : AllSound known columns' rows) :
    Remade known (.tuple columns names) (.tuple columns' names) where
  sound := by
    rw [Sound, types]
    exact ⟨sound.1, sound.2.1, each.first⟩
  sameType := by rw [type, type, types]

theorem ofMap (sound : (map data).Sound known) (pairs : Remade known data data') :
    Remade known (.map data) (.map data') where
  sound := by
    rw [Sound, pairs.sameType]
    exact ⟨sound.1, sound.2.1, pairs.sound⟩
  sameType := by rw [type, type, pairs.sameType]

theorem ofLowCardinality {column column' : LowCardinality}
    (sound : (lowCardinality column).Sound known)
    (type : column'.dictionary.type = column.dictionary.type) (intact : column'.Intact) :
    Remade known (.lowCardinality column) (.lowCardinality column') where
  sound := by
    rw [Sound, type]
    exact ⟨sound.1, sound.2.1, intact⟩
  sameType := by rw [Column.type, Column.type, type]

theorem ofGeo {kind : GeoKind} (sound : (geo kind data).Sound known)
    (items : Remade known data data') : Remade known (.geo kind data) (.geo kind data') where
  sound := by
    rw [Sound, items.sameType]
    exact ⟨sound.1, sound.2.1, items.sound⟩
  sameType := rfl

end Column.Remade

/-! ## The rows of all component columns -/

mutual

/-- How many rows the component columns have for the rows from `first` to `last`. -/
def Column.span : Column → Nat → Nat → Nat
  | .leaf _, first, last => last - first
  | .array data offsets, first, last =>
    last - first + data.span (getOffset offsets first) (getOffset offsets last)
  | .nullable nested _, first, last => nested.span first last
  | .tuple columns _, first, last => spans columns first last
  | .map data, first, last => data.span first last
  | .lowCardinality _, first, last => last - first
  | .geo _ data, first, last => data.span first last
  | .adaptor _, first, last => last - first

def Column.spans : List Column → Nat → Nat → Nat
  | [], _, _ => 0
  | column :: columns, first, last => column.span first last + spans columns first last

end

/-- How many rows the column has, counted with those of its component columns. -/
def Column.total (column : Column) : Nat := column.span 0 column.size

mutual

theorem Column.Sound.span_add : ∀ {column : Column}, column.Sound known → ∀ {first middle last : Nat},
    first ≤ middle → middle ≤ last → last ≤ column.size →
    column.span first middle + column.span middle last = column.span first last
  | .leaf _, _, _, _, _, le, le', _ => by
    simp only [span]
    omega
  | .array data offsets, sound, first, middle, last, le, le', inside => by
    have consistent := sound.2.1
    have inside : last ≤ offsets.length := inside
    have nested := Sound.span_add sound.2.2 (consistent.mono le (by omega))
      (consistent.mono le' inside) (consistent.le_size inside)
    simp only [span]
    omega
  | .nullable nested nulls, sound, first, middle, last, le, le', inside => by
    have within : last ≤ nested.size := by
      rw [sound.2.1]
      exact inside
    have nested := Sound.span_add sound.2.2 le le' within
    simpa only [span] using nested
  | .tuple columns names, sound, _, _, _, le, le', inside =>
    AllSound.spans_add sound.2.2 le le' inside
  | .map data, sound, _, _, _, le, le', inside =>
    Sound.span_add sound.2.2 le le' (show _ ≤ data.size from inside)
  | .lowCardinality _, _, _, _, _, le, le', _ => by
    simp only [span]
    omega
  | .geo _ data, sound, _, _, _, le, le', inside =>
    Sound.span_add sound.2.2 le le' (show _ ≤ data.size from inside)
  | .adaptor _, _, _, _, _, le, le', _ => by
    simp only [span]
    omega

theorem Column.AllSound.spans_add : ∀ {columns : List Column} {rows : Nat},
    AllSound known columns rows → ∀ {first middle last : Nat}, first ≤ middle →
    middle ≤ last → last ≤ rows →
    spans columns first middle + spans columns middle last =
      spans columns first last
  | [], _, _, _, _, _, _, _, _ => rfl
  | column :: columns, rows, sound, _, _, _, le, le', inside => by
    obtain ⟨size, own, others⟩ := sound
    have first := Sound.span_add own le le' (size ▸ inside)
    have rest := AllSound.spans_add others le le' inside
    simp only [spans]
    omega

end

/-- A column has no more rows than are counted with its component columns. -/
theorem Column.Sound.size_le_total : ∀ {column : Column}, column.Sound known →
    column.size ≤ column.total
  | .leaf _, _ => Nat.le_refl _
  | .array _ _, _ => Nat.le_add_right ..
  | .nullable nested nulls, sound => by
    have own : nested.size ≤ nested.total := Sound.size_le_total sound.2.2
    rw [total, sound.2.1] at own
    exact own
  | .tuple [] _, _ => Nat.le_refl _
  | .tuple (column :: columns) _, sound => by
    have first : column.size ≤ column.total := Sound.size_le_total sound.2.2.2.1
    exact Nat.le_trans first (Nat.le_add_right ..)
  | .map data, sound => (Sound.size_le_total sound.2.2 : data.size ≤ data.total)
  | .lowCardinality _, _ => Nat.le_refl _
  | .geo _ data, sound => (Sound.size_le_total sound.2.2 : data.size ≤ data.total)
  | .adaptor _, _ => Nat.le_refl _

/-! ## Slices -/

/-- `column'` has the rows of `column` from `start` on, `len` of them. -/
structure Column.IsSlice (known : Ty → Prop) (column : Column) (start len : Nat)
    (column' : Column) : Prop where
  sound : column'.Sound known
  sameType : column'.type = column.type
  size : column'.size = len
  span : ∀ {first last : Nat}, first ≤ last → last ≤ len →
    column'.span first last = column.span (start + first) (start + last)

theorem Column.IsSlice.remade {column : Column} (isSlice : column.IsSlice known start len column') :
    column.Remade known column' :=
  ⟨isSlice.sound, isSlice.sameType⟩

theorem Column.Remade.isSlice {column : Column} (remade : column.Remade known column')
    (size : column'.size = len)
    (span : ∀ {first last : Nat}, first ≤ last → last ≤ len →
      column'.span first last = column.span (start + first) (start + last)) :
    column.IsSlice known start len column' :=
  ⟨remade.sound, remade.sameType, size, span⟩

theorem Column.IsSlice.total {column : Column} (isSlice : column.IsSlice known start len column') :
    column'.total = column.span start (start + len) := by
  rw [Column.total, isSlice.size, isSlice.span (Nat.zero_le _) (Nat.le_refl _), Nat.add_zero]

theorem Leaf.Whole.slice {leaf : Leaf} (whole : leaf.Whole) {start len : Nat}
    (inside : start + len ≤ leaf.size) :
    ∃ leaf', leaf.slice start len = .ok leaf' ∧ leaf'.type = leaf.type ∧ leaf'.Whole ∧
      leaf'.size = len := by
  cases leaf with
  | fixed type data =>
    have inside : start + len ≤ data.length := inside
    refine ⟨_, rfl, rfl, ⟨trivial, trivial⟩, ?_⟩
    simp only [Leaf.size, List.length_take, List.length_drop]
    omega
  | fixedString column =>
    have positive : 0 < column.stringSize := whole.positive
    have inside : (start + len) * column.stringSize ≤ column.data.length :=
      (Nat.le_div_iff_mul_le positive).mp inside
    rw [Nat.add_mul] at inside
    have length : (column.slice start len).data.length = len * column.stringSize := by
      simp only [FixedStrings.slice, List.length_take, List.length_drop]
      omega
    refine ⟨_, if_neg (Nat.ne_of_gt positive), rfl, ⟨positive, ?_⟩, ?_⟩
    · show column.stringSize ∣ (column.slice start len).data.length
      rw [length]
      exact Nat.dvd_mul_left ..
    · show (column.slice start len).data.length / column.stringSize = len
      rw [length, Nat.mul_div_cancel _ positive]
  | string items =>
    have inside : start + len ≤ items.length := inside
    refine ⟨_, rfl, rfl, ⟨trivial, trivial⟩, ?_⟩
    simp only [Leaf.size, List.length_take, List.length_drop]
    omega
  | json items =>
    have inside : start + len ≤ items.length := inside
    refine ⟨_, rfl, rfl, ⟨trivial, trivial⟩, ?_⟩
    simp only [Leaf.size, List.length_take, List.length_drop]
    omega
  | nothing size => exact ⟨_, rfl, rfl, ⟨trivial, trivial⟩, rfl⟩

/-- A slice of a column without component columns. -/
theorem Column.isSlice_leaf {column : Column} {leaf leaf' : Leaf}
    (isKnown : known (.leaf leaf.type)) (whole : leaf'.Whole)
    (type : column.type = .leaf leaf.type)
    (span : ∀ first last, column.span first last = last - first)
    (sameType : leaf'.type = leaf.type) (size : leaf'.size = len) :
    column.IsSlice known start len (.leaf leaf') where
  sound := by
    rw [Column.Sound, sameType]
    exact ⟨isKnown, whole⟩
  sameType := by rw [Column.type, sameType, type]
  size := size
  span := by
    intro first last _ _
    rw [span, Column.span]
    omega

/-- The offsets of a slice of an array. -/
def slicedOffsets (offsets : ColumnVector 8) (start len : Nat) : ColumnVector 8 :=
  (List.range' start len).map fun i =>
    Word.ofNat 8 (getOffset offsets (i + 1) - getOffset offsets start)

@[simp] theorem length_slicedOffsets (offsets : ColumnVector 8) (start len : Nat) :
    (slicedOffsets offsets start len).length = len := by
  simp [slicedOffsets]

theorem ConsistentOffsets.sliced {size : Nat} (consistent : ConsistentOffsets offsets size)
    (inside : start + len ≤ offsets.length) :
    ConsistentOffsets (slicedOffsets offsets start len)
      (getOffset offsets (start + len) - getOffset offsets start) := by
  constructor
  · intro n below
    rw [length_slicedOffsets] at below
    have step := consistent.1 (start + n) (by omega)
    rw [slicedOffsets, getOffset_sliced (by omega), getOffset_sliced (by omega)]
    exact Nat.sub_le_sub_right step _
  · rw [length_slicedOffsets, slicedOffsets, getOffset_sliced (Nat.le_refl _)]

variable [Hashing]

/-- The slice of an array, given that of its data. -/
theorem Column.slice_array_eq {size : Nat} (consistent : ConsistentOffsets offsets size)
    (inside : start + len ≤ offsets.length)
    (sliced : data.slice (getOffset offsets start)
      (getOffset offsets (start + len) - getOffset offsets start) = .ok data')
    (rows : data'.size = getOffset offsets (start + len) - getOffset offsets start)
    (defined : data'.sizeDefined = true) :
    (array data offsets).slice start len =
      .ok (.array data' (slicedOffsets offsets start len)) := by
  have increases := consistent.mono (Nat.le_add_right start len) inside
  have bound := getOffset_lt offsets (start + len)
  have fits : ¬ (len ≠ 0 ∧ offsets.length < start + len) := fun more =>
    absurd inside (Nat.not_le.mpr more.2)
  have length : (getOffset offsets (start + len) + 2 ^ 64 - getOffset offsets start) % 2 ^ 64 =
      getOffset offsets (start + len) - getOffset offsets start := by omega
  have offsets' := sliceOffsets_eq consistent len (Nat.le_refl start) inside
  rw [Nat.sub_self] at offsets'
  simp only [slice, wrapPosition_eq inside, fits, if_false, checkedOffset_eq inside,
    checkedOffset_eq (Nat.le_of_add_right_le inside), bind, Except.bind, length, sliced, offsets']
  exact arrayWithOffsets_of_consistent (rows ▸ consistent.sliced inside) defined

/-- The slice of a nullable column, given that of its nested column. -/
theorem Column.slice_nullable_eq {nested nested' : Column} {nulls : ColumnVector 1}
    (sliced : nested.slice start len = .ok nested') (defined : checkSize nested' = .ok nested')
    (sizes : nested'.size = ((nulls.drop start).take len).length) :
    (nullable nested nulls).slice start len =
      .ok (.nullable nested' ((nulls.drop start).take len)) := by
  simp [slice, sliced, nullableWithNulls, defined, sizes, bind, Except.bind]

/-- The slice of a tuple, given those of its columns. -/
theorem Column.slice_tuple_eq (sliced : sliceAll columns start len = .ok columns')
    (named : names.any List.isEmpty = false) :
    (tuple columns names).slice start len = .ok (.tuple columns' names) := by
  simp [slice, sliced, createNamedTuple, named, bind, Except.bind]

theorem Column.slice_array (sound : (array data offsets).Sound known)
    (inside : start + len ≤ offsets.length)
    (sliced : data.slice (getOffset offsets start)
      (getOffset offsets (start + len) - getOffset offsets start) = .ok data')
    (isSlice : data.IsSlice known (getOffset offsets start)
      (getOffset offsets (start + len) - getOffset offsets start) data') :
    ∃ column', (array data offsets).slice start len = .ok column' ∧
      (array data offsets).IsSlice known start len column' := by
  have consistent := sound.2.1
  have consistent' : ConsistentOffsets (slicedOffsets offsets start len) data'.size :=
    isSlice.size.symm ▸ consistent.sliced inside
  have remade := Remade.ofArray sound isSlice.remade consistent'
  refine ⟨_, slice_array_eq consistent inside sliced isSlice.size isSlice.sound.sizeDefined,
    remade.isSlice (length_slicedOffsets ..) ?_⟩
  intro first last le within
  have first' := consistent.mono (Nat.le_add_right start first) (by omega)
  have last' := consistent.mono (Nat.le_add_right start last) (by omega)
  have between := consistent.mono (Nat.add_le_add_left le start) (by omega)
  have end' := consistent.mono (Nat.add_le_add_left within start) inside
  rw [span, span, slicedOffsets, getOffset_sliced (Nat.le_trans le within),
    getOffset_sliced within, isSlice.span (by omega) (by omega)]
  congr 1
  · omega
  · congr 1 <;> omega

/-- What slices of the columns of a tuple have in common. -/
structure Column.AreSlices (known : Ty → Prop) (columns : List Column) (start len : Nat)
    (columns' : List Column) : Prop where
  sound : AllSound known columns' len
  sameTypes : types columns' = types columns
  spans : ∀ {first last : Nat}, first ≤ last → last ≤ len →
    spans columns' first last = spans columns (start + first) (start + last)

omit [Hashing] in
theorem Column.AreSlices.tuple (slices : AreSlices known columns start len columns')
    (sound : (tuple columns names).Sound known)
    (inside : start + len ≤ firstSize columns) :
    (tuple columns names).IsSlice known start len (.tuple columns' names) := by
  refine Remade.isSlice (.ofTuple sound slices.sameTypes slices.sound) ?_ slices.spans
  cases columns' with
  | nil =>
    cases columns with
    | nil =>
      rw [firstSize] at inside
      exact (Nat.le_zero.mp (Nat.le_trans (Nat.le_add_left ..) inside)).symm
    | cons column columns => cases slices.sameTypes
  | cons column columns' => exact slices.sound.1

mutual

/-- The rows of a sound column can be sliced. -/
theorem Column.Sound.slice : ∀ {column : Column}, column.Sound known → ∀ {start len : Nat},
    start + len ≤ column.size → ∃ column', column.slice start len = .ok column' ∧
      column.IsSlice known start len column'
  | .leaf own, sound, start, len, inside => by
    obtain ⟨own', sliced, type, whole, size⟩ := sound.2.slice inside
    refine ⟨.leaf own', ?_, isSlice_leaf sound.1 whole rfl (fun _ _ => rfl) type size⟩
    rw [slice, sliced]
    rfl
  | .array data offsets, sound, start, len, inside => by
    have inside : start + len ≤ offsets.length := inside
    have consistent := sound.2.1
    have increases := consistent.mono (Nat.le_add_right start len) inside
    have within : getOffset offsets start +
        (getOffset offsets (start + len) - getOffset offsets start) ≤ data.size := by
      have last := consistent.le_size inside
      omega
    obtain ⟨data', sliced, isSlice⟩ := Sound.slice sound.2.2 within
    exact slice_array sound inside sliced isSlice
  | .nullable nested nulls, sound, start, len, inside => by
    have inside : start + len ≤ nulls.length := inside
    obtain ⟨nested', sliced, isSlice⟩ := Sound.slice sound.2.2 (sound.2.1.symm ▸ inside)
    have rows : ((nulls.drop start).take len).length = len := by
      rw [List.length_take, List.length_drop]
      omega
    have sizes' : nested'.size = ((nulls.drop start).take len).length :=
      isSlice.size.trans rows.symm
    have remade := Remade.ofNullable sound isSlice.remade sizes'
    exact ⟨_, slice_nullable_eq sliced isSlice.sound.checkSize_eq sizes',
      remade.isSlice rows isSlice.span⟩
  | .tuple columns names, sound, start, len, inside => by
    obtain ⟨columns', sliced, slices⟩ := AllSound.slice sound.2.2 inside
    exact ⟨_, slice_tuple_eq sliced sound.2.1, slices.tuple sound inside⟩
  | .map data, sound, start, len, inside => by
    obtain ⟨data', sliced, isSlice⟩ :=
      Sound.slice sound.2.2 (show _ ≤ data.size from inside)
    have remade := Remade.ofMap sound isSlice.remade
    refine ⟨.map data', ?_, remade.isSlice isSlice.size isSlice.span⟩
    rw [slice, sliced]
    rfl
  | .lowCardinality column, sound, start, len, inside => by
    obtain ⟨column', sliced, intact, type, size⟩ := sound.2.2.slice inside
    have remade := Remade.ofLowCardinality sound type intact
    refine ⟨.lowCardinality column', ?_, remade.isSlice size ?_⟩
    · rw [slice, sliced]
      rfl
    · intro first last _ _
      rw [span, span]
      omega
  | .geo kind data, sound, start, len, inside => by
    obtain ⟨data', sliced, isSlice⟩ :=
      Sound.slice sound.2.2 (show _ ≤ data.size from inside)
    have remade := Remade.ofGeo sound isSlice.remade
    refine ⟨.geo kind data', ?_, remade.isSlice isSlice.size isSlice.span⟩
    rw [slice, sliced]
    rfl
  | .adaptor own, sound, start, len, inside => by
    obtain ⟨own', sliced, type, whole, size⟩ := sound.2.1.slice inside
    refine ⟨.leaf own', ?_, isSlice_leaf sound.1 whole rfl (fun _ _ => rfl) type size⟩
    rw [slice, sliced]
    rfl

theorem Column.AllSound.slice : ∀ {columns : List Column} {rows : Nat},
    AllSound known columns rows → ∀ {start len : Nat}, start + len ≤ rows →
    ∃ columns', sliceAll columns start len = .ok columns' ∧
      AreSlices known columns start len columns'
  | [], _, _, _, _, _ => ⟨[], rfl, trivial, rfl, fun _ _ => rfl⟩
  | column :: columns, rows, sound, start, len, inside => by
    obtain ⟨size, own, others⟩ := sound
    obtain ⟨column', sliced, isSlice⟩ := Sound.slice own (size.symm ▸ inside)
    obtain ⟨columns', sliced', slices⟩ := AllSound.slice others inside
    refine ⟨column' :: columns', ?_, ⟨isSlice.size, isSlice.sound, slices.sound⟩, ?_, ?_⟩
    · simp only [sliceAll, sliced, sliced', bind, Except.bind]
    · rw [types, types, isSlice.sameType, slices.sameTypes]
    · intro first last le within
      rw [spans, spans, isSlice.span le within, slices.spans le within]

end

/-! ## Clear -/

mutual

/-- `Clear` leaves a sound column without rows. -/
theorem Column.Sound.clear : ∀ {column : Column}, column.Sound known →
    ∃ column', column.clear = .ok () column' ∧ column.Remade known column' ∧ column'.size = 0
  | .leaf own, sound =>
    ⟨.leaf own.cloneEmpty, rfl, .ofLeaf sound own.type_cloneEmpty own.aligned_cloneEmpty,
      own.size_cloneEmpty⟩
  | .array data offsets, sound => by
    obtain ⟨data', cleared, remade, size⟩ := Sound.clear sound.2.2
    refine ⟨.array data' [], ?_, .ofArray sound remade ⟨nofun, size.symm⟩, rfl⟩
    rw [clear, cleared]
    rfl
  | .nullable nested nulls, sound => by
    obtain ⟨nested', cleared, remade, size⟩ := Sound.clear sound.2.2
    refine ⟨.nullable nested' [], ?_, .ofNullable sound remade size, rfl⟩
    rw [clear, cleared]
  | .tuple columns names, sound => by
    obtain ⟨columns', cleared, own, types⟩ := AllSound.clear sound.2.2
    refine ⟨.tuple columns' names, ?_, .ofTuple sound types own, ?_⟩
    · rw [clear, cleared]
      rfl
    · cases columns' with
      | nil => rfl
      | cons column columns' => exact own.1
  | .map data, sound => by
    obtain ⟨data', cleared, remade, size⟩ := Sound.clear sound.2.2
    refine ⟨.map data', ?_, .ofMap sound remade, size⟩
    rw [clear, cleared]
    rfl
  | .lowCardinality column, sound => by
    obtain ⟨column', cleared, intact, type, size⟩ := sound.2.2.clear
    unfold Runs at cleared
    refine ⟨.lowCardinality column', ?_, .ofLowCardinality sound type intact, size⟩
    rw [clear, cleared]
    rfl
  | .geo kind data, sound => by
    obtain ⟨data', cleared, remade, size⟩ := Sound.clear sound.2.2
    refine ⟨.geo kind data', ?_, .ofGeo sound remade, size⟩
    rw [clear, cleared]
    rfl
  | .adaptor own, sound =>
    ⟨.adaptor own.cloneEmpty, rfl, .ofAdaptor sound own.type_cloneEmpty own.aligned_cloneEmpty,
      own.size_cloneEmpty⟩

theorem Column.AllSound.clear : ∀ {columns : List Column} {rows : Nat},
    AllSound known columns rows → ∃ columns', clearAll columns = .ok () columns' ∧
      AllSound known columns' 0 ∧ types columns' = types columns
  | [], _, _ => ⟨[], rfl, trivial, rfl⟩
  | column :: columns, rows, sound => by
    obtain ⟨_, own, others⟩ := sound
    obtain ⟨column', cleared, remade, size⟩ := Sound.clear own
    obtain ⟨columns', cleared', others', types⟩ := AllSound.clear others
    refine ⟨column' :: columns', ?_, ⟨size, remade.sound, others'⟩, ?_⟩
    · rw [clearAll, cleared, cleared']
      rfl
    · rw [Column.types, Column.types, remade.sameType, types]

end

/-! ## Swap -/

/-- The types are the same but for the names of a tuple, as those of the pairs of a map. -/
inductive Swappable : Ty → Ty → Prop
  | same (type : Ty) : Swappable type type
  | array {type other : Ty} (items : Swappable type other) : Swappable (.array type) (.array other)
  | tuple (items : List Ty) (names names' : List Bytes) :
    Swappable (.tuple items names) (.tuple items names')

/-- Two columns that exchanged their rows. -/
structure Column.Swapped (known : Ty → Prop) (left right left' right' : Column) : Prop where
  leftSound : left'.Sound known
  rightSound : right'.Sound known
  leftType : left'.type = left.type
  rightType : right'.type = right.type
  leftSize : left'.size = right.size
  rightSize : right'.size = left.size

section

omit [Hashing]

variable {left right left' right' : Column}

theorem Column.Remade.swapped (remade : left.Remade known left') (remade' : right.Remade known right')
    (leftSize : left'.size = right.size) (rightSize : right'.size = left.size) :
    Swapped known left right left' right' :=
  ⟨remade.sound, remade'.sound, remade.sameType, remade'.sameType, leftSize, rightSize⟩

theorem Column.Swapped.leftRemade (exchange : Swapped known left right left' right') :
    left.Remade known left' :=
  ⟨exchange.leftSound, exchange.leftType⟩

theorem Column.Swapped.rightRemade (exchange : Swapped known left right left' right') :
    right.Remade known right' :=
  ⟨exchange.rightSound, exchange.rightType⟩

theorem recast_self {w : Nat} (same : w = w) (data : ColumnVector w) : recast same data = data :=
  List.map_id data

theorem FixedType.swapError_self (type : FixedType) : type.swapError type = none := by
  cases type <;> simp [FixedType.swapError]

/-- Columns of the same type exchange all they have. -/
theorem Leaf.swap_eq {left right : Leaf} (same : left.type = right.type) :
    left.swap right = .ok (right, left) := by
  cases left with
  | fixed type data =>
    cases right with
    | fixed other data' =>
      cases same
      simp [Leaf.swap, FixedType.swapError_self, recast_self]
    | _ => cases same
  | fixedString column =>
    cases right with
    | fixedString other => exact if_neg (not_not.mpr (LeafType.fixedString.inj same))
    | _ => cases same
  | string items =>
    cases right with
    | string items' => rfl
    | _ => cases same
  | json items =>
    cases right with
    | json items' => rfl
    | _ => cases same
  | nothing size =>
    cases right with
    | nothing size' => rfl
    | _ => cases same

/-- Two columns without component columns exchange their rows. -/
theorem Column.swapped_leaves {left right : Leaf} (same : left.type = right.type)
    (leftWhole : left.Whole) (rightWhole : right.Whole) {make make' : Leaf → Column}
    (remakes : ∀ {leaf : Leaf}, leaf.type = left.type → leaf.Aligned →
      (make left).Remade known (make leaf))
    (remakes' : ∀ {leaf : Leaf}, leaf.type = right.type → leaf.Aligned →
      (make' right).Remade known (make' leaf))
    (size : ∀ leaf, (make leaf).size = leaf.size) (size' : ∀ leaf, (make' leaf).size = leaf.size) :
    ∃ left' right', swap.swapLeaves left right make make' = .ok () (left', right') ∧
      Swapped known (make left) (make' right) left' right' := by
  refine ⟨make right, make' left, ?_,
    (remakes same.symm rightWhole.aligned).swapped (remakes' same leftWhole.aligned) ?_ ?_⟩
  · rw [swap.swapLeaves, Leaf.swap_eq same]
  · rw [size, size']
  · rw [size, size']

theorem Swappable.eq {type other : Ty} (same : Swappable type other)
    (notArray : ∀ item, type ≠ .array item) (notTuple : ∀ items names, type ≠ .tuple items names) :
    other = type := by
  cases same with
  | same => rfl
  | array => exact absurd rfl (notArray _)
  | tuple => exact absurd rfl (notTuple _ _)

theorem Swappable.items {item other : Ty} (same : Swappable (.array item) other) :
    ∃ item', other = .array item' ∧ Swappable item item' := by
  cases same with
  | same => exact ⟨item, rfl, .same item⟩
  | array items => exact ⟨_, rfl, items⟩

theorem Swappable.fields {items : List Ty} {other : Ty}
    (same : Swappable (.tuple items names) other) : ∃ names', other = .tuple items names' := by
  cases same with
  | same => exact ⟨names, rfl⟩
  | tuple _ _ names' => exact ⟨names', rfl⟩

end

theorem swapTypesError_self (types : List Ty) : swapTypesError types types = none := by
  induction types with
  | nil => rfl
  | cons type types ih => rw [swapTypesError, Ty.isEqual_self, if_pos rfl, ih]

mutual

/-- Sound columns of the same type exchange their rows. -/
theorem Column.Sound.swap : ∀ {left right : Column}, left.Sound known → right.Sound known →
    Swappable left.type right.type → ∃ left' right', left.swap right = .ok () (left', right') ∧
      Swapped known left right left' right'
  | .leaf own, right, sound, sound', same => by
    rcases sound'.leaf_of_type (same.eq nofun nofun) with ⟨other, rfl, type⟩ | ⟨other, rfl, type⟩
    · exact swapped_leaves type.symm sound.2 sound'.2 (.ofLeaf sound) (.ofLeaf sound')
        (fun _ => rfl) fun _ => rfl
    · exact swapped_leaves type.symm sound.2 sound'.2.1 (.ofLeaf sound) (.ofAdaptor sound')
        (fun _ => rfl) fun _ => rfl
  | .adaptor own, right, sound, sound', same => by
    rcases sound'.leaf_of_type (same.eq nofun nofun) with ⟨other, rfl, type⟩ | ⟨other, rfl, type⟩
    · exact swapped_leaves type.symm sound.2.1 sound'.2 (.ofAdaptor sound) (.ofLeaf sound')
        (fun _ => rfl) fun _ => rfl
    · exact swapped_leaves type.symm sound.2.1 sound'.2.1 (.ofAdaptor sound) (.ofAdaptor sound')
        (fun _ => rfl) fun _ => rfl
  | .array data offsets, right, sound, sound', same => by
    obtain ⟨item, array, items⟩ := Swappable.items same
    obtain ⟨data', offsets', rfl, type⟩ := sound'.array_of_type array
    obtain ⟨left, right, swapped, exchange⟩ :=
      Sound.swap sound.2.2 sound'.2.2 (type.symm ▸ items)
    have remade := Remade.ofArray sound exchange.leftRemade (exchange.leftSize ▸ sound'.2.1)
    have remade' := Remade.ofArray sound' exchange.rightRemade (exchange.rightSize ▸ sound.2.1)
    refine ⟨.array left offsets', .array right offsets, ?_, remade.swapped remade' rfl rfl⟩
    rw [swap, swapped]
  | .nullable nested nulls, right, sound, sound', same => by
    obtain ⟨nested', nulls', rfl, type⟩ := sound'.nullable_of_type (same.eq nofun nofun)
    obtain ⟨left, right, swapped, exchange⟩ :=
      Sound.swap sound.2.2 sound'.2.2 (type.symm ▸ .same nested.type)
    have remade := Remade.ofNullable sound exchange.leftRemade (exchange.leftSize.trans sound'.2.1)
    have remade' := Remade.ofNullable sound' exchange.rightRemade (exchange.rightSize.trans sound.2.1)
    refine ⟨.nullable left nulls', .nullable right nulls, ?_, remade.swapped remade' rfl rfl⟩
    rw [swap, type, Ty.isEqual_self, if_pos rfl, swapped]
  | .tuple columns names, right, sound, sound', same => by
    obtain ⟨names', tuple⟩ := Swappable.fields same
    obtain ⟨columns', rfl, types⟩ := sound'.tuple_of_type tuple
    obtain ⟨left, right, swapped, leftSound, rightSound, leftTypes, rightTypes, leftSize, rightSize⟩ :=
      AllSound.swap sound.2.2 sound'.2.2 types.symm
    have lengths : columns.length = columns'.length := by
      rw [← length_types, ← length_types, types]
    have remade := Remade.ofTuple sound leftTypes leftSound
    have remade' := Remade.ofTuple sound' rightTypes rightSound
    refine ⟨.tuple left names, .tuple right names', ?_, remade.swapped remade' leftSize rightSize⟩
    rw [swap, if_neg (not_not.mpr lengths), types, swapTypesError_self, swapped]
    rfl
  | .map data, right, sound, sound', same => by
    obtain ⟨key, value, names, pairs, type⟩ := sound.type_map
    rw [type] at same
    obtain ⟨data', names', rfl, pairs'⟩ := sound'.map_of_type (same.eq nofun nofun)
    have items : Swappable data.type data'.type := by
      rw [pairs, pairs']
      exact .array (.tuple _ _ _)
    obtain ⟨left, right, swapped, exchange⟩ := Sound.swap sound.2.2 sound'.2.2 items
    have remade := Remade.ofMap sound exchange.leftRemade
    refine ⟨.map left, .map right, ?_,
      remade.swapped (.ofMap sound' exchange.rightRemade) exchange.leftSize exchange.rightSize⟩
    rw [swap, swapped]
    rfl
  | .lowCardinality column, right, sound, sound', same => by
    obtain ⟨other, rfl, type⟩ := sound'.lowCardinality_of_type (same.eq nofun nofun)
    have remade := Remade.ofLowCardinality sound type sound'.2.2
    refine ⟨.lowCardinality other, .lowCardinality column, ?_,
      remade.swapped (.ofLowCardinality sound' type.symm sound.2.2) rfl rfl⟩
    rw [swap, LowCardinality.swap, type, Ty.isEqual_self, if_pos rfl]
  | .geo kind data, right, sound, sound', same => by
    obtain ⟨data', rfl⟩ := sound'.geo_of_type (same.eq nofun nofun)
    refine ⟨.geo kind data', .geo kind data, ?_, sound', sound, rfl, rfl, rfl, rfl⟩
    rw [swap, if_pos rfl]

theorem Column.AllSound.swap : ∀ {columns columns' : List Column} {rows rows' : Nat},
    AllSound known columns rows → AllSound known columns' rows' →
    types columns = types columns' →
    ∃ left right, swapAll columns columns' = .ok () (left, right) ∧
      AllSound known left rows' ∧ AllSound known right rows ∧
      types left = types columns ∧ types right = types columns' ∧
      firstSize left = firstSize columns' ∧
      firstSize right = firstSize columns
  | [], [], _, _, _, _, _ => ⟨[], [], rfl, trivial, trivial, rfl, rfl, rfl, rfl⟩
  | column :: columns, column' :: columns', rows, rows', sound, sound', same => by
    obtain ⟨size, own, others⟩ := sound
    obtain ⟨size', own', others'⟩ := sound'
    rw [types, types, List.cons.injEq] at same
    obtain ⟨left, right, swapped, exchange⟩ :=
      Sound.swap own own' (same.1 ▸ .same column.type)
    obtain ⟨lefts, rights, swapped', leftSound, rightSound, leftTypes, rightTypes, _⟩ :=
      AllSound.swap others others' same.2
    refine ⟨left :: lefts, right :: rights, ?_,
      ⟨exchange.leftSize.trans size', exchange.leftSound, leftSound⟩,
      ⟨exchange.rightSize.trans size, exchange.rightSound, rightSound⟩, ?_, ?_,
      exchange.leftSize, exchange.rightSize⟩
    · rw [swapAll, swapped, swapped']
      rfl
    · rw [types, types, exchange.leftType, leftTypes]
    · rw [types, types, exchange.rightType, rightTypes]

end

end ClickHouse
