import ClickHouse.Columns.Soundness

/-!
# Appending columns

`CanAppendType` accepts more than equal types, and `Append` ignores a column of
another class.  For sound columns the two fit: where the type is accepted,
`Append` adds every row of the source to every component column.
-/

namespace ClickHouse

open Kit List ColumnArray Leaf

variable {known : Ty → Prop}

/-! ## What Append does to a column -/

/-- `column'` is `column` with the rows of `source` after its own. -/
structure Column.Appended (known : Ty → Prop) (column source column' : Column) : Prop where
  sound : column'.Sound known
  sameType : column'.type = column.type
  size : column'.size = column.size + source.size
  total : column'.total ≤ column.total + source.total
  depth : column'.depth = column.depth

variable {column : Column} {n : Nat} {array' : ColumnArray} {kind : GeoKind}

theorem Column.Appended.remade {source column' : Column}
    (appended : column.Appended known source column') : column.Remade known column' :=
  ⟨appended.sound, appended.sameType⟩

theorem Column.Remade.appended {source column' : Column} (remade : column.Remade known column')
    (size : column'.size = column.size + source.size)
    (total : column'.total ≤ column.total + source.total) (depth : column'.depth = column.depth) :
    column.Appended known source column' :=
  ⟨remade.sound, remade.sameType, size, total, depth⟩

/-! ### Leaf columns -/

theorem Leaf.append_of_takes {type other : FixedType} {data : ColumnVector type.width}
    {data' : ColumnVector other.width} (takes : type.takes other = true) :
    ((fixed type data).append (.fixed other data')).type = .fixed type ∧
      ((fixed type data).append (.fixed other data')).Aligned ∧
      ((fixed type data).append (.fixed other data')).size = data.length + data'.length := by
  have width : other.width = type.width := by
    rw [FixedType.takes, Bool.and_eq_true, beq_iff_eq] at takes
    exact takes.2.symm
  rw [append, dif_pos width, if_pos takes]
  refine ⟨rfl, trivial, ?_⟩
  rw [size, length_append, recast, length_map]

theorem FixedType.takes_self (type : FixedType) : type.takes type = true := by
  simp [FixedType.takes]

/-- `Append` of a column of the same type. -/
theorem Leaf.append_of_type {leaf other : Leaf} (same : other.type = leaf.type)
    (whole : leaf.Whole) (aligned : other.Aligned) (fits : leaf.size + other.size < 2 ^ 64) :
    (leaf.append other).type = leaf.type ∧ (leaf.append other).Aligned ∧
      (leaf.append other).size = leaf.size + other.size := by
  cases leaf with
  | fixed type data =>
    cases other with
    | fixed type' data' =>
      cases same
      exact append_of_takes type.takes_self
    | _ => cases same
  | fixedString column =>
    cases other with
    | fixedString column' =>
      have sizes : column'.stringSize = column.stringSize := LeafType.fixedString.inj same
      have positive : 0 < column.stringSize := whole.positive
      have own : column.stringSize ∣ column.data.length := whole.aligned
      have others : column.stringSize ∣ column'.data.length := sizes ▸ aligned
      rw [append, if_pos sizes]
      refine ⟨rfl, ?_, ?_⟩
      · show column.stringSize ∣ (column.data ++ column'.data).length
        rw [length_append]
        exact Nat.dvd_add own others
      · simp only [size, length_append, sizes]
        rcases others with ⟨rows, length⟩
        rw [length, Nat.add_mul_div_left _ _ positive, Nat.mul_div_cancel_left _ positive]
    | _ => cases same
  | string items =>
    cases other with
    | string items' => exact ⟨rfl, trivial, length_append⟩
    | _ => cases same
  | json items =>
    cases other with
    | json items' => exact ⟨rfl, trivial, length_append⟩
    | _ => cases same
  | nothing size =>
    cases other with
    | nothing size' => exact ⟨rfl, trivial, Nat.mod_eq_of_lt fits⟩
    | _ => cases same

/-! ### Arrays -/

/-- The arrays whose columns are sound. -/
def ColumnArray.Sound (known : Ty → Prop) (array : ColumnArray) : Prop :=
  array.toColumn.Sound known

theorem ColumnArray.Sound.total_eq {array : ColumnArray} (sound : array.Sound known) :
    array.toColumn.total = array.offsets.length + array.data.total := by
  have last := sound.2.1.2
  rw [Column.total, toColumn, Column.span, Column.size, last]
  rfl

/-- The offset of one more row keeps the offsets consistent unless it wraps around. -/
theorem ConsistentOffsets.addOffset {offsets : ColumnVector 8} {size : Nat}
    (consistent : ConsistentOffsets offsets size) (fits : size + n < 2 ^ 64) :
    ConsistentOffsets (addOffset offsets n) (size + n) := by
  have length : (ClickHouse.addOffset offsets n).length = offsets.length + 1 := by
    simp [ClickHouse.addOffset]
  have last : getOffset (ClickHouse.addOffset offsets n) (offsets.length + 1) = size + n := by
    have word : (Word.ofNat 8 (getOffset offsets offsets.length + n)).toNat = size + n := by
      rw [consistent.2]
      exact Word.toNat_ofNat fits
    rw [getOffset, if_neg (Nat.succ_ne_zero _), Nat.add_sub_cancel, ClickHouse.addOffset,
      getElem?_concat_length]
    exact word
  have old {i : Nat} (inside : i ≤ offsets.length) :
      getOffset (ClickHouse.addOffset offsets n) i = getOffset offsets i :=
    getOffset_append_left inside _
  constructor
  · intro i below
    rw [length] at below
    rcases Nat.lt_or_eq_of_le (Nat.le_of_lt_succ below) with inside | rfl
    · rw [old (by omega), old (by omega)]
      exact consistent.1 i inside
    · rw [old (Nat.le_refl _), last, consistent.2]
      exact Nat.le_add_right ..
  · rw [length, last]

/-- What an accepted `AppendAsColumn` does. -/
structure ColumnArray.RowAdded (known : Ty → Prop) (array : ColumnArray) (source : Column)
    (array' : ColumnArray) : Prop where
  data : array.data.Appended known source array'.data
  offsets : array'.offsets = addOffset array.offsets source.size

theorem ColumnArray.RowAdded.sound {array array' : ColumnArray} {source : Column}
    (added : array.RowAdded known source array') (sound : array.Sound known)
    (sourceSound : source.Sound known) (fits : array.data.total + source.total < 2 ^ 64) :
    array'.Sound known := by
  have size := sound.2.2.size_le_total
  have size' := sourceSound.size_le_total
  have consistent : ConsistentOffsets array'.offsets array'.data.size := by
    rw [added.offsets, added.data.size]
    exact sound.2.1.addOffset (by omega)
  exact (Column.Remade.ofArray sound added.data.remade consistent).sound

theorem ColumnArray.RowAdded.length {array : ColumnArray} {source : Column}
    (added : array.RowAdded known source array') :
    array'.offsets.length = array.offsets.length + 1 := by
  rw [added.offsets]
  simp [addOffset]

/-- The rows of an array to which one was added. -/
theorem ColumnArray.RowAdded.getSize {array : ColumnArray} {source : Column}
    (added : array.RowAdded known source array') (own : array.Sound known)
    (grown : array'.Sound known) :
    (∀ i < array.offsets.length, getSize array'.offsets i = getSize array.offsets i) ∧
      getSize array'.offsets array.offsets.length = source.size := by
  have old {i : Nat} (inside : i ≤ array.offsets.length) :
      getOffset array'.offsets i = getOffset array.offsets i := by
    rw [added.offsets]
    exact getOffset_append_left inside _
  have length := added.length
  constructor
  · intro i below
    rw [grown.2.1.getSize_eq (by omega), own.2.1.getSize_eq below, old below, old (by omega)]
  · have last := grown.2.1.2
    rw [length, added.data.size] at last
    rw [grown.2.1.getSize_eq (by omega), last, old (Nat.le_refl _), own.2.1.2]
    omega

/-! ## Types and their columns -/

theorem Ty.of_code_uint8 {type : Ty} (code : type.code = .uint8) : type = .leaf (.fixed .uint8) := by
  cases type with
  | leaf type =>
    cases type with
    | fixed type => cases type <;> first | rfl | cases code
    | _ => cases code
  | geo kind => cases kind <;> cases code
  | _ => cases code

theorem Ty.geo_of_layout {type : Ty} (layout : type.layout = .geo kind) : type = .geo kind := by
  cases type <;> simp_all [Ty.layout]

theorem Ty.leaf_of_layout {type : Ty} {leaf : LeafType} (layout : type.layout = .leaf leaf) :
    type = .leaf leaf := by
  cases type <;> simp_all [Ty.layout]

theorem Ty.array_of_layout {type item : Ty} (layout : type.layout = .array item) :
    ∃ item', type = .array item' ∧ item'.layout = item := by
  cases type <;> simp_all [Ty.layout]

theorem Ty.pair_of_layout {type first second : Ty}
    (layout : type.layout = .tuple [first, second] []) :
    ∃ first' second' names, type = .tuple [first', second'] names ∧ first'.layout = first ∧
      second'.layout = second := by
  cases type with
  | tuple items names =>
    match items with
    | [first', second'] =>
      simp only [Ty.layout, Ty.layouts, Ty.tuple.injEq, cons.injEq, and_true] at layout
      exact ⟨first', second', names, rfl, layout⟩
    | [] => simp [Ty.layout, Ty.layouts] at layout
    | [_] => simp [Ty.layout, Ty.layouts] at layout
    | _ :: _ :: _ :: _ => simp [Ty.layout, Ty.layouts] at layout
  | _ => simp [Ty.layout] at layout

/-- Two columns for the data of a geo column are of types that accept each other. -/
theorem Column.depth_pos (column : Column) : 0 < column.depth := by
  cases column <;> exact Nat.succ_pos _

/-- The rows of a column are items of its type. -/
theorem Column.Sound.exists_leafItem (sound : column.Sound known) {type : LeafType}
    (own : column.type = .leaf type) (inside : n < column.size) :
    ∃ item, column.getItem n = .ok item ∧ item.type = type.code ∧ type.Accepts item.data := by
  rcases sound.leaf_of_type own with ⟨leaf, rfl, rfl⟩ | ⟨leaf, rfl, rfl⟩
  all_goals
    obtain ⟨item, read, accepted⟩ := exists_accepted_item (show n < leaf.size from inside)
    refine ⟨item, ?_, accepted⟩
    rw [Column.getItem, read]
    rfl

/-- A dictionary takes the rows of a column of its type. -/
theorem Column.Sound.exists_item {source : Column} (sound : source.Sound known)
    {dictionary : Dictionary} (same : source.type = dictionary.type) (inside : n < source.size) :
    ∃ item, source.getItem n = .ok item ∧ dictionary.Takes item := by
  rw [Dictionary.type] at same
  cases nullable : dictionary.nulls with
  | none =>
    rw [nullable] at same
    obtain ⟨item, read, accepted⟩ := sound.exists_leafItem same inside
    exact ⟨item, read, .inr accepted⟩
  | some flags =>
    rw [nullable] at same
    obtain ⟨nested, nulls, rfl, own⟩ := sound.nullable_of_type same
    have inside : n < nulls.length := inside
    rw [Column.getItem, getElem?_eq_getElem inside]
    dsimp only
    split
    · obtain ⟨item, read, accepted⟩ := sound.2.2.exists_leafItem own (sound.2.1.symm ▸ inside)
      exact ⟨item, read, .inr accepted⟩
    · exact ⟨.null, rfl, .inl ⟨rfl, by rw [nullable]; rfl⟩⟩

variable [Hashing]

/-! ## Accepted types -/

mutual

theorem canAppendTupleType_self : ∀ type : Ty, canAppendTupleType type type = true
  | .leaf _ => Ty.isEqual_self _
  | .geo _ => Ty.isEqual_self _
  | .array _ => Ty.isEqual_self _
  | .nullable _ => Ty.isEqual_self _
  | .tuple items _ => canAppendTupleTypes_self items
  | .lowCardinality _ => Ty.isEqual_self _
  | .map _ _ => Ty.isEqual_self _

theorem canAppendTupleTypes_self : ∀ types : List Ty, canAppendTupleTypes types types = true
  | [] => rfl
  | type :: types => by
    rw [canAppendTupleTypes, canAppendTupleType_self type, canAppendTupleTypes_self types]
    rfl

end

theorem canAppendType_self (type : Ty) : canAppendType type type = true := by
  unfold canAppendType
  rw [Ty.isEqual_self, Bool.true_or]

/-- The elements of a tuple are accepted by the check of the tuple. -/
theorem canAppendType_of_tupleType {destination source : Ty}
    (accepted : canAppendTupleType destination source = true) :
    canAppendType destination source = true := by
  unfold canAppendType
  cases destination with
  | tuple items names =>
    rw [accepted]
    exact Bool.or_true _
  | _ =>
    have same := accepted
    simp only [canAppendTupleType] at same
    rw [same, Bool.true_or]

/-- Types whose names do not collide. -/
def Distinguished (known : Ty → Prop) : Prop :=
  ∀ type other : Ty, known type → known other → type.isEqual other = true → type = other

/-- The types an array takes. -/
inductive AcceptsType : Ty → Ty → Prop
  | same (type : Ty) : AcceptsType type type
  | array {item item' : Ty} (items : canAppendType item item' = true) :
    AcceptsType (.array item) (.array item')
  | tuple {items items' : List Ty} {names names' : List Bytes}
    (each : canAppendTupleTypes items items' = true) :
    AcceptsType (.tuple items names) (.tuple items' names')
  | lowCardinality (nested : Ty) : AcceptsType (.lowCardinality nested) nested
  | bool : AcceptsType (.leaf (.fixed .bool)) (.leaf (.fixed .uint8))

theorem accepts_of_canAppendType (distinguished : Distinguished known) {destination source : Ty}
    (isKnown : known destination) (isKnown' : known source)
    (nested : ∀ type, destination = .lowCardinality type → known type)
    (accepted : canAppendType destination source = true) : AcceptsType destination source := by
  unfold canAppendType at accepted
  rcases Bool.or_eq_true_iff.mp accepted with same | relaxed
  · rw [distinguished _ _ isKnown isKnown' same]
    exact .same source
  · split at relaxed
    · exact .array relaxed
    · cases source with
      | tuple items' names' => exact .tuple relaxed
      | _ =>
        rw [distinguished _ _ isKnown isKnown' relaxed]
        exact .same _
    · rw [Bool.and_eq_true] at relaxed
      rw [distinguished _ _ (nested _ rfl) isKnown' relaxed.2]
      exact .lowCardinality source
    · rw [Ty.of_code_uint8 (beq_iff_eq.mp relaxed)]
      exact .bool
    · cases relaxed

/-! ## Rows of an array -/

/-- The function appends every column of an accepted type to a column no deeper than `depth`. -/
def Appends (known : Ty → Prop) (append : Column → EStateM Error Column Unit) (depth : Nat) : Prop :=
  ∀ ⦃column source : Column⦄, column.depth ≤ depth → column.Sound known → source.Sound known →
    canAppendType column.type source.type = true → column.total + source.total < 2 ^ 64 →
    ∃ column', Runs (append source) column () column' ∧ column.Appended known source column'

/-- A type mismatch is refused before anything is changed. -/
theorem ColumnArray.throws_appendAsColumnWith {append : Column → EStateM Error Column Unit}
    {array : ColumnArray} {source : Column}
    (refused : canAppendType array.data.type source.type = false) :
    Throws (appendAsColumnWith append source) array
      (cannotAppend source.type array.data.type) array := by
  refine (runs_get array).bind_throws ?_
  rw [if_neg (by rw [refused]; nofun)]
  exact throws_throw _ _

/-- A row of a sound array as a column. -/
theorem ColumnArray.Sound.getAsColumn {array : ColumnArray} (sound : array.Sound known)
    (inside : n < array.offsets.length) :
    ∃ row, array.getAsColumn n = .ok row ∧ row.Sound known ∧ row.type = array.data.type ∧
      row.size = getSize array.offsets n ∧ 1 + row.total = array.toColumn.span n (n + 1) := by
  obtain ⟨_, consistent, own⟩ := sound
  have within := consistent.row_within inside
  have size := consistent.getSize_eq inside
  have increases := consistent.1 n inside
  obtain ⟨row, sliced, isSlice⟩ := own.slice within
  refine ⟨row, ?_, isSlice.sound, isSlice.sameType, isSlice.size, ?_⟩
  · rw [ColumnArray.getAsColumn, if_neg (Nat.not_le.mpr inside)]
    simp only [checkedOffset_eq (Nat.le_of_lt inside), checkedRowSize_eq inside, bind, Except.bind]
    exact sliced
  · have last : getOffset array.offsets n + getSize array.offsets n =
        getOffset array.offsets (n + 1) := by omega
    rw [isSlice.total, last, toColumn, Column.span]
    omega

/-- `array'` is `array` with `rows` rows more, which have `cells` rows in all component columns. -/
structure ColumnArray.RowsAdded (known : Ty → Prop) (array : ColumnArray) (rows cells : Nat)
    (array' : ColumnArray) : Prop where
  sound : array'.Sound known
  sameType : array'.data.type = array.data.type
  rows : array'.offsets.length = array.offsets.length + rows
  total : array'.toColumn.total ≤ array.toColumn.total + cells
  depth : array'.data.depth = array.data.depth

omit [Hashing] in
theorem ColumnArray.RowAdded.rows {array : ColumnArray} {source : Column}
    (added : array.RowAdded known source array') (sound : array.Sound known)
    (sourceSound : source.Sound known) (fits : array.data.total + source.total < 2 ^ 64) :
    array.RowsAdded known 1 (1 + source.total) array' := by
  have sound' := added.sound sound sourceSound fits
  have length := added.length
  refine ⟨sound', added.data.sameType, length, ?_, added.data.depth⟩
  have data := added.data.total
  rw [sound'.total_eq, sound.total_eq, length]
  omega

omit [Hashing] in
theorem ColumnArray.RowsAdded.trans {array array' array'' : ColumnArray} {m n a b : Nat}
    (first : array.RowsAdded known m a array') (second : array'.RowsAdded known n b array'') :
    array.RowsAdded known (m + n) (a + b) array'' where
  sound := second.sound
  sameType := second.sameType.trans first.sameType
  rows := by rw [second.rows, first.rows, Nat.add_assoc]
  total := by
    have before := first.total
    have after := second.total
    omega
  depth := second.depth.trans first.depth

section Arrays

variable {append : Column → EStateM Error Column Unit} {depth : Nat}
  (appends : Appends known append depth)

include appends

theorem ColumnArray.runs_appendAsColumnWith {array : ColumnArray} {source : Column}
    (shallow : array.data.depth ≤ depth) (sound : array.Sound known)
    (sourceSound : source.Sound known)
    (accepted : canAppendType array.data.type source.type = true)
    (fits : array.data.total + source.total < 2 ^ 64) :
    ∃ array', Runs (appendAsColumnWith append source) array () array' ∧
      Runs (append source) array.data () array'.data ∧ array.RowAdded known source array' := by
  obtain ⟨data', run, appended⟩ := appends shallow sound.2.2 sourceSound accepted fits
  refine ⟨⟨data', addOffset array.offsets source.size⟩, (runs_get array).bind ?_, run, appended,
    rfl⟩
  rw [if_pos accepted]
  exact (Runs.zoom run).bind
    ((runs_ofExcept sourceSound.checkSize_eq _).bind (runs_modify _ _))

/-- The loop of `ColumnArray::Append` from row `n` on. -/
theorem ColumnArray.runs_appendRowsWith {source : ColumnArray} (sourceSound : source.Sound known) :
    ∀ (len : Nat) {n : Nat} {array : ColumnArray}, n + len ≤ source.offsets.length →
      array.data.depth ≤ depth → array.Sound known →
      canAppendType array.data.type source.data.type = true →
      array.toColumn.total + source.toColumn.span n (n + len) < 2 ^ 64 →
      ∃ array', Runs (appendRowsWith append source (range' n len)) array () array' ∧
        array.RowsAdded known len (source.toColumn.span n (n + len)) array'
  | 0, n, array, _, _, sound, _, _ =>
    ⟨array, runs_pure _ _, sound, rfl, rfl, Nat.le_add_right .., rfl⟩
  | len + 1, n, array, inside, shallow, sound, accepted, fits => by
    obtain ⟨row, read, rowSound, type, _, cells⟩ := sourceSound.getAsColumn (n := n) (by omega)
    have split : source.toColumn.span n (n + 1) + source.toColumn.span (n + 1) (n + (len + 1)) =
        source.toColumn.span n (n + (len + 1)) :=
      Column.Sound.span_add sourceSound (by omega) (by omega) inside
    have total := sound.total_eq
    have fitsRow : array.data.total + row.total < 2 ^ 64 := by omega
    obtain ⟨middle, run, _, added⟩ := runs_appendAsColumnWith appends shallow sound
      rowSound (by rw [type]; exact accepted) fitsRow
    have first := added.rows sound rowSound fitsRow
    have next : n + 1 + len = n + (len + 1) := by omega
    have before := first.total
    obtain ⟨array', run', others⟩ := runs_appendRowsWith sourceSound len (n := n + 1)
      (by omega) (first.depth.symm ▸ shallow) first.sound (first.sameType.symm ▸ accepted)
      (by rw [next]; omega)
    rw [next] at others
    have both := first.trans others
    rw [cells, split, Nat.add_comm 1 len] at both
    exact ⟨array', (runs_ofExcept read _).bind (run.bind run'), both⟩

/-- `ColumnArray::Append` of an array whose rows are accepted. -/
theorem ColumnArray.runs_appendAll {array source : ColumnArray} (sound : array.Sound known)
    (sourceSound : source.Sound known) (shallow : array.data.depth ≤ depth)
    (accepted : canAppendType array.data.type source.data.type = true)
    (fits : array.toColumn.total + source.toColumn.total < 2 ^ 64) :
    ∃ array', Runs (appendRowsWith append source (range source.offsets.length))
        array () array' ∧
      array.RowsAdded known source.offsets.length source.toColumn.total array' := by
  have all : source.toColumn.span 0 (0 + source.offsets.length) = source.toColumn.total := by
    rw [Nat.zero_add]
    rfl
  rw [range_eq_range', ← all]
  exact runs_appendRowsWith appends sourceSound _ (Nat.le_of_eq (Nat.zero_add _)) shallow
    sound accepted (by rw [all]; exact fits)

end Arrays

omit [Hashing] in
/-- Appended arrays as columns. -/
theorem ColumnArray.RowsAdded.appended {array source : ColumnArray}
    (added : array.RowsAdded known source.offsets.length source.toColumn.total array') :
    array.toColumn.Appended known source.toColumn array'.toColumn where
  sound := added.sound
  sameType := congrArg Ty.array added.sameType
  size := added.rows
  total := added.total
  depth := congrArg (· + 1) added.depth

/-! ## Tuples -/

/-- What `Append` does to the columns of a tuple. -/
structure Column.AllAppended (known : Ty → Prop) (columns : List Column) (rows : Nat)
    (sources : List Column) (rows' : Nat) (columns' : List Column) : Prop where
  sound : Column.AllSound known columns' (rows + rows')
  sameTypes : Column.types columns' = Column.types columns
  total : Column.spans columns' 0 (rows + rows') ≤
    Column.spans columns 0 rows + Column.spans sources 0 rows'
  depth : Column.maxDepth columns' = Column.maxDepth columns

theorem appendEach_eq {append : Column → EStateM Error Column Unit} {depth : Nat}
    (appends : Appends known append depth) {rows rows' : Nat} :
    ∀ {columns sources : List Column}, Column.maxDepth columns ≤ depth →
      Column.AllSound known columns rows → Column.AllSound known sources rows' →
      canAppendTupleTypes (Column.types columns) (Column.types sources) = true →
      Column.spans columns 0 rows + Column.spans sources 0 rows' < 2 ^ 64 →
      ∃ columns', appendEach append sources columns = .ok () columns' ∧
        Column.AllAppended known columns rows sources rows' columns'
  | [], [], _, _, _, _, _ => ⟨[], rfl, trivial, rfl, Nat.le_refl _, rfl⟩
  | [], _ :: _, _, _, _, accepted, _ => nomatch accepted
  | _ :: _, [], _, _, _, accepted, _ => nomatch accepted
  | column :: columns, source :: sources, shallow, sound, sourceSound, accepted, fits => by
    obtain ⟨size, own, others⟩ := sound
    obtain ⟨size', own', others'⟩ := sourceSound
    rw [Column.types, Column.types, canAppendTupleTypes, Bool.and_eq_true] at accepted
    rw [Column.maxDepth] at shallow
    rw [Column.spans, Column.spans] at fits
    have total : column.span 0 rows = column.total := by rw [Column.total, size]
    have total' : source.span 0 rows' = source.total := by rw [Column.total, size']
    obtain ⟨column', run, appended⟩ := appends (Nat.le_trans (Nat.le_max_left ..) shallow) own own'
      (canAppendType_of_tupleType accepted.1) (by omega)
    obtain ⟨columns', run', rest⟩ := appendEach_eq appends
      (Nat.le_trans (Nat.le_max_right ..) shallow) others others' accepted.2 (by omega)
    have size'' : column'.size = rows + rows' := by rw [appended.size, size, size']
    unfold Runs at run
    refine ⟨column' :: columns', ?_, ⟨size'', appended.sound, rest.sound⟩, ?_, ?_, ?_⟩
    · rw [appendEach, run, run']
      rfl
    · rw [Column.types, Column.types, appended.sameType, rest.sameTypes]
    · have own := appended.total
      have others := rest.total
      rw [Column.total, size''] at own
      simp only [Column.spans]
      omega
    · rw [Column.maxDepth, Column.maxDepth, appended.depth, rest.depth]

theorem length_of_canAppend {columns sources : List Column}
    (accepted : canAppendTupleTypes (Column.types columns) (Column.types sources) = true) :
    columns.length = sources.length := by
  induction columns generalizing sources with
  | nil =>
    cases sources with
    | nil => rfl
    | cons source sources => cases accepted
  | cons column columns ih =>
    cases sources with
    | nil => cases accepted
    | cons source sources =>
      rw [Column.types, Column.types, canAppendTupleTypes, Bool.and_eq_true] at accepted
      rw [length_cons, length_cons, ih accepted.2]

omit [Hashing] in
theorem Column.AllAppended.tuple {columns sources columns' : List Column} {names names' : List Bytes}
    (sound : (Column.tuple columns names).Sound known)
    (lengths : columns.length = sources.length)
    (appended : Column.AllAppended known columns (Column.firstSize columns) sources
      (Column.firstSize sources) columns') :
    (Column.tuple columns names).Appended known (.tuple sources names') (.tuple columns' names) := by
  have size : Column.firstSize columns' = Column.firstSize columns + Column.firstSize sources := by
    have lengths' := congrArg length appended.sameTypes
    rw [Column.length_types, Column.length_types] at lengths'
    cases columns' with
    | nil =>
      rw [length_eq_zero_iff.mp lengths'.symm] at lengths ⊢
      rw [length_eq_zero_iff.mp lengths.symm]
      rfl
    | cons column columns' => exact appended.sound.1
  have remade := Column.Remade.ofTuple sound appended.sameTypes appended.sound
  refine remade.appended size ?_ ?_
  · simp only [Column.total, Column.span, Column.size, size]
    exact appended.total
  · rw [Column.depth, Column.depth, appended.depth]

/-! ## LowCardinality -/

/-- `Append` to a LowCardinality column. -/
theorem Column.runs_appendLowCardinality {column : LowCardinality} {source : Column}
    (sound : (Column.lowCardinality column).Sound known) (sourceSound : source.Sound known)
    (same : source.type = column.dictionary.type ∨
      source.type = .lowCardinality column.dictionary.type) :
    ∃ column', Runs (LowCardinality.appendColumn source) column () column' ∧
      (Column.lowCardinality column).Appended known source (.lowCardinality column') := by
  have intact := sound.2.2
  suffices appends : ∃ column', Runs (LowCardinality.appendColumn source) column () column' ∧
      column.Longer source.size column' by
    obtain ⟨column', run, longer⟩ := appends
    have remade := Column.Remade.ofLowCardinality sound longer.sameType longer.intact
    refine ⟨column', run, remade.appended longer.length ?_ rfl⟩
    have size := sourceSound.size_le_total
    have length := longer.length
    simp only [Column.total, Column.span, Column.size] at size ⊢
    omega
  rcases same with plain | encoded
  · exact intact.appendColumn (.inl plain) fun n inside => sourceSound.exists_item plain inside
  · obtain ⟨other, rfl, type⟩ := sourceSound.lowCardinality_of_type encoded
    refine intact.appendColumn (.inr ⟨other, rfl, type⟩) fun n inside => ?_
    obtain ⟨item, read, takes⟩ := sourceSound.2.2.exists_item inside
    refine ⟨item, ?_, takes.of_type type.symm⟩
    rw [Column.getItem, read]
    rfl

/-! ## All classes -/

theorem Leaf.appendColumn_of_accepts {leaf : Leaf} {source : Column} {type : Ty}
    (whole : leaf.Whole) (sourceSound : source.Sound known) (own : source.type = type)
    (accepts : AcceptsType (.leaf leaf.type) type) (fits : leaf.size + source.size < 2 ^ 64) :
    (leaf.appendColumn source).type = leaf.type ∧ (leaf.appendColumn source).Aligned ∧
      (leaf.appendColumn source).size = leaf.size + source.size := by
  generalize known' : leaf.type = leafType at accepts
  cases accepts with
  | same =>
    subst known'
    rcases sourceSound.leaf_of_type own with ⟨other, rfl, same⟩ | ⟨other, rfl, same⟩
    · exact append_of_type same whole sourceSound.2.aligned fits
    · exact append_of_type same whole sourceSound.2.1.aligned fits
  | bool =>
    cases leaf with
    | fixed type data =>
      cases known'
      rcases sourceSound.leaf_of_type own with ⟨other, rfl, same⟩ | ⟨other, rfl, same⟩
      · cases other with
        | fixed type' data' =>
          cases same
          have takes : FixedType.takes .bool .uint8 = true := rfl
          exact append_of_takes takes
        | _ => cases same
      · have text := sourceSound.2.2
        rw [same] at text
        cases text
    | _ => cases known'

theorem canAppendType_of_geo {type other : Ty} (own : type.layout = kind.dataType.layout)
    (own' : other.layout = kind.dataType.layout) : canAppendType type other = true := by
  have ofArray {nested : GeoKind} (data : kind.dataType.layout = .array (.geo nested)) :
      canAppendType type other = true := by
    obtain ⟨item, rfl, layout⟩ := Ty.array_of_layout (own.trans data)
    obtain ⟨item', rfl, layout'⟩ := Ty.array_of_layout (own'.trans data)
    rw [Ty.geo_of_layout layout, Ty.geo_of_layout layout']
    exact canAppendType_self _
  cases kind with
  | point =>
    obtain ⟨x, y, names, rfl, first, second⟩ := Ty.pair_of_layout own
    obtain ⟨x', y', names', rfl, first', second'⟩ := Ty.pair_of_layout own'
    rw [Ty.leaf_of_layout first, Ty.leaf_of_layout second, Ty.leaf_of_layout first',
      Ty.leaf_of_layout second']
    exact canAppendType_of_tupleType (canAppendTupleTypes_self _)
  | ring => exact ofArray rfl
  | polygon => exact ofArray rfl
  | multiPolygon => exact ofArray rfl

section Classes

variable {fuel : Nat} {source : Column}

/-- With a bound on the depth, `Append` adds all rows of the source. -/
def AppendsTo (known : Ty → Prop) (fuel : Nat) (source column : Column) : Prop :=
  ∃ column', Runs (Column.appendWith fuel source) column () column' ∧
    column.Appended known source column'

variable (sourceSound : source.Sound known)

include sourceSound

theorem AppendsTo.leaf {leaf : Leaf} (sound : (Column.leaf leaf).Sound known)
    (accepts : AcceptsType (.leaf leaf.type) source.type)
    (fits : leaf.size + source.total < 2 ^ 64) :
    AppendsTo known (fuel + 1) source (.leaf leaf) := by
  have size := sourceSound.size_le_total
  obtain ⟨type, aligned, rows⟩ :=
    appendColumn_of_accepts sound.2 sourceSound rfl accepts (by omega)
  refine ⟨_, rfl, (Column.Remade.ofLeaf sound type aligned).appended rows ?_ rfl⟩
  simp only [Column.total, Column.span, Column.size, rows] at size ⊢
  omega

theorem AppendsTo.adaptor {leaf : Leaf} (sound : (Column.adaptor leaf).Sound known)
    (accepts : AcceptsType (.leaf leaf.type) source.type)
    (fits : leaf.size + source.total < 2 ^ 64) :
    AppendsTo known (fuel + 1) source (.adaptor leaf) := by
  have size := sourceSound.size_le_total
  obtain ⟨type, aligned, rows⟩ :=
    appendColumn_of_accepts sound.2.1 sourceSound rfl accepts (by omega)
  refine ⟨_, rfl, (Column.Remade.ofAdaptor sound type aligned).appended rows ?_ rfl⟩
  simp only [Column.total, Column.span, Column.size, rows] at size ⊢
  omega

theorem AppendsTo.lowCardinality {column : LowCardinality}
    (sound : (Column.lowCardinality column).Sound known)
    (accepts : AcceptsType (.lowCardinality column.dictionary.type) source.type) :
    AppendsTo known (fuel + 1) source (.lowCardinality column) := by
  have same : source.type = column.dictionary.type ∨
      source.type = .lowCardinality column.dictionary.type := by
    generalize source.type = type at accepts
    cases accepts with
    | same => exact .inr rfl
    | lowCardinality => exact .inl rfl
  obtain ⟨column', run, appended⟩ := Column.runs_appendLowCardinality sound sourceSound same
  unfold Runs at run
  refine ⟨.lowCardinality column', ?_, appended⟩
  unfold Runs
  rw [Column.appendWith]
  dsimp only
  rw [run]
  rfl

variable (appends : Appends known (Column.appendWith fuel) fuel)

include appends

theorem AppendsTo.array {data : Column} {offsets : ColumnVector 8}
    (sound : (Column.array data offsets).Sound known)
    (accepts : AcceptsType (.array data.type) source.type) (shallow : data.depth ≤ fuel)
    (fits : (Column.array data offsets).total + source.total < 2 ^ 64) :
    AppendsTo known (fuel + 1) source (.array data offsets) := by
  have items : ∃ item, source.type = .array item ∧ canAppendType data.type item = true := by
    generalize source.type = type at accepts
    cases accepts with
    | same => exact ⟨_, rfl, canAppendType_self _⟩
    | array items => exact ⟨_, rfl, items⟩
  obtain ⟨item, own, accepted⟩ := items
  obtain ⟨data', offsets', rfl, rfl⟩ := sourceSound.array_of_type own
  have sound' : Sound known ⟨data, offsets⟩ := sound
  have sourceSound' : Sound known ⟨data', offsets'⟩ := sourceSound
  obtain ⟨array', run, added⟩ :=
    runs_appendAll appends sound' sourceSound' shallow accepted fits
  unfold Runs at run
  refine ⟨array'.toColumn, ?_, added.appended⟩
  unfold Runs
  rw [Column.appendWith]
  dsimp only at run ⊢
  rw [run]
  rfl

theorem AppendsTo.nullable {nested : Column} {nulls : ColumnVector 1}
    (sound : (Column.nullable nested nulls).Sound known)
    (accepts : AcceptsType (.nullable nested.type) source.type) (shallow : nested.depth ≤ fuel)
    (fits : (Column.nullable nested nulls).total + source.total < 2 ^ 64) :
    AppendsTo known (fuel + 1) source (.nullable nested nulls) := by
  have same : source.type = .nullable nested.type := by
    generalize source.type = type at accepts
    cases accepts
    rfl
  obtain ⟨nested', nulls', rfl, type⟩ := sourceSound.nullable_of_type same
  have total {nested : Column} {nulls : ColumnVector 1} (sizes : nested.size = nulls.length) :
      (Column.nullable nested nulls).total = nested.total := by
    rw [Column.total, Column.size, ← sizes, Column.span]
    rfl
  rw [total sound.2.1, total sourceSound.2.1] at fits
  obtain ⟨grown, run, appended⟩ := appends shallow sound.2.2 sourceSound.2.2
    (by rw [type]; exact canAppendType_self _) fits
  have sizes : grown.size = (nulls ++ nulls').length := by
    rw [appended.size, sound.2.1, sourceSound.2.1, length_append]
  unfold Runs at run
  have remade := Column.Remade.ofNullable sound appended.remade sizes
  refine ⟨.nullable grown (nulls ++ nulls'), ?_, remade.appended length_append ?_ ?_⟩
  · unfold Runs
    rw [Column.appendWith]
    dsimp only
    rw [type, Ty.isEqual_self, if_pos rfl, run]
  · rw [total sizes, total sound.2.1, total sourceSound.2.1]
    exact appended.total
  · rw [Column.depth, Column.depth, appended.depth]

theorem AppendsTo.tuple {columns : List Column} {names : List Bytes}
    (sound : (Column.tuple columns names).Sound known)
    (accepts : AcceptsType (.tuple (Column.types columns) names) source.type)
    (shallow : Column.maxDepth columns ≤ fuel)
    (fits : (Column.tuple columns names).total + source.total < 2 ^ 64) :
    AppendsTo known (fuel + 1) source (.tuple columns names) := by
  have fields : ∃ items names', source.type = .tuple items names' ∧
      canAppendTupleTypes (Column.types columns) items = true := by
    generalize source.type = type at accepts
    cases accepts with
    | same => exact ⟨_, _, rfl, canAppendTupleTypes_self _⟩
    | tuple each => exact ⟨_, _, rfl, each⟩
  obtain ⟨items, names', own, accepted⟩ := fields
  obtain ⟨sources, rfl, rfl⟩ := sourceSound.tuple_of_type own
  obtain ⟨columns', run, appended⟩ :=
    appendEach_eq appends shallow sound.2.2 sourceSound.2.2 accepted fits
  refine ⟨.tuple columns' names, ?_, appended.tuple sound (length_of_canAppend accepted)⟩
  have shape : canAppendTupleType (Column.tuple columns names).type
      (Column.tuple sources names').type = true := accepted
  unfold Runs
  rw [Column.appendWith]
  dsimp only
  rw [if_pos shape, run]
  rfl

theorem AppendsTo.map {data : Column} (sound : (Column.map data).Sound known)
    (accepts : AcceptsType (Column.map data).type source.type) (shallow : data.depth ≤ fuel)
    (fits : (Column.map data).total + source.total < 2 ^ 64) :
    AppendsTo known (fuel + 1) source (.map data) := by
  obtain ⟨key, value, names, pairs, type⟩ := sound.type_map
  have same : source.type = .map key value := by
    rw [type] at accepts
    generalize source.type = type at accepts
    cases accepts
    rfl
  obtain ⟨data', names', rfl, pairs'⟩ := sourceSound.map_of_type same
  have accepted : canAppendType data.type data'.type = true := by
    -- the pairs of two maps may be named differently
    rw [pairs, pairs', canAppendType]
    exact Bool.or_eq_true_iff.mpr
      (.inr (canAppendType_of_tupleType (canAppendTupleTypes_self [key, value])))
  obtain ⟨grown, run, appended⟩ := appends shallow sound.2.2 sourceSound.2.2 accepted fits
  unfold Runs at run
  have remade := Column.Remade.ofMap sound appended.remade
  refine ⟨.map grown, ?_, remade.appended appended.size appended.total ?_⟩
  · unfold Runs
    rw [Column.appendWith]
    dsimp only
    rw [run]
    rfl
  · rw [Column.depth, Column.depth, appended.depth]

theorem AppendsTo.geo {data : Column} (sound : (Column.geo kind data).Sound known)
    (accepts : AcceptsType (.geo kind) source.type) (shallow : data.depth ≤ fuel)
    (fits : (Column.geo kind data).total + source.total < 2 ^ 64) :
    AppendsTo known (fuel + 1) source (.geo kind data) := by
  have same : source.type = .geo kind := by
    generalize source.type = type at accepts
    cases accepts
    rfl
  obtain ⟨data', rfl⟩ := sourceSound.geo_of_type same
  obtain ⟨grown, run, appended⟩ := appends shallow sound.2.2 sourceSound.2.2
    (canAppendType_of_geo sound.2.1 sourceSound.2.1) fits
  unfold Runs at run
  have remade := Column.Remade.ofGeo sound appended.remade
  refine ⟨.geo kind grown, ?_, remade.appended appended.size appended.total ?_⟩
  · unfold Runs
    rw [Column.appendWith]
    dsimp only
    rw [if_pos rfl, run]
    rfl
  · rw [Column.depth, Column.depth, appended.depth]

end Classes

/-- `Append` of a column of an accepted type adds all its rows. -/
theorem Column.appends_appendWith (distinguished : Distinguished known) :
    ∀ fuel : Nat, Appends known (Column.appendWith fuel) fuel
  | 0, column, _, shallow, _, _, _, _ =>
    absurd (Nat.lt_of_lt_of_le column.depth_pos shallow) (Nat.lt_irrefl 0)
  | fuel + 1, column, source, shallow, sound, sourceSound, accepted, fits => by
    have appends := Column.appends_appendWith distinguished fuel
    have nested (type : Ty) (own : column.type = .lowCardinality type) : known type := by
      obtain ⟨inner, rfl, same⟩ := sound.lowCardinality_of_type own
      exact same ▸ sound.2.1
    have accepts := accepts_of_canAppendType distinguished sound.isKnown sourceSound.isKnown nested
      accepted
    cases column with
    | leaf own => exact AppendsTo.leaf sourceSound sound accepts fits
    | adaptor own => exact AppendsTo.adaptor sourceSound sound accepts fits
    | lowCardinality own => exact AppendsTo.lowCardinality sourceSound sound accepts
    | array data offsets =>
      exact AppendsTo.array sourceSound appends sound accepts (Nat.le_of_succ_le_succ shallow) fits
    | nullable nested nulls =>
      exact AppendsTo.nullable sourceSound appends sound accepts (Nat.le_of_succ_le_succ shallow) fits
    | tuple columns names =>
      exact AppendsTo.tuple sourceSound appends sound accepts (Nat.le_of_succ_le_succ shallow) fits
    | map data =>
      exact AppendsTo.map sourceSound appends sound accepts (Nat.le_of_succ_le_succ shallow) fits
    | geo kind data =>
      exact AppendsTo.geo sourceSound appends sound accepts (Nat.le_of_succ_le_succ shallow) fits

/-- The same of `Append` itself. -/
theorem Column.appends_append (distinguished : Distinguished known) (depth : Nat) :
    Appends known Column.append depth := by
  intro column source _ sound sourceSound accepted fits
  exact Column.appends_appendWith distinguished column.depth (Nat.le_refl _) sound sourceSound
    accepted fits

end ClickHouse
