import ClickHouse.Columns.Column

/-!
# Consistent columns

The conditions under which a column represents rows.  `WellTyped` says that a
column is of the class its type names, with what the constructors of `ColumnMap`
and `ColumnGeo` check; `Consistent` relates the
component columns to each other; `Savable` says that the leaves have a wire
form; `IsEmpty` describes a column fresh from its constructor.
-/

namespace ClickHouse

open Kit List Column

mutual

/-- The type with the field names of its tuples forgotten; they do not affect the wire form. -/
def Ty.layout : Ty → Ty
  | .leaf type => .leaf type
  | .geo kind => .geo kind
  | .array item => .array item.layout
  | .nullable nested => .nullable nested.layout
  | .tuple items _ => .tuple (Ty.layouts items) []
  | .lowCardinality nested => .lowCardinality nested.layout
  | .map key value => .map key.layout value.layout

def Ty.layouts : List Ty → List Ty
  | [] => []
  | item :: items => item.layout :: Ty.layouts items

end

/-- The type of the nested column of a `ColumnGeo`. -/
def GeoKind.dataType : GeoKind → Ty
  | .point => .tuple [.leaf (.fixed .float64), .leaf (.fixed .float64)] []
  | .ring => .array (.geo .point)
  | .polygon => .array (.geo .ring)
  | .multiPolygon => .array (.geo .polygon)

mutual

def Column.WellTyped : Column → Prop
  | .leaf _ => True
  | .array data _ => data.WellTyped
  | .nullable nested _ => nested.WellTyped
  | .tuple columns _ => AllWellTyped columns
  | .map data => data.WellTyped ∧ ∃ key value names, data.type = .array (.tuple [key, value] names)
  | .lowCardinality _ => True
  | .geo kind data => data.WellTyped ∧ data.type.layout = kind.dataType.layout
  | .adaptor _ => False

def Column.AllWellTyped : List Column → Prop
  | [] => True
  | column :: columns => column.WellTyped ∧ AllWellTyped columns

end

/-- The leaf has a wire form, of whole rows, and its lengths are values of `size_t`. -/
def Leaf.Savable : Leaf → Prop
  | .fixed type data => data.length * type.width < 2 ^ 64
  | .fixedString column =>
    0 < column.stringSize ∧ column.stringSize ∣ column.data.length ∧ column.data.length < 2 ^ 64
  | .string items => ∀ item ∈ items, item.length < 2 ^ 64
  | .json items => ∀ item ∈ items, item.length < 2 ^ 64
  | .nothing _ => False

def LowCardinality.Savable (column : LowCardinality) : Prop :=
  column.dictionary.data.Savable ∧ column.dictionary.size < 2 ^ 64 ∧
    column.index.column.length < 2 ^ 64

mutual

def Column.Savable : Column → Prop
  | .leaf column => column.Savable
  | .array data _ => data.Savable
  | .nullable nested _ => nested.Savable
  | .tuple columns _ => columns ≠ [] ∧ AllSavable columns
  | .map data => data.Savable
  | .lowCardinality column => column.Savable
  | .geo _ data => data.Savable
  | .adaptor column => column.Savable

def Column.AllSavable : List Column → Prop
  | [] => True
  | column :: columns => column.Savable ∧ AllSavable columns

end

/-- The offsets of an array increase and end at the size of its data. -/
def ConsistentOffsets (offsets : ColumnVector 8) (size : Nat) : Prop :=
  (∀ n < offsets.length, getOffset offsets n ≤ getOffset offsets (n + 1)) ∧
    getOffset offsets offsets.length = size

/-- Every index is a position of the dictionary.  The null map of a nullable dictionary marks
position 0 and no other. -/
def LowCardinality.Consistent (column : LowCardinality) : Prop :=
  (∀ position ∈ column.index.column, position.toNat < column.dictionary.size) ∧
    ∀ nulls, column.dictionary.nulls = some nulls →
      nulls.length = column.dictionary.data.size ∧
        ∀ n flag, nulls[n]? = some flag → (flag.toNat ≠ 0 ↔ n = 0)

mutual

def Column.Consistent : Column → Prop
  | .leaf _ => True
  | .array data offsets => ConsistentOffsets offsets data.size ∧ data.Consistent
  | .nullable nested nulls => nested.size = nulls.length ∧ nested.Consistent
  | .tuple columns _ => AllConsistent columns (firstSize columns)
  | .map data => data.Consistent
  | .lowCardinality column => column.Consistent
  | .geo _ data => data.Consistent
  | .adaptor _ => True

/-- Every column is consistent and has the given number of rows. -/
def Column.AllConsistent : List Column → Nat → Prop
  | [], _ => True
  | column :: columns, rows =>
    column.size = rows ∧ column.Consistent ∧ AllConsistent columns rows

end

mutual

def Column.IsEmpty : Column → Prop
  | .leaf column => column.size = 0
  | .array data offsets => offsets = [] ∧ data.IsEmpty
  | .nullable nested nulls => nulls = [] ∧ nested.IsEmpty
  | .tuple columns _ => AllEmpty columns
  | .map data => data.IsEmpty
  | .lowCardinality column => column.index.column = []
  | .geo _ data => data.IsEmpty
  | .adaptor column => column.size = 0

def Column.AllEmpty : List Column → Prop
  | [] => True
  | column :: columns => column.IsEmpty ∧ AllEmpty columns

end

/-! ## Consequences -/

theorem Dictionary.layout_type (dictionary : Dictionary) :
    dictionary.type.layout = dictionary.type := by
  unfold Dictionary.type
  cases dictionary.nulls with
  | none => rfl
  | some nulls => rfl

theorem layout_getMapType {type key value : Ty} {names : List Bytes}
    (pairs : type = .array (.tuple [key, value] names)) :
    (getMapType type).layout = .map key.layout value.layout := by
  rw [pairs]
  rfl

/-- The layout of a map is that of its pairs. -/
theorem Column.WellTyped.layout_map {data : Column} (typed : (map data).WellTyped) :
    ∃ key value, (map data).type.layout = .map key value ∧
      data.type.layout = .array (.tuple [key, value] []) := by
  obtain ⟨_, key, value, names, pairs⟩ := typed
  exact ⟨key.layout, value.layout, layout_getMapType pairs, by rw [pairs]; rfl⟩

/-! A well-typed column is of the class its type names. -/

section Layout

variable {column : Column} (typed : column.WellTyped)

include typed

theorem Column.leaf_of_layout {type : LeafType} (layout : column.type.layout = .leaf type) :
    ∃ leaf, column = .leaf leaf ∧ leaf.type = type := by
  cases column with
  | leaf leaf => exact ⟨leaf, rfl, Ty.leaf.inj layout⟩
  | adaptor leaf => exact absurd typed id
  | map data =>
    obtain ⟨_, _, own, _⟩ := typed.layout_map
    rw [own] at layout
    cases layout
  | _ => simp [Column.type, Ty.layout] at layout

theorem Column.array_of_layout {item : Ty} (layout : column.type.layout = .array item) :
    ∃ data offsets, column = .array data offsets ∧ data.type.layout = item := by
  cases column with
  | array data offsets => exact ⟨data, offsets, rfl, Ty.array.inj layout⟩
  | map data =>
    obtain ⟨_, _, own, _⟩ := typed.layout_map
    rw [own] at layout
    cases layout
  | _ => simp [type, Ty.layout] at layout

theorem Column.nullable_of_layout {item : Ty} (layout : column.type.layout = .nullable item) :
    ∃ nested nulls, column = .nullable nested nulls ∧ nested.type.layout = item := by
  cases column with
  | nullable nested nulls => exact ⟨nested, nulls, rfl, Ty.nullable.inj layout⟩
  | map data =>
    obtain ⟨_, _, own, _⟩ := typed.layout_map
    rw [own] at layout
    cases layout
  | _ => simp [type, Ty.layout] at layout

theorem Column.tuple_of_layout {items : List Ty} {names : List Bytes}
    (layout : column.type.layout = .tuple items names) :
    ∃ columns names, column = .tuple columns names ∧ Ty.layouts (types columns) = items := by
  cases column with
  | tuple columns names => exact ⟨columns, names, rfl, (Ty.tuple.inj layout).1⟩
  | map data =>
    obtain ⟨_, _, own, _⟩ := typed.layout_map
    rw [own] at layout
    cases layout
  | _ => simp [type, Ty.layout] at layout

theorem Column.map_of_layout {key value : Ty} (layout : column.type.layout = .map key value) :
    ∃ data, column = .map data ∧ data.type.layout = .array (.tuple [key, value] []) := by
  cases column with
  | map data =>
    obtain ⟨_, _, own, pairs⟩ := typed.layout_map
    rw [own] at layout
    cases layout
    exact ⟨data, rfl, pairs⟩
  | _ => simp [type, Ty.layout] at layout

theorem Column.lowCardinality_of_layout {nested : Ty}
    (layout : column.type.layout = .lowCardinality nested) :
    ∃ inner, column = .lowCardinality inner ∧ inner.dictionary.type = nested := by
  cases column with
  | lowCardinality inner =>
    refine ⟨inner, rfl, ?_⟩
    rw [← inner.dictionary.layout_type]
    exact Ty.lowCardinality.inj layout
  | map data =>
    obtain ⟨_, _, own, _⟩ := typed.layout_map
    rw [own] at layout
    cases layout
  | _ => simp [type, Ty.layout] at layout

theorem Column.geo_of_layout {kind : GeoKind} (layout : column.type.layout = .geo kind) :
    ∃ data, column = .geo kind data := by
  cases column with
  | geo own data =>
    cases layout
    exact ⟨data, rfl⟩
  | map data =>
    obtain ⟨_, _, own, _⟩ := typed.layout_map
    rw [own] at layout
    cases layout
  | _ => simp [type, Ty.layout] at layout

end Layout

variable {n : Nat}

/-- Offsets increase from any position to the end. -/
theorem ConsistentOffsets.le_size {offsets : ColumnVector 8} {size : Nat}
    (consistent : ConsistentOffsets offsets size) (inside : n ≤ offsets.length) :
    getOffset offsets n ≤ size := by
  obtain ⟨increasing, last⟩ := consistent
  induction inside using Nat.decreasingInduction with
  | self => exact Nat.le_of_eq last
  | of_succ n below ih => exact Nat.le_trans (increasing n below) ih

/-- In a consistent array `GetSize` does not wrap around. -/
theorem ConsistentOffsets.row_within {offsets : ColumnVector 8} {size : Nat}
    (consistent : ConsistentOffsets offsets size) (inside : n < offsets.length) :
    getOffset offsets n + getSize offsets n ≤ size := by
  have step := consistent.1 n inside
  have bound := consistent.le_size (n := n + 1) inside
  have word : getOffset offsets (n + 1) < 2 ^ 64 := by
    have defined : offsets[n + 1 - 1]? = some offsets[n] := getElem?_eq_getElem inside
    have word := Word.toNat_lt offsets[n]
    rw [getOffset, if_neg (Nat.succ_ne_zero n), defined]
    exact word
  unfold getSize
  omega

/-! ## Every row of a consistent column has a value -/

theorem Leaf.exists_bytes {leaf : Leaf} (inside : n < leaf.size) :
    ∃ bytes, leaf.bytes? n = some bytes := by
  cases leaf with
  | fixed type data => exact ⟨_, by rw [Leaf.bytes?, getElem?_eq_getElem inside]; rfl⟩
  | fixedString column =>
    have whole : (n + 1) * column.stringSize ≤ column.data.length :=
      Nat.le_trans (Nat.mul_le_mul_right _ inside) (Nat.div_mul_le_self _ _)
    have positive : 0 < column.stringSize := by
      rcases Nat.eq_zero_or_pos column.stringSize with zero | positive
      · rw [Leaf.size, zero, Nat.div_zero] at inside
        exact absurd inside (Nat.not_lt_zero n)
      · exact positive
    rw [Nat.add_one_mul] at whole
    exact ⟨_, by rw [Leaf.bytes?, FixedStrings.at?, if_pos ⟨by omega, whole⟩]⟩
  | string items => exact ⟨_, getElem?_eq_getElem inside⟩
  | json items => exact ⟨_, getElem?_eq_getElem inside⟩
  | nothing size => exact ⟨[], rfl⟩

theorem Leaf.exists_item {leaf : Leaf} (inside : n < leaf.size) :
    ∃ item, leaf.item? n = some item := by
  obtain ⟨bytes, defined⟩ := Leaf.exists_bytes inside
  exact ⟨_, by rw [Leaf.item?, defined]; rfl⟩

theorem LowCardinality.exists_item {column : LowCardinality} (consistent : column.Consistent)
    {n : Nat} (inside : n < column.index.column.length) : ∃ item, column.item? n = some item := by
  obtain ⟨positions, flags⟩ := consistent
  have within := positions _ (getElem_mem inside)
  unfold LowCardinality.item? LowCardinality.dictionaryIndex? Dictionary.item?
  unfold Dictionary.size at within
  rw [getElem?_eq_getElem inside]
  simp only [Option.map_some]
  split
  · exact ⟨_, rfl⟩
  · cases nullable : column.dictionary.nulls with
    | none =>
      rw [nullable] at within
      exact Leaf.exists_item within
    | some nulls =>
      rw [nullable] at within
      obtain ⟨sizes, _⟩ := flags nulls nullable
      have dataWithin : column.index.column[n].toNat < column.dictionary.data.size := sizes ▸ within
      dsimp only at within ⊢
      rw [getElem?_eq_getElem within]
      dsimp only
      split
      · exact Leaf.exists_item dataWithin
      · exact ⟨_, rfl⟩

theorem exists_mapM {α β : Type} {f : α → Option β} {l : List α}
    (defined : ∀ a ∈ l, ∃ b, f a = some b) : ∃ bs, l.mapM f = some bs := by
  induction l with
  | nil => exact ⟨[], rfl⟩
  | cons a l ih =>
    obtain ⟨b, first⟩ := defined a (mem_cons_self ..)
    obtain ⟨bs, others⟩ := ih fun c mem => defined c (mem_cons_of_mem _ mem)
    exact ⟨b :: bs, by rw [mapM_cons, first, others]; rfl⟩

mutual

theorem Column.exists_row : ∀ {column : Column}, column.Consistent → ∀ {n : Nat}, n < column.size →
    ∃ value, column.row? n = some value
  | .leaf column, _, n, inside => by
    obtain ⟨item, defined⟩ := Leaf.exists_item inside
    exact ⟨item.value, by rw [row?, defined]; rfl⟩
  | .array data offsets, consistent, n, inside => by
    rw [size] at inside
    have within := consistent.1.row_within inside
    have items : ∀ i ∈ range (getSize offsets n), ∃ value,
        data.row? (getOffset offsets n + i) = some value := by
      intro i mem
      have below := mem_range.mp mem
      exact exists_row consistent.2 (by omega)
    obtain ⟨values, all⟩ := exists_mapM items
    exact ⟨.array values, by rw [row?, if_pos inside, all]; rfl⟩
  | .nullable nested nulls, consistent, n, inside => by
    rw [row?, getElem?_eq_getElem inside]
    dsimp only
    split
    · exact exists_row consistent.2 (by rw [consistent.1]; exact inside)
    · exact ⟨.null, rfl⟩
  | .tuple columns names, consistent, n, inside => by
    obtain ⟨values, all⟩ := exists_rows consistent inside
    exact ⟨.tuple values, by rw [row?, all]; rfl⟩
  | .map data, consistent, n, inside =>
    exists_row (show data.Consistent from consistent) inside
  | .lowCardinality column, consistent, n, inside => by
    obtain ⟨item, defined⟩ := LowCardinality.exists_item consistent inside
    exact ⟨item.value, by rw [row?, defined]; rfl⟩
  | .geo kind data, consistent, n, inside =>
    exists_row (show data.Consistent from consistent) inside
  | .adaptor column, _, n, inside => by
    obtain ⟨item, defined⟩ := Leaf.exists_item inside
    exact ⟨item.value, by rw [row?, defined]; rfl⟩

theorem Column.exists_rows : ∀ {columns : List Column} {rows : Nat},
    AllConsistent columns rows → ∀ {n : Nat}, n < rows →
    ∃ values, rows? columns n = some values
  | [], _, _, _, _ => ⟨[], rfl⟩
  | column :: columns, rows, consistent, n, inside => by
    obtain ⟨size, consistent, others⟩ := consistent
    obtain ⟨value, first⟩ := exists_row consistent (n := n) (by omega)
    obtain ⟨values, all⟩ := exists_rows others inside
    exact ⟨value :: values, by rw [rows?, first, all]; rfl⟩

end

end ClickHouse
