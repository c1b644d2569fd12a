import ClickHouse.Types
import ClickHouse.Kit.LittleEndian

/-!
# Columns

The column classes as data: what each of them stores, its type, its size and
the value of each of its rows.  The classes that store their rows in one
`ColumnVector` (numbers, `Bool`, `Date`, `Decimal`, `Enum`, `UUID` and so on)
are the leaf `fixed`.
-/

namespace ClickHouse

open Kit

/-- `ColumnVector<T>::data_`, with `sizeof(T) = w`. -/
abbrev ColumnVector (w : Nat) := List (Word w)

/-- `sizeof` of what a row of the type occupies in its column. -/
def FixedType.width : FixedType → Nat
  | .int8 | .uint8 | .bool | .enum8 _ => 1
  | .int16 | .uint16 | .date | .enum16 _ => 2
  | .int32 | .uint32 | .float32 | .date32 | .time | .ipv4 | .dateTime _ => 4
  | .int64 | .uint64 | .float64 | .dateTime64 _ _ | .time64 _ => 8
  | .int128 | .uint128 | .uuid | .ipv6 => 16
  | .decimal precision _ => if precision ≤ 9 then 4 else if precision ≤ 18 then 8 else 16

/-- `ColumnFixedString`: `string_size_` and `data_`, in which the rows follow each other. -/
structure FixedStrings where
  stringSize : Nat
  data : Bytes

/-- `ItemView`: the type code and the bytes of an item; `Void` stands for NULL. -/
structure ItemView where
  type : Code
  data : Bytes
deriving DecidableEq, Repr

/-- `ItemView{}` -/
def ItemView.null : ItemView := ⟨.void, []⟩

/-- The columns without component columns. -/
inductive Leaf
  | fixed (type : FixedType) (data : ColumnVector type.width)
  | fixedString (column : FixedStrings)
  | string (items : List Bytes)
  | json (items : List Bytes)
  | nothing (size : Nat)

def Leaf.type : Leaf → LeafType
  | .fixed type _ => .fixed type
  | .fixedString column => .fixedString column.stringSize
  | .string _ => .string
  | .json _ => .json
  | .nothing _ => .void

/-- `Size()`.  The division of `ColumnFixedString::Size` by zero is 0 here. -/
def Leaf.size : Leaf → Nat
  | .fixed _ data => data.length
  | .fixedString column => column.data.length / column.stringSize
  | .string items => items.length
  | .json items => items.length
  | .nothing size => size

/-- `ColumnFixedString::At`; `none` also stands for a view that ends after the data. -/
def FixedStrings.at? (column : FixedStrings) (n : Nat) : Option Bytes :=
  if n * column.stringSize < column.data.length ∧
      n * column.stringSize + column.stringSize ≤ column.data.length then
    some ((column.data.drop (n * column.stringSize)).take column.stringSize)
  else none

/-- The bytes of row `n`. -/
def Leaf.bytes? : Leaf → Nat → Option Bytes
  | .fixed _ data, n => (data[n]?).map Subtype.val
  | .fixedString column, n => column.at? n
  | .string items, n => items[n]?
  | .json items, n => items[n]?
  | .nothing _, _ => some []

/-- The data of a `ColumnFixedString` are whole rows.  Only a load whose size wraps around leaves
other data. -/
def Leaf.Aligned : Leaf → Prop
  | .fixedString column => column.stringSize ∣ column.data.length
  | _ => True

/-- `GetItem` of a leaf column, if there is a row `n`. -/
def Leaf.item? (column : Leaf) (n : Nat) : Option ItemView :=
  (column.bytes? n).map fun data => ⟨column.type.code, data⟩

/-- An empty column of the type. -/
def LeafType.emptyColumn : LeafType → Leaf
  | .void => .nothing 0
  | .fixed type => .fixed type []
  | .fixedString size => .fixedString ⟨size, []⟩
  | .string => .string []
  | .json => .json []

@[simp] theorem LeafType.type_emptyColumn (type : LeafType) : type.emptyColumn.type = type := by
  cases type <;> rfl

@[simp] theorem LeafType.size_emptyColumn (type : LeafType) : type.emptyColumn.size = 0 := by
  cases type with
  | fixedString size => exact Nat.zero_div size
  | _ => rfl

theorem LeafType.aligned_emptyColumn (type : LeafType) : type.emptyColumn.Aligned := by
  cases type with
  | fixedString size => exact Nat.dvd_zero size
  | _ => trivial

/-! ## LowCardinality -/

/-- `IndexType` -/
inductive IndexType
  | uint8 | uint16 | uint32 | uint64
deriving DecidableEq, Repr

def IndexType.width : IndexType → Nat
  | .uint8 => 1
  | .uint16 => 2
  | .uint32 => 4
  | .uint64 => 8

/-- `IndexState`: the index column and its type. -/
structure IndexState where
  type : IndexType
  column : ColumnVector type.width

/-- `details::LowCardinalityHashKey` -/
abbrev HashKey := UInt64 × UInt64

/-- `UniqueItems`: an unordered map from hash keys to dictionary positions. -/
abbrev UniqueItems := List (HashKey × Nat)

/-- `dictionary_column_`: a leaf column, with a null map if the dictionary is nullable. -/
structure Dictionary where
  data : Leaf
  nulls : Option (ColumnVector 1)

structure LowCardinality where
  dictionary : Dictionary
  index : IndexState
  uniqueItems : UniqueItems

def Dictionary.type (dictionary : Dictionary) : Ty :=
  match dictionary.nulls with
  | none => .leaf dictionary.data.type
  | some _ => .nullable (.leaf dictionary.data.type)

theorem Dictionary.type_eq {d e : Dictionary} (same : d.type = e.type) :
    d.data.type = e.data.type ∧ d.nulls.isSome = e.nulls.isSome := by
  unfold Dictionary.type at same
  cases left : d.nulls <;> cases right : e.nulls <;> simp_all

theorem Dictionary.type_mk {d e : Dictionary} (data : d.data.type = e.data.type)
    (nulls : d.nulls.isSome = e.nulls.isSome) : d.type = e.type := by
  unfold Dictionary.type
  cases left : d.nulls <;> cases right : e.nulls <;> simp_all

/-- `Size()` of the dictionary column; that of a nullable column is the size of its null map. -/
def Dictionary.size (dictionary : Dictionary) : Nat :=
  match dictionary.nulls with
  | none => dictionary.data.size
  | some nulls => nulls.length

/-- `getDictionaryIndex` -/
def LowCardinality.dictionaryIndex? (column : LowCardinality) (n : Nat) : Option Nat :=
  (column.index.column[n]?).map Word.toNat

/-! ## Columns -/

/-- A column.  `map` holds the array of pairs, `geo` the nested column, and `adaptor` is a
`LowCardinalitySerializationAdaptor`: a string column with the wire form of LowCardinality. -/
inductive Column
  | leaf (column : Leaf)
  | array (data : Column) (offsets : ColumnVector 8)
  | nullable (nested : Column) (nulls : ColumnVector 1)
  | tuple (columns : List Column) (names : List Bytes)
  | map (data : Column)
  | lowCardinality (column : LowCardinality)
  | geo (kind : GeoKind) (data : Column)
  | adaptor (column : Leaf)

/-- `GetMapType`, for the data of a map. -/
def getMapType : Ty → Ty
  | .array (.tuple [key, value] _) => .map key value
  | _ => .leaf .void

mutual

def Column.type : Column → Ty
  | .leaf column => .leaf column.type
  | .array data _ => .array data.type
  | .nullable nested _ => .nullable nested.type
  | .tuple columns names => .tuple (Column.types columns) names
  | .map data => getMapType data.type
  | .lowCardinality column => .lowCardinality column.dictionary.type
  | .geo kind _ => .geo kind
  | .adaptor column => .leaf column.type

/-- `CollectTypes` -/
def Column.types : List Column → List Ty
  | [] => []
  | column :: columns => column.type :: Column.types columns

end

mutual

def Column.size : Column → Nat
  | .leaf column => column.size
  | .array _ offsets => offsets.length
  | .nullable _ nulls => nulls.length
  | .tuple columns _ => Column.firstSize columns
  | .map data => data.size
  | .lowCardinality column => column.index.column.length
  | .geo _ data => data.size
  | .adaptor column => column.size

/-- The size of the first column, 0 if there is none. -/
def Column.firstSize : List Column → Nat
  | [] => 0
  | column :: _ => column.size

end

/-- `Size()` does not divide by zero. -/
def Column.sizeDefined : Column → Bool
  | .leaf (.fixedString column) => column.stringSize != 0
  | .adaptor (.fixedString column) => column.stringSize != 0
  | .tuple (column :: _) _ => column.sizeDefined
  | .map data => data.sizeDefined
  | .geo _ data => data.sizeDefined
  | _ => true

/-! ## Row values -/

inductive Value
  | bytes (data : Bytes)
  | null
  | array (items : List Value)
  | tuple (items : List Value)

/-- `ColumnArray::GetOffset` -/
def getOffset (offsets : ColumnVector 8) (n : Nat) : Nat :=
  if n = 0 then 0 else ((offsets[n - 1]?).map Word.toNat).getD 0

/-- `ColumnArray::GetSize`; the subtraction is that of `size_t`. -/
def getSize (offsets : ColumnVector 8) (n : Nat) : Nat :=
  (getOffset offsets (n + 1) + 2 ^ 64 - getOffset offsets n) % 2 ^ 64

/-- What an item denotes. -/
def ItemView.value (item : ItemView) : Value :=
  if item.type = .void then .null else .bytes item.data

/-- `GetItem` of the dictionary column, which is a `ColumnNullable` if there is a null map. -/
def Dictionary.item? (dictionary : Dictionary) (n : Nat) : Option ItemView :=
  match dictionary.nulls with
  | none => dictionary.data.item? n
  | some nulls =>
    match nulls[n]? with
    | some flag => if flag.toNat = 0 then dictionary.data.item? n else some .null
    | none => none

/-- `ColumnLowCardinality::GetItem` -/
def LowCardinality.item? (column : LowCardinality) (n : Nat) : Option ItemView :=
  match column.dictionaryIndex? n with
  | some position =>
    if column.dictionary.nulls.isSome ∧ position = 0 then some .null
    else column.dictionary.item? position
  | none => none

mutual

/-- The value of row `n`, if there is one. -/
def Column.row? : Column → Nat → Option Value
  | .leaf column, n => (column.item? n).map ItemView.value
  | .array data offsets, n =>
    if n < offsets.length then
      ((List.range (getSize offsets n)).mapM fun i => data.row? (getOffset offsets n + i)).map .array
    else none
  | .nullable nested nulls, n =>
    match nulls[n]? with
    | some flag => if flag.toNat = 0 then nested.row? n else some .null
    | none => none
  | .tuple columns _, n => (Column.rows? columns n).map .tuple
  | .map data, n => data.row? n
  | .lowCardinality column, n => (column.item? n).map ItemView.value
  | .geo _ data, n => data.row? n
  | .adaptor column, n => (column.item? n).map ItemView.value

/-- Row `n` of every column of a tuple. -/
def Column.rows? : List Column → Nat → Option (List Value)
  | [], _ => some []
  | column :: columns, n => do
    let value ← column.row? n
    let values ← Column.rows? columns n
    pure (value :: values)

end

/-- An item that is looked up without a check of its row. -/
def itemOrUndefined : Option ItemView → Except Error ItemView
  | some item => .ok item
  | none => .error .undefinedBehavior

/-- `GetItem`, which the columns of composite types do not support. -/
def Column.getItem : Column → Nat → Except Error ItemView
  | .leaf column, n => itemOrUndefined (column.item? n)
  | .adaptor column, n => itemOrUndefined (column.item? n)
  | .nullable nested nulls, n =>
    match nulls[n]? with
    | some flag => if flag.toNat = 0 then nested.getItem n else .ok .null
    | none => .error .undefinedBehavior
  | .lowCardinality column, n => itemOrUndefined (column.item? n)
  | column, _ =>
    .error (.unimplementedError (ascii "GetItem() is not supported for column of " ++
      column.type.getName))

end ClickHouse
