import ClickHouse.Columns.Column

/-!
# Building LowCardinality columns

`lowcardinality.cpp` without its wire format: the reserved items of a
dictionary, the constructors, `AppendUnsafe` with its rollback, `Append` of a
column, `Clear`, `Swap`, `Slice` and `CloneEmpty`, and the typed interface
`ColumnLowCardinalityT`.  A member function that changes the column is a
program over its state, which is kept where it throws.
-/

namespace ClickHouse

open Kit

/-! ## Items -/

/-- The sizes `ItemView::ValidateData` allows; `none` if any size is allowed. -/
def Code.allowedSizes : Code → Except Error (Option (List Nat))
  | .void => .ok (some [0])
  | .int8 | .uint8 | .enum8 | .bool => .ok (some [1])
  | .int16 | .uint16 | .date | .enum16 => .ok (some [2])
  | .int32 | .uint32 | .float32 | .dateTime | .date32 | .ipv4 | .decimal32 | .time => .ok (some [4])
  | .int64 | .uint64 | .float64 | .dateTime64 | .decimal64 | .time64 => .ok (some [8])
  | .string | .fixedString | .json => .ok none
  | .ipv6 | .uuid | .uint128 | .int128 | .decimal128 => .ok (some [16])
  | .decimal => .ok (some [4, 8, 16])
  | .array => .error (.assertionError (ascii "Unsupported type in ItemView: Array"))
  | .nullable => .error (.assertionError (ascii "Unsupported type in ItemView: Nullable"))
  | .tuple => .error (.assertionError (ascii "Unsupported type in ItemView: Tuple"))
  | .lowCardinality => .error (.assertionError (ascii "Unsupported type in ItemView: LowCardinality"))
  | .map => .error (.assertionError (ascii "Unsupported type in ItemView: Map"))
  | code => .error (.unimplementedError (ascii "Unknown type code:" ++ toDecimal code.toNat))

/-- `ContainerToString` of the allowed sizes. -/
def joinOr : List Nat → Bytes
  | [] => []
  | [n] => toDecimal n
  | n :: m :: rest => toDecimal n ++ ascii " or " ++ joinOr (m :: rest)

/-- `ItemView(type, data)`, which validates the size of the data. -/
def ItemView.create (type : Code) (data : Bytes) : Except Error ItemView :=
  match type.allowedSizes with
  | .error e => .error e
  | .ok none => .ok ⟨type, data⟩
  | .ok (some sizes) =>
    if data.length ∈ sizes then .ok ⟨type, data⟩
    else .error (.assertionError (ascii "ItemView value size mismatch for " ++
      ascii type.typeName ++ ascii " expected: " ++ joinOr sizes ++ ascii ", got: " ++
      toDecimal data.length))

/-- `computeHashKey`, NULL having a key of its own. -/
def ItemView.hashKey [Hashing] (item : ItemView) : HashKey :=
  if item.type = .void then (0, 0) else Hashing.itemKey item.data

/-- `FixedSizeForDictionaryType` -/
def fixedSizeForDictionaryType : Code → Nat
  | .int8 | .uint8 => 1
  | .int16 | .uint16 | .date => 2
  | .int32 | .uint32 | .float32 | .dateTime | .date32 | .ipv4 => 4
  | .int64 | .uint64 | .float64 => 8
  | .int128 | .uint128 | .ipv6 | .uuid => 16
  | _ => 0

/-- `ZeroItemForDictionary` -/
def zeroItemForDictionary (code : Code) : Except Error ItemView :=
  ItemView.create code (List.replicate (fixedSizeForDictionaryType code) 0)

/-! ## The dictionary column -/

/-- `CloneEmpty` of a leaf column. -/
def Leaf.cloneEmpty : Leaf → Leaf
  | .fixed type _ => .fixed type []
  | .fixedString column => .fixedString ⟨column.stringSize, []⟩
  | .string _ => .string []
  | .json _ => .json []
  | .nothing _ => .nothing 0

@[simp] theorem Leaf.type_cloneEmpty (column : Leaf) : column.cloneEmpty.type = column.type := by
  cases column <;> rfl

def Dictionary.cloneEmpty (dictionary : Dictionary) : Dictionary :=
  ⟨dictionary.data.cloneEmpty, dictionary.nulls.map fun _ => []⟩

/-- The row `ColumnFixedString::Append` stores for a string that fits. -/
def padded (size : Nat) (data : Bytes) : Bytes :=
  data ++ List.replicate (size - data.length) 0

/-- `ColumnFixedString::Append` -/
def FixedStrings.append (column : FixedStrings) (data : Bytes) : Except Error FixedStrings :=
  if data.length ≤ column.stringSize then
    .ok ⟨column.stringSize, column.data ++ padded column.stringSize data⟩
  else
    .error (.validationError (ascii "Expected string of length not greater than " ++
      toDecimal column.stringSize ++ ascii " bytes, received " ++ toDecimal data.length ++
      ascii " bytes."))

/-- `item.get<T>()` with `sizeof(T) = w`. -/
def getWord (w : Nat) (data : Bytes) : Except Error (Word w) :=
  if size : data.length = w then .ok ⟨data, size⟩
  else .error (.assertionError (ascii "Incompatitable value type and size. Requested size: " ++
    toDecimal w ++ ascii " stored size: " ++ toDecimal data.length))

/-- `memcpy` of a value of `w` bytes from the data of an item. -/
def copyWord (w : Nat) (data : Bytes) : Except Error (Word w) :=
  if size : w ≤ data.length then .ok ⟨data.take w, by rw [List.length_take]; omega⟩
  else .error .undefinedBehavior

/-- `AppendToDictionary` for a dictionary that is not nullable. -/
def appendToDictionary (column : Leaf) (item : ItemView) : Except Error Leaf :=
  match column with
  | .fixedString column => (column.append item.data).map .fixedString
  | .string items => .ok (.string (items ++ [item.data]))
  | .fixed type data =>
    if type.code = .ipv6 ∨ type.code = .uuid then
      (copyWord type.width item.data).map fun word => .fixed type (data ++ [word])
    else if fixedSizeForDictionaryType type.code ≠ 0 then
      (getWord type.width item.data).map fun word => .fixed type (data ++ [word])
    else unexpected
  | .json _ => unexpected
  | .nothing _ => unexpected
where
  unexpected : Except Error Leaf :=
    .error (.validationError (ascii "Unexpected dictionary column type: " ++ column.type.getName))

/-- `AppendToDictionary`, with `AppendNullableToDictionary` for a nullable dictionary. -/
def Dictionary.append (dictionary : Dictionary) (item : ItemView) : Except Error Dictionary :=
  match dictionary.nulls with
  | none => do
    let data ← appendToDictionary dictionary.data item
    pure ⟨data, none⟩
  | some nulls =>
    if item.type = .void then do
      let zero ← zeroItemForDictionary dictionary.data.type.code
      let data ← appendToDictionary dictionary.data zero
      pure ⟨data, some (nulls ++ [Word.ofNat 1 1])⟩
    else if dictionary.data.type.code ≠ item.type then
      .error (.validationError (ascii "Invalid value. Type expected: " ++
        dictionary.data.type.getName))
    else do
      let data ← appendToDictionary dictionary.data item
      pure ⟨data, some (nulls ++ [Word.ofNat 1 0])⟩

/-! ## The lookup map -/

/-- `emplace`: an entry with the same key stays. -/
def UniqueItems.emplace (items : UniqueItems) (key : HashKey) (position : Nat) : UniqueItems :=
  if (items.lookup key).isSome then items else items ++ [(key, position)]

/-- `erase` of the entry with the given key. -/
def UniqueItems.erase (items : UniqueItems) (key : HashKey) : UniqueItems :=
  items.filter fun entry => entry.1 != key

/-! ## Member functions -/

namespace LowCardinality

/-- `appendIndex` converts the position to the width of the index column. -/
def appendIndex (column : LowCardinality) (position : Nat) : LowCardinality :=
  { column with
    index := ⟨column.index.type, column.index.column ++ [Word.ofNat column.index.type.width position]⟩ }

def removeLastIndex (column : LowCardinality) : LowCardinality :=
  { column with index := ⟨column.index.type, column.index.column.dropLast⟩ }

variable [Hashing]

/-- `AppendUnsafe` -/
def appendUnsafe (value : ItemView) : EStateM Error LowCardinality Unit := do
  let key := value.hashKey
  let column ← get
  let initialIndexSize := column.index.column.length
  let found := column.uniqueItems.lookup key
  let position := found.getD column.dictionary.size
  let isNewItem := found.isNone
  set { column with uniqueItems := column.uniqueItems.emplace key column.dictionary.size }
  tryCatch (do
      modify fun column => column.appendIndex position
      if isNewItem then
        let column ← get
        match column.dictionary.append value with
        | .ok dictionary => set { column with dictionary := dictionary }
        | .error e => throw e)
    fun e => do
      let column ← get
      if column.index.column.length ≠ initialIndexSize then modify removeLastIndex
      if isNewItem then
        modify fun column => { column with uniqueItems := column.uniqueItems.erase key }
      throw e

/-- `AppendNullItem` -/
def appendNullItem : EStateM Error LowCardinality Unit := do
  let column ← get
  let nullItem ← ofExcept <| match column.dictionary.nulls with
    | some _ => .ok ItemView.null
    | none => zeroItemForDictionary column.dictionary.data.type.code
  let dictionary ← ofExcept (column.dictionary.append nullItem)
  set { column with
    dictionary := dictionary, uniqueItems := column.uniqueItems.emplace nullItem.hashKey 0 }

/-- `AppendDefaultItem` -/
def appendDefaultItem : EStateM Error LowCardinality Unit := do
  let column ← get
  let defaultItem ← ofExcept (zeroItemForDictionary column.dictionary.data.type.code)
  let uniqueItems := column.uniqueItems.emplace defaultItem.hashKey column.dictionary.size
  set { column with uniqueItems := uniqueItems }
  let dictionary ← ofExcept (column.dictionary.append defaultItem)
  set { column with dictionary := dictionary, uniqueItems := uniqueItems }

/-- `AppendUnsafe` of the items at the given rows of another column. -/
def appendRows (getItem : Nat → Except Error ItemView) : List Nat → EStateM Error LowCardinality Unit
  | [] => pure ()
  | n :: rows => do
    let item ← ofExcept (getItem n)
    appendUnsafe item
    appendRows getItem rows

/-- `Clear` -/
def clear : EStateM Error LowCardinality Unit := do
  modify fun column =>
    { dictionary := column.dictionary.cloneEmpty, index := ⟨column.index.type, []⟩, uniqueItems := [] }
  let column ← get
  if column.dictionary.nulls.isSome then appendNullItem
  appendDefaultItem

/-- The members a constructor initialises before its body. -/
def blank (dictionary : Dictionary) : LowCardinality :=
  ⟨dictionary.cloneEmpty, ⟨.uint32, []⟩, []⟩

/-- `Setup` -/
def setup (dictionary : Dictionary) : EStateM Error LowCardinality Unit := do
  appendDefaultItem
  appendRows (fun n => itemOrUndefined (dictionary.item? n)) (List.range dictionary.size)

/-- The column a constructor body leaves, or what it throws. -/
def construct (body : EStateM Error LowCardinality Unit) (column : LowCardinality) :
    Except Error LowCardinality :=
  match body column with
  | .ok _ column => .ok column
  | .error e _ => .error e

/-- `ColumnLowCardinality(ColumnRef)` -/
def ofColumnRef (dictionary : Dictionary) : Except Error LowCardinality :=
  construct (setup dictionary) (blank dictionary)

/-- `ColumnLowCardinality(std::shared_ptr<ColumnNullable>)` -/
def ofNullable (dictionary : Dictionary) : Except Error LowCardinality :=
  construct (do appendNullItem; setup dictionary) (blank dictionary)

/-- The constructor `ColumnLowCardinalityT` selects by the type of its dictionary column. -/
def ofTyped (dictionary : Dictionary) : Except Error LowCardinality :=
  if dictionary.nulls.isSome then ofNullable dictionary else ofColumnRef dictionary

/-- `Slice`.  Its result is made with the constructor for a `ColumnRef`, also for a nullable
dictionary. -/
def slice (column : LowCardinality) (start len : Nat) : Except Error LowCardinality := do
  let start := min start column.index.column.length
  let len := min len (column.index.column.length - start)
  let result ← ofColumnRef column.dictionary.cloneEmpty
  construct (appendRows (fun n => itemOrUndefined (column.item? n)) (List.range' start len)) result

/-- `CloneEmpty`, with the same constructor. -/
def cloneEmpty (column : LowCardinality) : Except Error LowCardinality :=
  ofColumnRef column.dictionary.cloneEmpty

/-- `Append(ColumnRef)`: a column of neither the same type nor the type of the dictionary is
ignored. -/
def appendColumn (source : Column) : EStateM Error LowCardinality Unit := do
  let column ← get
  let sameDictionary := match source with
    | .lowCardinality other => column.dictionary.type.isEqual other.dictionary.type
    | _ => false
  if sameDictionary || column.dictionary.type.isEqual source.type then
    appendRows source.getItem (List.range source.size)

/-- `Swap` of two columns. -/
def swap (left right : LowCardinality) : Except Error (LowCardinality × LowCardinality) :=
  if left.dictionary.type.isEqual right.dictionary.type then .ok (right, left)
  else .error (.validationError (ascii "Can't swap() LowCardinality columns of different types."))

/-- `ColumnLowCardinalityT::Append`; `none` is the absent value of a nullable column. -/
def appendValue (value : Option Bytes) : EStateM Error LowCardinality Unit := do
  let column ← get
  match value with
  | some data => do
    let item ← ofExcept (ItemView.create column.dictionary.data.type.code data)
    appendUnsafe item
  | none => appendUnsafe .null

/-- `At` of the dictionary column: `none` if it throws, NULL as `some none`. -/
def typedAt? (dictionary : Dictionary) (n : Nat) : Option (Option Bytes) :=
  match dictionary.nulls with
  | none => (dictionary.data.bytes? n).map some
  | some nulls =>
    match nulls[n]? with
    | some flag => if flag.toNat = 0 then (dictionary.data.bytes? n).map some else some none
    | none => none

/-- `ColumnLowCardinalityT::At` -/
def at? (column : LowCardinality) (n : Nat) : Option (Option Bytes) :=
  (column.dictionaryIndex? n).bind (typedAt? column.dictionary)

end LowCardinality

end ClickHouse
