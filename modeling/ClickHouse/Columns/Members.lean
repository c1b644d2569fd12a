import ClickHouse.Factory
import ClickHouse.Kit.Program

/-!
# Slice, Append, Clear and Swap

These member functions for every class of columns, with the constructors of
`ColumnArray`.  A function that changes its column gives what the column is
afterwards also where it throws.  Columns are values here: what a column is
given is not used by another column afterwards, as `array.h` asks for.
-/

namespace ClickHouse

open Kit Column

/-! ## Leaf columns -/

/-- The words of a vector as those of a vector of the same width. -/
def recast {v w : Nat} (same : v = w) (data : ColumnVector v) : ColumnVector w :=
  data.map fun word => ⟨word.1, same ▸ word.2⟩

/-- `ColumnFixedString::Slice`, for rows whose positions in the data are values of `size_t`. -/
def FixedStrings.slice (column : FixedStrings) (start len : Nat) : FixedStrings where
  stringSize := column.stringSize
  data := (column.data.drop (start * column.stringSize)).take (len * column.stringSize)

/-- `Slice`.  `ColumnFixedString` divides by the length of its strings. -/
def Leaf.slice (column : Leaf) (start len : Nat) : Except Error Leaf :=
  match column with
  | .fixed type data => .ok (.fixed type ((data.drop start).take len))
  | .fixedString column =>
    if column.stringSize = 0 then .error .divisionByZero
    else .ok (.fixedString (column.slice start len))
  | .string items => .ok (.string ((items.drop start).take len))
  | .json items => .ok (.json ((items.drop start).take len))
  | .nothing _ => .ok (.nothing len)

/-- The classes of the two columns are the same, and so are those of their vectors; `ColumnBool`
also takes a `ColumnUInt8`. -/
def FixedType.takes (type other : FixedType) : Bool :=
  (type.code == other.code || type.code == .bool && other.code == .uint8) &&
    type.width == other.width

/-- `Append(ColumnRef)`, which ignores a column of another class. -/
def Leaf.append : Leaf → Leaf → Leaf
  | .fixed type data, .fixed other data' =>
    if same : other.width = type.width then
      if type.takes other then .fixed type (data ++ recast same data') else .fixed type data
    else .fixed type data
  | .fixedString column, .fixedString other =>
    if other.stringSize = column.stringSize then
      .fixedString ⟨column.stringSize, column.data ++ other.data⟩
    else .fixedString column
  | .string items, .string items' => .string (items ++ items')
  | .json items, .json items' => .json (items ++ items')
  | .nothing size, .nothing size' => .nothing ((size + size') % 2 ^ 64)
  | column, _ => column

/-- What `Swap` refuses. -/
def FixedType.swapError : FixedType → FixedType → Option Error
  | .decimal precision scale, .decimal precision' scale' =>
    if precision' ≠ precision then
      some (.validationError (ascii "Can't swap Decimal columns when precisions are not the same: " ++
        toDecimal precision ++ ascii "(this) != " ++ toDecimal precision' ++ ascii "(that)"))
    else if scale' ≠ scale then
      some (.validationError (ascii "Can't swap Decimal columns when scales are not the same: " ++
        toDecimal scale ++ ascii "(this) != " ++ toDecimal scale' ++ ascii "(that)"))
    else none
  | .dateTime64 precision _, .dateTime64 precision' _ =>
    if precision' ≠ precision then
      some (.validationError
        (ascii "Can't swap DateTime64 columns when precisions are not the same: " ++
          toDecimal precision ++ ascii "(this) != " ++ toDecimal precision' ++ ascii "(that)"))
    else none
  | .time64 precision, .time64 precision' =>
    if precision' ≠ precision then
      some (.validationError (ascii "Can't swap Time64 columns when precisions are not the same: " ++
        toDecimal precision ++ ascii "(this) != " ++ toDecimal precision' ++ ascii "(that)"))
    else none
  | type, other => if type.code = other.code then none else some .badCast

/-- `Swap`: both columns afterwards. -/
def Leaf.swap : Leaf → Leaf → Except Error (Leaf × Leaf)
  | .fixed type data, .fixed other data' =>
    match type.swapError other with
    | some e => .error e
    | none =>
      if same : type.width = other.width then
        .ok (.fixed type (recast same.symm data'), .fixed other (recast same data))
      else .error .badCast
  | .fixedString column, .fixedString other =>
    if column.stringSize ≠ other.stringSize then
      .error (.validationError
        (ascii "Can't swap FixedString columns when sizes are not the same: " ++
          toDecimal column.stringSize ++ ascii "(this) != " ++ toDecimal other.stringSize ++
          ascii "(that)"))
    else .ok (.fixedString other, .fixedString column)
  | .string items, .string items' => .ok (.string items', .string items)
  | .json items, .json items' => .ok (.json items', .json items)
  | .nothing size, .nothing size' => .ok (.nothing size', .nothing size)
  | _, _ => .error .badCast

/-! ## The types an array takes -/

section Types

variable [Hashing]

mutual

/-- `CanAppendTupleType`, which is also what `tuple.cpp` calls `CanAppendType`. -/
def canAppendTupleType : Ty → Ty → Bool
  | .tuple items _, .tuple items' _ => canAppendTupleTypes items items'
  | destination, source => destination.isEqual source

def canAppendTupleTypes : List Ty → List Ty → Bool
  | [], [] => true
  | item :: items, item' :: items' => canAppendTupleType item item' && canAppendTupleTypes items items'
  | _, _ => false

end

/-- `CanAppendType` -/
def canAppendType (destination source : Ty) : Bool :=
  destination.isEqual source ||
    match destination, source with
    | .array item, .array item' => canAppendType item item'
    | .tuple _ _, _ => canAppendTupleType destination source
    | .lowCardinality nested, _ => source.code != .lowCardinality && nested.isEqual source
    | .leaf (.fixed .bool), _ => source.code == .uint8
    | _, _ => false

end Types

/-! ## The constructors of ColumnArray and ColumnNullable -/

/-- The offsets do not decrease, the one before them being `previous`. -/
def isIncreasing (previous : Nat) : ColumnVector 8 → Bool
  | [] => true
  | offset :: offsets => decide (previous ≤ offset.toNat) && isIncreasing offset.toNat offsets

/-- `ColumnArray(ColumnRef, std::shared_ptr<ColumnUInt64>)` -/
def arrayWithOffsets (data : Column) (offsets : ColumnVector 8) : Except Error Column := do
  let expected := getOffset offsets offsets.length
  if !isIncreasing 0 offsets then
    .error (.validationError (ascii "offsets must be monotonically increasing"))
  else
    let data ← checkSize data
    if data.size ≠ expected then
      .error (.validationError (ascii "Mismatch between data and offsets: Expected " ++
        toDecimal expected ++ ascii " values in data, but got " ++ toDecimal data.size))
    else .ok (.array data offsets)

/-- `make_single_offset` -/
def makeSingleOffset (value : Nat) : ColumnVector 8 :=
  if value ≠ 0 then [Word.ofNat 8 value] else []

/-- `ColumnArray(ColumnRef)` -/
def arrayOfOneRow (data : Column) : Except Error Column := do
  let data ← checkSize data
  arrayWithOffsets data (makeSingleOffset data.size)

/-- `ColumnNullable(ColumnRef, ColumnRef)` -/
def nullableWithNulls (nested : Column) (nulls : ColumnVector 1) : Except Error Column := do
  let nested ← checkSize nested
  if nested.size ≠ nulls.length then
    .error (.validationError (ascii "count of elements in nested and nulls should be the same"))
  else .ok (.nullable nested nulls)

/-! ## Slice -/

/-- `ColumnVector::operator[]`, which checks its index. -/
def vectorAt (data : ColumnVector 8) (n : Nat) : Except Error Nat :=
  match data[n]? with
  | some word => .ok word.toNat
  | none => .error (.outOfRange (ascii "vector::_M_range_check: __n (which is " ++ toDecimal n ++
      ascii ") >= this->size() (which is " ++ toDecimal data.length ++ ascii ")"))

/-- `ColumnArray::GetOffset` with its check; `getOffset` is the value where it returns. -/
def checkedOffset (offsets : ColumnVector 8) (n : Nat) : Except Error Nat :=
  if n = 0 then .ok 0 else vectorAt offsets (n - 1)

/-- `ColumnArray::GetSize` with its checks; `getSize` is the value where it returns. -/
def checkedRowSize (offsets : ColumnVector 8) (n : Nat) : Except Error Nat := do
  let last ← vectorAt offsets n
  if n = 0 then .ok last
  else
    let first ← vectorAt offsets (n - 1)
    .ok ((last + 2 ^ 64 - first) % 2 ^ 64)

/-- The position `n` computed in `size_t`.  No array has `2 ^ 64` rows, so a position within an
array does not wrap around. -/
def wrapPosition (rows n : Nat) : Nat := if n ≤ rows then n else n % 2 ^ 64

theorem wrapPosition_eq {rows n : Nat} (inside : n ≤ rows) : wrapPosition rows n = n :=
  if_pos inside

/-- The offsets `ColumnArray::Slice` makes of `len` rows, the sum of the rows before being
`offset`. -/
def sliceOffsets (offsets : ColumnVector 8) : Nat → Nat → Nat → Except Error (ColumnVector 8)
  | _, 0, _ => .ok []
  | n, len + 1, offset => do
    let size ← checkedRowSize offsets (wrapPosition offsets.length n)
    let next := (offset + size) % 2 ^ 64
    let others ← sliceOffsets offsets (n + 1) len next
    .ok (Word.ofNat 8 next :: others)

section Members

variable [Hashing]

mutual

/-- `Slice`.  The slice of an adaptor is a plain column. -/
def Column.slice : Column → Nat → Nat → Except Error Column
  | .leaf column, start, len => (column.slice start len).map .leaf
  | .array data offsets, start, len =>
    if len ≠ 0 ∧ offsets.length < wrapPosition offsets.length (start + len) then
      .error (.validationError (ascii "Slice indexes are out of bounds"))
    else do
      let first ← checkedOffset offsets start
      let last ← checkedOffset offsets (wrapPosition offsets.length (start + len))
      let slicedData ← data.slice first ((last + 2 ^ 64 - first) % 2 ^ 64)
      let slicedOffsets ← sliceOffsets offsets start len 0
      arrayWithOffsets slicedData slicedOffsets
  | .nullable nested nulls, start, len => do
    let nested ← nested.slice start len
    nullableWithNulls nested ((nulls.drop start).take len)
  | .tuple columns names, start, len => do
    let columns ← sliceAll columns start len
    createNamedTuple columns names
  | .map data, start, len => (data.slice start len).map .map
  | .lowCardinality column, start, len => (column.slice start len).map .lowCardinality
  | .geo kind data, start, len => (data.slice start len).map (.geo kind)
  | .adaptor column, start, len => (column.slice start len).map .leaf

def Column.sliceAll : List Column → Nat → Nat → Except Error (List Column)
  | [], _, _ => .ok []
  | column :: columns, start, len => do
    let column ← column.slice start len
    let columns ← sliceAll columns start len
    .ok (column :: columns)

end

/-! ## Append -/

/-- The members of a `ColumnArray`. -/
structure ColumnArray where
  data : Column
  offsets : ColumnVector 8

def ColumnArray.toColumn (array : ColumnArray) : Column :=
  .array array.data array.offsets

/-- `ColumnArray::GetAsColumn` -/
def ColumnArray.getAsColumn (array : ColumnArray) (n : Nat) : Except Error Column :=
  if array.offsets.length ≤ n then
    .error (.validationError (ascii "Index is out ouf bounds: " ++ toDecimal n))
  else do
    let start ← checkedOffset array.offsets n
    let len ← checkedRowSize array.offsets n
    array.data.slice start len

/-- `ColumnArray::AddOffset` -/
def addOffset (offsets : ColumnVector 8) (n : Nat) : ColumnVector 8 :=
  offsets ++ [Word.ofNat 8 (getOffset offsets offsets.length + n)]

/-- A type mismatch, as `ColumnArray` and `ColumnTuple` report it. -/
def cannotAppend (source destination : Ty) : Error :=
  .validationError (ascii "can't append column of type " ++ source.getName ++ ascii " " ++
    ascii "to column type " ++ destination.getName)

/-- `ColumnArray::AppendAsColumn`, with the `Append` of the class of the data. -/
def ColumnArray.appendAsColumnWith (append : Column → EStateM Error Column Unit) (source : Column) :
    EStateM Error ColumnArray Unit := do
  let array ← get
  if canAppendType array.data.type source.type then do
    zoom ColumnArray.data (fun data array => { array with data := data }) (append source)
    let source ← ofExcept (checkSize source)
    modify fun array => { array with offsets := addOffset array.offsets source.size }
  else throw (cannotAppend source.type array.data.type)

/-- The loop of `ColumnArray::Append` over rows of the other array. -/
def ColumnArray.appendRowsWith (append : Column → EStateM Error Column Unit) (source : ColumnArray) :
    List Nat → EStateM Error ColumnArray Unit
  | [] => pure ()
  | n :: rows => do
    let row ← ofExcept (source.getAsColumn n)
    appendAsColumnWith append row
    appendRowsWith append source rows

/-- `Append` of columns to the columns of a tuple, one after the other. -/
def appendEach (append : Column → EStateM Error Column Unit) :
    List Column → List Column → EStateM.Result Error (List Column) Unit
  | source :: sources, column :: columns =>
    match append source column with
    | .ok _ column => embed (column :: ·) (appendEach append sources columns)
    | .error e column => .error e (column :: columns)
  | _, columns => .ok () columns

/-- `Append(ColumnRef)` of a column without component columns. -/
def Leaf.appendColumn (column : Leaf) : Column → Leaf
  | .leaf other => column.append other
  | .adaptor other => column.append other
  | _ => column

/-- `Append(ColumnRef)`: a column of another class is ignored, but for tuples.  A column whose type
equals that of a tuple and that is none is the null pointer of the cast. -/
def Column.appendWith : Nat → Column → EStateM Error Column Unit
  | 0, _ => throw .diverges
  | fuel + 1, source => fun column =>
    match column, source with
    | .leaf own, _ => .ok () (.leaf (own.appendColumn source))
    | .adaptor own, _ => .ok () (.adaptor (own.appendColumn source))
    | .array data offsets, .array data' offsets' =>
      embed ColumnArray.toColumn (ColumnArray.appendRowsWith (appendWith fuel)
        ⟨data', offsets'⟩ (List.range offsets'.length) ⟨data, offsets⟩)
    | .nullable nested nulls, .nullable nested' nulls' =>
      if nested'.type.isEqual nested.type then
        match appendWith fuel nested' nested with
        | .ok _ nested => .ok () (.nullable nested (nulls ++ nulls'))
        | .error e nested => .error e (.nullable nested nulls)
      else .ok () column
    | .tuple columns names, _ =>
      if canAppendTupleType column.type source.type then
        (match source with
        | .tuple columns' _ =>
          embed (tuple · names) (appendEach (appendWith fuel) columns' columns)
        | _ => .error .undefinedBehavior column)
      else .error (cannotAppend source.type column.type) column
    | .map data, .map data' => embed map (appendWith fuel data' data)
    | .geo kind data, .geo kind' data' =>
      if kind = kind' then embed (geo kind) (appendWith fuel data' data)
      else .ok () column
    | .lowCardinality own, _ =>
      embed lowCardinality (LowCardinality.appendColumn source own)
    | _, _ => .ok () column

omit [Hashing] in
mutual

/-- How deep component columns are nested. -/
def Column.depth : Column → Nat
  | .leaf _ => 1
  | .array data _ => data.depth + 1
  | .nullable nested _ => nested.depth + 1
  | .tuple columns _ => maxDepth columns + 1
  | .map data => data.depth + 1
  | .lowCardinality _ => 1
  | .geo _ data => data.depth + 1
  | .adaptor _ => 1

def Column.maxDepth : List Column → Nat
  | [] => 0
  | column :: columns => max column.depth (maxDepth columns)

end

/-- `Append(ColumnRef)` -/
def Column.append (source : Column) : EStateM Error Column Unit :=
  fun column => appendWith column.depth source column

/-- `ColumnArray::AppendAsColumn` -/
def ColumnArray.appendAsColumn (source : Column) : EStateM Error ColumnArray Unit :=
  ColumnArray.appendAsColumnWith append source

/-- `ColumnArray::Append` -/
def ColumnArray.append (source : Column) : EStateM Error ColumnArray Unit :=
  match source with
  | .array data offsets =>
    ColumnArray.appendRowsWith Column.append ⟨data, offsets⟩ (List.range offsets.length)
  | _ => pure ()

/-! ## Clear -/

mutual

/-- `Clear` -/
def Column.clear : Column → EStateM.Result Error Column Unit
  | .leaf column => .ok () (.leaf column.cloneEmpty)
  | .array data _ => embed (array · []) data.clear
  | .nullable nested nulls =>
    match nested.clear with
    | .ok _ nested => .ok () (.nullable nested [])
    | .error e nested => .error e (.nullable nested nulls)
  | .tuple columns names => embed (tuple · names) (clearAll columns)
  | .map data => embed map data.clear
  | .lowCardinality column => embed lowCardinality (LowCardinality.clear column)
  | .geo kind data => embed (geo kind) data.clear
  | .adaptor column => .ok () (.adaptor column.cloneEmpty)

def Column.clearAll : List Column → EStateM.Result Error (List Column) Unit
  | [] => .ok () []
  | column :: columns =>
    match column.clear with
    | .ok _ column => embed (column :: ·) (clearAll columns)
    | .error e column => .error e (column :: columns)

end

/-! ## Swap -/

/-- What the type checks of `ColumnTuple::Swap` throw. -/
def swapTypesError : List Ty → List Ty → Option Error
  | type :: types, other :: others =>
    if type.isEqual other then swapTypesError types others
    else some (.validationError (ascii "Can't swap() Tuple elements of types " ++ type.getName ++
      ascii " and " ++ other.getName ++ ascii "."))
  | _, _ => none

mutual

/-- `Swap` exchanges what the columns store, not their types: both columns afterwards. -/
def Column.swap : Column → Column → EStateM.Result Error (Column × Column) Unit
  | .leaf column, .leaf other => swapLeaves column other leaf leaf
  | .leaf column, .adaptor other => swapLeaves column other leaf adaptor
  | .adaptor column, .leaf other => swapLeaves column other adaptor leaf
  | .adaptor column, .adaptor other => swapLeaves column other adaptor adaptor
  | .array data offsets, .array data' offsets' =>
    match data.swap data' with
    | .ok _ (data, data') => .ok () (.array data offsets', .array data' offsets)
    | .error e (data, data') => .error e (.array data offsets, .array data' offsets')
  | .nullable nested nulls, .nullable nested' nulls' =>
    if nested.type.isEqual nested'.type then
      match nested.swap nested' with
      | .ok _ (nested, nested') => .ok () (.nullable nested nulls', .nullable nested' nulls)
      | .error e (nested, nested') => .error e (.nullable nested nulls, .nullable nested' nulls')
    else .error (.validationError (ascii "Can't swap() Nullable columns of different types."))
      (.nullable nested nulls, .nullable nested' nulls')
  | .tuple columns names, .tuple columns' names' =>
    if columns.length ≠ columns'.length then
      .error (.validationError (ascii "Can't swap() Tuple columns of different sizes."))
        (.tuple columns names, .tuple columns' names')
    else
      match swapTypesError (types columns) (types columns') with
      | some e => .error e (.tuple columns names, .tuple columns' names')
      | none => embed (fun both => (.tuple both.1 names, .tuple both.2 names'))
          (swapAll columns columns')
  | .map data, .map data' => embed (fun both => (.map both.1, .map both.2)) (data.swap data')
  | .lowCardinality column, .lowCardinality other =>
    match LowCardinality.swap column other with
    | .ok (column, other) => .ok () (.lowCardinality column, .lowCardinality other)
    | .error e => .error e (.lowCardinality column, .lowCardinality other)
  | .geo kind data, .geo kind' data' =>
    if kind = kind' then .ok () (.geo kind data', .geo kind' data)
    else .error .badCast (.geo kind data, .geo kind' data')
  | column, other => .error .badCast (column, other)
where
  swapLeaves (column other : Leaf) (make make' : Leaf → Column) :
      EStateM.Result Error (Column × Column) Unit :=
    match column.swap other with
    | .ok (column, other) => .ok () (make column, make' other)
    | .error e => .error e (make column, make' other)

def Column.swapAll : List Column → List Column →
    EStateM.Result Error (List Column × List Column) Unit
  | column :: columns, column' :: columns' =>
    match column.swap column' with
    | .ok _ (column, column') =>
      embed (fun both => (column :: both.1, column' :: both.2)) (swapAll columns columns')
    | .error e (column, column') => .error e (column :: columns, column' :: columns')
  | columns, columns' => .ok () (columns, columns')

end

/-- `ColumnArray::Clear` -/
def ColumnArray.clear : EStateM Error ColumnArray Unit :=
  fun array => embed (ColumnArray.mk · []) array.data.clear

/-- `ColumnArray::Swap` -/
def ColumnArray.swap (left right : ColumnArray) :
    EStateM.Result Error (ColumnArray × ColumnArray) Unit :=
  match left.data.swap right.data with
  | .ok _ (data, data') => .ok () (⟨data, right.offsets⟩, ⟨data', left.offsets⟩)
  | .error e (data, data') => .error e (⟨data, left.offsets⟩, ⟨data', right.offsets⟩)

end Members

end ClickHouse
