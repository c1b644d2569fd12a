import ClickHouse.Columns.LowCardinality
import ClickHouse.TypeParser

/-!
# The column factory

`factory.cpp`: the column a type name stands for.  A null column pointer is
`none`; where the source would go on to use a null pointer the result is
`undefinedBehavior`, and where it would divide by zero `divisionByZero`.
-/

namespace ClickHouse

open Kit

structure CreateColumnByTypeSettings where
  lowCardinalityAsWrappedColumn : Bool
deriving DecidableEq, Repr

/-- The conversion of an `int64_t` to `size_t`. -/
def toSizeT (value : Int) : Nat := (value % 2 ^ 64).toNat

/-- The conversion of an `int64_t` to `int16_t`. -/
def toInt16 (value : Int) : Int := value.bmod (2 ^ 16)

/-- `GetASTChildElement`, on the elements or on what was made of them. -/
def getASTChildElement {α : Type} (elements : List α) (position : Int) : Except Error α :=
  let index := if position < 0 then elements.length + position else position
  if position.natAbs ≥ elements.length then
    .error (.validationError (ascii "AST child element index out of bounds: " ++
      toDecimalInt position))
  else
    match elements[index.toNat]? with
    | some element => .ok element
    | none => .error .undefinedBehavior

/-- An empty column of a type with rows of a fixed size. -/
def Column.fixed (type : FixedType) : Column := .leaf (.fixed type [])

/-- An empty `ColumnFixedString`. -/
def Column.fixedString (size : Nat) : Column := .leaf (.fixedString ⟨size, []⟩)

/-- An empty `ColumnPoint`. -/
def Column.point : Column := .geo .point (.tuple [.fixed .float64, .fixed .float64] [])

/-- An empty `ColumnRing`. -/
def Column.ring : Column := .geo .ring (.array .point [])

/-- An empty `ColumnPolygon`. -/
def Column.polygon : Column := .geo .polygon (.array .ring [])

/-- An empty `ColumnMultiPolygon`. -/
def Column.multiPolygon : Column := .geo .multiPolygon (.array .polygon [])

/-- `DateTime64Type::DateTime64Type` -/
def createDateTime64 (precision : Nat) (timezone : Bytes) : Except Error FixedType :=
  if fits : precision < 19 then .ok (.dateTime64 ⟨precision, fits⟩ timezone)
  else .error (.validationError (ascii "DateTime64 precision is > 18"))

/-- `Time64Type::Time64Type` -/
def createTime64 (precision : Nat) : Except Error FixedType :=
  if fits : precision < 10 then .ok (.time64 ⟨precision, fits⟩)
  else .error (.validationError (ascii "Time64 precision is > 9"))

/-- `CreateTerminalColumn` -/
def createTerminalColumn (ast : TypeAst) : Except Error (Option Column) :=
  match ast.code with
  | .void => .ok (some (.leaf (.nothing 0)))
  | .bool => .ok (some (.fixed .bool))
  | .uint8 => .ok (some (.fixed .uint8))
  | .uint16 => .ok (some (.fixed .uint16))
  | .uint32 => .ok (some (.fixed .uint32))
  | .uint64 => .ok (some (.fixed .uint64))
  | .int8 => .ok (some (.fixed .int8))
  | .int16 => .ok (some (.fixed .int16))
  | .int32 => .ok (some (.fixed .int32))
  | .int64 => .ok (some (.fixed .int64))
  | .int128 => .ok (some (.fixed .int128))
  | .uint128 => .ok (some (.fixed .uint128))
  | .float32 => .ok (some (.fixed .float32))
  | .float64 => .ok (some (.fixed .float64))
  | .decimal => do
    let precision ← getASTChildElement ast.elements 0
    let scale ← getASTChildElement ast.elements (-1)
    .ok (some (.fixed (.decimal (toSizeT precision.value) (toSizeT scale.value))))
  | .decimal32 => do
    let scale ← getASTChildElement ast.elements 0
    .ok (some (.fixed (.decimal 9 (toSizeT scale.value))))
  | .decimal64 => do
    let scale ← getASTChildElement ast.elements 0
    .ok (some (.fixed (.decimal 18 (toSizeT scale.value))))
  | .decimal128 => do
    let scale ← getASTChildElement ast.elements 0
    .ok (some (.fixed (.decimal 38 (toSizeT scale.value))))
  | .string => .ok (some (.leaf (.string [])))
  | .fixedString => do
    let size ← getASTChildElement ast.elements 0
    .ok (some (.fixedString (toSizeT size.value)))
  | .dateTime =>
    match ast.elements with
    | [] => .ok (some (.fixed (.dateTime [])))
    | timezone :: _ => .ok (some (.fixed (.dateTime timezone.valueString)))
  | .dateTime64 =>
    match ast.elements with
    | [] => .ok none
    | [precision] => do
      let type ← createDateTime64 (toSizeT precision.value) []
      .ok (some (.fixed type))
    | precision :: timezone :: _ => do
      let type ← createDateTime64 (toSizeT precision.value) timezone.valueString
      .ok (some (.fixed type))
  | .date => .ok (some (.fixed .date))
  | .date32 => .ok (some (.fixed .date32))
  | .ipv4 => .ok (some (.fixed .ipv4))
  | .ipv6 => .ok (some (.fixed .ipv6))
  | .uuid => .ok (some (.fixed .uuid))
  | .point => .ok (some .point)
  | .ring => .ok (some .ring)
  | .polygon => .ok (some .polygon)
  | .multiPolygon => .ok (some .multiPolygon)
  | .time => .ok (some (.fixed .time))
  | .time64 =>
    match ast.elements with
    | [] => .ok none
    | precision :: _ => do
      let type ← createTime64 (toSizeT precision.value)
      .ok (some (.fixed type))
  | .json => .ok (some (.leaf (.json [])))
  | _ => .ok none

/-! ## Composite columns -/

/-- A column pointer that is used without a check. -/
def dereference (column : Option Column) : Except Error Column :=
  match column with
  | some column => .ok column
  | none => .error .undefinedBehavior

/-- A column whose size is taken. -/
def checkSize (column : Column) : Except Error Column :=
  if column.sizeDefined then .ok column else .error .divisionByZero

/-- `ColumnArray(ColumnRef)` of an empty column. -/
def createArray (data : Column) : Except Error Column := do
  let data ← checkSize data
  .ok (.array data [])

/-- `ColumnNullable(ColumnRef, ColumnRef)` of an empty column and an empty null map. -/
def createNullable (nested : Column) : Except Error Column := do
  let nested ← checkSize nested
  .ok (.nullable nested [])

/-- `ColumnTuple(columns, names)`, which refuses empty names. -/
def createNamedTuple (columns : List Column) (names : List Bytes) : Except Error Column :=
  if names.any List.isEmpty then
    .error (.validationError (ascii "Tuple field names can't be empty"))
  else .ok (.tuple columns names)

/-- The columns of a tuple or a map, in order, until one is a null pointer or throws. -/
def collectColumns : List (Except Error (Option Column)) → Except Error (Option (List Column))
  | [] => .ok (some [])
  | column :: columns =>
    match column with
    | .error e => .error e
    | .ok none => .ok none
    | .ok (some column) => do
      let columns ← collectColumns columns
      .ok (columns.map (column :: ·))

/-- The items of an enum, from its elements in pairs. -/
def enumItems : List TypeAst → List EnumItem
  | label :: number :: rest => (label.valueString, toInt16 number.value) :: enumItems rest
  | _ => []

/-- `GetDefaultItemForDictionary` -/
def defaultItemForDictionary : Column → Except Error ItemView
  | .nullable nested _ => defaultItemForDictionary nested
  | column => zeroItemForDictionary column.type.code

/-- Appending the reserved item of a column that is not a leaf and not nullable. -/
def refuseDictionary {α : Type} (column : Column) : Except Error α := do
  let _ ← zeroItemForDictionary column.type.code
  .error (.validationError (ascii "Unexpected dictionary column type: " ++ column.type.getName))

/-- The leaf that is made when the column is cloned for a dictionary. -/
def Column.keys? : Column → Option Leaf
  | .leaf data => some data
  | .adaptor data => some data
  | _ => none

/-- Appending the null item of a column to it. -/
def appendNullTo : Column → Except Error Unit
  | .nullable nested _ => appendNullTo nested
  | column =>
    match column.keys? with
    | some data => do
      let zero ← zeroItemForDictionary data.type.code
      let _ ← appendToDictionary data zero
      .ok ()
    | none => refuseDictionary column

/-- The reserved item of a dictionary that is nullable over `nested`, which is not a leaf, has the
wrong type. -/
def refuseNested {α : Type} (nested : Column) : Except Error α :=
  .error (.validationError (ascii "Invalid value. Type expected: " ++ nested.type.getName))

variable [Hashing]

/-- `ColumnLowCardinality(ColumnRef)` of an empty column.  The size of the column is taken after its
reserved item, that of a column in a nullable one when this is cloned. -/
def createLowCardinality (dictionary : Column) : Except Error Column :=
  match dictionary with
  -- The factory comes here with a nullable column that `SimpleAggregateFunction` stands for.
  | .nullable nested _ => do
    let nested ← checkSize nested
    match nested.keys? with
    | some data => (LowCardinality.ofColumnRef ⟨data, some []⟩).map .lowCardinality
    | none => do
      let item ← defaultItemForDictionary nested
      if item.type = .void then appendNullTo nested
      refuseNested nested
  | dictionary =>
    match dictionary.keys? with
    | some data => do
      let _ ← checkSize dictionary
      (LowCardinality.ofColumnRef ⟨data, none⟩).map .lowCardinality
    | none => refuseDictionary dictionary

/-- `ColumnLowCardinality(std::shared_ptr<ColumnNullable>)` of a nullable column over `nested`. -/
def createNullableLowCardinality (nested : Column) : Except Error Column := do
  let nested ← checkSize nested
  match nested.keys? with
  | some data => (LowCardinality.ofNullable ⟨data, some []⟩).map .lowCardinality
  | none => do
    appendNullTo nested
    refuseNested nested

/-- What `CreateColumnFromAst` makes of an element, and of each of its elements. -/
structure Created where
  ast : TypeAst
  column : Except Error (Option Column)
  elements : List (Except Error (Option Column))

/-- The case `TypeAst::LowCardinality` of `CreateColumnFromAst`. -/
def createLowCardinalityFromAst (settings : CreateColumnByTypeSettings) (nested : Created) :
    Except Error (Option Column) :=
  let unsupported (text : String) : Except Error (Option Column) :=
    .error (.unimplementedError (ascii "LowCardinality(" ++ nested.ast.name ++ ascii text))
  if settings.lowCardinalityAsWrappedColumn then
    match nested.ast.code with
    | .string => .ok (some (.adaptor (.string [])))
    | .fixedString => do
      let size ← getASTChildElement nested.ast.elements 0
      .ok (some (.adaptor (.fixedString ⟨toSizeT size.value, []⟩)))
    | .nullable => unsupported ") is not supported with LowCardinalityAsWrappedColumn on"
    | _ => unsupported ") is not supported"
  else
    match nested.ast.code with
    | .string | .fixedString => do
      let inner ← dereference (← nested.column)
      let column ← createLowCardinality inner
      .ok (some column)
    | .nullable => do
      let child ← getASTChildElement nested.elements 0
      let inner ← dereference (← child)
      let column ← createNullableLowCardinality inner
      .ok (some column)
    | _ => do
      match ← nested.column with
      | none => unsupported ") is not supported"
      | some inner => do
        let column ← createLowCardinality inner
        .ok (some column)

/-- `CreateColumnFromAst` of an element, given what it makes of the elements of that element. -/
def createFromElements (settings : CreateColumnByTypeSettings) (ast : TypeAst)
    (elements : List Created) : Except Error (Option Column) :=
  match ast.metaKind with
  | .array => do
    let child ← getASTChildElement elements 0
    let data ← dereference (← child.column)
    let column ← createArray data
    .ok (some column)
  | .nullable => do
    let child ← getASTChildElement elements 0
    let nested ← dereference (← child.column)
    let column ← createNullable nested
    .ok (some column)
  | .terminal => createTerminalColumn ast
  | .tuple => do
    match ← collectColumns (elements.map Created.column) with
    | none => .ok none
    | some columns => do
      let names := ast.elements.map TypeAst.elementName
      if names.any fun name => !name.isEmpty then
        let column ← createNamedTuple columns names
        .ok (some column)
      else .ok (some (.tuple columns []))
  | .enum =>
    if ast.elements.length % 2 ≠ 0 then
      .error (.validationError (ast.name ++ ascii " content is not correct"))
    else
      let type := EnumType.ofItems (enumItems ast.elements)
      match ast.code with
      | .enum8 => .ok (some (.fixed (.enum8 type)))
      | .enum16 => .ok (some (.fixed (.enum16 type)))
      | _ => .ok none
  | .lowCardinality => do
    let nested ← getASTChildElement elements 0
    createLowCardinalityFromAst settings nested
  | .simpleAggregateFunction => do
    let child ← getASTChildElement elements (-1)
    child.column
  | .map =>
    if ast.elements.length ≠ 2 then
      .error (.validationError (ast.name ++ ascii " content is not correct"))
    else do
      match ← collectColumns (elements.map Created.column) with
      | none => .ok none
      | some columns => do
        let data ← createArray (.tuple columns [])
        .ok (some (.map data))
  | .assign | .null | .number | .string => .ok none

mutual

def create (settings : CreateColumnByTypeSettings) : TypeAst → Created
  | ⟨metaKind, code, name, elementName, value, valueString, elements⟩ =>
    let children := createAll settings elements
    let ast : TypeAst := ⟨metaKind, code, name, elementName, value, valueString, elements⟩
    ⟨ast, createFromElements settings ast children, children.map Created.column⟩

def createAll (settings : CreateColumnByTypeSettings) : List TypeAst → List Created
  | [] => []
  | ast :: rest => create settings ast :: createAll settings rest

end

/-- `CreateColumnFromAst` -/
def createColumnFromAst (settings : CreateColumnByTypeSettings) (ast : TypeAst) :
    Except Error (Option Column) :=
  (create settings ast).column

/-- `CreateColumnByType` -/
def createColumnByType (settings : CreateColumnByTypeSettings) (typeName : Bytes) :
    Except Error (Option Column) := do
  match ← parseTypeName typeName with
  | some ast => createColumnFromAst settings ast
  | none => .ok none

end ClickHouse
