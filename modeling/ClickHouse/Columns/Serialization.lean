import ClickHouse.Columns.LowCardinality
import ClickHouse.Kit.Emit
import ClickHouse.WireFormat

/-!
# Saving and loading columns

`SavePrefix`, `SaveBody`, `LoadPrefix` and `LoadBody` of every column class.
Prefixes and bodies are separate passes over the component columns.  A loader
returns the flag of the source together with the column as it is left, also
when the flag is false.
-/

namespace ClickHouse

open Kit

/-! ## Saving -/

/-- `JSONSerializationVersion::String` -/
def jsonSerializationVersion : Nat := 1

/-- `SharedDictionariesWithAdditionalKeys` -/
def keySerializationVersion : Nat := 1

def needGlobalDictionaryBit : Nat := 1 <<< 8

def hasAdditionalKeysBit : Nat := 1 <<< 9

/-- The value of the enumeration `IndexType`. -/
def IndexType.toNat : IndexType → Nat
  | .uint8 => 0
  | .uint16 => 1
  | .uint32 => 2
  | .uint64 => 3

def Leaf.savePrefix : Leaf → Emit Error
  | .json _ => .write (writeFixedUInt 8 jsonSerializationVersion)
  | _ => .nothing

def Leaf.saveBody : Leaf → Emit Error
  | .fixed _ data => .write (memory data)
  | .fixedString column => .write column.data
  | .string items => .writes (items.flatMap writeString)
  | .json items => .writes (items.flatMap writeString)
  | .nothing _ =>
    .throw (.unimplementedError (ascii "method SaveBody is not supported for Nothing column"))

/-- `ColumnLowCardinality::SaveBody`; the null map of the dictionary is not sent. -/
def LowCardinality.saveBody (column : LowCardinality) : Emit Error :=
  (Emit.write (writeFixedUInt 8 (column.index.type.toNat ||| hasAdditionalKeysBit))).andThen <|
  (Emit.write (writeFixedUInt 8 column.dictionary.size)).andThen <|
  column.dictionary.data.saveBody.andThen <|
  (Emit.write (writeFixedUInt 8 column.index.column.length)).andThen <|
  Emit.write (memory column.index.column)

mutual

def Column.savePrefix : Column → Emit Error
  | .leaf column => column.savePrefix
  | .array data _ => data.savePrefix
  | .nullable nested _ => nested.savePrefix
  | .tuple columns _ => Column.savePrefixes columns
  | .map data => data.savePrefix
  | .lowCardinality _ => .write (writeFixedUInt 8 keySerializationVersion)
  | .geo _ _ => .nothing
  | .adaptor column => column.savePrefix

def Column.savePrefixes : List Column → Emit Error
  | [] => .nothing
  | column :: columns => column.savePrefix.andThen (Column.savePrefixes columns)

end

section SaveBody

variable [Hashing]

/-- `LowCardinalitySerializationAdaptor::SaveBody` -/
def Adaptor.saveBody (column : Leaf) : Emit Error :=
  match LowCardinality.ofTyped ⟨column, none⟩ with
  | .ok lowCardinality => lowCardinality.saveBody
  | .error e => .throw e

mutual

def Column.saveBody : Column → Emit Error
  | .leaf column => column.saveBody
  | .array data offsets =>
    (Emit.write (memory offsets)).andThen (if data.size > 0 then data.saveBody else .nothing)
  | .nullable nested nulls => (Emit.write (memory nulls)).andThen nested.saveBody
  | .tuple columns _ => Column.saveBodies columns
  | .map data => data.saveBody
  | .lowCardinality column => column.saveBody
  | .geo _ data => data.saveBody
  | .adaptor column => Adaptor.saveBody column

def Column.saveBodies : List Column → Emit Error
  | [] => .nothing
  | column :: columns => column.saveBody.andThen (Column.saveBodies columns)

end

def Column.save (column : Column) : Emit Error :=
  column.savePrefix.andThen column.saveBody

end SaveBody

/-! ## Loading -/

section Load

variable {σ : Type} [Source Error σ]

/-- `ColumnVector::LoadBody`: the vector is resized, then as many bytes as there are read into
its memory. -/
def ColumnVector.loadBody {w : Nat} (data : ColumnVector w) (rows : Nat) :
    EStateM Error σ (Bool × ColumnVector w) := do
  let bytes ← readAll (rows * w)
  pure (bytes.length == rows * w, toWords w rows (bytes ++ (memory data).drop bytes.length))

/-- `string_size_ * rows`, a product of `size_t`. -/
def FixedStrings.loadSize (column : FixedStrings) (rows : Nat) : Nat :=
  column.stringSize * rows % 2 ^ 64

/-- `data_` after `bytes` were read into its first `size` bytes, to which it was resized. -/
def FixedStrings.resized (column : FixedStrings) (size : Nat) (bytes : Bytes) : FixedStrings where
  stringSize := column.stringSize
  data := (bytes ++ column.data.drop bytes.length ++ List.replicate size 0).take size

/-- The rows that `LoadBody` makes room for.  `ColumnUUID` loads `rows * 2` numbers and `ColumnIPv6`
a `ColumnFixedString`, both with a product of `size_t`. -/
def FixedType.loadedRows : FixedType → Nat → Nat
  | .uuid, rows => rows * 2 % 2 ^ 64 / 2
  | .ipv6, rows => 16 * rows % 2 ^ 64 / 16
  | _, rows => rows

/-- The loop of `ColumnString::LoadBody`: `none` if a read fails. -/
def loadStrings : Nat → EStateM Error σ (Option (List Bytes))
  | 0 => pure (some [])
  | rows + 1 => do
    match ← readUInt64 with
    | none => pure none
    | some len =>
      match ← readFixed len with
      | none => pure none
      | some item => do
        let items ← loadStrings rows
        pure (items.map (item :: ·))

/-- `ColumnString::LoadBody`, which keeps the old items unless all rows are read. -/
def ColumnString.loadBody (items : List Bytes) (rows : Nat) :
    EStateM Error σ (Bool × List Bytes) := do
  match ← loadStrings rows with
  | some loaded => pure (true, loaded)
  | none => pure (false, items)

def Leaf.loadPrefix : Leaf → EStateM Error σ Bool
  | .json _ => do
    match ← readFixedUInt 8 with
    | none => pure false
    | some version =>
      if version ≠ jsonSerializationVersion then
        throw (.protocolError (ascii <| "Unsupported JSON serialization version. " ++
          "Make sure output_format_native_write_json_as_string=1 is set."))
      else pure true
  | _ => pure true

def Leaf.loadBody (column : Leaf) (rows : Nat) : EStateM Error σ (Bool × Leaf) :=
  match column with
  | .fixed type data => do
    let (ok, data) ← data.loadBody (type.loadedRows rows)
    pure (ok, .fixed type data)
  | .fixedString column => do
    let size := column.loadSize rows
    let bytes ← readAll size
    pure (bytes.length == size, .fixedString (column.resized size bytes))
  | .string items => do
    let (ok, items) ← ColumnString.loadBody items rows
    pure (ok, .string items)
  | .json items => do
    let (ok, items) ← ColumnString.loadBody items rows
    pure (ok, .json items)
  | .nothing size => do
    let _ ← skip rows
    pure (true, .nothing ((size + rows) % 2 ^ 64))

/-- `createIndexColumn`, given `index_serialization_type & IndexTypeMask`. -/
def createIndexColumn : Nat → Except Error IndexType
  | 0 => .ok .uint8
  | 1 => .ok .uint16
  | 2 => .ok .uint32
  | 3 => .ok .uint64
  | n =>
    .error (.validationError (ascii "Invalid LowCardinality index type value: " ++ toDecimal n))

/-- The null map `Load` builds: the first entry of the dictionary is NULL, the others are not. -/
def nullFlags (size : Nat) : ColumnVector 1 :=
  Word.ofNat 1 1 :: List.replicate (size - 1) (Word.ofNat 1 0)

/-- What a failed read of the `static` function `Load` throws. -/
def orThrow {α : Type} (message : String) : Option α → EStateM Error σ α
  | some a => pure a
  | none => throw (.protocolError (ascii message))

/-- `ColumnLowCardinality::LoadPrefix` -/
def LowCardinality.loadPrefix : EStateM Error σ Bool := do
  let keyVersion ← readFixedUInt 8
  let keyVersion ← orThrow "Failed to read key serialization version." keyVersion
  if keyVersion ≠ keySerializationVersion then
    throw (.protocolError (ascii "Invalid key serialization version value."))
  else pure true

mutual

def Column.loadPrefix : Column → Nat → EStateM Error σ Bool
  | .leaf column, _ => column.loadPrefix
  | .array data _, rows => if rows = 0 then pure true else data.loadPrefix rows
  | .nullable nested _, rows => nested.loadPrefix rows
  | .tuple columns _, rows => Column.loadPrefixes columns rows
  | .map data, rows => data.loadPrefix rows
  | .lowCardinality _, _ => LowCardinality.loadPrefix
  | .geo _ _, _ => pure true
  -- `Slice(0, 0)` takes the size of the column.
  | .adaptor column, _ =>
    if (Column.adaptor column).sizeDefined then LowCardinality.loadPrefix else throw .divisionByZero

def Column.loadPrefixes : List Column → Nat → EStateM Error σ Bool
  | [], _ => pure true
  | column :: columns, rows => do
    if ← column.loadPrefix rows then Column.loadPrefixes columns rows else pure false

end

variable [Hashing]

/-- The lookup map `Load` builds from the loaded dictionary. -/
def uniqueItemsOf (dictionary : Dictionary) : UniqueItems :=
  (List.range dictionary.data.size).foldl
    (fun items i => items.emplace (((dictionary.item? i).getD .null).hashKey) i) []

/-- What `Load` has before it reads the index. -/
structure LoadedKeys where
  indexType : IndexType
  dictionary : Dictionary

/-- The function `Load` of `lowcardinality.cpp` up to the comparison of the two numbers of rows, on
an empty clone of the dictionary. -/
def LowCardinality.loadKeys (dictionary : Dictionary) (rows : Nat) : EStateM Error σ LoadedKeys := do
  let serializationType ← readFixedUInt 8
  let serializationType ← orThrow "Failed to read index serializaton type." serializationType
  match createIndexColumn (serializationType &&& 0xFF) with
  | .error e => throw e
  | .ok indexType =>
    if serializationType &&& needGlobalDictionaryBit ≠ 0 then
      throw (.unimplementedError (ascii "Global dictionary is not supported."))
    else if serializationType &&& hasAdditionalKeysBit = 0 then
      throw (.validationError (ascii "HasAdditionalKeysBit is missing."))
    else do
      let numberOfKeys ← readFixedUInt 8
      let numberOfKeys ←
        orThrow "Failed to read number of rows in dictionary column." numberOfKeys
      let (ok, data) ← dictionary.data.cloneEmpty.loadBody numberOfKeys
      if !ok then throw (.protocolError (ascii "Failed to read values of dictionary column."))
      else do
        let numberOfRows ← readFixedUInt 8
        let numberOfRows ← orThrow "Failed to read number of rows in index column." numberOfRows
        if numberOfRows ≠ rows then
          throw (.assertionError (ascii "LowCardinality column must be read in full."))
        else pure ⟨indexType, ⟨data, dictionary.nulls.map fun _ => nullFlags data.size⟩⟩

/-- The rest of `Load`.  The flag of this read is not looked at. -/
def LowCardinality.loadIndex (rows : Nat) (keys : LoadedKeys) : EStateM Error σ LowCardinality := do
  let (_, index) ← ColumnVector.loadBody (w := keys.indexType.width) [] rows
  pure ⟨keys.dictionary, ⟨keys.indexType, index⟩, uniqueItemsOf keys.dictionary⟩

/-- The function `Load` of `lowcardinality.cpp` -/
def LowCardinality.load (dictionary : Dictionary) (rows : Nat) : EStateM Error σ LowCardinality := do
  let keys ← loadKeys dictionary rows
  loadIndex rows keys

/-- `ColumnLowCardinality::LoadBody`: any exception becomes the flag false. -/
def LowCardinality.loadBody (column : LowCardinality) (rows : Nat) :
    EStateM Error σ (Bool × LowCardinality) :=
  tryCatch (do
    let loaded ← LowCardinality.load column.dictionary rows
    pure (true, loaded))
  fun _ => pure (false, column)

/-- The loop of the adaptor that appends the loaded values to an empty column. -/
def Adaptor.appendRows (loaded : LowCardinality) : List Nat → Leaf → Except Error Leaf
  | [], column => .ok column
  | n :: rows, column =>
    match loaded.at? n with
    | some (some data) => do
      let column ← appendToDictionary column ⟨column.type.code, data⟩
      Adaptor.appendRows loaded rows column
    | _ => .error (.outOfRange (ascii "at"))

/-- `LowCardinalitySerializationAdaptor::LoadBody` -/
def Adaptor.loadBody (column : Leaf) (rows : Nat) : EStateM Error σ (Bool × Leaf) := do
  let lowCardinality ← ofExcept (LowCardinality.ofTyped ⟨column.cloneEmpty, none⟩)
  let (ok, loaded) ← lowCardinality.loadBody rows
  if !ok then pure (false, column)
  else do
    let column ← ofExcept (Adaptor.appendRows loaded (List.range loaded.index.column.length)
      column.cloneEmpty)
    pure (true, column)

mutual

def Column.loadBody : Column → Nat → EStateM Error σ (Bool × Column)
  | .leaf column, rows => do
    let (ok, column) ← column.loadBody rows
    pure (ok, .leaf column)
  | .array data offsets, rows =>
    if rows = 0 then pure (true, .array data offsets)
    else do
      let (ok, offsets) ← offsets.loadBody rows
      if !ok then pure (false, .array data offsets)
      else if getOffset offsets rows = 0 then pure (true, .array data offsets)
      else do
        let (ok, data) ← data.loadBody (getOffset offsets rows)
        pure (ok, .array data offsets)
  | .nullable nested nulls, rows => do
    let (ok, nulls) ← nulls.loadBody rows
    if !ok then pure (false, .nullable nested nulls)
    else do
      let (ok, nested) ← nested.loadBody rows
      pure (ok, .nullable nested nulls)
  | .tuple columns names, rows => do
    let (ok, columns) ← Column.loadBodies columns rows
    pure (ok, .tuple columns names)
  | .map data, rows => do
    let (ok, data) ← data.loadBody rows
    pure (ok, .map data)
  | .lowCardinality column, rows => do
    let (ok, column) ← column.loadBody rows
    pure (ok, .lowCardinality column)
  | .geo kind data, rows => do
    let (ok, data) ← data.loadBody rows
    pure (ok, .geo kind data)
  | .adaptor column, rows => do
    let (ok, column) ← Adaptor.loadBody column rows
    pure (ok, .adaptor column)

def Column.loadBodies : List Column → Nat → EStateM Error σ (Bool × List Column)
  | [], _ => pure (true, [])
  | column :: columns, rows => do
    let (ok, column) ← column.loadBody rows
    if !ok then pure (false, column :: columns)
    else do
      let (ok, columns) ← Column.loadBodies columns rows
      pure (ok, column :: columns)

end

/-- `Column::Load` -/
def Column.load (column : Column) (rows : Nat) : EStateM Error σ (Bool × Column) := do
  if ← column.loadPrefix rows then column.loadBody rows else pure (false, column)

end Load

end ClickHouse
