import ClickHouse.Columns.Serialization
import ClickHouse.Factory

/-!
# Blocks on the wire

`block.cpp` with `WriteBlock` and `ReadBlock` of the client.  The layout
depends on the revision of the server: the block info is there from one
revision on, the byte for a custom serialization of each column from another.
A block of no rows has no column data.
-/

namespace ClickHouse

open Kit

def dbmsMinRevisionWithBlockInfo : Nat := 51903

def dbmsMinRevisionWithCustomSerialization : Nat := 54454

/-- `BlockInfo`: a `uint8_t` and an `int32_t`. -/
structure BlockInfo where
  isOverflows : Word 1
  bucketNum : Word 4
deriving DecidableEq

/-- `BlockInfo{}`, with `bucket_num = -1`. -/
def BlockInfo.initial : BlockInfo := ⟨Word.ofNat 1 0, Word.ofNat 4 (2 ^ 32 - 1)⟩

structure Block where
  info : BlockInfo
  columns : List (Bytes × Column)
  rows : Nat

/-- `Block()` -/
def Block.empty : Block := ⟨.initial, [], 0⟩

/-- `Block::AppendColumn` -/
def Block.appendColumn (block : Block) (name : Bytes) (column : Column) : Except Error Block := do
  let column ← checkSize column
  if block.columns.isEmpty then .ok { block with columns := [(name, column)], rows := column.size }
  else if column.size ≠ block.rows then
    .error (.validationError (ascii "all columns in block must have same count of rows. Name: [" ++
      name ++ ascii "], rows: [" ++ toDecimal block.rows ++ ascii "], columns: [" ++
      toDecimal column.size ++ ascii "]"))
  else .ok { block with columns := block.columns ++ [(name, column)] }

/-- The blocks `AppendColumn` builds from `Block()` with any block info. -/
inductive Block.Built : Block → Prop
  | empty (info : BlockInfo) : Built ⟨info, [], 0⟩
  | append {block next : Block} {name : Bytes} {column : Column} :
    Built block → block.appendColumn name column = .ok next → Built next

section

/-- The byte before the data of a column. -/
def writeCustomFormat (revision : Nat) : Emit Error :=
  if revision ≥ dbmsMinRevisionWithCustomSerialization then .write (writeFixedUInt 1 0)
  else .nothing

def writeBlockInfo (revision : Nat) (info : BlockInfo) : Emit Error :=
  if revision ≥ dbmsMinRevisionWithBlockInfo then
    (Emit.write (writeUInt64 1)).andThen <|
    (Emit.write info.isOverflows.1).andThen <|
    (Emit.write (writeUInt64 2)).andThen <|
    (Emit.write info.bucketNum.1).andThen <|
    Emit.write (writeUInt64 0)
  else .nothing

variable [Hashing]

/-- One round of the loop of `WriteBlock`. -/
def writeColumn (revision rows : Nat) (column : Bytes × Column) : Emit Error :=
  (Emit.writes (writeString column.1)).andThen <|
  (Emit.writes (writeString column.2.type.getName)).andThen <|
  (writeCustomFormat revision).andThen <|
  if rows > 0 then column.2.save else .nothing

def writeColumns (revision rows : Nat) : List (Bytes × Column) → Emit Error
  | [] => .nothing
  | column :: columns => (writeColumn revision rows column).andThen (writeColumns revision rows columns)

/-- `WriteBlock` -/
def writeBlock (revision : Nat) (block : Block) : Emit Error :=
  (writeBlockInfo revision block.info).andThen <|
  (Emit.write (writeUInt64 block.columns.length)).andThen <|
  (Emit.write (writeUInt64 block.rows)).andThen <|
  writeColumns revision block.rows block.columns

variable {σ : Type} [Source Error σ]

/-- `ReadFixed` into a word. -/
def readWord (w : Nat) : EStateM Error σ (Option (Word w)) := do
  let bytes ← readAll w
  pure (if length : bytes.length = w then some ⟨bytes, length⟩ else none)

/-- The block info, the initial one if the revision has none; `none` if a read fails. -/
def readBlockInfo (revision : Nat) : EStateM Error σ (Option BlockInfo) := do
  if revision ≥ dbmsMinRevisionWithBlockInfo then
    match ← readUInt64 with
    | none => pure none
    | some _ =>
    match ← readWord 1 with
    | none => pure none
    | some isOverflows =>
    match ← readUInt64 with
    | none => pure none
    | some _ =>
    match ← readWord 4 with
    | none => pure none
    | some bucketNum =>
    match ← readUInt64 with
    | none => pure none
    | some _ => pure (some ⟨isOverflows, bucketNum⟩)
  else pure (some .initial)

/-- The byte before the data of a column; `false` if it cannot be read. -/
def readCustomFormat (revision : Nat) : EStateM Error σ Bool := do
  if revision ≥ dbmsMinRevisionWithCustomSerialization then
    match ← readFixedUInt 1 with
    | none => pure false
    | some customFormatLen =>
      if customFormatLen > 0 then
        throw (.unimplementedError (ascii "unsupported custom serialization"))
      else pure true
  else pure true

/-- `Load` of a column of a block, if there are rows. -/
def loadRows (name type : Bytes) (rows : Nat) (column : Column) : EStateM Error σ Column := do
  if rows = 0 then pure column
  else do
    let (ok, column) ← column.load rows
    if ok then pure column
    else throw (.protocolError (ascii "can't load column '" ++ name ++ ascii "' of type " ++ type))

/-- One round of the loop of `ReadBlock`. -/
def readColumn (revision : Nat) (settings : CreateColumnByTypeSettings) (rows : Nat)
    (block : Block) : EStateM Error σ (Bool × Block) := do
  match ← readString with
  | none => pure (false, block)
  | some name =>
  match ← readString with
  | none => pure (false, block)
  | some type =>
  if ← readCustomFormat revision then
    match ← ofExcept (createColumnByType settings type) with
    | none => throw (.unimplementedError (ascii "unsupported column type: " ++ type))
    | some column => do
      let column ← loadRows name type rows column
      let block ← ofExcept (block.appendColumn name column)
      pure (true, block)
  else pure (false, block)

def readColumns (revision : Nat) (settings : CreateColumnByTypeSettings) (rows : Nat) :
    Nat → Block → EStateM Error σ (Bool × Block)
  | 0, block => pure (true, block)
  | n + 1, block => do
    let (ok, block) ← readColumn revision settings rows block
    if ok then readColumns revision settings rows n block else pure (false, block)

/-- `ReadBlock` into a new block. -/
def readBlock (revision : Nat) (settings : CreateColumnByTypeSettings) :
    EStateM Error σ (Bool × Block) := do
  match ← readBlockInfo revision with
  | none => pure (false, .empty)
  | some info =>
  let block : Block := { Block.empty with info := info }
  match ← readUInt64 with
  | none => pure (false, block)
  | some numColumns =>
  match ← readUInt64 with
  | none => pure (false, block)
  | some numRows => readColumns revision settings numRows numColumns block

end

end ClickHouse
