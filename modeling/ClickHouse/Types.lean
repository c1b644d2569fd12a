import ClickHouse.Error
import ClickHouse.Kit.OrdMap
import Mathlib.Data.List.Lex

/-!
# Data types

`types.h` and `types.cpp`: the type codes, the type objects and the names they
print.  A type object is a `Ty`; the types whose rows are a fixed number of
bytes are grouped in `FixedType`.
-/

namespace ClickHouse

open Kit

/-- `Type::Code` -/
inductive Code
  | void | int8 | int16 | int32 | int64 | uint8 | uint16 | uint32 | uint64 | float32 | float64
  | string | fixedString | dateTime | date | array | nullable | tuple | enum8 | enum16 | uuid
  | ipv4 | ipv6 | int128 | uint128 | decimal | decimal32 | decimal64 | decimal128
  | lowCardinality | dateTime64 | date32 | map | point | ring | polygon | multiPolygon | time
  | time64 | json | bool
deriving DecidableEq, Repr

/-- The value of the enumeration. -/
def Code.toNat (code : Code) : Nat := code.ctorIdx

/-- `Type::TypeName` -/
def Code.typeName : Code → String
  | .void => "Void"
  | .int8 => "Int8"
  | .int16 => "Int16"
  | .int32 => "Int32"
  | .int64 => "Int64"
  | .uint8 => "UInt8"
  | .uint16 => "UInt16"
  | .uint32 => "UInt32"
  | .uint64 => "UInt64"
  | .float32 => "Float32"
  | .float64 => "Float64"
  | .string => "String"
  | .fixedString => "FixedString"
  | .dateTime => "DateTime"
  | .date => "Date"
  | .array => "Array"
  | .nullable => "Nullable"
  | .tuple => "Tuple"
  | .enum8 => "Enum8"
  | .enum16 => "Enum16"
  | .uuid => "UUID"
  | .ipv4 => "IPv4"
  | .ipv6 => "IPv6"
  | .int128 => "Int128"
  | .uint128 => "UInt128"
  | .decimal => "Decimal"
  | .decimal32 => "Decimal32"
  | .decimal64 => "Decimal64"
  | .decimal128 => "Decimal128"
  | .lowCardinality => "LowCardinality"
  | .dateTime64 => "DateTime64"
  | .date32 => "Date32"
  | .map => "Map"
  | .point => "Point"
  | .ring => "Ring"
  | .polygon => "Polygon"
  | .multiPolygon => "MultiPolygon"
  | .time => "Time"
  | .time64 => "Time64"
  | .json => "JSON"
  | .bool => "Bool"

/-- Bytes are ordered as `std::string` compares them, by unsigned value. -/
instance byteOrder : LinearOrder UInt8 where
  le_refl := UInt8.le_refl
  le_trans _ _ _ := UInt8.le_trans
  le_antisymm _ _ := UInt8.le_antisymm
  le_total := UInt8.le_total
  lt_iff_le_not_ge _ _ := by
    rw [UInt8.not_le]
    exact ⟨fun below => ⟨UInt8.le_of_lt below, below⟩, And.right⟩
  toDecidableLE := inferInstance

/-- `Type::EnumItem` -/
abbrev EnumItem := Bytes × Int

/-- `EnumType`: the two maps it keeps. -/
structure EnumType where
  valueToName : OrdMap Int Bytes
  nameToValue : OrdMap Bytes Int

/-- One round of the loop in `EnumType::EnumType`. -/
def EnumType.addItem (t : EnumType) (item : EnumItem) : EnumType where
  nameToValue := t.nameToValue.insert item.1 item.2
  valueToName := t.valueToName.assign item.2 item.1

/-- `EnumType::EnumType` -/
def EnumType.ofItems (items : List EnumItem) : EnumType :=
  items.foldl EnumType.addItem ⟨.empty, .empty⟩

/-- The types whose rows are a fixed number of bytes.  The constructors of `DateTime64Type` and
`Time64Type` refuse precisions above 18 and 9. -/
inductive FixedType
  | int8 | int16 | int32 | int64 | int128
  | uint8 | uint16 | uint32 | uint64 | uint128
  | float32 | float64 | bool
  | date | date32 | time | uuid | ipv4 | ipv6
  | dateTime (timezone : Bytes)
  | dateTime64 (precision : Fin 19) (timezone : Bytes)
  | time64 (precision : Fin 10)
  | decimal (precision scale : Nat)
  | enum8 (type : EnumType)
  | enum16 (type : EnumType)

def FixedType.code : FixedType → Code
  | .int8 => .int8
  | .int16 => .int16
  | .int32 => .int32
  | .int64 => .int64
  | .int128 => .int128
  | .uint8 => .uint8
  | .uint16 => .uint16
  | .uint32 => .uint32
  | .uint64 => .uint64
  | .uint128 => .uint128
  | .float32 => .float32
  | .float64 => .float64
  | .bool => .bool
  | .date => .date
  | .date32 => .date32
  | .time => .time
  | .uuid => .uuid
  | .ipv4 => .ipv4
  | .ipv6 => .ipv6
  | .dateTime _ => .dateTime
  | .dateTime64 _ _ => .dateTime64
  | .time64 _ => .time64
  | .decimal _ _ => .decimal
  | .enum8 _ => .enum8
  | .enum16 _ => .enum16

/-- The types of columns without component columns. -/
inductive LeafType
  | void
  | fixed (type : FixedType)
  | fixedString (size : Nat)
  | string
  | json

def LeafType.code : LeafType → Code
  | .void => .void
  | .fixed type => type.code
  | .fixedString _ => .fixedString
  | .string => .string
  | .json => .json

/-- The types `AppendToDictionary` supports. -/
def LeafType.isDictionary : LeafType → Bool
  | .string | .fixedString _ => true
  | .fixed type => type.code ∈ ([.int8, .int16, .int32, .int64, .int128, .uint8, .uint16, .uint32,
      .uint64, .uint128, .float32, .float64, .date, .date32, .dateTime, .ipv4, .ipv6, .uuid] :
      List Code)
  | _ => false

inductive GeoKind
  | point | ring | polygon | multiPolygon
deriving DecidableEq, Repr

def GeoKind.code : GeoKind → Code
  | .point => .point
  | .ring => .ring
  | .polygon => .polygon
  | .multiPolygon => .multiPolygon

/-- A type object.  An unnamed tuple has no names, a named one has a name for each item. -/
inductive Ty
  | leaf (type : LeafType)
  | geo (kind : GeoKind)
  | array (item : Ty)
  | nullable (nested : Ty)
  | tuple (items : List Ty) (names : List Bytes)
  | lowCardinality (nested : Ty)
  | map (key value : Ty)

def Ty.code : Ty → Code
  | .leaf type => type.code
  | .geo kind => kind.code
  | .array _ => .array
  | .nullable _ => .nullable
  | .tuple _ _ => .tuple
  | .lowCardinality _ => .lowCardinality
  | .map _ _ => .map

/-! ## Names -/

/-- `kEscapeMap` -/
def escapeMap : UInt8 → Option UInt8
  | 0x27 => some 0x27
  | 0x00 => some 0x30
  | 0x5C => some 0x5C
  | 0x08 => some 0x62
  | 0x0C => some 0x66
  | 0x0A => some 0x6E
  | 0x0D => some 0x72
  | 0x09 => some 0x74
  | _ => none

def escapeStringLiteral : Bytes → Bytes
  | [] => []
  | c :: rest =>
    match escapeMap c with
    | some e => 0x5C :: e :: escapeStringLiteral rest
    | none => c :: escapeStringLiteral rest

def isAlpha (c : UInt8) : Bool :=
  (0x61 ≤ c && c ≤ 0x7A) || (0x41 ≤ c && c ≤ 0x5A)

def isDigit (c : UInt8) : Bool :=
  0x30 ≤ c && c ≤ 0x39

def isPlainIdentifier : Bytes → Bool
  | [] => false
  | c :: rest =>
    (isAlpha c || c == 0x5F) && rest.all fun c => isAlpha c || c == 0x5F || isDigit c

/-- The name with every backtick doubled. -/
def doubleBackticks : Bytes → Bytes
  | [] => []
  | c :: rest => if c = 0x60 then 0x60 :: 0x60 :: doubleBackticks rest else c :: doubleBackticks rest

/-- `AppendFieldname` -/
def fieldname (name : Bytes) : Bytes :=
  if isPlainIdentifier name then name else 0x60 :: doubleBackticks name ++ [0x60]

def joinComma : List Bytes → Bytes
  | [] => []
  | [x] => x
  | x :: y :: rest => x ++ ascii ", " ++ joinComma (y :: rest)

/-- One entry of `EnumType::GetName`. -/
def enumEntryName (entry : Int × Bytes) : Bytes :=
  ascii "'" ++ escapeStringLiteral entry.2 ++ ascii "' = " ++ toDecimalInt entry.1

def EnumType.getName (type : EnumType) (head : String) : Bytes :=
  ascii head ++ joinComma (type.valueToName.entries.map enumEntryName) ++ ascii ")"

def FixedType.getName : FixedType → Bytes
  | .dateTime timezone =>
    ascii "DateTime" ++
      if timezone.isEmpty then [] else ascii "('" ++ escapeStringLiteral timezone ++ ascii "')"
  | .dateTime64 precision timezone =>
    ascii "DateTime64(" ++ toDecimal precision ++
      (if timezone.isEmpty then [] else ascii ", '" ++ escapeStringLiteral timezone ++ ascii "'") ++
      ascii ")"
  | .time64 precision => ascii "Time64(" ++ toDecimal precision ++ ascii ")"
  | .decimal precision scale =>
    ascii "Decimal(" ++ toDecimal precision ++ ascii "," ++ toDecimal scale ++ ascii ")"
  | .enum8 type => type.getName "Enum8("
  | .enum16 type => type.getName "Enum16("
  | type => ascii type.code.typeName

def LeafType.getName : LeafType → Bytes
  | .fixed type => type.getName
  | .fixedString size => ascii "FixedString(" ++ toDecimal size ++ ascii ")"
  | type => ascii type.code.typeName

/-- The fields of `TupleType::GetName`, each with its name before it if the tuple has names. -/
def tupleFields : List Bytes → List Bytes → List Bytes
  | name :: names, item :: items => (fieldname name ++ ascii " " ++ item) :: tupleFields names items
  | [], items => items
  | _, [] => []

mutual

def Ty.getName : Ty → Bytes
  | .leaf type => type.getName
  | .geo kind => ascii kind.code.typeName
  | .array item => ascii "Array(" ++ item.getName ++ ascii ")"
  | .nullable nested => ascii "Nullable(" ++ nested.getName ++ ascii ")"
  | .tuple items names =>
    ascii "Tuple(" ++ joinComma (tupleFields names (Ty.getNames items)) ++ ascii ")"
  | .lowCardinality nested => ascii "LowCardinality(" ++ nested.getName ++ ascii ")"
  | .map key value => ascii "Map(" ++ key.getName ++ ascii ", " ++ value.getName ++ ascii ")"

def Ty.getNames : List Ty → List Bytes
  | [] => []
  | item :: items => item.getName :: Ty.getNames items

end

/-! ## Equality -/

/-- The hash functions of the library: for items of a dictionary the pair of `std::hash` and
`CityHash64`, for the names of types `CityHash64WithSeed`. -/
class Hashing where
  itemKey : Bytes → UInt64 × UInt64
  cityHash64WithSeed : Bytes → Nat → UInt64

/-- Items hashed by their lengths. -/
@[reducible] def lengthHashing : Hashing :=
  ⟨fun data => (1, UInt64.ofNat data.length), fun _ _ => 1⟩

/-- The codes whose types have no parameters that `GetTypeUniqueId` looks at. -/
def Code.isSimple : Code → Bool
  | .void | .int8 | .int16 | .int32 | .int64 | .int128 | .uint8 | .uint16 | .uint32 | .uint64
  | .uint128 | .uuid | .float32 | .float64 | .string | .json | .ipv4 | .ipv6 | .date | .date32
  | .point | .ring | .polygon | .multiPolygon | .bool => true
  | _ => false

/-- `Type::GetTypeUniqueId` -/
def Ty.typeUniqueId [Hashing] (type : Ty) : UInt64 :=
  if type.code.isSimple then UInt64.ofNat type.code.toNat
  else Hashing.cityHash64WithSeed type.getName type.code.toNat

/-- `Type::IsEqual` -/
def Ty.isEqual [Hashing] (type other : Ty) : Bool :=
  type.code == other.code && type.typeUniqueId == other.typeUniqueId

theorem Ty.isEqual_self [Hashing] (type : Ty) : type.isEqual type = true := by
  simp [Ty.isEqual]

end ClickHouse
