import ClickHouse.Types
import Mathlib.Algebra.Group.Int.Defs
import Mathlib.Algebra.Group.Nat.Defs

/-!
# The parser of type names

`type_parser.cpp`: the lexer `NextToken`, the parser `Parse` with its stack of
open elements, and `ParseTypeName`.

The parser keeps pointers into the tree it builds: `type_` and the entries of
`open_elements_`.  It only ever adds a last child to the element `type_` points
to, and no entry of the stack lies deeper than `type_`.  All these pointers
therefore point to elements on the path of last children from the root, and
each is represented by its depth on that path.
-/

namespace ClickHouse

open Kit

/-- `TypeAst::Meta` -/
inductive Meta
  | array | assign | null | nullable | number | string | terminal | tuple | enum | lowCardinality
  | simpleAggregateFunction | map
deriving DecidableEq, Repr

structure TypeAst where
  /-- `meta` in the source, which is a keyword here. -/
  metaKind : Meta
  code : Code
  name : Bytes
  elementName : Bytes
  value : Int
  valueString : Bytes
  elements : List TypeAst

/-- `TypeAst()` -/
def TypeAst.blank : TypeAst := ⟨.array, .void, [], [], 0, [], []⟩

/-! ## Lexer -/

/-- `TypeParser::Token`, with the text of the tokens whose text is used. -/
inductive Token
  | invalid
  | assign
  | name (value : Bytes)
  | number (value : Bytes)
  | string (value : Bytes)
  | lpar
  | rpar
  | comma
  | quotedString (value : Bytes)
  | quotedIdentifier (value : Bytes)
  | eos
deriving DecidableEq, Repr

/-- `kUnescapeMap` -/
def unescapeMap : UInt8 → Option UInt8
  | 0x30 => some 0x00
  | 0x5C => some 0x5C
  | 0x62 => some 0x08
  | 0x66 => some 0x0C
  | 0x6E => some 0x0A
  | 0x72 => some 0x0D
  | 0x74 => some 0x09
  | _ => none

/-- The loop over a single-quoted literal: what it adds to `scratch_`, the closing quote
included, and where it stops.  It stops one byte before the end of the input at the latest. -/
def lexQuotedString : Bytes → Bytes × Bytes
  | [] => ([], [])
  | [c] => ([], [c])
  | c :: d :: rest =>
    if c = 0x5C then
      match unescapeMap d with
      | some u => let (scratch, left) := lexQuotedString rest; (u :: scratch, left)
      | none =>
        if d = 0x27 then let (scratch, left) := lexQuotedString rest; (0x27 :: scratch, left)
        else let (scratch, left) := lexQuotedString (d :: rest); (c :: scratch, left)
    else if c = 0x27 then ([0x27], d :: rest)
    else let (scratch, left) := lexQuotedString (d :: rest); (c :: scratch, left)

/-- The loop over an identifier in double quotes or backticks; `none` if it is not closed. -/
def lexQuotedIdentifier (quote : UInt8) : Bytes → Option (Bytes × Bytes)
  | [] => none
  | [c] => if c = quote then some ([], []) else none
  | c :: d :: rest =>
    if c = 0x5C ∧ d = quote then
      (lexQuotedIdentifier quote rest).map fun (scratch, left) => (quote :: scratch, left)
    else if c = quote then
      if d = quote then
        (lexQuotedIdentifier quote rest).map fun (scratch, left) => (quote :: scratch, left)
      else some ([], d :: rest)
    else (lexQuotedIdentifier quote (d :: rest)).map fun (scratch, left) => (c :: scratch, left)

def isNameChar (c : UInt8) : Bool := isAlpha c || isDigit c || c == 0x5F

/-- `TypeParser::NextToken`: the token and the input after it. -/
def nextToken : Bytes → Token × Bytes
  | [] => (.eos, [])
  | c :: rest =>
    if c = 0x20 ∨ c = 0x0A ∨ c = 0x09 ∨ c = 0x00 then nextToken rest
    else if c = 0x3D then (.assign, rest)
    else if c = 0x28 then (.lpar, rest)
    else if c = 0x29 then (.rpar, rest)
    else if c = 0x2C then (.comma, rest)
    else if c = 0x27 then
      let (scratch, left) := lexQuotedString rest
      (.quotedString (0x27 :: scratch), left)
    else if c = 0x22 ∨ c = 0x60 then
      match lexQuotedIdentifier c rest with
      | some (scratch, left) => (.quotedIdentifier scratch, left)
      | none => (.invalid, [])
    else if isAlpha c || c == 0x5F then
      (.name ((c :: rest).takeWhile isNameChar), (c :: rest).dropWhile isNameChar)
    else if isDigit c || c == 0x2D then
      (.number (c :: rest.takeWhile isDigit), rest.dropWhile isDigit)
    else (.invalid, c :: rest)

/-- The tokens `Parse` is given.  `NextToken` does not look at the state of the parser, and every
token but the last takes at least one byte. -/
def tokenizeLoop : Nat → Bytes → List Token
  | 0, _ => []
  | fuel + 1, input =>
    match nextToken input with
    | (.eos, _) => [.eos]
    | (.invalid, _) => [.invalid]
    | (token, rest) => token :: tokenizeLoop fuel rest

def tokenize (input : Bytes) : List Token := tokenizeLoop (input.length + 1) input

/-! ## Parser -/

/-- The entries of `kTypeCode`, with `CH_MAP_BOOL_TO_UINT8` off. -/
def typeCodeTable : List (String × Code) :=
  [("Void", .void), ("Int8", .int8), ("Int16", .int16), ("Int32", .int32), ("Int64", .int64),
    ("Bool", .bool), ("UInt8", .uint8), ("UInt16", .uint16), ("UInt32", .uint32),
    ("UInt64", .uint64), ("Float32", .float32), ("Float64", .float64), ("String", .string),
    ("FixedString", .fixedString), ("DateTime", .dateTime), ("DateTime64", .dateTime64),
    ("Date", .date), ("Date32", .date32), ("Array", .array), ("Nullable", .nullable),
    ("Tuple", .tuple), ("Enum8", .enum8), ("Enum16", .enum16), ("UUID", .uuid), ("IPv4", .ipv4),
    ("IPv6", .ipv6), ("Int128", .int128), ("UInt128", .uint128), ("Decimal", .decimal),
    ("Decimal32", .decimal32), ("Decimal64", .decimal64), ("Decimal128", .decimal128),
    ("LowCardinality", .lowCardinality), ("Map", .map), ("Point", .point), ("Ring", .ring),
    ("Polygon", .polygon), ("MultiPolygon", .multiPolygon), ("Time", .time), ("Time64", .time64),
    ("JSON", .json)]

def getTypeCode (name : Bytes) : Code :=
  match typeCodeTable.find? fun entry => ascii entry.1 == name with
  | some entry => entry.2
  | none => .void

def getTypeMeta (name : Bytes) : Meta :=
  if name = ascii "Array" then .array
  else if name = ascii "Null" then .null
  else if name = ascii "Nullable" then .nullable
  else if name = ascii "Tuple" then .tuple
  else if name = ascii "Enum8" ∨ name = ascii "Enum16" then .enum
  else if name = ascii "LowCardinality" then .lowCardinality
  else if name = ascii "SimpleAggregateFunction" then .simpleAggregateFunction
  else if name = ascii "Map" then .map
  else .terminal

def toLower (c : UInt8) : UInt8 := if 0x41 ≤ c ∧ c ≤ 0x5A then c + 0x20 else c

/-- `ValidateAST` -/
def validateAST (ast : TypeAst) : Bool :=
  !(ast.metaKind == .terminal && ast.code == .void && ast.name.map toLower != ascii "void")

/-- The number a string of digits denotes. -/
def digitsValue (digits : Bytes) : Nat :=
  digits.foldl (fun n c => n * 10 + (c.toNat - 0x30)) 0

/-- `std::stol` of the text of a number token. -/
def stol (text : Bytes) : Except Error Int :=
  let (negative, digits) := match text with
    | 0x2D :: digits => (true, digits)
    | digits => (false, digits)
  if digits.isEmpty then .error (.invalidArgument (ascii "stol"))
  else
    let value : Int := if negative then -(digitsValue digits) else digitsValue digits
    if -2 ^ 63 ≤ value ∧ value < 2 ^ 63 then .ok value else .error (.outOfRange (ascii "stol"))

/-- Change the last element of a list. -/
def updateLast {α : Type} (f : α → α) : List α → List α
  | [] => []
  | [a] => [f a]
  | a :: b :: rest => a :: updateLast f (b :: rest)

/-- Change the element at the given depth on the path of last children. -/
def TypeAst.updateSpine : Nat → (TypeAst → TypeAst) → TypeAst → TypeAst
  | 0, f, ast => f ast
  | depth + 1, f, ast => { ast with elements := updateLast (updateSpine depth f) ast.elements }

def TypeAst.addElement (ast : TypeAst) : TypeAst :=
  { ast with elements := ast.elements ++ [.blank] }

/-- The tree, `type_` and `open_elements_` with its top first. -/
structure TypeParser where
  root : TypeAst
  current : Nat
  openElements : List Nat

/-- The start of `Parse` on a new element. -/
def TypeParser.start : TypeParser := ⟨.blank, 0, [0]⟩

def TypeParser.update (f : TypeAst → TypeAst) (s : TypeParser) : TypeParser :=
  { s with root := s.root.updateSpine s.current f }

/-- An identifier after another one makes the first the name of the element. -/
def TypeAst.setName (value : Bytes) (ast : TypeAst) : TypeAst :=
  { ast with
    elementName := if ast.name.isEmpty then ast.elementName else ast.name
    metaKind := getTypeMeta value
    name := value
    code := getTypeCode value }

/-- The body of the loop of `Parse` for a token that does not end it. -/
def TypeParser.step : Token → EStateM Error TypeParser Unit
  | .quotedString value => do
    modify (TypeParser.update fun ast => { ast with metaKind := .terminal })
    match value with
    | [] => modify (TypeParser.update fun ast => { ast with valueString := [] })
    | [_] => throw (.outOfRange (ascii "pos must be less than len"))
    | _ :: rest => modify (TypeParser.update fun ast => { ast with valueString := rest.dropLast })
    modify (TypeParser.update fun ast => { ast with code := .string })
  | .quotedIdentifier value => modify (TypeParser.update (TypeAst.setName value))
  | .name value => modify (TypeParser.update (TypeAst.setName value))
  | .number value => do
    modify (TypeParser.update fun ast => { ast with metaKind := .number })
    let n ← ofExcept (stol value)
    modify (TypeParser.update fun ast => { ast with value := n })
  | .string value =>
    modify (TypeParser.update fun ast => { ast with metaKind := .string, valueString := value })
  | .lpar => modify fun s =>
    { s.update TypeAst.addElement with
      current := s.current + 1, openElements := s.current :: s.openElements }
  | .rpar => do
    let s ← get
    match s.openElements with
    | [] => throw .undefinedBehavior
    | top :: rest => set { s with current := top, openElements := rest }
  | .assign => separator
  | .comma => separator
  | .eos => pure ()
  | .invalid => pure ()
where
  separator : EStateM Error TypeParser Unit := do
    let s ← get
    match s.openElements with
    | [] => throw .undefinedBehavior
    | top :: _ =>
      set { ({ s with current := top } : TypeParser).update TypeAst.addElement with
        current := top + 1 }

/-- The loop of `Parse`, after `processed` tokens. -/
def TypeParser.parseTokens : List Token → Nat → EStateM Error TypeParser Bool
  | [], _ => pure false
  | .eos :: _, processed => do
    let s ← get
    pure (s.openElements.length == 1 && processed != 0 && validateAST s.root)
  | .invalid :: _, _ => pure false
  | token :: rest, processed => do
    TypeParser.step token
    TypeParser.parseTokens rest (processed + 1)

/-- `TypeParser::Parse` -/
def TypeParser.parse (input : Bytes) : EStateM Error TypeParser Bool :=
  TypeParser.parseTokens (tokenize input) 0

/-- `ParseTypeName` of a name that is not in the cache; `none` is the null pointer. -/
def parseTypeName (name : Bytes) : Except Error (Option TypeAst) :=
  match TypeParser.parse name TypeParser.start with
  | .ok true s => .ok (some s.root)
  | .ok false _ => .ok none
  | .error e _ => .error e

end ClickHouse
