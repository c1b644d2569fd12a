import ClickHouse.Block

/-!
# Queries

`query.h`, the writers of quoted parameter values of `wire_format.cpp`, and the
query packet of `SendQuery`.  The callbacks of a query are programs over a state
of the user's own; they do not call the client.
-/

namespace ClickHouse

open Kit

def dbmsMinRevisionWithTemporaryTables : Nat := 50264
def dbmsMinRevisionWithTotalRowsInProgress : Nat := 51554
def dbmsMinRevisionWithClientInfo : Nat := 54032
def dbmsMinRevisionWithServerTimezone : Nat := 54058
def dbmsMinRevisionWithQuotaKeyInClientInfo : Nat := 54060
def dbmsMinRevisionWithServerDisplayName : Nat := 54372
def dbmsMinRevisionWithVersionPatch : Nat := 54401
def dbmsMinRevisionWithClientWriteInfo : Nat := 54420
def dbmsMinRevisionWithSettingsSerializedAsStrings : Nat := 54429
def dbmsMinRevisionWithInterserverSecret : Nat := 54441
def dbmsMinRevisionWithOpentelemetry : Nat := 54442
def dbmsMinRevisionWithDistributedDepth : Nat := 54448
def dbmsMinRevisionWithInitialQueryStartTime : Nat := 54449
def dbmsMinRevisionWithParallelReplicas : Nat := 54453
def dbmsMinProtocolVersionWithAddendum : Nat := 54458
def dbmsMinProtocolVersionWithParameters : Nat := 54459

/-- `DMBS_PROTOCOL_REVISION`, what the client announces. -/
def dbmsProtocolRevision : Nat := dbmsMinProtocolVersionWithParameters

/-- `CLICKHOUSE_CPP_VERSION_MAJOR`, `_MINOR` and `_PATCH`. -/
def versionMajor : Nat := 2
def versionMinor : Nat := 6
def versionPatch : Nat := 2

def clientName : Bytes := ascii "clickhouse-cpp"

/-! ## What a query holds -/

/-- A `std::unordered_map` with string keys, in the order of an iteration over it. -/
structure UnorderedMap (α : Type) where
  entries : List (Bytes × α)
  distinct : (entries.map Prod.fst).Nodup

def UnorderedMap.empty {α : Type} : UnorderedMap α := ⟨[], List.nodup_nil⟩

/-- `QuerySettingsField`; the flags are a `uint64_t`. -/
structure QuerySettingsField where
  value : Bytes
  flags : UInt64
deriving DecidableEq

/-- `open_telemetry::TracingContext` -/
structure TracingContext where
  traceId : Word 16
  spanId : Word 8
  tracestate : Bytes
  traceFlags : Word 1
deriving DecidableEq

structure Profile where
  rows : Nat
  blocks : Nat
  bytes : Nat
  rowsBeforeLimit : Nat
  appliedLimit : Bool
  calculatedRowsBeforeLimit : Bool
deriving DecidableEq

structure Progress where
  rows : Nat
  bytes : Nat
  totalRows : Nat
  writtenRows : Nat
  writtenBytes : Nat
deriving DecidableEq

/-- `Query`, with a callback for each event that has one. -/
structure Query (υ : Type) where
  text : Bytes
  queryId : Bytes
  tracingContext : Option TracingContext := none
  settings : UnorderedMap QuerySettingsField := .empty
  params : UnorderedMap (Option Bytes) := .empty
  exceptionCb : Option (Exception → EStateM Error υ Unit) := none
  progressCb : Option (Progress → EStateM Error υ Unit) := none
  selectCb : Option (Block → EStateM Error υ Unit) := none
  selectCancelableCb : Option (Block → EStateM Error υ Bool) := none
  selectServerLogCb : Option (Block → EStateM Error υ Bool) := none
  profileEventsCb : Option (Block → EStateM Error υ Bool) := none
  profileCb : Option (Profile → EStateM Error υ Unit) := none

variable {υ : Type}

/-- `Query()` -/
def Query.empty : Query υ := ⟨[], [], none, .empty, .empty, none, none, none, none, none, none, none⟩

def Query.hasEventCallbacks (query : Query υ) : Bool :=
  query.exceptionCb.isSome || query.progressCb.isSome || query.selectCb.isSome ||
    query.selectCancelableCb.isSome || query.selectServerLogCb.isSome ||
    query.profileEventsCb.isSome || query.profileCb.isSome

/-! ## Quoted strings -/

/-- The characters `find_quoted_chars` looks for. -/
def isQuotedChar (c : UInt8) : Bool :=
  c == 0x00 || c == 0x08 || c == 0x09 || c == 0x0A || c == 0x27 || c == 0x5C

/-- What is written after the backslash for a character that is quoted. -/
def quotedSuffix (c : UInt8) : Bytes :=
  if c = 0x00 then ascii "x00"
  else if c = 0x08 then ascii "x08"
  else if c = 0x09 then [0x5C, 0x5C, 0x74]
  else if c = 0x0A then [0x5C, 0x5C, 0x6E]
  else if c = 0x27 then ascii "x27"
  else if c = 0x5C then [0x5C, 0x5C, 0x5C]
  else []

/-- The rounds of the loop of `WriteQuotedString`, with the text since the last quoted
character. -/
def quotedPieces (start : Bytes) : Bytes → List Bytes
  | [] => [start]
  | c :: rest =>
    if isQuotedChar c then start :: [0x5C] :: quotedSuffix c :: quotedPieces [] rest
    else quotedPieces (start ++ [c]) rest

/-- `WriteQuotedString`.  The number of quoted characters is an `int`, and so is the product that
is added to the length. -/
def writeQuotedString (value : Bytes) : Emit Error :=
  let quotedCount := value.countP isQuotedChar
  if 2 ^ 31 ≤ 3 * quotedCount then .throw .undefinedBehavior
  else if quotedCount = 0 then
    .writes [writeVarint64 (value.length + 2), [0x27], value, [0x27]]
  else
    .writes ([writeVarint64 (value.length + 2 + 3 * quotedCount), [0x27]] ++
      quotedPieces [] value ++ [[0x27]])

/-- `WriteParamNullRepresentation` -/
def writeParamNullRepresentation : Emit Error :=
  .writes [writeVarint64 5, [0x27, 0x5C, 0x5C, 0x4E, 0x27]]

/-! ## The query packet -/

/-- The header of a tracing context, refused by a server that is too old for it. -/
def tracingInfo (revision : Nat) (context : Option TracingContext) : Emit Error :=
  if revision ≥ dbmsMinRevisionWithOpentelemetry then
    match context with
    | some context => .all
        [.write (writeFixedUInt 1 1), .write context.traceId.val, .write context.spanId.val,
          .writes (writeString context.tracestate), .write context.traceFlags.val]
    | none => .write (writeFixedUInt 1 0)
  else if context.isSome then
    .throw (.unimplementedError (ascii ("Can't send open telemetry tracing context to a server, " ++
      "server version is too old")))
  else .nothing

/-- A field that is there from a revision on. -/
def since (first revision : Nat) (field : Emit Error) : Emit Error :=
  if revision ≥ first then field else .nothing

/-- `ClientInfo` as `SendQuery` fills it in. -/
def clientInfo (revision : Nat) (context : Option TracingContext) : Emit Error :=
  .all
    [.write (writeFixedUInt 1 1),
      .writes (writeString []),
      .writes (writeString []),
      .writes (writeString (ascii "[::ffff:127.0.0.1]:0")),
      since dbmsMinRevisionWithInitialQueryStartTime revision (.write (writeFixedUInt 8 0)),
      .write (writeFixedUInt 1 1),
      .writes (writeString []),
      .writes (writeString []),
      .writes (writeString clientName),
      .write (writeUInt64 versionMajor),
      .write (writeUInt64 versionMinor),
      .write (writeUInt64 dbmsProtocolRevision),
      since dbmsMinRevisionWithQuotaKeyInClientInfo revision (.writes (writeString [])),
      since dbmsMinRevisionWithDistributedDepth revision (.write (writeUInt64 0)),
      since dbmsMinRevisionWithVersionPatch revision (.write (writeUInt64 versionPatch)),
      tracingInfo revision context,
      since dbmsMinRevisionWithParallelReplicas revision
        (.all [.write (writeUInt64 0), .write (writeUInt64 0), .write (writeUInt64 0)])]

def writeSetting (setting : Bytes × QuerySettingsField) : Emit Error :=
  .all [.writes (writeString setting.1), .write (writeVarint64 setting.2.flags.toNat),
    .writes (writeString setting.2.value)]

/-- The settings of the query, refused by a server that is too old for them. -/
def writeSettings (revision : Nat) (settings : UnorderedMap QuerySettingsField) : Emit Error :=
  if revision ≥ dbmsMinRevisionWithSettingsSerializedAsStrings then
    .all (settings.entries.map writeSetting)
  else if settings.entries.length > 0 then
    .throw (.unimplementedError (ascii ("Can't send query settings to a server, " ++
      "server version is too old")))
  else .nothing

def writeParam (param : Bytes × Option Bytes) : Emit Error :=
  .all [.writes (writeString param.1), .write (writeVarint64 2),
    match param.2 with
    | some value => writeQuotedString value
    | none => writeParamNullRepresentation]

/-- What `SendQuery` writes before it finalizes the query.  `Stages::Complete` is 2. -/
def queryPacket (revision : Nat) (compression : Bool) (query : Query υ) : Emit Error :=
  .all
    [.write (writeUInt64 1),
      .writes (writeString query.queryId),
      since dbmsMinRevisionWithClientInfo revision (clientInfo revision query.tracingContext),
      writeSettings revision query.settings,
      .writes (writeString []),
      since dbmsMinRevisionWithInterserverSecret revision (.writes (writeString [])),
      .write (writeUInt64 2),
      .write (writeUInt64 (if compression then 1 else 0)),
      .writes (writeString query.text),
      since dbmsMinProtocolVersionWithParameters revision
        (.all (query.params.entries.map writeParam ++ [.writes (writeString [])]))]

end ClickHouse
