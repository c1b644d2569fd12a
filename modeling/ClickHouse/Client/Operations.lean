import ClickHouse.Client.Hello
import ClickHouse.Client.Packets

/-!
# Operations

What a client sends, how it connects, and its public operations.  The loops that
wait for packets have no bound in the source; they are given the number of
rounds they may take, and end with `diverges` after these.
-/

namespace ClickHouse

open Kit

/-! ## Sending -/

section Sending

variable {δ : Type} [Output Error δ]

/-- One `WriteAll` after the other. -/
def writeSegments : List Bytes → EStateM Error δ Unit
  | [] => pure ()
  | segment :: segments => do
    writeAll segment
    writeSegments segments

/-- What a writer writes before it throws stays written. -/
def emit (e : Emit Error) : EStateM Error δ Unit := do
  writeSegments e.written
  match e.error with
  | none => pure ()
  | some error => throw error

/-- `WriteBlock`, which flushes its output. -/
def writeBlockTo [Hashing] (revision : Nat) (block : Block) : EStateM Error δ Unit := do
  emit (writeBlock revision block)
  Output.flush

variable {υ ω ι ο : Type} [Output Error ο] [Hashing] [Codec]

def sendBlockData (block : Block) : ClientM υ ω ι ο Unit := do
  let s ← get
  if s.compression then
    match s.output with
    | none => throw .undefinedBehavior
    | some output => do
      let compressed ← ofExcept (CompressedOutput.create output s.options.maxCompressionChunkSize
        s.options.compressionMethod)
      zoom (fun _ => BufferedOutput.create compressed s.options.maxCompressionChunkSize)
        (fun buffered s => { s with output := some buffered.destination.destination })
        (writeBlockTo s.serverInfo.revision block)
  else toOutput (writeBlockTo s.serverInfo.revision block)

/-- The code and the table name of a Data packet without a name. -/
def dataHeader (revision : Nat) : Emit Error :=
  .all [.write (writeUInt64 ClientCode.data.code),
    since dbmsMinRevisionWithTemporaryTables revision (.writes (writeString []))]

def sendData (block : Block) : ClientM υ ω ι ο Unit := do
  let s ← get
  note (.requested .data)
  toOutput (emit (dataHeader s.serverInfo.revision))
  sendBlockData block
  toOutput Output.flush

/-- Send empty block as marker of end of data. -/
def finalizeQuery : ClientM υ ω ι ο Unit := do
  sendData .empty
  toOutput Output.flush

def sendQuery (query : Query υ) (finalize : Bool) : ClientM υ ω ι ο Unit := do
  let s ← get
  note (.requested .query)
  toOutput (emit (queryPacket s.serverInfo.revision s.compression query))
  if finalize then finalizeQuery

structure ExternalTable where
  name : Bytes
  data : Block

/-- The code, a fixed byte here, and the name of a table. -/
def tableHeader (table : ExternalTable) : Emit Error :=
  .all [.write (writeFixedUInt 1 ClientCode.data.code), .writes (writeString table.name)]

/-- Tables without rows are skipped: an empty block would end the request. -/
def sendExternalData : List ExternalTable → ClientM υ ω ι ο Unit
  | [] => pure ()
  | table :: tables => do
    if table.data.rows = 0 then sendExternalData tables
    else do
      note (.requested .data)
      toOutput (emit (tableHeader table))
      sendBlockData table.data
      sendExternalData tables

end Sending

/-! ## Connecting -/

section Connecting

variable {υ ω ι ο : Type} [Source Error ι] [Output Error ο]

/-- What `SendHello` writes. -/
def helloPacket (options : ClientOptions) : Emit Error :=
  .all
    [.write (writeUInt64 0),
      .writes (writeString clientName),
      .write (writeUInt64 versionMajor),
      .write (writeUInt64 versionMinor),
      .write (writeUInt64 dbmsProtocolRevision),
      .writes (writeString options.defaultDatabase),
      .writes (writeString options.user),
      .writes (writeString options.password)]

def sendHello : ClientM υ ω ι ο Bool := do
  let s ← get
  toOutput (emit (helloPacket s.options))
  toOutput Output.flush
  pure true

/-- The fields of a Hello packet, into `server_info_`. -/
def receiveServerInfo : ClientM υ ω ι ο Bool := do
  let s ← get
  match s.input with
  | none => throw .undefinedBehavior
  | some input =>
    zoom (fun s => (s.serverInfo, input))
      (fun learned s => { s with serverInfo := learned.1, input := some learned.2 }) readServerInfo

def receiveHello : ClientM υ ω ι ο Bool := do
  match ← fromInput readVarint64 with
  | none => pure false
  | some packetType =>
    if packetType = ServerCode.hello.code then do
      let received ← receiveServerInfo
      if received then note .greeted
      pure received
    else if packetType = ServerCode.exception.code then do
      match ← receiveException with
      | none => throw (.protocolError (ascii ("server rejected the connection, but its exception " ++
          "packet could not be decoded")))
      | some e => throw (.serverException e)
    else pure false

/-- The addendum of newer servers is an empty quota key, which is not flushed. -/
def handshake : ClientM υ ω ι ο Bool := do
  if ← sendHello then
    -- for the record only
    modify fun s => { s with hellos := s.hellos ++ s.input.toList }
    if ← receiveHello then do
      let s ← get
      if s.serverInfo.revision ≥ dbmsMinProtocolVersionWithAddendum then
        toOutput (writeSegments (writeString []))
      pure true
    else pure false
  else pure false

variable [SocketFactory ω ι ο]

/-- `connect` and `InitializeStreams`. -/
def initializeStreams : ClientM υ ω ι ο Unit := do
  let s ← get
  note (.attempted s.currentEndpoint)
  let (input, output) ← fromFactory (SocketFactory.connect s.options s.currentEndpoint)
  modify fun s => { s with input := some input, output := some output }
  note (.connected s.currentEndpoint)

def resetConnection : ClientM υ ω ι ο Unit := do
  initializeStreams
  modify fun s => { s with state := .idle }
  unless ← handshake do
    let s ← get
    throw (.protocolError (ascii "fail to connect to " ++ s.options.host))

/-- `current_endpoint_ = endpoint` -/
def setEndpoint (endpoint : Endpoint) : ClientM υ ω ι ο Unit :=
  modify fun s => { s with currentEndpoint := endpoint }

/-- A round of `ResetConnectionEndpoint`, and what is done after a `std::system_error`. -/
def resetEndpointRound (lastEndpoint : Endpoint) (again : Error → ClientM υ ω ι ο Unit) :
    ClientM υ ω ι ο Unit :=
  tryCatch resetConnection fun e => do
    if e.isSystemError then do
      setEndpoint (← nextEndpoint)
      again e
    else do
      setEndpoint lastEndpoint
      throw e

/-- The rounds of `ResetConnectionEndpoint`, with how many may follow the first one. -/
def resetEndpointLoop (lastEndpoint : Endpoint) : Nat → ClientM υ ω ι ο Unit
  | 0 => resetEndpointRound lastEndpoint fun e => do
    setEndpoint lastEndpoint
    throw e
  | remaining + 1 => resetEndpointRound lastEndpoint fun _ => resetEndpointLoop lastEndpoint remaining

def resetConnectionEndpoint : ClientM υ ω ι ο Unit := do
  let s ← get
  resetEndpointLoop s.currentEndpoint (s.options.endpoints.length - 1)

/-- A round of `CreateConnection`, and what is done after a `std::system_error`. -/
def createConnectionRound (again : Error → ClientM υ ω ι ο Unit) : ClientM υ ω ι ο Unit :=
  tryCatch resetConnectionEndpoint fun e => if e.isSystemError then again e else throw e

/-- The rounds of `CreateConnection`, with how many may follow the first one. -/
def createConnectionLoop : Nat → ClientM υ ω ι ο Unit
  | 0 => createConnectionRound throw
  | remaining + 1 => createConnectionRound fun _ => createConnectionLoop remaining

def createConnection : ClientM υ ω ι ο Unit := do
  let s ← get
  createConnectionLoop ((if s.options.sendRetries = 0 then 1 else s.options.sendRetries) - 1)

/-- The members of a client before the body of its constructor. -/
def Client.initial (opts : ClientOptions) (factory : ω) (user : υ) (first : Endpoint) :
    Client υ ω ι ο where
  options := modifyClientOptions opts
  query := .empty
  events := none
  compression := false
  socketFactory := factory
  input := none
  output := none
  currentIndex := 0
  currentEndpoint := first
  serverInfo := .initial
  state := .idle
  user := user
  insertBlock := .empty
  history := []
  hellos := []

/-- The body of the constructor. -/
def construct : ClientM υ ω ι ο Unit := do
  createConnection
  modify fun s => { s with
    compression := if s.options.compressionMethod ≠ .none then true else s.compression }

/-- The constructor: the client, or the exception.  The first `Next` of the iterator is the first
endpoint. -/
def Client.create (opts : ClientOptions) (factory : ω) (user : υ) :
    Except Error (Client υ ω ι ο) :=
  match (modifyClientOptions opts).endpoints with
  | [] => .error (.validationError (ascii "The list of endpoints is empty"))
  | first :: _ =>
    match construct (Client.initial opts factory user first) with
    | .ok _ client => .ok client
    | .error e _ => .error e

/-- A round of the first loop of `RetryGuard`, and what is done after a `std::system_error`. -/
def retryRound (func : ClientM υ ω ι ο Unit) (sendRetries : Nat) (again : ClientM υ ω ι ο Bool) :
    ClientM υ ω ι ο Bool :=
  tryCatch (do func; pure true) fun e =>
    if e.isSystemError && sendRetries ≠ 0 then again else throw e

/-- The reset between two rounds, whose `std::system_error` is dropped. -/
def retryReset : ClientM υ ω ι ο Unit := do
  let s ← get
  tryCatch (do fromFactory (SocketFactory.sleepFor s.options.retryTimeout); resetConnection)
    fun e => if e.isSystemError then pure () else throw e

/-- The first loop of `RetryGuard`, with how many rounds may follow the first one; false if it is
left by `break`. -/
def retryLoop (func : ClientM υ ω ι ο Unit) (sendRetries : Nat) : Nat → ClientM υ ω ι ο Bool
  | 0 => retryRound func sendRetries (pure false)
  | remaining + 1 => retryRound func sendRetries do
    retryReset
    retryLoop func sendRetries remaining

/-- A round of the second loop of `RetryGuard`, and what is done after a `std::system_error`. -/
def failoverRound (func : ClientM υ ω ι ο Unit) (lastEndpoint : Endpoint)
    (again : Error → ClientM υ ω ι ο Unit) : ClientM υ ω ι ο Unit :=
  tryCatch
    (do
      let s ← get
      fromFactory (SocketFactory.sleepFor s.options.retryTimeout)
      setEndpoint (← nextEndpoint)
      resetConnection
      func)
    fun e => do
      if e.isSystemError then again e
      else do
        setEndpoint lastEndpoint
        throw e

/-- The second loop of `RetryGuard`, over the other endpoints. -/
def failoverLoop (func : ClientM υ ω ι ο Unit) (lastEndpoint : Endpoint) :
    Nat → ClientM υ ω ι ο Unit
  | 0 => failoverRound func lastEndpoint fun e => do
    setEndpoint lastEndpoint
    throw e
  | remaining + 1 => failoverRound func lastEndpoint fun _ =>
    failoverLoop func lastEndpoint remaining

/-- A call of the function that `RetryGuard` is given, which is noted. -/
def calling (func : ClientM υ ω ι ο Unit) : ClientM υ ω ι ο Unit := do
  note .called
  func

def retryGuard (func : ClientM υ ω ι ο Unit) : ClientM υ ω ι ο Unit := do
  let s ← get
  unless ← retryLoop (calling func) s.options.sendRetries (s.options.sendRetries - 1) do
    let s ← get
    failoverLoop (calling func) s.currentEndpoint
      (s.options.endpoints.length * s.options.sendRetries - 1)

end Connecting

/-! ## Public operations -/

section Operations

variable {υ ω ι ο : Type} [Source Error ι] [Output Error ο] [Hashing] [Codec]

/-- `throw ValidationError` unless the client is in the state. -/
def expectState (state : State) (what : String) : ClientM υ ω ι ο Unit := do
  let s ← get
  unless s.state = state do throw (.validationError (ascii what))

def ping : ClientM υ ω ι ο Unit := do
  expectState .idle "cannot execute query while executing another operation"
  note (.requested .ping)
  toOutput (writeAll (writeUInt64 ClientCode.ping.code))
  toOutput Output.flush
  let (serverPacket, more) ← processPacket
  unless more && serverPacket = ServerCode.pong.code do
    throw (.protocolError (ascii "fail to ping server"))

/-- The loop of `NextBlock`. -/
def nextBlockLoop : Nat → ClientM υ ω ι ο (Option Block)
  | 0 => throw .diverges
  | fuel + 1 => do
    match (← receivePacket).2 with
    | .block block => if block.columns.length = 0 then nextBlockLoop fuel else pure (some block)
    | .serverException _ => do
      modify Client.resetState
      pure none
    | .endOfStream => do
      modify Client.resetState
      pure none
    | _ => nextBlockLoop fuel

def nextBlock (fuel : Nat) : ClientM υ ω ι ο (Option Block) := do
  expectState .selecting "cannot execute NextBlock while not selecting"
  onThrow (nextBlockLoop fuel) (modify Client.resetState)

/-- `while (NextBlock().has_value());`, with the blocks it drops. -/
def drainLoop (fuel : Nat) : Nat → ClientM υ ω ι ο (List Block)
  | 0 => throw .diverges
  | rounds + 1 => do
    match ← nextBlock fuel with
    | none => pure []
    | some block => do
      let blocks ← drainLoop fuel rounds
      pure (block :: blocks)

def drain (fuel : Nat) : ClientM υ ω ι ο (List Block) := drainLoop fuel fuel

def cancel (fuel : Nat) : ClientM υ ω ι ο (List Block) := do
  expectState .selecting "cannot cancel while not executing a query"
  sendCancel
  drain fuel

/-- The loop that waits for the header of an insert: true once a Data packet was processed, false
if the response has ended. -/
def awaitHeader : Nat → ClientM υ ω ι ο Bool
  | 0 => throw .diverges
  | fuel + 1 => do
    let (serverPacket, more) ← processPacket
    if more then
      if serverPacket = ServerCode.data.code then pure true else awaitHeader fuel
    else pure false

/-- The loop of `EndInsert`: the packet that ended it. -/
def awaitEnd : Nat → ClientM υ ω ι ο Nat
  | 0 => throw .diverges
  | fuel + 1 => do
    let (eosPacket, more) ← processPacket
    if more then awaitEnd fuel else pure eosPacket

/-- The check of `EndInsert` on the packet that ended its loop. -/
def isExpectedEnd (eosPacket : Nat) : Bool :=
  eosPacket = ServerCode.endOfStream.code || eosPacket = ServerCode.exception.code ||
    eosPacket = ServerCode.log.code

def endInsert (fuel : Nat) : ClientM υ ω ι ο Unit := do
  let s ← get
  if s.state = .inserting then do
    sendData .empty
    let eosPacket ← awaitEnd fuel
    let s ← get
    if !isExpectedEnd eosPacket && s.options.rethrowExceptions then
      throw (.protocolError (ascii ("unexpected packet from server while receiving end of query, " ++
        "expected (expected Exception, EndOfStream or Log, got: ") ++
        (if eosPacket ≠ 0 then toDecimal eosPacket else ascii "nothing") ++ ascii ")"))
    modify fun s => { s with state := .idle }

def sendInsertBlock (block : Block) : ClientM υ ω ι ο Unit := do
  expectState .inserting "illegal to send insert data without first calling BeginInsert"
  sendData block

/-- `NameToQueryString` -/
def nameToQueryString (input : Bytes) : Bytes :=
  [0x60] ++ input.flatMap (fun c => if c = 0x60 then [0x60, 0x60] else [c]) ++ [0x60]

/-- The text of the query of `Insert`. -/
def insertText (tableName : Bytes) (block : Block) : Bytes :=
  ascii "INSERT INTO " ++ tableName ++ ascii " ( " ++
    ([0x2C] : Bytes).intercalate (block.columns.map fun column => nameToQueryString column.1) ++
    ascii " ) VALUES"

variable [SocketFactory ω ι ο]

/-- `if (options_.ping_before_query) RetryGuard([this]() { Ping(); });` -/
def pingBeforeQuery : ClientM υ ω ι ο Unit := do
  let s ← get
  if s.options.pingBeforeQuery then retryGuard ping

def beginExecuteQuery (query : Query υ) (finalize : Bool) : ClientM υ ω ι ο Unit := do
  expectState .idle "cannot execute query while executing another operation"
  pingBeforeQuery
  modify fun s => { s with query := query, events := some .stored, state := .selecting }
  onThrow (sendQuery query finalize) (modify Client.resetState)

def executeQuery (fuel : Nat) (query : Query υ) : ClientM υ ω ι ο (List Block) := do
  beginExecuteQuery query true
  drain fuel

def selectWithExternalData (fuel : Nat) (query : Query υ) (tables : List ExternalTable) :
    ClientM υ ω ι ο (List Block) := do
  let s ← get
  if s.serverInfo.revision < dbmsMinRevisionWithTemporaryTables then
    throw (.unimplementedError (ascii
      "This version of ClickHouse server doesn't support temporary tables"))
  beginExecuteQuery query false
  onThrow (do sendExternalData tables; finalizeQuery) (modify Client.resetState)
  drain fuel

def insert (fuel : Nat) (tableName queryId : Bytes) (block : Block) : ClientM υ ω ι ο Unit := do
  let s ← get
  if s.state = .inserting then
    throw (.validationError (ascii
      "cannot execute query while inserting, use SendInsertData instead"))
  expectState .idle "cannot execute query while executing another operation"
  pingBeforeQuery
  modify fun s => { s with state := .inserting }
  sendQuery { Query.empty with text := insertText tableName block, queryId := queryId } true
  if ← awaitHeader fuel then do
    sendData block
    endInsert fuel
  else throw (.protocolError (ascii "fail to receive data packet"))

/-- `EnsureNull`: the events are null again however the scope is left. -/
def ensureNull {α : Type} (events : QueryEvents υ) (body : ClientM υ ω ι ο α) :
    ClientM υ ω ι ο α := do
  modify fun s => { s with events := some events }
  let result ← onThrow body (modify fun s => { s with events := none })
  modify fun s => { s with events := none }
  pure result

/-- `BeginInsert` after its checks. -/
def beginInsertBody (fuel : Nat) (query : Query υ) : ClientM υ ω ι ο Block := do
  pingBeforeQuery
  modify fun s => { s with
    state := .inserting
    insertBlock := .empty
    events := some (.parameter query true) }
  sendQuery query true
  if ← awaitHeader fuel then do
    let s ← get
    pure s.insertBlock
  else throw (.protocolError (ascii "fail to receive data packet"))

def beginInsert (fuel : Nat) (query : Query υ) : ClientM υ ω ι ο Block := do
  expectState .idle "cannot execute query while executing another operation"
  if query.hasEventCallbacks then
    throw (.validationError (ascii "Query callbacks are not supported in BeginInsert"))
  ensureNull (.parameter query false) (beginInsertBody fuel query)

/-- The public operations.  `Select` and its variants are `Execute` with a callback. -/
inductive Client.Operation (υ : Type)
  | execute (query : Query υ)
  | selectWithExternalData (query : Query υ) (tables : List ExternalTable)
  | beginSelect (query : Query υ)
  | nextBlock
  | cancel
  | insert (tableName queryId : Bytes) (block : Block)
  | beginInsert (query : Query υ)
  | sendInsertBlock (block : Block)
  | endInsert
  | ping
  | resetConnection
  | resetConnectionEndpoint

/-- An operation, with the blocks that the calls of `NextBlock` in it returned. -/
def perform (fuel : Nat) : Client.Operation υ → ClientM υ ω ι ο (List Block)
  | .execute query => executeQuery fuel query
  | .selectWithExternalData query tables => ClickHouse.selectWithExternalData fuel query tables
  | .beginSelect query => do
    beginExecuteQuery query true
    pure []
  | .nextBlock => do
    let block ← ClickHouse.nextBlock fuel
    pure block.toList
  | .cancel => ClickHouse.cancel fuel
  | .insert tableName queryId block => do
    ClickHouse.insert fuel tableName queryId block
    pure []
  | .beginInsert query => do
    let _ ← ClickHouse.beginInsert fuel query
    pure []
  | .sendInsertBlock block => do
    ClickHouse.sendInsertBlock block
    pure []
  | .endInsert => do
    ClickHouse.endInsert fuel
    pure []
  | .ping => do
    ClickHouse.ping
    pure []
  | .resetConnection => do
    ClickHouse.resetConnection
    pure []
  | .resetConnectionEndpoint => do
    ClickHouse.resetConnectionEndpoint
    pure []

end Operations

end ClickHouse
