import ClickHouse.Client.State
import ClickHouse.Transport

/-!
# Receiving packets

`ReceivePacket` and the functions it calls.  Each of them reads its packet from
the input and then hands it to the events of the query, if there are any.
-/

namespace ClickHouse

open Kit

/-! ## Layouts -/

section Layouts

variable {σ : Type} [Source Error σ]

/-- `ReadFixed` into a `bool`. -/
def readBool : EStateM Error σ (Option Bool) := do
  let some byte ← readFixedUInt 1 | pure none
  pure (some (byte != 0))

/-- `ReadFixed` into an `int`. -/
def readInt32 : EStateM Error σ (Option Int) := do
  let some value ← readFixedUInt 4 | pure none
  pure (some (if value < 2 ^ 31 then value else value - 2 ^ 32))

def readException : EStateM Error σ (Option Exception) := do
  let some code ← readInt32 | pure none
  let some name ← readString | pure none
  let some displayText ← readString | pure none
  let some stackTrace ← readString | pure none
  let some _hasNested ← readBool | pure none
  pure (some ⟨code, name, displayText, stackTrace⟩)

def readProfileInfo : EStateM Error σ (Option Profile) := do
  let some rows ← readUInt64 | pure none
  let some blocks ← readUInt64 | pure none
  let some bytes ← readUInt64 | pure none
  let some appliedLimit ← readBool | pure none
  let some rowsBeforeLimit ← readUInt64 | pure none
  let some calculatedRowsBeforeLimit ← readBool | pure none
  pure (some ⟨rows, blocks, bytes, rowsBeforeLimit, appliedLimit, calculatedRowsBeforeLimit⟩)

/-- The written rows and bytes, which stay 0 if the revision has none. -/
def readWriteInfo (revision : Nat) : EStateM Error σ (Option (Nat × Nat)) := do
  if revision ≥ dbmsMinRevisionWithClientWriteInfo then
    let some writtenRows ← readUInt64 | pure none
    let some writtenBytes ← readUInt64 | pure none
    pure (some (writtenRows, writtenBytes))
  else pure (some (0, 0))

/-- `total_rows` is read if the revision of the client, a constant, has it. -/
def readProgress (revision : Nat) : EStateM Error σ (Option Progress) := do
  let some rows ← readUInt64 | pure none
  let some bytes ← readUInt64 | pure none
  let totalRows ← if dbmsProtocolRevision ≥ dbmsMinRevisionWithTotalRowsInProgress then readUInt64
    else pure (some 0)
  let some totalRows := totalRows | pure none
  let some (writtenRows, writtenBytes) ← readWriteInfo revision | pure none
  pure (some ⟨rows, bytes, totalRows, writtenRows, writtenBytes⟩)

def readTableColumns : EStateM Error σ Bool := do
  if ← skipString then skipString else pure false

variable [Hashing]

/-- The block of a Log or a ProfileEvents packet. -/
def readTaggedBlock (revision : Nat) (settings : CreateColumnByTypeSettings) :
    EStateM Error σ (Option Block) := do
  if ← skipString then
    let (ok, block) ← readBlock revision settings
    pure (if ok then some block else none)
  else pure none

/-- The name of the table before the block of a Data packet. -/
def readTableName (revision : Nat) : EStateM Error σ Bool :=
  if revision ≥ dbmsMinRevisionWithTemporaryTables then skipString else pure true

variable [Codec]

/-- `ReadBlock` from a `CompressedInput`, which is destroyed afterwards. -/
def readCompressedBlock (revision : Nat) (settings : CreateColumnByTypeSettings) :
    EStateM Error σ (Option Block) :=
  unchunk readFrame do
    let (ok, block) ← readBlock revision settings
    CompressedInput.destroy
    pure (if ok then some block else none)

/-- What `ReceiveData` reads. -/
def readData (revision : Nat) (settings : CreateColumnByTypeSettings) (compression : Bool) :
    EStateM Error σ (Option Block) := do
  if ← readTableName revision then
    if compression then readCompressedBlock revision settings
    else
      let (ok, block) ← readBlock revision settings
      pure (if ok then some block else none)
  else pure none

end Layouts

/-! ## Events -/

section Events

variable {υ ω ι ο : Type} [Output Error ο]

/-- The query whose callbacks are called, if there is one. -/
def Client.eventQuery (s : Client υ ω ι ο) : Option (Query υ) :=
  match s.events with
  | none => none
  | some .stored => some s.query
  | some (.parameter query _) => some query

/-- A callback of the current events that is given a value. -/
def notify {α β : Type} (select : Query υ → Option (α → EStateM Error υ β)) (value : α) :
    ClientM υ ω ι ο Unit := do
  let s ← get
  match s.eventQuery.bind select with
  | none => pure ()
  | some call =>
    let _ ← callback (call value)
    pure ()

/-- `OnData`, which after `BeginInsert` has set it assigns the local block. -/
def onData (block : Block) : ClientM υ ω ι ο Unit := do
  let s ← get
  match s.events with
  | some (.parameter _ true) => modify fun s => { s with insertBlock := block }
  | _ => notify Query.selectCb block

def onDataCancelable (block : Block) : ClientM υ ω ι ο Bool := do
  let s ← get
  match s.eventQuery.bind Query.selectCancelableCb with
  | none => pure true
  | some call => callback (call block)

def sendCancel : ClientM υ ω ι ο Unit := do
  note (.requested .cancel)
  toOutput (writeAll (writeUInt64 ClientCode.cancel.code))
  toOutput Output.flush

/-- What `ReceiveData` does with a block. -/
def deliverData (block : Block) : ClientM υ ω ι ο Unit := do
  let s ← get
  if s.events.isSome then
    onData block
    unless ← onDataCancelable block do sendCancel

end Events

/-! ## Packets -/

/-- `ServerCodes` that `ReceivePacket` knows. -/
inductive ServerCode
  | hello
  | data
  | exception
  | progress
  | pong
  | endOfStream
  | profileInfo
  | log
  | tableColumns
  | profileEvents
deriving DecidableEq

def ServerCode.code : ServerCode → Nat
  | .hello => 0
  | .data => 1
  | .exception => 2
  | .progress => 3
  | .pong => 4
  | .endOfStream => 5
  | .profileInfo => 6
  | .log => 10
  | .tableColumns => 11
  | .profileEvents => 14

def ServerCode.ofCode : Nat → Option ServerCode
  | 0 => some .hello
  | 1 => some .data
  | 2 => some .exception
  | 3 => some .progress
  | 4 => some .pong
  | 5 => some .endOfStream
  | 6 => some .profileInfo
  | 10 => some .log
  | 11 => some .tableColumns
  | 14 => some .profileEvents
  | _ => none

inductive DecodedPacket
  | block (block : Block)
  | serverException (e : Exception)
  | profile (profile : Profile)
  | progress (progress : Progress)
  | pong
  | hello
  | log (block : Block)
  | tableColumns
  | profileEvents (block : Block)
  | endOfStream

/-- `(int)packet_type` in the text of an exception. -/
def intOfUInt64 (value : Nat) : Int :=
  let low : Nat := value % 2 ^ 32
  if low < 2 ^ 31 then low else low - 2 ^ 32

section Packets

variable {υ ω ι ο : Type} [Source Error ι] [Output Error ο]

/-- A packet is read from the input and handed over. -/
def receive {α : Type} (read : EStateM Error ι (Option α)) (handOver : α → ClientM υ ω ι ο Unit) :
    ClientM υ ω ι ο (Option α) := do
  match ← fromInput read with
  | none => pure none
  | some value => do
    handOver value
    pure (some value)

def receiveException : ClientM υ ω ι ο (Option Exception) :=
  receive readException (notify Query.exceptionCb)

def receiveProfileInfo : ClientM υ ω ι ο (Option Profile) :=
  receive readProfileInfo (notify Query.profileCb)

def receiveProgress : ClientM υ ω ι ο (Option Progress) := do
  let s ← get
  receive (readProgress s.serverInfo.revision) (notify Query.progressCb)

def receiveTableColumns : ClientM υ ω ι ο Bool :=
  fromInput readTableColumns

variable [Hashing]

/-- The settings with which the columns of a block are created. -/
def Client.columnSettings (s : Client υ ω ι ο) : CreateColumnByTypeSettings :=
  ⟨s.options.lowCardinalityAsWrappedColumn⟩

def receiveLog : ClientM υ ω ι ο (Option Block) := do
  let s ← get
  receive (readTaggedBlock s.serverInfo.revision s.columnSettings) (notify Query.selectServerLogCb)

def receiveProfileEvents : ClientM υ ω ι ο (Option Block) := do
  let s ← get
  receive (readTaggedBlock s.serverInfo.revision s.columnSettings) (notify Query.profileEventsCb)

variable [Codec]

def receiveData : ClientM υ ω ι ο (Option Block) := do
  let s ← get
  receive (readData s.serverInfo.revision s.columnSettings s.compression) deliverData

/-- `throw ProtocolError` if the packet could not be read. -/
def orProtocolError {α : Type} (received : ClientM υ ω ι ο (Option α)) (what : String) :
    ClientM υ ω ι ο α := do
  match ← received with
  | some value => pure value
  | none => throw (.protocolError (ascii what))

/-- The branches of `ReceivePacket`. -/
def receiveBody : ServerCode → ClientM υ ω ι ο DecodedPacket
  | .data => do
    let block ← orProtocolError receiveData "can't read data packet from input stream"
    pure (.block block)
  | .exception => do
    let e ← orProtocolError receiveException
      ("server reported an error, but the exception packet could not be decoded " ++
        "(error details lost)")
    let s ← get
    if s.options.rethrowExceptions then throw (.serverException e)
    else pure (.serverException e)
  | .profileInfo => do
    let profile ← orProtocolError receiveProfileInfo
      "can't read profile info packet from input stream"
    pure (.profile profile)
  | .progress => do
    let progress ← orProtocolError receiveProgress "can't read progress packet from input stream"
    pure (.progress progress)
  | .pong => pure .pong
  | .hello => pure .hello
  -- `OnFinish` of a query does nothing.
  | .endOfStream => pure .endOfStream
  | .log => do
    let block ← orProtocolError receiveLog "can't read log packet from input stream"
    pure (.log block)
  | .tableColumns => do
    if ← receiveTableColumns then pure .tableColumns
    else throw (.protocolError (ascii "can't read table columns packet from input stream"))
  | .profileEvents => do
    let block ← orProtocolError receiveProfileEvents
      "can't read profile events packet from input stream"
    pure (.profileEvents block)

/-- `ReceivePacket`, with the value it assigns to `*server_packet`. -/
def receivePacket : ClientM υ ω ι ο (Nat × DecodedPacket) := do
  let packetType ← orProtocolError (fromInput readVarint64)
    "can't read packet type from input stream"
  match ServerCode.ofCode packetType with
  | some code =>
    let packet ← receiveBody code
    pure (packetType, packet)
  | none =>
    throw (.unimplementedError (ascii "unimplemented " ++ toDecimalInt (intOfUInt64 packetType)))

/-- Whether the packet marks the end of a response. -/
def DecodedPacket.ends : DecodedPacket → Bool
  | .serverException _ => true
  | .endOfStream => true
  | _ => false

/-- `ProcessPacket`, with the value it assigns to `*server_packet`. -/
def processPacket : ClientM υ ω ι ο (Nat × Bool) := do
  let (packetType, packet) ← receivePacket
  pure (packetType, !packet.ends)

end Packets

end ClickHouse
