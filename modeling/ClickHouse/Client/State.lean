import ClickHouse.Client.Query
import ClickHouse.Compressed
import ClickHouse.Kit.Contract

/-!
# The state of a client

The members of `Client::Impl`.  The streams of a connection and the socket
factory are of any type; a stream may fail in any way at any time.

Three fields are not members of the class.  `insertBlock` is the local variable
that the callback of `BeginInsert` assigns.  `history` records what happened on
the connections, in order, and `hellos` the streams as they were when a Hello
was to be received from them, for what is said about whole runs.
-/

namespace ClickHouse

open Kit

structure Endpoint where
  host : Bytes
  port : UInt16
deriving DecidableEq

/-- The options of `ClientOptions` that the client itself reads. -/
structure ClientOptions where
  host : Bytes
  port : UInt16
  endpoints : List Endpoint
  defaultDatabase : Bytes
  user : Bytes
  password : Bytes
  rethrowExceptions : Bool
  pingBeforeQuery : Bool
  sendRetries : Nat
  retryTimeout : Nat
  compressionMethod : CompressionMethod
  lowCardinalityAsWrappedColumn : Bool
  maxCompressionChunkSize : Nat

/-- `modifyClientOptions` -/
def modifyClientOptions (opts : ClientOptions) : ClientOptions :=
  if opts.host.isEmpty then opts
  else { opts with endpoints := ⟨opts.host, opts.port⟩ :: opts.endpoints }

structure ServerInfo where
  name : Bytes
  timezone : Bytes
  displayName : Bytes
  versionMajor : Nat
  versionMinor : Nat
  versionPatch : Nat
  revision : Nat
deriving DecidableEq

/-- `server_info_` of a new client.  The numbers are not initialized; 0 stands for what they are. -/
def ServerInfo.initial : ServerInfo := ⟨[], [], [], 0, 0, 0, 0⟩

inductive State
  | idle
  | selecting
  | inserting
deriving DecidableEq

/-- What `events_` points to if it is not null: `query_`, or the parameter of `BeginInsert`, with
whether the callback that assigns the local block has been set on it. -/
inductive QueryEvents (υ : Type)
  | stored
  | parameter (query : Query υ) (assigns : Bool)

/-- `ClientCodes` of requests. -/
inductive ClientCode
  | query
  | data
  | cancel
  | ping
deriving DecidableEq

def ClientCode.code : ClientCode → Nat
  | .query => 1
  | .data => 2
  | .cancel => 3
  | .ping => 4

/-- What happens on the connections of a client. -/
inductive Event
  /-- `connect` is called with the endpoint. -/
  | attempted (endpoint : Endpoint)
  /-- The streams are those of a new connection to the endpoint. -/
  | connected (endpoint : Endpoint)
  /-- The server's Hello has been completely received. -/
  | greeted
  /-- A packet of this kind is about to be written. -/
  | requested (code : ClientCode)
  /-- `RetryGuard` is about to call its function. -/
  | called
deriving DecidableEq

/-- What is noted on a connection in use: a packet of the kind, or a call of `RetryGuard`. -/
def Event.onConnection : Option ClientCode → Event
  | some code => .requested code
  | none => .called

/-- `SocketFactory`, with the streams that `InitializeStreams` makes from a socket. -/
class SocketFactory (ω : Type) (ι ο : outParam Type) where
  connect : ClientOptions → Endpoint → EStateM Error ω (ι × ο)
  sleepFor : Nat → EStateM Error ω Unit

structure Client (υ ω ι ο : Type) where
  options : ClientOptions
  query : Query υ
  events : Option (QueryEvents υ)
  compression : Bool
  socketFactory : ω
  input : Option ι
  output : Option ο
  /-- `current_index` of the round-robin iterator. -/
  currentIndex : Nat
  currentEndpoint : Endpoint
  serverInfo : ServerInfo
  state : State
  user : υ
  insertBlock : Block
  history : List Event
  hellos : List ι

variable {υ ω ι ο : Type} {α : Type}

abbrev ClientM (υ ω ι ο : Type) (α : Type) : Type := EStateM Error (Client υ ω ι ο) α

/-- A read from `*input_`. -/
def fromInput (p : EStateM Error ι α) : ClientM υ ω ι ο α := do
  let s ← get
  match s.input with
  | none => throw .undefinedBehavior
  | some input => zoom (fun _ => input) (fun input s => { s with input := some input }) p

/-- A write to `*output_`. -/
def toOutput (p : EStateM Error ο α) : ClientM υ ω ι ο α := do
  let s ← get
  match s.output with
  | none => throw .undefinedBehavior
  | some output => zoom (fun _ => output) (fun output s => { s with output := some output }) p

/-- A callback of the user. -/
def callback (p : EStateM Error υ α) : ClientM υ ω ι ο α :=
  zoom Client.user (fun user s => { s with user := user }) p

def fromFactory (p : EStateM Error ω α) : ClientM υ ω ι ο α :=
  zoom Client.socketFactory (fun factory s => { s with socketFactory := factory }) p

def note (event : Event) : ClientM υ ω ι ο Unit :=
  modify fun s => { s with history := s.history ++ [event] }

/-- `ResetState` -/
def Client.resetState (s : Client υ ω ι ο) : Client υ ω ι ο :=
  { s with state := .idle, query := .empty, events := none }

/-- `RoundRobinEndpointsIterator::Next` -/
def nextEndpoint : ClientM υ ω ι ο Endpoint := do
  let s ← get
  let index := (s.currentIndex + 1) % s.options.endpoints.length
  set { s with currentIndex := index }
  match s.options.endpoints[index]? with
  | some endpoint => pure endpoint
  | none => throw .undefinedBehavior

/-- Whether `catch (const std::system_error&)` takes the exception. -/
def Error.isSystemError : Error → Bool
  | .systemError _ => true
  | _ => false

end ClickHouse
