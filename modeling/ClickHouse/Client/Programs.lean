import ClickHouse.Client.Operations

/-!
# How the operations are put together

A kind of programs of a client, such as those that keep an invariant or those
that two clients run alike, is closed under sequences, handlers and looks at
the client.  If it has the few steps that the operations are made of, it has
the operations: each part of them is gone through once here, for every kind.
-/

namespace ClickHouse

open Kit

variable {υ ω ι ο : Type}

/-- A kind of programs that has all that is put together from its programs. -/
structure Composes (P : (α : Type) → ClientM υ ω ι ο α → Prop) : Prop where
  returns {α : Type} (a : α) : P α (pure a)
  throws {α : Type} (e : Error) : P α (throw e)
  seq {α β : Type} {p : ClientM υ ω ι ο α} {f : α → ClientM υ ω ι ο β} :
    P α p → (∀ a, P β (f a)) → P β (p >>= f)
  handles {α : Type} {p : ClientM υ ω ι ο α} {handler : Error → ClientM υ ω ι ο α} :
    P α p → (∀ e, P α (handler e)) → P α (tryCatch p handler)
  /-- A look at the endpoint and the options. -/
  looksAround {α : Type} {f : ClientOptions → Endpoint → ClientM υ ω ι ο α} :
    (∀ options endpoint, P α (f options endpoint)) →
      P α (do let s ← get; f s.options s.currentEndpoint)

/-- A kind of programs that may look at all but the history and the query. -/
structure Looks (P : (α : Type) → ClientM υ ω ι ο α → Prop) : Prop extends Composes P where
  looks {α : Type} {f : Client υ ω ι ο → ClientM υ ω ι ο α} :
    (∀ s history query, f { s with history := history, query := query } = f s) →
      (∀ s, P α (f s)) → P α (get >>= f)

variable {P : (α : Type) → ClientM υ ω ι ο α → Prop}

namespace Composes

variable (c : Composes P)

include c

/-- Nothing is done after a throw. -/
theorem throwsFirst {α β : Type} (e : Error) (f : α → ClientM υ ω ι ο β) : P β (throw e >>= f) :=
  c.throws e

theorem onThrow {α : Type} {p : ClientM υ ω ι ο α} {cleanup : ClientM υ ω ι ο PUnit}
    (body : P α p) (cleans : P PUnit cleanup) : P α (Kit.onThrow p cleanup) :=
  c.handles body fun e => c.seq cleans fun _ => c.throws e

/-- One part and, if it returned true, the next. -/
theorem andThen {p q : ClientM υ ω ι ο Bool} (first : P Bool p) (rest : P Bool q) :
    P Bool (do if ← p then q else pure false) := by
  refine c.seq first fun ok => ?_
  split
  · exact rest
  · exact c.returns _

end Composes

theorem Looks.expectState (c : Looks P) (state : State) (what : String) :
    P Unit (ClickHouse.expectState state what) := by
  refine c.looks (fun _ _ _ => rfl) fun s => ?_
  split
  · exact c.returns _
  · exact c.throws _

/-! ## Receiving -/

/-- The kind has the reads from the input. -/
structure ReadsInput (P : (α : Type) → ClientM υ ω ι ο α → Prop) : Prop extends Looks P where
  reads {α : Type} (p : EStateM Error ι α) : P α (fromInput p)

theorem ReadsInput.receive {α : Type} (c : ReadsInput P) (read : EStateM Error ι (Option α))
    {handOver : α → ClientM υ ω ι ο Unit} (hands : ∀ a, P Unit (handOver a)) :
    P _ (ClickHouse.receive read handOver) := by
  refine c.seq (c.reads read) fun value => ?_
  split
  · exact c.returns _
  · exact c.seq (hands _) fun _ => c.returns _

/-- The kind has what is done to receive packets. -/
structure ReceivesPackets [Output Error ο] (P : (α : Type) → ClientM υ ω ι ο α → Prop) : Prop
    extends ReadsInput P where
  notifies {α β : Type} (select : Query υ → Option (α → EStateM Error υ β)) (value : α) :
    P Unit (notify select value)
  delivers (block : Block) : P Unit (deliverData block)

namespace ReceivesPackets

variable [Output Error ο] (c : ReceivesPackets P)

include c

theorem orProtocolError {α : Type} {p : ClientM υ ω ι ο (Option α)} (received : P _ p)
    (what : String) : P α (ClickHouse.orProtocolError p what) := by
  refine c.seq received fun value => ?_
  split
  · exact c.returns _
  · exact c.throws _

/-- A read that depends on the revision, the settings of columns and the compression. -/
theorem receiveFor {α : Type}
    (read : Nat → CreateColumnByTypeSettings → Bool → EStateM Error ι (Option α))
    {handOver : α → ClientM υ ω ι ο Unit} (hands : ∀ a, P Unit (handOver a)) :
    P _ (do
      let s ← get
      ClickHouse.receive (read s.serverInfo.revision s.columnSettings s.compression) handOver) :=
  c.looks (fun _ _ _ => rfl) fun _ => c.receive _ hands

variable [Source Error ι] [Hashing] [Codec]

theorem receiveBody (code : ServerCode) : P _ (ClickHouse.receiveBody code) := by
  have tagged {β : Type} (select : Query υ → Option (Block → EStateM Error υ β)) (what : String) :
      P Block (ClickHouse.orProtocolError (do
        let s ← get
        ClickHouse.receive (readTaggedBlock s.serverInfo.revision s.columnSettings)
          (notify select)) what) :=
    c.orProtocolError (c.receiveFor (fun revision settings _ => readTaggedBlock revision settings)
      fun _ => c.notifies _ _) what
  cases code with
  | data =>
    exact c.seq (c.orProtocolError (c.receiveFor readData c.delivers) _) fun _ => c.returns _
  | exception =>
    refine c.seq (c.orProtocolError (c.receive _ fun _ => c.notifies _ _) _) fun e => ?_
    refine c.looks (fun _ _ _ => rfl) fun s => ?_
    split
    · exact c.throws _
    · exact c.returns _
  | profileInfo =>
    exact c.seq (c.orProtocolError (c.receive _ fun _ => c.notifies _ _) _) fun _ => c.returns _
  | progress =>
    exact c.seq (c.orProtocolError (c.receiveFor (fun revision _ _ => readProgress revision)
      fun _ => c.notifies _ _) _) fun _ => c.returns _
  | pong => exact c.returns _
  | hello => exact c.returns _
  | endOfStream => exact c.returns _
  | log => exact c.seq (tagged _ _) fun _ => c.returns _
  | tableColumns =>
    refine c.seq (c.reads _) fun read => ?_
    split
    · exact c.returns _
    · exact c.throws _
  | profileEvents => exact c.seq (tagged _ _) fun _ => c.returns _

theorem receivePacket : P _ ClickHouse.receivePacket := by
  refine c.seq (c.orProtocolError (c.reads _) _) fun packetType => ?_
  split
  · exact c.seq (c.receiveBody _) fun _ => c.returns _
  · exact c.throws _

theorem processPacket : P _ ClickHouse.processPacket :=
  c.seq c.receivePacket fun _ => c.returns _

theorem awaitHeader (fuel : Nat) : P _ (ClickHouse.awaitHeader fuel) := by
  induction fuel with
  | zero => exact c.throws _
  | succ fuel ih =>
    refine c.seq c.processPacket fun ⟨serverPacket, more⟩ => ?_
    dsimp only
    split
    · split
      · exact c.returns _
      · exact ih
    · exact c.returns _

theorem awaitEnd (fuel : Nat) : P _ (ClickHouse.awaitEnd fuel) := by
  induction fuel with
  | zero => exact c.throws _
  | succ fuel ih =>
    refine c.seq c.processPacket fun ⟨serverPacket, more⟩ => ?_
    dsimp only
    split
    · exact ih
    · exact c.returns _

variable (resets : P PUnit (modify Client.resetState))

include resets

theorem nextBlock (fuel : Nat) : P _ (ClickHouse.nextBlock fuel) := by
  have loop : P _ (nextBlockLoop fuel) := by
    induction fuel with
    | zero => exact c.throws _
    | succ fuel ih =>
      refine c.seq c.receivePacket fun received => ?_
      split
      · split
        · exact ih
        · exact c.returns _
      · exact c.seq resets fun _ => c.returns _
      · exact c.seq resets fun _ => c.returns _
      · exact ih
  exact c.seq (c.expectState _ _) fun _ => c.onThrow loop resets

theorem drain (fuel : Nat) : P _ (ClickHouse.drain fuel) := by
  have loop (rounds : Nat) : P _ (drainLoop fuel rounds) := by
    induction rounds with
    | zero => exact c.throws _
    | succ rounds ih =>
      refine c.seq (c.nextBlock resets fuel) fun block => ?_
      split
      · exact c.returns _
      · exact c.seq ih fun _ => c.returns _
  exact loop fuel

end ReceivesPackets

/-! ## Sending -/

/-- The kind has what is done to send packets. -/
structure SendsPackets [Output Error ο] [Hashing] [Codec] (P : (α : Type) → ClientM υ ω ι ο α → Prop) :
    Prop extends Looks P where
  writes {α : Type} (p : EStateM Error ο α) : P α (toOutput p)
  notes (what : Option ClientCode) : P Unit (note (.onConnection what))
  sendsBlock (block : Block) : P Unit (sendBlockData block)

namespace SendsPackets

variable [Output Error ο] [Hashing] [Codec] (c : SendsPackets P)

include c

theorem sendCancel : P _ ClickHouse.sendCancel :=
  c.seq (c.notes (some .cancel)) fun _ => c.seq (c.writes _) fun _ => c.writes _

theorem sendData (block : Block) : P _ (ClickHouse.sendData block) :=
  c.looks (fun _ _ _ => rfl) fun _ => c.seq (c.notes (some .data)) fun _ =>
    c.seq (c.writes _) fun _ => c.seq (c.sendsBlock block) fun _ => c.writes _

theorem finalizeQuery : P _ ClickHouse.finalizeQuery :=
  c.seq (c.sendData _) fun _ => c.writes _

theorem sendQuery (query : Query υ) (finalize : Bool) :
    P _ (ClickHouse.sendQuery query finalize) := by
  refine c.looks (fun _ _ _ => rfl) fun _ => c.seq (c.notes (some .query)) fun _ =>
    c.seq (c.writes _) fun _ => ?_
  split
  · exact c.finalizeQuery
  · exact c.returns _

theorem sendExternalData (tables : List ExternalTable) :
    P _ (ClickHouse.sendExternalData tables) := by
  induction tables with
  | nil => exact c.returns _
  | cons table tables ih =>
    rw [ClickHouse.sendExternalData]
    split
    · exact ih
    · exact c.seq (c.notes (some .data)) fun _ => c.seq (c.writes _) fun _ =>
        c.seq (c.sendsBlock _) fun _ => ih

end SendsPackets

/-- The kind has what is done on a connection. -/
structure Talks [Output Error ο] [Hashing] [Codec] (P : (α : Type) → ClientM υ ω ι ο α → Prop) :
    Prop extends ReceivesPackets P, SendsPackets P

theorem Talks.ping [Source Error ι] [Output Error ο] [Hashing] [Codec] (c : Talks P) :
    P _ ClickHouse.ping := by
  refine c.seq (c.expectState _ _) fun _ => c.seq (c.notes (some .ping)) fun _ =>
    c.seq (c.writes _) fun _ => c.seq (c.writes _) fun _ =>
    c.seq c.processPacket fun ⟨serverPacket, more⟩ => ?_
  dsimp only
  split
  · exact c.returns _
  · exact c.throws _

/-! ## Connecting -/

section Connecting

variable [Source Error ι] [Output Error ο] [SocketFactory ω ι ο] {func : ClientM υ ω ι ο Unit}

/-- The kind has a pause and a reset of the connection. -/
structure Resets (P : (α : Type) → ClientM υ ω ι ο α → Prop) : Prop extends Composes P where
  sleeps (n : Nat) : P Unit (fromFactory (SocketFactory.sleepFor n))
  reconnects : P Unit resetConnection

/-- The kind has a reset of the connection and the choice of another endpoint. -/
structure Moves (P : (α : Type) → ClientM υ ω ι ο α → Prop) : Prop extends Composes P where
  reconnects : P Unit resetConnection
  setsEndpoint (endpoint : Endpoint) : P Unit (setEndpoint endpoint)
  nexts : P Endpoint nextEndpoint

structure Retries (P : (α : Type) → ClientM υ ω ι ο α → Prop) : Prop extends Resets P, Moves P

namespace Resets

variable (c : Resets P)

include c

theorem retryReset : P _ ClickHouse.retryReset := by
  refine c.looksAround (f := fun options _ => tryCatch (do
    fromFactory (SocketFactory.sleepFor options.retryTimeout)
    resetConnection) _) fun options _ => ?_
  refine c.handles (c.seq (c.sleeps _) fun _ => c.reconnects) fun e => ?_
  split
  · exact c.returns _
  · exact c.throws e

theorem retryLoop (calls : P Unit func) (sendRetries remaining : Nat) :
    P _ (ClickHouse.retryLoop func sendRetries remaining) := by
  have round {again : ClientM υ ω ι ο Bool} (goesOn : P _ again) :
      P _ (retryRound func sendRetries again) := by
    refine c.handles (c.seq calls fun _ => c.returns _) fun e => ?_
    split
    · exact goesOn
    · exact c.throws e
  induction remaining with
  | zero => exact round (c.returns _)
  | succ remaining ih => exact round (c.seq c.retryReset fun _ => ih)

end Resets

namespace Moves

variable (c : Moves P)

include c

theorem restores (lastEndpoint : Endpoint) (e : Error) :
    P Unit (do setEndpoint lastEndpoint; throw e) :=
  c.seq (c.setsEndpoint lastEndpoint) fun _ => c.throws e

theorem resetEndpointLoop (lastEndpoint : Endpoint) (remaining : Nat) :
    P _ (ClickHouse.resetEndpointLoop lastEndpoint remaining) := by
  have round {again : Error → ClientM υ ω ι ο Unit} (goesOn : ∀ e, P _ (again e)) :
      P _ (resetEndpointRound lastEndpoint again) := by
    refine c.handles c.reconnects fun e => ?_
    split
    · exact c.seq c.nexts fun endpoint => c.seq (c.setsEndpoint endpoint) fun _ => goesOn e
    · exact c.restores lastEndpoint e
  induction remaining with
  | zero => exact round (c.restores lastEndpoint)
  | succ remaining ih => exact round fun _ => ih

theorem resetConnectionEndpoint : P _ ClickHouse.resetConnectionEndpoint :=
  c.looksAround (f := fun options endpoint =>
    ClickHouse.resetEndpointLoop endpoint (options.endpoints.length - 1)) fun _ _ =>
    c.resetEndpointLoop _ _

theorem createConnection : P _ ClickHouse.createConnection := by
  have round {again : Error → ClientM υ ω ι ο Unit} (goesOn : ∀ e, P _ (again e)) :
      P _ (createConnectionRound again) := by
    refine c.handles c.resetConnectionEndpoint fun e => ?_
    split
    · exact goesOn e
    · exact c.throws e
  have loop (remaining : Nat) : P _ (createConnectionLoop remaining) := by
    induction remaining with
    | zero => exact round c.throws
    | succ remaining ih => exact round fun _ => ih
  exact c.looksAround (f := fun options _ => createConnectionLoop
    ((if options.sendRetries = 0 then 1 else options.sendRetries) - 1)) fun _ _ => loop _

end Moves

namespace Retries

variable (c : Retries P)

include c

theorem failoverLoop (calls : P Unit func) (lastEndpoint : Endpoint) (remaining : Nat) :
    P _ (ClickHouse.failoverLoop func lastEndpoint remaining) := by
  have moves : P Unit (do
      let s ← get
      fromFactory (SocketFactory.sleepFor s.options.retryTimeout)
      setEndpoint (← nextEndpoint)
      resetConnection
      func) :=
    c.looksAround (f := fun options _ => do
      fromFactory (SocketFactory.sleepFor options.retryTimeout)
      setEndpoint (← nextEndpoint)
      resetConnection
      func) fun _ _ => c.seq (c.sleeps _) fun _ => c.seq c.nexts fun endpoint =>
        c.seq (c.setsEndpoint endpoint) fun _ => c.seq c.reconnects fun _ => calls
  have round {again : Error → ClientM υ ω ι ο Unit} (goesOn : ∀ e, P _ (again e)) :
      P _ (failoverRound func lastEndpoint again) := by
    refine c.handles moves fun e => ?_
    split
    · exact goesOn e
    · exact c.restores lastEndpoint e
  induction remaining with
  | zero => exact round (c.restores lastEndpoint)
  | succ remaining ih => exact round fun _ => ih

theorem retryGuard (calls : P Unit (calling func)) : P _ (ClickHouse.retryGuard func) := by
  have failover : P Unit (do
      let s ← get
      ClickHouse.failoverLoop (calling func) s.currentEndpoint
        (s.options.endpoints.length * s.options.sendRetries - 1)) :=
    c.looksAround (f := fun options endpoint => ClickHouse.failoverLoop (calling func) endpoint
      (options.endpoints.length * options.sendRetries - 1)) fun _ _ => c.failoverLoop calls _ _
  refine c.looksAround (f := fun options _ => do
    unless ← ClickHouse.retryLoop (calling func) options.sendRetries (options.sendRetries - 1) do
      let s ← get
      ClickHouse.failoverLoop (calling func) s.currentEndpoint
        (s.options.endpoints.length * s.options.sendRetries - 1)) fun options _ => ?_
  refine c.seq (c.retryLoop calls _ _) fun done => ?_
  split
  · exact c.returns _
  · exact failover

end Retries

/-! ## Operations -/

variable [Hashing] [Codec]

/-- The kind has what is done on a connection, and the notes of what the client is doing. -/
structure Sessions (P : (α : Type) → ClientM υ ω ι ο α → Prop) : Prop extends Talks P where
  resetsState : P PUnit (modify Client.resetState)
  setsState (state : State) : P PUnit (modify fun s => { s with state := state })

/-- The kind has all that an operation does. -/
structure Operates (P : (α : Type) → ClientM υ ω ι ο α → Prop) : Prop
    extends Retries P, Sessions P where
  selects (query : Query υ) : P PUnit (modify fun s => { s with
    query := query, events := some .stored, state := .selecting })
  /-- The events of `BeginInsert` are those of its parameter. -/
  setsEvents (events : Option (QueryEvents υ)) : events ≠ some .stored →
    P PUnit (modify fun s => { s with events := events })
  inserts (query : Query υ) : P PUnit (modify fun s => { s with
    state := .inserting, insertBlock := .empty, events := some (.parameter query true) })

omit [SocketFactory ω ι ο] in
theorem Sessions.nextBlock (c : Sessions P) (fuel : Nat) : P _ (ClickHouse.nextBlock fuel) :=
  c.toReceivesPackets.nextBlock c.resetsState fuel

omit [SocketFactory ω ι ο] in
theorem Sessions.drain (c : Sessions P) (fuel : Nat) : P _ (ClickHouse.drain fuel) :=
  c.toReceivesPackets.drain c.resetsState fuel

omit [SocketFactory ω ι ο] in
theorem Sessions.endInsert (c : Sessions P) (fuel : Nat) : P _ (ClickHouse.endInsert fuel) := by
  refine c.looks (fun _ _ _ => rfl) fun s => ?_
  split
  · refine c.seq (c.sendData _) fun _ => c.seq (c.awaitEnd fuel) fun eosPacket =>
      c.looks (fun _ _ _ => rfl) fun t => ?_
    dsimp only
    split
    · exact c.throwsFirst _ _
    · exact c.setsState _
  · exact c.returns _

namespace Operates

variable (c : Operates P)

include c

theorem pingBeforeQuery : P _ ClickHouse.pingBeforeQuery := by
  refine c.looks (fun _ _ _ => rfl) fun s => ?_
  split
  · exact c.retryGuard (c.seq (c.notes none) fun _ => c.ping)
  · exact c.returns _

theorem beginExecuteQuery (query : Query υ) (finalize : Bool) :
    P _ (ClickHouse.beginExecuteQuery query finalize) :=
  c.seq (c.expectState _ _) fun _ => c.seq c.pingBeforeQuery fun _ =>
    c.seq (c.selects query) fun _ => c.onThrow (c.sendQuery query finalize) c.resetsState

theorem selectWithExternalData (fuel : Nat) (query : Query υ) (tables : List ExternalTable) :
    P _ (ClickHouse.selectWithExternalData fuel query tables) := by
  refine c.looks (fun _ _ _ => rfl) fun s => ?_
  dsimp only
  split
  · exact c.throwsFirst _ _
  · exact c.seq (c.beginExecuteQuery query false) fun _ => c.seq (c.onThrow
      (c.seq (c.sendExternalData tables) fun _ => c.finalizeQuery) c.resetsState) fun _ =>
      c.drain fuel

theorem insert (fuel : Nat) (tableName queryId : Bytes) (block : Block) :
    P _ (ClickHouse.insert fuel tableName queryId block) := by
  refine c.looks (fun _ _ _ => rfl) fun s => ?_
  dsimp only
  split
  · exact c.throwsFirst _ _
  · refine c.seq (c.expectState _ _) fun _ => c.seq c.pingBeforeQuery fun _ =>
      c.seq (c.setsState _) fun _ => c.seq (c.sendQuery _ _) fun _ =>
      c.seq (c.awaitHeader fuel) fun header => ?_
    split
    · exact c.seq (c.sendData block) fun _ => c.endInsert fuel
    · exact c.throws _

theorem beginInsert (fuel : Nat) (query : Query υ) : P _ (ClickHouse.beginInsert fuel query) := by
  have body : P _ (beginInsertBody fuel query) := by
    refine c.seq c.pingBeforeQuery fun _ => c.seq (c.inserts query) fun _ =>
      c.seq (c.sendQuery query true) fun _ => c.seq (c.awaitHeader fuel) fun header => ?_
    split
    · exact c.looks (fun _ _ _ => rfl) fun _ => c.returns _
    · exact c.throws _
  have clears := c.setsEvents none (by simp)
  refine c.seq (c.expectState _ _) fun _ => ?_
  dsimp only
  split
  · exact c.throwsFirst _ _
  · exact c.seq (c.setsEvents _ (by simp)) fun _ => c.seq (c.onThrow body clears) fun _ =>
      c.seq clears fun _ => c.returns _

theorem perform (fuel : Nat) (operation : Client.Operation υ) :
    P _ (ClickHouse.perform fuel operation) := by
  cases operation with
  | execute query => exact c.seq (c.beginExecuteQuery query true) fun _ => c.drain fuel
  | selectWithExternalData query tables => exact c.selectWithExternalData fuel query tables
  | beginSelect query => exact c.seq (c.beginExecuteQuery query true) fun _ => c.returns _
  | nextBlock => exact c.seq (c.nextBlock fuel) fun _ => c.returns _
  | cancel => exact c.seq (c.expectState _ _) fun _ => c.seq c.sendCancel fun _ => c.drain fuel
  | insert tableName queryId block =>
    exact c.seq (c.insert fuel tableName queryId block) fun _ => c.returns _
  | beginInsert query => exact c.seq (c.beginInsert fuel query) fun _ => c.returns _
  | sendInsertBlock block =>
    exact c.seq (c.seq (c.expectState _ _) fun _ => c.sendData block) fun _ => c.returns _
  | endInsert => exact c.seq (c.endInsert fuel) fun _ => c.returns _
  | ping => exact c.seq c.ping fun _ => c.returns _
  | resetConnection => exact c.seq c.reconnects fun _ => c.returns _
  | resetConnectionEndpoint => exact c.seq c.resetConnectionEndpoint fun _ => c.returns _

end Operates

end Connecting

end ClickHouse
