import ClickHouse.Client.Programs

/-!
# What the parts of an operation can change

To send and to receive on a connection changes the streams, the state of the
user and the history, and nothing else of a client.  A reset of the connection
either does not connect, or it replaces the streams and makes the client idle.
Everything that is said about the state of a client over whole runs is derived
from these two relations.
-/

namespace ClickHouse

open Kit List Ensures

variable {υ ω ι ο : Type}

/-! ## Sending and receiving -/

/-- From `s` the client came to `t` by the use of its streams and of callbacks. -/
def Streamed (s t : Client υ ω ι ο) : Prop :=
  ∃ input output user, t = { s with input := input, output := output, user := user }

/-- From `s` the client came to `t` by sending and receiving on its connection. -/
def Talked (s t : Client υ ω ι ο) : Prop :=
  ∃ input output user block, ∃ notes : List (Option ClientCode), t = { s with
    input := input
    output := output
    user := user
    insertBlock := block
    history := s.history ++ notes.map .onConnection }

instance : Std.Refl (Streamed : Client υ ω ι ο → Client υ ω ι ο → Prop) where
  refl s := ⟨s.input, s.output, s.user, rfl⟩

instance : IsTrans (Client υ ω ι ο) Streamed where
  trans := by
    rintro s _ _ ⟨_, _, _, rfl⟩ ⟨input, output, user, rfl⟩
    exact ⟨input, output, user, rfl⟩

variable {s t : Client υ ω ι ο} {state : State} {greeted : Bool} {factory : ω} {input : ι}
    {output : ο}

theorem Streamed.talked (streamed : Streamed s t) : Talked s t := by
  obtain ⟨input, output, user, rfl⟩ := streamed
  exact ⟨input, output, user, s.insertBlock, [], by rw [map_nil, append_nil]⟩

instance : Std.Refl (Talked : Client υ ω ι ο → Client υ ω ι ο → Prop) where
  refl s := Streamed.talked (Std.Refl.refl s)

instance : IsTrans (Client υ ω ι ο) Talked where
  trans := by
    rintro s _ _ ⟨_, _, _, _, notes, rfl⟩ ⟨input, output, user, block, notes', rfl⟩
    refine ⟨input, output, user, block, notes ++ notes', ?_⟩
    rw [map_append, ← append_assoc]

section Streams

variable {α : Type}

theorem streamed_fromInput (p : EStateM Error ι α) :
    Along Streamed (fromInput p : ClientM υ ω ι ο α) := by
  refine along_get_bind fun s => ?_
  split
  · exact along_throw _
  · exact along_zoom fun input t => ⟨some input, t.output, t.user, rfl⟩

theorem streamed_toOutput (p : EStateM Error ο α) :
    Along Streamed (toOutput p : ClientM υ ω ι ο α) := by
  refine along_get_bind fun s => ?_
  split
  · exact along_throw _
  · exact along_zoom fun output t => ⟨t.input, some output, t.user, rfl⟩

theorem streamed_callback (p : EStateM Error υ α) :
    Along Streamed (callback p : ClientM υ ω ι ο α) :=
  along_zoom fun user t => ⟨t.input, t.output, user, rfl⟩

theorem streamed_notify {β : Type} (select : Query υ → Option (α → EStateM Error υ β)) (value : α) :
    Along Streamed (notify select value : ClientM υ ω ι ο Unit) := by
  refine along_get_bind fun s => ?_
  split
  · exact along_pure _
  · exact (streamed_callback _).bind fun _ => along_pure _

theorem looks_along {R : Client υ ω ι ο → Client υ ω ι ο → Prop} [Std.Refl R]
    [IsTrans (Client υ ω ι ο) R] : Looks fun α (p : ClientM υ ω ι ο α) => Along R p where
  returns := along_pure
  throws := along_throw
  seq first rest := first.bind rest
  handles body handled := body.tryCatch handled
  looksAround rest := along_get_bind fun _ => rest _ _
  looks _ rest := along_get_bind rest

theorem reads_streamed : ReadsInput fun α (p : ClientM υ ω ι ο α) => Along Streamed p :=
  { looks_along with reads := streamed_fromInput }

theorem streamed_receiveException [Source Error ι] :
    Along Streamed (receiveException : ClientM υ ω ι ο (Option Exception)) :=
  reads_streamed.receive _ fun _ => streamed_notify _ _

theorem along_toOutput (p : EStateM Error ο α) : Along Talked (toOutput p : ClientM υ ω ι ο α) :=
  (streamed_toOutput p).mono fun _ _ => Streamed.talked

theorem along_note (what : Option ClientCode) :
    Along Talked (note (.onConnection what) : ClientM υ ω ι ο Unit) :=
  along_modify fun t => ⟨t.input, t.output, t.user, t.insertBlock, [what], rfl⟩

end Streams

theorem runs_expectState (same : s.state = state) (what : String) :
    Runs (expectState state what) s () s := by
  refine (runs_get s).bind ?_
  rw [if_pos same]
  exact runs_pure () s

theorem throws_expectState (other : s.state ≠ state) (what : String) :
    Throws (expectState state what) s (.validationError (ascii what)) s := by
  refine (runs_get s).bind_throws ?_
  rw [if_neg other]
  exact throws_throw _ s

/-- A call that is refused in a state leaves the client as it is. -/
theorem expectState_ensures (state : State) (what : String) (s : Client υ ω ι ο) :
    Ensures (expectState state what) s (fun _ t => s = t ∧ s.state = state) fun _ t => s = t := by
  refine ensures_get_bind ?_
  split
  · exact ensures_pure ⟨rfl, ‹_›⟩
  · exact ensures_throw rfl

/-- What returns after the check was called in the state. -/
theorem of_runs_expectState {α : Type} {what : String} {p : Unit → ClientM υ ω ι ο α} {a : α}
    (run : Runs (expectState state what >>= p) s a t) : s.state = state ∧ Runs (p ()) s a t := by
  obtain ⟨_, _, expected, run⟩ := runs_bind_iff.mp run
  obtain ⟨rfl, same⟩ := (expectState_ensures state what s).of_runs expected
  exact ⟨same, run⟩

theorem along_expectState {R : Client υ ω ι ο → Client υ ω ι ο → Prop} [Std.Refl R]
    [IsTrans (Client υ ω ι ο) R] (state : State) (what : String) :
    Along R (expectState state what : ClientM υ ω ι ο Unit) :=
  looks_along.expectState state what

/-- Whether the current events have a callback that can cancel. -/
def Client.mayCancel (s : Client υ ω ι ο) : Bool :=
  (s.eventQuery.bind Query.selectCancelableCb).isSome

/-- The relation allows all that is done to receive packets: to read, to call back and, if a
callback can ask for it, to cancel. -/
structure AllowsReceipts [Output Error ο] (R : Client υ ω ι ο → Client υ ω ι ο → Prop) : Prop where
  reads : ∀ s input user block, R s { s with input := input, user := user, insertBlock := block }
  cancels : ∀ s, s.mayCancel = true → Ensures sendCancel s (fun _ t => R s t) fun _ t => R s t

namespace AllowsReceipts

variable [Output Error ο] {R : Client υ ω ι ο → Client υ ω ι ο → Prop} (allows : AllowsReceipts R)
  [Std.Refl R] [IsTrans (Client υ ω ι ο) R] {α : Type}

include allows

theorem fromInput (p : EStateM Error ι α) : Along R (ClickHouse.fromInput p) := by
  apply along_get_bind
  intro s
  split
  · exact along_throw _
  · exact along_zoom fun input t => allows.reads t (some input) t.user t.insertBlock

omit [Std.Refl R] [IsTrans (Client υ ω ι ο) R] in
theorem callback (p : EStateM Error υ α) : Along R (ClickHouse.callback p) :=
  along_zoom fun user t => allows.reads t t.input user t.insertBlock

theorem notify {β : Type} (select : Query υ → Option (α → EStateM Error υ β)) (value : α) :
    Along R (ClickHouse.notify select value) := by
  apply along_get_bind
  intro s
  split
  · exact along_pure _
  · exact (allows.callback _).bind fun _ => along_pure _

theorem deliverData (block : Block) : Along R (ClickHouse.deliverData block) := by
  have onData : Along R (ClickHouse.onData block) := by
    apply along_get_bind
    intro s
    split
    · exact along_modify fun t => allows.reads t t.input t.user block
    · exact allows.notify _ _
  -- Only a callback that was asked can have answered no.
  have asked (s : Client υ ω ι ο) : Ensures (ClickHouse.onDataCancelable block) s
      (fun goOn t => R s t ∧ (goOn = false → t.mayCancel = true)) fun _ t => R s t := by
    apply ensures_get_bind
    split
    · exact ensures_pure ⟨Std.Refl.refl s, fun no => absurd no (by decide)⟩
    · rename_i call has
      refine (ensures_zoom _ s).imp ?_ ?_
      · rintro goOn _ ⟨user, _, rfl⟩
        refine ⟨allows.reads s s.input user s.insertBlock, fun _ => ?_⟩
        show (s.eventQuery.bind Query.selectCancelableCb).isSome = true
        rw [has]
        rfl
      · rintro e _ ⟨user, _, rfl⟩
        exact allows.reads s s.input user s.insertBlock
  have cancelable : Along R (do
      unless ← ClickHouse.onDataCancelable block do sendCancel : ClientM υ ω ι ο Unit) := by
    refine along_of_ensures fun s => bind ((asked s).imp ?_ fun _ _ moved => moved)
    rintro goOn t ⟨moved, mayCancel⟩
    split
    · exact ensures_pure moved
    · rename_i no
      exact (allows.cancels t (mayCancel (Bool.eq_false_of_not_eq_true no))).imp
        (fun _ _ more => IsTrans.trans _ _ _ moved more) fun _ _ more => IsTrans.trans _ _ _ moved more
  apply along_get_bind
  intro s
  split
  · exact onData.bind fun _ => cancelable
  · exact along_pure _

theorem toReceives : ReceivesPackets fun α (p : ClientM υ ω ι ο α) => Along R p :=
  { looks_along with
    reads := allows.fromInput
    notifies := allows.notify
    delivers := allows.deliverData }

variable [Source Error ι] [Hashing] [Codec]

/-- The loop of `NextBlock` receives, and resets the state if the response has ended. -/
theorem nextBlockLoop (fuel : Nat) (s : Client υ ω ι ο) :
    Ensures (ClickHouse.nextBlockLoop fuel) s
      (fun block t => ∃ u, R s u ∧ t = if block.isSome then u else u.resetState)
      fun _ t => R s t := by
  induction fuel generalizing s with
  | zero => exact ensures_throw (Std.Refl.refl s)
  | succ fuel ih =>
    refine bind ((allows.toReceives.receivePacket.ensures s).imp ?_ fun _ _ moved => moved)
    intro received t moved
    have goesOn : Ensures (ClickHouse.nextBlockLoop fuel) t
        (fun block t => ∃ u, R s u ∧ t = if block.isSome then u else u.resetState)
        fun _ t => R s t :=
      (ih t).imp (fun _ _ ⟨u, more, ends⟩ => ⟨u, IsTrans.trans _ _ _ moved more, ends⟩)
        fun _ _ more => IsTrans.trans _ _ _ moved more
    split
    · split
      · exact goesOn
      · exact ensures_pure ⟨t, moved, rfl⟩
    · exact ensures_modify_bind (ensures_pure ⟨t, moved, rfl⟩)
    · exact ensures_modify_bind (ensures_pure ⟨t, moved, rfl⟩)
    · exact goesOn

end AllowsReceipts

section Packets

variable [Output Error ο]

theorem along_sendCancel : Along Talked (sendCancel : ClientM υ ω ι ο Unit) :=
  (along_note (some .cancel)).bind fun _ => (along_toOutput _).bind fun _ => along_toOutput _

theorem allowsReceipts_talked :
    AllowsReceipts (Talked : Client υ ω ι ο → Client υ ω ι ο → Prop) where
  reads s input user block := ⟨input, s.output, user, block, [], by
    rw [map_nil, append_nil]⟩
  cancels s _ := along_sendCancel.ensures s

variable [Hashing] [Codec]

theorem along_sendBlockData (block : Block) :
    Along Talked (sendBlockData block : ClientM υ ω ι ο Unit) := by
  refine along_get_bind fun s => ?_
  split
  · split
    · exact along_throw _
    · refine (along_ofExcept _).bind fun compressed => along_zoom fun buffered t =>
        ⟨t.input, some buffered.destination.destination, t.user, t.insertBlock, [], ?_⟩
      rw [map_nil, append_nil]
  · exact along_toOutput _

theorem talks_talked : Talks fun α (p : ClientM υ ω ι ο α) => Along Talked p :=
  { allowsReceipts_talked.toReceives with
    writes := along_toOutput
    notes := along_note
    sendsBlock := along_sendBlockData }

variable [Source Error ι]

theorem along_awaitHeader (fuel : Nat) : Along Talked (awaitHeader fuel : ClientM υ ω ι ο Bool) :=
  talks_talked.awaitHeader fuel

theorem along_awaitEnd (fuel : Nat) : Along Talked (awaitEnd fuel : ClientM υ ω ι ο Nat) :=
  talks_talked.awaitEnd fuel

omit [Source Error ι] in
theorem along_sendData (block : Block) : Along Talked (sendData block : ClientM υ ω ι ο Unit) :=
  talks_talked.sendData block

omit [Source Error ι] in
theorem along_finalizeQuery : Along Talked (finalizeQuery : ClientM υ ω ι ο Unit) :=
  talks_talked.finalizeQuery

omit [Source Error ι] in
theorem along_sendQuery (query : Query υ) (finalize : Bool) :
    Along Talked (sendQuery query finalize : ClientM υ ω ι ο Unit) :=
  talks_talked.sendQuery query finalize

omit [Source Error ι] in
theorem along_sendExternalData (tables : List ExternalTable) :
    Along Talked (sendExternalData tables : ClientM υ ω ι ο Unit) :=
  talks_talked.sendExternalData tables

theorem along_ping : Along Talked (ping : ClientM υ ω ι ο Unit) :=
  talks_talked.ping

theorem along_callingPing : Along Talked (calling ping : ClientM υ ω ι ο Unit) :=
  (along_note none).bind fun _ => along_ping

/-- The loop of `NextBlock` receives, and resets the state if the response has ended. -/
theorem nextBlockLoop_ensures (fuel : Nat) (s : Client υ ω ι ο) :
    Ensures (nextBlockLoop fuel) s
      (fun block t => ∃ u, Talked s u ∧ t = if block.isSome then u else u.resetState)
      fun _ t => Talked s t :=
  allowsReceipts_talked.nextBlockLoop fuel s

end Packets

/-! ## The session of an operation -/

/-- The relation allows to talk to the server and to note what the client is doing, so it allows
all that an operation does on its connection. -/
structure AllowsSessions (R : Client υ ω ι ο → Client υ ω ι ο → Prop) : Prop where
  talks : ∀ s t, Talked s t → R s t
  sessions : ∀ s state query events block, R s { s with
    state := state, query := query, events := events, insertBlock := block }

namespace AllowsSessions

variable {R : Client υ ω ι ο → Client υ ω ι ο → Prop} (allows : AllowsSessions R)
  [Source Error ι] [Output Error ο] [Std.Refl R] [IsTrans (Client υ ω ι ο) R] [Hashing] [Codec]

include allows

omit [Source Error ι] [Output Error ο] [Std.Refl R] [IsTrans (Client υ ω ι ο) R] [Hashing] [Codec] in
theorem resetState : Along R (modify Client.resetState : ClientM υ ω ι ο PUnit) :=
  along_modify fun s => allows.sessions s _ _ _ s.insertBlock

omit [Source Error ι] [Std.Refl R] [IsTrans (Client υ ω ι ο) R] [Hashing] [Codec] in
theorem receipts : AllowsReceipts R where
  reads s input user block := allows.talks _ _ (allowsReceipts_talked.reads s input user block)
  cancels s _ := (along_sendCancel.mono allows.talks).ensures s

omit [Source Error ι] in
theorem toSessions : Sessions fun α (p : ClientM υ ω ι ο α) => Along R p :=
  { allows.receipts.toReceives with
    writes := fun p => (along_toOutput p).mono allows.talks
    notes := fun what => (along_note what).mono allows.talks
    sendsBlock := fun block => (along_sendBlockData block).mono allows.talks
    resetsState := allows.resetState
    setsState := fun state => along_modify fun s =>
      allows.sessions s state s.query s.events s.insertBlock }

end AllowsSessions

/-! ## Connecting -/

/-- From `s` the client came to `t` by greeting the server, whose Hello was received or not. -/
def Shook (greeted : Bool) (s t : Client υ ω ι ο) : Prop :=
  ∃ input output user info hellos, t = { s with
    input := input
    output := output
    user := user
    serverInfo := info
    hellos := hellos
    history := s.history ++ if greeted then [.greeted] else [] }

/-- From `s` the client came to `t` by an attempt to connect that failed. -/
def Unconnected (s t : Client υ ω ι ο) : Prop :=
  ∃ factory, t = { s with
    socketFactory := factory
    history := s.history ++ [.attempted s.currentEndpoint] }

/-- From `s` the client came to `t` by making a connection, on which the server's Hello was
received or not. -/
def Reconnected (greeted : Bool) (s t : Client υ ω ι ο) : Prop :=
  ∃ factory input output user info hellos, t = { s with
    socketFactory := factory
    input := input
    output := output
    user := user
    serverInfo := info
    hellos := hellos
    state := .idle
    history := s.history ++ .attempted s.currentEndpoint :: .connected s.currentEndpoint ::
      if greeted then [.greeted] else [] }

/-- The client on a new connection, before it greets the server. -/
def Client.connectedBy (s : Client υ ω ι ο) (factory : ω) (input : ι) (output : ο) :
    Client υ ω ι ο :=
  { s with
    socketFactory := factory
    input := some input
    output := some output
    state := .idle
    history := s.history ++ [.attempted s.currentEndpoint, .connected s.currentEndpoint] }

theorem Streamed.shook (streamed : Streamed s t) : Shook false s t := by
  obtain ⟨input, output, user, rfl⟩ := streamed
  exact ⟨input, output, user, s.serverInfo, s.hellos, (by rw [if_neg Bool.false_ne_true, append_nil])⟩

instance : Std.Refl (Shook false : Client υ ω ι ο → Client υ ω ι ο → Prop) where
  refl s := Streamed.shook (Std.Refl.refl s)

theorem Shook.trans {u : Client υ ω ι ο} (first : Shook false s t) (second : Shook greeted t u) :
    Shook greeted s u := by
  obtain ⟨_, _, _, _, _, rfl⟩ := first
  obtain ⟨input, output, user, info, hellos, rfl⟩ := second
  exact ⟨input, output, user, info, hellos, (by rw [if_neg Bool.false_ne_true, append_nil])⟩

instance : IsTrans (Client υ ω ι ο) (Shook false) where
  trans _ _ _ := Shook.trans

theorem Shook.streamed {u : Client υ ω ι ο} (first : Shook greeted s t) (second : Streamed t u) :
    Shook greeted s u := by
  obtain ⟨_, _, _, info, hellos, rfl⟩ := first
  obtain ⟨input, output, user, rfl⟩ := second
  exact ⟨input, output, user, info, hellos, rfl⟩

theorem Shook.reconnected (shook : Shook greeted (s.connectedBy factory input output) t) :
    Reconnected greeted s t := by
  obtain ⟨input, output, user, info, hellos, rfl⟩ := shook
  refine ⟨factory, input, output, user, info, hellos, ?_⟩
  unfold Client.connectedBy
  rw [append_assoc]
  rfl

section Connecting

variable [Source Error ι] [Output Error ο]

omit [Output Error ο] in
theorem along_receiveServerInfo :
    Along (Shook false) (receiveServerInfo : ClientM υ ω ι ο Bool) := by
  refine along_get_bind fun s => ?_
  split
  · exact along_throw _
  · exact along_zoom fun learned t => ⟨some learned.2, t.output, t.user, learned.1, t.hellos, by
      rw [if_neg Bool.false_ne_true, append_nil]⟩

omit [Output Error ο] in
theorem receiveHello_ensures (s : Client υ ω ι ο) :
    Ensures receiveHello s (fun ok t => Shook ok s t) fun _ t => Shook false s t := by
  refine bind (((streamed_fromInput _).ensures s).imp (fun value t read => ?_)
    fun _ _ read => read.shook)
  split
  · exact ensures_pure read.shook
  · split
    · refine bind ((along_receiveServerInfo.ensures t).imp (fun received u informed => ?_)
        fun _ _ informed => read.shook.trans informed)
      have moved := read.shook.trans informed
      cases received with
      | false => exact ensures_pure moved
      | true =>
        obtain ⟨input, output, user, info, hellos, rfl⟩ := moved
        refine bind (ensures_modify (ensures_pure ⟨input, output, user, info, hellos, ?_⟩))
        rw [if_neg Bool.false_ne_true, append_nil, if_pos rfl]
    · split
      · refine bind ((streamed_receiveException.ensures t).imp (fun received u more => ?_)
          fun _ _ more => (read.shook.streamed more))
        split
        · exact ensures_throw (read.shook.streamed more)
        · exact ensures_throw (read.shook.streamed more)
      · exact ensures_pure read.shook

/-- The handshake returns true exactly if it received the server's Hello, unless the addendum
cannot be sent. -/
theorem handshake_ensures (s : Client υ ω ι ο) :
    Ensures handshake s (fun ok t => Shook ok s t) fun _ t => ∃ greeted, Shook greeted s t := by
  have hello : Along Streamed (sendHello : ClientM υ ω ι ο Bool) :=
    along_get_bind fun _ => (streamed_toOutput _).bind fun _ => (streamed_toOutput _).bind fun _ =>
      along_pure _
  refine bind ((hello.ensures s).imp (fun sent t streamed => ?_)
    fun _ _ streamed => ⟨false, streamed.shook⟩)
  split
  · obtain ⟨input, output, user, rfl⟩ := streamed
    have recorded : Shook false s { s with
        input := input, output := output, user := user, hellos := s.hellos ++ input.toList } :=
      ⟨input, output, user, s.serverInfo, s.hellos ++ input.toList, by
        rw [if_neg Bool.false_ne_true, append_nil]⟩
    refine ensures_modify_bind (bind ((receiveHello_ensures _).imp (fun ok u shook => ?_)
      fun _ _ shook => ⟨false, recorded.trans shook⟩))
    have moved := recorded.trans shook
    split
    · rename_i isGreeted
      rw [isGreeted] at moved
      refine ensures_get_bind ?_
      dsimp only
      split
      · exact bind (((streamed_toOutput _).ensures u).imp (fun _ _ more => ensures_pure
          (moved.streamed more)) fun _ _ more => ⟨true, moved.streamed more⟩)
      · exact ensures_pure moved
    · rename_i notGreeted
      rw [Bool.not_eq_true] at notGreeted
      rw [notGreeted] at moved
      exact ensures_pure moved
  · exact ensures_pure streamed.shook

variable [SocketFactory ω ι ο]

theorem resetConnection_of_throws {e : Error}
    (fails : Throws (SocketFactory.connect s.options s.currentEndpoint) s.socketFactory e factory) :
    Throws resetConnection s e { s with
      socketFactory := factory
      history := s.history ++ [.attempted s.currentEndpoint] } := by
  have attempt : Throws (fromFactory (SocketFactory.connect s.options s.currentEndpoint))
      { s with history := s.history ++ [.attempted s.currentEndpoint] } e { s with
        socketFactory := factory
        history := s.history ++ [.attempted s.currentEndpoint] } := Throws.zoom fails
  exact Throws.bind ((runs_get s).bind_throws ((runs_modify _ s).bind_throws (attempt.bind _))) _

omit [Source Error ι] [Output Error ο] in
theorem runs_initializeStreams
    (connects : Runs (SocketFactory.connect s.options s.currentEndpoint) s.socketFactory
      (input, output) factory) :
    Runs initializeStreams s () { s with
      socketFactory := factory
      input := some input
      output := some output
      history := s.history ++ [.attempted s.currentEndpoint] ++ [.connected s.currentEndpoint] } := by
  have attempt : Runs (fromFactory (SocketFactory.connect s.options s.currentEndpoint))
      { s with history := s.history ++ [.attempted s.currentEndpoint] } (input, output) { s with
        socketFactory := factory
        history := s.history ++ [.attempted s.currentEndpoint] } := Runs.zoom connects
  exact (runs_get s).bind ((runs_modify _ s).bind (attempt.bind
    ((runs_modify _ _).bind (runs_modify _ _))))

/-- On a new connection `ResetConnection` does what the handshake does. -/
theorem resetConnection_of_connect
    (connects : Runs (SocketFactory.connect s.options s.currentEndpoint) s.socketFactory
      (input, output) factory) :
    Ensures resetConnection s
      (fun _ t => Runs handshake (s.connectedBy factory input output) true t)
      fun e t => Throws handshake (s.connectedBy factory input output) e t ∨
        Runs handshake (s.connectedBy factory input output) false t ∧
          e = .protocolError (ascii "fail to connect to " ++ t.options.host) := by
  have streams := runs_initializeStreams connects
  refine bind (ensures_of ?_ ?_)
  · intro _ t run
    obtain ⟨⟩ := streams.symm.trans run
    refine ensures_modify_bind (bind ?_)
    rw [append_assoc]
    refine (ensures_outcome handshake (s.connectedBy factory input output)).imp ?_ ?_
    · intro ok t shook
      cases ok with
      | true => exact ensures_pure shook
      | false => exact ensures_get_bind (ensures_throw (.inr ⟨shook, rfl⟩))
    · exact fun _ _ fails => .inl fails
  · intro e t fails
    cases streams.symm.trans fails

/-- What `ResetConnection` can do. -/
theorem resetConnection_ensures (s : Client υ ω ι ο) :
    Ensures resetConnection s (fun _ t => Reconnected true s t)
      fun _ t => Unconnected s t ∨ ∃ greeted, Reconnected greeted s t := by
  cases connects : SocketFactory.connect s.options s.currentEndpoint s.socketFactory with
  | error e factory =>
    refine ensures_of ?_ ?_
    · intro _ t run
      cases (resetConnection_of_throws connects).symm.trans run
    · intro e t fails
      obtain ⟨⟩ := (resetConnection_of_throws connects).symm.trans fails
      exact .inl ⟨factory, rfl⟩
  | ok streams factory =>
    refine (resetConnection_of_connect connects).imp ?_ ?_
    · exact fun _ t shook => ((handshake_ensures _).of_runs shook).reconnected
    · rintro e t (fails | ⟨shook, _⟩)
      · obtain ⟨greeted, shook⟩ := (handshake_ensures _).of_throws fails
        exact .inr ⟨greeted, shook.reconnected⟩
      · exact .inr ⟨false, ((handshake_ensures _).of_runs shook).reconnected⟩

/-- The relation allows a pause and a reset of the connection, so it allows the first loop of
`RetryGuard`. -/
structure AllowsResets (R : Client υ ω ι ο → Client υ ω ι ο → Prop) : Prop where
  sleeps : ∀ n, Along R (fromFactory (SocketFactory.sleepFor n) : ClientM υ ω ι ο Unit)
  resets : Along R (resetConnection : ClientM υ ω ι ο Unit)

/-- The relation also allows another choice of the endpoint, so it allows all loops over resets. -/
structure AllowsRetries (R : Client υ ω ι ο → Client υ ω ι ο → Prop) : Prop
    extends AllowsResets R where
  endpoints : ∀ s endpoint, R s { s with currentEndpoint := endpoint }
  nexts : Along R (nextEndpoint : ClientM υ ω ι ο Endpoint)

omit [Source Error ι] [Output Error ο] [SocketFactory ω ι ο] in
/-- `Next` changes nothing but the position of the iterator. -/
theorem nextEndpoint_ensures (s : Client υ ω ι ο) :
    Ensures nextEndpoint s
      (fun endpoint t => t = { s with
          currentIndex := (s.currentIndex + 1) % s.options.endpoints.length } ∧
        s.options.endpoints[t.currentIndex]? = some endpoint)
      fun _ t => t = { s with
          currentIndex := (s.currentIndex + 1) % s.options.endpoints.length } ∧
        s.options.endpoints[t.currentIndex]? = none := by
  refine ensures_get_bind (ensures_set_bind ?_)
  split
  · exact ensures_pure ⟨rfl, ‹_›⟩
  · exact ensures_throw ⟨rfl, ‹_›⟩

omit [Source Error ι] [Output Error ο] [SocketFactory ω ι ο] in
theorem along_nextEndpoint {R : Client υ ω ι ο → Client υ ω ι ο → Prop}
    (indices : ∀ s index, R s { s with currentIndex := index }) :
    Along R (nextEndpoint : ClientM υ ω ι ο Endpoint) :=
  along_of_ensures fun s => (nextEndpoint_ensures s).imp
    (fun _ _ ⟨moved, _⟩ => moved ▸ indices s _) fun _ _ ⟨moved, _⟩ => moved ▸ indices s _

variable {R : Client υ ω ι ο → Client υ ω ι ο → Prop} [Std.Refl R] [IsTrans (Client υ ω ι ο) R]

theorem AllowsResets.toResets (allows : AllowsResets R) :
    Resets fun α (p : ClientM υ ω ι ο α) => Along R p :=
  { looks_along with
    sleeps := allows.sleeps
    reconnects := allows.resets }

theorem AllowsRetries.toRetries (allows : AllowsRetries R) :
    Retries fun α (p : ClientM υ ω ι ο α) => Along R p :=
  { allows.toResets with
    setsEndpoint := fun endpoint => along_modify fun s => allows.endpoints s endpoint
    nexts := allows.nexts }

theorem AllowsRetries.pingBeforeQuery [Hashing] [Codec] (allows : AllowsRetries R)
    (talks : ∀ s t, Talked s t → R s t) :
    Along R (ClickHouse.pingBeforeQuery : ClientM υ ω ι ο Unit) := by
  refine along_get_bind fun s => ?_
  split
  · exact allows.toRetries.retryGuard (along_callingPing.mono talks)
  · exact along_pure _

/-- The relation allows all that an operation does. -/
structure AllowsOperations (R : Client υ ω ι ο → Client υ ω ι ο → Prop) : Prop
    extends AllowsRetries R, AllowsSessions R

theorem AllowsOperations.toOperates [Hashing] [Codec] (allows : AllowsOperations R) :
    Operates fun α (p : ClientM υ ω ι ο α) => Along R p :=
  { allows.toRetries, allows.toSessions with
    selects := fun _ => along_modify fun s => allows.sessions s _ _ _ s.insertBlock
    setsEvents := fun events _ => along_modify fun s =>
      allows.sessions s s.state s.query events s.insertBlock
    inserts := fun _ => along_modify fun s => allows.sessions s _ s.query _ _ }

/-! ## Runs -/

/-- An operation with the rounds its loops may take, whether it returns or throws. -/
def takeStep [Hashing] [Codec] (s : Client υ ω ι ο) (op : Nat × Client.Operation υ) : Client υ ω ι ο :=
  after (perform op.1 op.2) s

/-- A client that was created is the one its constructor has left. -/
theorem Client.create_ok {opts : ClientOptions} {user : υ} {client : Client υ ω ι ο}
    (created : Client.create opts factory user = .ok client) :
    ∃ first rest, (modifyClientOptions opts).endpoints = first :: rest ∧
      Runs construct (Client.initial opts factory user first) () client := by
  unfold Client.create at created
  split at created
  · cases created
  · rename_i first rest endpoints
    refine ⟨first, rest, endpoints, ?_⟩
    split at created
    · cases created
      assumption
    · cases created

end Connecting

end ClickHouse
