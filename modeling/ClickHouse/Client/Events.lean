import ClickHouse.Client.Failover
import ClickHouse.Kit.Runs

/-!
# The events of the query in progress

Between two operations `events_` is set exactly while a query is in progress,
unless the connection was reset during one: `ResetConnection` makes the client
idle and leaves the events as they are.
-/

namespace ClickHouse

open Kit Ensures

variable {υ ω ι ο : Type}

/-- `events_` is not null exactly while the client is selecting. -/
def EventsMatch (s : Client υ ω ι ο) : Prop := s.events.isSome = true ↔ s.state = .selecting

instance (s : Client υ ω ι ο) : Decidable (EventsMatch s) :=
  inferInstanceAs (Decidable (_ ↔ _))

/-- What holds before is still true afterwards. -/
def KeepsEvents (s t : Client υ ω ι ο) : Prop := EventsMatch s → EventsMatch t

instance : Std.Refl (KeepsEvents : Client υ ω ι ο → Client υ ω ι ο → Prop) := ⟨fun _ => id⟩

instance : IsTrans (Client υ ω ι ο) KeepsEvents := ⟨fun _ _ _ first second => second ∘ first⟩

/-- A client that is not selecting stays so, with the same events. -/
def StaysOut (s t : Client υ ω ι ο) : Prop :=
  s.state ≠ .selecting → t.state ≠ .selecting ∧ t.events = s.events

instance : Std.Refl (StaysOut : Client υ ω ι ο → Client υ ω ι ο → Prop) :=
  ⟨fun _ outside => ⟨outside, rfl⟩⟩

instance : IsTrans (Client υ ω ι ο) StaysOut where
  trans s t u first second outside := by
    obtain ⟨outside, same⟩ := first outside
    obtain ⟨outside, same'⟩ := second outside
    exact ⟨outside, same'.trans same⟩

variable {s : Client υ ω ι ο}

theorem Talked.keepsEvents {t : Client υ ω ι ο} (talked : Talked s t) : KeepsEvents s t := by
  obtain ⟨_, _, _, _, _, rfl⟩ := talked
  exact id

theorem Talked.staysOut {t : Client υ ω ι ο} (talked : Talked s t) : StaysOut s t := by
  obtain ⟨_, _, _, _, _, rfl⟩ := talked
  exact fun outside => ⟨outside, rfl⟩

theorem eventsMatch_resetState (s : Client υ ω ι ο) : EventsMatch s.resetState := by
  constructor
  · intro set
    cases set
  · intro selecting
    cases selecting

/-- Outside of a query the events are null. -/
theorem EventsMatch.of_outside (outside : s.state ≠ .selecting) (null : s.events = none) :
    EventsMatch s := by
  constructor
  · intro set
    rw [null] at set
    cases set
  · intro selecting
    exact absurd selecting outside

theorem EventsMatch.null (matching : EventsMatch s) (outside : s.state ≠ .selecting) :
    s.events = none := by
  rw [← Option.not_isSome_iff_eq_none]
  exact fun set => outside (matching.mp set)

section Parts

variable [Source Error ι] [Output Error ο] [SocketFactory ω ι ο]

theorem staysOut_resetConnection : Along StaysOut (resetConnection : ClientM υ ω ι ο Unit) := by
  refine along_of_ensures fun s => (resetConnection_ensures s).imp ?_ ?_
  · rintro _ _ ⟨_, _, _, _, _, _, rfl⟩ _
    exact ⟨nofun, rfl⟩
  · rintro _ _ (⟨_, rfl⟩ | ⟨_, _, _, _, _, _, _, rfl⟩) outside
    · exact ⟨outside, rfl⟩
    · exact ⟨nofun, rfl⟩

theorem allowsRetries_staysOut : AllowsRetries (StaysOut : Client υ ω ι ο → Client υ ω ι ο → Prop) where
  sleeps _ := along_zoom fun _ _ outside => ⟨outside, rfl⟩
  endpoints _ _ outside := ⟨outside, rfl⟩
  nexts := along_nextEndpoint fun _ _ outside => ⟨outside, rfl⟩
  resets := staysOut_resetConnection

variable [Hashing] [Codec]

theorem staysOut_pingBeforeQuery : Along StaysOut (pingBeforeQuery : ClientM υ ω ι ο Unit) :=
  allowsRetries_staysOut.pingBeforeQuery fun _ _ => Talked.staysOut

theorem keepsEvents_beginExecuteQuery (query : Query υ) (finalize : Bool) :
    Along KeepsEvents (beginExecuteQuery query finalize : ClientM υ ω ι ο Unit) := by
  refine along_of_ensures fun s => bind ((expectState_ensures _ _ s).imp ?_ ?_)
  · rintro _ _ ⟨rfl, idle⟩
    have outside : s.state ≠ .selecting := idle ▸ nofun
    refine bind ((staysOut_pingBeforeQuery.ensures s).imp ?_ ?_)
    · intro _ t _
      refine ensures_modify_bind (onThrow_modify (((along_sendQuery query finalize).ensures
        _).imp ?_ ?_))
      · rintro _ _ ⟨_, _, _, _, _, rfl⟩ _
        exact ⟨fun _ => rfl, fun _ => rfl⟩
      · exact fun _ u _ _ => eventsMatch_resetState u
    · intro _ t pinged matching
      obtain ⟨outside', same⟩ := pinged outside
      exact .of_outside outside' (same.trans (matching.null outside))
  · rintro _ _ rfl matching
    exact matching

omit [SocketFactory ω ι ο] in
theorem keepsEvents_nextBlock (fuel : Nat) :
    Along KeepsEvents (nextBlock fuel : ClientM υ ω ι ο (Option Block)) := by
  refine along_of_ensures fun s => bind ((expectState_ensures _ _ s).imp ?_ ?_)
  · rintro _ _ ⟨rfl, _⟩
    refine onThrow_modify ((nextBlockLoop_ensures fuel s).imp ?_ ?_)
    · rintro block _ ⟨u, talked, rfl⟩
      split
      · exact talked.keepsEvents
      · exact fun _ => eventsMatch_resetState u
    · exact fun _ t _ _ => eventsMatch_resetState t
  · rintro _ _ rfl
    exact id

omit [SocketFactory ω ι ο] in
theorem keepsEvents_drain (fuel : Nat) :
    Along KeepsEvents (drain fuel : ClientM υ ω ι ο (List Block)) := by
  have loop (rounds : Nat) :
      Along KeepsEvents (drainLoop fuel rounds : ClientM υ ω ι ο (List Block)) := by
    induction rounds with
    | zero => exact along_throw _
    | succ rounds ih =>
      refine (keepsEvents_nextBlock fuel).bind fun block => ?_
      split
      · exact along_pure _
      · exact ih.bind fun _ => along_pure _
  exact loop fuel

omit [SocketFactory ω ι ο] in
theorem keepsEvents_endInsert (fuel : Nat) :
    Along KeepsEvents (endInsert fuel : ClientM υ ω ι ο Unit) := by
  refine along_of_ensures fun s => ensures_get_bind ?_
  split
  · rename_i inserting
    have outside : s.state ≠ .selecting := inserting ▸ nofun
    refine bind (((along_sendData _).ensures s).imp (fun _ t sent => ?_)
      fun _ _ talked => talked.keepsEvents)
    refine bind (((along_awaitEnd fuel).ensures t).imp (fun eosPacket u received => ?_)
      fun _ _ more => (IsTrans.trans _ _ _ sent more : Talked s _).keepsEvents)
    have talked : Talked s u := IsTrans.trans _ _ _ sent received
    refine ensures_get_bind ?_
    dsimp only
    split
    · exact bind (ensures_throw talked.keepsEvents)
    · refine ensures_modify fun matching => ?_
      exact .of_outside nofun ((talked.staysOut outside).2.trans (matching.null outside))
  · exact ensures_pure id

/-- What is done while `EnsureNull` is in scope ends outside of a query. -/
theorem keepsEvents_beginInsert (fuel : Nat) (query : Query υ) :
    Along KeepsEvents (beginInsert fuel query : ClientM υ ω ι ο Block) := by
  -- Without the events, all that matters of the body is that it never selects.
  let Outside (s t : Client υ ω ι ο) : Prop := s.state ≠ .selecting → t.state ≠ .selecting
  have : Std.Refl Outside := ⟨fun _ => id⟩
  have : IsTrans (Client υ ω ι ο) Outside := ⟨fun _ _ _ first second => second ∘ first⟩
  have talks {α : Type} {p : ClientM υ ω ι ο α} (along : Along Talked p) : Along Outside p :=
    along.mono fun _ _ talked outside => (talked.staysOut outside).1
  have body : Along Outside (beginInsertBody fuel query : ClientM υ ω ι ο Block) := by
    refine (staysOut_pingBeforeQuery.mono fun _ _ stays outside => (stays outside).1).bind fun _ =>
      (along_modify fun _ _ => nofun).bind fun _ => (talks (along_sendQuery query true)).bind
      fun _ => (talks (along_awaitHeader fuel)).bind fun header => ?_
    split
    · exact along_get_bind fun _ => along_pure _
    · exact along_throw _
  refine along_of_ensures fun s => bind ((expectState_ensures _ _ s).imp ?_ ?_)
  · rintro _ _ ⟨rfl, idle⟩
    have outside : s.state ≠ .selecting := idle ▸ nofun
    dsimp only
    split
    · exact bind (ensures_throw id)
    · refine ensures_modify_bind (bind (onThrow_modify ((body.ensures _).imp ?_ ?_)))
      · exact fun _ t out => ensures_modify_bind (ensures_pure fun _ =>
          .of_outside (out outside) rfl)
      · exact fun _ t out _ => .of_outside (out outside) rfl
  · rintro _ _ rfl
    exact id

theorem keepsEvents_insert (fuel : Nat) (tableName queryId : Bytes) (block : Block) :
    Along KeepsEvents (insert fuel tableName queryId block : ClientM υ ω ι ο Unit) := by
  have talks {α : Type} {p : ClientM υ ω ι ο α} (along : Along Talked p) : Along KeepsEvents p :=
    along.mono fun _ _ => Talked.keepsEvents
  refine along_of_ensures fun s => ensures_get_bind ?_
  dsimp only
  split
  · exact bind (ensures_throw id)
  · refine bind ((expectState_ensures _ _ s).imp ?_ ?_)
    · rintro _ _ ⟨rfl, idle⟩
      have outside : s.state ≠ .selecting := idle ▸ nofun
      refine bind ((staysOut_pingBeforeQuery.ensures s).imp ?_ ?_)
      · intro _ t pinged
        refine ensures_modify_bind ?_
        have rest : Along KeepsEvents (do
            sendQuery { Query.empty with text := insertText tableName block, queryId := queryId } true
            if ← awaitHeader fuel then do
              sendData block
              endInsert fuel
            else throw (.protocolError (ascii "fail to receive data packet")) :
            ClientM υ ω ι ο Unit) := by
          refine (talks (along_sendQuery _ _)).bind fun _ =>
            (talks (along_awaitHeader fuel)).bind fun header => ?_
          split
          · exact (talks (along_sendData block)).bind fun _ => keepsEvents_endInsert fuel
          · exact along_throw _
        have started (matching : EventsMatch s) : EventsMatch { t with state := .inserting } :=
          .of_outside nofun ((pinged outside).2.trans (matching.null outside))
        exact (rest.ensures _).imp (fun _ _ keeps matching => keeps (started matching))
          fun _ _ keeps matching => keeps (started matching)
      · intro _ t pinged matching
        obtain ⟨outside', same⟩ := pinged outside
        exact .of_outside outside' (same.trans (matching.null outside))
    · rintro _ _ rfl
      exact id

theorem keepsEvents_selectWithExternalData (fuel : Nat) (query : Query υ)
    (tables : List ExternalTable) :
    Along KeepsEvents (selectWithExternalData fuel query tables : ClientM υ ω ι ο (List Block)) := by
  have sends : Along KeepsEvents (onThrow (do sendExternalData tables; finalizeQuery)
      (modify Client.resetState) : ClientM υ ω ι ο Unit) := by
    have talks : Along Talked (do sendExternalData tables; finalizeQuery : ClientM υ ω ι ο Unit) :=
      (along_sendExternalData tables).bind fun _ => along_finalizeQuery
    exact along_of_ensures fun s => onThrow_modify ((talks.ensures s).imp
      (fun _ _ talked => talked.keepsEvents) fun _ t _ _ => eventsMatch_resetState t)
  refine along_get_bind fun s => ?_
  dsimp only
  split
  · exact along_throw_bind _ _
  · exact (keepsEvents_beginExecuteQuery query false).bind fun _ => sends.bind fun _ =>
      keepsEvents_drain fuel

theorem keepsEvents_perform (fuel : Nat) {op : Client.Operation υ} (noReset : op.resets = false) :
    Along KeepsEvents (perform fuel op : ClientM υ ω ι ο (List Block)) := by
  have talks {α : Type} {p : ClientM υ ω ι ο α} (along : Along Talked p) : Along KeepsEvents p :=
    along.mono fun _ _ => Talked.keepsEvents
  cases op with
  | execute query =>
    exact (keepsEvents_beginExecuteQuery query true).bind fun _ => keepsEvents_drain fuel
  | selectWithExternalData query tables => exact keepsEvents_selectWithExternalData fuel query tables
  | beginSelect query => exact (keepsEvents_beginExecuteQuery query true).bind fun _ => along_pure _
  | nextBlock => exact (keepsEvents_nextBlock fuel).bind fun _ => along_pure _
  | cancel =>
    exact (along_expectState _ _).bind fun _ => (talks along_sendCancel).bind fun _ => keepsEvents_drain fuel
  | insert tableName queryId block =>
    exact (keepsEvents_insert fuel tableName queryId block).bind fun _ => along_pure _
  | beginInsert query => exact (keepsEvents_beginInsert fuel query).bind fun _ => along_pure _
  | sendInsertBlock block =>
    exact ((along_expectState _ _).bind fun _ => talks (along_sendData block)).bind fun _ => along_pure _
  | endInsert => exact (keepsEvents_endInsert fuel).bind fun _ => along_pure _
  | ping => exact (talks along_ping).bind fun _ => along_pure _
  | resetConnection => cases noReset
  | resetConnectionEndpoint => cases noReset

/-- The events are as they were. -/
def LeavesEvents (s t : Client υ ω ι ο) : Prop := t.events = s.events

instance : Std.Refl (LeavesEvents : Client υ ω ι ο → Client υ ω ι ο → Prop) := ⟨fun _ => rfl⟩

instance : IsTrans (Client υ ω ι ο) LeavesEvents := ⟨fun _ _ _ first second => second.trans first⟩

/-- A reset of the connection leaves the events. -/
theorem leavesEvents_perform (fuel : Nat) {op : Client.Operation υ} (resets : op.resets = true) :
    Along LeavesEvents (perform fuel op : ClientM υ ω ι ο (List Block)) := by
  have reset : Along LeavesEvents (resetConnection : ClientM υ ω ι ο Unit) := by
    apply along_of_ensures
    intro s
    refine (resetConnection_ensures s).imp ?_ ?_
    · intro _ t reconnected
      rcases reconnected with ⟨_, _, _, _, _, _, rfl⟩
      exact rfl
    · intro _ t thrown
      rcases thrown with ⟨_, rfl⟩ | ⟨_, _, _, _, _, _, _, rfl⟩
      · exact rfl
      · exact rfl
  cases op with
  | resetConnection => exact reset.bind_pure _
  | resetConnectionEndpoint =>
    have allows : AllowsRetries (LeavesEvents : Client υ ω ι ο → Client υ ω ι ο → Prop) :=
      ⟨⟨fun _ => along_zoom fun _ _ => rfl, reset⟩, fun _ _ => rfl, along_nextEndpoint fun _ _ => rfl⟩
    exact allows.toRetries.resetConnectionEndpoint.bind_pure _
  | _ => cases resets

/-- The operation makes a new connection during a query. -/
def DropsQuery (s : Client υ ω ι ο) (op : Nat × Client.Operation υ) : Prop :=
  s.state = .selecting ∧ op.2.reconnects s = true

theorem eventsMatch_takeStep_iff (s : Client υ ω ι ο) (op : Nat × Client.Operation υ)
    (matching : EventsMatch s) : EventsMatch (takeStep s op) ↔ ¬ DropsQuery s op := by
  cases resets : op.2.resets with
  | false =>
    constructor
    · intro _ dropped
      have := op.2.resets_of_reconnects dropped.2
      rw [resets] at this
      cases this
    · exact fun _ => keepsEvents_perform op.1 resets s matching
  | true =>
    have events : (takeStep s op).events = s.events := leavesEvents_perform op.1 resets s
    have state : (takeStep s op).state = if op.2.reconnects s then .idle else s.state :=
      state_perform_resets op.1 resets s
    by_cases selecting : s.state = .selecting
    · have set : (takeStep s op).events.isSome = true := by
        rw [events]
        exact matching.mpr selecting
      constructor
      · intro matching' dropped
        rw [matching'.mp set, if_pos dropped.2] at state
        cases state
      · intro kept
        rw [if_neg fun reconnects => kept ⟨selecting, reconnects⟩] at state
        exact ⟨fun _ => state.trans selecting, fun _ => set⟩
    · have outside : (takeStep s op).state ≠ .selecting := by
        rw [state]
        split
        · nofun
        · exact selecting
      constructor
      · exact fun _ dropped => selecting dropped.1
      · exact fun _ => .of_outside outside (events.trans (matching.null selecting))

omit [Hashing] [Codec] in
theorem eventsMatch_create {opts : ClientOptions} {factory : ω} {user : υ} {client : Client υ ω ι ο}
    (created : Client.create opts factory user = .ok client) : EventsMatch client := by
  obtain ⟨first, _, _, run⟩ := Client.create_ok created
  obtain ⟨_, s, connects, finishes⟩ := runs_bind_iff.mp run
  obtain ⟨outside, null⟩ := allowsRetries_staysOut.toRetries.createConnection.of_runs connects nofun
  cases finishes
  exact .of_outside outside null

/-- Over every run of a client, whether its operations return or throw, the events are set exactly
while a query is in progress, if and only if no connection is made by a reset during a query. -/
theorem eventsMatch_always_iff {opts : ClientOptions} {factory : ω} {user : υ}
    {client : Client υ ω ι ο} (created : Client.create opts factory user = .ok client)
    (ops : List (Nat × Client.Operation υ)) :
    Always takeStep EventsMatch client ops ↔
      EachStep takeStep (fun s op => ¬ DropsQuery s op) client ops :=
  always_iff_eachStep eventsMatch_takeStep_iff (eventsMatch_create created) ops

end Parts

/-- A select that has begun and received a packet. -/
theorem eventsMatch_always_select :
    letI := lengthHashing
    letI : Codec := storingCodec
    ∃ client : Client Unit Script ScriptedInput (BufferedOutput Sink),
      Client.create sampleOptions ⟨[closedAfter (oldHello 51554 ++ [5])]⟩ () = .ok client ∧
      Always takeStep EventsMatch client [(2, .beginSelect sampleQuery), (2, .nextBlock)] := by
  let _ := lengthHashing
  let _ : Codec := storingCodec
  refine exists_created (fun _ => True) (by decide +kernel) fun client created _ => ?_
  refine (eventsMatch_always_iff created _).mpr ⟨?_, ?_, trivial⟩
  · intro dropped
    cases dropped.2
  · intro dropped
    cases dropped.2

/-- A select, and a reset that connects again: idle, with the events of the select. -/
theorem not_eventsMatch_resetConnection :
    letI := lengthHashing
    letI : Codec := storingCodec
    ∃ client : Client Unit Script ScriptedInput (BufferedOutput Sink),
      Client.create sampleOptions
        ⟨[closedAfter (oldHello 51554), closedAfter (oldHello 51554)]⟩ () = .ok client ∧
      ¬ Always takeStep EventsMatch client
        [(1, .beginSelect sampleQuery), (1, .resetConnection)] := by
  let _ := lengthHashing
  let _ : Codec := storingCodec
  refine exists_created (fun client => ¬ EventsMatch (takeStep (takeStep client
    (1, .beginSelect sampleQuery)) (1, .resetConnection))) (by decide +kernel) ?_
  rintro client - unmatched ⟨_, _, matching⟩
  exact unmatched matching

end ClickHouse
