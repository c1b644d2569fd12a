import ClickHouse.Client.Synchrony

/-!
# Whole runs in step with the server

The server answers the requests of a client in their order.  Whatever operations
a client performs, as long as they return and the connection stays the same, it
has read the answers to all its requests whenever it is idle, and nothing else;
and the blocks that `NextBlock` returned are those of the answers that have
columns.
-/

namespace ClickHouse

open Kit List

/-! ## Requests and answers -/

/-- What the server is asked. -/
inductive Request
  | ping
  | query
  | insert

/-- A request that opens an operation, maybe after a ping. -/
def opening (pings : Bool) (request : Request) : List Request :=
  if pings then [.ping, request] else [request]

/-- The requests of an operation that returns. -/
def Client.Operation.requests {υ : Type} (pings : Bool) : Client.Operation υ → List Request
  | .execute _ => opening pings .query
  | .selectWithExternalData _ _ => opening pings .query
  | .beginSelect _ => opening pings .query
  | .insert _ _ _ => opening pings .insert
  | .beginInsert _ => opening pings .insert
  | .ping => [.ping]
  | _ => []

section Answers

variable [Hashing] [Codec] {format : Format}

/-- The bytes answer the request, with the blocks that `NextBlock` is to return.  The Data packets
of an insert, the first of which is its header, are not for `NextBlock`. -/
inductive Request.Answer (format : Format) : Request → List Block → Bytes → Prop
  | ping : Answer format .ping [] (writeUInt64 ServerCode.pong.code)
  | query {packets ending bytes} : IsResponse format packets ending bytes →
    Answer format .query (shownBlocks packets) bytes
  | insert {packets ending bytes} : IsResponse format packets ending bytes →
    Answer format .insert [] bytes

/-- The bytes answer the requests in their order. -/
inductive AnswerAll (format : Format) : List Request → List Block → Bytes → Prop
  | none : AnswerAll format [] [] []
  | answer {request requests blocks more now later} : request.Answer format blocks now →
    AnswerAll format requests more later →
    AnswerAll format (request :: requests) (blocks ++ more) (now ++ later)

theorem AnswerAll.of_append {requests others : List Request} {blocks : List Block} {bytes : Bytes}
    (all : AnswerAll format (requests ++ others) blocks bytes) :
    ∃ first second now later, blocks = first ++ second ∧ bytes = now ++ later ∧
      AnswerAll format requests first now ∧ AnswerAll format others second later := by
  induction requests generalizing blocks bytes with
  | nil => exact ⟨[], blocks, [], bytes, rfl, rfl, .none, all⟩
  | cons request requests ih =>
    cases all with
    | @answer _ _ own _ start _ answer rest =>
      obtain ⟨first, second, now, later, rfl, rfl, before, after⟩ := ih rest
      exact ⟨own ++ first, second, start ++ now, later, (append_assoc ..).symm,
        (append_assoc ..).symm, .answer answer before, after⟩

theorem AnswerAll.of_nil {blocks : List Block} {bytes : Bytes}
    (all : AnswerAll format [] blocks bytes) : blocks = [] ∧ bytes = [] := by
  cases all with
  | none => exact ⟨rfl, rfl⟩

theorem AnswerAll.of_single {request : Request} {blocks : List Block} {bytes : Bytes}
    (all : AnswerAll format [request] blocks bytes) : request.Answer format blocks bytes := by
  cases all with
  | answer answer rest =>
    cases rest
    rw [append_nil, append_nil]
    exact answer

/-- The Pong that comes before the answer if there is a ping before the query. -/
def pongFirst (pings : Bool) : Bytes :=
  if pings then writeUInt64 ServerCode.pong.code else []

theorem AnswerAll.of_opening {pings : Bool} {request : Request} {blocks : List Block}
    {bytes : Bytes} (all : AnswerAll format (opening pings request) blocks bytes) :
    ∃ now, bytes = pongFirst pings ++ now ∧ request.Answer format blocks now := by
  cases pings with
  | false => exact ⟨bytes, rfl, all.of_single⟩
  | true =>
    cases all with
    | answer first rest =>
      cases first
      exact ⟨_, rfl, rest.of_single⟩

end Answers

section InStep

variable {υ ω ι ο : Type} [Hashing] [Codec] {s t : Client υ ω ι ο} {awaited : List Block}
  {now : Bytes}

/-! ## What the client awaits -/

/-- What is still to come on the connection of the answer that the client is reading, with the
blocks that `NextBlock` is to return of it. -/
inductive Client.Awaits (s : Client υ ω ι ο) : List Block → Bytes → Prop
  | nothing : s.state = .idle → s.Awaits [] []
  | blocks {packets ending bytes} : s.state = .selecting →
    IsResponse s.format packets ending bytes → s.Awaits (shownBlocks packets) bytes
  | ending {packets ending bytes} : s.state = .inserting →
    IsResponse s.format packets ending bytes → s.Awaits [] bytes

theorem Client.Awaits.of_eq (awaits : s.Awaits awaited now) (state : t.state = s.state)
    (format : t.format = s.format) : t.Awaits awaited now := by
  cases awaits with
  | nothing idle => exact .nothing (state.trans idle)
  | blocks selecting isResponse => exact .blocks (state.trans selecting) (format ▸ isResponse)
  | ending inserting isResponse => exact .ending (state.trans inserting) (format ▸ isResponse)

theorem Client.Awaits.of_talked (awaits : s.Awaits awaited now) (talked : Talked s t) :
    t.Awaits awaited now :=
  awaits.of_eq talked.state_eq talked.format_eq

theorem Client.Awaits.of_idle (awaits : s.Awaits awaited now) (idle : s.state = .idle) :
    awaited = [] ∧ now = [] := by
  cases awaits with
  | nothing => exact ⟨rfl, rfl⟩
  | blocks selecting => cases idle.symm.trans selecting
  | ending inserting => cases idle.symm.trans inserting

theorem Client.Awaits.of_selecting (awaits : s.Awaits awaited now)
    (selecting : s.state = .selecting) :
    ∃ packets ending, awaited = shownBlocks packets ∧ IsResponse s.format packets ending now := by
  cases awaits with
  | nothing idle => cases selecting.symm.trans idle
  | blocks _ isResponse => exact ⟨_, _, rfl, isResponse⟩
  | ending inserting => cases selecting.symm.trans inserting

theorem Client.Awaits.of_inserting (awaits : s.Awaits awaited now)
    (inserting : s.state = .inserting) :
    ∃ packets ending, awaited = [] ∧ IsResponse s.format packets ending now := by
  cases awaits with
  | nothing idle => cases inserting.symm.trans idle
  | blocks selecting => cases inserting.symm.trans selecting
  | ending _ isResponse => exact ⟨_, _, rfl, isResponse⟩

variable [DivisibleSource Error ι] {last : ι} {rest : Bytes} {due returned : List Block}

/-- From `s` the client came to `t` on the same connection.  Of the blocks that were due the first
ones were returned, the others it still awaits. -/
def InStep (last : ι) (rest : Bytes) (s : Client υ ω ι ο) (due returned : List Block)
    (t : Client υ ω ι ο) : Prop :=
  SameConnection s t ∧ ∃ awaited now, due = returned ++ awaited ∧ t.Awaits awaited now ∧
    t.Fed last (now ++ rest)

/-- Everything was read. -/
theorem InStep.of_idle (same : SameConnection s t) (idle : t.state = .idle)
    (fed : t.Fed last rest) : InStep last rest s due due t :=
  ⟨same, [], [], (append_nil due).symm, .nothing idle, fed⟩

/-- Nothing was returned. -/
theorem InStep.of_awaits (same : SameConnection s t) (awaits : t.Awaits awaited now)
    (fed : t.Fed last (now ++ rest)) : InStep last rest s awaited [] t :=
  ⟨same, awaited, now, rfl, awaits, fed⟩

theorem InStep.after {u : Client υ ω ι ο} (step : InStep last rest u due returned t)
    (same : SameConnection s u) : InStep last rest s due returned t := by
  obtain ⟨same', rest⟩ := step
  exact ⟨same.trans same', rest⟩

variable [Output Error ο] {fuel : Nat}

/-! ## Reading on -/

theorem nextBlock_inStep {result : Option Block} (awaits : s.Awaits awaited now)
    (reports : dbmsMinRevisionWithTotalRowsInProgress ≤ s.format.revision)
    (fed : s.Fed last (now ++ rest)) (run : Runs (nextBlock fuel) s result t) :
    InStep last rest s awaited result.toList t := by
  have same := ((allowsSessions_worked.toSessions.nextBlock fuel).of_runs run).sameConnection
  obtain ⟨selecting, _⟩ := of_runs_expectState run
  obtain ⟨packets, ending, rfl, isResponse⟩ := awaits.of_selecting selecting
  rcases nextBlock_fed isResponse reports fed run with
    ⟨rfl, nothing, fed, idle⟩ | ⟨block, later, bytes, rfl, shown, others, fed⟩
  · rw [nothing]
    exact .of_idle same idle fed
  · have state := (talked_of_nextBlock run).state_eq.trans selecting
    exact ⟨same, shownBlocks later, bytes, shown, .blocks state others, fed⟩

theorem drain_inStep (awaits : s.Awaits awaited now) (selecting : s.state = .selecting)
    (reports : dbmsMinRevisionWithTotalRowsInProgress ≤ s.format.revision)
    (fed : s.Fed last (now ++ rest)) (run : Runs (drain fuel) s returned t) :
    InStep last rest s awaited returned t := by
  obtain ⟨packets, ending, rfl, isResponse⟩ := awaits.of_selecting selecting
  have same := ((allowsSessions_worked.toSessions.drain fuel).of_runs run).sameConnection
  obtain ⟨rfl, fed, idle⟩ := drain_fed isResponse reports fed run
  exact .of_idle same idle fed

theorem cancel_inStep (awaits : s.Awaits awaited now)
    (reports : dbmsMinRevisionWithTotalRowsInProgress ≤ s.format.revision)
    (fed : s.Fed last (now ++ rest)) (run : Runs (cancel fuel) s returned t) :
    InStep last rest s awaited returned t := by
  obtain ⟨selecting, run⟩ := of_runs_expectState run
  obtain ⟨_, u, sent, run⟩ := runs_bind_iff.mp run
  have talked := along_sendCancel.of_runs sent
  have fed := fed.of_keepsInput (sends_keepsInput.sendCancel.of_runs sent)
  exact (drain_inStep (awaits.of_talked talked) (talked.state_eq.trans selecting)
    (talked.format_eq ▸ reports) fed run).after talked.worked.sameConnection

theorem sendInsertBlock_inStep {block : Block} (awaits : s.Awaits awaited now)
    (fed : s.Fed last (now ++ rest)) (run : Runs (sendInsertBlock block) s () t) :
    InStep last rest s awaited [] t := by
  obtain ⟨_, sent⟩ := of_runs_expectState run
  have talked := (along_sendData block).of_runs sent
  exact .of_awaits talked.worked.sameConnection (awaits.of_talked talked)
    (fed.of_keepsInput ((sends_keepsInput.sendData block).of_runs sent))

/-- Without an insert there is nothing to end. -/
theorem endInsert_inStep (awaits : s.Awaits awaited now)
    (reports : dbmsMinRevisionWithTotalRowsInProgress ≤ s.format.revision)
    (fed : s.Fed last (now ++ rest)) (run : Runs (endInsert fuel) s () t) :
    InStep last rest s awaited [] t := by
  have same := ((allowsSessions_worked.toSessions.endInsert fuel).of_runs run).sameConnection
  by_cases inserting : s.state = .inserting
  · obtain ⟨packets, ending, rfl, isResponse⟩ := awaits.of_inserting inserting
    obtain ⟨fed, idle⟩ := endInsert_fed inserting isResponse reports fed run
    exact .of_idle same idle fed
  · obtain ⟨_, _, ⟨⟩, run⟩ := runs_bind_iff.mp run
    rw [if_neg inserting] at run
    obtain ⟨_, rfl⟩ := runs_pure_iff.mp run
    exact .of_awaits same awaits fed

theorem ping_inStep {blocks : List Block} {answers : Bytes} (awaits : s.Awaits awaited now)
    (answered : AnswerAll s.format [.ping] blocks answers)
    (fed : s.Fed last (now ++ (answers ++ rest))) (run : Runs ping s () t) : InStep last rest s (awaited ++ blocks) [] t := by
  obtain ⟨idle, _⟩ := of_runs_expectState run
  obtain ⟨rfl, rfl⟩ := awaits.of_idle idle
  cases answered.of_single
  have talked := along_ping.of_runs run
  exact .of_idle talked.worked.sameConnection (talked.state_eq.trans idle)
    ((ping_ensures_fed fed).of_runs run)

variable [SocketFactory ω ι ο] {blocks : List Block} {answers : Bytes}

/-! ## Requests -/

/-- On the same connection the ping before a query reads one Pong, however often it is sent. -/
theorem pingBeforeQuery_fed (fed : s.Fed last (pongFirst s.options.pingBeforeQuery ++ rest))
    (run : Runs pingBeforeQuery s () t) (still : t.connects ≤ s.connects) :
    t.Fed last rest ∧ SameConnection s t := by
  obtain ⟨_, _, ⟨⟩, run⟩ := runs_bind_iff.mp run
  split at run
  · rename_i pings
    rw [pings] at fed
    have calls (u : Client υ ω ι ο) (stays : Stays s u) :
        Ensures ping u (fun _ _ => True) fun e v => e.isSystemError = true → Stays s v := by
      rcases stays with more | ⟨same, keeps⟩
      · refine (along_ping.ensures u).imp (fun _ _ _ => trivial) ?_
        intro e v talked _
        exact .inl (talked.worked.sameConnection.connects ▸ more)
      · refine ((ping_ensures_fed (fed.of_keepsInput keeps)).and (along_ping.ensures u)).imp
          (fun _ _ _ => trivial) ?_
        intro e v thrown _
        exact .inr ⟨same.trans thrown.2.worked.sameConnection, IsTrans.trans _ _ _ keeps thrown.1⟩
    have notes (u : Client υ ω ι ο) (stays : Stays s u) :
        Stays s { u with history := u.history ++ [.called] } :=
      IsTrans.trans _ _ _ stays (.inr ⟨⟨by simp [Client.connects, Event.connects], rfl, rfl⟩, rfl⟩)
    obtain ⟨u, stays, pinged⟩ := (retryGuard_calls calls allowsRetries_stays notes).of_runs run
    have same := (along_ping.of_runs pinged).worked.sameConnection
    rcases stays with more | ⟨same', keeps⟩
    · rw [same.connects] at still
      omega
    · exact ⟨(ping_ensures_fed (fed.of_keepsInput keeps)).of_runs pinged, same'.trans same⟩
  · rename_i silent
    rw [Bool.not_eq_true] at silent
    rw [silent] at fed
    obtain ⟨_, rfl⟩ := runs_pure_iff.mp run
    exact ⟨fed, ⟨rfl, rfl, rfl⟩⟩

variable {query : Query υ}

/-- Once the query is sent, the client awaits its blocks. -/
theorem beginExecuteQuery_awaits {finalize : Bool} (awaits : s.Awaits awaited now)
    (answered : AnswerAll s.format (opening s.options.pingBeforeQuery .query) blocks answers)
    (fed : s.Fed last (now ++ (answers ++ rest)))
    (run : Runs (beginExecuteQuery query finalize) s () t) (still : t.connects ≤ s.connects) :
    SameConnection s t ∧ t.state = .selecting ∧
      ∃ bytes, t.Awaits (awaited ++ blocks) bytes ∧ t.Fed last (bytes ++ rest) := by
  have selecting := state_beginExecuteQuery run
  obtain ⟨idle, run⟩ := of_runs_expectState run
  obtain ⟨rfl, rfl⟩ := awaits.of_idle idle
  obtain ⟨bytes, rfl, answer⟩ := answered.of_opening
  obtain ⟨_, u, pinged, run⟩ := runs_bind_iff.mp run
  obtain ⟨_, _, ⟨⟩, run⟩ := runs_bind_iff.mp run
  have sent := run.of_onThrow
  have begins : SameConnection u t :=
    ((along_sendQuery query finalize).of_runs sent).worked.sameConnection.of_session
  rw [nil_append, append_assoc] at fed
  obtain ⟨fed, same⟩ := pingBeforeQuery_fed fed pinged (begins.connects ▸ still)
  have same := same.trans begins
  have keeps := (sends_keepsInput.sendQuery query finalize).of_runs sent
  cases answer with
  | query isResponse =>
    exact ⟨same, selecting, bytes, .blocks selecting (same.format ▸ isResponse),
      fed.of_keepsInput keeps⟩

/-- Once the header of an insert is there, the client awaits the end of the response. -/
theorem insertHeader_awaits {u v : Client υ ω ι ο} {query : Query υ}
    {events : Option (QueryEvents υ)} {block : Block}
    (answered : AnswerAll s.format (opening s.options.pingBeforeQuery .insert) blocks answers)
    (reports : dbmsMinRevisionWithTotalRowsInProgress ≤ s.format.revision)
    (fed : s.Fed last (answers ++ rest)) (pinged : Runs pingBeforeQuery s () u)
    (sent : Runs (sendQuery query true)
      { u with state := .inserting, events := events, insertBlock := block } () v)
    (found : Runs (awaitHeader fuel) v true t) (still : t.connects ≤ s.connects) :
    SameConnection s t ∧ t.state = .inserting ∧
      ∃ bytes, t.Awaits blocks bytes ∧ t.Fed last (bytes ++ rest) := by
  obtain ⟨bytes, rfl, answer⟩ := answered.of_opening
  have sends := (along_sendQuery query true).of_runs sent
  have awaits := (along_awaitHeader fuel).of_runs found
  have begins : SameConnection u t :=
    SameConnection.of_session (sends.worked.sameConnection.trans awaits.worked.sameConnection)
  rw [append_assoc] at fed
  obtain ⟨fed, same⟩ := pingBeforeQuery_fed fed pinged (begins.connects ▸ still)
  have format : v.format = s.format := sends.format_eq.trans same.format
  have keeps := (sends_keepsInput.sendQuery query true).of_runs sent
  have inserting := awaits.state_eq.trans sends.state_eq
  cases answer with
  | insert isResponse =>
    obtain ⟨later, bytes, others, fed⟩ :=
      awaitHeader_fed (format ▸ isResponse) (format ▸ reports) (fed.of_keepsInput keeps) found
    exact ⟨same.trans begins, inserting, bytes, .ending inserting others, fed⟩

theorem executeQuery_inStep (awaits : s.Awaits awaited now)
    (reports : dbmsMinRevisionWithTotalRowsInProgress ≤ s.format.revision)
    (answered : AnswerAll s.format (opening s.options.pingBeforeQuery .query) blocks answers)
    (fed : s.Fed last (now ++ (answers ++ rest)))
    (run : Runs (executeQuery fuel query) s returned t) (still : t.connects ≤ s.connects) :
    InStep last rest s (awaited ++ blocks) returned t := by
  obtain ⟨_, u, begun, drained⟩ := runs_bind_iff.mp run
  have drains := ((allowsSessions_worked.toSessions.drain fuel).of_runs drained).sameConnection
  obtain ⟨same, selecting, bytes, awaits, fed⟩ :=
    beginExecuteQuery_awaits awaits answered fed begun (drains.connects ▸ still)
  exact (drain_inStep awaits selecting (same.format ▸ reports) fed drained).after same

theorem selectWithExternalData_inStep {tables : List ExternalTable}
    (awaits : s.Awaits awaited now)
    (reports : dbmsMinRevisionWithTotalRowsInProgress ≤ s.format.revision)
    (answered : AnswerAll s.format (opening s.options.pingBeforeQuery .query) blocks answers)
    (fed : s.Fed last (now ++ (answers ++ rest)))
    (run : Runs (selectWithExternalData fuel query tables) s returned t)
    (still : t.connects ≤ s.connects) : InStep last rest s (awaited ++ blocks) returned t := by
  obtain ⟨_, _, ⟨⟩, run⟩ := runs_bind_iff.mp run
  dsimp only at run
  split at run
  · cases run
  · obtain ⟨_, u, begun, run⟩ := runs_bind_iff.mp run
    obtain ⟨_, v, sent, drained⟩ := runs_bind_iff.mp run
    have sent := sent.of_onThrow
    have talked := ((along_sendExternalData tables).bind fun _ => along_finalizeQuery).of_runs sent
    have sends := talked.worked.sameConnection
    have drains := ((allowsSessions_worked.toSessions.drain fuel).of_runs drained).sameConnection
    have keeps := ((sends_keepsInput.sendExternalData tables).bind fun _ =>
      sends_keepsInput.finalizeQuery).of_runs sent
    obtain ⟨same, selecting, bytes, awaits, fed⟩ :=
      beginExecuteQuery_awaits awaits answered fed begun ((sends.trans drains).connects ▸ still)
    have same := same.trans sends
    exact (drain_inStep (awaits.of_talked talked) (talked.state_eq.trans selecting)
      (same.format ▸ reports) (fed.of_keepsInput keeps) drained).after same

theorem insert_inStep {tableName queryId : Bytes} {block : Block} (awaits : s.Awaits awaited now)
    (reports : dbmsMinRevisionWithTotalRowsInProgress ≤ s.format.revision)
    (answered : AnswerAll s.format (opening s.options.pingBeforeQuery .insert) blocks answers)
    (fed : s.Fed last (now ++ (answers ++ rest)))
    (run : Runs (insert fuel tableName queryId block) s () t) (still : t.connects ≤ s.connects) :
    InStep last rest s (awaited ++ blocks) [] t := by
  obtain ⟨_, _, ⟨⟩, run⟩ := runs_bind_iff.mp run
  dsimp only at run
  split at run
  · cases run
  · obtain ⟨idle, run⟩ := of_runs_expectState run
    obtain ⟨rfl, rfl⟩ := awaits.of_idle idle
    obtain ⟨_, u, pinged, run⟩ := runs_bind_iff.mp run
    obtain ⟨_, _, ⟨⟩, run⟩ := runs_bind_iff.mp run
    obtain ⟨_, v, sent, run⟩ := runs_bind_iff.mp run
    obtain ⟨header, w, found, run⟩ := runs_bind_iff.mp run
    cases header with
    | false => cases run
    | true =>
      obtain ⟨_, x, data, ended⟩ := runs_bind_iff.mp run
      have talked := (along_sendData block).of_runs data
      have sends := talked.worked.sameConnection
      have ends := ((allowsSessions_worked.toSessions.endInsert fuel).of_runs ended).sameConnection
      obtain ⟨same, inserting, bytes, awaits, fed⟩ := insertHeader_awaits answered reports fed pinged
        sent found ((sends.trans ends).connects ▸ still)
      have same := same.trans sends
      exact (endInsert_inStep (awaits.of_talked talked) (same.format ▸ reports)
        (fed.of_keepsInput ((sends_keepsInput.sendData block).of_runs data)) ended).after same

theorem beginInsert_inStep {header : Block} (awaits : s.Awaits awaited now)
    (reports : dbmsMinRevisionWithTotalRowsInProgress ≤ s.format.revision)
    (answered : AnswerAll s.format (opening s.options.pingBeforeQuery .insert) blocks answers)
    (fed : s.Fed last (now ++ (answers ++ rest))) (run : Runs (beginInsert fuel query) s header t)
    (still : t.connects ≤ s.connects) : InStep last rest s (awaited ++ blocks) [] t := by
  obtain ⟨idle, run⟩ := of_runs_expectState run
  obtain ⟨rfl, rfl⟩ := awaits.of_idle idle
  dsimp only at run
  split at run
  · cases run
  · obtain ⟨_, _, ⟨⟩, run⟩ := runs_bind_iff.mp run
    obtain ⟨_, w, body, run⟩ := runs_bind_iff.mp run
    obtain ⟨_, ⟨⟩, _⟩ := runs_bind_pure_iff.mp run
    obtain ⟨_, u, pinged, run⟩ := runs_bind_iff.mp body.of_onThrow
    obtain ⟨_, _, ⟨⟩, run⟩ := runs_bind_iff.mp run
    obtain ⟨_, v, sent, run⟩ := runs_bind_iff.mp run
    obtain ⟨header, _, found, run⟩ := runs_bind_iff.mp run
    cases header with
    | false => cases run
    | true =>
      obtain ⟨_, ⟨⟩, _⟩ := runs_bind_pure_iff.mp run
      obtain ⟨same, _, bytes, awaits, fed⟩ :=
        insertHeader_awaits (s := { s with events := some (.parameter query false) }) answered reports
          fed pinged sent found still
      exact .of_awaits ⟨same.connects, same.format, same.options⟩ (awaits.of_eq rfl rfl) fed

/-! ## Operations and runs -/

theorem perform_inStep {op : Client.Operation υ} (awaits : s.Awaits awaited now)
    (reports : dbmsMinRevisionWithTotalRowsInProgress ≤ s.format.revision)
    (answered : AnswerAll s.format (op.requests s.options.pingBeforeQuery) blocks answers)
    (fed : s.Fed last (now ++ (answers ++ rest))) (run : Runs (perform fuel op) s returned t)
    (still : t.connects ≤ s.connects) : InStep last rest s (awaited ++ blocks) returned t := by
  -- An operation without a request reads on in the answer there is.
  have readsOn (unasked : AnswerAll s.format [] blocks answers)
      (step : s.Fed last (now ++ rest) → InStep last rest s awaited returned t) :
      InStep last rest s (awaited ++ blocks) returned t := by
    obtain ⟨rfl, rfl⟩ := unasked.of_nil
    rw [append_nil]
    exact step fed
  cases op with
  | execute query => exact executeQuery_inStep awaits reports answered fed run still
  | selectWithExternalData query tables =>
    exact selectWithExternalData_inStep awaits reports answered fed run still
  | beginSelect query =>
    obtain ⟨_, begun, rfl⟩ := runs_bind_pure_iff.mp run
    obtain ⟨same, _, bytes, awaits, fed⟩ := beginExecuteQuery_awaits awaits answered fed begun still
    exact .of_awaits same awaits fed
  | nextBlock =>
    obtain ⟨_, called, rfl⟩ := runs_bind_pure_iff.mp run
    exact readsOn answered fun fed => nextBlock_inStep awaits reports fed called
  | cancel => exact readsOn answered fun fed => cancel_inStep awaits reports fed run
  | insert tableName queryId block =>
    obtain ⟨_, inserted, rfl⟩ := runs_bind_pure_iff.mp run
    exact insert_inStep awaits reports answered fed inserted still
  | beginInsert query =>
    obtain ⟨_, begun, rfl⟩ := runs_bind_pure_iff.mp run
    exact beginInsert_inStep awaits reports answered fed begun still
  | sendInsertBlock block =>
    obtain ⟨_, sent, rfl⟩ := runs_bind_pure_iff.mp run
    exact readsOn answered fun fed => sendInsertBlock_inStep awaits fed sent
  | endInsert =>
    obtain ⟨_, ended, rfl⟩ := runs_bind_pure_iff.mp run
    exact readsOn answered fun fed => endInsert_inStep awaits reports fed ended
  | ping =>
    obtain ⟨_, pinged, rfl⟩ := runs_bind_pure_iff.mp run
    exact ping_inStep awaits answered fed pinged
  | resetConnection =>
    obtain ⟨_, reset, rfl⟩ := runs_bind_pure_iff.mp run
    exact absurd still (Nat.not_le_of_lt ((resetConnection_connects s).of_runs reset))
  | resetConnectionEndpoint =>
    obtain ⟨_, reset, rfl⟩ := runs_bind_pure_iff.mp run
    exact absurd still (Nat.not_le_of_lt ((resetConnectionEndpoint_connects s).of_runs reset))

/-- Operations that all return, one after the other, with the blocks that the calls of `NextBlock`
in them returned. -/
inductive Performed : Client υ ω ι ο → List (Client.Operation υ) → List Block → Client υ ω ι ο → Prop
  | none {client : Client υ ω ι ο} : Performed client [] [] client
  | operation {client next final : Client υ ω ι ο} {rounds : Nat} {op : Client.Operation υ}
    {ops : List (Client.Operation υ)} {first more : List Block} :
    Runs (perform rounds op) client first next → Performed next ops more final →
    Performed client (op :: ops) (first ++ more) final

theorem Performed.connects {ops : List (Client.Operation υ)}
    (performed : Performed s ops returned t) : s.connects ≤ t.connects := by
  induction performed with
  | none => exact Nat.le_refl _
  | operation run _ ih =>
    exact Nat.le_trans ((allowsOperations_connects.toOperates.perform _ _).of_runs run) ih

theorem Performed.inStep {ops : List (Client.Operation υ)} (performed : Performed s ops returned t)
    (awaits : s.Awaits awaited now)
    (reports : dbmsMinRevisionWithTotalRowsInProgress ≤ s.format.revision)
    (answered : AnswerAll s.format
      (ops.flatMap fun op => op.requests s.options.pingBeforeQuery) blocks answers)
    (fed : s.Fed last (now ++ (answers ++ rest))) (still : t.connects ≤ s.connects) :
    InStep last rest s (awaited ++ blocks) returned t := by
  induction performed generalizing awaited now blocks answers with
  | none =>
    obtain ⟨rfl, rfl⟩ := answered.of_nil
    rw [append_nil]
    exact .of_awaits ⟨rfl, rfl, rfl⟩ awaits fed
  | @operation s u t _ op ops _ _ run later ih =>
    obtain ⟨first, second, bytes, others, rfl, rfl, answer, answers⟩ := answered.of_append
    have monotone : u.connects ≤ t.connects := later.connects
    rw [append_assoc] at fed
    obtain ⟨same, awaited', now', split, awaits, fed⟩ :=
      perform_inStep awaits reports answer fed run (Nat.le_trans monotone still)
    rw [← same.format, ← same.options] at answers
    obtain ⟨same', awaited'', now'', split', awaits, fed⟩ :=
      ih awaits (same.format ▸ reports) answers fed (same.connects ▸ still)
    refine ⟨same.trans same', awaited'', now'', ?_, awaits, fed⟩
    rw [← append_assoc, split, append_assoc, split', append_assoc]

/-- Whenever the client is idle, it has read the answers to all its requests on a connection and
nothing that follows them, and has returned their blocks. -/
theorem answers_read_when_idle {info : ServerInfo} {c : Client υ ω ι ο} {input : ι} {output : ο}
    {factory : ω} {compression : Bool} {ops : List (Client.Operation υ)} (sendable : info.Sendable)
    (reports : dbmsMinRevisionWithTotalRowsInProgress ≤ info.revision)
    (connects : Runs (SocketFactory.connect s.options s.currentEndpoint) s.socketFactory
      (input, output) factory)
    (arrives : LawfulSource.Feeds input (serverHello info ++ (answers ++ rest)) last)
    (reset : Runs resetConnection s () c)
    (answered : AnswerAll ⟨info.revision, compression, s.columnSettings⟩
      (ops.flatMap fun op => op.requests s.options.pingBeforeQuery) blocks answers)
    (performed : Performed { c with compression := compression } ops returned t)
    (still : t.connects = c.connects) (idle : t.state = .idle) :
    t.Fed last rest ∧ returned = blocks := by
  have shook := (resetConnection_of_connect connects).of_runs reset
  obtain ⟨known, m, arrived, feeds⟩ := handshake_receives sendable rfl arrives shook
  obtain ⟨_, _, _, _, _, rfl⟩ := (handshake_ensures _).of_runs shook
  cases known
  have fed : Client.Fed last _ ([] ++ (answers ++ rest)) := ⟨m, arrived, feeds⟩
  obtain ⟨_, awaited, now, rfl, awaits, fed⟩ :=
    performed.inStep (.nothing rfl) reports answered fed (Nat.le_of_eq still)
  obtain ⟨rfl, rfl⟩ := awaits.of_idle idle
  exact ⟨fed, (append_nil _).symm⟩

end InStep

/-- The block as a server may send it: this client writes another name for the type. -/
def aggregatedBlock : Bytes :=
  (writeBlockInfo newServer.revision .initial).written.flatten ++ (writeUInt64 1 ++ (writeUInt64 1 ++
    ((writeString (ascii "n")).flatten ++
      ((writeString (ascii "SimpleAggregateFunction(any, UInt8)")).flatten ++ ([0] ++ [7])))))

theorem createColumnByType_simpleAggregateFunction [Hashing] :
    createColumnByType ⟨false⟩ (ascii "SimpleAggregateFunction(any, UInt8)") =
      .ok (some (.leaf (.fixed .uint8 []))) := by
  have plain : isPlainIdentifier (ascii "SimpleAggregateFunction") ∧
      isPlainIdentifier (ascii "any") ∧ isPlainIdentifier (ascii "UInt8") := by decide +kernel
  have parsed := (((reads_plain plain.2.1).element.append separates_commaSpace
    (reads_plain plain.2.2).element).call plain.1).parseTypeName (by decide +kernel)
  have text : ascii "SimpleAggregateFunction" ++
      0x28 :: (ascii "any" ++ ascii ", " ++ ascii "UInt8") ++ [0x29] =
        ascii "SimpleAggregateFunction(any, UInt8)" := by decide +kernel
  rw [← text, createColumnByType, parsed]
  rfl

theorem isBlock_aggregatedBlock [Hashing] :
    IsBlock ⟨newServer.revision, false, ⟨false⟩⟩ (ascii "t") numberBlock aggregatedBlock := by
  refine ⟨by decide, ?_⟩
  intro σ _
  obtain ⟨_, ⟨_, rfl⟩, info⟩ := decodes_readBlockInfo (σ := σ) newServer.revision .initial
  obtain ⟨_, ⟨_, rfl⟩, format⟩ := decodes_readCustomFormat (σ := σ) newServer.revision
  obtain ⟨_, ⟨_, rfl⟩, load⟩ := Leaf.decodes_loadBody (σ := σ)
    (show (Leaf.fixed .uint8 [Word.ofNat 1 7]).Savable from (by decide : 1 * 1 < 2 ^ 64))
    (show (Leaf.fixed .uint8 []).type = _ from rfl)
  have loads : Decodes (σ := σ) ((Column.leaf (.fixed .uint8 [])).load 1) [7]
      (true, .leaf (.fixed .uint8 [Word.ofNat 1 7])) :=
    (Decodes.pure true).bind (load.bind_pure (.pure _))
  have rows : Decodes (σ := σ) (loadRows (ascii "n") (ascii "SimpleAggregateFunction(any, UInt8)") 1
      (.leaf (.fixed .uint8 []))) [7] (.leaf (.fixed .uint8 [Word.ofNat 1 7])) :=
    loads.bind_pure (.pure _)
  have column : Decodes (σ := σ) (readColumn newServer.revision ⟨false⟩ 1 ⟨.initial, [], 0⟩)
      ((writeString (ascii "n")).flatten ++
        ((writeString (ascii "SimpleAggregateFunction(any, UInt8)")).flatten ++ ([0] ++ [7])))
      (true, numberBlock) := by
    refine (decodes_readString (by decide)).bind ((decodes_readString (by decide)).bind ?_)
    refine format.bind ?_
    rw [createColumnByType_simpleAggregateFunction]
    refine rows.bind_pure ?_
    exact .pure _
  refine info.bind ((decodes_readUInt64 (by decide)).bind ((decodes_readUInt64 (by decide)).bind ?_))
  exact column.bind_pure (.pure _)

/-- The answers to a ping and to a query with one block. -/
def numberAnswers : Bytes :=
  writeUInt64 ServerCode.pong.code ++ (writeUInt64 ServerCode.data.code ++
    ((writeString (ascii "t")).flatten ++ aggregatedBlock) ++
    writeUInt64 ServerCode.endOfStream.code)

theorem answerAll_numberAnswers [Hashing] [Codec] :
    AnswerAll ⟨newServer.revision, false, ⟨false⟩⟩ [.ping, .query] [numberBlock] numberAnswers := by
  have all := AnswerAll.answer .ping (.answer
    (.query (.packet (.data isBlock_aggregatedBlock (.raw _)) (.ends .endOfStream))) .none)
  rw [append_nil, append_nil] at all
  exact all

/-- A ping and a query whose blocks are asked for one by one; a Pong that follows is not read. -/
theorem answers_read_numberBlock :
    letI := lengthHashing
    letI : Codec := storingCodec
    ∃ (s c t : Client Unit Script ScriptedInput (BufferedOutput Sink)) (last : ScriptedInput)
      (returned : List Block),
      Runs resetConnection s () c ∧
      Performed { c with compression := false }
        [.ping, .beginSelect sampleQuery, .nextBlock, .nextBlock] returned t ∧
      t.Fed last (writeUInt64 ServerCode.pong.code) ∧ returned = [numberBlock] := by
  let _ := lengthHashing
  let _ : Codec := storingCodec
  let pong := writeUInt64 ServerCode.pong.code
  let closed := Error.protocolError (ascii "connection closed by peer while reading")
  let input : ScriptedInput := ⟨serverHello newServer ++ (numberAnswers ++ pong), closed⟩
  let s : Client Unit Script ScriptedInput (BufferedOutput Sink) :=
    Client.initial sampleOptions ⟨[.ok input]⟩ () (sampleEndpoint 1)
  let c := after resetConnection s
  let pinged := after (perform 5 .ping) { c with compression := false }
  let selecting := after (perform 5 (.beginSelect sampleQuery)) pinged
  let read := after (perform 5 .nextBlock) selecting
  let ended := after (perform 5 .nextBlock) read
  have holds : (returnsFrom resetConnection s = true ∧
      returnsFrom (perform 5 .ping) { c with compression := false } = true ∧
      returnsFrom (perform 5 (.beginSelect sampleQuery)) pinged = true ∧
      returnsFrom (perform 5 .nextBlock) selecting = true ∧
      returnsFrom (perform 5 .nextBlock) read = true) ∧
      ended.connects = c.connects ∧ ended.state = .idle := by
    decide +kernel
  obtain ⟨⟨resets, pings, begins, reads, ends⟩, still, idle⟩ := holds
  obtain ⟨_, reset⟩ := runs_of_returnsFrom resets
  obtain ⟨_, pings⟩ := runs_of_returnsFrom pings
  obtain ⟨_, begins⟩ := runs_of_returnsFrom begins
  obtain ⟨_, reads⟩ := runs_of_returnsFrom reads
  obtain ⟨_, ends⟩ := runs_of_returnsFrom ends
  have performed := Performed.operation pings (.operation begins (.operation reads
    (.operation ends .none)))
  have sendable : newServer.Sendable :=
    ⟨by decide, by decide, by decide, by decide, by decide, by decide, by decide⟩
  have arrives : ScriptedInput.Feeds input (serverHello newServer ++ (numberAnswers ++ pong))
      { input with arriving := [] } := ⟨(append_nil _).symm, rfl⟩
  have connects : Runs (SocketFactory.connect s.options s.currentEndpoint) s.socketFactory
      (input, BufferedOutput.create ⟨[]⟩ 8192) ⟨[]⟩ := rfl
  obtain ⟨fed, isReturned⟩ := answers_read_when_idle sendable (by decide) connects arrives reset
    answerAll_numberAnswers performed still idle
  exact ⟨s, c, ended, _, _, reset, performed, fed, isReturned⟩

end ClickHouse
