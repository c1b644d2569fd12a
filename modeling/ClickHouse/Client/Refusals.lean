import ClickHouse.Client.Alike
import ClickHouse.Client.Failover
import ClickHouse.Kit.Runs

/-!
# What a refused query leaves behind

`SendQuery` throws an `UnimplementedError` in the middle of its packet.  What it
has written by then stays in the buffer of the output, and the next flush on the
same connection sends it.  The client does afterwards what it would have done
without the refused call if the connection is replaced before anything else is
written on it.
-/

namespace ClickHouse

open Kit Client

variable {υ ω ι δ : Type}

/-- What the output of the connection has passed on. -/
def Client.wire (s : Client υ ω ι (BufferedOutput δ)) : Option δ :=
  s.output.map BufferedOutput.destination

/-- At least one connection was made after the first `n` entries of the history. -/
def Client.reconnectedSince (n : Nat) {ο : Type} (s : Client υ ω ι ο) : Bool :=
  (s.history.drop n).any fun event =>
    match event with
    | .connected _ => true
    | _ => false

/-- The operations that write on the connection of an idle client. -/
def Client.writesFirst {ο : Type} (s : Client υ ω ι ο) : Operation υ → Bool
  | .execute _ => true
  | .selectWithExternalData _ _ =>
    decide (dbmsMinRevisionWithTemporaryTables ≤ s.serverInfo.revision)
  | .beginSelect _ => true
  | .nextBlock => false
  | .cancel => false
  | .insert _ _ _ => true
  | .beginInsert query => !query.hasEventCallbacks
  | .sendInsertBlock _ => false
  | .endInsert => false
  | .ping => true
  | .resetConnection => false
  | .resetConnectionEndpoint => false

/-- The second client has bytes in its buffer that the first one has not. -/
def Lingering (s t : Client υ ω ι (BufferedOutput δ)) : Prop :=
  ∃ history query output, t = { s with history := history, query := query, output := output } ∧
    output.map BufferedOutput.destination = s.wire ∧ s.state = .idle ∧ s.events = none

/-- Until the connection is replaced bytes linger in a buffer; from then on nothing is different. -/
def Recovering (n : Nat) (s t : Client υ ω ι (BufferedOutput δ)) : Prop :=
  Alike s t ∨ Lingering s t ∧ t.reconnectedSince n = false ∧ n ≤ t.history.length

variable {s t : Client υ ω ι (BufferedOutput δ)}

theorem Recovering.wire_eq {n : Nat} (recovering : Recovering n s t) : t.wire = s.wire := by
  rcases recovering with ⟨history, query, rfl, used⟩ | ⟨⟨history, query, output, rfl, same, _⟩, _⟩
  · rfl
  · exact same

theorem sharesEndpoints_recovering (n : Nat) :
    SharesEndpoints (Recovering n : Client υ ω ι (BufferedOutput δ) → _ → Prop) where
  options := by
    rintro s t (alike | ⟨⟨history, query, output, rfl, _⟩, _⟩)
    · exact sharesEndpoints_alike.options alike
    · rfl
  index := by
    rintro s t (alike | ⟨⟨history, query, output, rfl, _⟩, _⟩)
    · exact sharesEndpoints_alike.index alike
    · rfl
  endpoint := by
    rintro s t (alike | ⟨⟨history, query, output, rfl, _⟩, _⟩)
    · exact sharesEndpoints_alike.endpoint alike
    · rfl
  moveIndex := by
    rintro s t (alike | ⟨⟨history, query, output, rfl, rest⟩, still⟩) index
    · exact .inl (sharesEndpoints_alike.moveIndex alike index)
    · exact .inr ⟨⟨history, query, output, rfl, rest⟩, still⟩
  moveEndpoint := by
    rintro s t (alike | ⟨⟨history, query, output, rfl, rest⟩, still⟩) endpoint
    · exact .inl (sharesEndpoints_alike.moveEndpoint alike endpoint)
    · exact .inr ⟨⟨history, query, output, rfl, rest⟩, still⟩

section Steps

variable [Source Error ι] [Output Error δ] [SocketFactory ω ι (BufferedOutput δ)]

theorem recovering_resetConnection (n : Nat) :
    Agree (Recovering n) (resetConnection : ClientM υ ω ι (BufferedOutput δ) Unit) := by
  intro s t recovering
  rcases recovering with alike | ⟨⟨history, query, output, rfl, same, idle, quiet⟩, still, since⟩
  · exact (alike_resetConnection s t alike).mono fun _ _ => .inl
  · -- `connect` is called in the same way, whatever lingers in the output.
    cases connects : SocketFactory.connect s.options s.currentEndpoint s.socketFactory with
    | error e factory =>
      refine sameOutcome_of_throws (resetConnection_of_throws connects)
        (resetConnection_of_throws connects) (.inr ⟨⟨_, query, output, rfl, same, idle, quiet⟩, ?_, ?_⟩)
      · unfold reconnectedSince at still ⊢
        dsimp only at still since ⊢
        rw [List.drop_append_of_le_length since, List.any_append, still]
        rfl
      · dsimp only at since ⊢
        rw [List.length_append]
        omega
    | ok streams factory =>
      refine SameOutcome.mono ?_ fun _ _ => Or.inl
      unfold resetConnection
      rw [(runs_initializeStreams connects).bind_eq,
        (runs_initializeStreams (s := { s with
          history := history
          query := query
          output := output }) connects).bind_eq]
      refine alike_greet _ _ ⟨_, query, rfl, fun stored => ?_⟩
      dsimp only at stored
      rw [quiet] at stored
      cases stored

variable [Hashing] [Codec]

/-- An idle client refuses an operation that does not write, or has nothing to do for it. -/
theorem perform_of_idle (fuel : Nat) {operation : Client.Operation υ} (idle : s.state = .idle)
    (idle' : t.state = .idle) (info : t.serverInfo = s.serverInfo)
    (silent : t.writesFirst operation = false)
    (keeps : operation ≠ .resetConnection ∧ operation ≠ .resetConnectionEndpoint) :
    ∃ outcome : Except Error (List Block),
      perform fuel operation s = (ofExcept outcome : ClientM υ ω ι (BufferedOutput δ) _) s ∧
      perform fuel operation t = (ofExcept outcome : ClientM υ ω ι (BufferedOutput δ) _) t := by
  have notSelecting {u : Client υ ω ι (BufferedOutput δ)} (idle : u.state = .idle) :
      u.state ≠ .selecting := by
    rw [idle]
    exact State.noConfusion
  have notInserting {u : Client υ ω ι (BufferedOutput δ)} (idle : u.state = .idle) :
      u.state ≠ .inserting := by
    rw [idle]
    exact State.noConfusion
  cases operation with
  | execute query => cases silent
  | beginSelect query => cases silent
  | insert tableName queryId block => cases silent
  | ping => cases silent
  | resetConnection => exact absurd rfl keeps.1
  | resetConnectionEndpoint => exact absurd rfl keeps.2
  | selectWithExternalData query tables =>
    have old : t.serverInfo.revision < dbmsMinRevisionWithTemporaryTables :=
      Nat.lt_of_not_le (of_decide_eq_false silent)
    have refuses {u : Client υ ω ι (BufferedOutput δ)}
        (old : u.serverInfo.revision < dbmsMinRevisionWithTemporaryTables) :
        Throws (selectWithExternalData fuel query tables) u (.unimplementedError (ascii
          "This version of ClickHouse server doesn't support temporary tables")) u := by
      refine (runs_get u).bind_throws ?_
      rw [if_pos old]
      exact (throws_throw _ u).bind _
    exact ⟨.error _, refuses (info ▸ old), refuses old⟩
  | nextBlock =>
    exact ⟨.error _, ((throws_expectState (notSelecting idle) _).bind _).bind _,
      ((throws_expectState (notSelecting idle') _).bind _).bind _⟩
  | cancel =>
    exact ⟨.error _, (throws_expectState (notSelecting idle) _).bind _,
      (throws_expectState (notSelecting idle') _).bind _⟩
  | beginInsert query =>
    have callbacks : query.hasEventCallbacks = true := by
      simpa [writesFirst] using silent
    have refuses {u : Client υ ω ι (BufferedOutput δ)} (idle : u.state = .idle) :
        Throws (beginInsert fuel query) u (.validationError (ascii
          "Query callbacks are not supported in BeginInsert")) u := by
      refine (runs_expectState idle _).bind_throws ?_
      rw [if_pos callbacks]
      exact (throws_throw _ u).bind _
    exact ⟨.error _, (refuses idle).bind _, (refuses idle').bind _⟩
  | sendInsertBlock block =>
    exact ⟨.error _, ((throws_expectState (notInserting idle) _).bind _).bind _,
      ((throws_expectState (notInserting idle') _).bind _).bind _⟩
  | endInsert =>
    have ends {u : Client υ ω ι (BufferedOutput δ)} (idle : u.state = .idle) :
        Runs (endInsert fuel) u () u := by
      refine (runs_get u).bind ?_
      rw [if_neg (notInserting idle)]
      exact runs_pure () u
    exact ⟨.ok [], (ends idle).bind (runs_pure [] s), (ends idle').bind (runs_pure [] t)⟩

/-- A step that does not write on the connection of the refused call. -/
theorem recovering_perform {n : Nat} (fuel : Nat) {operation : Client.Operation υ}
    (recovering : Recovering n s t)
    (allowed : t.reconnectedSince n = true ∨ t.writesFirst operation = false) :
    SameOutcome (Recovering n) (perform fuel operation s) (perform fuel operation t) := by
  by_cases alike : Alike s t
  · exact (alike_perform fuel operation s t alike).mono fun _ _ => .inl
  · obtain ⟨lingering, still, since⟩ := recovering.resolve_left alike
    have silent : t.writesFirst operation = false := by
      rcases allowed with since | silent
      · rw [still] at since
        cases since
      · exact silent
    by_cases reset : operation = .resetConnection
    · subst reset
      exact ((recovering_resetConnection n).bind fun _ => agree_pure _) s t recovering
    · by_cases resetEndpoint : operation = .resetConnectionEndpoint
      · subst resetEndpoint
        exact (((sharesEndpoints_recovering n).toMoves
          (recovering_resetConnection n)).resetConnectionEndpoint.bind fun _ => agree_pure _) s t recovering
      · have idles : s.state = .idle ∧ t.state = .idle ∧ t.serverInfo = s.serverInfo := by
          obtain ⟨history, query, output, rfl, same, idle, quiet⟩ := lingering
          exact ⟨idle, idle, rfl⟩
        obtain ⟨outcome, left, right⟩ :=
          perform_of_idle fuel idles.1 idles.2.1 idles.2.2 silent ⟨reset, resetEndpoint⟩
        rw [left, right]
        exact agree_ofExcept outcome _ _ recovering

/-! ## The refused call -/

omit [Source Error ι] [SocketFactory ω ι (BufferedOutput δ)] in
/-- To send a query changes the output and the history only. -/
theorem sendQuery_along (query : Query υ) (finalize : Bool) :
    Along (fun s t => ∃ output history, t = { s with output := output, history := history })
      (sendQuery query finalize : ClientM υ ω ι (BufferedOutput δ) Unit) := by
  let R : Client υ ω ι (BufferedOutput δ) → Client υ ω ι (BufferedOutput δ) → Prop :=
    fun s t => ∃ output history, t = { s with output := output, history := history }
  have _ : Std.Refl R := ⟨fun s => ⟨s.output, s.history, rfl⟩⟩
  have _ : IsTrans (Client υ ω ι (BufferedOutput δ)) R := by
    refine ⟨?_⟩
    rintro s _ _ ⟨_, _, rfl⟩ ⟨output, history, rfl⟩
    exact ⟨output, history, rfl⟩
  have noted (event : Event) : Along R (note event) :=
    along_modify fun t => ⟨t.output, t.history ++ [event], rfl⟩
  have written (p : EStateM Error (BufferedOutput δ) Unit) : Along R (toOutput p) := by
    refine along_get_bind fun s => ?_
    split
    · exact along_throw _
    · exact along_zoom fun output t => ⟨some output, t.history, rfl⟩
  have block (block : Block) : Along R (sendBlockData block) := by
    refine along_get_bind fun s => ?_
    split
    · split
      · exact along_throw _
      · exact (along_ofExcept _).bind fun _ =>
          along_zoom fun buffered t => ⟨some buffered.destination.destination, t.history, rfl⟩
    · exact written _
  have data (sent : Block) : Along R (sendData sent) :=
    along_get_bind fun _ => (noted _).bind fun _ => (written _).bind fun _ =>
      (block sent).bind fun _ => written _
  refine along_get_bind fun s => (noted _).bind fun _ => (written _).bind fun _ => ?_
  split
  · exact (data _).bind fun _ => written _
  · exact along_pure _

theorem lingering_of_refused {query : Query υ} {message : Bytes}
    (noPing : s.options.pingBeforeQuery = false) (quiet : s.events = none)
    (refused : Throws (beginExecuteQuery query true) s (.unimplementedError message) t)
    (unsent : t.wire = s.wire) : Lingering s t := by
  have ends : Ensures (beginExecuteQuery query true) s (fun _ _ => True) fun e t =>
      (∃ what, e = .validationError what) ∨ s.state = .idle ∧ ∃ output history, t = { s with
        output := output, history := history, query := .empty, events := none, state := .idle } := by
    unfold beginExecuteQuery expectState
    refine Ensures.bind (ensures_get_bind ?_)
    split
    · rename_i idle
      refine ensures_pure (Ensures.bind (ensures_get_bind ?_))
      rw [if_neg (by rw [noPing]; exact Bool.false_ne_true)]
      refine ensures_pure (ensures_modify_bind (Ensures.onThrow_modify ?_))
      refine ((sendQuery_along query true).ensures _).imp (fun _ _ _ => trivial) ?_
      rintro _ _ ⟨output, history, rfl⟩
      exact .inr ⟨idle, output, history, rfl⟩
    · exact ensures_throw (.inl ⟨_, rfl⟩)
  rcases ends.of_throws refused with ⟨_, other⟩ | ⟨idle, output, history, rfl⟩
  · cases other
  · refine ⟨history, .empty, output, ?_, unsent, idle, quiet⟩
    rw [← idle, ← quiet]

/-- Two clients to which the same is done. -/
def takeStepBoth (clients : Client υ ω ι (BufferedOutput δ) × Client υ ω ι (BufferedOutput δ))
    (op : Nat × Client.Operation υ) :
    Client υ ω ι (BufferedOutput δ) × Client υ ω ι (BufferedOutput δ) :=
  (takeStep clients.1 op, takeStep clients.2 op)

/-- A query that is refused leaves no trace if its connection is replaced before anything else is
written on it: `Execute` and `BeginSelect` throw, and with the client after that the same is on the
wire, whatever is done, as with the client before. -/
theorem refused_no_trace (fuel : Nat) {query : Query υ} {message : Bytes}
    {s t : Client υ ω ι (BufferedOutput δ)} (noPing : s.options.pingBeforeQuery = false)
    (quiet : s.events = none)
    (refused : Throws (beginExecuteQuery query true) s (.unimplementedError message) t)
    (unsent : t.wire = s.wire) (ops : List (Nat × Client.Operation υ))
    (replaced : EachStep takeStepBoth (fun clients op =>
      clients.2.reconnectedSince t.history.length = true ∨ clients.2.writesFirst op.2 = false)
      (s, t) ops) :
    Throws (perform fuel (.execute query)) s (.unimplementedError message) t ∧
    Throws (perform fuel (.beginSelect query)) s (.unimplementedError message) t ∧
    t.state = .idle ∧
    Always takeStepBoth (fun clients => clients.2.wire = clients.1.wire) (s, t) ops := by
  have lingering := lingering_of_refused noPing quiet refused unsent
  have still : t.reconnectedSince t.history.length = false := by
    unfold reconnectedSince
    rw [List.drop_length]
    rfl
  have recovers : Always takeStepBoth (fun clients =>
      Recovering t.history.length clients.1 clients.2) (s, t) ops := by
    refine always_of_eachStep ?_ (.inr ⟨lingering, still, Nat.le_refl _⟩) replaced
    rintro ⟨first, second⟩ ⟨rounds, operation⟩ recovering allowed
    exact (recovering_perform rounds recovering allowed).after_related
  refine ⟨refused.bind _, refused.bind _, ?_, recovers.mono fun _ => Recovering.wire_eq⟩
  obtain ⟨history, query, output, rfl, _, idle, _⟩ := lingering
  exact idle

end Steps

/-! ## Runs -/

/-- The message of the `UnimplementedError` that the program throws. -/
def refusalOf {σ α : Type} (p : EStateM Error σ α) (s : σ) : Option Bytes :=
  match p s with
  | .error (.unimplementedError message) _ => some message
  | _ => none

theorem throws_of_refusalOf {σ α : Type} {p : EStateM Error σ α} {s : σ}
    (refused : (refusalOf p s).isSome = true) :
    ∃ message, Throws p s (.unimplementedError message) (after p s) := by
  unfold refusalOf at refused
  split at refused
  · rename_i message t ended
    have thrown : Throws p s (.unimplementedError message) t := ended
    exact ⟨message, by rw [thrown.after_eq]; exact thrown⟩
  · cases refused

theorem Client.wire_eq_of_written {s t : Client υ ω ι (BufferedOutput Sink)}
    (same : (t.output.map fun output => output.destination.written) =
      s.output.map fun output => output.destination.written) : t.wire = s.wire := by
  have injective : Function.Injective Sink.written := by
    rintro ⟨_⟩ ⟨_⟩ rfl
    rfl
  apply Option.map_injective injective
  rw [wire, wire, Option.map_map, Option.map_map]
  exact same

/-- A query with a setting. -/
def settingQuery : Query Unit :=
  { sampleQuery with settings := ⟨[(ascii "a", ⟨ascii "1", 0⟩)], by decide⟩ }

/-- A server that is too old for settings, to which one can connect twice. -/
def settinglessServer : Script :=
  ⟨[closedAfter (oldHello 50264 ++ [5]), closedAfter (oldHello 50264 ++ [5])]⟩

/-- After the refused query the connection is reset, and a query is executed on the new one. -/
theorem refused_no_trace_settingQuery :
    letI := lengthHashing
    letI : Codec := storingCodec
    ∃ client message, Client.create sampleOptions settinglessServer () = .ok client ∧
      Throws (perform 5 (.execute settingQuery)) client (.unimplementedError message)
        (after (beginExecuteQuery settingQuery true) client) ∧
      Always takeStepBoth (fun clients => clients.2.wire = clients.1.wire)
        (client, after (beginExecuteQuery settingQuery true) client)
        [(5, .nextBlock), (5, .resetConnection), (5, .execute sampleQuery)] := by
  let _ := lengthHashing
  let _ : Codec := storingCodec
  let refuse := after (beginExecuteQuery (ω := Script) settingQuery true)
  have holds : (Client.create sampleOptions settinglessServer ()).toOption.any (fun client =>
      client.options.pingBeforeQuery = false ∧ client.events.isNone = true ∧
      (refusalOf (beginExecuteQuery settingQuery true) client).isSome = true ∧
      (refuse client).output.map (fun output => output.destination.written) =
        client.output.map (fun output => output.destination.written) ∧
      (takeStep (takeStep (refuse client) (5, .nextBlock)) (5, .resetConnection)).reconnectedSince
        (refuse client).history.length = true) = true := by
    decide +kernel
  obtain ⟨client, created, noPing, quiet, refused, unsent, reconnected⟩ := exists_of_any holds
  obtain ⟨message, thrown⟩ := throws_of_refusalOf refused
  have same : (refuse client).wire = client.wire := Client.wire_eq_of_written unsent
  obtain ⟨executes, _, _, always⟩ := refused_no_trace 5 noPing (Option.isNone_iff_eq_none.mp quiet)
    thrown same [(5, .nextBlock), (5, .resetConnection), (5, .execute sampleQuery)]
    ⟨.inr rfl, .inr rfl, .inl reconnected, trivial⟩
  exact ⟨client, message, created, executes, always⟩

/-- A query executed after a refused one goes out behind what the refused one has written. -/
theorem not_no_trace_settingQuery :
    letI := lengthHashing
    letI : Codec := storingCodec
    ∃ client message t, Client.create sampleOptions settinglessServer () = .ok client ∧
      Throws (perform 5 (.execute settingQuery)) client (.unimplementedError message) t ∧
      t.state = .idle ∧ t.wire = client.wire ∧
      (∃ blocks u, Runs (perform 5 (.execute sampleQuery)) client blocks u) ∧
      (∃ blocks u, Runs (perform 5 (.execute sampleQuery)) t blocks u) ∧
      (takeStep t (5, .execute sampleQuery)).wire ≠
        (takeStep client (5, .execute sampleQuery)).wire := by
  let _ := lengthHashing
  let _ : Codec := storingCodec
  let written : Client Unit Script ScriptedInput (BufferedOutput Sink) → Option Bytes :=
    fun client => client.output.map fun output => output.destination.written
  let refuse := after (perform (ω := Script) 5 (.execute settingQuery))
  have holds : (Client.create sampleOptions settinglessServer ()).toOption.any (fun client =>
      (refusalOf (perform 5 (.execute settingQuery)) client).isSome = true ∧
      (refuse client).state = .idle ∧ written (refuse client) = written client ∧
      returnsFrom (perform 5 (.execute sampleQuery)) client = true ∧
      returnsFrom (perform 5 (.execute sampleQuery)) (refuse client) = true ∧
      written (takeStep (refuse client) (5, .execute sampleQuery)) ≠
        written (takeStep client (5, .execute sampleQuery))) = true := by
    decide +kernel
  obtain ⟨client, created, refused, idle, unsent, executes, executes', differ⟩ :=
    exists_of_any holds
  obtain ⟨message, thrown⟩ := throws_of_refusalOf refused
  obtain ⟨_, executes⟩ := runs_of_returnsFrom executes
  obtain ⟨_, executes'⟩ := runs_of_returnsFrom executes'
  refine ⟨client, message, _, created, thrown, idle, Client.wire_eq_of_written unsent,
    ⟨_, _, executes⟩, ⟨_, _, executes'⟩, fun same => differ ?_⟩
  have mapped := congrArg (Option.map Sink.written) same
  rw [Client.wire, Client.wire, Option.map_map, Option.map_map] at mapped
  exact mapped

end ClickHouse
