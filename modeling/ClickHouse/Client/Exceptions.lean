import ClickHouse.Client.Failover
import ClickHouse.Client.Rejections

/-!
# Where a server exception leaves the client

With `rethrow_exceptions` an Exception packet is thrown from the loop that
receives it.  `NextBlock` resets the state of the client on the way out, and so
do the operations that are made of it.  The loops of an insert do not: the
client remains in the state Inserting.
-/

namespace ClickHouse

open Kit Client

section Exceptions

variable {υ ω ι ο : Type} [Source Error ι] [Output Error ο] [Hashing] [Codec]

/-! ## The loops up to a packet -/

/-- `NextBlock` goes on after the packet. -/
def DecodedPacket.skipped : DecodedPacket → Bool
  | .block data => decide (data.columns.length = 0)
  | .serverException _ => false
  | .endOfStream => false
  | _ => true

/-- So many packets are passed over by the loop of `NextBlock`. -/
inductive Skipped : Nat → Client υ ω ι ο → Client υ ω ι ο → Prop
  | none (s) : Skipped 0 s s
  | packet {n s t u code packet} : Runs receivePacket s (code, packet) t → packet.skipped = true →
      Skipped n t u → Skipped (n + 1) s u

/-- So many blocks are returned by calls of `NextBlock`. -/
inductive Drained (fuel : Nat) : Nat → Client υ ω ι ο → Client υ ω ι ο → Prop
  | none (s) : Drained fuel 0 s s
  | block {n s t u block} : Runs (nextBlock fuel) s (some block) t → Drained fuel n t u →
      Drained fuel (n + 1) s u

/-- So many packets before the header are processed by an insert. -/
inductive AwaitedHeader : Nat → Client υ ω ι ο → Client υ ω ι ο → Prop
  | none (s) : AwaitedHeader 0 s s
  | packet {n s t u code} : Runs processPacket s (code, true) t → code ≠ ServerCode.data.code →
      AwaitedHeader n t u → AwaitedHeader (n + 1) s u

/-! ## The operations up to a packet -/

/-- The client `u` waits for the response to the query of `NextBlock`s, and `w` for a packet of it. -/
def ComesToNext (fuel : Nat) (u w : Client υ ω ι ο) : Prop :=
  ∃ m n v, Drained fuel m u v ∧ m < fuel ∧ Skipped n v w ∧ n < fuel

/-- The operation, on the client `s`, has come to receive a packet of its response with the
client `w`. -/
inductive ComesToPacket [SocketFactory ω ι ο] (fuel : Nat) :
    Client.Operation υ → Client υ ω ι ο → Client υ ω ι ο → Prop
  | nextBlock {n s w} : s.state = .selecting → Skipped n s w → n < fuel →
      ComesToPacket fuel .nextBlock s w
  | execute {query s u w} : Runs (beginExecuteQuery query true) s () u → ComesToNext fuel u w →
      ComesToPacket fuel (.execute query) s w
  | selectWithExternalData {query tables s u v w} :
      dbmsMinRevisionWithTemporaryTables ≤ s.serverInfo.revision →
      Runs (beginExecuteQuery query false) s () u →
      Runs (do sendExternalData tables; finalizeQuery) u () v → ComesToNext fuel v w →
      ComesToPacket fuel (.selectWithExternalData query tables) s w
  /-- `Insert`, which waits for the header. -/
  | insertHeader {tableName queryId block n s p u w} : s.state = .idle →
      Runs pingBeforeQuery s () p →
      Runs (sendQuery { Query.empty with text := insertText tableName block, queryId := queryId }
        true) { p with state := .inserting } () u →
      AwaitedHeader n u w → n < fuel → ComesToPacket fuel (.insert tableName queryId block) s w
  /-- `Insert`, which waits for the end. -/
  | insertEnd {tableName queryId block n s u v x w} :
      Runs (insertHeader fuel tableName queryId block) s () u → Runs (sendData block) u () v →
      Runs (sendData .empty) v () x → Waited n x w → n < fuel →
      ComesToPacket fuel (.insert tableName queryId block) s w
  | beginInsert {query n s p u w} : s.state = .idle → query.hasEventCallbacks = false →
      Runs pingBeforeQuery { s with events := some (.parameter query false) } () p →
      Runs (sendQuery query true) { p with
        state := .inserting
        insertBlock := .empty
        events := some (.parameter query true) } () u →
      AwaitedHeader n u w → n < fuel → ComesToPacket fuel (.beginInsert query) s w
  | endInsert {n s u w} : s.state = .inserting → Runs (sendData .empty) s () u → Waited n u w →
      n < fuel → ComesToPacket fuel .endInsert s w

/-! ## What is thrown -/

variable {s t u w : Client υ ω ι ο} {n fuel : Nat} {error : Error}

theorem Skipped.talked (skipped : Skipped n s w) : Talked s w := by
  induction skipped with
  | none s => exact Std.Refl.refl s
  | packet received _ _ ih =>
    exact IsTrans.trans _ _ _ (talks_talked.receivePacket.of_runs received) ih

theorem AwaitedHeader.talked (awaited : AwaitedHeader n s w) : Talked s w := by
  induction awaited with
  | none s => exact Std.Refl.refl s
  | packet processed _ _ ih =>
    exact IsTrans.trans _ _ _ (talks_talked.processPacket.of_runs processed) ih

/-- A call that has returned a block leaves the client as it was but for the streams. -/
theorem talked_of_nextBlock {block : Block} (returned : Runs (nextBlock fuel) s (some block) t) :
    Talked s t := by
  obtain ⟨_, returned⟩ := of_runs_expectState returned
  obtain ⟨u, talked, same⟩ :=
    (allowsReceipts_talked.nextBlockLoop fuel s).of_runs returned.of_onThrow
  rw [same]
  exact talked

theorem Drained.talked (drained : Drained fuel n s w) : Talked s w := by
  induction drained with
  | none s => exact Std.Refl.refl s
  | block returned _ ih => exact IsTrans.trans _ _ _ (talked_of_nextBlock returned) ih

theorem nextBlockLoop_throws (skipped : Skipped n s w) (bound : n < fuel)
    (thrown : Throws receivePacket w error t) : Throws (nextBlockLoop fuel) s error t := by
  induction skipped generalizing fuel with
  | none s =>
    obtain ⟨fuel, rfl⟩ := Nat.exists_eq_succ_of_ne_zero (Nat.ne_of_gt bound)
    exact thrown.bind _
  | @packet n s m u code packet received goesOn _ ih =>
    obtain ⟨fuel, rfl⟩ := Nat.exists_eq_succ_of_ne_zero (Nat.ne_of_gt (Nat.zero_lt_of_lt bound))
    refine received.bind_throws ?_
    have rest := ih (Nat.lt_of_succ_lt_succ bound) thrown
    cases packet with
    | block block =>
      dsimp only
      rw [if_pos (of_decide_eq_true goesOn)]
      exact rest
    | serverException e => cases goesOn
    | endOfStream => cases goesOn
    | profile profile => exact rest
    | progress progress => exact rest
    | pong => exact rest
    | hello => exact rest
    | log block => exact rest
    | tableColumns => exact rest
    | profileEvents block => exact rest

theorem nextBlock_throws (selecting : s.state = .selecting) (skipped : Skipped n s w)
    (bound : n < fuel) (thrown : Throws receivePacket w error t) :
    Throws (nextBlock fuel) s error t.resetState := by
  refine (runs_expectState selecting _).bind_throws ((nextBlockLoop_throws skipped bound thrown).tryCatch ?_)
  exact (runs_modify _ t).bind_throws (throws_throw error _)

theorem drainLoop_throws (drained : Drained fuel n s w) {rounds : Nat} (bound : n < rounds)
    (thrown : Throws (nextBlock fuel) w error t) : Throws (drainLoop fuel rounds) s error t := by
  induction drained generalizing rounds with
  | none s =>
    obtain ⟨rounds, rfl⟩ := Nat.exists_eq_succ_of_ne_zero (Nat.ne_of_gt bound)
    exact thrown.bind _
  | block returned _ ih =>
    obtain ⟨rounds, rfl⟩ := Nat.exists_eq_succ_of_ne_zero (Nat.ne_of_gt (Nat.zero_lt_of_lt bound))
    have rest := ih (Nat.lt_of_succ_lt_succ bound) thrown
    exact returned.bind_throws (rest.bind _)

/-- A packet whose receipt throws is not processed. -/
theorem processPacket_throws (thrown : Throws receivePacket w error t) :
    Throws processPacket w error t :=
  thrown.bind _

theorem awaitHeader_throws (awaited : AwaitedHeader n s w) (bound : n < fuel)
    (thrown : Throws receivePacket w error t) : Throws (awaitHeader fuel) s error t := by
  induction awaited generalizing fuel with
  | none s =>
    obtain ⟨fuel, rfl⟩ := Nat.exists_eq_succ_of_ne_zero (Nat.ne_of_gt bound)
    exact (processPacket_throws thrown).bind _
  | packet processed other _ ih =>
    obtain ⟨fuel, rfl⟩ := Nat.exists_eq_succ_of_ne_zero (Nat.ne_of_gt (Nat.zero_lt_of_lt bound))
    refine processed.bind_throws ?_
    dsimp only
    rw [if_pos rfl, if_neg other]
    exact ih (Nat.lt_of_succ_lt_succ bound) thrown

theorem awaitEnd_throws (waited : Waited n s w) (bound : n < fuel)
    (thrown : Throws receivePacket w error t) : Throws (awaitEnd fuel) s error t := by
  obtain ⟨k, rfl⟩ := Nat.exists_eq_add_of_lt bound
  unfold Throws
  rw [Nat.add_assoc, awaitEnd_of_waited waited]
  exact (processPacket_throws thrown).bind _

theorem endInsert_throws (inserting : s.state = .inserting) (sent : Runs (sendData .empty) s () u)
    (waited : Waited n u w) (bound : n < fuel) (thrown : Throws receivePacket w error t) :
    Throws (endInsert fuel) s error t := by
  refine (runs_get s).bind_throws ?_
  rw [if_pos inserting]
  exact sent.bind_throws ((awaitEnd_throws waited bound thrown).bind _)

variable [SocketFactory ω ι ο]

/-- The operations that receive by `NextBlock`. -/
def Client.Operation.receivesBlocks : Operation υ → Bool
  | .execute _ => true
  | .selectWithExternalData _ _ => true
  | .nextBlock => true
  | _ => false

theorem state_beginExecuteQuery {query : Query υ} {finalize : Bool}
    (began : Runs (beginExecuteQuery query finalize) s () u) : u.state = .selecting := by
  obtain ⟨_, _, _, began⟩ := runs_bind_iff.mp began
  obtain ⟨_, _, _, began⟩ := runs_bind_iff.mp began
  obtain ⟨_, _, ⟨⟩, began⟩ := runs_bind_iff.mp began
  obtain ⟨_, _, _, _, _, rfl⟩ := (along_sendQuery query finalize).of_runs began.of_onThrow
  rfl

omit [Source Error ι] [Output Error ο] [Hashing] [Codec] [SocketFactory ω ι ο] in
theorem Talked.state_eq (talked : Talked s t) : t.state = s.state := by
  obtain ⟨_, _, _, _, _, rfl⟩ := talked
  rfl

omit [SocketFactory ω ι ο] in
theorem ComesToNext.talked (comes : ComesToNext fuel u w) : Talked u w := by
  obtain ⟨m, n, v, drained, _, skipped, _⟩ := comes
  exact IsTrans.trans _ _ _ drained.talked skipped.talked

omit [SocketFactory ω ι ο] in
theorem ComesToNext.drain_throws (comes : ComesToNext fuel u w) (selecting : u.state = .selecting)
    (thrown : Throws receivePacket w error t) : Throws (drain fuel) u error t.resetState := by
  obtain ⟨m, n, v, drained, blocks, skipped, packets⟩ := comes
  have selecting : v.state = .selecting := drained.talked.state_eq.trans selecting
  exact drainLoop_throws drained blocks (nextBlock_throws selecting skipped packets thrown)

theorem options_insertHeader {tableName queryId : Bytes} {block : Block}
    (began : Runs (insertHeader fuel tableName queryId block) s () u) : u.options = s.options := by
  have allows := allowsOperations_keepsIterator (υ := υ) (ω := ω)
  obtain ⟨_, _, ⟨⟩, began⟩ := runs_bind_iff.mp began
  dsimp only at began
  split at began
  · cases began
  · refine (Along.of_runs (R := KeepsIterator) ?_ began).1
    refine (along_expectState _ _).bind fun _ =>
      (allows.toAllowsRetries.pingBeforeQuery allows.talks).bind fun _ =>
      (along_modify fun s => allows.sessions s .inserting s.query s.events s.insertBlock).bind
      fun _ => ((along_sendQuery _ _).mono allows.talks).bind fun _ =>
      ((along_awaitHeader fuel).mono allows.talks).bind fun header => ?_
    split
    · exact along_pure _
    · exact along_throw _

/-- The options are those with which the operation was called. -/
theorem ComesToPacket.options_eq {op : Client.Operation υ} (comes : ComesToPacket fuel op s w) :
    w.options = s.options := by
  have begins {query : Query υ} {finalize : Bool} {s u : Client υ ω ι ο}
      (began : Runs (beginExecuteQuery query finalize) s () u) : u.options = s.options :=
    ((allowsOperations_keepsIterator.toOperates.beginExecuteQuery query finalize).of_runs began).1
  have pings {s p : Client υ ω ι ο} (pinged : Runs pingBeforeQuery s () p) :
      p.options = s.options :=
    ((allowsOperations_keepsIterator.toAllowsRetries.pingBeforeQuery
      allowsOperations_keepsIterator.talks).of_runs pinged).1
  have queries {query : Query υ} {s u : Client υ ω ι ο} (sent : Runs (sendQuery query true) s () u) :
      u.options = s.options :=
    ((along_sendQuery query true).of_runs sent).options_eq
  have sends {block : Block} {s u : Client υ ω ι ο} (sent : Runs (sendData block) s () u) :
      u.options = s.options :=
    ((along_sendData block).of_runs sent).options_eq
  cases comes with
  | nextBlock _ skipped _ => exact skipped.talked.options_eq
  | execute began next => exact next.talked.options_eq.trans (begins began)
  | @selectWithExternalData _ tables _ _ _ _ _ began sent next =>
    have talked := ((along_sendExternalData tables).bind fun _ => along_finalizeQuery).of_runs sent
    exact next.talked.options_eq.trans (talked.options_eq.trans (begins began))
  | insertHeader _ pinged sent awaited _ =>
    have kept := pings pinged
    exact awaited.talked.options_eq.trans ((queries sent).trans kept)
  | @insertEnd tableName queryId block _ _ _ _ _ _ began sent marked waited _ =>
    have headed : _ = s.options := options_insertHeader began
    exact waited.talked.options_eq.trans ((sends marked).trans ((sends sent).trans headed))
  | beginInsert _ _ pinged sent awaited _ =>
    have kept := pings pinged
    exact awaited.talked.options_eq.trans ((queries sent).trans kept)
  | endInsert _ sent waited _ => exact waited.talked.options_eq.trans (sends sent)

/-- What the receipt of the packet throws is what the operation throws; the client is idle exactly
after the operations that receive by `NextBlock`. -/
theorem ComesToPacket.throws {op : Client.Operation υ} (comes : ComesToPacket fuel op s w)
    (thrown : Throws receivePacket w error t) (same : t.state = w.state) :
    ∃ ended, Throws (perform fuel op) s error ended ∧ ended.input = t.input ∧
      (ended.state = .idle ↔ op.receivesBlocks = true) := by
  have stays {ended : Client υ ω ι ο} (inserting : ended.state = .inserting) :
      ended.state = .idle ↔ false = true := by
    rw [inserting]
    exact ⟨nofun, nofun⟩
  cases comes with
  | nextBlock selecting skipped bound =>
    exact ⟨t.resetState, (nextBlock_throws selecting skipped bound thrown).bind _, rfl,
      fun _ => rfl, fun _ => rfl⟩
  | execute began next =>
    exact ⟨t.resetState, began.bind_throws
      (next.drain_throws (state_beginExecuteQuery began) thrown), rfl, fun _ => rfl, fun _ => rfl⟩
  | @selectWithExternalData query tables _ _ _ _ supported began sent next =>
    have talked := ((along_sendExternalData tables).bind fun _ => along_finalizeQuery).of_runs sent
    have selecting := talked.state_eq.trans (state_beginExecuteQuery began)
    refine ⟨t.resetState, ?_, rfl, fun _ => rfl, fun _ => rfl⟩
    refine (runs_get s).bind_throws ?_
    dsimp only
    rw [if_neg (Nat.not_lt_of_le supported)]
    exact began.bind_throws ((sent.tryCatch _).bind_throws (next.drain_throws selecting thrown))
  | @insertHeader tableName queryId block _ _ p _ _ idle pinged sent awaited bound =>
    have inserting : t.state = .inserting := same.trans (awaited.talked.state_eq.trans
      ((along_sendQuery _ _).of_runs sent).state_eq)
    refine ⟨t, Throws.bind ((runs_get s).bind_throws ?_) _, rfl, stays inserting⟩
    dsimp only
    rw [if_neg (by rw [idle]; exact State.noConfusion)]
    refine (runs_expectState idle _).bind_throws (pinged.bind_throws
      ((runs_modify _ p).bind_throws (sent.bind_throws ?_)))
    exact (awaitHeader_throws awaited bound thrown).bind _
  | @insertEnd tableName queryId block _ _ _ _ _ _ began sent marked waited bound =>
    have began' : Runs ((InsertSession.atOnce (υ := υ) tableName queryId block).begin fuel) s () _ :=
      began
    have inserting := ((along_sendData _).of_runs sent).state_eq.trans
      (InsertSession.state_begin began')
    have ends := same.trans (waited.talked.state_eq.trans
      (((along_sendData _).of_runs marked).state_eq.trans inserting))
    refine ⟨t, Throws.bind ?_ _, rfl, stays ends⟩
    rw [insert_eq]
    exact began.bind_throws (sent.bind_throws
      (endInsert_throws inserting marked waited bound thrown))
  | @beginInsert query _ _ p _ _ idle quiet pinged sent awaited bound =>
    have inserting : t.state = .inserting := same.trans (awaited.talked.state_eq.trans
      ((along_sendQuery _ _).of_runs sent).state_eq)
    have body : Throws (beginInsertBody fuel query)
        { s with events := some (.parameter query false) } error t :=
      pinged.bind_throws ((runs_modify _ p).bind_throws (sent.bind_throws
        ((awaitHeader_throws awaited bound thrown).bind _)))
    refine ⟨{ t with events := none }, Throws.bind ?_ _, rfl, stays inserting⟩
    refine (runs_expectState idle _).bind_throws ?_
    rw [if_neg (by rw [quiet]; exact Bool.false_ne_true)]
    exact (runs_modify _ s).bind_throws (Throws.bind (body.tryCatch
      ((runs_modify _ t).bind_throws (throws_throw error _))) _)
  | endInsert inserting sent waited bound =>
    have ends := same.trans (waited.talked.state_eq.trans
      (((along_sendData _).of_runs sent).state_eq.trans inserting))
    exact ⟨t, (endInsert_throws inserting sent waited bound thrown).bind _, rfl, stays ends⟩

/-! ## An exception of the server -/

/-- The callback for exceptions, if there is one, throws nothing else. -/
def Client.PassesOn (w : Client υ ω ι ο) (e : Exception) : Prop :=
  ∀ receive, w.exceptionCallback = some receive → ∀ error user,
    Throws (receive e) w.user error user → error = .serverException e

omit [SocketFactory ω ι ο] in
theorem receivePacket_exception_throws {e : Exception} {rest : ι} (arrives : w.ExceptionArrives e rest)
    (rethrows : w.options.rethrowExceptions = true) :
    ∃ error t, Throws receivePacket w error t ∧ t.state = w.state ∧ t.input = some rest ∧
      (error = .serverException e ↔ w.PassesOn e) := by
  -- Whatever the callback has done to the state of the user, the exception is thrown after it.
  have rethrown {user : υ} (notified : Runs (notify Query.exceptionCb e)
      { w with input := some rest } () { w with input := some rest, user := user }) :
      Throws receivePacket w (.serverException e) { w with input := some rest, user := user } := by
    unfold Throws
    rw [receivePacket_of_exception arrives, notified.bind_eq]
    refine (runs_get _).bind_throws ?_
    dsimp only
    rw [if_pos rethrows]
    exact throws_throw _ _
  cases has : w.exceptionCallback with
  | none =>
    have notified : Runs (notify Query.exceptionCb e) { w with input := some rest } ()
        { w with input := some rest } := by
      unfold Runs
      rw [notify_exceptionCb, show exceptionCallback { w with input := some rest } = none
        from has]
      rfl
    refine ⟨_, _, rethrown notified, rfl, rfl, fun _ receive some => ?_, fun _ => rfl⟩
    rw [has] at some
    cases some
  | some receive =>
    have asks : notify Query.exceptionCb e { w with input := some rest } =
        (do let _ ← callback (receive e); pure () : ClientM υ ω ι ο Unit)
          { w with input := some rest } := by
      rw [notify_exceptionCb, show exceptionCallback { w with input := some rest } =
        some receive from has]
    cases outcome : receive e w.user with
    | ok _ user =>
      have called : Runs (callback (receive e)) { w with input := some rest } ()
          { w with input := some rest, user := user } := Runs.zoom outcome
      have notified : Runs (notify Query.exceptionCb e) { w with input := some rest } ()
          { w with input := some rest, user := user } :=
        asks.trans (called.bind (runs_pure () _))
      refine ⟨_, _, rethrown notified, rfl, rfl, fun _ receive' same error user' thrown => ?_,
        fun _ => rfl⟩
      rw [has] at same
      cases same
      cases outcome.symm.trans thrown
    | error error user =>
      have called : Throws (callback (receive e)) { w with input := some rest } error
          { w with input := some rest, user := user } := Throws.zoom outcome
      have notified : Throws (notify Query.exceptionCb e) { w with input := some rest } error
          { w with input := some rest, user := user } :=
        asks.trans (called.bind _)
      have thrown : Throws receivePacket w error { w with input := some rest, user := user } :=
        (receivePacket_of_exception arrives).trans (notified.bind _)
      refine ⟨error, _, thrown, rfl, rfl, ?_, fun passes => passes receive has error user outcome⟩
      intro same receive' same' error' user' thrown'
      rw [has] at same'
      cases same'
      cases outcome.symm.trans thrown'
      exact same

/-- A server exception ends the operation, with the client idle and the input behind the response,
exactly if the operation receives by `NextBlock` and no callback throws something else. -/
theorem exception_ends_iff {op : Client.Operation υ} {e : Exception} {rest : ι}
    (comes : ComesToPacket fuel op s w) (arrives : w.ExceptionArrives e rest)
    (rethrows : s.options.rethrowExceptions = true) :
    (∃ t, Throws (perform fuel op) s (.serverException e) t ∧ t.state = .idle ∧
        t.input = some rest) ↔
      op.receivesBlocks = true ∧ w.PassesOn e := by
  rw [← comes.options_eq] at rethrows
  obtain ⟨error, t, thrown, state, input, passes⟩ := receivePacket_exception_throws arrives rethrows
  obtain ⟨ended, performed, sameInput, idle⟩ := comes.throws thrown state
  constructor
  · rintro ⟨t', performed', idle', _⟩
    obtain ⟨rfl, rfl⟩ : error = .serverException e ∧ ended = t' := by
      cases performed.symm.trans performed'
      exact ⟨rfl, rfl⟩
    exact ⟨idle.mp idle', passes.mp rfl⟩
  · rintro ⟨receives, quiet⟩
    rw [passes.mpr quiet] at performed
    exact ⟨ended, performed, idle.mpr receives, sameInput.trans input⟩

end Exceptions

/-! ## Runs -/

/-- A server that answers the first request with an exception. -/
def failingServer : Script :=
  ⟨[closedAfter (oldHello 0 ++ [2] ++ exceptionBody sampleException)]⟩

theorem passesOn_of_none {υ ω ι ο : Type} {w : Client υ ω ι ο}
    (silent : w.exceptionCallback.isNone = true) (e : Exception) : w.PassesOn e := by
  intro receive has
  rw [has] at silent
  cases silent

/-- A query that the server rejects. -/
theorem exception_ends_sampleQuery :
    letI := lengthHashing
    letI : Codec := storingCodec
    ∃ client e rest t, Client.create sampleOptions failingServer () = .ok client ∧
      (after (beginExecuteQuery sampleQuery true) client).ExceptionArrives e rest ∧
      Throws (perform 5 (.execute sampleQuery)) client (.serverException e) t ∧ t.state = .idle ∧
      t.input = some rest := by
  let _ := lengthHashing
  let _ : Codec := storingCodec
  let begins := beginExecuteQuery (ω := Script) sampleQuery true
  have holds : (Client.create sampleOptions failingServer ()).toOption.any (fun client =>
      returnsFrom begins client = true ∧ (after begins client).exceptionNext = true ∧
      client.options.rethrowExceptions = true ∧
      (after begins client).exceptionCallback.isNone = true) = true := by
    decide +kernel
  obtain ⟨client, created, began, next, rethrows, silent⟩ := exists_of_any holds
  obtain ⟨_, began⟩ := runs_of_returnsFrom began
  obtain ⟨e, rest, arrives⟩ := Client.exceptionArrives_of_next next
  have comes : ComesToPacket 5 (.execute sampleQuery) client (after begins client) :=
    .execute began ⟨0, 0, _, .none _, by decide, .none _, by decide⟩
  obtain ⟨t, thrown, idle, input⟩ := (exception_ends_iff comes arrives rethrows).mpr
    ⟨rfl, passesOn_of_none silent e⟩
  exact ⟨client, e, rest, t, created, arrives, thrown, idle, input⟩

/-- An insert that the server rejects leaves a client that refuses the next query. -/
theorem not_idle_numberBlock :
    letI := lengthHashing
    letI : Codec := storingCodec
    ∃ client w e rest t, Client.create sampleOptions failingServer () = .ok client ∧
      client.options.rethrowExceptions = true ∧
      ComesToPacket 5 (.insert (ascii "t") [] numberBlock) client w ∧ w.ExceptionArrives e rest ∧
      Throws (perform 5 (.insert (ascii "t") [] numberBlock)) client (.serverException e) t ∧
      t.state ≠ .idle ∧
      Throws (perform 5 (.execute sampleQuery)) t (.validationError (ascii
        "cannot execute query while executing another operation")) t := by
  let _ := lengthHashing
  let _ : Codec := storingCodec
  let pings := pingBeforeQuery (υ := Unit) (ω := Script)
  let sends : ClientM Unit Script ScriptedInput (BufferedOutput Sink) Unit :=
    sendQuery { Query.empty with text := insertText (ascii "t") numberBlock, queryId := [] } true
  let pinged := fun client : Client Unit Script ScriptedInput (BufferedOutput Sink) =>
    { after pings client with state := .inserting }
  have holds : (Client.create sampleOptions failingServer ()).toOption.any (fun client =>
      client.options.rethrowExceptions = true ∧ client.state = .idle ∧
      returnsFrom pings client = true ∧ returnsFrom sends (pinged client) = true ∧
      (after sends (pinged client)).exceptionNext = true ∧
      (after sends (pinged client)).options.rethrowExceptions = true ∧
      (after sends (pinged client)).exceptionCallback.isNone = true) = true := by
    decide +kernel
  obtain ⟨client, created, rethrows, idle, pings, sent, next, rethrows', silent⟩ :=
    exists_of_any holds
  obtain ⟨_, pings⟩ := runs_of_returnsFrom pings
  obtain ⟨_, sent⟩ := runs_of_returnsFrom sent
  obtain ⟨e, rest, arrives⟩ := Client.exceptionArrives_of_next next
  have comes : ComesToPacket 5 (.insert (ascii "t") [] numberBlock) client
      (after sends (pinged client)) :=
    .insertHeader idle pings sent (.none _) (by decide)
  obtain ⟨error, _, received, state, _, passes⟩ := receivePacket_exception_throws arrives rethrows'
  obtain ⟨t, thrown, _, stays⟩ := comes.throws received state
  rw [passes.mpr (passesOn_of_none silent e)] at thrown
  have busy : t.state ≠ .idle := fun idle => Bool.false_ne_true (stays.mp idle)
  exact ⟨client, _, e, rest, t, created, rethrows, comes, arrives, thrown, busy,
    Throws.bind ((throws_expectState busy _).bind _) _⟩

end ClickHouse
