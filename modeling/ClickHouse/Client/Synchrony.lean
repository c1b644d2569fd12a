import ClickHouse.Client.Exceptions
import ClickHouse.Client.Phases
import ClickHouse.Client.ServerPackets

/-!
# Requests and responses

The client keeps in step with the server: whenever it is idle, it has read the
responses to all its requests up to their last byte, and nothing of what
follows.  What is said is about one connection; a ping that is sent again on
another connection has another response.
-/

namespace ClickHouse

open Kit Ensures

section Synchrony

variable {υ ω ι ο : Type}

/-! ## Sending keeps the input -/

section Sending

variable [Output Error ο] [Hashing] [Codec]

theorem keepsInput_sendBlockData (block : Block) :
    Along KeepsInput (sendBlockData block : ClientM υ ω ι ο Unit) := by
  apply along_get_bind
  intro s
  split
  · split
    · exact along_throw _
    · exact (along_ofExcept _).bind fun _ => along_zoom fun _ _ => rfl
  · exact keepsInput_toOutput _

theorem sends_keepsInput :
    SendsPackets fun α (p : ClientM υ ω ι ο α) => Along KeepsInput p :=
  { looks_along with
    writes := keepsInput_toOutput
    notes := fun _ => keepsInput_note _
    sendsBlock := keepsInput_sendBlockData }

end Sending

/-! ## One connection -/

section Connection

def Event.connects : Event → Bool
  | .connected _ => true
  | _ => false

/-- How often the client has connected. -/
def Client.connects (s : Client υ ω ι ο) : Nat := s.history.countP Event.connects

/-- What is done to a client does not undo that it has connected. -/
def Connects (s t : Client υ ω ι ο) : Prop := s.connects ≤ t.connects

instance : Std.Refl (Connects : Client υ ω ι ο → Client υ ω ι ο → Prop) := ⟨fun _ => Nat.le_refl _⟩

instance : IsTrans (Client υ ω ι ο) Connects := ⟨fun _ _ _ => Nat.le_trans⟩

/-- The connection is the same, and so is what the client knows of it. -/
structure SameConnection (s t : Client υ ω ι ο) : Prop where
  connects : t.connects = s.connects
  format : t.format = s.format
  options : t.options = s.options

theorem SameConnection.trans {s t u : Client υ ω ι ο} (first : SameConnection s t)
    (second : SameConnection t u) : SameConnection s u :=
  ⟨second.connects.trans first.connects, second.format.trans first.format,
    second.options.trans first.options⟩

/-- What an operation notes of itself does not concern the connection. -/
theorem SameConnection.of_session {s t : Client υ ω ι ο} {state : State} {query : Query υ}
    {events : Option (QueryEvents υ)} {block : Block} (same : SameConnection { s with
      state := state, query := query, events := events, insertBlock := block } t) :
    SameConnection s t :=
  ⟨same.connects, same.format, same.options⟩

theorem Worked.sameConnection {s t : Client υ ω ι ο} (worked : Worked s t) : SameConnection s t := by
  rcases worked with ⟨_, _, _, _, _, _, _, notes, rfl⟩
  have none : (notes.map Event.onConnection).countP Event.connects = 0 := by
    rw [List.countP_eq_zero]
    intro event mem
    rcases List.mem_map.mp mem with ⟨what, _, rfl⟩
    cases what <;> exact Bool.false_ne_true
  refine ⟨?_, rfl, rfl⟩
  show (s.history ++ notes.map Event.onConnection).countP Event.connects = _
  rw [List.countP_append, none]
  rfl

theorem Talked.worked {s t : Client υ ω ι ο} (talked : Talked s t) : Worked s t :=
  allowsSessions_worked.talks s t talked

theorem Talked.format_eq {s t : Client υ ω ι ο} (talked : Talked s t) : t.format = s.format :=
  talked.worked.sameConnection.format

/-- There is another connection, or nothing was read from the one there was. -/
def Stays (s t : Client υ ω ι ο) : Prop :=
  s.connects < t.connects ∨ SameConnection s t ∧ KeepsInput s t

theorem Stays.connects {s t : Client υ ω ι ο} (stays : Stays s t) : s.connects ≤ t.connects := by
  rcases stays with more | ⟨same, _⟩
  · exact Nat.le_of_lt more
  · exact Nat.le_of_eq same.connects.symm

instance : Std.Refl (Stays : Client υ ω ι ο → Client υ ω ι ο → Prop) :=
  ⟨fun _ => .inr ⟨⟨rfl, rfl, rfl⟩, rfl⟩⟩

instance : IsTrans (Client υ ω ι ο) Stays where
  trans s t u first second := by
    rcases first with more | ⟨same, keeps⟩
    · exact .inl (Nat.lt_of_lt_of_le more second.connects)
    · rcases second with more | ⟨same', keeps'⟩
      · exact .inl (same.connects ▸ more)
      · exact .inr ⟨same.trans same', IsTrans.trans _ _ _ keeps keeps'⟩

theorem Reconnected.connects_lt {greeted : Bool} {s t : Client υ ω ι ο}
    (reconnected : Reconnected greeted s t) : s.connects < t.connects := by
  rcases reconnected with ⟨_, _, _, _, _, _, rfl⟩
  simp [Client.connects, Event.connects]

variable [Source Error ι] [Output Error ο] [SocketFactory ω ι ο]

theorem resetConnection_connects (s : Client υ ω ι ο) :
    Ensures resetConnection s (fun _ t => s.connects < t.connects) fun _ t => Stays s t := by
  refine (resetConnection_ensures s).imp (fun _ _ => Reconnected.connects_lt) ?_
  rintro _ t (⟨_, rfl⟩ | ⟨_, reconnected⟩)
  · refine .inr ⟨⟨?_, rfl, rfl⟩, rfl⟩
    simp [Client.connects, Event.connects]
  · exact .inl reconnected.connects_lt

theorem allowsRetries_stays : AllowsRetries (Stays : Client υ ω ι ο → Client υ ω ι ο → Prop) where
  sleeps _ := along_zoom fun _ _ => .inr ⟨⟨rfl, rfl, rfl⟩, rfl⟩
  endpoints _ _ := .inr ⟨⟨rfl, rfl, rfl⟩, rfl⟩
  nexts := along_nextEndpoint fun _ _ => .inr ⟨⟨rfl, rfl, rfl⟩, rfl⟩
  resets := along_of_ensures fun s => (resetConnection_connects s).imp (fun _ _ => .inl)
    fun _ _ stays => stays

theorem allowsOperations_connects :
    AllowsOperations (Connects : Client υ ω ι ο → Client υ ω ι ο → Prop) where
  sleeps n := (allowsRetries_stays.sleeps n).mono fun _ _ => Stays.connects
  endpoints s endpoint := (allowsRetries_stays.endpoints s endpoint).connects
  nexts := allowsRetries_stays.nexts.mono fun _ _ => Stays.connects
  resets := allowsRetries_stays.resets.mono fun _ _ => Stays.connects
  talks _ _ talked := Nat.le_of_eq talked.worked.sameConnection.connects.symm
  sessions _ _ _ _ _ := Nat.le_refl _

/-- `ResetConnectionEndpoint` that returns has connected. -/
theorem resetConnectionEndpoint_connects (s : Client υ ω ι ο) :
    Ensures resetConnectionEndpoint s (fun _ t => s.connects < t.connects) fun _ _ => True := by
  have round (lastEndpoint : Endpoint) {again : Error → ClientM υ ω ι ο Unit} (s : Client υ ω ι ο)
      (goesOn : ∀ e t, Ensures (again e) t (fun _ u => t.connects < u.connects) fun _ _ => True) :
      Ensures (resetEndpointRound lastEndpoint again) s (fun _ t => s.connects < t.connects)
        fun _ _ => True := by
    refine tryCatch ((resetConnection_connects s).imp (fun _ _ more => more) ?_)
    intro e t stays
    split
    · refine bind ((nextEndpoint_ensures t).imp ?_ fun _ _ _ => trivial)
      intro endpoint u moved
      have same : u.connects = t.connects := by rw [moved.1]; rfl
      refine ensures_modify_bind ((goesOn e _).imp ?_ fun _ _ _ => trivial)
      intro _ v more
      exact Nat.lt_of_le_of_lt (same ▸ stays.connects) more
    · exact ensures_modify_bind (ensures_throw trivial)
  have loop (lastEndpoint : Endpoint) (remaining : Nat) (s : Client υ ω ι ο) :
      Ensures (resetEndpointLoop lastEndpoint remaining) s (fun _ t => s.connects < t.connects)
        fun _ _ => True := by
    induction remaining generalizing s with
    | zero => exact round lastEndpoint s fun _ _ => ensures_modify_bind (ensures_throw trivial)
    | succ remaining ih => exact round lastEndpoint s fun _ t => ih t
  exact ensures_get_bind (loop _ _ s)

/-! ### Retries

`RetryGuard` that returns has called its function at last in a state that retries lead to, if the
function itself leads to such a state whenever it throws a `std::system_error`. -/

/-- From a state that `s` leads to the function has returned. -/
def CalledLast (R : Client υ ω ι ο → Client υ ω ι ο → Prop) (func : ClientM υ ω ι ο Unit)
    (s t : Client υ ω ι ο) : Prop :=
  ∃ u, R s u ∧ Runs func u () t

section Retries

variable {R : Client υ ω ι ο → Client υ ω ι ο → Prop} {func : ClientM υ ω ι ο Unit}
  {s u : Client υ ω ι ο}

variable (calls : ∀ u, R s u → Ensures func u (fun _ _ => True)
  fun e v => e.isSystemError = true → R s v)

include calls

omit [Source Error ι] [Output Error ο] [SocketFactory ω ι ο] in
theorem func_calls (moved : R s u) :
    Ensures func u (fun _ t => CalledLast R func s t) fun e v => e.isSystemError = true → R s v :=
  ((ensures_outcome func u).and (calls u moved)).imp (fun _ _ ran => ⟨u, moved, ran.1⟩)
    fun _ _ thrown => thrown.2

variable [IsTrans (Client υ ω ι ο) R] [Std.Refl R] (allows : AllowsRetries R)

include allows

theorem retryLoop_calls (sendRetries remaining : Nat) (moved : R s u) :
    Ensures (retryLoop func sendRetries remaining) u
      (fun done t => if done then CalledLast R func s t else R s t) fun _ _ => True := by
  have round {again : ClientM υ ω ι ο Bool} {u : Client υ ω ι ο} (moved : R s u)
      (goesOn : ∀ v, R s v → Ensures again v
        (fun done t => if done then CalledLast R func s t else R s t) fun _ _ => True) :
      Ensures (retryRound func sendRetries again) u
        (fun done t => if done then CalledLast R func s t else R s t) fun _ _ => True := by
    refine tryCatch (bind ((func_calls calls moved).imp ?_ ?_))
    · exact fun _ _ ran => ensures_pure ran
    · intro e v thrown
      split
      · rename_i retries
        exact goesOn v (thrown (Bool.and_eq_true_iff.mp retries).1)
      · exact ensures_throw trivial
  induction remaining generalizing u with
  | zero => exact round moved fun v moved => ensures_pure moved
  | succ remaining ih =>
    exact round moved fun v moved => bind
      ((allows.toResets.retryReset.ensures_from moved).imp (fun _ _ moved => ih moved)
        fun _ _ _ => trivial)

omit [Std.Refl R] in
theorem failoverLoop_calls (lastEndpoint : Endpoint) (remaining : Nat) (moved : R s u) :
    Ensures (failoverLoop func lastEndpoint remaining) u (fun _ t => CalledLast R func s t)
      fun _ _ => True := by
  have round {again : Error → ClientM υ ω ι ο Unit} {u : Client υ ω ι ο} (moved : R s u)
      (goesOn : ∀ e v, R s v → Ensures (again e) v (fun _ t => CalledLast R func s t)
        fun _ _ => True) :
      Ensures (failoverRound func lastEndpoint again) u (fun _ t => CalledLast R func s t)
        fun _ _ => True := by
    have reset (n : Nat) := (allows.sleeps n).bind fun _ => allows.nexts.bind fun endpoint =>
      (along_modify fun s => allows.endpoints s endpoint).bind fun _ => allows.resets
    have body : Ensures (do
        let s ← get
        fromFactory (SocketFactory.sleepFor s.options.retryTimeout)
        setEndpoint (← nextEndpoint)
        resetConnection
        func : ClientM υ ω ι ο Unit) u (fun _ t => CalledLast R func s t)
        fun e v => e.isSystemError = true → R s v := by
      have whole := bind (((reset u.options.retryTimeout).ensures_from moved).imp
        (fun _ _ moved => func_calls calls moved) fun _ _ moved _ => moved)
      simp only [bind_assoc] at whole
      exact ensures_get_bind whole
    refine tryCatch (body.imp (fun _ _ ran => ran) ?_)
    intro e v thrown
    split
    · rename_i system
      exact goesOn e v (thrown system)
    · exact ensures_modify_bind (ensures_throw trivial)
  induction remaining generalizing u with
  | zero => exact round moved fun _ _ _ => ensures_modify_bind (ensures_throw trivial)
  | succ remaining ih => exact round moved fun _ _ moved => ih moved

theorem retryGuard_calls (notes : ∀ u : Client υ ω ι ο, R s u →
      R s { u with history := u.history ++ [.called] }) :
    Ensures (retryGuard func) s (fun _ t => CalledLast R func s t) fun _ _ => True := by
  have called (u : Client υ ω ι ο) (moved : R s u) := calls _ (notes u moved)
  have noted (u : Client υ ω ι ο) (moved : R s u) : Ensures (calling func) u (fun _ _ => True)
      fun e v => e.isSystemError = true → R s v := ensures_modify_bind (called u moved)
  have last {t : Client υ ω ι ο} (ran : CalledLast R (calling func) s t) : CalledLast R func s t := by
    obtain ⟨u, moved, run⟩ := ran
    obtain ⟨_, _, ⟨⟩, run⟩ := runs_bind_iff.mp run
    exact ⟨_, notes u moved, run⟩
  apply ensures_get_bind
  refine bind ((retryLoop_calls noted allows _ _ (Std.Refl.refl s)).imp ?_
    fun _ _ _ => trivial)
  intro done t ended
  cases done with
  | true => exact ensures_pure (last ended)
  | false =>
    exact ensures_get_bind ((failoverLoop_calls noted allows _ _ ended).imp (fun _ _ ran => last ran)
      fun _ _ _ => trivial)

end Retries

end Connection

/-! ## Reading a response -/

/-- The blocks of the packets that have at least one column. -/
def shownBlocks : List ServerPacket → List Block
  | [] => []
  | .data _ block :: packets =>
    if block.columns.length = 0 then shownBlocks packets else block :: shownBlocks packets
  | _ :: packets => shownBlocks packets

section Responses

variable [DivisibleSource Error ι] [Output Error ο] [Hashing] [Codec] {last : ι}
  {s t : Client υ ω ι ο} {packets : List ServerPacket} {ending : ResponseEnd} {now rest : Bytes}
  {fuel code : Nat}

/-- What one more packet of a response is. -/
theorem receivePacket_response {received : DecodedPacket}
    (isResponse : IsResponse s.format packets ending now)
    (reports : dbmsMinRevisionWithTotalRowsInProgress ≤ s.format.revision)
    (fed : s.Fed last (now ++ rest)) (run : Runs receivePacket s (code, received) t) :
    Talked s t ∧
      (packets = [] ∧ received.ends = true ∧ t.Fed last rest ∨
        ∃ packet later bytes, packets = packet :: later ∧
          DecodedPacket.Is packet received ∧
          IsResponse t.format later ending bytes ∧ t.Fed last (bytes ++ rest)) := by
  have talked := talks_talked.receivePacket.of_runs run
  refine ⟨talked, ?_⟩
  cases isResponse with
  | ends encodes =>
    obtain ⟨ends, fed⟩ := receivePacket_end_fed encodes fed run
    exact .inl ⟨rfl, ends, fed⟩
  | packet encodes others =>
    rw [List.append_assoc] at fed
    obtain ⟨isPacket, fed⟩ := receivePacket_fed encodes reports fed run
    exact .inr ⟨_, _, _, rfl, isPacket, talked.format_eq ▸ others, fed⟩

/-- The loop of `NextBlock` returns the next block that is shown, or ends the response. -/
theorem nextBlockLoop_fed {result : Option Block}
    (isResponse : IsResponse s.format packets ending now)
    (reports : dbmsMinRevisionWithTotalRowsInProgress ≤ s.format.revision)
    (fed : s.Fed last (now ++ rest)) (run : Runs (nextBlockLoop fuel) s result t) :
    result = none ∧ shownBlocks packets = [] ∧ t.Fed last rest ∧ t.state = .idle ∨
      ∃ block later bytes, result = some block ∧ shownBlocks packets = block :: shownBlocks later ∧
        IsResponse t.format later ending bytes ∧ t.Fed last (bytes ++ rest) := by
  induction fuel generalizing s packets now with
  | zero => cases run
  | succ fuel ih =>
    obtain ⟨⟨code, received⟩, u, receives, run⟩ := runs_bind_iff.mp run
    obtain ⟨talked, ended | ⟨packet, later, bytes, rfl, isPacket, others, fed⟩⟩ :=
      receivePacket_response isResponse reports fed receives
    · obtain ⟨rfl, ends, fed⟩ := ended
      cases received with
      | serverException e =>
        obtain ⟨_, ⟨⟩, rfl⟩ := runs_bind_pure_iff.mp run
        exact .inl ⟨rfl, rfl, fed, rfl⟩
      | endOfStream =>
        obtain ⟨_, ⟨⟩, rfl⟩ := runs_bind_pure_iff.mp run
        exact .inl ⟨rfl, rfl, fed, rfl⟩
      | block block => cases ends
      | profile profile => cases ends
      | progress progress => cases ends
      | pong => cases ends
      | hello => cases ends
      | log block => cases ends
      | tableColumns => cases ends
      | profileEvents block => cases ends
    · -- The packets that are passed over show nothing.
      have goesOn (run : Runs (nextBlockLoop fuel) u result t) :
          result = none ∧ shownBlocks later = [] ∧ t.Fed last rest ∧ t.state = .idle ∨
            ∃ block later' bytes, result = some block ∧
              shownBlocks later = block :: shownBlocks later' ∧
              IsResponse t.format later' ending bytes ∧ t.Fed last (bytes ++ rest) :=
        ih others (talked.format_eq ▸ reports) fed run
      cases isPacket with
      | @data name block =>
        dsimp only at run
        by_cases none : block.columns.length = 0
        · rw [if_pos none] at run
          rw [shownBlocks, if_pos none]
          exact goesOn run
        · rw [if_neg none] at run
          obtain ⟨rfl, rfl⟩ := runs_pure_iff.mp run
          rw [shownBlocks, if_neg none]
          exact .inr ⟨block, later, bytes, rfl, rfl, others, fed⟩
      | progress => exact goesOn run
      | profileInfo => exact goesOn run
      | log => exact goesOn run
      | tableColumns => exact goesOn run
      | profileEvents => exact goesOn run

theorem nextBlock_fed {result : Option Block} (isResponse : IsResponse s.format packets ending now)
    (reports : dbmsMinRevisionWithTotalRowsInProgress ≤ s.format.revision)
    (fed : s.Fed last (now ++ rest)) (run : Runs (nextBlock fuel) s result t) :
    result = none ∧ shownBlocks packets = [] ∧ t.Fed last rest ∧ t.state = .idle ∨
      ∃ block later bytes, result = some block ∧ shownBlocks packets = block :: shownBlocks later ∧
        IsResponse t.format later ending bytes ∧ t.Fed last (bytes ++ rest) := by
  obtain ⟨_, run⟩ := of_runs_expectState run
  exact nextBlockLoop_fed isResponse reports fed run.of_onThrow

/-- All blocks that are still to be shown are returned before the response ends. -/
theorem drain_fed {blocks : List Block} (isResponse : IsResponse s.format packets ending now)
    (reports : dbmsMinRevisionWithTotalRowsInProgress ≤ s.format.revision)
    (fed : s.Fed last (now ++ rest)) (run : Runs (drain fuel) s blocks t) :
    blocks = shownBlocks packets ∧ t.Fed last rest ∧ t.state = .idle := by
  have loop (rounds : Nat) {s : Client υ ω ι ο} {packets : List ServerPacket} {now : Bytes}
      {blocks : List Block} (isResponse : IsResponse s.format packets ending now)
      (reports : dbmsMinRevisionWithTotalRowsInProgress ≤ s.format.revision)
      (fed : s.Fed last (now ++ rest)) (run : Runs (drainLoop fuel rounds) s blocks t) :
      blocks = shownBlocks packets ∧ t.Fed last rest ∧ t.state = .idle := by
    induction rounds generalizing s packets now blocks with
    | zero => cases run
    | succ rounds ih =>
      obtain ⟨result, u, returned, run⟩ := runs_bind_iff.mp run
      rcases nextBlock_fed isResponse reports fed returned with
        ⟨rfl, nothing, fed, idle⟩ | ⟨block, later, bytes, rfl, shown, others, fed⟩
      · obtain ⟨rfl, rfl⟩ := runs_pure_iff.mp run
        exact ⟨nothing.symm, fed, idle⟩
      · have format := (talked_of_nextBlock returned).format_eq
        obtain ⟨more, drained, rfl⟩ := runs_bind_pure_iff.mp run
        obtain ⟨rfl, fed, idle⟩ := ih others (format ▸ reports) fed drained
        exact ⟨shown.symm, fed, idle⟩
  exact loop fuel isResponse reports fed run

/-- What one more processed packet of a response is. -/
theorem processPacket_response {more : Bool} (isResponse : IsResponse s.format packets ending now)
    (reports : dbmsMinRevisionWithTotalRowsInProgress ≤ s.format.revision)
    (fed : s.Fed last (now ++ rest)) (run : Runs processPacket s (code, more) t) :
    Talked s t ∧
      (more = false ∧ t.Fed last rest ∨ more = true ∧
        ∃ later bytes, IsResponse t.format later ending bytes ∧ t.Fed last (bytes ++ rest)) := by
  obtain ⟨⟨code', received⟩, receives, same⟩ := runs_bind_pure_iff.mp run
  obtain ⟨rfl, rfl⟩ := Prod.mk.inj same
  obtain ⟨talked, ⟨_, ends, fed⟩ | ⟨packet, later, bytes, _, isPacket, others, fed⟩⟩ :=
    receivePacket_response isResponse reports fed receives
  · exact ⟨talked, .inl ⟨by rw [ends]; rfl, fed⟩⟩
  · refine ⟨talked, .inr ⟨?_, later, bytes, others, fed⟩⟩
    cases isPacket with
    | _ => rfl

/-- A header that was found is followed by the rest of the response. -/
theorem awaitHeader_fed (isResponse : IsResponse s.format packets ending now)
    (reports : dbmsMinRevisionWithTotalRowsInProgress ≤ s.format.revision)
    (fed : s.Fed last (now ++ rest)) (run : Runs (awaitHeader fuel) s true t) :
    ∃ later bytes, IsResponse t.format later ending bytes ∧ t.Fed last (bytes ++ rest) := by
  induction fuel generalizing s packets now with
  | zero => cases run
  | succ fuel ih =>
    obtain ⟨⟨code, more⟩, u, processed, run⟩ := runs_bind_iff.mp run
    obtain ⟨talked, ⟨rfl, _⟩ | ⟨rfl, later, bytes, others, fed⟩⟩ :=
      processPacket_response isResponse reports fed processed
    · cases run
    · dsimp only at run
      rw [if_pos rfl] at run
      split at run
      · obtain ⟨_, rfl⟩ := runs_pure_iff.mp run
        exact ⟨later, bytes, others, fed⟩
      · exact ih others (talked.format_eq ▸ reports) fed run

/-- At the end of an insert its whole response was read. -/
theorem awaitEnd_fed (isResponse : IsResponse s.format packets ending now)
    (reports : dbmsMinRevisionWithTotalRowsInProgress ≤ s.format.revision)
    (fed : s.Fed last (now ++ rest)) (run : Runs (awaitEnd fuel) s code t) : t.Fed last rest := by
  induction fuel generalizing s packets now with
  | zero => cases run
  | succ fuel ih =>
    obtain ⟨⟨code', more⟩, u, processed, run⟩ := runs_bind_iff.mp run
    obtain ⟨talked, ⟨rfl, fed⟩ | ⟨rfl, later, bytes, others, fed⟩⟩ :=
      processPacket_response isResponse reports fed processed
    · obtain ⟨_, rfl⟩ := runs_pure_iff.mp run
      exact fed
    · exact ih others (talked.format_eq ▸ reports) fed run

theorem endInsert_fed (inserting : s.state = .inserting)
    (isResponse : IsResponse s.format packets ending now)
    (reports : dbmsMinRevisionWithTotalRowsInProgress ≤ s.format.revision)
    (fed : s.Fed last (now ++ rest)) (run : Runs (endInsert fuel) s () t) :
    t.Fed last rest ∧ t.state = .idle := by
  obtain ⟨_, _, ⟨⟩, run⟩ := runs_bind_iff.mp run
  rw [if_pos inserting] at run
  obtain ⟨_, u, sent, run⟩ := runs_bind_iff.mp run
  obtain ⟨eosPacket, v, awaited, run⟩ := runs_bind_iff.mp run
  have format := ((along_sendData .empty).of_runs sent).format_eq
  have fed := fed.of_keepsInput ((sends_keepsInput.sendData .empty).of_runs sent)
  have ended := awaitEnd_fed (format ▸ isResponse) (format ▸ reports) fed awaited
  obtain ⟨_, _, ⟨⟩, run⟩ := runs_bind_iff.mp run
  dsimp only at run
  split at run
  · cases run
  · cases run
    exact ⟨ended, rfl⟩

omit [Output Error ο] [Hashing] [Codec] in
theorem runs_fromInput_fed {α : Type} {p : EStateM Error ι α} {a : α} {bytes : Bytes}
    (decodes : Decodes p bytes a) (fed : s.Fed last (bytes ++ rest)) :
    ∃ t, Runs (fromInput p) s a t ∧ t.Fed last rest := by
  obtain ⟨input, arrives, feeds⟩ := fed
  obtain ⟨m, reads, feeds⟩ := decodes feeds
  exact ⟨_, runs_fromInput arrives reads, m, rfl, feeds⟩

theorem runs_processPacket_pong (fed : s.Fed last (writeUInt64 ServerCode.pong.code ++ rest)) :
    ∃ t, Runs processPacket s (ServerCode.pong.code, true) t ∧ t.Fed last rest := by
  have small : ServerCode.pong.code < 2 ^ 64 := by decide
  obtain ⟨t, typed, fed⟩ := runs_fromInput_fed (decodes_readUInt64 small) fed
  have received : Runs receivePacket s (ServerCode.pong.code, .pong) t :=
    (runs_orProtocolError_iff.mpr typed).bind ((runs_pure _ t).bind (runs_pure _ t))
  exact ⟨t, received.bind (runs_pure _ t), fed⟩

/-- A ping reads the Pong, unless it throws before it reads anything. -/
theorem ping_ensures_fed (fed : s.Fed last (writeUInt64 ServerCode.pong.code ++ rest)) :
    Ensures ping s (fun _ t => t.Fed last rest) fun _ t => KeepsInput s t := by
  -- What is done before the answer is read keeps the input, so that the Pong is still there.
  refine bind (((along_expectState _ _).ensures s).imp ?_ fun _ _ keeps => keeps)
  intro _ _ keeps
  refine bind (((keepsInput_note _).ensures_from keeps).imp ?_ fun _ _ keeps => keeps)
  intro _ _ keeps
  refine bind (((keepsInput_toOutput _).ensures_from keeps).imp ?_ fun _ _ keeps => keeps)
  intro _ _ keeps
  refine bind (((keepsInput_toOutput _).ensures_from keeps).imp ?_ fun _ _ keeps => keeps)
  intro _ u keeps
  obtain ⟨t, processed, fed⟩ := runs_processPacket_pong (fed.of_keepsInput keeps)
  exact of_run processed (ensures_pure fed)

end Responses

end Synchrony

end ClickHouse
