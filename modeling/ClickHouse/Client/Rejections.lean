import ClickHouse.Client.Inserts
import ClickHouse.Client.Responses

/-!
# Inserts that the server rejects

`EndInsert` waits for the packet that ends the response, which is EndOfStream or
Exception.  With `rethrow_exceptions` an Exception is thrown.  Without it the
packet is an end like any other, and only a callback of the current events can
learn of it; a session of `BeginInsert` has none.
-/

namespace ClickHouse

open Kit ServerCode

section Rejections

variable {υ ω ι ο : Type}

/-! ## The packets that end a response -/

/-- The callback for exceptions of the current events. -/
def Client.exceptionCallback (s : Client υ ω ι ο) : Option (Exception → EStateM Error υ Unit) :=
  s.eventQuery.bind Query.exceptionCb

theorem notify_exceptionCb (e : Exception) (s : Client υ ω ι ο) :
    notify Query.exceptionCb e s = (match s.exceptionCallback with
      | none => pure ()
      | some call => do
        let _ ← callback (call e)
        pure () : ClientM υ ω ι ο Unit) s := by
  unfold Client.exceptionCallback
  refine ((runs_get s).bind_eq _).trans ?_
  cases s.eventQuery.bind Query.exceptionCb with
  | none => rfl
  | some call => rfl

theorem Talked.exceptionCallback_eq {s t : Client υ ω ι ο} (talked : Talked s t) :
    t.exceptionCallback = s.exceptionCallback := by
  obtain ⟨_, _, _, _, _, rfl⟩ := talked
  rfl

theorem Talked.options_eq {s t : Client υ ω ι ο} (talked : Talked s t) : t.options = s.options := by
  obtain ⟨_, _, _, _, _, rfl⟩ := talked
  rfl

/-- What `orProtocolError` returns was received. -/
theorem runs_orProtocolError_iff {α : Type} {p : ClientM υ ω ι ο (Option α)} {what : String}
    {s t : Client υ ω ι ο} {a : α} : Runs (orProtocolError p what) s a t ↔ Runs p s (some a) t := by
  constructor
  · intro run
    obtain ⟨value, _, received, run⟩ := runs_bind_iff.mp run
    cases value with
    | none => cases run
    | some value =>
      cases run
      exact received
  · exact fun received => received.bind (runs_pure a t)

/-- A read that returned had an input. -/
theorem of_runs_fromInput {α : Type} {p : EStateM Error ι α} {s t : Client υ ω ι ο} {a : α}
    (run : Runs (fromInput p) s a t) :
    ∃ input rest, s.input = some input ∧ Runs p input a rest ∧ t = { s with input := some rest } := by
  obtain ⟨_, _, ⟨⟩, run⟩ := runs_bind_iff.mp run
  cases arrives : s.input with
  | none =>
    rw [arrives] at run
    cases run
  | some input =>
    rw [arrives] at run
    obtain ⟨rest, read, moved⟩ := run.of_zoom
    exact ⟨input, rest, rfl, read, moved⟩

variable [Source Error ι] [Output Error ο]

/-- A complete Exception packet is next on the input. -/
def Client.ExceptionArrives (s : Client υ ω ι ο) (e : Exception) (rest : ι) : Prop :=
  ∃ input mid, s.input = some input ∧
    Runs readVarint64 input (some exception.code) mid ∧
    Runs readException mid (some e) rest

/-- An EndOfStream packet is next on the input. -/
def Client.EndOfStreamArrives (s : Client υ ω ι ο) (rest : ι) : Prop :=
  ∃ input, s.input = some input ∧ Runs readVarint64 input (some endOfStream.code) rest

variable [Hashing] [Codec]

/-- An Exception packet is handed to the callback, and then thrown or returned. -/
theorem receivePacket_of_exception {s : Client υ ω ι ο} {e : Exception} {rest : ι}
    (arrives : s.ExceptionArrives e rest) :
    receivePacket s = (do
      notify Query.exceptionCb e
      let s ← get
      if s.options.rethrowExceptions then throw (.serverException e)
      else pure (ServerCode.exception.code, .serverException e) :
        ClientM υ ω ι ο (Nat × DecodedPacket)) { s with input := some rest } := by
  obtain ⟨input, mid, hasInput, code, body⟩ := arrives
  have packetType : Runs (orProtocolError (fromInput readVarint64)
      "can't read packet type from input stream") s ServerCode.exception.code
      { s with input := some mid } :=
    runs_orProtocolError_iff.mpr (runs_fromInput hasInput code)
  have decoded : Runs (fromInput readException) { s with input := some mid } (some e)
      { s with input := some rest } := runs_fromInput rfl body
  unfold receivePacket
  rw [packetType.bind_eq]
  dsimp only [ServerCode.code, ServerCode.ofCode]
  unfold receiveBody receiveException receive orProtocolError
  simp only [bind_assoc]
  rw [decoded.bind_eq]
  simp only [bind_assoc, pure_bind]
  refine congrFun (bind_congr (m := EStateM Error (Client υ ω ι ο)) fun _ => bind_congr fun t => ?_) _
  split
  · rfl
  · rfl

theorem processPacket_of_exception {s : Client υ ω ι ο} {e : Exception} {rest : ι}
    (arrives : s.ExceptionArrives e rest) :
    processPacket s = (do
      notify Query.exceptionCb e
      let s ← get
      if s.options.rethrowExceptions then throw (.serverException e)
      else pure (exception.code, false) :
        ClientM υ ω ι ο (Nat × Bool)) { s with input := some rest } := by
  refine (bind_eq_of_eq (receivePacket_of_exception arrives) _).trans ?_
  simp only [bind_assoc]
  refine congrFun (bind_congr (m := EStateM Error (Client υ ω ι ο)) fun _ => bind_congr fun t => ?_) _
  split
  · rfl
  · rfl

/-- Only an Exception or EndOfStream packet is the end of a response. -/
theorem receiveBody_ends (code : ServerCode) (s : Client υ ω ι ο) :
    Ensures (receiveBody code) s
      (fun packet _ => packet.ends = true → code = .exception ∨ code = .endOfStream)
      fun _ _ => True := by
  have goesOn {α : Type} (p : ClientM υ ω ι ο α) (f : α → DecodedPacket)
      (more : ∀ a, (f a).ends = false) :
      Ensures (do let a ← p; pure (f a)) s
        (fun packet _ => packet.ends = true → code = .exception ∨ code = .endOfStream)
        fun _ _ => True := by
    refine Ensures.bind ((ensures_outcome p s).imp ?_ fun _ _ _ => trivial)
    intro a t _
    refine ensures_pure fun ends => ?_
    rw [more a] at ends
    cases ends
  cases code with
  | exception => exact ensures_of (fun _ _ _ _ => .inl rfl) fun _ _ _ => trivial
  | endOfStream => exact ensures_of (fun _ _ _ _ => .inr rfl) fun _ _ _ => trivial
  | data => exact goesOn _ _ fun _ => rfl
  | profileInfo => exact goesOn _ _ fun _ => rfl
  | progress => exact goesOn _ _ fun _ => rfl
  | log => exact goesOn _ _ fun _ => rfl
  | profileEvents => exact goesOn _ _ fun _ => rfl
  | pong => exact ensures_pure nofun
  | hello => exact ensures_pure nofun
  | tableColumns =>
    refine Ensures.bind ((ensures_outcome receiveTableColumns s).imp ?_ fun _ _ _ => trivial)
    intro received t _
    split
    · exact ensures_pure nofun
    · exact ensures_throw trivial

omit [Hashing] [Codec] in
theorem ServerCode.code_of_ofCode {n : Nat} {code : ServerCode} (known : ofCode n = some code) :
    n = code.code := by
  unfold ofCode at known
  split at known
  all_goals first
    | cases known
      rfl
    | cases known

/-- A packet after which nothing more is processed is one of the two. -/
theorem arrives_of_processPacket {s t : Client υ ω ι ο} {code : Nat}
    (ended : Runs processPacket s (code, false) t) :
    (∃ rest, code = endOfStream.code ∧ s.EndOfStreamArrives rest) ∨
      ∃ e rest, code = exception.code ∧ s.ExceptionArrives e rest := by
  obtain ⟨⟨packetType, packet⟩, received, same⟩ := runs_bind_pure_iff.mp ended
  obtain ⟨rfl, ends⟩ := Prod.mk.inj same
  obtain ⟨_, _, typed, received⟩ := runs_bind_iff.mp received
  obtain ⟨input, mid, hasInput, read, rfl⟩ := of_runs_fromInput (runs_orProtocolError_iff.mp typed)
  split at received
  · rename_i code known
    obtain ⟨returned, body, same⟩ := runs_bind_pure_iff.mp received
    obtain ⟨rfl, samePacket⟩ := Prod.mk.inj same
    rw [code_of_ofCode known] at read
    have last : returned.ends = true := by
      rw [samePacket]
      simpa using ends
    rcases (receiveBody_ends code _).of_runs body last with rfl | rfl
    · obtain ⟨e, _, handed, _⟩ := runs_bind_iff.mp body
      obtain ⟨value, _, fromBody, handed⟩ := runs_bind_iff.mp (runs_orProtocolError_iff.mp handed)
      obtain ⟨_, rest, ⟨⟩, decoded, _⟩ := of_runs_fromInput fromBody
      cases value with
      | none => cases handed
      | some e =>
        exact .inr ⟨e, rest, code_of_ofCode known, input, mid, hasInput, read, decoded⟩
    · exact .inl ⟨mid, code_of_ofCode known, input, hasInput, read⟩
  · cases received

/-! ## Waiting for the end -/

/-- So many packets are processed, after each of which there is more to come. -/
inductive Waited : Nat → Client υ ω ι ο → Client υ ω ι ο → Prop
  | none (s) : Waited 0 s s
  | packet {n s t u code} : Runs processPacket s (code, true) t → Waited n t u → Waited (n + 1) s u

theorem Waited.talked {n : Nat} {s t : Client υ ω ι ο} (waited : Waited n s t) : Talked s t := by
  induction waited with
  | none s => exact Std.Refl.refl s
  | packet processed _ ih =>
    exact IsTrans.trans _ _ _ (talks_talked.processPacket.of_runs processed) ih

theorem awaitEnd_of_waited {n : Nat} {s t : Client υ ω ι ο} (waited : Waited n s t) (k : Nat) :
    awaitEnd (n + k) s = awaitEnd k t := by
  induction waited with
  | none s => rw [Nat.zero_add]
  | @packet n s t u code processed _ ih =>
    rw [← ih, Nat.add_right_comm, awaitEnd, processed.bind_eq]
    rfl

/-- What `awaitEnd` returns is the code of the packet that it has waited for. -/
theorem waited_of_awaitEnd {fuel code : Nat} {s t : Client υ ω ι ο}
    (ended : Runs (awaitEnd fuel) s code t) :
    ∃ n u, n < fuel ∧ Waited n s u ∧ Runs processPacket u (code, false) t := by
  induction fuel generalizing s with
  | zero => cases ended
  | succ fuel ih =>
    obtain ⟨⟨packet, more⟩, m, processed, ended⟩ := runs_bind_iff.mp ended
    cases more with
    | false =>
      obtain ⟨rfl, rfl⟩ := runs_pure_iff.mp ended
      exact ⟨0, s, Nat.succ_pos _, .none s, processed⟩
    | true =>
      obtain ⟨n, u, bound, waited, last⟩ := ih ended
      exact ⟨n + 1, u, Nat.succ_lt_succ bound, .packet processed waited, last⟩

/-! ## The calls that end an insert -/

/-- `call`, made with the client `start`, comes to `EndInsert` with the client `s`. -/
inductive ComesToEnd [SocketFactory ω ι ο] (fuel : Nat) :
    ClientM υ ω ι ο Unit → Client υ ω ι ο → Client υ ω ι ο → Prop
  | endInsert (s) : ComesToEnd fuel (ClickHouse.endInsert fuel) s s
  | session {start u s} (session : InsertSession υ) : Runs (session.begin fuel) start () u →
      Runs session.send u () s → ComesToEnd fuel (session.run fuel) start s

variable {start s u w : Client υ ω ι ο} {fuel n : Nat} {e : Exception} {rest : ι}

theorem ComesToEnd.eq [SocketFactory ω ι ο] {call : ClientM υ ω ι ο Unit}
    (comes : ComesToEnd fuel call start s) : call start = ClickHouse.endInsert fuel s := by
  cases comes with
  | endInsert => rfl
  | session session began sent => rw [session.run_eq, began.bind_eq, sent.bind_eq]

/-- The state of the user once the callback, if there is one, was given the exception. -/
def Client.toldUser (s : Client υ ω ι ο) (e : Exception) : υ :=
  match s.exceptionCallback with
  | none => s.user
  | some call => after (call e) s.user

omit [Source Error ι] [Output Error ο] [Hashing] [Codec] in
theorem notify_exceptionCb_ensures (e : Exception) (s : Client υ ω ι ο) :
    Ensures (notify Query.exceptionCb e) s (fun _ t => t = { s with user := s.toldUser e })
      fun _ t => t = { s with user := s.toldUser e } ∧ s.exceptionCallback.isSome = true := by
  have told {call : Exception → EStateM Error υ Unit}
      (has : s.eventQuery.bind Query.exceptionCb = some call) :
      s.toldUser e = after (call e) s.user ∧ s.exceptionCallback.isSome = true := by
    unfold Client.toldUser Client.exceptionCallback
    rw [has]
    exact ⟨rfl, rfl⟩
  apply ensures_get_bind
  split
  · rename_i no
    apply ensures_pure
    unfold Client.toldUser Client.exceptionCallback
    rw [no]
  · rename_i call has
    obtain ⟨same, isSome⟩ := told has
    rw [same]
    refine Ensures.bind ((ensures_zoom (call e) s).imp ?_ ?_)
    · intro _ t outcome
      obtain ⟨user, run, rfl⟩ := outcome
      rw [run.after_eq]
      exact ensures_pure rfl
    · intro _ t outcome
      obtain ⟨user, thrown, rfl⟩ := outcome
      rw [thrown.after_eq]
      exact ⟨rfl, isSome⟩

/-- What is thrown for an Exception packet is the exception, or comes from the callback. -/
theorem processPacket_exception_ensures (arrives : w.ExceptionArrives e rest) :
    Ensures processPacket w
      (fun result t => result = (exception.code, false) ∧
        w.options.rethrowExceptions = false ∧ t.options = w.options ∧ t.user = w.toldUser e)
      fun _ t => (w.options.rethrowExceptions = true ∨ w.exceptionCallback.isSome = true) ∧
        t.user = w.toldUser e := by
  have handled : Ensures (do
      notify Query.exceptionCb e
      let s ← get
      if s.options.rethrowExceptions then throw (.serverException e)
      else pure (exception.code, false) :
        ClientM υ ω ι ο (Nat × Bool)) { w with input := some rest }
      (fun result t => result = (exception.code, false) ∧
        w.options.rethrowExceptions = false ∧ t.options = w.options ∧ t.user = w.toldUser e)
      fun _ t => (w.options.rethrowExceptions = true ∨ w.exceptionCallback.isSome = true) ∧
        t.user = w.toldUser e := by
    refine Ensures.bind ((notify_exceptionCb_ensures e _).imp ?_ ?_)
    · rintro _ _ rfl
      apply ensures_get_bind
      split
      · rename_i rethrows
        exact ensures_throw ⟨.inl rethrows, rfl⟩
      · rename_i keeps
        exact ensures_pure ⟨rfl, Bool.eq_false_of_not_eq_true keeps, rfl, rfl⟩
    · rintro _ _ ⟨rfl, isSome⟩
      exact ⟨.inr isSome, rfl⟩
  unfold Ensures at handled ⊢
  rw [processPacket_of_exception arrives]
  exact handled

/-- `EndInsert` whose response is ended by an Exception packet. -/
theorem endInsert_exception_ensures (inserting : s.state = .inserting)
    (sent : Runs (sendData .empty) s () u) (waited : Waited n u w) (bound : n < fuel)
    (arrives : w.ExceptionArrives e rest) :
    Ensures (endInsert fuel) s
      (fun _ t => w.options.rethrowExceptions = false ∧ t.user = w.toldUser e)
      fun _ t => (w.options.rethrowExceptions = true ∨ w.exceptionCallback.isSome = true) ∧
        t.user = w.toldUser e := by
  obtain ⟨k, rfl⟩ := Nat.exists_eq_add_of_lt bound
  have awaits : Ensures (awaitEnd (n + (k + 1))) u
      (fun code t => code = exception.code ∧ w.options.rethrowExceptions = false ∧
        t.options = w.options ∧ t.user = w.toldUser e)
      fun _ t => (w.options.rethrowExceptions = true ∨ w.exceptionCallback.isSome = true) ∧
        t.user = w.toldUser e := by
    unfold Ensures
    rw [awaitEnd_of_waited waited]
    refine Ensures.bind ((processPacket_exception_ensures arrives).imp ?_ fun _ _ thrown => thrown)
    rintro _ t ⟨rfl, keeps⟩
    exact ensures_pure ⟨rfl, keeps⟩
  apply ensures_get_bind
  rw [if_pos inserting]
  refine Ensures.of_run sent (Ensures.bind (awaits.imp ?_ fun _ _ thrown => thrown))
  rintro _ t ⟨rfl, keeps, options, user⟩
  apply ensures_get_bind
  have expected : isExpectedEnd exception.code = true := by decide
  rw [expected, Bool.not_true, Bool.false_and, if_neg Bool.false_ne_true]
  exact ensures_modify ⟨keeps, user⟩

variable [SocketFactory ω ι ο]

/-- An insert that returns was ended by EndOfStream or by an Exception, and an Exception is thrown
or received by a callback exactly if exceptions are thrown again or there is such a callback. -/
theorem rejection_reported_iff {call : ClientM υ ω ι ο Unit} (comes : ComesToEnd fuel call start s)
    (inserting : s.state = .inserting) :
    (∀ t, Runs call start () t → ∃ n u w rest, Runs (sendData .empty) s () u ∧ n < fuel ∧
      Waited n u w ∧ (w.EndOfStreamArrives rest ∨ ∃ e, w.ExceptionArrives e rest)) ∧
    ∀ n u w e rest, Runs (sendData .empty) s () u → n < fuel → Waited n u w →
      w.ExceptionArrives e rest →
      ((∃ error t, Throws call start error t) ∨
          (∃ receive, w.exceptionCallback = some receive ∧
            (after call start).user = after (receive e) w.user) ↔
        s.options.rethrowExceptions = true ∨ s.exceptionCallback.isSome = true) := by
  have same := comes.eq
  constructor
  · intro t returned
    have ended : Runs (endInsert fuel) s () t := same.symm.trans returned
    obtain ⟨_, _, ⟨⟩, ended⟩ := runs_bind_iff.mp ended
    rw [if_pos inserting] at ended
    obtain ⟨_, u, sent, ended⟩ := runs_bind_iff.mp ended
    obtain ⟨code, _, awaited, _⟩ := runs_bind_iff.mp ended
    obtain ⟨n, w, bound, waited, last⟩ := waited_of_awaitEnd awaited
    rcases arrives_of_processPacket last with ⟨rest, _, arrives⟩ | ⟨e, rest, _, arrives⟩
    · exact ⟨n, u, w, rest, sent, bound, waited, .inl arrives⟩
    · exact ⟨n, u, w, rest, sent, bound, waited, .inr ⟨e, arrives⟩⟩
  · intro n u w e rest sent bound waited arrives
    have ends := endInsert_exception_ensures inserting sent waited bound arrives
    have talked : Talked s w :=
      IsTrans.trans _ _ _ ((along_sendData _).of_runs sent) waited.talked
    rw [← talked.options_eq, ← talked.exceptionCallback_eq]
    constructor
    · intro reported
      rcases reported with ⟨error, t, thrown⟩ | ⟨receive, has, _⟩
      · have thrown : Throws (endInsert fuel) s error t := same.symm.trans thrown
        exact (ends.of_throws thrown).1
      · rw [has]
        exact .inr rfl
    · intro condition
      by_cases rethrows : w.options.rethrowExceptions = true
      · left
        cases outcome : endInsert fuel s with
        | ok _ t =>
          have keeps := (ends.of_runs outcome).1
          rw [rethrows] at keeps
          cases keeps
        | error error t => exact ⟨error, t, same.trans outcome⟩
      · right
        obtain ⟨receive, has⟩ := Option.isSome_iff_exists.mp (condition.resolve_left rethrows)
        have told : w.toldUser e = after (receive e) w.user := by
          unfold Client.toldUser
          rw [has]
        have user : (after (endInsert fuel) s).user = w.toldUser e :=
          (ends.imp (fun _ _ ended => ended.2) fun _ _ ended => ended.2).after_holds
        refine ⟨receive, has, ?_⟩
        rw [← told, ← user, after, after, same]

end Rejections

/-! ## Runs -/

/-- Whether a complete Exception packet is next on the input. -/
def Client.exceptionNext {υ ω ι ο : Type} [Source Error ι] (s : Client υ ω ι ο) : Bool :=
  match s.input with
  | none => false
  | some input =>
    match readVarint64 input with
    | .ok (some code) mid =>
      match readException mid with
      | .ok (some _) _ => decide (code = exception.code)
      | _ => false
    | _ => false

theorem Client.exceptionArrives_of_next {υ ω ι ο : Type} [Source Error ι] {s : Client υ ω ι ο}
    (next : s.exceptionNext = true) : ∃ e rest, s.ExceptionArrives e rest := by
  unfold exceptionNext at next
  split at next
  · cases next
  · rename_i input hasInput
    split at next
    · rename_i code mid typed
      split at next
      · rename_i e rest decoded
        cases of_decide_eq_true next
        exact ⟨e, rest, input, mid, hasInput, typed, decoded⟩
      · cases next
    · cases next

/-- What a server says that has no room left. -/
def sampleException : Exception := ⟨243, ascii "DB::Exception", ascii "no space", []⟩

/-- A server that sends a header, and rejects what is inserted. -/
def rejectingServer : Script :=
  ⟨[closedAfter (oldHello 0 ++ [1, 0, 0] ++ [2] ++ exceptionBody sampleException)]⟩

/-- With the default options the exception is thrown. -/
theorem rejection_reported_numberBlock :
    letI := lengthHashing
    letI : Codec := storingCodec
    ∃ client s u e rest, Client.create sampleOptions rejectingServer () = .ok client ∧
      ComesToEnd 5 (insert 5 (ascii "t") [] numberBlock) client s ∧
      Runs (sendData .empty) s () u ∧ u.ExceptionArrives e rest ∧
      ((∃ error t, Throws (insert 5 (ascii "t") [] numberBlock) client error t) ∨
        ∃ receive, u.exceptionCallback = some receive ∧
          (after (insert 5 (ascii "t") [] numberBlock) client).user = after (receive e) u.user) := by
  let _ := lengthHashing
  let _ : Codec := storingCodec
  let session : InsertSession Unit := .atOnce (ascii "t") [] numberBlock
  let sent := fun client : Client Unit Script ScriptedInput (BufferedOutput Sink) =>
    after session.send (after (session.begin 5) client)
  have holds : (Client.create sampleOptions rejectingServer ()).toOption.any (fun client =>
      returnsFrom (session.begin 5) client = true ∧
      returnsFrom session.send (after (session.begin 5) client) = true ∧
      (sent client).state = .inserting ∧
      returnsFrom (sendData .empty) (sent client) = true ∧
      (after (sendData .empty) (sent client)).exceptionNext = true ∧
      (sent client).options.rethrowExceptions = true) = true := by
    decide +kernel
  obtain ⟨client, created, began, sends, inserting, marks, next, rethrows⟩ := exists_of_any holds
  obtain ⟨_, began⟩ := runs_of_returnsFrom began
  obtain ⟨_, sends⟩ := runs_of_returnsFrom sends
  obtain ⟨_, marks⟩ := runs_of_returnsFrom marks
  obtain ⟨e, rest, arrives⟩ := Client.exceptionArrives_of_next next
  have comes : ComesToEnd 5 (insert 5 (ascii "t") [] numberBlock) client (sent client) :=
    .session session began sends
  exact ⟨client, _, _, e, rest, created, comes, marks, arrives,
    ((rejection_reported_iff comes inserting).2 0 _ _ e rest marks (by decide) (.none _) arrives).mpr
      (.inl rethrows)⟩

/-- Without `rethrow_exceptions` the rejected insert returns, and no callback was there to be called. -/
theorem not_reported_numberBlock :
    letI := lengthHashing
    letI : Codec := storingCodec
    ∃ client s u e rest t,
      Client.create { sampleOptions with rethrowExceptions := false } rejectingServer () =
        .ok client ∧
      ComesToEnd 5 (insert 5 (ascii "t") [] numberBlock) client s ∧ s.state = .inserting ∧
      Runs (sendData .empty) s () u ∧ u.ExceptionArrives e rest ∧
      Runs (insert 5 (ascii "t") [] numberBlock) client () t ∧ t.state = .idle ∧
      u.exceptionCallback = none := by
  let _ := lengthHashing
  let _ : Codec := storingCodec
  let session : InsertSession Unit := .atOnce (ascii "t") [] numberBlock
  let sent := fun client : Client Unit Script ScriptedInput (BufferedOutput Sink) =>
    after session.send (after (session.begin 5) client)
  have holds : (Client.create { sampleOptions with rethrowExceptions := false } rejectingServer
      ()).toOption.any (fun client =>
        returnsFrom (session.begin 5) client = true ∧
        returnsFrom session.send (after (session.begin 5) client) = true ∧
        (sent client).state = .inserting ∧
        returnsFrom (sendData .empty) (sent client) = true ∧
        (after (sendData .empty) (sent client)).exceptionNext = true ∧
        returnsFrom (insert 5 (ascii "t") [] numberBlock) client = true ∧
        (after (insert 5 (ascii "t") [] numberBlock) client).state = .idle ∧
        (after (sendData .empty) (sent client)).exceptionCallback.isNone = true) = true := by
    decide +kernel
  obtain ⟨client, created, began, sends, inserting, marks, next, inserts, idle, silent⟩ :=
    exists_of_any holds
  obtain ⟨_, began⟩ := runs_of_returnsFrom began
  obtain ⟨_, sends⟩ := runs_of_returnsFrom sends
  obtain ⟨_, marks⟩ := runs_of_returnsFrom marks
  obtain ⟨_, inserts⟩ := runs_of_returnsFrom inserts
  obtain ⟨e, rest, arrives⟩ := Client.exceptionArrives_of_next next
  exact ⟨client, _, _, e, rest, _, created, .session session began sends, inserting, marks, arrives,
    inserts, idle, Option.isNone_iff_eq_none.mp silent⟩

end ClickHouse
