import ClickHouse.Client.Programs
import ClickHouse.Kit.Agreement

/-!
# What the operations do not look at

Two clients that differ only in their histories, and in a query that their
events do not point to, do the same and stay so.
-/

namespace ClickHouse

open Kit

variable {υ ω ι ο : Type}

/-- The clients differ only in the history and in a query that is not used. -/
def Alike (s t : Client υ ω ι ο) : Prop :=
  ∃ history query, t = { s with history := history, query := query } ∧
    (s.events = some .stored → query = s.query)

theorem Alike.eventQuery {s t : Client υ ω ι ο} (alike : Alike s t) :
    t.eventQuery = s.eventQuery := by
  obtain ⟨history, query, rfl, used⟩ := alike
  unfold Client.eventQuery
  dsimp only
  cases events : s.events with
  | none => rfl
  | some pointed =>
    cases pointed with
    | stored => exact congrArg some (used events)
    | parameter query assigns => rfl

theorem looks_alike : Looks fun α (p : ClientM υ ω ι ο α) => Agree Alike p where
  returns := agree_pure
  throws := agree_throw
  seq first rest := first.bind rest
  handles body handled := body.tryCatch handled
  looksAround rest := by
    refine agree_get_bind ?_ fun s => rest _ _
    rintro s _ ⟨history, query, rfl, used⟩
    rfl
  looks blind rest := by
    refine agree_get_bind ?_ rest
    rintro s _ ⟨history, query, rfl, used⟩
    exact blind s history query

theorem alike_get_bind {α : Type} {f : Client υ ω ι ο → ClientM υ ω ι ο α}
    (blind : ∀ s history query, f { s with history := history, query := query } = f s)
    (agrees : ∀ s, Agree Alike (f s)) : Agree Alike (get >>= f) :=
  looks_alike.looks blind agrees

/-! ## Streams and callbacks -/

section Streams

variable {α : Type}

theorem alike_fromInput (p : EStateM Error ι α) : Agree Alike (fromInput p : ClientM υ ω ι ο α) := by
  refine alike_get_bind (fun _ _ _ => rfl) fun s => ?_
  split
  · exact agree_throw _
  · apply agree_zoom
    · exact fun _ _ _ => rfl
    · rintro input t _ ⟨history, query, rfl, used⟩
      exact ⟨history, query, rfl, used⟩

theorem alike_toOutput (p : EStateM Error ο α) : Agree Alike (toOutput p : ClientM υ ω ι ο α) := by
  refine alike_get_bind (fun _ _ _ => rfl) fun s => ?_
  split
  · exact agree_throw _
  · apply agree_zoom
    · exact fun _ _ _ => rfl
    · rintro output t _ ⟨history, query, rfl, used⟩
      exact ⟨history, query, rfl, used⟩

theorem alike_callback (p : EStateM Error υ α) : Agree Alike (callback p : ClientM υ ω ι ο α) := by
  apply agree_zoom
  · rintro s _ ⟨history, query, rfl, used⟩
    rfl
  · rintro user s _ ⟨history, query, rfl, used⟩
    exact ⟨history, query, rfl, used⟩

theorem alike_fromFactory (p : EStateM Error ω α) :
    Agree Alike (fromFactory p : ClientM υ ω ι ο α) := by
  apply agree_zoom
  · rintro s _ ⟨history, query, rfl, used⟩
    rfl
  · rintro factory s _ ⟨history, query, rfl, used⟩
    exact ⟨history, query, rfl, used⟩

theorem alike_note (event : Event) : Agree Alike (note event : ClientM υ ω ι ο Unit) := by
  apply agree_modify
  rintro s _ ⟨history, query, rfl, used⟩
  exact ⟨history ++ [event], query, rfl, used⟩

theorem alike_notify {β : Type} (select : Query υ → Option (α → EStateM Error υ β)) (value : α) :
    Agree Alike (notify select value : ClientM υ ω ι ο Unit) := by
  apply agree_get_bind
  · intro s t alike
    simp only [alike.eventQuery]
  · intro s
    split
    · exact agree_pure _
    · exact (alike_callback _).bind fun _ => agree_pure _

theorem alike_resetState : Agree Alike (modify Client.resetState : ClientM υ ω ι ο PUnit) := by
  apply agree_modify
  rintro s _ ⟨history, query, rfl, used⟩
  exact ⟨history, .empty, rfl, fun _ => rfl⟩

/-- A change to members that the relation does not speak of. -/
theorem alike_setState (state : State) :
    Agree Alike (modify fun s => { s with state := state } : ClientM υ ω ι ο PUnit) := by
  apply agree_modify
  rintro s _ ⟨history, query, rfl, used⟩
  exact ⟨history, query, rfl, used⟩

end Streams

/-! ## Receiving -/

section Receiving

variable [Output Error ο]

theorem alike_sendCancel : Agree Alike (sendCancel : ClientM υ ω ι ο Unit) :=
  (alike_note _).bind fun _ => (alike_toOutput _).bind fun _ => alike_toOutput _

theorem alike_deliverData (block : Block) :
    Agree Alike (deliverData block : ClientM υ ω ι ο Unit) := by
  have onData : Agree Alike (onData block : ClientM υ ω ι ο Unit) := by
    refine alike_get_bind (fun _ _ _ => rfl) fun s => ?_
    split
    · apply agree_modify
      rintro t _ ⟨history, query, rfl, used⟩
      exact ⟨history, query, rfl, used⟩
    · exact alike_notify _ _
  have onDataCancelable : Agree Alike (onDataCancelable block : ClientM υ ω ι ο Bool) := by
    apply agree_get_bind
    · intro s t alike
      simp only [alike.eventQuery]
    · intro s
      split
      · exact agree_pure _
      · exact alike_callback _
  refine alike_get_bind (fun _ _ _ => rfl) fun s => ?_
  split
  · refine onData.bind fun _ => onDataCancelable.bind fun goOn => ?_
    split
    · exact agree_pure _
    · exact alike_sendCancel
  · exact agree_pure _

end Receiving

/-! ## Sending -/

section Sending

variable [Output Error ο] [Hashing] [Codec]

theorem alike_sendBlockData (block : Block) :
    Agree Alike (sendBlockData block : ClientM υ ω ι ο Unit) := by
  refine alike_get_bind (fun _ _ _ => rfl) fun s => ?_
  split
  · split
    · exact agree_throw _
    · refine (agree_ofExcept _).bind fun compressed => ?_
      apply agree_zoom
      · exact fun _ _ _ => rfl
      · rintro buffered t _ ⟨history, query, rfl, used⟩
        exact ⟨history, query, rfl, used⟩
  · exact alike_toOutput _

theorem sessions_alike : Sessions fun α (p : ClientM υ ω ι ο α) => Agree Alike p :=
  { looks_alike with
    reads := alike_fromInput
    notifies := alike_notify
    delivers := alike_deliverData
    writes := alike_toOutput
    notes := fun _ => alike_note _
    sendsBlock := alike_sendBlockData
    resetsState := alike_resetState
    setsState := alike_setState }

end Sending

/-! ## Connecting -/

section Connecting

theorem alike_handshake [Source Error ι] [Output Error ο] :
    Agree Alike (handshake : ClientM υ ω ι ο Bool) := by
  have reads : ReadsInput fun α (p : ClientM υ ω ι ο α) => Agree Alike p :=
    { looks_alike with reads := alike_fromInput }
  have info : Agree Alike (receiveServerInfo : ClientM υ ω ι ο Bool) := by
    refine alike_get_bind (fun _ _ _ => rfl) fun s => ?_
    split
    · exact agree_throw _
    · apply agree_zoom
      · rintro s _ ⟨_, _, rfl, _⟩
        rfl
      · rintro learned s _ ⟨history, query, rfl, used⟩
        exact ⟨history, query, rfl, used⟩
  have hello : Agree Alike (receiveHello : ClientM υ ω ι ο Bool) := by
    refine (alike_fromInput _).bind fun packetType => ?_
    split
    · exact agree_pure _
    · split
      · refine info.bind fun received => ?_
        split
        · exact (alike_note _).bind fun _ => agree_pure _
        · exact agree_pure _
      · split
        · refine (reads.receive _ fun _ => alike_notify _ _).bind fun e => ?_
          split
          · exact agree_throw _
          · exact agree_throw _
        · exact agree_pure _
  have send : Agree Alike (sendHello : ClientM υ ω ι ο Bool) := by
    exact alike_get_bind (fun _ _ _ => rfl) fun s => (alike_toOutput _).bind fun _ =>
      (alike_toOutput _).bind fun _ => agree_pure _
  have record : Agree Alike (modify fun s => { s with hellos := s.hellos ++ s.input.toList } :
      ClientM υ ω ι ο PUnit) := by
    refine agree_modify ?_
    rintro s _ ⟨history, query, rfl, used⟩
    exact ⟨history, query, rfl, used⟩
  refine reads.andThen send (record.bind fun _ =>
    reads.andThen hello (alike_get_bind (fun _ _ _ => rfl) fun s => ?_))
  dsimp only
  split
  · exact (alike_toOutput _).bind fun _ => agree_pure _
  · exact agree_pure _

theorem alike_initializeStreams [SocketFactory ω ι ο] :
    Agree Alike (initializeStreams : ClientM υ ω ι ο Unit) := by
  refine alike_get_bind (fun _ _ _ => rfl) fun s => ?_
  refine (alike_note _).bind fun _ => (alike_fromFactory _).bind fun streams =>
    Agree.bind (agree_modify ?_) fun _ => alike_note _
  rintro t _ ⟨history, query, rfl, used⟩
  exact ⟨history, query, rfl, used⟩

/-- What `ResetConnection` does once the streams are there. -/
theorem alike_greet [Source Error ι] [Output Error ο] : Agree Alike (do
    modify fun s => { s with state := .idle }
    unless ← handshake do
      let s ← get
      throw (.protocolError (ascii "fail to connect to " ++ s.options.host)) :
        ClientM υ ω ι ο Unit) := by
  refine (alike_setState _).bind fun _ => alike_handshake.bind fun greeted => ?_
  split
  · exact agree_pure _
  · apply agree_get_bind
    · rintro s _ ⟨history, query, rfl, used⟩
      rfl
    · exact fun s => agree_throw _

/-- Related clients go through the endpoints in the same way. -/
structure SharesEndpoints (R : Client υ ω ι ο → Client υ ω ι ο → Prop) : Prop where
  options : ∀ {s t}, R s t → t.options = s.options
  index : ∀ {s t}, R s t → t.currentIndex = s.currentIndex
  endpoint : ∀ {s t}, R s t → t.currentEndpoint = s.currentEndpoint
  moveIndex : ∀ {s t}, R s t → ∀ index,
    R { s with currentIndex := index } { t with currentIndex := index }
  moveEndpoint : ∀ {s t}, R s t → ∀ endpoint,
    R { s with currentEndpoint := endpoint } { t with currentEndpoint := endpoint }

theorem sharesEndpoints_alike : SharesEndpoints (Alike : Client υ ω ι ο → Client υ ω ι ο → Prop) where
  options := by
    rintro s _ ⟨history, query, rfl, used⟩
    rfl
  index := by
    rintro s _ ⟨history, query, rfl, used⟩
    rfl
  endpoint := by
    rintro s _ ⟨history, query, rfl, used⟩
    rfl
  moveIndex := by
    rintro s _ ⟨history, query, rfl, used⟩ index
    exact ⟨history, query, rfl, used⟩
  moveEndpoint := by
    rintro s _ ⟨history, query, rfl, used⟩ endpoint
    exact ⟨history, query, rfl, used⟩

theorem runs_nextEndpoint {s : Client υ ω ι ο} {endpoint : Endpoint}
    (found : s.options.endpoints[(s.currentIndex + 1) % s.options.endpoints.length]? =
      some endpoint) : Runs nextEndpoint s endpoint { s with
        currentIndex := (s.currentIndex + 1) % s.options.endpoints.length } := by
  refine (runs_get s).bind ((runs_set s _).bind ?_)
  rw [found]
  exact runs_pure endpoint _

theorem throws_nextEndpoint {s : Client υ ω ι ο}
    (missing : s.options.endpoints[(s.currentIndex + 1) % s.options.endpoints.length]? = none) :
    Throws nextEndpoint s .undefinedBehavior { s with
      currentIndex := (s.currentIndex + 1) % s.options.endpoints.length } := by
  refine (runs_get s).bind_throws ((runs_set s _).bind_throws ?_)
  rw [missing]
  exact throws_throw _ _

namespace SharesEndpoints

variable {R : Client υ ω ι ο → Client υ ω ι ο → Prop} (shares : SharesEndpoints R)

include shares

theorem agree_setEndpoint (endpoint : Endpoint) :
    Agree R (setEndpoint endpoint : ClientM υ ω ι ο Unit) :=
  agree_modify fun _ _ related => shares.moveEndpoint related endpoint

theorem agree_nextEndpoint : Agree R (nextEndpoint : ClientM υ ω ι ο Endpoint) := by
  intro s t related
  have sameIndex : (t.currentIndex + 1) % t.options.endpoints.length =
      (s.currentIndex + 1) % s.options.endpoints.length := by
    rw [shares.options related, shares.index related]
  have same : t.options.endpoints[(t.currentIndex + 1) % t.options.endpoints.length]? =
      s.options.endpoints[(s.currentIndex + 1) % s.options.endpoints.length]? := by
    rw [sameIndex, shares.options related]
  have moved := shares.moveIndex related ((s.currentIndex + 1) % s.options.endpoints.length)
  cases found : s.options.endpoints[(s.currentIndex + 1) % s.options.endpoints.length]? with
  | some endpoint =>
    exact sameOutcome_of_runs (runs_nextEndpoint found) (runs_nextEndpoint (same.trans found))
      (sameIndex ▸ moved)
  | none =>
    exact sameOutcome_of_throws (throws_nextEndpoint found) (throws_nextEndpoint (same.trans found))
      (sameIndex ▸ moved)

/-- The endpoints are gone through alike if a reset of the connection is done alike. -/
theorem toMoves [Source Error ι] [Output Error ο] [SocketFactory ω ι ο]
    (reconnects : Agree R (resetConnection : ClientM υ ω ι ο Unit)) :
    Moves fun α (p : ClientM υ ω ι ο α) => Agree R p where
  returns := agree_pure
  throws := agree_throw
  seq first rest := first.bind rest
  handles body handled := body.tryCatch handled
  looksAround rest := by
    refine agree_get_bind (fun s t related => ?_) fun s => rest _ _
    rw [shares.options related, shares.endpoint related]
  reconnects := reconnects
  setsEndpoint := shares.agree_setEndpoint
  nexts := shares.agree_nextEndpoint

end SharesEndpoints

variable [Source Error ι] [Output Error ο] [SocketFactory ω ι ο]

theorem alike_resetConnection : Agree Alike (resetConnection : ClientM υ ω ι ο Unit) :=
  alike_initializeStreams.bind fun _ => alike_greet

end Connecting

/-! ## Public operations -/

section Operations

variable [Source Error ι] [Output Error ο] [Hashing] [Codec]

theorem operates_alike [SocketFactory ω ι ο] :
    Operates fun α (p : ClientM υ ω ι ο α) => Agree Alike p :=
  { sessions_alike, sharesEndpoints_alike.toMoves alike_resetConnection with
    sleeps := fun _ => alike_fromFactory _
    selects := fun query => agree_modify (by
      rintro s _ ⟨history, query', rfl, used⟩
      exact ⟨history, query, rfl, fun _ => rfl⟩)
    setsEvents := fun events other => agree_modify (by
      rintro s _ ⟨history, query, rfl, used⟩
      exact ⟨history, query, rfl, fun stored => absurd stored other⟩)
    inserts := fun query => agree_modify (by
      rintro s _ ⟨history, query', rfl, used⟩
      exact ⟨history, query', rfl, fun stored => nomatch stored⟩) }

/-- Whatever is done with a client, its history and a query not pointed to play no part. -/
theorem alike_perform [SocketFactory ω ι ο] (fuel : Nat) (operation : Client.Operation υ) :
    Agree Alike (perform fuel operation : ClientM υ ω ι ο (List Block)) :=
  operates_alike.perform fuel operation

end Operations

end ClickHouse
