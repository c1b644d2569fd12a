import ClickHouse.Client.Failover

/-!
# The two phases of an operation

An operation that sends a query first pings the server if the options say so,
which may lead to other connections.  Whatever else an operation does, it does
on the connection it then has.  So what happens to the connections of a client
is what resets and pings do.
-/

namespace ClickHouse

open Kit

variable {υ ω ι ο : Type}

/-- Whether the operation pings the server before its query. -/
def Client.Operation.pings : Client.Operation υ → Bool
  | .execute _ => true
  | .selectWithExternalData _ _ => true
  | .beginSelect _ => true
  | .insert _ _ _ => true
  | .beginInsert _ => true
  | _ => false

/-- From `s` the client came to `t` by work on its connection. -/
def Worked (s t : Client υ ω ι ο) : Prop :=
  ∃ input output user block state query events, ∃ notes : List (Option ClientCode), t = { s with
    input := input
    output := output
    user := user
    insertBlock := block
    state := state
    query := query
    events := events
    history := s.history ++ notes.map .onConnection }

instance : Std.Refl (Worked : Client υ ω ι ο → Client υ ω ι ο → Prop) where
  refl s := ⟨s.input, s.output, s.user, s.insertBlock, s.state, s.query, s.events, [],
    by rw [List.map_nil, List.append_nil]⟩

instance : IsTrans (Client υ ω ι ο) Worked where
  trans s t u first second := by
    rcases first with ⟨_, _, _, _, _, _, _, notes, rfl⟩
    rcases second with ⟨input, output, user, block, state, query, events, notes', rfl⟩
    refine ⟨input, output, user, block, state, query, events, notes ++ notes', ?_⟩
    rw [List.map_append, ← List.append_assoc]

theorem allowsSessions_worked :
    AllowsSessions (Worked : Client υ ω ι ο → Client υ ω ι ο → Prop) where
  talks s t talked := by
    rcases talked with ⟨input, output, user, block, notes, rfl⟩
    exact ⟨input, output, user, block, s.state, s.query, s.events, notes, rfl⟩
  sessions s state query events block :=
    ⟨s.input, s.output, s.user, block, state, query, events, [],
      by rw [List.map_nil, List.append_nil]⟩

/-- Only `events_` is another one. -/
def SetsEvents (s t : Client υ ω ι ο) : Prop := ∃ events, t = { s with events := events }

instance : Std.Refl (SetsEvents : Client υ ω ι ο → Client υ ω ι ο → Prop) := ⟨fun s => ⟨s.events, rfl⟩⟩

section Phases

variable [Source Error ι] [Output Error ο] [SocketFactory ω ι ο] [Hashing] [Codec]

/-- From `s` the client came to `t` by work on its connection, maybe after a ping. -/
def Began (s t : Client υ ω ι ο) : Prop :=
  Worked s t ∨ ∃ u v, SetsEvents s u ∧ Runs pingBeforeQuery u () v ∧ Worked v t

/-- From `s` the client came to `t` by a ping before the query that threw. -/
def Stopped (s t : Client υ ω ι ο) : Prop :=
  ∃ u e v, SetsEvents s u ∧ Throws pingBeforeQuery u e v ∧ SetsEvents v t

theorem Began.worked {s t u : Client υ ω ι ο} (began : Began s t) (worked : Worked t u) :
    Began s u := by
  rcases began with only | ⟨v, w, sets, pinged, work⟩
  · exact .inl (IsTrans.trans _ _ _ only worked)
  · exact .inr ⟨v, w, sets, pinged, IsTrans.trans _ _ _ work worked⟩

/-- The program pings at most before all its work. -/
def Opens {α : Type} (p : ClientM υ ω ι ο α) : Prop :=
  ∀ s, Ensures p s (fun _ t => Began s t) fun _ t => Began s t ∨ Stopped s t

section Rules

variable {α β : Type} {p : ClientM υ ω ι ο α}

theorem opens_of_along (works : Along Worked p) : Opens p := fun s =>
  (works.ensures s).imp (fun _ _ worked => .inl worked) fun _ _ worked => .inl (.inl worked)

theorem Opens.bind (opens : Opens p) {f : α → ClientM υ ω ι ο β} (works : ∀ a, Along Worked (f a)) :
    Opens (p >>= f) := by
  intro s
  refine Ensures.bind ((opens s).imp ?_ fun _ _ thrown => thrown)
  intro a t began
  exact ((works a).ensures t).imp (fun _ _ worked => began.worked worked)
    fun _ _ worked => .inl (began.worked worked)

theorem opens_get_bind {f : Client υ ω ι ο → ClientM υ ω ι ο α} (opens : ∀ s, Opens (f s)) :
    Opens (get >>= f) := fun s => ensures_get_bind (opens s s)

theorem opens_expectState_bind (state : State) (what : String) (opens : Opens p) :
    Opens (do expectState state what; p) := by
  intro s
  refine Ensures.bind ((expectState_ensures state what s).imp ?_ ?_)
  · intro _ t passed
    rcases passed with ⟨rfl, _⟩
    exact opens s
  · intro _ t refused
    exact .inl (.inl (refused ▸ Std.Refl.refl s))

theorem opens_pingBeforeQuery : Opens (pingBeforeQuery : ClientM υ ω ι ο Unit) := by
  intro s
  refine (ensures_outcome pingBeforeQuery s).imp ?_ ?_
  · exact fun _ t pinged => .inr ⟨s, t, Std.Refl.refl s, pinged, Std.Refl.refl t⟩
  · exact fun e t thrown => .inr ⟨s, e, t, Std.Refl.refl s, thrown, Std.Refl.refl t⟩

end Rules

theorem opens_beginExecuteQuery (query : Query υ) (finalize : Bool) :
    Opens (beginExecuteQuery query finalize : ClientM υ ω ι ο Unit) := by
  have sends : Along Worked (onThrow (sendQuery query finalize) (modify Client.resetState) :
      ClientM υ ω ι ο Unit) :=
    ((along_sendQuery query finalize).mono allowsSessions_worked.talks).tryCatch fun e =>
      allowsSessions_worked.resetState.bind fun _ => along_throw e
  apply opens_expectState_bind
  apply opens_pingBeforeQuery.bind
  intro _
  exact (along_modify fun s => allowsSessions_worked.sessions s _ _ _ s.insertBlock).bind
    fun _ => sends

theorem opens_insert (fuel : Nat) (tableName queryId : Bytes) (block : Block) :
    Opens (insert fuel tableName queryId block : ClientM υ ω ι ο Unit) := by
  have talks {α : Type} {p : ClientM υ ω ι ο α} (along : Along Talked p) : Along Worked p :=
    along.mono allowsSessions_worked.talks
  apply opens_get_bind
  intro s
  dsimp only
  split
  · exact opens_of_along (along_throw_bind _ _)
  · apply opens_expectState_bind
    apply opens_pingBeforeQuery.bind
    intro _
    refine (along_modify fun s => allowsSessions_worked.sessions s .inserting s.query s.events
      s.insertBlock).bind fun _ => (talks (along_sendQuery _ _)).bind fun _ =>
      (talks (along_awaitHeader fuel)).bind fun header => ?_
    split
    · exact (talks (along_sendData block)).bind fun _ => allowsSessions_worked.toSessions.endInsert fuel
    · exact along_throw _

/-- The events that `BeginInsert` sets are null again when the ping has thrown. -/
theorem opens_beginInsert (fuel : Nat) (query : Query υ) :
    Opens (beginInsert fuel query : ClientM υ ω ι ο Block) := by
  have talks {α : Type} {p : ClientM υ ω ι ο α} (along : Along Talked p) : Along Worked p :=
    along.mono allowsSessions_worked.talks
  have inserts : Along Worked (do
      modify fun s => { s with
        state := .inserting
        insertBlock := .empty
        events := some (.parameter query true) }
      sendQuery query true
      if ← awaitHeader fuel then do
        let s ← get
        pure s.insertBlock
      else throw (.protocolError (ascii "fail to receive data packet")) :
      ClientM υ ω ι ο Block) := by
    refine (along_modify fun s => allowsSessions_worked.sessions s _ s.query _ _).bind fun _ =>
      (talks (along_sendQuery query true)).bind fun _ =>
      (talks (along_awaitHeader fuel)).bind fun header => ?_
    split
    · exact along_get_bind fun _ => along_pure _
    · exact along_throw _
  have nulls (t : Client υ ω ι ο) : Worked t { t with events := none } :=
    allowsSessions_worked.sessions t t.state t.query none t.insertBlock
  apply opens_expectState_bind
  intro s
  dsimp only
  split
  · exact Ensures.bind (ensures_throw (.inl (.inl (Std.Refl.refl s))))
  · refine ensures_modify_bind (Ensures.bind (Ensures.onThrow_modify (Ensures.bind ?_)))
    refine (ensures_outcome pingBeforeQuery _).imp ?_ ?_
    · intro _ v pinged
      have began {t : Client υ ω ι ο} (worked : Worked v t) : Began s { t with events := none } :=
        .inr ⟨_, v, ⟨_, rfl⟩, pinged, IsTrans.trans _ _ _ worked (nulls t)⟩
      refine (inserts.ensures v).imp ?_ ?_
      · exact fun _ t worked => ensures_modify_bind (ensures_pure (began worked))
      · exact fun _ t worked => .inl (began worked)
    · exact fun e v thrown => .inr ⟨_, e, v, ⟨_, rfl⟩, thrown, ⟨none, rfl⟩⟩

theorem opens_selectWithExternalData (fuel : Nat) (query : Query υ) (tables : List ExternalTable) :
    Opens (selectWithExternalData fuel query tables : ClientM υ ω ι ο (List Block)) := by
  have sends : Along Worked (onThrow (do sendExternalData tables; finalizeQuery)
      (modify Client.resetState) : ClientM υ ω ι ο Unit) :=
    (((along_sendExternalData tables).bind fun _ => along_finalizeQuery).mono
      allowsSessions_worked.talks).tryCatch fun e =>
      allowsSessions_worked.resetState.bind fun _ => along_throw e
  apply opens_get_bind
  intro s
  dsimp only
  split
  · exact opens_of_along (along_throw_bind _ _)
  · exact (opens_beginExecuteQuery query false).bind fun _ => sends.bind fun _ =>
      allowsSessions_worked.toSessions.drain fuel

/-- An operation that neither resets nor pings works on the connection it has. -/
theorem worked_perform (fuel : Nat) {op : Client.Operation υ} (noReset : op.resets = false)
    (noPing : op.pings = false) :
    Along Worked (perform fuel op : ClientM υ ω ι ο (List Block)) := by
  have talks {α : Type} {p : ClientM υ ω ι ο α} (along : Along Talked p) : Along Worked p :=
    along.mono allowsSessions_worked.talks
  cases op with
  | nextBlock => exact (allowsSessions_worked.toSessions.nextBlock fuel).bind fun _ => along_pure _
  | cancel =>
    exact (along_expectState _ _).bind fun _ => (talks along_sendCancel).bind fun _ =>
      allowsSessions_worked.toSessions.drain fuel
  | sendInsertBlock block =>
    exact ((along_expectState _ _).bind fun _ => talks (along_sendData block)).bind fun _ =>
      along_pure _
  | endInsert => exact (allowsSessions_worked.toSessions.endInsert fuel).bind fun _ => along_pure _
  | ping => exact (talks along_ping).bind fun _ => along_pure _
  | resetConnection => cases noReset
  | resetConnectionEndpoint => cases noReset
  | _ => cases noPing

/-- An operation that pings does so before all its work. -/
theorem opens_perform (fuel : Nat) {op : Client.Operation υ} (pings : op.pings = true) :
    Opens (perform fuel op : ClientM υ ω ι ο (List Block)) := by
  cases op with
  | execute query =>
    exact (opens_beginExecuteQuery query true).bind fun _ => allowsSessions_worked.toSessions.drain fuel
  | selectWithExternalData query tables => exact opens_selectWithExternalData fuel query tables
  | beginSelect query => exact (opens_beginExecuteQuery query true).bind fun _ => along_pure _
  | insert tableName queryId block =>
    exact (opens_insert fuel tableName queryId block).bind fun _ => along_pure _
  | beginInsert query => exact (opens_beginInsert fuel query).bind fun _ => along_pure _
  | _ => cases pings

end Phases

end ClickHouse
