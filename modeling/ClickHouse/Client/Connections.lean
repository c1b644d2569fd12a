import ClickHouse.Client.Alike
import ClickHouse.Client.Phases
import ClickHouse.Client.Responses
import ClickHouse.Kit.Runs

/-!
# Which connection a client is on

`InitializeStreams` replaces the streams before the handshake, and the retry
loops go on after some of its failures.  So a packet can be written to a
connection that was never greeted, and the endpoint that is reported can be
another than the one that is connected.  Neither happens in a run whose resets
leave no half-made connection behind.
-/

namespace ClickHouse

open Kit Client Ensures

variable {υ ω ι ο : Type}

/-! ## Requests and greetings -/

/-- Whether the connection in use is greeted after the events. -/
def greetedAfter : Bool → List Event → Bool
  | greeted, [] => greeted
  | greeted, .attempted _ :: events => greetedAfter greeted events
  | _, .connected _ :: events => greetedAfter false events
  | _, .greeted :: events => greetedAfter true events
  | greeted, .requested _ :: events => greetedAfter greeted events
  | greeted, .called :: events => greetedAfter greeted events

/-- Every packet is written to a connection on which the Hello has been received. -/
def orderlyFrom : Bool → List Event → Bool
  | _, [] => true
  | greeted, .attempted _ :: events => orderlyFrom greeted events
  | _, .connected _ :: events => orderlyFrom false events
  | _, .greeted :: events => orderlyFrom true events
  | greeted, .requested _ :: events => greeted && orderlyFrom greeted events
  | greeted, .called :: events => orderlyFrom greeted events

theorem greetedAfter_append (greeted : Bool) (first second : List Event) :
    greetedAfter greeted (first ++ second) = greetedAfter (greetedAfter greeted first) second := by
  induction first generalizing greeted with
  | nil => rfl
  | cons event first ih =>
    cases event with
    | attempted => exact ih greeted
    | connected => exact ih false
    | greeted => exact ih true
    | requested => exact ih greeted
    | called => exact ih greeted

theorem orderlyFrom_append (greeted : Bool) (first second : List Event) :
    orderlyFrom greeted (first ++ second) =
      (orderlyFrom greeted first && orderlyFrom (greetedAfter greeted first) second) := by
  induction first generalizing greeted with
  | nil => rfl
  | cons event first ih =>
    cases event with
    | attempted => exact ih greeted
    | connected => exact ih false
    | greeted => exact ih true
    | requested =>
      rw [List.cons_append, orderlyFrom, orderlyFrom, ih, Bool.and_assoc]
      rfl
    | called => exact ih greeted

theorem greetedAfter_notes (greeted : Bool) (notes : List (Option ClientCode)) :
    greetedAfter greeted (notes.map .onConnection) = greeted := by
  induction notes with
  | nil => rfl
  | cons what notes ih => cases what <;> exact ih

theorem orderlyFrom_notes (notes : List (Option ClientCode)) :
    orderlyFrom true (notes.map .onConnection) = true := by
  induction notes with
  | nil => rfl
  | cons what notes ih => cases what <;> exact ih

/-- All packets so far were written to greeted connections. -/
def Orderly (s : Client υ ω ι ο) : Prop := orderlyFrom false s.history = true

instance (s : Client υ ω ι ο) : Decidable (Orderly s) := inferInstanceAs (Decidable (_ = _))

/-- The server's Hello has been received on the connection in use. -/
def Client.isGreeted (s : Client υ ω ι ο) : Bool := greetedAfter false s.history

variable {s t : Client υ ω ι ο} {good : ω → Prop} {func : ClientM υ ω ι ο Unit}

/-- What is added to an orderly history after `greetedAfter` keeps it so. -/
theorem Orderly.append {added : List Event} (orderly : Orderly s)
    (history : t.history = s.history ++ added) (adds : orderlyFrom s.isGreeted added = true) :
    Orderly t := by
  unfold Orderly at orderly ⊢
  rw [history, orderlyFrom_append, orderly]
  exact adds

theorem Unconnected.orderly {s t : Client υ ω ι ο} (unconnected : Unconnected s t) :
    (Orderly s → Orderly t) ∧ t.isGreeted = s.isGreeted := by
  rcases unconnected with ⟨_, rfl⟩
  exact ⟨fun orderly => orderly.append rfl rfl, greetedAfter_append _ _ _⟩

theorem Reconnected.orderly {greeted : Bool} {s t : Client υ ω ι ο}
    (reconnected : Reconnected greeted s t) :
    (Orderly s → Orderly t) ∧ t.isGreeted = greeted := by
  rcases reconnected with ⟨_, _, _, _, _, _, rfl⟩
  cases greeted with
  | true => exact ⟨fun orderly => orderly.append rfl rfl, greetedAfter_append _ _ _⟩
  | false => exact ⟨fun orderly => orderly.append rfl rfl, greetedAfter_append _ _ _⟩

/-- The client is on a greeted connection, with an orderly history. -/
def Standing (s : Client υ ω ι ο) : Prop := Orderly s ∧ s.isGreeted = true

theorem Standing.worked {s t : Client υ ω ι ο} (standing : Standing s) (worked : Worked s t) :
    Standing t := by
  rcases standing with ⟨orderly, greeted⟩
  rcases worked with ⟨_, _, _, _, _, _, _, notes, rfl⟩
  constructor
  · apply orderly.append rfl
    rw [greeted]
    exact orderlyFrom_notes notes
  · rw [isGreeted, greetedAfter_append, greetedAfter_notes]
    exact greeted

theorem Standing.talked {s t : Client υ ω ι ο} (standing : Standing s) (talked : Talked s t) :
    Standing t :=
  standing.worked (allowsSessions_worked.talks s t talked)

/-- An orderly history stays so. -/
def KeepsOrderly (s t : Client υ ω ι ο) : Prop := Orderly s → Orderly t

instance : Std.Refl (KeepsOrderly : Client υ ω ι ο → Client υ ω ι ο → Prop) := ⟨fun _ => id⟩

instance : IsTrans (Client υ ω ι ο) KeepsOrderly := ⟨fun _ _ _ first second => second ∘ first⟩

section Networks

variable [Source Error ι] [Output Error ο] [SocketFactory ω ι ο]

theorem allowsRetries_keepsOrderly :
    AllowsRetries (KeepsOrderly : Client υ ω ι ο → Client υ ω ι ο → Prop) where
  sleeps _ := along_zoom fun _ _ => id
  endpoints _ _ := id
  nexts := along_nextEndpoint fun _ _ => id
  resets := by
    apply along_of_ensures
    intro s
    refine (resetConnection_ensures s).imp ?_ ?_
    · exact fun _ _ reconnected => reconnected.orderly.1
    · intro _ t thrown
      rcases thrown with unconnected | ⟨_, reconnected⟩
      · exact unconnected.orderly.1
      · exact reconnected.orderly.1

/-! ## Networks -/

/-- What holds of the network holds after it was used. -/
structure Stable (good : ω → Prop) : Prop where
  connects : ∀ options endpoint factory, good factory →
    good (after (SocketFactory.connect options endpoint) factory)
  sleeps : ∀ n factory, good factory → good (after (SocketFactory.sleepFor n) factory)

/-- On no connection that is made does the handshake throw a `std::system_error`. -/
def QuietOn (υ : Type) (good : ω → Prop) (options : ClientOptions) : Prop :=
  ∀ factory endpoint input output factory', good factory →
    Runs (SocketFactory.connect options endpoint) factory (input, output) factory' →
    ∀ u : Client υ ω ι ο, u.input = some input → u.output = some output →
      ∀ e t, Throws handshake u e t → e.isSystemError = false

/-- From here on no handshake of the network throws a `std::system_error`. -/
def Client.QuietHandshakes (s : Client υ ω ι ο) : Prop :=
  ∃ good : ω → Prop, good s.socketFactory ∧ Stable good ∧ QuietOn υ good s.options

/-- The options and the endpoint stay, and so does what holds of the network. -/
structure KeepsNetwork (good : ω → Prop) (s t : Client υ ω ι ο) : Prop where
  options : t.options = s.options
  endpoint : t.currentEndpoint = s.currentEndpoint
  network : good s.socketFactory → good t.socketFactory

omit [Source Error ι] [Output Error ο] [SocketFactory ω ι ο] in
theorem KeepsNetwork.trans {good : ω → Prop} {s t u : Client υ ω ι ο}
    (first : KeepsNetwork good s t) (second : KeepsNetwork good t u) : KeepsNetwork good s u :=
  ⟨second.options.trans first.options, second.endpoint.trans first.endpoint,
    second.network ∘ first.network⟩

omit [Source Error ι] [Output Error ο] [SocketFactory ω ι ο] in
theorem Talked.keepsNetwork (talked : Talked s t) (good : ω → Prop) : KeepsNetwork good s t := by
  rcases talked with ⟨_, _, _, _, _, rfl⟩
  exact ⟨rfl, rfl, id⟩

/-- A reset either fails in `connect`, or does what the handshake does on a new connection. -/
theorem resetConnection_onNetwork (stable : Stable good) (s : Client υ ω ι ο) :
    Ensures resetConnection s
      (fun _ t => Reconnected true s t ∧ KeepsNetwork good s t ∧ ∃ input output factory,
        Runs (SocketFactory.connect s.options s.currentEndpoint) s.socketFactory (input, output)
          factory ∧ Runs handshake (s.connectedBy factory input output) true t)
      fun e t => KeepsNetwork good s t ∧ (Unconnected s t ∨ (∃ greeted, Reconnected greeted s t) ∧
        ∃ input output factory,
          Runs (SocketFactory.connect s.options s.currentEndpoint) s.socketFactory (input, output)
            factory ∧
          (Throws handshake (s.connectedBy factory input output) e t ∨
            Runs handshake (s.connectedBy factory input output) false t ∧
              e.isSystemError = false)) := by
  have kept := stable.connects s.options s.currentEndpoint s.socketFactory
  cases connects : SocketFactory.connect s.options s.currentEndpoint s.socketFactory with
  | error e factory =>
    have fails : Throws (SocketFactory.connect s.options s.currentEndpoint) s.socketFactory e
        factory := connects
    rw [fails.after_eq] at kept
    refine ensures_of ?_ ?_
    · intro _ t run
      cases (resetConnection_of_throws connects).symm.trans run
    · intro e t thrown
      obtain ⟨⟩ := (resetConnection_of_throws connects).symm.trans thrown
      exact ⟨⟨rfl, rfl, kept⟩, .inl ⟨factory, rfl⟩⟩
  | ok streams factory =>
    have made : Runs (SocketFactory.connect s.options s.currentEndpoint) s.socketFactory streams
        factory := connects
    rw [made.after_eq] at kept
    have keeps {greeted : Bool} {t : Client υ ω ι ο}
        (shook : Shook greeted (s.connectedBy factory streams.1 streams.2) t) :
        KeepsNetwork good s t := by
      rcases shook with ⟨_, _, _, _, _, rfl⟩
      exact ⟨rfl, rfl, kept⟩
    refine (resetConnection_of_connect connects).imp ?_ ?_
    · intro _ t run
      have shook := (handshake_ensures _).of_runs run
      exact ⟨shook.reconnected, keeps shook, _, _, factory, made, run⟩
    · intro e t thrown
      rcases thrown with fails | ⟨run, rfl⟩
      · obtain ⟨greeted, shook⟩ := (handshake_ensures _).of_throws fails
        exact ⟨keeps shook, .inr ⟨⟨greeted, shook.reconnected⟩, _, _, factory, made, .inl fails⟩⟩
      · have shook := (handshake_ensures _).of_runs run
        exact ⟨keeps shook, .inr ⟨⟨false, shook.reconnected⟩, _, _, factory, made, .inr ⟨run, rfl⟩⟩⟩

omit [Source Error ι] [Output Error ο] in
theorem sleepFor_onNetwork (stable : Stable good) (n : Nat) (s : Client υ ω ι ο) :
    Ensures (fromFactory (SocketFactory.sleepFor n)) s
      (fun _ t => KeepsNetwork good s t ∧ ∃ factory, t = { s with socketFactory := factory })
      fun _ t => KeepsNetwork good s t ∧ ∃ factory, t = { s with socketFactory := factory } := by
  refine (ensures_zoom (SocketFactory.sleepFor n) s).imp ?_ ?_
  · intro _ t slept
    rcases slept with ⟨factory, run, rfl⟩
    exact ⟨⟨rfl, rfl, fun holds => run.after_eq ▸ stable.sleeps n s.socketFactory holds⟩, factory, rfl⟩
  · intro _ t slept
    rcases slept with ⟨factory, thrown, rfl⟩
    exact ⟨⟨rfl, rfl, fun holds => thrown.after_eq ▸ stable.sleeps n s.socketFactory holds⟩, factory, rfl⟩

/-! ## The loops of `RetryGuard` -/

omit [Source Error ι] [Output Error ο] [SocketFactory ω ι ο] in
theorem retryRound_ensures {sendRetries : Nat} {again : ClientM υ ω ι ο Bool}
    {returns : Bool → Client υ ω ι ο → Prop} {throws : Error → Client υ ω ι ο → Prop}
    (calls : Ensures func s (fun _ t => returns true t) fun e t =>
      if e.isSystemError && sendRetries ≠ 0 then Ensures again t returns throws else throws e t) :
    Ensures (retryRound func sendRetries again) s returns throws := by
  refine tryCatch (bind (calls.imp (fun _ _ holds => ensures_pure holds) ?_))
  intro e t goesOn
  split at goesOn
  · rename_i retries
    rw [if_pos retries]
    exact goesOn
  · rename_i gives
    rw [if_neg gives]
    exact ensures_throw goesOn

/-- A round of the second loop of `RetryGuard`: the connection to the next endpoint, and the call. -/
theorem failoverRound_ensures {func : ClientM υ ω ι ο Unit} {lastEndpoint : Endpoint}
    {again : Error → ClientM υ ω ι ο Unit} {s : Client υ ω ι ο}
    {returns : Unit → Client υ ω ι ο → Prop} {throws : Error → Client υ ω ι ο → Prop}
    (fails : Client υ ω ι ο → Prop)
    (sleeps : Ensures (fromFactory (SocketFactory.sleepFor s.options.retryTimeout)) s
      (fun _ t =>
        match t.options.endpoints[t.nextIndex]? with
        | some endpoint => Ensures (do resetConnection; func) (t.movedTo endpoint) returns
            fun _ => fails
        | none => fails { t with currentIndex := t.nextIndex })
      fun _ => fails)
    (goesOn : ∀ e t, fails t → Ensures (again e) t returns throws)
    (gives : ∀ e t, fails t → throws e { t with currentEndpoint := lastEndpoint }) :
    Ensures (failoverRound func lastEndpoint again) s returns throws := by
  have handled (e : Error) (t : Client υ ω ι ο) (failed : fails t) :
      Ensures (if e.isSystemError then again e
        else do setEndpoint lastEndpoint; throw e) t returns throws := by
    split
    · exact goesOn e t failed
    · exact ensures_modify_bind (ensures_throw (gives e t failed))
  refine tryCatch (ensures_get_bind (bind (sleeps.imp ?_ handled)))
  intro _ t next
  refine bind (ensures_get_bind (ensures_set_bind ?_))
  unfold nextIndex at next
  cases found : t.options.endpoints[(t.currentIndex + 1) % t.options.endpoints.length]? with
  | some endpoint =>
    rw [found] at next
    exact ensures_pure (ensures_modify_bind (next.imp (fun _ _ holds => holds) handled))
  | none =>
    rw [found] at next
    exact ensures_throw (handled _ _ next)

/-! ## No request before the Hello -/

/-- Between two rounds the reset leaves the client on a greeted connection, unless it throws. -/
theorem standing_retryReset (stable : Stable good) (holds : good s.socketFactory)
    (quiet : QuietOn υ good s.options) (standing : Standing s) :
    Ensures retryReset s (fun _ t => Standing t ∧ KeepsNetwork good s t) fun _ t => Orderly t := by
  refine ensures_get_bind (tryCatch (bind ((sleepFor_onNetwork stable _ s).imp ?_ ?_)))
  · intro _ t slept
    rcases slept with ⟨keeps, factory, rfl⟩
    refine (resetConnection_onNetwork stable _).imp ?_ ?_
    · intro _ u reset
      rcases reset with ⟨reconnected, network, _⟩
      exact ⟨⟨reconnected.orderly.1 standing.1, reconnected.orderly.2⟩, keeps.trans network⟩
    · intro e u thrown
      rcases thrown with ⟨network, unconnected | ⟨⟨greeted, reconnected⟩, _, _, _, made, fails⟩⟩
      · split
        · exact ensures_pure ⟨⟨unconnected.orderly.1 standing.1,
            unconnected.orderly.2.trans standing.2⟩, keeps.trans network⟩
        · exact ensures_throw (unconnected.orderly.1 standing.1)
      · have notSystem : e.isSystemError = false := by
          rcases fails with throws | ⟨_, notSystem⟩
          · exact quiet _ _ _ _ _ (keeps.network holds) made _ rfl rfl e u throws
          · exact notSystem
        rw [notSystem]
        exact ensures_throw (reconnected.orderly.1 standing.1)
  · intro e t slept
    rcases slept with ⟨keeps, factory, rfl⟩
    split
    · exact ensures_pure ⟨standing, keeps⟩
    · exact ensures_throw standing.1

variable [Hashing] [Codec]

theorem standing_retryLoop (stable : Stable good) (sendRetries : Nat) {remaining : Nat}
    (standing : Standing s)
    (quiet : remaining ≠ 0 → good s.socketFactory ∧ QuietOn υ good s.options) :
    Ensures (retryLoop (calling ping) sendRetries remaining) s (fun _ t => Standing t)
      fun _ t => Orderly t := by
  induction remaining generalizing s with
  | zero =>
    apply retryRound_ensures
    refine (along_callingPing.ensures s).imp (fun _ _ talked => standing.talked talked) ?_
    intro e t talked
    split
    · exact ensures_pure (standing.talked talked)
    · exact (standing.talked talked).1
  | succ remaining ih =>
    apply retryRound_ensures
    refine (along_callingPing.ensures s).imp (fun _ _ talked => standing.talked talked) ?_
    intro e t talked
    obtain ⟨holds, handshakes⟩ := quiet (Nat.succ_ne_zero remaining)
    have network := talked.keepsNetwork good
    split
    · refine bind ((standing_retryReset stable (network.network holds)
        (network.options ▸ handshakes) (standing.talked talked)).imp ?_ fun _ _ orderly => orderly)
      intro _ u reset
      rcases reset with ⟨again, keeps⟩
      have both := network.trans keeps
      exact ih again fun _ => ⟨both.network holds, both.options ▸ handshakes⟩
    · exact (standing.talked talked).1

/-- The second loop calls only on connections that were greeted. -/
theorem standing_failoverLoop (lastEndpoint : Endpoint) (remaining : Nat) (orderly : Orderly s) :
    Ensures (failoverLoop (calling ping) lastEndpoint remaining) s (fun _ t => Standing t)
      fun _ t => Orderly t := by
  have round {again : Error → ClientM υ ω ι ο Unit} {s : Client υ ω ι ο} (orderly : Orderly s)
      (goesOn : ∀ e t, Orderly t → Ensures (again e) t (fun _ t => Standing t) fun _ t => Orderly t) :
      Ensures (failoverRound (calling ping) lastEndpoint again) s (fun _ t => Standing t)
        fun _ t => Orderly t := by
    have calls (t : Client υ ω ι ο) (orderly : Orderly t) :
        Ensures (do resetConnection; calling ping) t (fun _ t => Standing t) fun _ t => Orderly t := by
      refine bind ((resetConnection_ensures t).imp ?_ ?_)
      · intro _ u reconnected
        have standing : Standing u := ⟨reconnected.orderly.1 orderly, reconnected.orderly.2⟩
        exact (along_callingPing.ensures u).imp (fun _ _ talked => standing.talked talked)
          fun _ _ talked => (standing.talked talked).1
      · intro _ u thrown
        rcases thrown with unconnected | ⟨_, reconnected⟩
        · exact unconnected.orderly.1 orderly
        · exact reconnected.orderly.1 orderly
    refine failoverRound_ensures Orderly (((along_zoom fun factory t => ?_ : Along KeepsOrderly
      (fromFactory _)).ensures s).imp ?_ ?_) goesOn fun _ _ failed => failed
    · exact id
    · intro _ t slept
      split
      · exact calls _ (slept orderly)
      · exact slept orderly
    · exact fun _ _ slept => slept orderly
  induction remaining generalizing s with
  | zero => exact round orderly fun e t orderly => ensures_modify_bind (ensures_throw orderly)
  | succ remaining ih => exact round orderly fun e t orderly => ih orderly

/-- After a ping before the query the client is on a greeted connection. -/
theorem standing_pingBeforeQuery (standing : Standing s)
    (quiet : s.options.pingBeforeQuery = true → 2 ≤ s.options.sendRetries → s.QuietHandshakes) :
    Ensures pingBeforeQuery s (fun _ t => Standing t) fun _ t => Orderly t := by
  refine ensures_get_bind ?_
  split
  · rename_i pings
    have guarded {good : ω → Prop} (stable : Stable good)
        (handshakes : s.options.sendRetries - 1 ≠ 0 →
          good s.socketFactory ∧ QuietOn υ good s.options) :
        Ensures (retryGuard ping) s (fun _ t => Standing t) fun _ t => Orderly t := by
      refine ensures_get_bind (bind ((standing_retryLoop stable _ standing handshakes).imp ?_
        fun _ _ orderly => orderly))
      intro done t standing
      split
      · exact ensures_pure standing
      · exact ensures_get_bind (standing_failoverLoop _ _ standing.1)
    by_cases retries : 2 ≤ s.options.sendRetries
    · obtain ⟨good, holds, stable, handshakes⟩ := quiet pings retries
      exact guarded stable fun _ => ⟨holds, handshakes⟩
    · have stable : Stable (fun _ : ω => True) := ⟨fun _ _ _ _ => trivial, fun _ _ _ => trivial⟩
      exact guarded stable fun more => absurd more (by omega)
  · exact ensures_pure standing

/-- An operation other than a reset is called on a greeted connection, and if it may retry its ping,
the handshakes of the network throw no `std::system_error`. -/
def MayRequest (s : Client υ ω ι ο) (op : Nat × Client.Operation υ) : Prop :=
  op.2.resets = false → s.isGreeted = true ∧
    (op.2.pings = true → s.options.pingBeforeQuery = true → 2 ≤ s.options.sendRetries →
      s.QuietHandshakes)

theorem orderly_takeStep (s : Client υ ω ι ο) (op : Nat × Client.Operation υ) (orderly : Orderly s)
    (may : MayRequest s op) : Orderly (takeStep s op) := by
  obtain ⟨fuel, op⟩ := op
  cases resets : op.resets with
  | true =>
    have resetsOnly : Along KeepsOrderly (perform fuel op : ClientM υ ω ι ο (List Block)) := by
      cases op with
      | resetConnection => exact allowsRetries_keepsOrderly.resets.bind_pure _
      | resetConnectionEndpoint =>
        exact allowsRetries_keepsOrderly.toRetries.resetConnectionEndpoint.bind_pure _
      | _ => cases resets
    exact resetsOnly s orderly
  | false =>
    obtain ⟨greeted, quiet⟩ := may resets
    have standing : Standing s := ⟨orderly, greeted⟩
    cases pings : op.pings with
    | false => exact (standing.worked (worked_perform fuel resets pings s)).1
    | true =>
      have began {t : Client υ ω ι ο} (began : Began s t) : Orderly t := by
        rcases began with worked | ⟨_, v, ⟨events, rfl⟩, pinged, worked⟩
        · exact (standing.worked worked).1
        · have pinging := standing_pingBeforeQuery (s := { s with events := events }) standing
            (quiet pings)
          exact ((pinging.of_runs pinged).worked worked).1
      have moved : Ensures (perform fuel op) s (fun _ t => Orderly t) fun _ t => Orderly t := by
        refine (opens_perform fuel pings s).imp (fun _ _ => began) ?_
        intro _ t thrown
        rcases thrown with began' | ⟨_, e, v, ⟨events, rfl⟩, stopped, ⟨_, rfl⟩⟩
        · exact began began'
        · have pinging := standing_pingBeforeQuery (s := { s with events := events }) standing
            (quiet pings)
          have pinged : Orderly v := pinging.of_throws stopped
          exact pinged
      exact moved.after_holds

omit [Hashing] [Codec] in
theorem orderly_create {opts : ClientOptions} {factory : ω} {user : υ} {client : Client υ ω ι ο}
    (created : Client.create opts factory user = .ok client) : Orderly client := by
  obtain ⟨first, _, _, run⟩ := Client.create_ok created
  obtain ⟨_, s, connects, finishes⟩ := runs_bind_iff.mp run
  have orderly := allowsRetries_keepsOrderly.toRetries.createConnection.of_runs connects rfl
  cases finishes
  exact orderly

/-- In every run whose operations are called on greeted connections and whose retries meet no
handshake that throws a `std::system_error`, every packet is written after the Hello. -/
theorem orderly_always {opts : ClientOptions} {factory : ω} {user : υ} {client : Client υ ω ι ο}
    (created : Client.create opts factory user = .ok client) {ops : List (Nat × Client.Operation υ)}
    (each : EachStep takeStep MayRequest client ops) : Always takeStep Orderly client ops :=
  always_of_eachStep orderly_takeStep (orderly_create created) each

end Networks

/-- The sample options, with a ping before every query. -/
def pingingOptions (sendRetries : Nat) : ClientOptions :=
  { sampleOptions with pingBeforeQuery := true, sendRetries := sendRetries }

/-- Every connection that is not refused greets the client. -/
def Script.Greets (script : Script) : Prop :=
  ∀ connection ∈ script.connections,
    connection.toOption.all (· = closingStream (oldHello 51554)) = true

instance : DecidablePred Script.Greets := fun script => List.decidableBAll _ script.connections

theorem stable_greets : Stable Script.Greets where
  connects _ _ script greets := by
    obtain ⟨_ | ⟨_ | _, connections⟩⟩ := script
    · exact greets
    · exact fun _ mem => greets _ (List.mem_cons_of_mem _ mem)
    · exact fun _ mem => greets _ (List.mem_cons_of_mem _ mem)
  sleeps _ _ greets := greets

/-- The handshake on a connection that is made by such a network succeeds. -/
theorem exists_runs_handshake_greets {script script' : Script} (greets : script.Greets)
    {options : ClientOptions} {endpoint : Endpoint} {input : ScriptedInput}
    {output : BufferedOutput Sink}
    (made : Runs (SocketFactory.connect options endpoint) script (input, output) script')
    {u : Client υ ω ScriptedInput (BufferedOutput Sink)} (arrives : u.input = some input)
    (hasOutput : u.output = some output) : ∃ t, Runs handshake u true t := by
  obtain ⟨_ | ⟨_ | _, connections⟩⟩ := script
  · cases made
  · cases made
  · obtain ⟨⟩ := made
    have hello : input = closingStream (oldHello 51554) :=
      of_decide_eq_true (greets _ List.mem_cons_self)
    exact exists_runs_handshake (fun _ => trivial) (sendable_oldServer (by decide))
      (hello ▸ arrives) (feeds_oldHello 51554) hasOutput (took_bufferedSink _)

/-- A query after its ping, and a reset that connects again. -/
theorem orderly_always_execute :
    letI := lengthHashing
    letI : Codec := storingCodec
    ∃ client : Client Unit Script ScriptedInput (BufferedOutput Sink),
      Client.create (pingingOptions 2) ⟨[closedAfter (oldHello 51554 ++ [4, 5]),
        closedAfter (oldHello 51554)]⟩ () = .ok client ∧
      Always takeStep Orderly client [(2, .execute sampleQuery), (1, .resetConnection)] := by
  let _ := lengthHashing
  let _ : Codec := storingCodec
  refine exists_created (fun client => client.isGreeted = true ∧ client.socketFactory.Greets)
    (by decide +kernel) ?_
  rintro client created ⟨greeted, greets⟩
  have quiet : client.QuietHandshakes := by
    refine ⟨_, greets, stable_greets, ?_⟩
    intro _ _ _ _ _ greets made u arrives hasOutput e t throws
    obtain ⟨_, shakes⟩ := exists_runs_handshake_greets greets made arrives hasOutput
    cases shakes.symm.trans throws
  exact orderly_always created ⟨fun _ => ⟨greeted, fun _ _ _ => quiet⟩, nofun, trivial⟩

/-- The connection fails, the reset between two rounds connects, but fails before the Hello: the
ping is written to the new connection, after the client's own Hello. -/
theorem not_orderly_retriedPing :
    letI := lengthHashing
    letI : Codec := storingCodec
    ∃ client : Client Unit Script ScriptedInput (BufferedOutput Sink),
      Client.create (pingingOptions 2) ⟨[.ok ⟨oldHello 51554, .systemError (ascii "fail to read")⟩,
        .ok ⟨[], .systemError (ascii "fail to read")⟩]⟩ () = .ok client ∧
      ¬ Always takeStep Orderly client [(1, .execute sampleQuery)] ∧
      (takeStep client (1, .execute sampleQuery)).output.map (·.destination.written) =
        some ((helloPacket client.options).written.flatten ++ [4]) := by
  let _ := lengthHashing
  let _ : Codec := storingCodec
  refine exists_created (fun client => ¬ Orderly (takeStep client (1, .execute sampleQuery)) ∧
    (takeStep client (1, .execute sampleQuery)).output.map (·.destination.written) =
      some ((helloPacket client.options).written.flatten ++ [4])) (by decide +kernel) ?_
  rintro client - ⟨unordered, written⟩
  refine ⟨?_, written⟩
  intro always
  exact unordered always.2

/-! ## The endpoint that is connected -/

/-- The endpoint of the connection in use after the events. -/
def connectedAfter : Option Endpoint → List Event → Option Endpoint
  | last, [] => last
  | _, .connected endpoint :: events => connectedAfter (some endpoint) events
  | last, .attempted _ :: events => connectedAfter last events
  | last, .greeted :: events => connectedAfter last events
  | last, .requested _ :: events => connectedAfter last events
  | last, .called :: events => connectedAfter last events

theorem connectedAfter_append (last : Option Endpoint) (first second : List Event) :
    connectedAfter last (first ++ second) = connectedAfter (connectedAfter last first) second := by
  induction first generalizing last with
  | nil => rfl
  | cons event first ih =>
    cases event with
    | attempted => exact ih last
    | connected endpoint => exact ih (some endpoint)
    | greeted => exact ih last
    | requested => exact ih last
    | called => exact ih last

theorem connectedAfter_notes (last : Option Endpoint) (notes : List (Option ClientCode)) :
    connectedAfter last (notes.map .onConnection) = last := by
  induction notes with
  | nil => rfl
  | cons what notes ih => cases what <;> exact ih

/-- The last endpoint to which a connection was established. -/
def Client.connectedEndpoint (s : Client υ ω ι ο) : Option Endpoint := connectedAfter none s.history

/-- `GetCurrentEndpoint` returns the endpoint that is connected. -/
def Reports (s : Client υ ω ι ο) : Prop := s.connectedEndpoint = some s.currentEndpoint

instance (s : Client υ ω ι ο) : Decidable (Reports s) := inferInstanceAs (Decidable (_ = _))

theorem Unconnected.connectedEndpoint (unconnected : Unconnected s t) :
    t.connectedEndpoint = s.connectedEndpoint := by
  rcases unconnected with ⟨_, rfl⟩
  exact connectedAfter_append _ _ _

theorem Reconnected.connectedEndpoint {greeted : Bool} (reconnected : Reconnected greeted s t) :
    t.connectedEndpoint = some s.currentEndpoint := by
  rcases reconnected with ⟨_, _, _, _, _, _, rfl⟩
  cases greeted with
  | true => exact connectedAfter_append _ _ _
  | false => exact connectedAfter_append _ _ _

theorem Reconnected.reports {greeted : Bool} (reconnected : Reconnected greeted s t) :
    Reports t := by
  have connected := reconnected.connectedEndpoint
  rcases reconnected with ⟨_, _, _, _, _, _, rfl⟩
  exact connected

theorem Worked.connectedEndpoint (worked : Worked s t) :
    t.connectedEndpoint = s.connectedEndpoint ∧ t.currentEndpoint = s.currentEndpoint := by
  rcases worked with ⟨_, _, _, _, _, _, _, notes, rfl⟩
  refine ⟨?_, rfl⟩
  unfold connectedEndpoint
  rw [connectedAfter_append, connectedAfter_notes]

theorem Reports.worked {s t : Client υ ω ι ο} (reports : Reports s) (worked : Worked s t) :
    Reports t := by
  unfold Reports at reports ⊢
  rw [worked.connectedEndpoint.1, worked.connectedEndpoint.2, reports]

section Endpoints

variable [Source Error ι] [Output Error ο] [SocketFactory ω ι ο]

/-- On every connection that is made to another configured endpoint the handshake succeeds, and the
call after it returns. -/
def ReliableOn (good : ω → Prop) (options : ClientOptions) (current : Endpoint)
    (func : ClientM υ ω ι ο Unit) : Prop :=
  ∀ factory, ∀ endpoint ∈ options.endpoints, endpoint ≠ current →
    ∀ input output factory', good factory →
      Runs (SocketFactory.connect options endpoint) factory (input, output) factory' →
      ∀ u : Client υ ω ι ο, u.input = some input → u.output = some output → u.state = .idle →
        ∃ t v, Runs handshake u true t ∧ Runs func t () v

/-- From here on the network is reliable at all endpoints but the current one. -/
def Client.ReliableElsewhere (s : Client υ ω ι ο) (func : ClientM υ ω ι ο Unit) : Prop :=
  ∃ good : ω → Prop, good s.socketFactory ∧ Stable good ∧
    ReliableOn good s.options s.currentEndpoint func

variable {last : Endpoint}

/-- A connection to another endpoint is never left behind by a reset and a call that throw. -/
theorem reports_call (stable : Stable good) (talks : Along Talked func)
    (holds : good s.socketFactory) (reliable : ReliableOn good s.options last func)
    (configured : s.currentEndpoint = last ∨ s.currentEndpoint ∈ s.options.endpoints)
    (connected : s.connectedEndpoint = some last) :
    Ensures (do resetConnection; func) s (fun _ t => Reports t)
      fun _ t => t.connectedEndpoint = some last ∧ KeepsNetwork good s t := by
  -- On another endpoint the handshake and the call have only one end.
  have elsewhere {input : ι} {output : ο} {factory : ω}
      (made : Runs (SocketFactory.connect s.options s.currentEndpoint) s.socketFactory
        (input, output) factory) :
      s.currentEndpoint = last ∨
        ∃ t u, Runs handshake (s.connectedBy factory input output) true t ∧ Runs func t () u := by
    by_cases same : s.currentEndpoint = last
    · exact .inl same
    · have other := configured.resolve_left same
      exact .inr (reliable _ _ other same _ _ _ holds made _ rfl rfl rfl)
  refine bind ((resetConnection_onNetwork stable s).imp ?_ ?_)
  · intro _ t reset
    rcases reset with ⟨reconnected, network, _, _, _, made, shook⟩
    have worked {u : Client υ ω ι ο} (talked : Talked t u) := allowsSessions_worked.talks t u talked
    refine (ensures_outcome func t).imp ?_ ?_
    · exact fun _ u run => reconnected.reports.worked (worked (talks.of_runs run))
    · intro e u thrown
      have talked := talks.of_throws thrown
      refine ⟨?_, network.trans (talked.keepsNetwork good)⟩
      rw [(worked talked).connectedEndpoint.1, reconnected.connectedEndpoint]
      rcases elsewhere made with same | ⟨t', u', shook', returns⟩
      · rw [same]
      · obtain ⟨⟩ := shook.symm.trans shook'
        cases thrown.symm.trans returns
  · intro e t thrown
    rcases thrown with ⟨network, unconnected | ⟨⟨_, reconnected⟩, _, _, _, made, fails⟩⟩
    · exact ⟨unconnected.connectedEndpoint.trans connected, network⟩
    · refine ⟨?_, network⟩
      rw [reconnected.connectedEndpoint]
      rcases elsewhere made with same | ⟨t', u', shook', _⟩
      · rw [same]
      · rcases fails with throws | ⟨shook, _⟩
        · cases throws.symm.trans shook'
        · cases shook.symm.trans shook'

/-- `ResetConnectionEndpoint` goes back to the endpoint that is connected. -/
theorem reports_resetEndpointLoop (stable : Stable good) (remaining : Nat)
    (holds : good s.socketFactory)
    (reliable : ReliableOn good s.options last (pure () : ClientM υ ω ι ο Unit))
    (configured : s.currentEndpoint = last ∨ s.currentEndpoint ∈ s.options.endpoints)
    (connected : s.connectedEndpoint = some last) :
    Ensures (resetEndpointLoop last remaining) s (fun _ t => Reports t) fun _ t => Reports t := by
  have round {again : Error → ClientM υ ω ι ο Unit} {s : Client υ ω ι ο}
      (holds : good s.socketFactory)
      (reliable : ReliableOn good s.options last (pure () : ClientM υ ω ι ο Unit))
      (configured : s.currentEndpoint = last ∨ s.currentEndpoint ∈ s.options.endpoints)
      (connected : s.connectedEndpoint = some last)
      (goesOn : ∀ e t, KeepsNetwork good s t → t.connectedEndpoint = some last →
        ∀ endpoint ∈ t.options.endpoints,
          Ensures (again e) (t.movedTo endpoint) (fun _ t => Reports t) fun _ t => Reports t) :
      Ensures (resetEndpointRound last again) s (fun _ t => Reports t) fun _ t => Reports t := by
    apply resetEndpointRound_ensures
    have reset := reports_call stable (along_pure ()) holds reliable configured connected
    rw [bind_pure_unit] at reset
    refine reset.imp (fun _ _ reports => reports) ?_
    intro e t thrown
    rcases thrown with ⟨connected, network⟩
    split
    · split
      · rename_i endpoint found
        exact goesOn e t network connected endpoint (List.mem_of_getElem? found)
      · rename_i missing
        have empty := t.endpoints_eq_nil missing
        rw [network.options] at empty
        rw [empty] at configured
        have same : s.currentEndpoint = last := configured.resolve_right List.not_mem_nil
        unfold Reports
        rw [network.endpoint, same]
        exact connected
    · exact connected
  induction remaining generalizing s with
  | zero =>
    refine round holds reliable configured connected ?_
    exact fun _ t _ connected _ _ => ensures_modify_bind (ensures_throw connected)
  | succ remaining ih =>
    refine round holds reliable configured connected ?_
    intro e t network connected endpoint listed
    exact ih (network.network holds) (network.options ▸ reliable) (.inr listed) connected

/-- The second loop of `RetryGuard` goes back to the endpoint that is connected. -/
theorem reports_failoverLoop (stable : Stable good) (talks : Along Talked func) (remaining : Nat)
    (holds : good s.socketFactory) (reliable : ReliableOn good s.options last func)
    (connected : s.connectedEndpoint = some last) :
    Ensures (failoverLoop func last remaining) s (fun _ t => Reports t) fun _ t => Reports t := by
  have round {again : Error → ClientM υ ω ι ο Unit} {s : Client υ ω ι ο}
      (holds : good s.socketFactory) (reliable : ReliableOn good s.options last func)
      (connected : s.connectedEndpoint = some last)
      (goesOn : ∀ e t, t.options = s.options → good t.socketFactory →
        t.connectedEndpoint = some last →
        Ensures (again e) t (fun _ t => Reports t) fun _ t => Reports t) :
      Ensures (failoverRound func last again) s (fun _ t => Reports t) fun _ t => Reports t := by
    refine failoverRound_ensures (fun t => t.options = s.options ∧ good t.socketFactory ∧
      t.connectedEndpoint = some last) ?_ ?_ ?_
    · refine (sleepFor_onNetwork stable _ s).imp ?_ ?_
      · intro _ t slept
        rcases slept with ⟨keeps, factory, rfl⟩
        split
        · rename_i endpoint found
          refine (reports_call (s := movedTo { s with socketFactory := factory } endpoint)
            stable talks (keeps.network holds) reliable (.inr (List.mem_of_getElem? found))
            connected).imp (fun _ _ reports => reports) ?_
          intro e t thrown
          rcases thrown with ⟨connected, network⟩
          exact ⟨network.options, network.network (keeps.network holds), connected⟩
        · exact ⟨rfl, keeps.network holds, connected⟩
      · intro _ t slept
        rcases slept with ⟨keeps, _, rfl⟩
        exact ⟨rfl, keeps.network holds, connected⟩
    · exact fun e t failed => goesOn e t failed.1 failed.2.1 failed.2.2
    · exact fun _ _ failed => failed.2.2
  induction remaining generalizing s with
  | zero =>
    exact round holds reliable connected fun _ _ _ _ connected =>
      ensures_modify_bind (ensures_throw connected)
  | succ remaining ih =>
    exact round holds reliable connected fun _ _ options holds connected =>
      ih holds (options ▸ reliable) connected

/-- The endpoint stays, and so does that it is the one that is connected. -/
def KeepsReport (good : ω → Prop) (s t : Client υ ω ι ο) : Prop :=
  KeepsNetwork good s t ∧ (Reports s → Reports t)

instance (good : ω → Prop) :
    Std.Refl (KeepsReport good : Client υ ω ι ο → Client υ ω ι ο → Prop) :=
  ⟨fun _ => ⟨⟨rfl, rfl, id⟩, id⟩⟩

instance (good : ω → Prop) : IsTrans (Client υ ω ι ο) (KeepsReport good) :=
  ⟨fun _ _ _ first second => ⟨first.1.trans second.1, second.2 ∘ first.2⟩⟩

theorem allowsResets_keepsReport (stable : Stable good) :
    AllowsResets (KeepsReport good : Client υ ω ι ο → Client υ ω ι ο → Prop) where
  sleeps n := by
    apply along_of_ensures
    intro s
    refine (sleepFor_onNetwork stable n s).imp ?_ ?_
    · intro _ t slept
      rcases slept with ⟨keeps, _, rfl⟩
      exact ⟨keeps, id⟩
    · intro _ t slept
      rcases slept with ⟨keeps, _, rfl⟩
      exact ⟨keeps, id⟩
  resets := by
    apply along_of_ensures
    intro s
    refine (resetConnection_onNetwork stable s).imp ?_ ?_
    · exact fun _ _ reset => ⟨reset.2.1, fun _ => reset.1.reports⟩
    · intro _ t thrown
      rcases thrown with ⟨network, unconnected | ⟨⟨_, reconnected⟩, _⟩⟩
      · refine ⟨network, fun reports => ?_⟩
        unfold Reports at reports ⊢
        rw [unconnected.connectedEndpoint, network.endpoint, reports]
      · exact ⟨network, fun _ => reconnected.reports⟩

variable [Hashing] [Codec]

/-- The call is noted, and that plays no part. -/
theorem ReliableOn.calling {options : ClientOptions}
    (reliable : ReliableOn good options last (ping : ClientM υ ω ι ο Unit)) :
    ReliableOn good options last (calling ping : ClientM υ ω ι ο Unit) := by
  intro factory endpoint listed other input output factory' holds made u hasInput hasOutput idle
  obtain ⟨t, v, shook, run⟩ :=
    reliable factory endpoint listed other input output factory' holds made u hasInput hasOutput idle
  have alike : Alike t { t with history := t.history ++ [.called] } :=
    ⟨_, t.query, rfl, fun _ => rfl⟩
  obtain ⟨w, same, _⟩ := sessions_alike.ping.of_runs run alike
  exact ⟨t, w, shook, (runs_modify _ t).bind same⟩

theorem reports_pingBeforeQuery (reports : Reports s)
    (reliable : s.options.pingBeforeQuery = true → s.options.sendRetries ≠ 0 →
      s.ReliableElsewhere ping) :
    Ensures pingBeforeQuery s (fun _ t => Reports t) fun _ t => Reports t := by
  refine ensures_get_bind ?_
  split
  · rename_i pings
    refine ensures_get_bind (bind ?_)
    have talks : Along Talked (calling ping : ClientM υ ω ι ο Unit) := along_callingPing
    by_cases retries : s.options.sendRetries = 0
    · have once : Ensures (retryLoop (calling ping) s.options.sendRetries (s.options.sendRetries - 1)) s
          (fun done t => done = true ∧ Talked s t) fun _ t => Talked s t := by
        rw [retries]
        apply retryRound_ensures
        refine (talks.ensures s).imp (fun _ _ talked => ⟨rfl, talked⟩) ?_
        intro e t talked
        rw [if_neg (by simp)]
        exact talked
      refine once.imp ?_ ?_
      · intro done t ended
        rcases ended with ⟨rfl, talked⟩
        exact ensures_pure (reports.worked (allowsSessions_worked.talks s t talked))
      · exact fun _ t talked => reports.worked (allowsSessions_worked.talks s t talked)
    · obtain ⟨good, holds, stable, elsewhere⟩ := reliable pings retries
      have calls : Along (KeepsReport good) (calling ping : ClientM υ ω ι ο Unit) :=
        talks.mono fun s t talked => ⟨talked.keepsNetwork good,
          fun reports => reports.worked (allowsSessions_worked.talks s t talked)⟩
      refine (((allowsResets_keepsReport stable).toResets.retryLoop calls _ _).ensures s).imp ?_ ?_
      · intro done t kept
        rcases kept with ⟨network, keeps⟩
        split
        · exact ensures_pure (keeps reports)
        · refine ensures_get_bind (reports_failoverLoop stable talks _ (network.network holds) ?_
            (keeps reports))
          rw [network.options, network.endpoint]
          exact elsewhere.calling
      · exact fun _ t kept => kept.2 reports
  · exact ensures_pure reports

/-- If the operation can fail over, the network is reliable at all endpoints but the current one. -/
def MayFailOver (s : Client υ ω ι ο) (op : Nat × Client.Operation υ) : Prop :=
  match op.2 with
  | .resetConnection => True
  | .resetConnectionEndpoint => s.ReliableElsewhere (pure ())
  | op => op.pings = true → s.options.pingBeforeQuery = true → s.options.sendRetries ≠ 0 →
      s.ReliableElsewhere ping

theorem reports_takeStep (s : Client υ ω ι ο) (op : Nat × Client.Operation υ) (reports : Reports s)
    (may : MayFailOver s op) : Reports (takeStep s op) := by
  obtain ⟨fuel, op⟩ := op
  have pinging (pings : op.pings = true)
      (reliable : s.options.pingBeforeQuery = true → s.options.sendRetries ≠ 0 →
        s.ReliableElsewhere ping) : Reports (takeStep s (fuel, op)) := by
    have pinged (events : Option (QueryEvents υ)) :=
      reports_pingBeforeQuery (s := { s with events := events }) reports reliable
    have began {t : Client υ ω ι ο} (began : Began s t) : Reports t := by
      rcases began with worked | ⟨_, v, ⟨events, rfl⟩, run, worked⟩
      · exact reports.worked worked
      · exact ((pinged events).of_runs run).worked worked
    refine ((opens_perform fuel pings s).imp (fun _ _ => began) ?_).after_holds
    intro _ t thrown
    rcases thrown with began' | ⟨_, e, v, ⟨events, rfl⟩, stopped, ⟨_, rfl⟩⟩
    · exact began began'
    · have reported : Reports v := (pinged events).of_throws stopped
      exact reported
  have working (noReset : op.resets = false) (noPing : op.pings = false) :
      Reports (takeStep s (fuel, op)) :=
    reports.worked (worked_perform fuel noReset noPing s)
  cases op with
  | resetConnection =>
    have stable : Stable (fun _ : ω => True) := ⟨fun _ _ _ _ => trivial, fun _ _ _ => trivial⟩
    exact ((allowsResets_keepsReport stable).resets.bind_pure _ s).2 reports
  | resetConnectionEndpoint =>
    obtain ⟨good, holds, stable, reliable⟩ := may
    refine after_holds (bind (ensures_get_bind ?_))
    exact (reports_resetEndpointLoop stable _ holds reliable (.inl rfl) reports).imp
      (fun _ _ reports => ensures_pure reports) fun _ _ reports => reports
  | execute query => exact pinging rfl (may rfl)
  | selectWithExternalData query tables => exact pinging rfl (may rfl)
  | beginSelect query => exact pinging rfl (may rfl)
  | insert tableName queryId block => exact pinging rfl (may rfl)
  | beginInsert query => exact pinging rfl (may rfl)
  | nextBlock => exact working rfl rfl
  | cancel => exact working rfl rfl
  | sendInsertBlock block => exact working rfl rfl
  | endInsert => exact working rfl rfl
  | ping => exact working rfl rfl

omit [Hashing] [Codec] in
/-- A reset that returns is connected to the endpoint it reports. -/
theorem resetEndpointLoop_reports (last : Endpoint) (remaining : Nat) (s : Client υ ω ι ο) :
    Ensures (resetEndpointLoop last remaining) s (fun _ t => Reports t) fun _ _ => True := by
  have round {again : Error → ClientM υ ω ι ο Unit} {s : Client υ ω ι ο}
      (goesOn : ∀ e t, Ensures (again e) t (fun _ t => Reports t) fun _ _ => True) :
      Ensures (resetEndpointRound last again) s (fun _ t => Reports t) fun _ _ => True := by
    apply resetEndpointRound_ensures
    refine (resetConnection_ensures s).imp (fun _ _ reconnected => reconnected.reports) ?_
    intro e t _
    split
    · split
      · exact goesOn e _
      · exact trivial
    · exact trivial
  induction remaining generalizing s with
  | zero => exact round fun e t => ensures_modify_bind (ensures_throw trivial)
  | succ remaining ih => exact round fun e t => ih t

omit [Hashing] [Codec] in
theorem reports_create {opts : ClientOptions} {factory : ω} {user : υ} {client : Client υ ω ι ο}
    (created : Client.create opts factory user = .ok client) : Reports client := by
  have round {again : Error → ClientM υ ω ι ο Unit} {s : Client υ ω ι ο}
      (goesOn : ∀ e t, Ensures (again e) t (fun _ t => Reports t) fun _ _ => True) :
      Ensures (createConnectionRound again) s (fun _ t => Reports t) fun _ _ => True := by
    refine tryCatch (ensures_get_bind ((resetEndpointLoop_reports _ _ s).imp
      (fun _ _ reports => reports) fun e t _ => ?_))
    split
    · exact goesOn e t
    · exact ensures_throw trivial
  have loop (remaining : Nat) (s : Client υ ω ι ο) :
      Ensures (createConnectionLoop remaining) s (fun _ t => Reports t) fun _ _ => True := by
    induction remaining generalizing s with
    | zero => exact round fun e t => ensures_throw trivial
    | succ remaining ih => exact round fun e t => ih t
  obtain ⟨first, _, _, run⟩ := Client.create_ok created
  obtain ⟨_, s, connects, finishes⟩ := runs_bind_iff.mp run
  have reports : Reports s := (loop _ _).of_runs connects
  cases finishes
  exact reports

/-- In every run in which an operation fails over only on a network that is reliable at the other
endpoints, the endpoint that is reported is the one that is connected. -/
theorem reports_always {opts : ClientOptions} {factory : ω} {user : υ} {client : Client υ ω ι ο}
    (created : Client.create opts factory user = .ok client) {ops : List (Nat × Client.Operation υ)}
    (each : EachStep takeStep MayFailOver client ops) : Always takeStep Reports client ops :=
  always_of_eachStep reports_takeStep (reports_create created) each

end Endpoints

/-- The first endpoint is refused, and the second one greets. -/
theorem reports_always_failover :
    letI := lengthHashing
    letI : Codec := storingCodec
    ∃ client : Client Unit Script ScriptedInput (BufferedOutput Sink),
      Client.create sampleOptions ⟨[closedAfter (oldHello 51554),
        .error (.systemError (ascii "fail to connect")), closedAfter (oldHello 51554)]⟩ () =
          .ok client ∧
      Always takeStep Reports client [(1, .resetConnectionEndpoint)] := by
  let _ := lengthHashing
  let _ : Codec := storingCodec
  refine exists_created (fun client => client.socketFactory.Greets) (by decide +kernel) ?_
  intro client created greets
  have reliable : client.ReliableElsewhere (pure ()) := by
    refine ⟨_, greets, stable_greets, ?_⟩
    intro _ _ _ _ _ _ _ greets made u arrives hasOutput _
    obtain ⟨t, shakes⟩ := exists_runs_handshake_greets greets made arrives hasOutput
    exact ⟨t, t, shakes, runs_pure _ _⟩
  exact reports_always created ⟨reliable, trivial⟩

/-- The first endpoint cannot be reached, the second one is connected and does not greet: the first
one is reported again. -/
theorem not_reports_ungreeted :
    letI := lengthHashing
    letI : Codec := storingCodec
    ∃ client : Client Unit Script ScriptedInput (BufferedOutput Sink),
      Client.create sampleOptions ⟨[closedAfter (oldHello 51554),
        .error (.systemError (ascii "fail to connect")), closedAfter []]⟩ () = .ok client ∧
      ¬ Always takeStep Reports client [(1, .resetConnectionEndpoint)] := by
  let _ := lengthHashing
  let _ : Codec := storingCodec
  refine exists_created (fun client => ¬ Reports (takeStep client (1, .resetConnectionEndpoint)))
    (by decide +kernel) ?_
  intro client _ wrong always
  exact wrong always.2

end ClickHouse
