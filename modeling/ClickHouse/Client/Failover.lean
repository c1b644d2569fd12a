import ClickHouse.Client.Frames
import ClickHouse.Client.Script
import Mathlib.Data.List.Rotate
import Mathlib.Data.Multiset.ZeroCons

/-!
# Trying one endpoint after the other

`ResetConnectionEndpoint` starts with the current endpoint and goes on with what
the round-robin iterator returns.  The position of the iterator and the current
endpoint are separate; the attempts cover the list exactly if the iterator
stands on the current endpoint.  Where it does, the client gets to the first
endpoint that works.
-/

namespace ClickHouse

open Kit List Client

variable {υ ω ι ο : Type}

/-- Whether the program throws a `std::system_error`. -/
def throwsSystemError {σ α : Type} (p : EStateM Error σ α) (s : σ) : Bool :=
  match p s with
  | .ok _ _ => false
  | .error e _ => e.isSystemError

theorem throws_of_throwsSystemError {σ α : Type} {p : EStateM Error σ α} {s : σ}
    (thrown : throwsSystemError p s = true) :
    ∃ e t, Throws p s e t ∧ e.isSystemError = true := by
  unfold throwsSystemError at thrown
  split at thrown
  · cases thrown
  · exact ⟨_, _, ‹_›, thrown⟩

/-! ## The iterator -/

/-- The endpoints that the next calls of `Next` return. -/
def following (endpoints : List Endpoint) : Nat → Nat → List Endpoint
  | 0, _ => []
  | n + 1, index =>
    match endpoints[(index + 1) % endpoints.length]? with
    | none => []
    | some endpoint =>
      endpoint :: following endpoints n ((index + 1) % endpoints.length)

/-- What one more call of `Next` moves from the front of the list to its end. -/
theorem rotate_next {α : Type} {l : List α} {i : Nat} {a : α} (at_i : l[i]? = some a) :
    ∃ rest, rest.length + 1 = l.length ∧ l.rotate i = a :: rest ∧ l.rotate (i + 1) = rest ++ [a] := by
  obtain ⟨inside, rfl⟩ := List.getElem?_eq_some_iff.mp at_i
  have front : l.rotate i = l[i] :: (l.drop (i + 1) ++ l.take i) := by
    rw [List.rotate_eq_drop_append_take (Nat.le_of_lt inside), List.drop_eq_getElem_cons inside,
      List.cons_append]
  refine ⟨l.drop (i + 1) ++ l.take i, ?_, front, ?_⟩
  · rw [List.length_append, List.length_drop, List.length_take]
    omega
  · rw [← List.rotate_rotate, front, List.rotate_cons_succ, List.rotate_zero]

theorem following_eq_take (endpoints : List Endpoint) {n : Nat} (fits : n ≤ endpoints.length)
    (index : Nat) : following endpoints n index = (endpoints.rotate (index + 1)).take n := by
  induction n generalizing index with
  | zero => rw [following, take_zero]
  | succ n ih =>
    have inside : (index + 1) % endpoints.length < endpoints.length := Nat.mod_lt _ (by omega)
    obtain ⟨endpoint, found⟩ : ∃ endpoint, endpoints[(index + 1) % endpoints.length]? = some endpoint :=
      ⟨_, getElem?_eq_getElem inside⟩
    obtain ⟨rest, length, front, back⟩ := rotate_next found
    rw [following, found]
    dsimp only
    rw [ih (by omega), back, ← rotate_mod, front, take_succ_cons,
      take_append_of_le_length (by omega)]

variable {endpoint : Endpoint}

/-- A round through the iterator from where it stands. -/
theorem cons_following {endpoints : List Endpoint} {index : Nat}
    (stands : endpoints[index]? = some endpoint) :
    endpoint :: following endpoints (endpoints.length - 1) index = endpoints.rotate index := by
  obtain ⟨rest, length, front, back⟩ := rotate_next stands
  rw [following_eq_take endpoints (by omega), back, front, take_append_of_le_length (by omega),
    take_of_length_le (by omega)]

/-- One endpoint more covers the list exactly if it is the one the iterator stands on. -/
theorem cons_following_perm_iff {endpoints : List Endpoint} {index : Nat}
    (inside : index < endpoints.length) (endpoint : Endpoint) :
    (endpoint :: following endpoints (endpoints.length - 1) index).Perm endpoints ↔
      endpoints[index]? = some endpoint := by
  have stands := getElem?_eq_getElem inside
  have whole := (cons_following stands ▸ rotate_perm endpoints index :
    (endpoints[index] :: following endpoints (endpoints.length - 1) index).Perm endpoints)
  constructor
  · intro covers
    have same := Multiset.coe_eq_coe.mpr (covers.trans whole.symm)
    rw [← Multiset.cons_coe, ← Multiset.cons_coe] at same
    rw [stands, (Multiset.cons_inj_left _).mp same]
  · intro found
    rw [stands] at found
    cases found
    exact whole

/-- `current_index` after the next call of `Next`. -/
def Client.nextIndex (s : Client υ ω ι ο) : Nat := (s.currentIndex + 1) % s.options.endpoints.length

/-- The client after `current_endpoint_` has been set to the next endpoint. -/
def Client.movedTo (s : Client υ ω ι ο) (endpoint : Endpoint) : Client υ ω ι ο :=
  { s with currentIndex := s.nextIndex, currentEndpoint := endpoint }

/-- `Next` has nothing to return only if there is no endpoint at all. -/
theorem Client.endpoints_eq_nil {s : Client υ ω ι ο}
    (missing : s.options.endpoints[s.nextIndex]? = none) : s.options.endpoints = [] := by
  have outside := getElem?_eq_none_iff.mp missing
  unfold nextIndex at outside
  by_contra nonempty
  have inside := Nat.mod_lt (s.currentIndex + 1) (length_pos_iff.mpr nonempty)
  omega

/-! ## The attempts of a reset -/

/-- The endpoints with which `connect` was called. -/
def attempts (history : List Event) : List Endpoint :=
  history.filterMap fun event =>
    match event with
    | .attempted endpoint => some endpoint
    | _ => none

/-- From `s` the client came to `t` by an attempt to connect to the current endpoint. -/
def Attempted (s t : Client υ ω ι ο) : Prop :=
  t.options = s.options ∧ t.currentIndex = s.currentIndex ∧
    ∃ added, t.history = s.history ++ added ∧ attempts added = [s.currentEndpoint]

section Resets

variable [Source Error ι] [Output Error ο] [SocketFactory ω ι ο]

theorem attempted_resetConnection : Along Attempted (resetConnection : ClientM υ ω ι ο Unit) := by
  have connected {greeted : Bool} {s t : Client υ ω ι ο} (reconnected : Reconnected greeted s t) :
      Attempted s t := by
    obtain ⟨_, _, _, _, _, _, rfl⟩ := reconnected
    refine ⟨rfl, rfl, _, rfl, ?_⟩
    cases greeted with
    | true => rfl
    | false => rfl
  refine along_of_ensures fun s => (resetConnection_ensures s).imp ?_ ?_
  · exact fun _ _ reconnected => connected reconnected
  · rintro _ _ (⟨_, rfl⟩ | ⟨_, reconnected⟩)
    · exact ⟨rfl, rfl, _, rfl, rfl⟩
    · exact connected reconnected

/-- A round of `ResetConnectionEndpoint` ends with its reset, or with what follows on the next
endpoint. -/
theorem resetEndpointRound_ensures {lastEndpoint : Endpoint} {again : Error → ClientM υ ω ι ο Unit}
    {s : Client υ ω ι ο} {returns : Unit → Client υ ω ι ο → Prop}
    {throws : Error → Client υ ω ι ο → Prop}
    (resets : Ensures resetConnection s returns fun e t =>
      if e.isSystemError then
        match t.options.endpoints[t.nextIndex]? with
        | some endpoint => Ensures (again e) (t.movedTo endpoint) returns throws
        | none => throws .undefinedBehavior { t with currentIndex := t.nextIndex }
      else throws e { t with currentEndpoint := lastEndpoint }) :
    Ensures (resetEndpointRound lastEndpoint again) s returns throws := by
  refine Ensures.tryCatch (resets.imp (fun _ _ holds => holds) fun e t goesOn => ?_)
  split at goesOn
  · rename_i system
    rw [if_pos system]
    refine Ensures.bind (ensures_get_bind (ensures_set_bind ?_))
    unfold nextIndex at goesOn
    cases found : t.options.endpoints[(t.currentIndex + 1) % t.options.endpoints.length]? with
    | some endpoint =>
      rw [found] at goesOn
      exact ensures_pure (ensures_modify_bind goesOn)
    | none =>
      rw [found] at goesOn
      exact ensures_throw goesOn
  · rename_i notSystem
    rw [if_neg notSystem]
    exact ensures_modify_bind (ensures_throw goesOn)

/-- If all attempts end with a `std::system_error`, there is one for the current endpoint and one
for each that the iterator returns. -/
theorem resetEndpointLoop_attempts (lastEndpoint : Endpoint) (remaining : Nat)
    (s : Client υ ω ι ο) :
    Ensures (resetEndpointLoop lastEndpoint remaining) s (fun _ _ => True) fun e t =>
      e.isSystemError = true → ∃ added, t.history = s.history ++ added ∧
        attempts added = s.currentEndpoint :: following s.options.endpoints remaining s.currentIndex := by
  induction remaining generalizing s with
  | zero =>
    refine resetEndpointRound_ensures ((attempted_resetConnection.ensures s).imp
      (fun _ _ _ => trivial) ?_)
    rintro e t ⟨_, _, added, history, attempt⟩
    split
    · split
      · exact ensures_modify_bind (ensures_throw fun _ => ⟨added, history, attempt⟩)
      · exact fun _ => ⟨added, history, attempt⟩
    · exact fun _ => ⟨added, history, attempt⟩
  | succ remaining ih =>
    refine resetEndpointRound_ensures ((attempted_resetConnection.ensures s).imp
      (fun _ _ _ => trivial) ?_)
    rintro e t ⟨options, index, added, history, attempt⟩
    split
    · rw [following, ← options, ← index]
      unfold nextIndex
      split
      · rename_i endpoint found
        rw [found]
        refine (ih _).imp (fun _ _ _ => trivial) fun e' u rest system => ?_
        obtain ⟨added', history', attempts'⟩ := rest system
        refine ⟨added ++ added', ?_, ?_⟩
        · rw [history', ← append_assoc, ← history]
          rfl
        · rw [attempts, filterMap_append, ← attempts, ← attempts, attempt, attempts']
          rfl
      · exact nofun
    · rename_i notSystem
      exact fun system => absurd system notSystem

/-! ## Whether a reset connects -/

/-- Whether a connection is made when the endpoints are tried in order: `connect` returns for one of
them, and throws nothing but a `std::system_error` before. -/
def connectsTo (options : ClientOptions) : List Endpoint → ω → Bool
  | [], _ => false
  | endpoint :: endpoints, factory =>
    match (SocketFactory.connect options endpoint factory : EStateM.Result _ _ (ι × ο)) with
    | .ok _ _ => true
    | .error e factory => e.isSystemError && connectsTo options endpoints factory

/-- Whether the operation makes a new connection by resetting the old one. -/
def Client.Operation.reconnects (s : Client υ ω ι ο) : Operation υ → Bool
  | .resetConnection => connectsTo s.options [s.currentEndpoint] s.socketFactory
  | .resetConnectionEndpoint => connectsTo s.options (s.currentEndpoint ::
      following s.options.endpoints (s.options.endpoints.length - 1) s.currentIndex) s.socketFactory
  | _ => false

/-- Whether the operation resets the connection. -/
def Client.Operation.resets : Operation υ → Bool
  | .resetConnection => true
  | .resetConnectionEndpoint => true
  | _ => false

omit [Source Error ι] [Output Error ο] in
theorem Client.Operation.resets_of_reconnects {s : Client υ ω ι ο} (op : Operation υ)
    (reconnects : op.reconnects s = true) : op.resets = true := by
  cases op with
  | resetConnection => rfl
  | resetConnectionEndpoint => rfl
  | _ => cases reconnects

variable {factory : ω}

omit [Source Error ι] [Output Error ο] in
theorem connectsTo_of_throws {options : ClientOptions} {e : Error} {factory' : ω}
    (endpoints : List Endpoint)
    (fails : Throws (SocketFactory.connect options endpoint) factory e factory') :
    connectsTo options (endpoint :: endpoints) factory =
      (e.isSystemError && connectsTo options endpoints factory') := by
  unfold Throws at fails
  rw [connectsTo, fails]

omit [Source Error ι] [Output Error ο] in
theorem connectsTo_of_runs {options : ClientOptions} {streams : ι × ο} {factory' : ω}
    (endpoints : List Endpoint)
    (connects : Runs (SocketFactory.connect options endpoint) factory streams factory') :
    connectsTo options (endpoint :: endpoints) factory = true := by
  unfold Runs at connects
  rw [connectsTo, connects]

/-- An idle client stays so. -/
def StaysIdle (s t : Client υ ω ι ο) : Prop := s.state = .idle → t.state = .idle

instance : Std.Refl (StaysIdle : Client υ ω ι ο → Client υ ω ι ο → Prop) := ⟨fun _ => id⟩

instance : IsTrans (Client υ ω ι ο) StaysIdle := ⟨fun _ _ _ first second => second ∘ first⟩

theorem allowsRetries_staysIdle :
    AllowsRetries (StaysIdle : Client υ ω ι ο → Client υ ω ι ο → Prop) where
  sleeps _ := along_zoom fun _ _ => id
  endpoints _ _ := id
  nexts := along_nextEndpoint fun _ _ => id
  resets := by
    refine along_of_ensures fun s => (resetConnection_ensures s).imp ?_ ?_
    · rintro _ _ ⟨_, _, _, _, _, _, rfl⟩ _
      rfl
    · rintro _ _ (⟨_, rfl⟩ | ⟨_, _, _, _, _, _, _, rfl⟩) idle
      · exact idle
      · rfl

/-- A reset makes the client idle exactly if it connects. -/
theorem resetConnection_state (s : Client υ ω ι ο) (endpoints : List Endpoint) :
    Ensures resetConnection s (fun _ t => t.state = .idle ∧
        connectsTo s.options (s.currentEndpoint :: endpoints) s.socketFactory = true)
      fun e t =>
        (t.state = .idle ∧
          connectsTo s.options (s.currentEndpoint :: endpoints) s.socketFactory = true) ∨
        (t.state = s.state ∧ t.options = s.options ∧ t.currentIndex = s.currentIndex ∧
          connectsTo s.options (s.currentEndpoint :: endpoints) s.socketFactory =
            (e.isSystemError && connectsTo s.options endpoints t.socketFactory)) := by
  cases connects : SocketFactory.connect s.options s.currentEndpoint s.socketFactory with
  | error e factory =>
    refine ensures_of ?_ ?_
    · intro _ t run
      cases (resetConnection_of_throws connects).symm.trans run
    · intro e t fails
      obtain ⟨⟩ := (resetConnection_of_throws connects).symm.trans fails
      exact .inr ⟨rfl, rfl, rfl, connectsTo_of_throws endpoints connects⟩
  | ok streams factory =>
    have reaches := connectsTo_of_runs endpoints connects
    have idles {greeted : Bool} {t : Client υ ω ι ο}
        (shook : Shook greeted (s.connectedBy factory streams.1 streams.2) t) : t.state = .idle := by
      obtain ⟨_, _, _, _, _, rfl⟩ := shook
      rfl
    refine (resetConnection_of_connect connects).imp ?_ ?_
    · exact fun _ _ run => ⟨idles ((handshake_ensures _).of_runs run), reaches⟩
    · rintro _ _ (fails | ⟨run, _⟩)
      · obtain ⟨_, shook⟩ := (handshake_ensures _).of_throws fails
        exact .inl ⟨idles shook, reaches⟩
      · exact .inl ⟨idles ((handshake_ensures _).of_runs run), reaches⟩

/-- From `s` the client came to `t` by trying the current endpoint and those that follow it. -/
def TriedEndpoints (remaining : Nat) (s t : Client υ ω ι ο) : Prop :=
  t.state = if connectsTo s.options
    (s.currentEndpoint :: following s.options.endpoints remaining s.currentIndex) s.socketFactory
  then .idle else s.state

theorem resetEndpointLoop_state (lastEndpoint : Endpoint) (remaining : Nat) :
    Along (TriedEndpoints remaining)
      (resetEndpointLoop lastEndpoint remaining : ClientM υ ω ι ο Unit) := by
  induction remaining with
  | zero =>
    apply along_of_ensures
    intro s
    apply resetEndpointRound_ensures
    unfold TriedEndpoints
    refine (resetConnection_state s []).imp ?_ ?_
    · intro _ t returned
      rcases returned with ⟨idle, reaches⟩
      rw [following, reaches, if_pos rfl, idle]
    · intro e t thrown
      rcases thrown with ⟨idle, reaches⟩ | ⟨same, _, _, reaches⟩
      · rw [following, reaches, if_pos rfl]
        split
        · split
          · exact ensures_modify_bind (ensures_throw idle)
          · exact idle
        · exact idle
      · rw [connectsTo, Bool.and_false] at reaches
        rw [following, reaches, if_neg Bool.false_ne_true]
        split
        · split
          · exact ensures_modify_bind (ensures_throw same)
          · exact same
        · exact same
  | succ remaining ih =>
    apply along_of_ensures
    intro s
    apply resetEndpointRound_ensures
    refine (resetConnection_state s (following s.options.endpoints (remaining + 1)
      s.currentIndex)).imp ?_ ?_
    · intro _ t returned
      rcases returned with ⟨idle, reaches⟩
      unfold TriedEndpoints
      rw [reaches, if_pos rfl, idle]
    · intro e t thrown
      rcases thrown with ⟨idle, reaches⟩ | ⟨same, options, index, reaches⟩
      · unfold TriedEndpoints
        rw [reaches, if_pos rfl]
        split
        · split
          · rename_i endpoint _
            refine ((allowsRetries_staysIdle.toRetries.resetEndpointLoop lastEndpoint remaining).ensures
              (t.movedTo endpoint)).imp ?_ ?_
            · exact fun _ _ stays => stays idle
            · exact fun _ _ stays => stays idle
          · exact idle
        · exact idle
      · split
        · rename_i system
          rw [system, Bool.true_and] at reaches
          split
          · rename_i endpoint found
            have tail : following s.options.endpoints (remaining + 1) s.currentIndex =
                endpoint :: following t.options.endpoints remaining t.nextIndex := by
              unfold nextIndex at found ⊢
              rw [following, ← options, ← index, found]
            have goesOn (u : Client υ ω ι ο)
                (tried : TriedEndpoints remaining (t.movedTo endpoint) u) :
                TriedEndpoints (remaining + 1) s u := by
              unfold TriedEndpoints at tried ⊢
              rw [reaches, tail, ← options, ← same]
              exact tried
            exact (ih.ensures (t.movedTo endpoint)).imp (fun _ => goesOn) fun _ => goesOn
          · rename_i missing
            unfold nextIndex at missing
            unfold TriedEndpoints
            rw [reaches, following, ← options, ← index, missing, connectsTo,
              if_neg Bool.false_ne_true]
            exact same
        · rename_i notSystem
          rw [Bool.not_eq_true] at notSystem
          unfold TriedEndpoints
          rw [reaches, notSystem, Bool.false_and, if_neg Bool.false_ne_true]
          exact same

/-- An operation that resets the connection makes the client idle exactly if it connects. -/
theorem state_perform_resets [Hashing] [Codec] (fuel : Nat) {op : Client.Operation υ}
    (resets : op.resets = true) :
    Along (fun s t => t.state = if op.reconnects s then .idle else s.state)
      (perform fuel op : ClientM υ ω ι ο (List Block)) := by
  cases op with
  | resetConnection =>
    refine Along.bind_pure (along_of_ensures fun s => (resetConnection_state s []).imp ?_ ?_) _
    · intro _ t returned
      rcases returned with ⟨idle, reaches⟩
      rw [Client.Operation.reconnects, reaches, if_pos rfl, idle]
    · intro e t thrown
      rcases thrown with ⟨idle, reaches⟩ | ⟨same, _, _, reaches⟩
      · rw [Client.Operation.reconnects, reaches, if_pos rfl, idle]
      · rw [connectsTo, Bool.and_false] at reaches
        rw [Client.Operation.reconnects, reaches, if_neg Bool.false_ne_true, same]
  | resetConnectionEndpoint =>
    have tried : Along (fun s t : Client υ ω ι ο =>
        TriedEndpoints (s.options.endpoints.length - 1) s t) resetConnectionEndpoint :=
      fun s => resetEndpointLoop_state _ _ s
    exact tried.bind_pure _
  | _ => cases resets

/-! ## Coverage of the list -/

/-- The options stay, and the iterator stays inside the list. -/
def KeepsIterator (s t : Client υ ω ι ο) : Prop :=
  t.options = s.options ∧
    (s.currentIndex < s.options.endpoints.length → t.currentIndex < t.options.endpoints.length)

instance : Std.Refl (KeepsIterator : Client υ ω ι ο → Client υ ω ι ο → Prop) :=
  ⟨fun _ => ⟨rfl, id⟩⟩

instance : IsTrans (Client υ ω ι ο) KeepsIterator :=
  ⟨fun _ _ _ first second => ⟨second.1.trans first.1, second.2 ∘ first.2⟩⟩

theorem allowsOperations_keepsIterator :
    AllowsOperations (KeepsIterator : Client υ ω ι ο → Client υ ω ι ο → Prop) where
  sleeps _ := along_zoom fun _ _ => ⟨rfl, id⟩
  resets := by
    apply along_of_ensures
    intro s
    refine (resetConnection_ensures s).imp ?_ ?_
    · intro _ t reconnected
      rcases reconnected with ⟨_, _, _, _, _, _, rfl⟩
      exact ⟨rfl, id⟩
    · intro _ t thrown
      rcases thrown with ⟨_, rfl⟩ | ⟨_, _, _, _, _, _, _, rfl⟩
      · exact ⟨rfl, id⟩
      · exact ⟨rfl, id⟩
  endpoints _ _ := ⟨rfl, id⟩
  nexts := by
    apply along_of_ensures
    intro s
    have inside (inside : s.currentIndex < s.options.endpoints.length) :
        (s.currentIndex + 1) % s.options.endpoints.length < s.options.endpoints.length :=
      Nat.mod_lt _ (by omega)
    refine (nextEndpoint_ensures s).imp ?_ ?_
    · intro _ t moved
      rcases moved with ⟨rfl, _⟩
      exact ⟨rfl, inside⟩
    · intro _ t moved
      rcases moved with ⟨rfl, _⟩
      exact ⟨rfl, inside⟩
  talks s t talked := by
    rcases talked with ⟨_, _, _, _, _, rfl⟩
    exact ⟨rfl, id⟩
  sessions _ _ _ _ _ := ⟨rfl, id⟩

theorem iteratorInside_create {opts : ClientOptions} {user : υ} {client : Client υ ω ι ο}
    (created : Client.create opts factory user = .ok client) :
    client.currentIndex < client.options.endpoints.length := by
  obtain ⟨first, rest, endpoints, run⟩ := Client.create_ok created
  obtain ⟨_, s, connects, finishes⟩ := runs_bind_iff.mp run
  have keeps := allowsOperations_keepsIterator.toRetries.createConnection.of_runs connects
  cases finishes
  refine keeps.2 ?_
  show 0 < (modifyClientOptions opts).endpoints.length
  rw [endpoints]
  exact Nat.succ_pos _

theorem iteratorInside_run [Hashing] [Codec] {client : Client υ ω ι ο}
    (inside : client.currentIndex < client.options.endpoints.length)
    (ops : List (Nat × Client.Operation υ)) :
    (ops.foldl takeStep client).currentIndex <
      (ops.foldl takeStep client).options.endpoints.length := by
  induction ops generalizing client with
  | nil => exact inside
  | cons op ops ih =>
    exact ih ((allowsOperations_keepsIterator.toOperates.perform op.1 op.2 client).2 inside)

/-- If `ResetConnectionEndpoint` throws a `std::system_error`, all its attempts did, and it has
tried every endpoint exactly once if and only if the iterator stood on the current endpoint. -/
theorem attempts_once_iff [Hashing] [Codec] {opts : ClientOptions} {factory : ω} {user : υ}
    {client : Client υ ω ι ο} (created : Client.create opts factory user = .ok client)
    (ops : List (Nat × Client.Operation υ)) {s t : Client υ ω ι ο} {e : Error}
    (reached : ops.foldl takeStep client = s) (distinct : s.options.endpoints.Nodup)
    (throws : Throws resetConnectionEndpoint s e t) (system : e.isSystemError = true) :
    (∀ endpoint ∈ s.options.endpoints,
        (attempts (t.history.drop s.history.length)).count endpoint = 1) ↔
      s.options.endpoints[s.currentIndex]? = some s.currentEndpoint := by
  have inside : s.currentIndex < s.options.endpoints.length := by
    rw [← reached]
    exact iteratorInside_run (iteratorInside_create created) ops
  have loop : Throws (resetEndpointLoop s.currentEndpoint (s.options.endpoints.length - 1)) s e t :=
    throws
  obtain ⟨added, history, attempted⟩ := (resetEndpointLoop_attempts _ _ s).of_throws loop system
  rw [history, drop_left, attempted, ← cons_following_perm_iff inside]
  constructor
  · intro once
    have covers : s.options.endpoints ⊆ s.currentEndpoint ::
        following s.options.endpoints (s.options.endpoints.length - 1) s.currentIndex := by
      intro endpoint configured
      rw [← one_le_count_iff, once endpoint configured]
    refine ((subperm_of_subset distinct covers).perm_of_length_le ?_).symm
    rw [following_eq_take _ (Nat.sub_le _ _), length_cons, length_take,
      length_rotate]
    omega
  · intro covers endpoint configured
    rw [covers.count_eq]
    exact count_eq_one_of_mem distinct configured

end Resets

/-- Two endpoints, none of which can be reached any more. -/
theorem attempts_once_unreachable :
    letI := lengthHashing
    letI : Codec := storingCodec
    ∃ client t : Client Unit Script ScriptedInput (BufferedOutput Sink), ∃ e,
      Client.create sampleOptions ⟨[closedAfter (oldHello 51554)]⟩ () = .ok client ∧
      Throws resetConnectionEndpoint client e t ∧ e.isSystemError = true ∧
      ∀ endpoint ∈ client.options.endpoints,
        (attempts (t.history.drop client.history.length)).count endpoint = 1 := by
  let _ := lengthHashing
  let _ : Codec := storingCodec
  have returns : (Client.create sampleOptions (⟨[closedAfter (oldHello 51554)]⟩ : Script)
      ()).toOption.any (fun client => client.options.endpoints.Nodup ∧
        client.options.endpoints[client.currentIndex]? = some client.currentEndpoint ∧
        throwsSystemError resetConnectionEndpoint client) = true := by decide +kernel
  obtain ⟨client, created, distinct, stands, thrown⟩ := exists_of_any returns
  obtain ⟨e, t, throws, system⟩ := throws_of_throwsSystemError thrown
  exact ⟨client, t, e, created, throws, system,
    (attempts_once_iff created [] rfl distinct throws system).mpr stands⟩

/-- The first endpoint cannot be reached, the second one does not greet: the iterator stays on the
second, and the next reset tries the first one twice. -/
theorem not_attempts_once_ungreeted :
    letI := lengthHashing
    letI : Codec := storingCodec
    ∃ client t : Client Unit Script ScriptedInput (BufferedOutput Sink), ∃ e,
      Client.create sampleOptions ⟨[closedAfter (oldHello 51554),
        .error (.systemError (ascii "fail to connect")), closedAfter []]⟩ () = .ok client ∧
      (takeStep client (1, .resetConnectionEndpoint)).options.endpoints.Nodup ∧
      Throws resetConnectionEndpoint (takeStep client (1, .resetConnectionEndpoint)) e t ∧
      e.isSystemError = true ∧
      ¬ ∀ endpoint ∈ client.options.endpoints, (attempts (t.history.drop
        (takeStep client (1, .resetConnectionEndpoint)).history.length)).count endpoint = 1 := by
  let _ := lengthHashing
  let _ : Codec := storingCodec
  have returns : (Client.create sampleOptions (⟨[closedAfter (oldHello 51554),
      .error (.systemError (ascii "fail to connect")), closedAfter []]⟩ : Script) ()).toOption.any
      (fun client =>
        (takeStep client (1, .resetConnectionEndpoint)).options.endpoints.Nodup ∧
        throwsSystemError resetConnectionEndpoint (takeStep client (1, .resetConnectionEndpoint)) ∧
        ¬ ∀ endpoint ∈ client.options.endpoints, (attempts ((after resetConnectionEndpoint
          (takeStep client (1, .resetConnectionEndpoint))).history.drop
          (takeStep client (1, .resetConnectionEndpoint)).history.length)).count endpoint = 1) =
      true := by decide +kernel
  obtain ⟨client, created, distinct, thrown, twice⟩ := exists_of_any returns
  obtain ⟨e, t, throws, system⟩ := throws_of_throwsSystemError thrown
  rw [throws.after_eq] at twice
  exact ⟨client, t, e, created, distinct, throws, system, twice⟩

/-! ## Endpoints that work -/

section Working

variable [Source Error ι] [Output Error ο] [SocketFactory ω ι ο]

variable (υ ω ι ο) in
/-- Whether `ResetConnection` succeeds is up to the endpoint: on the others it ends with a
`std::system_error`. -/
def Steady (options : ClientOptions) (works : Endpoint → Bool) : Prop :=
  ∀ s : Client υ ω ι ο, s.options = options → Ensures resetConnection s
    (fun _ _ => works s.currentEndpoint = true)
    fun e _ => works s.currentEndpoint = false ∧ e.isSystemError = true

/-- The current endpoint is the one that the iterator of the client stands on. -/
def Client.StandsOn (endpoint : Endpoint) (s : Client υ ω ι ο) : Prop :=
  s.options.endpoints[s.currentIndex]? = some endpoint ∧ s.currentEndpoint = endpoint

theorem resetConnection_stays : Along (fun s t : Client υ ω ι ο => t.options = s.options ∧
    t.currentIndex = s.currentIndex ∧ t.currentEndpoint = s.currentEndpoint) resetConnection := by
  refine along_of_ensures fun s => (resetConnection_ensures s).imp ?_ ?_
  · rintro _ _ ⟨_, _, _, _, _, _, rfl⟩
    exact ⟨rfl, rfl, rfl⟩
  · rintro _ _ (⟨_, rfl⟩ | ⟨_, _, _, _, _, _, _, rfl⟩) <;> exact ⟨rfl, rfl, rfl⟩

variable {options : ClientOptions} {works : Endpoint → Bool} {endpoint current : Endpoint}
  {s : Client υ ω ι ο}

theorem resetEndpointRound_works (steady : Steady υ ω ι ο options works) {lastEndpoint : Endpoint}
    {again : Error → ClientM υ ω ι ο Unit} {rest : List Endpoint} (same : s.options = options)
    (stands : s.StandsOn current) (found : (current :: rest).find? works = some endpoint)
    (later : ∀ e (t : Client υ ω ι ο), t.options = options → t.currentIndex = s.currentIndex →
      rest.find? works = some endpoint → ∃ next, t.options.endpoints[t.nextIndex]? = some next ∧
        Ensures (again e) (t.movedTo next) (fun _ t => t.options = options ∧ t.StandsOn endpoint)
          fun _ _ => False) :
    Ensures (resetEndpointRound lastEndpoint again) s
      (fun _ t => t.options = options ∧ t.StandsOn endpoint) fun _ _ => False := by
  have outcome := (steady s same).and (resetConnection_stays.ensures s)
  rw [stands.2] at outcome
  refine resetEndpointRound_ensures (outcome.imp ?_ ?_)
  · rintro _ t ⟨succeeds, options', index, endpoint'⟩
    rw [find?_cons_of_pos succeeds] at found
    cases found
    exact ⟨options'.trans same, by rw [options', index]; exact stands.1, endpoint'⟩
  · rintro e t ⟨⟨fails, system⟩, options', index, _⟩
    rw [find?_cons_of_neg (by simp [fails])] at found
    obtain ⟨next, isNext, goesOn⟩ := later e t (options'.trans same) index found
    rw [if_pos system, isNext]
    exact goesOn

/-- The rounds end on the first endpoint that works. -/
theorem resetEndpointLoop_works (steady : Steady υ ω ι ο options works) (lastEndpoint : Endpoint)
    (remaining : Nat) (same : s.options = options) (stands : s.StandsOn current)
    (found : (current :: following options.endpoints remaining s.currentIndex).find? works =
      some endpoint) :
    Ensures (resetEndpointLoop lastEndpoint remaining) s
      (fun _ t => t.options = options ∧ t.StandsOn endpoint) fun _ _ => False := by
  induction remaining generalizing s current with
  | zero =>
    refine resetEndpointRound_works steady same stands found ?_
    intro e t _ _ none
    cases none
  | succ remaining ih =>
    refine resetEndpointRound_works steady same stands found ?_
    intro e t same' index found
    rw [following, ← index] at found
    unfold nextIndex
    rw [same']
    cases next : options.endpoints[(t.currentIndex + 1) % options.endpoints.length]? with
    | none => simp [next] at found
    | some next' =>
      simp only [next] at found
      refine ⟨next', rfl, ih same' ⟨?_, rfl⟩ ?_⟩
      · unfold movedTo nextIndex
        rwa [same']
      · unfold movedTo nextIndex
        rwa [same']

/-- Failing over succeeds while some endpoint works, and ends on the first one that does from the
current one on, where the iterator then stands. -/
theorem resetConnectionEndpoint_works (steady : Steady υ ω ι ο options works)
    (same : s.options = options) (stands : s.StandsOn current)
    (working : ∃ endpoint ∈ options.endpoints, works endpoint = true) :
    ∃ t endpoint, Runs resetConnectionEndpoint s () t ∧ t.options = options ∧ t.StandsOn endpoint ∧
      (options.endpoints.rotate s.currentIndex).find? works = some endpoint := by
  subst same
  obtain ⟨one, configured, succeeds⟩ := working
  have found : ((s.options.endpoints.rotate s.currentIndex).find? works).isSome :=
    find?_isSome.mpr ⟨one, mem_rotate.mpr configured, succeeds⟩
  obtain ⟨endpoint, found⟩ := Option.isSome_iff_exists.mp found
  have order := found
  rw [← cons_following stands.1] at order
  have loop := resetEndpointLoop_works steady s.currentEndpoint _ rfl stands order
  cases ended : resetConnectionEndpoint s with
  | ok _ t =>
    obtain ⟨kept, there⟩ := loop.of_runs ended
    exact ⟨t, endpoint, ended, kept, there, found⟩
  | error e t => exact (loop.of_throws ended).elim

end Working

/-- A network on which only the second endpoint answers. -/
structure SecondAnswers

instance : SocketFactory SecondAnswers ArrayInput Sink where
  connect _ endpoint s :=
    if endpoint = sampleEndpoint 2 then .ok (⟨[0, 0, 1, 1, 1]⟩, ⟨[]⟩) s
    else .error (.systemError (ascii "fail to connect")) s
  sleepFor _ := pure ()

theorem steady_secondAnswers :
    Steady Unit SecondAnswers ArrayInput Sink sampleOptions (· = sampleEndpoint 2) := by
  rintro ⟨options, _, _, _, ⟨⟩, _, _, _, current, _, _, _, _, _⟩ same
  cases same
  by_cases second : current = sampleEndpoint 2
  · subst second
    with_unfolding_all exact (rfl : true = true)
  · have fails : Throws (SocketFactory.connect sampleOptions current) SecondAnswers.mk
        (.systemError (ascii "fail to connect")) ⟨⟩ := if_neg second
    unfold Ensures
    rw [resetConnection_of_throws fails]
    exact ⟨decide_eq_false second, rfl⟩

/-- A client that stands on the first endpoint gets to the second. -/
theorem resetConnectionEndpoint_secondAnswers :
    ∃ t : Client Unit SecondAnswers ArrayInput Sink,
      Runs resetConnectionEndpoint (Client.initial sampleOptions ⟨⟩ () (sampleEndpoint 1)) () t ∧
        t.currentEndpoint = sampleEndpoint 2 := by
  obtain ⟨t, endpoint, run, _, ⟨_, rfl⟩, found⟩ := resetConnectionEndpoint_works
    (s := Client.initial sampleOptions ⟨⟩ () (sampleEndpoint 1)) steady_secondAnswers rfl
    ⟨rfl, rfl⟩ ⟨sampleEndpoint 2, by decide, rfl⟩
  exact ⟨t, run, by simpa using find?_some found⟩

end ClickHouse
