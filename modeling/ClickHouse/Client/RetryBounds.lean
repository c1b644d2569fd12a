import ClickHouse.Client.Alike
import ClickHouse.Client.Failover

/-!
# How often a call is retried

`RetryGuard` calls its function on the current endpoint as often as the options
say, and then as often on every endpoint that the round-robin iterator returns.
It ends after the first call that returns, and with the endpoint it began with
if it throws.
-/

namespace ClickHouse

open Kit Ensures List

variable {υ ω ι ο : Type}

/-- How often `RetryGuard` called its function. -/
def callsIn (history : List Event) : Nat := history.count .called

/-- From `s` to `t` the function was called so often, and these endpoints were tried. -/
structure Metered (calls : Nat) (tried : List Endpoint) (s t : Client υ ω ι ο) : Prop where
  options : t.options = s.options
  history : ∃ added, t.history = s.history ++ added ∧ callsIn added = calls ∧ attempts added = tried

/-- The endpoint and the position of the iterator are the same. -/
structure SameEndpoint (s t : Client υ ω ι ο) : Prop where
  index : t.currentIndex = s.currentIndex
  endpoint : t.currentEndpoint = s.currentEndpoint

/-- Nothing that `RetryGuard` looks at has changed. -/
def LeftAlone (s t : Client υ ω ι ο) : Prop := Metered 0 [] s t ∧ SameEndpoint s t

/-- A program that notes its call and leaves the endpoints alone, however it ends. -/
def CalledOnce (func : ClientM υ ω ι ο Unit) : Prop :=
  Along (fun s t => Metered 1 [] s t ∧ SameEndpoint s t) func

variable {s t u : Client υ ω ι ο} {m n : Nat} {xs ys : List Endpoint}

theorem Metered.refl (s : Client υ ω ι ο) : Metered 0 [] s s :=
  ⟨rfl, [], (append_nil _).symm, rfl, rfl⟩

theorem Metered.trans (first : Metered m xs s t) (second : Metered n ys t u) :
    Metered (m + n) (xs ++ ys) s u := by
  obtain ⟨options, added, history, calls, tried⟩ := first
  obtain ⟨options', added', history', calls', tried'⟩ := second
  refine ⟨options'.trans options, added ++ added', ?_, ?_, ?_⟩
  · rw [history', history, append_assoc]
  · rw [callsIn, count_append, ← callsIn, ← callsIn, calls, calls']
  · rw [attempts, filterMap_append, ← attempts, ← attempts, tried, tried']

theorem SameEndpoint.trans (first : SameEndpoint s t) (second : SameEndpoint t u) :
    SameEndpoint s u :=
  ⟨second.index.trans first.index, second.endpoint.trans first.endpoint⟩

/-- The function was called at most so often. -/
def CallsWithin (bound : Nat) (s t : Client υ ω ι ο) : Prop :=
  ∃ calls ≤ bound, ∃ tried, Metered calls tried s t

theorem CallsWithin.trans {bound more : Nat} (first : CallsWithin bound s t)
    (second : CallsWithin more t u) : CallsWithin (bound + more) s u := by
  obtain ⟨calls, within, tried, metered⟩ := first
  obtain ⟨calls', within', tried', metered'⟩ := second
  exact ⟨calls + calls', Nat.add_le_add within within', tried ++ tried', metered.trans metered'⟩

theorem CallsWithin.mono {bound more : Nat} (within : CallsWithin bound s t)
    (le : bound ≤ more) : CallsWithin more s t := by
  obtain ⟨calls, within, tried⟩ := within
  exact ⟨calls, Nat.le_trans within le, tried⟩

/-- A function that leaves the endpoints alone is called once by each of its calls. -/
theorem calledOnce_calling {func : ClientM υ ω ι ο Unit} (leaves : Along LeftAlone func) :
    CalledOnce (calling func) := by
  intro s
  have called : Metered 1 [] s { s with history := s.history ++ [.called] } :=
    ⟨rfl, [.called], rfl, rfl, rfl⟩
  obtain ⟨metered, same⟩ := leaves { s with history := s.history ++ [.called] }
  exact ⟨called.trans metered, ⟨same.index, same.endpoint⟩⟩

instance : Std.Refl (LeftAlone : Client υ ω ι ο → Client υ ω ι ο → Prop) :=
  ⟨fun s => ⟨.refl s, rfl, rfl⟩⟩

instance : IsTrans (Client υ ω ι ο) LeftAlone :=
  ⟨fun _ _ _ first second => ⟨first.1.trans second.1, first.2.trans second.2⟩⟩

/-- `Ping`, however it ends, leaves the endpoints alone. -/
theorem leftAlone_ping [Source Error ι] [Output Error ο] [Hashing] [Codec] :
    Along LeftAlone (ping : ClientM υ ω ι ο Unit) := by
  have requests (code : ClientCode) :
      Along LeftAlone (note (.requested code) : ClientM υ ω ι ο Unit) :=
    along_modify fun s => ⟨⟨rfl, [.requested code], rfl, rfl, rfl⟩, rfl, rfl⟩
  have reads (s : Client υ ω ι ο) (input : Option ι) (output : Option ο) (user : υ) (block : Block) :
      LeftAlone s { s with input := input, output := output, user := user, insertBlock := block } :=
    ⟨⟨rfl, [], (append_nil _).symm, rfl, rfl⟩, rfl, rfl⟩
  have writes {α : Type} (p : EStateM Error ο α) :
      Along LeftAlone (toOutput p : ClientM υ ω ι ο α) :=
    (streamed_toOutput p).mono fun s _ ⟨input, output, user, written⟩ =>
      written ▸ reads s input output user s.insertBlock
  have cancels : Along LeftAlone (sendCancel : ClientM υ ω ι ο Unit) :=
    (requests .cancel).bind fun _ => (writes _).bind fun _ => writes _
  have receipts : AllowsReceipts (LeftAlone : Client υ ω ι ο → Client υ ω ι ο → Prop) :=
    ⟨fun s input user block => reads s input s.output user block, fun s _ => cancels.ensures s⟩
  refine (along_expectState _ _).bind fun _ => (requests .ping).bind fun _ =>
    (writes _).bind fun _ => (writes _).bind fun _ =>
    receipts.toReceives.processPacket.bind fun ⟨serverPacket, more⟩ => ?_
  dsimp only
  split
  · exact along_pure _
  · exact along_throw _

/-! ## Positions of the iterator -/

/-- The positions that the iterator takes after `index`. -/
def positions (size index count : Nat) : List Nat :=
  (range count).map fun k => (index + 1 + k) % size

/-- In whole rounds every position is taken equally often. -/
theorem count_positions {size p : Nat} (inside : p < size) (index rounds : Nat) :
    (positions size index (size * rounds)).count p = rounds := by
  induction rounds with
  | zero => rfl
  | succ rounds ih =>
    have round : ((range size).map fun k => (index + 1 + (size * rounds + k)) % size) =
        (range size).rotate (index + 1) := by
      apply ext_getElem
      · rw [length_rotate, length_map]
      · intro k _ below
        rw [getElem_rotate, getElem_map, getElem_range, getElem_range,
          length_range, ← Nat.add_assoc, Nat.add_right_comm, Nat.add_mul_mod_self_left,
          Nat.add_comm]
    have once : ((range size).rotate (index + 1)).count p = 1 := by
      rw [(rotate_perm _ _).count_eq]
      exact count_eq_one_of_mem nodup_range (mem_range.mpr inside)
    rw [positions, Nat.mul_succ, range_add, map_append, map_map, count_append,
      ← positions, ih]
    exact congrArg (rounds + ·) (round ▸ once)

theorem following_eq_positions {endpoints : List Endpoint} (nonempty : endpoints ≠ [])
    (index n : Nat) :
    following endpoints n index =
      (positions endpoints.length index n).filterMap (endpoints[·]?) := by
  induction n generalizing index with
  | zero => rfl
  | succ n ih =>
    have inside : (index + 1) % endpoints.length < endpoints.length :=
      Nat.mod_lt _ (length_pos_iff.mpr nonempty)
    obtain ⟨endpoint, found⟩ : ∃ endpoint,
        endpoints[(index + 1) % endpoints.length]? = some endpoint :=
      ⟨_, getElem?_eq_getElem inside⟩
    have next (k : Nat) : ((index + 1) % endpoints.length + 1 + k) % endpoints.length =
        (index + 1 + (k + 1)) % endpoints.length := by
      rw [Nat.add_assoc, Nat.mod_add_mod, Nat.add_comm k]
    rw [following, found]
    dsimp only
    rw [ih, positions, positions, range_succ_eq_map, map_cons, map_map,
      Nat.add_zero, filterMap_cons_some found]
    simp only [Function.comp_def, next]

section Guard

variable [Source Error ι] [Output Error ο] [SocketFactory ω ι ο]

theorem metered_resetConnection : Along
    (fun s t => Metered 0 [s.currentEndpoint] s t ∧ SameEndpoint s t)
    (resetConnection : ClientM υ ω ι ο Unit) := by
  have connected {greeted : Bool} {s t : Client υ ω ι ο} (reconnected : Reconnected greeted s t) :
      Metered 0 [s.currentEndpoint] s t ∧ SameEndpoint s t := by
    obtain ⟨_, _, _, _, _, _, rfl⟩ := reconnected
    refine ⟨⟨rfl, _, rfl, ?_⟩, rfl, rfl⟩
    cases greeted <;> exact ⟨by simp [callsIn], rfl⟩
  refine along_of_ensures fun s => (resetConnection_ensures s).imp
    (fun _ _ reconnected => connected reconnected) ?_
  rintro _ _ (⟨_, rfl⟩ | ⟨_, reconnected⟩)
  · exact ⟨⟨rfl, _, rfl, by simp [callsIn], rfl⟩, rfl, rfl⟩
  · exact connected reconnected

/-- The pauses end. -/
def Awakes (ω : Type) {ι ο : Type} [SocketFactory ω ι ο] : Prop :=
  ∀ (n : Nat) (factory : ω), ∃ factory', Runs (SocketFactory.sleepFor n) factory () factory'

omit [Source Error ι] [Output Error ο] in
theorem runs_sleepFor (awakes : Awakes ω) (n : Nat) (s : Client υ ω ι ο) :
    ∃ factory, Runs (fromFactory (SocketFactory.sleepFor n)) s ()
      { s with socketFactory := factory } := by
  obtain ⟨factory, run⟩ := awakes n s.socketFactory
  exact ⟨factory, run.zoom⟩

variable {func : ClientM υ ω ι ο Unit}

/-- A part of the first loop with at most so many calls.  It leaves the endpoint alone, and keeps a
`std::system_error` to itself unless there are no retries. -/
def RetriesWithin (func : ClientM υ ω ι ο Unit) (sendRetries bound : Nat)
    (p : ClientM υ ω ι ο Bool) : Prop :=
  ∀ s, Ensures p s
    (fun done t => (CallsWithin bound s t ∧ SameEndpoint s t) ∧
      if done then ∃ u, Runs func u () t else 0 < sendRetries)
    fun e t => (CallsWithin bound s t ∧ SameEndpoint s t) ∧
      (e.isSystemError = true → sendRetries = 0)

omit [Source Error ι] [Output Error ο] [SocketFactory ω ι ο] in
theorem RetriesWithin.from {sendRetries bound more : Nat} {p : ClientM υ ω ι ο Bool}
    (retries : RetriesWithin func sendRetries more p)
    (before : CallsWithin bound s t ∧ SameEndpoint s t) {total : Nat} (sum : bound + more ≤ total) :
    Ensures p t
      (fun done u => (CallsWithin total s u ∧ SameEndpoint s u) ∧
        if done then ∃ v, Runs func v () u else 0 < sendRetries)
      fun e u => (CallsWithin total s u ∧ SameEndpoint s u) ∧
        (e.isSystemError = true → sendRetries = 0) := by
  have both {u : Client υ ω ι ο} (after : CallsWithin more t u ∧ SameEndpoint t u) :
      CallsWithin total s u ∧ SameEndpoint s u :=
    ⟨(before.1.trans after.1).mono sum, before.2.trans after.2⟩
  exact (retries t).imp (fun _ _ rest => ⟨both rest.1, rest.2⟩) fun _ _ rest =>
    ⟨both rest.1, rest.2⟩

theorem retryReset_quiet (awakes : Awakes ω) (s : Client υ ω ι ο) :
    Ensures retryReset s (fun _ t => CallsWithin 0 s t ∧ SameEndpoint s t)
      fun e t => e.isSystemError = false ∧ CallsWithin 0 s t ∧ SameEndpoint s t := by
  obtain ⟨factory, sleeps⟩ := runs_sleepFor awakes s.options.retryTimeout s
  have quiet {t : Client υ ω ι ο}
      (reset : Metered 0 [s.currentEndpoint] { s with socketFactory := factory } t ∧
        SameEndpoint { s with socketFactory := factory } t) :
      CallsWithin 0 s t ∧ SameEndpoint s t :=
    ⟨⟨0, Nat.le_refl 0, _, reset.1.options, reset.1.history⟩, reset.2.index, reset.2.endpoint⟩
  refine ensures_get_bind (tryCatch (of_run sleeps
    ((metered_resetConnection.ensures _).imp (fun _ _ => quiet) fun e t reset => ?_)))
  split
  · exact ensures_pure (quiet reset)
  · rename_i other
    exact ensures_throw ⟨Bool.eq_false_of_not_eq_true other, quiet reset⟩

variable (called : CalledOnce func) (awakes : Awakes ω)

include called awakes

theorem retryLoop_within (sendRetries remaining : Nat) :
    RetriesWithin func sendRetries (remaining + 1) (retryLoop func sendRetries remaining) := by
  have round {again : ClientM υ ω ι ο Bool} {bound : Nat}
      (goesOn : 0 < sendRetries → RetriesWithin func sendRetries bound again) :
      RetriesWithin func sendRetries (bound + 1) (retryRound func sendRetries again) := by
    intro s
    refine tryCatch (bind (((ensures_outcome func s).and (called.ensures s)).imp
      ?_ ?_))
    · rintro _ t ⟨run, metered, same⟩
      exact ensures_pure ⟨⟨⟨1, by omega, _, metered⟩, same⟩, s, run⟩
    · rintro e t ⟨-, metered, same⟩
      split
      · rename_i retries
        have positive : 0 < sendRetries := by
          simp only [Bool.and_eq_true, decide_eq_true_eq] at retries
          exact Nat.pos_of_ne_zero retries.2
        exact (goesOn positive).from ⟨⟨1, Nat.le_refl 1, _, metered⟩, same⟩ (by omega)
      · rename_i stops
        refine ensures_throw ⟨⟨⟨1, by omega, _, metered⟩, same⟩, fun system => ?_⟩
        simpa [system] using stops
  induction remaining with
  | zero =>
    exact round fun positive s =>
      ensures_pure ⟨⟨⟨0, Nat.le_refl 0, [], .refl s⟩, rfl, rfl⟩, positive⟩
  | succ remaining ih =>
    refine round fun _ s => bind ((retryReset_quiet awakes s).imp ?_ ?_)
    · exact fun _ t quiet => ih.from quiet (by omega)
    · rintro e t ⟨other, quiet, same⟩
      exact ⟨⟨quiet.mono (by omega), same⟩, fun system => absurd (other.symm.trans system) nofun⟩

/-- A round of the second loop calls the function at most once, on the next endpoint. -/
theorem failoverAttempt_metered {s : Client υ ω ι ο} {endpoint : Endpoint}
    (found : s.options.endpoints[(s.currentIndex + 1) % s.options.endpoints.length]? =
      some endpoint) :
    Ensures (do
      let s ← get
      fromFactory (SocketFactory.sleepFor s.options.retryTimeout)
      setEndpoint (← nextEndpoint)
      resetConnection
      func : ClientM υ ω ι ο Unit) s
      (fun _ t => CallsWithin 1 s t ∧ ∃ u, Runs func u () t)
      fun _ t => t.currentIndex = (s.currentIndex + 1) % s.options.endpoints.length ∧
        ∃ calls ≤ 1, Metered calls [endpoint] s t := by
  obtain ⟨factory, sleeps⟩ := runs_sleepFor awakes s.options.retryTimeout s
  refine ensures_get_bind (of_run sleeps (of_run (runs_nextEndpoint found) ?_))
  refine ensures_modify_bind (bind ((metered_resetConnection.ensures _).imp ?_ ?_))
  · intro _ t ⟨reset, same⟩
    have reset : Metered 0 [endpoint] s t := ⟨reset.options, reset.history⟩
    refine ((ensures_outcome func t).and (called.ensures t)).imp ?_ ?_
    · exact fun _ u ⟨run, metered, _⟩ => ⟨⟨1, Nat.le_refl 1, _, reset.trans metered⟩, t, run⟩
    · exact fun _ u ⟨_, metered, still⟩ =>
        ⟨still.index.trans same.index, 1, Nat.le_refl 1, reset.trans metered⟩
  · exact fun _ t ⟨reset, same⟩ => ⟨same.index, 0, Nat.zero_le 1, reset.options, reset.history⟩

/-- The second loop goes through the endpoints that the iterator returns, and restores the endpoint
if it throws. -/
theorem failoverLoop_metered (lastEndpoint : Endpoint) (remaining : Nat) {s : Client υ ω ι ο}
    (nonempty : s.options.endpoints ≠ []) :
    Ensures (failoverLoop func lastEndpoint remaining) s
      (fun _ t => CallsWithin (remaining + 1) s t ∧ ∃ u, Runs func u () t)
      fun e t => t.currentEndpoint = lastEndpoint ∧ ∃ calls ≤ remaining + 1, ∃ tried,
        Metered calls tried s t ∧ (e.isSystemError = true →
          tried = following s.options.endpoints (remaining + 1) s.currentIndex) := by
  have next (s : Client υ ω ι ο) (nonempty : s.options.endpoints ≠ []) : ∃ endpoint,
      s.options.endpoints[(s.currentIndex + 1) % s.options.endpoints.length]? = some endpoint :=
    ⟨_, getElem?_eq_getElem (Nat.mod_lt _ (length_pos_iff.mpr nonempty))⟩
  have ends {s t : Client υ ω ι ο} {bound calls : Nat} {tried : List Endpoint}
      (within : calls ≤ bound) (metered : Metered calls tried s t) (e : Error)
      (all : e.isSystemError = true → tried = following s.options.endpoints bound s.currentIndex) :
      Ensures (do setEndpoint lastEndpoint; throw e : ClientM υ ω ι ο Unit) t
        (fun _ t => CallsWithin bound s t ∧ ∃ u, Runs func u () t)
        fun e t => t.currentEndpoint = lastEndpoint ∧ ∃ calls ≤ bound, ∃ tried,
          Metered calls tried s t ∧ (e.isSystemError = true →
            tried = following s.options.endpoints bound s.currentIndex) :=
    ensures_modify_bind (ensures_throw
      ⟨rfl, calls, within, tried, ⟨metered.options, metered.history⟩, all⟩)
  induction remaining generalizing s with
  | zero =>
    obtain ⟨endpoint, found⟩ := next s nonempty
    refine tryCatch ((failoverAttempt_metered called awakes found).imp ?_ ?_)
    · exact fun _ _ done => done
    · rintro e t ⟨-, calls, within, metered⟩
      split
      · exact ends within metered e fun _ => by rw [following, found]; rfl
      · rename_i other
        exact ends within metered e fun system => absurd system other
  | succ remaining ih =>
    obtain ⟨endpoint, found⟩ := next s nonempty
    refine tryCatch ((failoverAttempt_metered called awakes found).imp ?_ ?_)
    · exact fun _ _ done => ⟨done.1.mono (by omega), done.2⟩
    · rintro e t ⟨index, calls, within, metered⟩
      split
      · refine (ih (metered.options ▸ nonempty)).imp ?_ ?_
        · exact fun _ u done => ⟨(CallsWithin.trans ⟨calls, within, _, metered⟩ done.1).mono
            (by omega), done.2⟩
        · rintro e' u ⟨restored, calls', within', tried', metered', all⟩
          refine ⟨restored, calls + calls', by omega, _, metered.trans metered', fun system => ?_⟩
          rw [following, found, all system, metered.options, index]
          rfl
      · rename_i other
        exact ends (by omega) metered e fun system => absurd system other

end Guard

section Bounded

variable [Source Error ι] [Output Error ο] [SocketFactory ω ι ο]

/-- From `s` to `t` every position in the list of endpoints was tried so often, and no other. -/
def TriesEach (rounds : Nat) (s t : Client υ ω ι ο) : Prop :=
  ∃ tried : List Nat, (∀ p ∈ tried, p < s.options.endpoints.length) ∧
    (∀ p < s.options.endpoints.length, tried.count p = rounds) ∧
    ∃ calls, Metered calls (tried.filterMap (s.options.endpoints[·]?)) s t

/-- `RetryGuard` calls its function a bounded number of times, returns only after a call that
returned, gives up only after as many attempts on every endpoint, and never leaves the client on
another endpoint than before. -/
theorem retryGuard_bounded {func : ClientM υ ω ι ο Unit} (leaves : Along LeftAlone func)
    (awakes : Awakes ω) {s : Client υ ω ι ο} (nonempty : s.options.endpoints ≠ []) :
    Ensures (retryGuard func) s
      (fun _ t => CallsWithin (max s.options.sendRetries 1 +
          s.options.endpoints.length * s.options.sendRetries) s t ∧ ∃ u, Runs func u () t)
      fun e t => CallsWithin (max s.options.sendRetries 1 +
          s.options.endpoints.length * s.options.sendRetries) s t ∧
        t.currentEndpoint = s.currentEndpoint ∧
        (e.isSystemError = true → 0 < s.options.sendRetries → ∃ m,
          Runs (retryLoop (calling func) s.options.sendRetries (s.options.sendRetries - 1)) s false m ∧
            TriesEach s.options.sendRetries m t) := by
  have called := calledOnce_calling leaves
  have last {t : Client υ ω ι ο} (ran : ∃ u, Runs (calling func) u () t) : ∃ u, Runs func u () t := by
    obtain ⟨u, run⟩ := ran
    obtain ⟨_, _, ⟨⟩, run⟩ := runs_bind_iff.mp run
    exact ⟨_, run⟩
  have first := retryLoop_within called awakes s.options.sendRetries (s.options.sendRetries - 1) s
  have rounds : s.options.sendRetries - 1 + 1 = max s.options.sendRetries 1 := by omega
  rw [rounds] at first
  refine ensures_get_bind (bind (((ensures_outcome _ s).and first).imp ?_ ?_))
  · rintro done m ⟨run, ⟨before, same⟩, ended⟩
    cases done with
    | true => exact ensures_pure ⟨before.mono (Nat.le_add_right _ _), last ended⟩
    | false =>
      have options : m.options = s.options := by
        obtain ⟨_, _, _, metered⟩ := before
        exact metered.options
      have size : 0 < s.options.endpoints.length := length_pos_iff.mpr nonempty
      have attempts : m.options.endpoints.length * m.options.sendRetries - 1 + 1 =
          s.options.endpoints.length * s.options.sendRetries := by
        rw [options]
        exact Nat.sub_add_cancel (Nat.mul_pos size ended)
      have second := failoverLoop_metered called awakes m.currentEndpoint
        (m.options.endpoints.length * m.options.sendRetries - 1) (options.symm ▸ nonempty)
      rw [attempts] at second
      refine ensures_get_bind (second.imp ?_ ?_)
      · exact fun _ t done => ⟨before.trans done.1, last done.2⟩
      · rintro e t ⟨restored, calls, within, tried, metered, all⟩
        refine ⟨before.trans ⟨calls, within, tried, metered⟩, restored.trans same.endpoint,
          fun system _ => ⟨m, run, positions s.options.endpoints.length m.currentIndex
            (s.options.endpoints.length * s.options.sendRetries), ?_, ?_, calls, ?_⟩⟩
        · rw [options]
          intro p taken
          obtain ⟨k, -, rfl⟩ := mem_map.mp taken
          exact Nat.mod_lt _ size
        · rw [options]
          exact fun p inside => count_positions inside _ _
        · have order := all system
          rw [options, following_eq_positions nonempty] at order
          rw [options, ← order]
          exact metered
  · rintro e t ⟨-, ⟨before, same⟩, none⟩
    refine ⟨before.mono (Nat.le_add_right _ _), same.endpoint, fun system positive => ?_⟩
    exact absurd (none system) (Nat.ne_of_gt positive)

end Bounded

/-- A connection on which the Hello arrives and nothing after it. -/
def lostAfterHello : Except Error ScriptedInput :=
  .ok ⟨oldHello 51554, .systemError (ascii "connection reset by peer")⟩

/-- Pings on connections that are lost: on the first one, and after the second endpoint has refused
once more on the first. -/
theorem retryGuard_bounded_lostConnections :
    letI := lengthHashing
    letI : Codec := storingCodec
    ∃ (client m t : Client Unit Script ScriptedInput (BufferedOutput Sink)) (e : Error),
      Client.create sampleOptions ⟨[lostAfterHello, .error (.systemError (ascii "refused")),
        lostAfterHello]⟩ () = .ok client ∧
      Throws (retryGuard ping) client e t ∧ CallsWithin 3 client t ∧
      t.currentEndpoint = client.currentEndpoint ∧ TriesEach 1 m t := by
  let _ := lengthHashing
  let _ : Codec := storingCodec
  have made : (Client.create sampleOptions (⟨[lostAfterHello,
      .error (.systemError (ascii "refused")), lostAfterHello]⟩ : Script) ()).toOption.any
        (fun client => throwsSystemError (retryGuard ping) client = true ∧
          client.options.sendRetries = 1 ∧ client.options.endpoints.length = 2) = true := by
    decide +kernel
  obtain ⟨client, created, stops, retries, endpoints⟩ := exists_of_any made
  have awakes : Awakes Script := fun _ factory => ⟨factory, runs_pure () factory⟩
  obtain ⟨e, t, throws, system⟩ := throws_of_throwsSystemError stops
  obtain ⟨within, restored, tries⟩ := (retryGuard_bounded leftAlone_ping awakes
    (length_pos_iff.mp (endpoints ▸ Nat.two_pos))).of_throws throws
  rw [retries, endpoints] at within
  rw [retries] at tries
  obtain ⟨m, -, each⟩ := tries system Nat.one_pos
  exact ⟨client, m, t, e, created, throws, within, restored, each⟩

end ClickHouse
