import ClickHouse.Client.Operations

/-!
# A network that follows a script

The streams of a connection as a script says: bytes that arrive, then a failure,
and an output that takes everything, behind the buffer of `InitializeStreams`.
-/

namespace ClickHouse

open Kit

/-- An input over which the bytes arrive, and on which every further read fails. -/
structure ScriptedInput where
  arriving : Bytes
  failure : Error
deriving DecidableEq

namespace ScriptedInput

def read (len : Nat) : EStateM Error ScriptedInput Bytes := fun s =>
  if s.arriving = [] ∧ len ≠ 0 then .error s.failure s
  else .ok (s.arriving.take len) { s with arriving := s.arriving.drop len }

def Feeds (s : ScriptedInput) (bs : Bytes) (t : ScriptedInput) : Prop :=
  s.arriving = bs ++ t.arriving ∧ s.failure = t.failure

theorem read_feeds {s t : ScriptedInput} {bs : Bytes} {n : Nat} (feeds : s.Feeds bs t)
    (positive : 0 < n) (fits : n ≤ bs.length) :
    ∃ piece rest m, bs = piece ++ rest ∧ piece ≠ [] ∧ piece.length ≤ n ∧
      Runs (read n) s piece m ∧ m.Feeds rest t := by
  obtain ⟨arriving, failure⟩ := s
  obtain ⟨starts, rfl⟩ := feeds
  dsimp only at starts
  subst starts
  have length : (bs.take n).length = n := by
    rw [List.length_take]
    omega
  have some : bs ≠ [] := List.length_pos_iff.mp (by omega)
  refine ⟨bs.take n, bs.drop n, ⟨bs.drop n ++ t.arriving, t.failure⟩,
    (List.take_append_drop n bs).symm, List.length_pos_iff.mp (by omega), Nat.le_of_eq length, ?_,
    rfl, rfl⟩
  unfold Runs read
  dsimp only
  rw [if_neg (fun none => some (List.append_eq_nil_iff.mp none.1).1),
    List.take_append_of_le_length fits, List.drop_append_of_le_length fits]

instance : DivisibleSource Error ScriptedInput where
  read := read
  next := read
  Feeds := Feeds
  feeds_nil := by
    rintro ⟨_, _⟩ ⟨_, _⟩ ⟨rfl, rfl⟩
    rfl
  read_feeds := read_feeds
  next_feeds := read_feeds
  feeds_append := by
    rintro s t xs ys ⟨starts, failure⟩
    exact ⟨⟨ys ++ t.arriving, t.failure⟩, ⟨starts.trans (List.append_assoc ..), failure⟩, rfl, rfl⟩

end ScriptedInput

/-- What a buffer in front of a sink has taken. -/
theorem took_bufferedSink (output : BufferedOutput Sink) :
    LawfulOutput.Took output (output.destination.written ++ output.filled) :=
  ⟨trivial, _, rfl, rfl⟩

/-- What the calls of `connect` return, one after the other. -/
structure Script where
  connections : List (Except Error ScriptedInput)

instance : SocketFactory Script ScriptedInput (BufferedOutput Sink) where
  connect _ _ := fun s =>
    match s.connections with
    | [] => .error (.systemError (ascii "fail to connect")) s
    | .error e :: connections => .error e ⟨connections⟩
    | .ok input :: connections => .ok (input, .create ⟨[]⟩ 8192) ⟨connections⟩
  sleepFor _ := pure ()

/-- The fields of a Hello packet. -/
def ServerInfo.fields (info : ServerInfo) : Bytes :=
  (writeString info.name).flatten ++
    (writeUInt64 info.versionMajor ++ (writeUInt64 info.versionMinor ++
    (writeUInt64 info.revision ++
    ((if info.revision ≥ dbmsMinRevisionWithServerTimezone then (writeString info.timezone).flatten
      else []) ++
    ((if info.revision ≥ dbmsMinRevisionWithServerDisplayName then
        (writeString info.displayName).flatten
      else []) ++
    (if info.revision ≥ dbmsMinRevisionWithVersionPatch then writeUInt64 info.versionPatch
      else []))))))

/-- The Hello packet of a server. -/
def serverHello (info : ServerInfo) : Bytes :=
  writeUInt64 ServerCode.hello.code ++ info.fields

/-- A server of the given revision, which has no later fields. -/
def oldServer (revision : Nat) : ServerInfo := ⟨ascii "s", [], [], 1, 1, 0, revision⟩

def oldHello (revision : Nat) : Bytes := serverHello (oldServer revision)

/-- The stream of a connection closed by the server after the bytes. -/
def closingStream (bytes : Bytes) : ScriptedInput :=
  ⟨bytes, .protocolError (ascii "connection closed by peer while reading")⟩

def closedAfter (bytes : Bytes) : Except Error ScriptedInput := .ok (closingStream bytes)

def sampleEndpoint (port : UInt16) : Endpoint := ⟨ascii "h", port⟩

/-- Two endpoints, and otherwise the defaults. -/
def sampleOptions : ClientOptions where
  host := []
  port := 9000
  endpoints := [sampleEndpoint 1, sampleEndpoint 2]
  defaultDatabase := ascii "default"
  user := ascii "default"
  password := []
  rethrowExceptions := true
  pingBeforeQuery := false
  sendRetries := 1
  retryTimeout := 5
  compressionMethod := .none
  lowCardinalityAsWrappedColumn := false
  maxCompressionChunkSize := 65535

def sampleQuery : Query Unit := { Query.empty with text := ascii "SELECT 1" }

/-- What a created client satisfies can be evaluated. -/
theorem exists_of_any {α : Type} {created : Except Error α} {P : α → Prop} [DecidablePred P]
    (holds : created.toOption.any (fun a => P a) = true) : ∃ a, created = .ok a ∧ P a := by
  cases created with
  | ok a => exact ⟨a, rfl, of_decide_eq_true holds⟩
  | error e => cases holds

theorem exists_created {α : Type} {created : Except Error α} (P : α → Prop) [DecidablePred P]
    {Q : α → Prop} (holds : created.toOption.any (fun a => P a) = true)
    (shows : ∀ a, created = .ok a → P a → Q a) : ∃ a, created = .ok a ∧ Q a := by
  obtain ⟨a, isOk, property⟩ := exists_of_any holds
  exact ⟨a, isOk, shows a isOk property⟩

/-- Whether the program returns. -/
def returnsFrom {σ α : Type} (p : EStateM Error σ α) (s : σ) : Bool :=
  match p s with
  | .ok _ _ => true
  | .error _ _ => false

theorem runs_of_returnsFrom {σ α : Type} {p : EStateM Error σ α} {s : σ}
    (returned : returnsFrom p s = true) : ∃ a, Runs p s a (after p s) := by
  unfold returnsFrom at returned
  split at returned
  · rename_i a t ended
    have run : Runs p s a t := ended
    exact ⟨a, by rw [run.after_eq]; exact run⟩
  · cases returned

theorem runs_of_run' {σ α : Type} {p : EStateM Error σ α} {s : σ} {a : α}
    (returned : p.run' s = some a) : Runs p s a (after p s) := by
  unfold Runs after
  unfold EStateM.run' EStateM.run at returned
  cases ended : p s with
  | ok b t =>
    rw [ended] at returned
    cases returned
    rfl
  | error e t =>
    rw [ended] at returned
    cases returned

end ClickHouse
