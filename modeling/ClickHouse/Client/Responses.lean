import ClickHouse.Client.Frames
import ClickHouse.Client.Script
import ClickHouse.Client.Written
import ClickHouse.BlockRoundTrip

/-!
# What a server sends

The layouts of the packets a server of a given revision sends, and what the
client reads from them.  Two of the readers do not depend on the revision of the
server alone: `ReceiveProgress` takes `total_rows` for granted, and the fields
that a Hello does not carry keep what an earlier server has sent.
-/

namespace ClickHouse

open Kit

/-! ## Exceptions, profiles and table columns -/

/-- An `int32_t` as an unsigned number. -/
def int32Bits (value : Int) : Nat := (value % 2 ^ 32).toNat

/-- The fields of an exception fit what they are sent as. -/
structure Exception.Sendable (e : Exception) : Prop where
  code : -2 ^ 31 ≤ e.code ∧ e.code < 2 ^ 31
  name : e.name.length ≤ maxStringLength
  displayText : e.displayText.length ≤ maxStringLength
  stackTrace : e.stackTrace.length ≤ maxStringLength

/-- An exception without a nested one. -/
def exceptionBody (e : Exception) : Bytes :=
  writeFixedUInt 4 (int32Bits e.code) ++ ((writeString e.name).flatten ++
    ((writeString e.displayText).flatten ++ ((writeString e.stackTrace).flatten ++
    writeFixedUInt 1 0)))

structure Profile.Sendable (profile : Profile) : Prop where
  rows : profile.rows < 2 ^ 64
  blocks : profile.blocks < 2 ^ 64
  bytes : profile.bytes < 2 ^ 64
  rowsBeforeLimit : profile.rowsBeforeLimit < 2 ^ 64

def boolByte (value : Bool) : Bytes := writeFixedUInt 1 value.toNat

def profileInfoBody (profile : Profile) : Bytes :=
  writeUInt64 profile.rows ++ (writeUInt64 profile.blocks ++ (writeUInt64 profile.bytes ++
    (boolByte profile.appliedLimit ++ (writeUInt64 profile.rowsBeforeLimit ++
    boolByte profile.calculatedRowsBeforeLimit))))

/-- The name of a table and the description of its columns. -/
def tableColumnsBody (name columns : Bytes) : Bytes :=
  (writeString name).flatten ++ (writeString columns).flatten

section Decoding

variable {σ : Type} [LawfulSource Error σ]

theorem decodes_readBool (value : Bool) : Decodes (σ := σ) readBool (boolByte value) (some value) := by
  cases value with
  | true => exact (decodes_readFixedUInt (by decide)).bind_pure (.pure _)
  | false => exact (decodes_readFixedUInt (by decide)).bind_pure (.pure _)

theorem decodes_readInt32 {value : Int} (fits : -2 ^ 31 ≤ value ∧ value < 2 ^ 31) :
    Decodes (σ := σ) readInt32 (writeFixedUInt 4 (int32Bits value)) (some value) := by
  have small : int32Bits value < 256 ^ 4 := by
    unfold int32Bits
    omega
  refine (decodes_readFixedUInt small).bind_pure ?_
  have back : (if int32Bits value < 2 ^ 31 then (int32Bits value : Int)
      else int32Bits value - 2 ^ 32) = value := by
    unfold int32Bits
    split
    · omega
    · omega
  dsimp only
  rw [back]
  exact .pure _

theorem decodes_readException {e : Exception} (sendable : e.Sendable) :
    Decodes (σ := σ) readException (exceptionBody e) (some e) := by
  refine (decodes_readInt32 sendable.code).bind ?_
  refine (decodes_readString sendable.name).bind ?_
  refine (decodes_readString sendable.displayText).bind ?_
  refine (decodes_readString sendable.stackTrace).bind ?_
  exact (decodes_readBool false).bind_pure (.pure _)

theorem decodes_readProfileInfo {profile : Profile} (sendable : profile.Sendable) :
    Decodes (σ := σ) readProfileInfo (profileInfoBody profile) (some profile) := by
  refine (decodes_readUInt64 sendable.rows).bind ?_
  refine (decodes_readUInt64 sendable.blocks).bind ?_
  refine (decodes_readUInt64 sendable.bytes).bind ?_
  refine (decodes_readBool _).bind ?_
  refine (decodes_readUInt64 sendable.rowsBeforeLimit).bind ?_
  exact (decodes_readBool _).bind_pure (.pure _)

theorem decodes_readTableColumns {name columns : Bytes} (shortName : name.length ≤ maxStringLength)
    (shortColumns : columns.length ≤ maxStringLength) :
    Decodes (σ := σ) readTableColumns (tableColumnsBody name columns) true := by
  refine (decodes_skipString shortName).bind ?_
  exact decodes_skipString shortColumns

end Decoding

/-! ## Progress -/

structure Progress.Sendable (progress : Progress) : Prop where
  rows : progress.rows < 2 ^ 64
  bytes : progress.bytes < 2 ^ 64
  totalRows : progress.totalRows < 2 ^ 64
  writtenRows : progress.writtenRows < 2 ^ 64
  writtenBytes : progress.writtenBytes < 2 ^ 64

/-- A Progress packet of a server of the revision. -/
def progressBody (revision : Nat) (progress : Progress) : Bytes :=
  writeUInt64 progress.rows ++ (writeUInt64 progress.bytes ++
    ((if revision ≥ dbmsMinRevisionWithTotalRowsInProgress then writeUInt64 progress.totalRows
      else []) ++
    (if revision ≥ dbmsMinRevisionWithClientWriteInfo then
        writeUInt64 progress.writtenRows ++ writeUInt64 progress.writtenBytes
      else [])))

/-- What a packet of the revision carries of it. -/
def Progress.carried (revision : Nat) (progress : Progress) : Progress where
  rows := progress.rows
  bytes := progress.bytes
  totalRows :=
    if revision ≥ dbmsMinRevisionWithTotalRowsInProgress then progress.totalRows else 0
  writtenRows := if revision ≥ dbmsMinRevisionWithClientWriteInfo then progress.writtenRows else 0
  writtenBytes := if revision ≥ dbmsMinRevisionWithClientWriteInfo then progress.writtenBytes else 0

theorem decodes_readProgress {σ : Type} [LawfulSource Error σ] {revision : Nat} {progress : Progress}
    (sendable : progress.Sendable) (sent : dbmsMinRevisionWithTotalRowsInProgress ≤ revision) :
    Decodes (σ := σ) (readProgress revision) (progressBody revision progress)
      (some (progress.carried revision)) := by
  have written : Decodes (σ := σ) (readWriteInfo revision)
      (if revision ≥ dbmsMinRevisionWithClientWriteInfo then
        writeUInt64 progress.writtenRows ++ writeUInt64 progress.writtenBytes else [])
      (some ((progress.carried revision).writtenRows,
        (progress.carried revision).writtenBytes)) := by
    unfold readWriteInfo Progress.carried
    split
    · refine (decodes_readUInt64 sendable.writtenRows).bind ?_
      exact (decodes_readUInt64 sendable.writtenBytes).bind_pure (.pure _)
    · exact .pure _
  have total : (progress.carried revision).totalRows = progress.totalRows := if_pos sent
  unfold progressBody
  rw [if_pos sent]
  refine (decodes_readUInt64 sendable.rows).bind ?_
  refine (decodes_readUInt64 sendable.bytes).bind ?_
  refine (decodes_readUInt64 sendable.totalRows).bind ?_
  refine written.bind_pure ?_
  rw [← total]
  exact .pure _

/-- A number that is read takes at least one byte of the array. -/
theorem ArrayInput.readVarintLoop_ensures (fuel i value : Nat) (s : ArrayInput) :
    Ensures (readVarintLoop fuel i value) s
      (fun read t => read.isSome = true → t.data.length < s.data.length) fun _ _ => False := by
  induction fuel generalizing i value s with
  | zero => exact ensures_pure nofun
  | succ fuel ih =>
    rcases s with ⟨_ | ⟨byte, data⟩⟩
    · exact Ensures.of_run (runs_nil 1) (ensures_pure nofun)
    · refine Ensures.of_run (runs_cons byte data) ?_
      dsimp only
      split
      · exact ensures_pure fun _ => Nat.lt_succ_self _
      · refine (ih _ _ _).imp ?_ fun _ _ never => never
        intro read t shorter some
        exact Nat.lt_succ_of_lt (shorter some)

/-- Without `total_rows` in the packet, the reader takes it from what follows. -/
theorem ArrayInput.readProgress_ensures {revision : Nat} {progress : Progress}
    (sendable : progress.Sendable) (old : revision < dbmsMinRevisionWithTotalRowsInProgress)
    (rest : Bytes) :
    Ensures (readProgress revision) (⟨progressBody revision progress ++ rest⟩ : ArrayInput)
      (fun read t => read.isSome = true → t.data.length < rest.length) fun _ _ => False := by
  have noInfo : ¬ revision ≥ dbmsMinRevisionWithClientWriteInfo := by
    unfold dbmsMinRevisionWithTotalRowsInProgress at old
    unfold dbmsMinRevisionWithClientWriteInfo
    omega
  have packet : progressBody revision progress ++ rest =
      writeUInt64 progress.rows ++ (writeUInt64 progress.bytes ++ rest) := by
    unfold progressBody
    rw [if_neg (Nat.not_le_of_lt old), if_neg noInfo]
    simp only [List.append_nil, List.append_assoc]
  rw [packet]
  refine Ensures.of_run (ArrayInput.runs_of_decodes (decodes_readUInt64 sendable.rows) _) ?_
  refine Ensures.of_run (ArrayInput.runs_of_decodes (decodes_readUInt64 sendable.bytes) _) ?_
  refine Ensures.bind ((ArrayInput.readVarintLoop_ensures _ _ _ _).imp ?_ fun _ _ never => never)
  intro totalRows t shorter
  cases totalRows with
  | none => exact ensures_pure nofun
  | some totalRows =>
    unfold readWriteInfo
    rw [if_neg noInfo]
    exact ensures_pure fun _ => shorter rfl

variable {α : Type} {a : α}

section Clients

variable {υ ω ι ο : Type}

/-- What a read from the input of a client does. -/
theorem runs_fromInput {p : EStateM Error ι α} {s : Client υ ω ι ο} {input m : ι}
    (arrives : s.input = some input) (run : Runs p input a m) :
    Runs (fromInput p) s a { s with input := some m } := by
  refine (runs_get s).bind ?_
  rw [arrives]
  exact Runs.zoom run

theorem fromInput_ensures {p : EStateM Error ι α} {s : Client υ ω ι ο} {input : ι}
    (arrives : s.input = some input) :
    Ensures (fromInput p) s
      (fun a t => ∃ m, Runs p input a m ∧ t = { s with input := some m })
      fun e t => ∃ m, Throws p input e m ∧ t = { s with input := some m } := by
  refine ensures_get_bind ?_
  rw [arrives]
  exact ensures_zoom p s

/-- The input is as it was. -/
def KeepsInput (s t : Client υ ω ι ο) : Prop := t.input = s.input

instance : Std.Refl (KeepsInput : Client υ ω ι ο → Client υ ω ι ο → Prop) := ⟨fun _ => rfl⟩

instance : IsTrans (Client υ ω ι ο) KeepsInput := ⟨fun _ _ _ first second => second.trans first⟩

theorem keepsInput_callback (p : EStateM Error υ α) :
    Along KeepsInput (callback p : ClientM υ ω ι ο α) :=
  along_zoom fun _ _ => rfl

theorem keepsInput_notify {β : Type} (select : Query υ → Option (α → EStateM Error υ β))
    (value : α) : Along KeepsInput (notify select value : ClientM υ ω ι ο Unit) := by
  apply along_get_bind
  intro s
  split
  · exact along_pure _
  · exact (keepsInput_callback _).bind fun _ => along_pure _

/-- A Progress packet is decoded to what it carries, up to its end, exactly if the revision of the
server is one that sends `total_rows`. -/
theorem receiveProgress_iff (s : Client υ ω ArrayInput ο) {progress : Progress}
    (sendable : progress.Sendable) {rest : Bytes}
    (arrives : s.input = some ⟨progressBody s.serverInfo.revision progress ++ rest⟩) :
    receiveProgress s = (do
        notify Query.progressCb (progress.carried s.serverInfo.revision)
        pure (some (progress.carried s.serverInfo.revision))) { s with input := some ⟨rest⟩ } ↔
      dbmsMinRevisionWithTotalRowsInProgress ≤ s.serverInfo.revision := by
  constructor
  · intro same
    by_contra old
    -- Both sides notify, but on the left the input has been read beyond the packet.
    have left : Ensures receiveProgress s
        (fun read t => read.isSome = true → ∀ input, t.input = some input →
          input.data.length < rest.length)
        fun _ t => ∀ input, t.input = some input → input.data.length < rest.length := by
      refine ensures_get_bind (Ensures.bind ((fromInput_ensures arrives).imp ?_ ?_))
      · intro read t reads
        rcases reads with ⟨m, run, rfl⟩
        have shorter := (ArrayInput.readProgress_ensures sendable (Nat.lt_of_not_le old)
          rest).of_runs run
        cases read with
        | none => exact ensures_pure nofun
        | some read =>
          refine Ensures.bind (((keepsInput_notify _ _).ensures _).imp ?_ ?_)
          · intro _ t kept
            refine ensures_pure fun _ input at_input => ?_
            cases kept.symm.trans at_input
            exact shorter rfl
          · intro _ t kept input at_input
            cases kept.symm.trans at_input
            exact shorter rfl
      · intro e t reads
        rcases reads with ⟨m, thrown, rfl⟩
        exact absurd ((ArrayInput.readProgress_ensures sendable (Nat.lt_of_not_le old)
          rest).of_throws thrown) id
    have right : Ensures (do
        notify Query.progressCb (progress.carried s.serverInfo.revision)
        pure (some (progress.carried s.serverInfo.revision)) :
          ClientM υ ω ArrayInput ο (Option Progress)) { s with input := some ⟨rest⟩ }
        (fun read (t : Client υ ω ArrayInput ο) => read.isSome = true ∧ t.input = some ⟨rest⟩)
        fun _ t => t.input = some ⟨rest⟩ := by
      refine Ensures.bind (((keepsInput_notify _ _).ensures _).imp ?_ ?_)
      · exact fun _ _ kept => ensures_pure ⟨rfl, kept⟩
      · exact fun _ _ kept => kept
    unfold Ensures at left right
    rw [same] at left
    split at left
    · rename_i ended
      rw [ended] at right
      exact Nat.lt_irrefl _ (left right.1 _ right.2)
    · rename_i ended
      rw [ended] at right
      exact Nat.lt_irrefl _ (left _ right)
  · intro sent
    have read := runs_fromInput arrives (ArrayInput.runs_of_decodes
      (decodes_readProgress sendable sent) rest)
    exact (runs_get s).bind_eq _ |>.trans (read.bind_eq _)

end Clients

/-- A client connected to a server of the revision, with the bytes still to be read. -/
def connectedTo (revision : Nat) (arriving : Bytes) : Client Unit Unit ArrayInput Unit :=
  { (Client.initial sampleOptions () () (sampleEndpoint 1) : Client Unit Unit ArrayInput Unit) with
    input := some ⟨arriving⟩
    serverInfo := { ServerInfo.initial with revision := revision } }

def sampleProgress : Progress := ⟨1, 2, 3, 4, 5⟩

theorem sendable_sampleProgress : sampleProgress.Sendable :=
  ⟨by decide, by decide, by decide, by decide, by decide⟩

theorem receiveProgress_sampleProgress :
    receiveProgress (connectedTo 54420 (progressBody 54420 sampleProgress ++ [7])) = (do
      notify Query.progressCb (sampleProgress.carried 54420)
      pure (some (sampleProgress.carried 54420))) (connectedTo 54420 [7]) :=
  (receiveProgress_iff (connectedTo 54420 (progressBody 54420 sampleProgress ++ [7]))
    sendable_sampleProgress rfl).mpr (by decide)

/-- The byte after the packet of an older server is taken for `total_rows`. -/
theorem receiveProgress_oldServer :
    Runs receiveProgress (connectedTo 51553 (progressBody 51553 sampleProgress ++ [7]))
        (some ⟨1, 2, 7, 0, 0⟩) (connectedTo 51553 []) ∧
      sampleProgress.carried 51553 = ⟨1, 2, 0, 0, 0⟩ ∧
      ¬ ∃ t, Runs receiveProgress (connectedTo 51553 (progressBody 51553 sampleProgress ++ [7]))
        (some (sampleProgress.carried 51553)) t ∧ t.input = some ⟨[7]⟩ := by
  have run : Runs receiveProgress (connectedTo 51553 (progressBody 51553 sampleProgress ++ [7]))
      (some ⟨1, 2, 7, 0, 0⟩) (connectedTo 51553 []) := rfl
  refine ⟨run, rfl, ?_⟩
  intro decoded
  rcases decoded with ⟨t, other, _⟩
  cases run.symm.trans other

/-! ## The Hello of a server -/

/-- The fields of a Hello fit what they are sent as. -/
structure ServerInfo.Sendable (info : ServerInfo) : Prop where
  name : info.name.length ≤ maxStringLength
  timezone : info.timezone.length ≤ maxStringLength
  displayName : info.displayName.length ≤ maxStringLength
  versionMajor : info.versionMajor < 2 ^ 64
  versionMinor : info.versionMinor < 2 ^ 64
  versionPatch : info.versionPatch < 2 ^ 64
  revision : info.revision < 2 ^ 64

/-- What a Hello carries of the server, with the other fields from before. -/
def ServerInfo.carriedOver (info old : ServerInfo) : ServerInfo :=
  { info with
    timezone := if info.revision ≥ dbmsMinRevisionWithServerTimezone then info.timezone
      else old.timezone
    displayName := if info.revision ≥ dbmsMinRevisionWithServerDisplayName then info.displayName
      else old.displayName
    versionPatch := if info.revision ≥ dbmsMinRevisionWithVersionPatch then info.versionPatch
      else old.versionPatch }

/-- What a Hello alone says of the server. -/
def ServerInfo.announced (info : ServerInfo) : ServerInfo := info.carriedOver .initial

section Receiving

variable {υ ω ι ο : Type} [LawfulSource Error ι]

open LawfulSource

variable {s t : Client υ ω ι ο} {info : ServerInfo} {input last : ι} {rest : Bytes}

theorem readsInto_readServerInfo (sendable : info.Sendable) (old : ServerInfo) :
    ReadsInto (σ := ι) readServerInfo info.fields old (info.carriedOver old) := by
  have fields := (readsInto_readInfo ServerInfo.name
    (readsInto_readStringInto (σ := ι) sendable.name old.name)
      (fun name i => { i with name := name })).andThen <|
    (readsInto_readInfo ServerInfo.versionMajor
      (readsInto_readVarint64Into sendable.versionMajor _)
      (fun n i => { i with versionMajor := n })).andThen <|
    (readsInto_readInfo ServerInfo.versionMinor
      (readsInto_readVarint64Into sendable.versionMinor _)
      (fun n i => { i with versionMinor := n })).andThen <|
    (readsInto_readInfo ServerInfo.revision (readsInto_readVarint64Into sendable.revision _)
      (fun n i => { i with revision := n })).andThen <|
    (readsInto_readInfoSince ServerInfo.timezone
      (readsInto_readStringInto sendable.timezone _) dbmsMinRevisionWithServerTimezone
      (fun timezone i => { i with timezone := timezone }) info.revision (by rfl)).andThen <|
    (readsInto_readInfoSince ServerInfo.displayName
      (readsInto_readStringInto sendable.displayName _) dbmsMinRevisionWithServerDisplayName
      (fun name i => { i with displayName := name }) info.revision
      (by dsimp only; split <;> rfl)).andThen <|
    readsInto_readInfoSince ServerInfo.versionPatch
      (readsInto_readVarint64Into sendable.versionPatch _) dbmsMinRevisionWithVersionPatch
      (fun n i => { i with versionPatch := n }) info.revision
      (by dsimp only; split <;> split <;> rfl)
  convert fields using 1
  · rfl
  · rfl
  · unfold ServerInfo.carriedOver
    dsimp only
    split_ifs <;> rfl

theorem runs_receiveHello (sendable : info.Sendable) (arrives : s.input = some input)
    (feeds : Feeds input (serverHello info ++ rest) last) :
    ∃ m, Runs receiveHello s true { s with
        input := some m
        serverInfo := info.carriedOver s.serverInfo
        history := s.history ++ [.greeted] } ∧ Feeds m rest last := by
  have code : ServerCode.hello.code < 2 ^ 64 := by decide
  unfold serverHello at feeds
  rw [List.append_assoc] at feeds
  obtain ⟨m, readsCode, feeds⟩ := decodes_readUInt64 code feeds
  obtain ⟨n, readsInfo, feeds⟩ := readsInto_readServerInfo sendable s.serverInfo feeds
  have informs : Runs receiveServerInfo { s with input := some m } true
      { s with input := some n, serverInfo := info.carriedOver s.serverInfo } := by
    refine (runs_get _).bind ?_
    exact Runs.zoom (d := (info.carriedOver s.serverInfo, n)) readsInfo
  refine ⟨n, (runs_fromInput arrives readsCode).bind ?_, feeds⟩
  dsimp only
  rw [if_pos rfl]
  exact informs.bind ((runs_modify _ _).bind (runs_pure _ _))

omit [LawfulSource Error ι] in
theorem keepsInput_toOutput (p : EStateM Error ο α) :
    Along KeepsInput (toOutput p : ClientM υ ω ι ο α) := by
  apply along_get_bind
  intro s
  split
  · exact along_throw _
  · exact along_zoom fun _ _ => rfl

/-- Over an output that does not fail, the handshake with a server that greets succeeds. -/
theorem exists_runs_handshake [LawfulOutput Error ο]
    (unlimited : ∀ n, LawfulOutput.Fits (ε := Error) ο n) {output : ο} {bs : Bytes}
    (sendable : info.Sendable) (arrives : s.input = some input)
    (feeds : Feeds input (serverHello info ++ rest) last) (hasOutput : s.output = some output)
    (took : LawfulOutput.Took output bs) : ∃ t, Runs handshake s true t := by
  obtain ⟨written, emits, took⟩ := runs_emit unlimited (e := helloPacket s.options) ⟨rfl, rfl⟩ took
  obtain ⟨flushed, flushes, sent⟩ := LawfulOutput.flush_sent took
  obtain ⟨_, adds, _⟩ := runs_writeSegments unlimited (writeString [])
    (LawfulOutput.took_of_sent sent)
  have sends : Runs sendHello s true { s with output := some flushed } :=
    (runs_get s).bind ((runs_toOutput hasOutput emits).bind
      ((runs_toOutput rfl flushes).bind (runs_pure _ _)))
  obtain ⟨u, receives, stands⟩ : ∃ u, Runs receiveHello
      { s with output := some flushed, hellos := s.hellos ++ s.input.toList } true u ∧
      u.output = some flushed := by
    obtain ⟨_, receives, _⟩ := runs_receiveHello sendable
      (s := { s with output := some flushed, hellos := s.hellos ++ s.input.toList }) arrives feeds
    exact ⟨_, receives, rfl⟩
  have ends : ∃ t, Runs (do
      if u.serverInfo.revision ≥ dbmsMinProtocolVersionWithAddendum then
        toOutput (writeSegments (writeString []))
      pure true) u true t := by
    split
    · exact ⟨_, (runs_toOutput stands adds).bind (runs_pure _ _)⟩
    · exact ⟨_, runs_pure _ _⟩
  obtain ⟨t, ends⟩ := ends
  exact ⟨t, sends.bind ((runs_modify _ _).bind (receives.bind ((runs_get _).bind ends)))⟩

variable [Output Error ο]

omit [LawfulSource Error ι] in
theorem keepsInput_sendHello : Along KeepsInput (sendHello : ClientM υ ω ι ο Bool) :=
  along_get_bind fun _ => (keepsInput_toOutput _).bind fun _ => (keepsInput_toOutput _).bind
    fun _ => along_pure _

omit [LawfulSource Error ι] in
theorem streamed_sendHello : Along Streamed (sendHello : ClientM υ ω ι ο Bool) :=
  along_get_bind fun _ => (streamed_toOutput _).bind fun _ => (streamed_toOutput _).bind
    fun _ => along_pure _

omit [LawfulSource Error ι] in
/-- What the addendum allows, the end of a handshake does. -/
theorem along_addendum {R : Client υ ω ι ο → Client υ ω ι ο → Prop} [Std.Refl R]
    [IsTrans (Client υ ω ι ο) R]
    (sends : Along R (toOutput (writeSegments (writeString [])) : ClientM υ ω ι ο Unit)) :
    Along R (do
      let s ← get
      if s.serverInfo.revision ≥ dbmsMinProtocolVersionWithAddendum then
        toOutput (writeSegments (writeString []))
      pure true : ClientM υ ω ι ο Bool) := by
  apply along_get_bind
  intro s
  dsimp only
  split
  · exact sends.bind fun _ => along_pure _
  · exact along_pure _

/-- A handshake that succeeds reads the Hello, takes from it what it carries, and keeps the rest. -/
theorem handshake_receives (sendable : info.Sendable) (arrives : s.input = some input)
    (feeds : Feeds input (serverHello info ++ rest) last) (shook : Runs handshake s true t) :
    t.serverInfo = info.carriedOver s.serverInfo ∧ ∃ m, t.input = some m ∧ Feeds m rest last := by
  obtain ⟨sent, u, sends, receives⟩ := runs_bind_iff.mp shook
  have same : u.serverInfo = s.serverInfo := by
    obtain ⟨_, _, _, rfl⟩ := streamed_sendHello.of_runs sends
    rfl
  have still : u.input = some input := (keepsInput_sendHello.of_runs sends).trans arrives
  split at receives
  · obtain ⟨_, _, recorded, receives⟩ := runs_bind_iff.mp receives
    obtain ⟨⟩ := recorded
    obtain ⟨m, hello, feeds⟩ := runs_receiveHello sendable
      (s := { u with hellos := u.hellos ++ u.input.toList }) still feeds
    obtain ⟨ok, v, received, finishes⟩ := runs_bind_iff.mp receives
    obtain ⟨⟩ := hello.symm.trans received
    have keeps := (along_addendum (keepsInput_toOutput _)).of_runs finishes
    refine ⟨?_, m, keeps, feeds⟩
    obtain ⟨_, _, _, rfl⟩ := (along_addendum (streamed_toOutput _)).of_runs finishes
    show info.carriedOver u.serverInfo = _
    rw [same]
  · cases receives

end Receiving

/-! ## What a client has heard -/

section Hearing

variable {υ ω ι ο : Type}

/-- `server_info_` after `ReceiveHello` on a stream, however it ends. -/
def ServerInfo.learned [Source Error ι] (known : ServerInfo) (stream : ι) : ServerInfo :=
  match readVarint64 stream with
  | .ok (some packetType) stream =>
    if packetType = ServerCode.hello.code then (after readServerInfo (known, stream)).1 else known
  | _ => known

/-- `server_info_` after `ReceiveHello` on one stream after the other. -/
def ServerInfo.heard [Source Error ι] (streams : List ι) : ServerInfo :=
  streams.foldl ServerInfo.learned .initial

/-- From `s` the client came to `t`, and of servers it learned from the Hellos meanwhile only. -/
def Heard [Source Error ι] (s t : Client υ ω ι ο) : Prop :=
  ∃ streams, t.hellos = s.hellos ++ streams ∧
    t.serverInfo = streams.foldl ServerInfo.learned s.serverInfo

/-- All that a client knows of servers it has from Hellos. -/
def Client.KnowsHeard [Source Error ι] (s : Client υ ω ι ο) : Prop :=
  s.serverInfo = .heard s.hellos

section Steps

variable [Source Error ι] {s t : Client υ ω ι ο}

theorem Heard.of_eq (hellos : t.hellos = s.hellos) (same : t.serverInfo = s.serverInfo) :
    Heard s t :=
  ⟨[], by rw [hellos, List.append_nil], same⟩

instance : Std.Refl (Heard : Client υ ω ι ο → Client υ ω ι ο → Prop) := ⟨fun _ => .of_eq rfl rfl⟩

instance : IsTrans (Client υ ω ι ο) Heard where
  trans s t u first second := by
    obtain ⟨xs, hellos, learned⟩ := first
    obtain ⟨ys, hellos', learned'⟩ := second
    exact ⟨xs ++ ys, by rw [hellos', hellos, List.append_assoc],
      by rw [learned', learned, List.foldl_append]⟩

theorem Client.KnowsHeard.heard (knows : s.KnowsHeard) (heard : Heard s t) : t.KnowsHeard := by
  obtain ⟨streams, hellos, learned⟩ := heard
  show t.serverInfo = t.hellos.foldl ServerInfo.learned .initial
  rw [learned, hellos, List.foldl_append, show s.serverInfo = .heard s.hellos from knows]
  rfl

theorem Streamed.heard (streamed : Streamed s t) : Heard s t := by
  obtain ⟨_, _, _, rfl⟩ := streamed
  exact .of_eq rfl rfl

theorem Talked.heard (talked : Talked s t) : Heard s t := by
  obtain ⟨_, _, _, _, _, rfl⟩ := talked
  exact .of_eq rfl rfl

variable [Output Error ο]

variable [SocketFactory ω ι ο]

variable [Hashing] [Codec]

end Steps

variable [LawfulSource Error ι] {info : ServerInfo} {input last : ι} {rest : Bytes}

open LawfulSource

end Hearing

theorem sendable_oldServer {revision : Nat} (fits : revision < 2 ^ 64) :
    (oldServer revision).Sendable :=
  ⟨(by decide : 1 ≤ maxStringLength), Nat.zero_le _, Nat.zero_le _, (by decide : 1 < 2 ^ 64),
    (by decide : 1 < 2 ^ 64), (by decide : 0 < 2 ^ 64), fits⟩

theorem feeds_oldHello (revision : Nat) : ScriptedInput.Feeds (closingStream (oldHello revision))
    (serverHello (oldServer revision) ++ []) (closingStream []) :=
  ⟨by rw [List.append_nil]; exact (List.append_nil _).symm, rfl⟩

/-- A server that announces all fields. -/
def newServer : ServerInfo := ⟨ascii "s", ascii "UTC", ascii "d", 24, 8, 3, 54459⟩

/-- Half a time zone of the new server, in the three bytes that were made room for. -/
example : (ServerInfo.heard [closingStream (oldHello 51554),
    closingStream ((serverHello newServer).take 10)]).timezone = [85, 0, 0] := by
  decide +kernel

end ClickHouse
