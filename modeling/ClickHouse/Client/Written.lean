import ClickHouse.Client.Frames
import ClickHouse.Framing

/-!
# What a client writes

A client whose calls return has written the bytes of its packets: a Data packet
is a header and the bytes of a block, as they are or as compressed frames.  On
a transport that does not fail, receiving packets adds nothing to this but the
Cancel packets that callbacks ask for.
-/

namespace ClickHouse

open Kit List

/-! ## Writers -/

variable {e : Emit Error}

section Writers

variable {δ : Type} [Output Error δ] {took : δ → Bytes → Prop} (accounts : Accounts took)
  {s t : δ} {bs : Bytes}

include accounts

theorem writeSegments_accounted {segments : List Bytes} (holds : took s bs)
    (run : Runs (writeSegments segments) s () t) : took t (bs ++ segments.flatten) := by
  induction segments generalizing s bs with
  | nil =>
    cases run
    rw [flatten_nil, append_nil]
    exact holds
  | cons segment segments ih =>
    obtain ⟨_, m, wrote, run⟩ := runs_bind_iff.mp run
    rw [flatten_cons, ← append_assoc]
    exact ih (writeAll_accounted accounts holds wrote) run

/-- A writer that returns has handed over all its bytes. -/
theorem emit_accounted (holds : took s bs) (run : Runs (emit e) s () t) :
    ∃ bytes, Emits e bytes ∧ took t (bs ++ bytes) := by
  obtain ⟨_, m, wrote, run⟩ := runs_bind_iff.mp run
  split at run
  · rename_i returns
    cases run
    exact ⟨_, ⟨returns, rfl⟩, writeSegments_accounted accounts holds wrote⟩
  · cases run

end Writers

section Sending

variable {δ : Type} [LawfulOutput Error δ] (unlimited : ∀ n, LawfulOutput.Fits (ε := Error) δ n)
  {s : δ} {bs bytes : Bytes}

include unlimited

theorem runs_writeSegments (segments : List Bytes) (took : LawfulOutput.Took s bs) :
    ∃ t, Runs (writeSegments segments) s () t ∧ LawfulOutput.Took t (bs ++ segments.flatten) := by
  induction segments generalizing s bs with
  | nil =>
    refine ⟨s, runs_pure _ _, ?_⟩
    rw [flatten_nil, append_nil]
    exact took
  | cons segment segments ih =>
    obtain ⟨m, wrote, took⟩ := writeAll_took took (unlimited segment.length)
    obtain ⟨t, wrote', took⟩ := ih took
    refine ⟨t, wrote.bind wrote', ?_⟩
    rw [flatten_cons, ← append_assoc]
    exact took

/-- A writer that returns can be sent over a transport that does not fail. -/
theorem runs_emit (emits : Emits e bytes) (took : LawfulOutput.Took s bs) :
    ∃ t, Runs (emit e) s () t ∧ LawfulOutput.Took t (bs ++ bytes) := by
  obtain ⟨returns, rfl⟩ := emits
  obtain ⟨t, wrote, took⟩ := runs_writeSegments unlimited e.written took
  refine ⟨t, wrote.bind ?_, took⟩
  rw [returns]
  exact runs_pure _ _

end Sending

/-! ## Data packets -/

/-- What a block is encoded with. -/
structure Encoding where
  revision : Nat
  compression : Bool
  method : CompressionMethod

/-- The header and the block it is followed by. -/
def Encoding.IsDataPacket [Hashing] [Codec] (encoding : Encoding) (header : Emit Error) (block : Block)
    (packet : Bytes) : Prop :=
  ∃ start body plain, Emits header start ∧ Emits (writeBlock encoding.revision block) plain ∧
    Carries encoding.method encoding.compression body plain ∧ packet = start ++ body

variable {υ ω ι ο : Type}

/-- The encoding that the client and its server use. -/
def Client.encoding (s : Client υ ω ι ο) : Encoding :=
  ⟨s.serverInfo.revision, s.compression, s.options.compressionMethod⟩

/-- The output of the client has taken the bytes. -/
def Client.Took (took : ο → Bytes → Prop) (s : Client υ ω ι ο) (bs : Bytes) : Prop :=
  ∃ output, s.output = some output ∧ took output bs

section Packets

variable [Output Error ο] {took : ο → Bytes → Prop} {s t : Client υ ω ι ο} {bs : Bytes}

omit [Output Error ο] in
theorem toOutput_runs {α : Type} {p : EStateM Error ο α} {a : α} {output : ο}
    (open' : s.output = some output) (run : Runs (toOutput p) s a t) :
    ∃ output', Runs p output a output' ∧ t = { s with output := some output' } := by
  obtain ⟨_, _, ⟨⟩, run⟩ := runs_bind_iff.mp run
  rw [open'] at run
  exact run.of_zoom

omit [Output Error ο] in
theorem runs_toOutput {α : Type} {p : EStateM Error ο α} {a : α} {output output' : ο}
    (open' : s.output = some output) (run : Runs p output a output') :
    Runs (toOutput p) s a { s with output := some output' } := by
  apply (runs_get s).bind
  rw [open']
  exact Runs.zoom run

variable (accounts : Accounts took)

include accounts

theorem toOutput_emit_took (holds : s.Took took bs) (run : Runs (toOutput (emit e)) s () t) :
    ∃ output bytes, t = { s with output := some output } ∧ Emits e bytes ∧
      took output (bs ++ bytes) := by
  obtain ⟨output, open', holds⟩ := holds
  obtain ⟨output', wrote, rfl⟩ := toOutput_runs open' run
  obtain ⟨bytes, emits, taken⟩ := emit_accounted accounts holds wrote
  exact ⟨output', bytes, rfl, emits, taken⟩

theorem toOutput_flush_took (holds : s.Took took bs) (run : Runs (toOutput Output.flush) s () t) :
    ∃ output, t = { s with output := some output } ∧ took output bs := by
  obtain ⟨output, open', holds⟩ := holds
  obtain ⟨output', flushed, rfl⟩ := toOutput_runs open' run
  exact ⟨output', rfl, accounts.flush holds flushed⟩

variable [Hashing] [Codec]

variable {block : Block}

/-- The bytes of a block go to the output, or frames of them do. -/
theorem sendBlockData_took (holds : s.Took took bs) (run : Runs (sendBlockData block) s () t) :
    ∃ output body plain, t = { s with output := some output } ∧
      Emits (writeBlock s.serverInfo.revision block) plain ∧
      Carries s.options.compressionMethod s.compression body plain ∧ took output (bs ++ body) := by
  obtain ⟨_, _, ⟨⟩, run⟩ := runs_bind_iff.mp run
  obtain ⟨output, open', holds⟩ := holds
  split at run
  · rename_i compression
    rw [open'] at run
    obtain ⟨compressed, m, created, run⟩ := runs_bind_iff.mp run
    -- Behind the buffer of the chunks, the frames follow what the output had taken before.
    cases made : CompressedOutput.create output s.options.maxCompressionChunkSize
        s.options.compressionMethod with
    | error e =>
      rw [made] at created
      cases created
    | ok compressed' =>
      rw [made] at created
      cases created
      obtain ⟨destination, method⟩ := CompressedOutput.create_keeps made
      have framed := CompressedOutput.accounts accounts bs s.options.compressionMethod
      have start : BufferedOutput.Accounted (CompressedOutput.Accounted took bs _)
          (BufferedOutput.create compressed s.options.maxCompressionChunkSize) [] :=
        ⟨[], ⟨method, [], [], .nil, rfl, by
          rw [flatten_nil, append_nil]
          exact destination ▸ holds⟩, rfl⟩
      obtain ⟨buffered, wrote, rfl⟩ := run.of_zoom
      obtain ⟨_, u, wrote, flushed⟩ := runs_bind_iff.mp wrote
      obtain ⟨plain, emits, taken⟩ := emit_accounted (BufferedOutput.accounts framed) start wrote
      obtain ⟨⟨_, frames, chunks, areWritten, flat, taken⟩, _⟩ :=
        BufferedOutput.doFlush_accounted framed taken flushed
      refine ⟨_, frames.flatten, plain, rfl, emits, ?_, taken⟩
      rw [compression, ← nil_append plain, ← flat]
      exact .framed areWritten
  · rename_i raw
    obtain ⟨output', wrote, rfl⟩ := toOutput_runs open' run
    obtain ⟨_, u, wrote, flushed⟩ := runs_bind_iff.mp wrote
    obtain ⟨plain, emits, taken⟩ := emit_accounted accounts holds wrote
    refine ⟨output', plain, plain, rfl, emits, ?_, accounts.flush taken flushed⟩
    rw [Bool.eq_false_of_not_eq_true raw]
    exact .raw plain

/-- A header and the block after it. -/
theorem sendPacket_took {header : Emit Error} (holds : s.Took took bs)
    (run : Runs (do toOutput (emit header); sendBlockData block) s () t) :
    ∃ output packet, t = { s with output := some output } ∧
      s.encoding.IsDataPacket header block packet ∧ took output (bs ++ packet) := by
  obtain ⟨_, m, wrote, run⟩ := runs_bind_iff.mp run
  obtain ⟨output, start, rfl, emits, taken⟩ := toOutput_emit_took accounts holds wrote
  obtain ⟨output', body, plain, rfl, emits', carries, taken⟩ :=
    sendBlockData_took accounts ⟨output, rfl, taken⟩ run
  rw [append_assoc] at taken
  exact ⟨output', start ++ body, rfl, ⟨start, body, plain, emits, emits', carries, rfl⟩, taken⟩

/-- `SendData` writes the packet of the block. -/
theorem sendData_took (holds : s.Took took bs) (run : Runs (sendData block) s () t) :
    ∃ output packet, t = { s with
        output := some output
        history := s.history ++ [.requested .data] } ∧
      s.encoding.IsDataPacket (dataHeader s.serverInfo.revision) block packet ∧
      took output (bs ++ packet) := by
  obtain ⟨_, _, ⟨⟩, run⟩ := runs_bind_iff.mp run
  obtain ⟨_, _, ⟨⟩, run⟩ := runs_bind_iff.mp run
  obtain ⟨_, u, wrote, run⟩ := runs_bind_iff.mp run
  obtain ⟨_, v, wrote', flushed⟩ := runs_bind_iff.mp run
  obtain ⟨output, packet, rfl, isPacket, taken⟩ := sendPacket_took accounts
    (s := { s with history := s.history ++ [.requested .data] }) holds (wrote.bind wrote')
  obtain ⟨output', rfl, taken⟩ := toOutput_flush_took accounts ⟨output, rfl, taken⟩ flushed
  exact ⟨output', packet, rfl, isPacket, taken⟩

end Packets

/-! ## Receiving -/

section Receiving

variable [LawfulOutput Error ο]

open LawfulOutput

/-- From `s` to `t` the client has written Cancel packets only, and none without a callback that
asks for them. -/
def Cancelled (s t : Client υ ω ι ο) : Prop :=
  ∃ n, t.history = s.history ++ replicate n (.requested .cancel) ∧
    (∀ bs, s.Took Took bs → t.Took Took (bs ++ replicate n 3)) ∧
    (s.mayCancel = false → n = 0 ∧ t.mayCancel = false)

instance : Std.Refl (Cancelled : Client υ ω ι ο → Client υ ω ι ο → Prop) where
  refl _ := ⟨0, (append_nil _).symm, fun bs holds => (append_nil bs).symm ▸ holds,
    fun none => ⟨rfl, none⟩⟩

instance : IsTrans (Client υ ω ι ο) Cancelled where
  trans s t u first second := by
    rcases first with ⟨m, history, wrote, never⟩
    rcases second with ⟨n, history', wrote', never'⟩
    refine ⟨m + n, ?_, ?_, ?_⟩
    · rw [history', history, append_assoc, replicate_add]
    · intro bs holds
      rw [replicate_add, ← append_assoc]
      exact wrote' _ (wrote bs holds)
    · intro none
      obtain ⟨rfl, none⟩ := never none
      obtain ⟨rfl, none⟩ := never' none
      exact ⟨rfl, none⟩

/-- A reset of the state or of the streams that are read writes nothing. -/
theorem cancelled_of_same {s t : Client υ ω ι ο} (history : t.history = s.history)
    (output : t.output = s.output) (never : s.mayCancel = false → t.mayCancel = false) :
    Cancelled s t := by
  refine ⟨0, by rw [history, replicate_zero, append_nil], ?_, fun none => ⟨rfl, never none⟩⟩
  rintro bs ⟨o, open', holds⟩
  rw [replicate_zero, append_nil]
  exact ⟨o, output.trans open', holds⟩

variable (unlimited : ∀ n, Fits (ε := Error) ο n)

include unlimited

theorem runs_sendCancel {s : Client υ ω ι ο} {bs : Bytes} (holds : s.Took Took bs) :
    ∃ output, Runs sendCancel s () { s with
        history := s.history ++ [.requested .cancel]
        output := some output } ∧ Took output (bs ++ [3]) := by
  obtain ⟨output, open', holds⟩ := holds
  obtain ⟨o, wrote, took⟩ := writeAll_took holds (unlimited (writeUInt64 ClientCode.cancel.code).length)
  obtain ⟨o', flushed, sent⟩ := flush_sent took
  refine ⟨o', (runs_modify _ s).bind ?_, took_of_sent sent⟩
  have wrote' : Runs (toOutput (writeAll (writeUInt64 ClientCode.cancel.code)))
      { s with history := s.history ++ [.requested .cancel] } () _ := runs_toOutput open' wrote
  exact wrote'.bind (runs_toOutput rfl flushed)

theorem allowsReceipts_cancelled :
    AllowsReceipts (Cancelled : Client υ ω ι ο → Client υ ω ι ο → Prop) where
  reads s input user block := cancelled_of_same rfl rfl id
  cancels s mayCancel := by
    refine ensures_of_after ⟨1, ?_, ?_, fun never => absurd never (by rw [mayCancel]; decide)⟩
    · -- However the writes end, the request was noted.
      have streams : Along Streamed (do
          toOutput (writeAll (writeUInt64 ClientCode.cancel.code))
          toOutput Output.flush : ClientM υ ω ι ο Unit) :=
        (streamed_toOutput _).bind fun _ => streamed_toOutput _
      obtain ⟨_, _, _, same⟩ := streams { s with history := s.history ++ [Event.requested .cancel] }
      have noted : after sendCancel s = after (do
          toOutput (writeAll (writeUInt64 ClientCode.cancel.code))
          toOutput Output.flush : ClientM υ ω ι ο Unit)
          { s with history := s.history ++ [.requested .cancel] } := rfl
      rw [noted, same]
      rfl
    · intro bs holds
      obtain ⟨output, run, took⟩ := runs_sendCancel unlimited holds
      rw [run.after_eq]
      exact ⟨output, rfl, took⟩

end Receiving

end ClickHouse
