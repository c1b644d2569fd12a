import ClickHouse.Client.Inserts

/-!
# The packets of a query with external tables

After its query, `SelectWithExternalData` sends the tables that have rows and
then an empty block without a name.  What it writes can be read back packet by
packet, for blocks that can be read back themselves.
-/

namespace ClickHouse

open Kit

/-! ## Reading packets -/

/-- A packet of a client, as a server reads it. -/
inductive SentPacket
  | data (name : Bytes) (block : Block)
  | cancel

variable {encoding : Encoding} {tables : List ExternalTable}

section Reading

variable [Hashing] [Codec]

/-- The next packet, `none` if it cannot be read. -/
def Encoding.readPacket (encoding : Encoding) (settings : CreateColumnByTypeSettings) :
    EStateM Error ArrayInput (Option SentPacket) := do
  let some code ← readVarint64 | pure none
  if code = ClientCode.cancel.code then pure (some .cancel)
  else if code = ClientCode.data.code then do
    let some name ← readString | pure none
    let (ok, block) ← readCarried encoding.compression fun _ => readBlock encoding.revision settings
    pure (if ok then some (.data name block) else none)
  else pure none

/-- Packets until there are no bytes left, at most the given number of them. -/
def Encoding.readPackets (encoding : Encoding) (settings : CreateColumnByTypeSettings) :
    Nat → EStateM Error ArrayInput (Option (List SentPacket))
  | 0 => do
    let input ← get
    pure (if input.data = [] then some [] else none)
  | limit + 1 => do
    let input ← get
    if input.data = [] then pure (some [])
    else do
      let some packet ← encoding.readPacket settings | pure none
      let some packets ← encoding.readPackets settings limit | pure none
      pure (some (packet :: packets))

/-- All bytes are packets, each of at least one byte. -/
def Encoding.readAllPackets (encoding : Encoding) (settings : CreateColumnByTypeSettings) :
    EStateM Error ArrayInput (Option (List SentPacket)) := do
  let input ← get
  encoding.readPackets settings input.data.length

variable {settings : CreateColumnByTypeSettings}

/-- Packets one after the other are read one after the other. -/
theorem Encoding.runs_readPackets {packets : List SentPacket} {pieces : List Bytes}
    (decode : List.Forall₂ (fun packet piece => piece ≠ [] ∧
      Decodes (encoding.readPacket settings) piece (some packet)) packets pieces) {limit : Nat}
    (enough : pieces.flatten.length ≤ limit) :
    Runs (encoding.readPackets settings limit) ⟨pieces.flatten⟩ (some packets) ⟨[]⟩ := by
  induction decode generalizing limit with
  | nil =>
    cases limit with
    | zero => exact (runs_get _).bind (runs_pure _ _)
    | succ limit => exact (runs_get _).bind (runs_pure _ _)
  | @cons packet piece packets pieces decodes _ ih =>
    obtain ⟨nonempty, decodes⟩ := decodes
    rw [List.flatten_cons, List.length_append] at enough
    have positive := List.length_pos_iff.mpr nonempty
    cases limit with
    | zero => omega
    | succ limit =>
      have first := ArrayInput.runs_of_decodes decodes pieces.flatten
      have more : (piece :: pieces).flatten ≠ [] :=
        fun none => nonempty (List.append_eq_nil_iff.mp none).1
      apply (runs_get _).bind
      rw [if_neg more]
      exact first.bind ((ih (by omega)).bind (runs_pure _ _))

theorem Encoding.decodes_cancels (encoding : Encoding) (settings : CreateColumnByTypeSettings)
    (count : Nat) : List.Forall₂ (fun packet piece => piece ≠ [] ∧
      Decodes (encoding.readPacket settings) piece (some packet))
      (List.replicate count .cancel) (List.replicate count [3]) := by
  have code : Decodes (σ := ArrayInput) readVarint64 [3] (some ClientCode.cancel.code) :=
    decodes_readVarint64 (show ClientCode.cancel.code < 2 ^ 64 by decide)
  have cancel : Decodes (encoding.readPacket settings) [3] (some .cancel) := code.bind_pure (.pure _)
  induction count with
  | zero => exact .nil
  | succ count ih => exact .cons ⟨by decide, cancel⟩ ih

/-! ## Tables -/

/-- The name and the block of the table can be read back. -/
structure ExternalTable.Readable (settings : CreateColumnByTypeSettings) (table : ExternalTable) :
    Prop where
  name : table.name.length ≤ maxStringLength
  built : table.data.Built
  sized : table.data.Sized
  shortNames : ∀ column ∈ table.data.columns, column.1.length ≤ maxStringLength
  shortTypes : ∀ column ∈ table.data.columns, column.2.type.getName.length ≤ maxStringLength
  roundTrips : ∀ (τ : Type) [LawfulSource Error τ], ∀ column ∈ table.data.columns,
    column.2.RoundTrips τ settings

/-- The marker of the end of the data is like a table without a name. -/
def ExternalTable.marker : ExternalTable := ⟨[], .empty⟩

omit [Codec] in
theorem ExternalTable.readable_marker (settings : CreateColumnByTypeSettings) :
    marker.Readable settings where
  name := by decide
  built := .empty _
  sized := ⟨by decide, by decide⟩
  shortNames column mem := by cases mem
  shortTypes column mem := by cases mem
  roundTrips τ _ column mem := by cases mem

/-- The packet carries the name and the block of the table. -/
def SentPacket.IsTable (revision : Nat) (table : ExternalTable) (packet : SentPacket) : Prop :=
  ∃ block, packet = .data table.name block ∧ SameBlock revision table.data block

theorem Encoding.decodes_table [BoundedCodec] {table : ExternalTable} {bytes : Bytes}
    (readable : table.Readable settings)
    (isPacket : encoding.IsDataPacket (tableHeader table) table.data bytes) :
    ∃ packet, packet.IsTable encoding.revision table ∧ bytes ≠ [] ∧
      Decodes (encoding.readPacket settings) bytes (some packet) := by
  obtain ⟨start, body, plain, emitsHeader, emits, carries, rfl⟩ := isPacket
  have header : Emits (tableHeader table)
      (writeUInt64 ClientCode.data.code ++ (writeString table.name).flatten) := by
    have written := (emits_write (ε := Error) (writeFixedUInt 1 ClientCode.data.code)).andThen
      ((emits_writes (ε := Error) (writeString table.name)).andThen emits_nothing)
    rw [List.append_nil] at written
    exact written
  cases emitsHeader.unique header
  have decoded (τ : Type) [LawfulSource Error τ] : ∃ read : Bool × Block,
      (read.1 = true ∧ SameBlock encoding.revision table.data read.2) ∧
        Decodes (σ := τ) (readBlock encoding.revision settings) plain read := by
    obtain ⟨bytes, emits', loaded, decodes, same⟩ := decodes_readBlock (σ := τ) encoding.revision
      readable.built readable.sized.1 readable.sized.2 readable.shortNames readable.shortTypes
      (readable.roundTrips τ)
    cases emits.unique emits'
    exact ⟨(true, loaded), ⟨rfl, same⟩, decodes⟩
  have carried : ∃ read : Bool × Block,
      (read.1 = true ∧ SameBlock encoding.revision table.data read.2) ∧
        Decodes (σ := ArrayInput) (readCarried encoding.compression fun _ =>
          readBlock encoding.revision settings) body read := carries.decodes decoded
  obtain ⟨⟨_, block⟩, ⟨rfl, same⟩, decodes⟩ := carried
  refine ⟨.data table.name block, ⟨block, rfl, same⟩, fun none => ?_, ?_⟩
  · exact absurd (List.append_eq_nil_iff.mp (List.append_eq_nil_iff.mp none).1).1 (by decide)
  · rw [List.append_assoc]
    refine (decodes_readVarint64 (by decide)).bind ?_
    dsimp only
    rw [if_neg (by decide), if_pos rfl]
    exact (decodes_readString readable.name).bind (decodes.bind_pure (.pure _))

/-- The packets of readable tables, one by one. -/
theorem Encoding.decodes_tables [BoundedCodec] {pieces : List Bytes}
    (readable : ∀ table ∈ tables, table.Readable settings)
    (arePackets : List.Forall₂ (fun table => encoding.IsDataPacket (tableHeader table) table.data)
      tables pieces) :
    ∃ packets, List.Forall₂ (fun table (packet : SentPacket) =>
        packet.IsTable encoding.revision table) tables packets ∧
      List.Forall₂ (fun packet piece => piece ≠ [] ∧
        Decodes (encoding.readPacket settings) piece (some packet)) packets pieces := by
  induction arePackets with
  | nil => exact ⟨[], .nil, .nil⟩
  | cons isPacket _ ih =>
    obtain ⟨packet, isTable, decodes⟩ :=
      encoding.decodes_table (readable _ (List.mem_cons_self ..)) isPacket
    obtain ⟨packets, areTables, decode⟩ := ih fun table mem => readable table (List.mem_cons_of_mem _ mem)
    exact ⟨packet :: packets, .cons isTable areTables, .cons decodes decode⟩

end Reading

/-! ## Sending tables -/

/-- The tables that are sent. -/
def sentTables (tables : List ExternalTable) : List ExternalTable :=
  tables.filter fun table => table.data.rows ≠ 0

section Sending

variable {υ ω ι ο : Type} [Hashing] [Codec]

variable {s : Client υ ω ι ο}

section Packets

variable [Output Error ο] {took : ο → Bytes → Prop} (accounts : Accounts took) {bs : Bytes}

include accounts

/-- The packets of the tables with rows are written in order. -/
theorem sendExternalData_took {t : Client υ ω ι ο} (holds : s.Took took bs)
    (run : Runs (sendExternalData tables) s () t) :
    ∃ packets output, t = { s with
        output := some output
        history := s.history ++ List.replicate (sentTables tables).length (.requested .data) } ∧
      List.Forall₂ (fun table => s.encoding.IsDataPacket (tableHeader table) table.data)
        (sentTables tables) packets ∧
      took output (bs ++ packets.flatten) := by
  induction tables generalizing s bs with
  | nil =>
    cases run
    obtain ⟨output, open', holds⟩ := holds
    refine ⟨[], output, ?_, .nil, ?_⟩
    · rw [← open', sentTables, List.filter_nil, List.length_nil, List.replicate_zero, List.append_nil]
    · rw [List.flatten_nil, List.append_nil]
      exact holds
  | cons table tables ih =>
    rw [sendExternalData] at run
    by_cases none : table.data.rows = 0
    · have skipped : sentTables (table :: tables) = sentTables tables := by
        simp [sentTables, none]
      rw [if_pos none] at run
      rw [skipped]
      exact ih holds run
    · have kept : sentTables (table :: tables) = table :: sentTables tables := by
        simp [sentTables, none]
      rw [if_neg none] at run
      obtain ⟨_, _, ⟨⟩, run⟩ := runs_bind_iff.mp run
      obtain ⟨_, _, wrote, run⟩ := runs_bind_iff.mp run
      obtain ⟨_, _, wrote', run⟩ := runs_bind_iff.mp run
      obtain ⟨output, packet, rfl, isPacket, taken⟩ := sendPacket_took accounts
        (s := { s with history := s.history ++ [.requested .data] }) holds (wrote.bind wrote')
      obtain ⟨packets, output', rfl, arePackets, taken⟩ := ih ⟨output, rfl, taken⟩ run
      rw [kept]
      refine ⟨packet :: packets, output', ?_, .cons isPacket arePackets, ?_⟩
      · rw [List.length_cons, Nat.add_comm, List.replicate_add, ← List.append_assoc]
        rfl
      · rw [List.flatten_cons, ← List.append_assoc]
        exact taken

omit accounts [Output Error ο] in
/-- From the revision with temporary tables on, the marker has an empty name. -/
theorem isDataPacket_marker {packet : Bytes}
    (revision : dbmsMinRevisionWithTemporaryTables ≤ encoding.revision)
    (isPacket : encoding.IsDataPacket (dataHeader encoding.revision) .empty packet) :
    encoding.IsDataPacket (tableHeader .marker) ExternalTable.marker.data packet := by
  obtain ⟨start, body, plain, emitsHeader, others⟩ := isPacket
  have same : dataHeader encoding.revision = tableHeader .marker := by
    unfold dataHeader since
    rw [if_pos revision]
    rfl
  exact ⟨start, body, plain, same ▸ emitsHeader, others⟩

/-- The request after the query: the tables with rows, and the marker. -/
theorem sendTables_took {t : Client υ ω ι ο}
    (revision : dbmsMinRevisionWithTemporaryTables ≤ s.serverInfo.revision)
    (holds : s.Took took bs) (run : Runs (do sendExternalData tables; finalizeQuery) s () t) :
    ∃ packets output, t = { s with
        output := some output
        history := s.history ++ List.replicate ((sentTables tables).length + 1) (.requested .data) } ∧
      List.Forall₂ (fun table => s.encoding.IsDataPacket (tableHeader table) table.data)
        (sentTables tables ++ [.marker]) packets ∧
      took output (bs ++ packets.flatten) := by
  obtain ⟨_, _, sent, run⟩ := runs_bind_iff.mp run
  obtain ⟨_, _, marked, flushed⟩ := runs_bind_iff.mp run
  obtain ⟨packets, output, rfl, arePackets, taken⟩ := sendExternalData_took accounts holds sent
  obtain ⟨output', marker, rfl, isMarker, taken⟩ := sendData_took accounts ⟨output, rfl, taken⟩ marked
  obtain ⟨output'', rfl, taken⟩ := toOutput_flush_took accounts ⟨output', rfl, taken⟩ flushed
  refine ⟨packets ++ [marker], output'', ?_,
    List.rel_append arePackets (.cons (isDataPacket_marker revision isMarker) .nil), ?_⟩
  · rw [List.replicate_succ', ← List.append_assoc]
  · rw [List.flatten_append, List.flatten_singleton, ← List.append_assoc]
    exact taken

end Packets

/-! ## The whole call -/

section Select

variable [Source Error ι] [LawfulOutput Error ο] [SocketFactory ω ι ο]

open LawfulOutput

omit [LawfulOutput Error ο] in
/-- The callbacks that are asked after the query was sent are its own. -/
theorem eventQuery_beginExecuteQuery [Output Error ο] {query : Query υ} {finalize : Bool}
    {u : Client υ ω ι ο} (began : Runs (beginExecuteQuery query finalize) s () u) :
    u.eventQuery = some query := by
  obtain ⟨_, _, _, began⟩ := runs_bind_iff.mp began
  obtain ⟨_, _, _, began⟩ := runs_bind_iff.mp began
  obtain ⟨_, _, ⟨⟩, began⟩ := runs_bind_iff.mp began
  obtain ⟨_, _, _, _, _, rfl⟩ := (along_sendQuery query finalize).of_runs began.of_onThrow
  rfl

/-- What `SelectWithExternalData` writes after its query: the packets of the tables with rows and
of the marker, and then Cancel packets if the query has a callback that can ask for them.  If the
tables are readable, this is what is read back. -/
theorem selectWithExternalData_packets [BoundedCodec] (unlimited : ∀ n, Fits (ε := Error) ο n)
    (fuel : Nat) {query : Query υ} {tables : List ExternalTable} {s u v : Client υ ω ι ο}
    {bs : Bytes} (supported : dbmsMinRevisionWithTemporaryTables ≤ s.serverInfo.revision)
    (began : Runs (beginExecuteQuery query false) s () u)
    (revision : dbmsMinRevisionWithTemporaryTables ≤ u.serverInfo.revision)
    (holds : u.Took Took bs) (sent : Runs (do sendExternalData tables; finalizeQuery) u () v) :
    ∃ packets cancels,
      (after (selectWithExternalData fuel query tables) s).Took Took
        (bs ++ (packets.flatten ++ List.replicate cancels 3)) ∧
      (query.selectCancelableCb = none → cancels = 0) ∧
      List.Forall₂ (fun table => u.encoding.IsDataPacket (tableHeader table) table.data)
        (sentTables tables ++ [.marker]) packets ∧
      ∀ settings, (∀ table ∈ sentTables tables, table.Readable settings) →
        ∃ decoded, Runs (u.encoding.readAllPackets settings)
            ⟨packets.flatten ++ List.replicate cancels 3⟩
            (some (decoded ++ List.replicate cancels .cancel)) ⟨[]⟩ ∧
          List.Forall₂ (fun table (packet : SentPacket) =>
            packet.IsTable u.serverInfo.revision table) (sentTables tables ++ [.marker]) decoded := by
  have asks := eventQuery_beginExecuteQuery began
  have ran : after (selectWithExternalData fuel query tables) s = after (drain fuel) v := by
    have whole : selectWithExternalData fuel query tables s = drain fuel v := by
      unfold selectWithExternalData
      rw [(runs_get s).bind_eq]
      dsimp only
      rw [if_neg (Nat.not_lt_of_le supported), began.bind_eq]
      exact (sent.tryCatch _).bind_eq _
    unfold after
    rw [whole]
  have drained : Cancelled v (after (drain fuel) v) :=
    (allowsReceipts_cancelled unlimited).toReceives.drain
      (along_modify fun _ => cancelled_of_same rfl rfl fun _ => rfl) fuel v
  obtain ⟨packets, output, rfl, arePackets, taken⟩ :=
    sendTables_took (accounts_took unlimited) revision holds sent
  obtain ⟨cancels, _, wrote, never⟩ := drained
  refine ⟨packets, cancels, ?_, ?_, arePackets, ?_⟩
  · rw [ran, ← List.append_assoc]
    exact wrote _ ⟨output, rfl, taken⟩
  · intro none
    refine (never ?_).1
    show (u.eventQuery.bind Query.selectCancelableCb).isSome = false
    rw [asks, Option.bind_some, none]
    rfl
  · intro settings readable
    have readable' : ∀ table ∈ sentTables tables ++ [.marker], table.Readable settings := by
      intro table mem
      rcases List.mem_append.mp mem with mem | mem
      · exact readable table mem
      · rw [List.mem_singleton.mp mem]
        exact ExternalTable.readable_marker settings
    obtain ⟨decoded, areTables, decode⟩ := u.encoding.decodes_tables readable' arePackets
    refine ⟨decoded, ?_, areTables⟩
    have bytes : packets.flatten ++ List.replicate cancels 3 =
        (packets ++ List.replicate cancels [3]).flatten := by
      rw [List.flatten_append]
      simp
    rw [bytes]
    exact Runs.bind (runs_get _)
      (Encoding.runs_readPackets
        (List.rel_append decode (u.encoding.decodes_cancels settings cancels)) (Nat.le_refl _))

end Select

end Sending

/-- A server with temporary tables that sends the bytes after its Hello. -/
def tablesServer (response : Bytes) : Script := ⟨[closedAfter (oldHello 50264 ++ response)]⟩

theorem readable_numbersBlock [Hashing] {name : Bytes} (short : name.length ≤ maxStringLength)
    {rows : List (Word 1)} (few : rows.length < 2 ^ 64) :
    (⟨name, numbersBlock rows⟩ : ExternalTable).Readable ⟨false⟩ where
  name := short
  built := .append (.empty .initial) (Block.appendColumn_of_first rfl rfl)
  sized := ⟨(by decide : 1 < 2 ^ 64), few⟩
  shortNames column mem := by
    rw [List.mem_singleton.mp mem]
    exact (by decide : 1 ≤ maxStringLength)
  shortTypes column mem := by
    rw [List.mem_singleton.mp mem]
    exact (by decide : (ascii "UInt8").length ≤ maxStringLength)
  roundTrips τ _ column mem := by
    rw [List.mem_singleton.mp mem]
    exact Column.roundTrips_of_proper trivial trivial trivial
      (show rows.length * 1 < 2 ^ 64 by rwa [Nat.mul_one])

/-- A table with one row and an empty one, compressed. -/
theorem selectWithExternalData_packets_numberBlock :
    letI := lengthHashing
    letI : Codec := storingCodec
    ∃ client u bs written decoded,
      Client.create { sampleOptions with compressionMethod := .lz4 } (tablesServer [5]) () =
        .ok client ∧
      Runs (beginExecuteQuery sampleQuery false) client () u ∧ u.Took LawfulOutput.Took bs ∧
      (after (selectWithExternalData 5 sampleQuery [⟨ascii "t", numberBlock⟩, ⟨ascii "e", .empty⟩])
        client).Took LawfulOutput.Took (bs ++ written) ∧
      Runs (u.encoding.readAllPackets ⟨false⟩) ⟨written⟩ (some decoded) ⟨[]⟩ ∧
      List.Forall₂ (fun table (packet : SentPacket) => packet.IsTable u.serverInfo.revision table)
        [⟨ascii "t", numberBlock⟩, .marker] decoded := by
  let _ := lengthHashing
  let _ : Codec := storingCodec
  have bounded := bounded_storingCodec
  let tables : List ExternalTable := [⟨ascii "t", numberBlock⟩, ⟨ascii "e", .empty⟩]
  have returns : (Client.create { sampleOptions with compressionMethod := .lz4 } (tablesServer [5])
      ()).toOption.any (fun client =>
        50264 ≤ client.serverInfo.revision ∧
        returnsFrom (beginExecuteQuery sampleQuery false) client = true ∧
        50264 ≤ (after (beginExecuteQuery sampleQuery false) client).serverInfo.revision ∧
        (after (beginExecuteQuery sampleQuery false) client).output.isSome = true ∧
        returnsFrom (do sendExternalData tables; finalizeQuery)
          (after (beginExecuteQuery sampleQuery false) client) = true) = true := by
    decide +kernel
  obtain ⟨client, created, supported, began, revision, hasOutput, sent⟩ := exists_of_any returns
  obtain ⟨_, began⟩ := runs_of_returnsFrom began
  obtain ⟨_, sent⟩ := runs_of_returnsFrom sent
  obtain ⟨output, open'⟩ := Option.isSome_iff_exists.mp hasOutput
  have took : Client.Took LawfulOutput.Took _ _ := ⟨output, open', took_bufferedSink output⟩
  obtain ⟨packets, cancels, wrote, never, _, reads⟩ := selectWithExternalData_packets
    (fun _ => trivial) 5 supported began revision took sent
  have readable : ∀ table ∈ sentTables tables, table.Readable ⟨false⟩ := by
    intro table mem
    rw [List.mem_singleton.mp mem]
    exact readable_numbersBlock (by decide) (by decide)
  obtain ⟨decoded, read, areTables⟩ := reads ⟨false⟩ readable
  cases never rfl
  simp only [List.replicate_zero, List.append_nil] at read wrote
  exact ⟨client, _, _, _, decoded, created, began, took, wrote, read, areTables⟩

/-- A query whose callback cancels at the first block. -/
def cancelingQuery : Query Unit := { sampleQuery with selectCancelableCb := some fun _ => pure false }

/-- What the output of the client has taken, if it has one. -/
def Client.allBytes {υ ω ι : Type} (s : Client υ ω ι (BufferedOutput Sink)) : Bytes :=
  match s.output with
  | none => []
  | some output => output.destination.written ++ output.filled

theorem Client.took_allBytes {υ ω ι : Type} {s : Client υ ω ι (BufferedOutput Sink)}
    (hasOutput : s.output.isSome = true) : s.Took LawfulOutput.Took s.allBytes := by
  obtain ⟨output, open'⟩ := Option.isSome_iff_exists.mp hasOutput
  refine ⟨output, open', ?_⟩
  unfold Client.allBytes
  rw [open']
  exact took_bufferedSink output

/-- Without tables there should be the marker only, but the callback cancels the query. -/
theorem not_framed_cancelingQuery :
    letI := lengthHashing
    letI : Codec := storingCodec
    ∃ client u t bs written decoded,
      Client.create sampleOptions (tablesServer [1, 0, 0, 0, 5]) () = .ok client ∧
      Runs (beginExecuteQuery cancelingQuery false) client () u ∧ u.Took LawfulOutput.Took bs ∧
      (∃ blocks, Runs (selectWithExternalData 5 cancelingQuery []) client blocks t) ∧
      t.Took LawfulOutput.Took (bs ++ written) ∧
      Runs (u.encoding.readAllPackets ⟨false⟩) ⟨written⟩ (some decoded) ⟨[]⟩ ∧
      ¬ List.Forall₂ (fun table (packet : SentPacket) =>
        packet.IsTable u.serverInfo.revision table) [.marker] decoded := by
  let _ := lengthHashing
  let _ : Codec := storingCodec
  let begins := beginExecuteQuery (ω := Script) cancelingQuery false
  let selects := selectWithExternalData (ω := Script) 5 cancelingQuery []
  let reads := fun client => (after begins client).encoding.readAllPackets ⟨false⟩
  have returns : (Client.create sampleOptions (tablesServer [1, 0, 0, 0, 5]) ()).toOption.any
      (fun client =>
        returnsFrom begins client = true ∧ (after begins client).output.isSome = true ∧
        returnsFrom selects client = true ∧
        (after selects client).output.isSome = true ∧
        (after selects client).allBytes = (after begins client).allBytes ++ [2, 0, 0, 0, 3] ∧
        ((reads client).run' ⟨[2, 0, 0, 0, 3]⟩).join.any (·.length = 2) = true ∧
        after (reads client) ⟨[2, 0, 0, 0, 3]⟩ = ⟨[]⟩) = true := by
    decide +kernel
  obtain ⟨client, created, began, hasOutput, selected, hasOutput', wrote, two, ended⟩ :=
    exists_of_any returns
  obtain ⟨_, began⟩ := runs_of_returnsFrom began
  obtain ⟨packets, value, two⟩ := (Option.any_eq_true _ _).mp two
  have read := runs_of_run' (Option.join_eq_some_iff.mp value)
  rw [ended] at read
  refine ⟨client, _, _, _, _, packets, created, began, Client.took_allBytes hasOutput,
    runs_of_returnsFrom selected, wrote ▸ Client.took_allBytes hasOutput', read, ?_⟩
  intro areTables
  have lengths := areTables.length_eq
  rw [of_decide_eq_true two] at lengths
  cases lengths

/-- A table of tuples whose field is named by a backslash. -/
def backslashTable : ExternalTable :=
  ⟨[], ⟨.initial, [(ascii "c", .tuple [.leaf (.fixed .uint8 [Word.ofNat 1 7])] [[0x5C]])], 1⟩⟩

/-- The type name of the column is not parsed, so the packet of the table is not read back. -/
theorem not_framed_backslashTable :
    letI := lengthHashing
    letI : Codec := storingCodec
    backslashTable.data.Built ∧ ∃ client u t bs written,
      Client.create sampleOptions (tablesServer [5]) () = .ok client ∧
      Runs (beginExecuteQuery sampleQuery false) client () u ∧ u.Took LawfulOutput.Took bs ∧
      (∃ blocks, Runs (selectWithExternalData 5 sampleQuery [backslashTable]) client blocks t) ∧
      t.Took LawfulOutput.Took (bs ++ written) ∧
      ∀ decoded rest, ¬ Runs (u.encoding.readAllPackets ⟨false⟩) ⟨written⟩ decoded rest := by
  let _ := lengthHashing
  let _ : Codec := storingCodec
  let begins := beginExecuteQuery (ω := Script) sampleQuery false
  let selects := selectWithExternalData (ω := Script) 5 sampleQuery [backslashTable]
  let written := fun client => (after selects client).allBytes.drop (after begins client).allBytes.length
  have returns : (Client.create sampleOptions (tablesServer [5]) ()).toOption.any (fun client =>
      returnsFrom begins client = true ∧ (after begins client).output.isSome = true ∧
      returnsFrom selects client = true ∧ (after selects client).output.isSome = true ∧
      (after selects client).allBytes = (after begins client).allBytes ++ written client ∧
      returnsFrom ((after begins client).encoding.readAllPackets ⟨false⟩) ⟨written client⟩ =
        false) = true := by
    decide +kernel
  obtain ⟨client, created, began, hasOutput, selected, hasOutput', wrote, fails⟩ :=
    exists_of_any returns
  obtain ⟨_, began⟩ := runs_of_returnsFrom began
  refine ⟨.append (.empty .initial) (Block.appendColumn_of_first rfl rfl), client, _, _, _, _,
    created, began, Client.took_allBytes hasOutput, runs_of_returnsFrom selected,
    wrote ▸ Client.took_allBytes hasOutput', fun decoded rest run => ?_⟩
  unfold returnsFrom at fails
  rw [show _ = _ from run] at fails
  cases fails

end ClickHouse
