import ClickHouse.Client.Synchrony

/-!
# What arrives of an insert

An insert from end to end: the blocks given to the client, and the blocks that are
read from the bytes it has written.
-/

namespace ClickHouse

open Kit List LawfulOutput

section Inserts

variable {υ ω ι ο : Type} [Hashing] [Codec]

/-- From the revision with temporary tables on, a block of an insert is sent like a table without a
name. -/
theorem isDataPacket_unnamed {encoding : Encoding} {block : Block} {packet : Bytes}
    (revision : dbmsMinRevisionWithTemporaryTables ≤ encoding.revision)
    (isPacket : encoding.IsDataPacket (dataHeader encoding.revision) block packet) :
    encoding.IsDataPacket (tableHeader ⟨[], block⟩) block packet := by
  obtain ⟨start, body, plain, emitsHeader, others⟩ := isPacket
  have same : dataHeader encoding.revision = tableHeader ⟨[], block⟩ := by
    unfold dataHeader since
    rw [if_pos revision]
    rfl
  exact ⟨start, body, plain, same ▸ emitsHeader, others⟩

variable [Source Error ι] [LawfulOutput Error ο] [SocketFactory ω ι ο] [BoundedCodec]

/-- What an insert writes after the header of the server is read as its blocks, in order and with
the same rows, and then an empty block; only Cancel packets may follow. -/
theorem insert_delivers (unlimited : ∀ n, Fits (ε := Error) ο n) {fuel : Nat}
    {session : InsertSession υ} {s u v w : Client υ ω ι ο} {bs : Bytes}
    {settings : CreateColumnByTypeSettings}
    (revision : dbmsMinRevisionWithTemporaryTables ≤ u.serverInfo.revision)
    (readable : ∀ block ∈ session.blocks, ExternalTable.Readable settings ⟨[], block⟩)
    (began : Runs (session.begin fuel) s () u) (holds : u.Took Took bs)
    (sent : Runs session.send u () v) (ended : Runs (sendData .empty) v () w) :
    ∃ written cancels decoded,
      (after (session.run fuel) s).Took Took (bs ++ written) ∧
      Runs (u.encoding.readAllPackets settings) ⟨written⟩
        (some (decoded ++ replicate cancels .cancel)) ⟨[]⟩ ∧
      Forall₂ (fun block (packet : SentPacket) =>
        packet.IsTable u.serverInfo.revision ⟨[], block⟩) (session.blocks ++ [.empty]) decoded := by
  have accounts : Accounts (Took : ο → Bytes → Prop) := accounts_took unlimited
  have inserting := session.state_begin began
  have ran : after (session.run fuel) s = after (endInsert fuel) v := by
    unfold Kit.after
    rw [session.run_eq, began.bind_eq, sent.bind_eq]
  obtain ⟨packets, output, sentTo, arePackets, taken⟩ := session.send_took accounts holds sent
  obtain ⟨cancels, -, wrote, -⟩ :=
    endInsert_cancelled unlimited fuel (by rw [sentTo]; exact inserting) ended
  subst sentTo
  obtain ⟨output', marker, rfl, isMarker, taken'⟩ :=
    sendData_took accounts ⟨output, rfl, taken⟩ ended
  have arrived := wrote _ ⟨output', rfl, taken'⟩
  have tables : Forall₂ (fun table => u.encoding.IsDataPacket (tableHeader table) table.data)
      ((session.blocks ++ [Block.empty]).map (ExternalTable.mk [])) (packets ++ [marker]) := by
    rw [forall₂_map_left_iff]
    exact (rel_append arePackets (.cons isMarker .nil)).imp fun _ _ => isDataPacket_unnamed revision
  have all : ∀ table ∈ (session.blocks ++ [Block.empty]).map (ExternalTable.mk []),
      table.Readable settings := by
    simp only [mem_map, mem_append, mem_singleton]
    rintro _ ⟨block, mem | rfl, rfl⟩
    · exact readable block mem
    · exact ExternalTable.readable_marker settings
  obtain ⟨decoded, areTables, decode⟩ := u.encoding.decodes_tables all tables
  have whole := rel_append decode (u.encoding.decodes_cancels settings cancels)
  refine ⟨((packets ++ [marker]) ++ replicate cancels [3]).flatten, cancels, decoded, ?_,
    (runs_get _).bind (Encoding.runs_readPackets whole (Nat.le_refl _)),
    forall₂_map_left_iff.mp areTables⟩
  rw [ran]
  simpa [flatten_append] using arrived

end Inserts

/-- One row is inserted, and then two. -/
theorem insert_delivers_twoBlocks :
    letI := lengthHashing
    letI : Codec := storingCodec
    ∃ client u : Client Unit Script ScriptedInput (BufferedOutput Sink),
      Client.create sampleOptions (tablesServer [1, 0, 0, 0, 5]) () = .ok client ∧
      ∃ bs written cancels decoded,
        (after ((InsertSession.stepwise sampleQuery [numberBlock, twoNumbers]).run 5) client).Took
          Took (bs ++ written) ∧
      Runs (u.encoding.readAllPackets ⟨false⟩) ⟨written⟩
        (some (decoded ++ replicate cancels .cancel)) ⟨[]⟩ ∧
      Forall₂ (fun block (packet : SentPacket) =>
        packet.IsTable u.serverInfo.revision ⟨[], block⟩) [numberBlock, twoNumbers, .empty]
        decoded := by
  let _ := lengthHashing
  let _ : Codec := storingCodec
  have bounded := bounded_storingCodec
  let session := InsertSession.stepwise sampleQuery [numberBlock, twoNumbers]
  have returns : (Client.create sampleOptions (tablesServer [1, 0, 0, 0, 5]) ()).toOption.any
      (fun client =>
      returnsFrom (session.begin 5) client = true ∧
      50264 ≤ (after (session.begin 5) client).serverInfo.revision ∧
      (after (session.begin 5) client).output.isSome = true ∧
      returnsFrom session.send (after (session.begin 5) client) = true ∧
      returnsFrom (sendData .empty) (after session.send (after (session.begin 5) client)) = true) =
        true := by
    decide +kernel
  obtain ⟨client, created, began, revision, hasOutput, sent, ended⟩ := exists_of_any returns
  obtain ⟨_, began⟩ := runs_of_returnsFrom began
  obtain ⟨_, sent⟩ := runs_of_returnsFrom sent
  obtain ⟨_, ended⟩ := runs_of_returnsFrom ended
  have readable : ∀ block ∈ session.blocks, ExternalTable.Readable ⟨false⟩ ⟨[], block⟩ := by
    intro block mem
    rcases mem_pair.mp mem with rfl | rfl
    · exact readable_numbersBlock (by decide) (by decide)
    · exact readable_numbersBlock (by decide) (by decide)
  exact ⟨client, _, created, _, insert_delivers (fun _ => trivial) revision readable began
    (Client.took_allBytes hasOutput) sent ended⟩

end ClickHouse
