import ClickHouse.BlockRoundTrip
import ClickHouse.Client.Script
import ClickHouse.Client.Written

/-!
# The packets of an insert

After the header of the server, an insert sends its blocks and then a block
without columns and rows, which tells the server that there are no more.  A
block of the user without columns and rows is sent like any other one, so the
server takes it for the end.
-/

namespace ClickHouse

open Kit

/-! ## Reading the counts of a packet -/

section Counts

variable {σ : Type} [Source Error σ]

/-- The numbers of columns and of rows a block starts with. -/
def readBlockCounts (revision : Nat) : EStateM Error σ (Option (Nat × Nat)) := do
  let some _ ← readBlockInfo revision | pure none
  let some columns ← readUInt64 | pure none
  let some rows ← readUInt64 | pure none
  pure (some (columns, rows))

end Counts

/-- The numbers of columns and of rows of a Data packet. -/
def Encoding.readCounts [Codec] (encoding : Encoding) : EStateM Error ArrayInput (Option (Nat × Nat)) := do
  let some code ← readVarint64 | pure none
  if code = ClientCode.data.code then
    if ← readTableName encoding.revision then
      readCarried encoding.compression fun _ => readBlockCounts encoding.revision
    else pure none
  else pure none

/-- The packet tells the server that there are no more blocks. -/
def Encoding.IsEndMarker [Codec] (encoding : Encoding) (packet : Bytes) : Prop :=
  ∃ input, Runs encoding.readCounts ⟨packet⟩ (some (0, 0)) input

/-- The counts of a block are values of `size_t`. -/
def Block.Sized (block : Block) : Prop :=
  block.columns.length < 2 ^ 64 ∧ block.rows < 2 ^ 64

section Markers

variable [Hashing]

/-- A written block starts with its counts. -/
theorem decodes_readBlockCounts {revision : Nat} {block : Block} {plain : Bytes}
    (sized : block.Sized) (emits : Emits (writeBlock revision block) plain) :
    ∃ start rest, plain = start ++ rest ∧ ∀ (τ : Type) [LawfulSource Error τ],
      Decodes (σ := τ) (readBlockCounts revision) start (some (block.columns.length, block.rows)) := by
  obtain ⟨info, counts, emitsInfo, emitsCounts, rfl⟩ := emits.of_andThen
  obtain ⟨columns, tail, emitsColumns, emitsTail, rfl⟩ := emitsCounts.of_andThen
  obtain ⟨rows, others, emitsRows, _, rfl⟩ := emitsTail.of_andThen
  cases emitsColumns.unique (emits_write _)
  cases emitsRows.unique (emits_write _)
  refine ⟨info ++ (writeUInt64 block.columns.length ++ writeUInt64 block.rows), others, ?_, ?_⟩
  · simp only [List.append_assoc]
  · intro τ _
    obtain ⟨bytes, emitsInfo', decodesInfo⟩ := decodes_readBlockInfo (σ := τ) revision block.info
    cases emitsInfo.unique emitsInfo'
    refine decodesInfo.bind ((decodes_readUInt64 sized.1).bind ?_)
    exact (decodes_readUInt64 sized.2).bind_pure (.pure _)

variable [Codec] [BoundedCodec] {encoding : Encoding} {block : Block} {packet : Bytes}

theorem readCounts_packet (sized : block.Sized)
    (isPacket : encoding.IsDataPacket (dataHeader encoding.revision) block packet) :
    ∃ input, Runs encoding.readCounts ⟨packet⟩ (some (block.columns.length, block.rows)) input := by
  obtain ⟨start, body, plain, emitsHeader, emits, carries, rfl⟩ := isPacket
  obtain ⟨counts, rest, split, decodes⟩ := decodes_readBlockCounts sized emits
  have decodesName : ∃ name, Emits (since dbmsMinRevisionWithTemporaryTables encoding.revision
      (.writes (writeString []))) name ∧
      Decodes (σ := ArrayInput) (readTableName encoding.revision) name true := by
    unfold since readTableName
    split
    · exact ⟨_, emits_writes _, decodes_skipString (by decide)⟩
    · exact ⟨_, emits_nothing, .pure _⟩
  obtain ⟨name, emitsName, decodesName⟩ := decodesName
  have header : Emits (dataHeader encoding.revision) (writeUInt64 ClientCode.data.code ++ name) := by
    have written := (emits_write (ε := Error) (writeUInt64 ClientCode.data.code)).andThen
      (emitsName.andThen emits_nothing)
    rwa [List.append_nil] at written
  cases emitsHeader.unique header
  have code : Runs readVarint64 (⟨(writeUInt64 ClientCode.data.code ++ name) ++ body⟩ : ArrayInput)
      (some ClientCode.data.code) ⟨name ++ body⟩ := by
    rw [List.append_assoc]
    exact ArrayInput.runs_of_decodes (decodes_readVarint64 (by decide)) _
  have named := ArrayInput.runs_of_decodes decodesName body
  have whole : LawfulSource.Feeds (⟨body⟩ : ArrayInput) (body ++ []) ⟨[]⟩ := by
    rw [List.append_nil]
    exact (List.append_nil body).symm
  have counted : ∃ input, Runs
      (readCarried encoding.compression fun _ => readBlockCounts encoding.revision)
      (⟨body⟩ : ArrayInput) (some (block.columns.length, block.rows)) input :=
    carries.runs split decodes whole
  obtain ⟨input, counted⟩ := counted
  refine ⟨input, code.bind ?_⟩
  dsimp only
  rw [if_pos rfl]
  exact named.bind counted

theorem isEndMarker_iff (sized : block.Sized)
    (isPacket : encoding.IsDataPacket (dataHeader encoding.revision) block packet) :
    encoding.IsEndMarker packet ↔ block.columns = [] ∧ block.rows = 0 := by
  obtain ⟨input, counted⟩ := readCounts_packet sized isPacket
  constructor
  · rintro ⟨input', counted'⟩
    have same := counted.symm.trans counted'
    simp only [EStateM.Result.ok.injEq, Option.some.injEq, Prod.mk.injEq] at same
    exact ⟨List.eq_nil_of_length_eq_zero same.1.1, same.1.2⟩
  · rintro ⟨none, zero⟩
    rw [none, zero] at counted
    exact ⟨input, counted⟩

end Markers

/-! ## Sessions -/

/-- An insert, in steps or by one call. -/
inductive InsertSession (υ : Type)
  | stepwise (query : Query υ) (blocks : List Block)
  | atOnce (tableName queryId : Bytes) (block : Block)

def InsertSession.blocks {υ : Type} : InsertSession υ → List Block
  | .stepwise _ blocks => blocks
  | .atOnce _ _ block => [block]

section Sessions

variable {υ ω ι ο : Type} [Source Error ι] [Hashing] [Codec]

section Programs

variable [Output Error ο]

/-- One `SendInsertBlock` after the other. -/
def sendInsertBlocks : List Block → ClientM υ ω ι ο Unit
  | [] => pure ()
  | block :: blocks => do
    sendInsertBlock block
    sendInsertBlocks blocks

/-- What is sent between the header of the server and `EndInsert`. -/
def InsertSession.send : InsertSession υ → ClientM υ ω ι ο Unit
  | .stepwise _ blocks => sendInsertBlocks blocks
  | .atOnce _ _ block => sendData block

variable [SocketFactory ω ι ο]

/-- `Insert` until the header of the server is there. -/
def insertHeader (fuel : Nat) (tableName queryId : Bytes) (block : Block) :
    ClientM υ ω ι ο Unit := do
  let s ← get
  if s.state = .inserting then
    throw (.validationError (ascii
      "cannot execute query while inserting, use SendInsertData instead"))
  expectState .idle "cannot execute query while executing another operation"
  pingBeforeQuery
  modify fun s => { s with state := .inserting }
  sendQuery { Query.empty with text := insertText tableName block, queryId := queryId } true
  unless ← awaitHeader fuel do throw (.protocolError (ascii "fail to receive data packet"))

/-- Everything until the header of the server is there. -/
def InsertSession.begin (fuel : Nat) : InsertSession υ → ClientM υ ω ι ο Unit
  | .stepwise query _ => do
    let _ ← beginInsert fuel query
    pure ()
  | .atOnce tableName queryId block => insertHeader fuel tableName queryId block

/-- The calls of the session. -/
def InsertSession.run (fuel : Nat) : InsertSession υ → ClientM υ ω ι ο Unit
  | .stepwise query blocks => do
    let _ ← beginInsert fuel query
    sendInsertBlocks blocks
    endInsert fuel
  | .atOnce tableName queryId block => insert fuel tableName queryId block

theorem insert_eq (fuel : Nat) (tableName queryId : Bytes) (block : Block) :
    (insert fuel tableName queryId block : ClientM υ ω ι ο Unit) = (do
      insertHeader fuel tableName queryId block
      sendData block
      endInsert fuel) := by
  unfold insert insertHeader
  rw [bind_assoc]
  apply bind_congr
  intro s
  dsimp only
  split
  · rfl
  · simp only [bind_assoc]
    refine bind_congr fun _ => bind_congr fun _ => bind_congr fun _ => bind_congr fun _ =>
      bind_congr fun header => ?_
    cases header with
    | true => rfl
    | false => rfl

theorem InsertSession.run_eq (fuel : Nat) (session : InsertSession υ) :
    (session.run fuel : ClientM υ ω ι ο Unit) = (do
      session.begin fuel
      session.send
      endInsert fuel) := by
  cases session with
  | stepwise query blocks => simp only [run, begin, send, bind_assoc, pure_bind]
  | atOnce tableName queryId block => exact insert_eq fuel tableName queryId block

/-- With the header of the server, the client is inserting. -/
theorem InsertSession.state_begin {fuel : Nat} {session : InsertSession υ} {s u : Client υ ω ι ο}
    (began : Runs (session.begin fuel) s () u) : u.state = .inserting := by
  have kept {α : Type} {p : ClientM υ ω ι ο α} {s t : Client υ ω ι ο} {a : α}
      (along : Along Talked p) (run : Runs p s a t) : t.state = s.state := by
    obtain ⟨_, _, _, _, _, rfl⟩ := along.of_runs run
    rfl
  cases session with
  | stepwise query blocks =>
    obtain ⟨_, _, began, ⟨⟩⟩ := runs_bind_iff.mp began
    obtain ⟨_, _, _, began⟩ := runs_bind_iff.mp began
    split at began
    · cases began
    · obtain ⟨_, _, ⟨⟩, began⟩ := runs_bind_iff.mp began
      obtain ⟨_, _, body, began⟩ := runs_bind_iff.mp began
      obtain ⟨_, _, ⟨⟩, ⟨⟩⟩ := runs_bind_iff.mp began
      obtain ⟨_, _, _, body⟩ := runs_bind_iff.mp body.of_onThrow
      obtain ⟨_, _, ⟨⟩, body⟩ := runs_bind_iff.mp body
      obtain ⟨_, _, sent, body⟩ := runs_bind_iff.mp body
      obtain ⟨header, _, awaited, body⟩ := runs_bind_iff.mp body
      cases header with
      | true =>
        cases body
        exact (kept (along_awaitHeader fuel) awaited).trans (kept (along_sendQuery _ _) sent)
      | false => cases body
  | atOnce tableName queryId block =>
    obtain ⟨_, _, ⟨⟩, began⟩ := runs_bind_iff.mp began
    dsimp only at began
    split at began
    · cases began
    · obtain ⟨_, _, _, began⟩ := runs_bind_iff.mp began
      obtain ⟨_, _, _, began⟩ := runs_bind_iff.mp began
      obtain ⟨_, _, ⟨⟩, began⟩ := runs_bind_iff.mp began
      obtain ⟨_, _, sent, began⟩ := runs_bind_iff.mp began
      obtain ⟨header, _, awaited, began⟩ := runs_bind_iff.mp began
      cases header with
      | true =>
        cases began
        exact (kept (along_awaitHeader fuel) awaited).trans (kept (along_sendQuery _ _) sent)
      | false => cases began

end Programs

section Packets

variable [Output Error ο] {took : ο → Bytes → Prop} (accounts : Accounts took) {bs : Bytes}

include accounts

omit [Source Error ι] in
/-- The packets of the blocks are written in order. -/
theorem sendInsertBlocks_took {blocks : List Block} {s t : Client υ ω ι ο}
    (holds : s.Took took bs) (run : Runs (sendInsertBlocks blocks) s () t) :
    ∃ packets output, t = { s with
        output := some output
        history := s.history ++ List.replicate blocks.length (.requested .data) } ∧
      List.Forall₂ (s.encoding.IsDataPacket (dataHeader s.serverInfo.revision)) blocks packets ∧
      took output (bs ++ packets.flatten) := by
  induction blocks generalizing s bs with
  | nil =>
    cases run
    obtain ⟨output, open', holds⟩ := holds
    refine ⟨[], output, ?_, .nil, ?_⟩
    · rw [← open', List.length_nil, List.replicate_zero, List.append_nil]
    · rw [List.flatten_nil, List.append_nil]
      exact holds
  | cons block blocks ih =>
    obtain ⟨_, m, first, run⟩ := runs_bind_iff.mp run
    obtain ⟨_, first⟩ := of_runs_expectState first
    obtain ⟨output, packet, rfl, isPacket, taken⟩ := sendData_took accounts holds first
    obtain ⟨packets, output', rfl, arePackets, taken⟩ := ih ⟨output, rfl, taken⟩ run
    refine ⟨packet :: packets, output', ?_, .cons isPacket arePackets, ?_⟩
    · rw [List.length_cons, Nat.add_comm, List.replicate_add, ← List.append_assoc]
      rfl
    · rw [List.flatten_cons, ← List.append_assoc]
      exact taken

omit [Source Error ι] in
theorem InsertSession.send_took {session : InsertSession υ} {s t : Client υ ω ι ο}
    (holds : s.Took took bs) (run : Runs session.send s () t) :
    ∃ packets output, t = { s with
        output := some output
        history := s.history ++ List.replicate session.blocks.length (.requested .data) } ∧
      List.Forall₂ (s.encoding.IsDataPacket (dataHeader s.serverInfo.revision)) session.blocks
        packets ∧
      took output (bs ++ packets.flatten) := by
  cases session with
  | stepwise query blocks => exact sendInsertBlocks_took accounts holds run
  | atOnce tableName queryId block =>
    obtain ⟨output, packet, rfl, isPacket, taken⟩ := sendData_took accounts holds run
    refine ⟨[packet], output, rfl, .cons isPacket .nil, ?_⟩
    rw [List.flatten_singleton]
    exact taken

end Packets

section Terminator

variable [LawfulOutput Error ο]

open LawfulOutput

/-- From `u`, when `bs` was written, to `t` the client has written the Data packets of the blocks
and of an empty block, of which only the last is an end marker, and no other packet but Cancel
packets after them. -/
def TerminatedOnce (u : Client υ ω ι ο) (bs : Bytes) (blocks : List Block) (t : Client υ ω ι ο) :
    Prop :=
  ∃ packets cancels,
    t.history = u.history ++ List.replicate (blocks.length + 1) (.requested .data) ++
      List.replicate cancels (.requested .cancel) ∧
    t.Took Took (bs ++ packets.flatten ++ List.replicate cancels 3) ∧
    List.Forall₂ (u.encoding.IsDataPacket (dataHeader u.serverInfo.revision)) (blocks ++ [.empty])
      packets ∧
    ∀ n packet, packets[n]? = some packet → (u.encoding.IsEndMarker packet ↔ n = blocks.length)

/-- After the end marker, `EndInsert` writes nothing but Cancel packets. -/
theorem endInsert_cancelled (unlimited : ∀ n, Fits (ε := Error) ο n) (fuel : Nat)
    {v w : Client υ ω ι ο} (inserting : v.state = .inserting)
    (ended : Runs (sendData .empty) v () w) : Cancelled w (after (endInsert fuel) v) := by
  apply Ensures.after_holds
  apply ensures_get_bind
  rw [if_pos inserting]
  apply Ensures.of_run ended
  refine Ensures.bind ((((allowsReceipts_cancelled unlimited).toReceives.awaitEnd fuel).ensures w).imp ?_
    fun _ _ moved => moved)
  intro eosPacket t moved
  apply ensures_get_bind
  have idles : Cancelled w { t with state := .idle } :=
    IsTrans.trans _ _ _ moved (cancelled_of_same rfl rfl id)
  dsimp only
  split
  · exact Ensures.bind (ensures_throw moved)
  · exact ensures_modify idles

/-- The end markers among the packets are those of the blocks without columns and rows. -/
theorem markers_once_iff [BoundedCodec] {encoding : Encoding} {blocks : List Block}
    {packets : List Bytes} (sized : ∀ block ∈ blocks, block.Sized)
    (arePackets : List.Forall₂ (encoding.IsDataPacket (dataHeader encoding.revision))
      (blocks ++ [.empty]) packets) :
    (∀ n packet, packets[n]? = some packet → (encoding.IsEndMarker packet ↔ n = blocks.length)) ↔
      ∀ block ∈ blocks, ¬ (block.columns = [] ∧ block.rows = 0) := by
  obtain ⟨lengths, each⟩ := List.forall₂_iff_get.mp arePackets
  rw [List.length_append, List.length_singleton] at lengths
  have marker (n : Nat) (below : n < packets.length) :
      encoding.IsEndMarker packets[n] ↔ n = blocks.length ∨
        ∃ within : n < blocks.length, blocks[n].columns = [] ∧ blocks[n].rows = 0 := by
    have isPacket := each n (by rw [List.length_append, List.length_singleton]; omega) below
    rw [List.get_eq_getElem, List.get_eq_getElem] at isPacket
    by_cases within : n < blocks.length
    · rw [List.getElem_append_left within] at isPacket
      rw [isEndMarker_iff (sized _ (List.getElem_mem within)) isPacket]
      constructor
      · exact fun none => .inr ⟨within, none⟩
      · rintro (last | ⟨_, none⟩)
        · omega
        · exact none
    · have last : n = blocks.length := by omega
      subst last
      rw [List.getElem_append_right (Nat.le_refl _)] at isPacket
      simp only [Nat.sub_self, List.getElem_cons_zero] at isPacket
      rw [isEndMarker_iff ⟨by decide, by decide⟩ isPacket]
      exact ⟨fun _ => .inl rfl, fun _ => ⟨rfl, rfl⟩⟩
  constructor
  · intro once block mem none
    obtain ⟨n, within, rfl⟩ := List.getElem_of_mem mem
    have below : n < packets.length := by omega
    have last := (once n packets[n] (List.getElem?_eq_getElem below)).mp
      ((marker n below).mpr (.inr ⟨within, none⟩))
    omega
  · intro nonempty n packet at'
    obtain ⟨below, rfl⟩ := List.getElem?_eq_some_iff.mp at'
    rw [marker n below]
    constructor
    · rintro (last | ⟨within, none⟩)
      · exact last
      · exact absurd none (nonempty _ (List.getElem_mem within))
    · exact .inl

/-- An insert sends the packets of its blocks and then an end marker.  This is the only end marker
exactly if no block is without columns and rows. -/
theorem terminatedOnce_iff [SocketFactory ω ι ο] [BoundedCodec]
    (unlimited : ∀ n, Fits (ε := Error) ο n) {fuel : Nat} {session : InsertSession υ}
    {s u v w : Client υ ω ι ο} {bs : Bytes} (sized : ∀ block ∈ session.blocks, block.Sized)
    (began : Runs (session.begin fuel) s () u) (holds : u.Took Took bs)
    (sent : Runs session.send u () v) (ended : Runs (sendData .empty) v () w) :
    TerminatedOnce u bs session.blocks (after (session.run fuel) s) ↔
      ∀ block ∈ session.blocks, ¬ (block.columns = [] ∧ block.rows = 0) := by
  have accounts : Accounts (Took : ο → Bytes → Prop) := accounts_took unlimited
  have inserting := session.state_begin began
  have ran : after (session.run fuel) s = after (endInsert fuel) v := by
    unfold after
    rw [session.run_eq, began.bind_eq, sent.bind_eq]
  obtain ⟨packets, output, sentTo, arePackets, taken⟩ := session.send_took accounts holds sent
  have cancelled : Cancelled w (after (endInsert fuel) v) :=
    endInsert_cancelled unlimited fuel (by rw [sentTo]; exact inserting) ended
  subst sentTo
  obtain ⟨output', marker, rfl, isMarker, taken'⟩ := sendData_took accounts ⟨output, rfl, taken⟩ ended
  have all : List.Forall₂ (u.encoding.IsDataPacket (dataHeader u.serverInfo.revision))
      (session.blocks ++ [.empty]) (packets ++ [marker]) :=
    List.rel_append arePackets (.cons isMarker .nil)
  constructor
  · rintro ⟨packets', _, _, _, arePackets', once⟩
    exact (markers_once_iff sized arePackets').mp once
  · intro nonempty
    obtain ⟨cancels, history, wrote, _⟩ := cancelled
    refine ⟨packets ++ [marker], cancels, ?_, ?_, all, (markers_once_iff sized all).mpr nonempty⟩
    · rw [ran, history, List.replicate_succ', ← List.append_assoc]
    · rw [ran, List.flatten_append, List.flatten_singleton, ← List.append_assoc bs]
      exact wrote _ ⟨output', rfl, taken'⟩

end Terminator

end Sessions

/-- A server that answers a query with an empty block, and the data with the end of the stream. -/
def insertingServer : Script := ⟨[closedAfter (oldHello 0 ++ [1, 0, 0, 5])]⟩

/-- The column `n UInt8` with the given rows. -/
def numbersBlock (rows : List (Word 1)) : Block :=
  ⟨.initial, [(ascii "n", .leaf (.fixed .uint8 rows))], rows.length⟩

def numberBlock : Block := numbersBlock [Word.ofNat 1 7]

def twoNumbers : Block := numbersBlock [Word.ofNat 1 8, Word.ofNat 1 9]

/-- One row is inserted, and then two. -/
theorem terminatedOnce_twoBlocks :
    letI := lengthHashing
    letI : Codec := storingCodec
    ∃ client u bs, Client.create sampleOptions insertingServer () = .ok client ∧
      Runs ((InsertSession.stepwise sampleQuery [numberBlock, twoNumbers]).begin 5) client () u ∧
      u.Took LawfulOutput.Took bs ∧
      TerminatedOnce u bs [numberBlock, twoNumbers]
        (after ((InsertSession.stepwise sampleQuery [numberBlock, twoNumbers]).run 5) client) := by
  let _ := lengthHashing
  let _ : Codec := storingCodec
  have bounded := bounded_storingCodec
  let session := InsertSession.stepwise sampleQuery [numberBlock, twoNumbers]
  have returns : (Client.create sampleOptions insertingServer ()).toOption.any (fun client =>
      returnsFrom (session.begin 5) client = true ∧
      (after (session.begin 5) client).output.isSome = true ∧
      returnsFrom session.send (after (session.begin 5) client) = true ∧
      returnsFrom (sendData .empty) (after session.send (after (session.begin 5) client)) = true) =
        true := by
    decide +kernel
  obtain ⟨client, created, began, hasOutput, sent, ended⟩ := exists_of_any returns
  obtain ⟨_, began⟩ := runs_of_returnsFrom began
  obtain ⟨_, sent⟩ := runs_of_returnsFrom sent
  obtain ⟨_, ended⟩ := runs_of_returnsFrom ended
  obtain ⟨output, open'⟩ := Option.isSome_iff_exists.mp hasOutput
  have took := took_bufferedSink output
  have sized : ∀ block ∈ session.blocks, block.Sized := by
    intro block mem
    rcases List.mem_pair.mp mem with rfl | rfl
    · exact ⟨by decide, by decide⟩
    · exact ⟨by decide, by decide⟩
  refine ⟨client, _, _, created, began, ⟨output, open', took⟩, ?_⟩
  refine (terminatedOnce_iff (fun _ => trivial) sized began ⟨output, open', took⟩ sent ended).mpr ?_
  intro block mem none
  rcases List.mem_pair.mp mem with rfl | rfl
  · exact absurd none.2 (by decide)
  · exact absurd none.2 (by decide)

/-- An empty block is sent as it is, and so there are two end markers. -/
theorem not_terminatedOnce_emptyBlock :
    letI := lengthHashing
    letI : Codec := storingCodec
    ∃ client u t bs, Client.create sampleOptions insertingServer () = .ok client ∧
      Runs ((InsertSession.stepwise sampleQuery [.empty]).begin 5) client () u ∧
      u.Took LawfulOutput.Took bs ∧
      Runs ((InsertSession.stepwise sampleQuery [.empty]).run 5) client () t ∧
      ¬ TerminatedOnce u bs [.empty] t := by
  let _ := lengthHashing
  let _ : Codec := storingCodec
  have bounded := bounded_storingCodec
  let session := InsertSession.stepwise sampleQuery [.empty]
  have returns : (Client.create sampleOptions insertingServer ()).toOption.any (fun client =>
      returnsFrom (session.begin 5) client = true ∧
      (after (session.begin 5) client).output.isSome = true ∧
      returnsFrom (session.run 5) client = true) = true := by
    decide +kernel
  obtain ⟨client, created, began, hasOutput, ran⟩ := exists_of_any returns
  obtain ⟨_, began⟩ := runs_of_returnsFrom began
  obtain ⟨_, ran⟩ := runs_of_returnsFrom ran
  obtain ⟨output, open'⟩ := Option.isSome_iff_exists.mp hasOutput
  refine ⟨client, _, _, _, created, began, ⟨output, open', took_bufferedSink output⟩, ran, ?_⟩
  rintro ⟨packets, _, _, _, arePackets, once⟩
  have sized : ∀ block ∈ [Block.empty], block.Sized := by
    intro block mem
    rw [List.mem_singleton.mp mem]
    exact ⟨by decide, by decide⟩
  exact (markers_once_iff sized arePackets).mp once .empty (List.mem_singleton.mpr rfl) ⟨rfl, rfl⟩

end ClickHouse
