import ClickHouse.Client.ExternalTables
import ClickHouse.Client.Rejections

/-!
# What a server sends in response

The packets of a response are any number of packets with data and reports, and
one that ends it.  `ReceivePacket` reads exactly the bytes of one packet, unless
it throws.
-/

namespace ClickHouse

open Kit

/-! ## Packets -/

/-- What the layout of packets depends on, and with what columns are created. -/
structure Format where
  revision : Nat
  compression : Bool
  settings : CreateColumnByTypeSettings

/-- The packets that do not end a response. -/
inductive ServerPacket
  | data (name : Bytes) (block : Block)
  | progress (progress : Progress)
  | profileInfo (profile : Profile)
  | log (tag : Bytes) (block : Block)
  | tableColumns (name columns : Bytes)
  | profileEvents (tag : Bytes) (block : Block)

/-- The packets that end a response. -/
inductive ResponseEnd
  | endOfStream
  | exception (e : Exception)

/-- The bytes as they are, or in frames, each of which is compressed in some way. -/
inductive Framed [Codec] : Bool → Bytes → Bytes → Prop
  | raw (plain : Bytes) : Framed false plain plain
  | frames {frames chunks : List Bytes} :
    List.Forall₂ (fun frame chunk => ∃ method, method ≠ .none ∧ IsFrame method frame chunk)
      frames chunks → Framed true frames.flatten chunks.flatten

section Encoding

variable [Hashing]

/-- The bytes are a block of the name: whatever they arrive from, a client reads them in full. -/
structure IsBlock (format : Format) (name : Bytes) (block : Block) (plain : Bytes) : Prop where
  shortName : name.length ≤ maxStringLength
  decodes : ∀ (σ : Type) [LawfulSource Error σ],
    Decodes (σ := σ) (readBlock format.revision format.settings) plain (true, block)

variable [Codec]

/-- The bytes are the packet, in the format. -/
inductive ServerPacket.Encodes (format : Format) : ServerPacket → Bytes → Prop
  | data {name block plain body} : IsBlock format name block plain →
    Framed format.compression body plain →
    Encodes format (.data name block)
      (writeUInt64 ServerCode.data.code ++ ((writeString name).flatten ++ body))
  | progress {progress} : progress.Sendable → Encodes format (.progress progress)
      (writeUInt64 ServerCode.progress.code ++ progressBody format.revision progress)
  | profileInfo {profile} : profile.Sendable → Encodes format (.profileInfo profile)
      (writeUInt64 ServerCode.profileInfo.code ++ profileInfoBody profile)
  | log {tag block plain} : IsBlock format tag block plain → Encodes format (.log tag block)
      (writeUInt64 ServerCode.log.code ++ ((writeString tag).flatten ++ plain))
  | tableColumns {name columns} : name.length ≤ maxStringLength →
    columns.length ≤ maxStringLength → Encodes format (.tableColumns name columns)
      (writeUInt64 ServerCode.tableColumns.code ++ tableColumnsBody name columns)
  | profileEvents {tag block plain} : IsBlock format tag block plain →
    Encodes format (.profileEvents tag block)
      (writeUInt64 ServerCode.profileEvents.code ++ ((writeString tag).flatten ++ plain))

/-- The bytes are the packet that ends the response. -/
inductive ResponseEnd.Encodes : ResponseEnd → Bytes → Prop
  | endOfStream : Encodes .endOfStream (writeUInt64 ServerCode.endOfStream.code)
  | exception {e} : e.Sendable →
    Encodes (.exception e) (writeUInt64 ServerCode.exception.code ++ exceptionBody e)

/-- The bytes are packets and the end of a response, one after the other. -/
inductive IsResponse (format : Format) : List ServerPacket → ResponseEnd → Bytes → Prop
  | ends {ending bytes} : ending.Encodes bytes → IsResponse format [] ending bytes
  | packet {packet packets ending bytes rest} : packet.Encodes format bytes →
    IsResponse format packets ending rest → IsResponse format (packet :: packets) ending (bytes ++ rest)

/-! ## Decoding -/

section Decoding

variable {σ : Type}

variable {block : Block} {name plain : Bytes}

omit [Codec] in
theorem decodes_readTaggedBlock [LawfulSource Error σ] {format : Format} {tag : Bytes}
    (isBlock : IsBlock format tag block plain) :
    Decodes (σ := σ) (readTaggedBlock format.revision format.settings)
      ((writeString tag).flatten ++ plain) (some block) :=
  (decodes_skipString isBlock.shortName).bind ((isBlock.decodes σ).bind_pure (.pure _))

theorem decodes_readCompressedBlock [DivisibleSource Error σ] {format : Format}
    {frames chunks : List Bytes} (isBlock : IsBlock format name block chunks.flatten)
    (areFrames : List.Forall₂ (fun frame chunk => ∃ method, method ≠ .none ∧
      IsFrame method frame chunk) frames chunks) :
    Decodes (σ := σ) (readCompressedBlock format.revision format.settings) frames.flatten
      (some block) := by
  intro s t rest feeds
  obtain ⟨m, feeds, others⟩ := DivisibleSource.feeds_append feeds
  have whole : LawfulSource.Feeds (⟨s, []⟩ : CompressedInput σ) chunks.flatten ⟨m, []⟩ := by
    refine ⟨frames, chunks, areFrames.imp ?_, rfl, feeds, rfl⟩
    rintro frame chunk ⟨method, compresses, isFrame⟩
    exact ⟨isFrame.nonempty, isFrame.decodes compresses⟩
  refine ⟨m, ?_, others⟩
  unfold Runs readCompressedBlock unchunk zoom
  rw [((isBlock.decodes (CompressedInput σ)).runs whole).bind_eq]
  rfl

theorem decodes_readData [DivisibleSource Error σ] {format : Format} {body : Bytes}
    (supported : dbmsMinRevisionWithTemporaryTables ≤ format.revision)
    (isBlock : IsBlock format name block plain) (framed : Framed format.compression body plain) :
    Decodes (σ := σ) (readData format.revision format.settings format.compression)
      ((writeString name).flatten ++ body) (some block) := by
  have named : Decodes (σ := σ) (readTableName format.revision) (writeString name).flatten true := by
    unfold readTableName
    rw [if_pos supported]
    exact decodes_skipString isBlock.shortName
  generalize compressed : format.compression = compression at framed
  cases framed with
  | raw => exact named.bind ((isBlock.decodes σ).bind_pure (.pure _))
  | frames areFrames => exact named.bind (decodes_readCompressedBlock isBlock areFrames)

end Decoding

end Encoding

/-! ## Receiving a packet -/

section Receiving

variable {υ ω ι ο : Type}

/-- What the client knows of the format. -/
def Client.format (s : Client υ ω ι ο) : Format :=
  ⟨s.serverInfo.revision, s.compression, s.columnSettings⟩

/-- The packet that was decoded is the one that was sent. -/
inductive DecodedPacket.Is : ServerPacket → DecodedPacket → Prop
  | data {name block} : Is (.data name block) (.block block)
  | progress {sent received} : Is (.progress sent) (.progress received)
  | profileInfo {sent received} : Is (.profileInfo sent) (.profile received)
  | log {tag block} : Is (.log tag block) (.log block)
  | tableColumns {name columns} : Is (.tableColumns name columns) .tableColumns
  | profileEvents {tag block} : Is (.profileEvents tag block) (.profileEvents block)

theorem keepsInput_note (event : Event) : Along KeepsInput (note event : ClientM υ ω ι ο Unit) :=
  along_modify fun _ => rfl

theorem keepsInput_sendCancel [Output Error ο] :
    Along KeepsInput (sendCancel : ClientM υ ω ι ο Unit) :=
  (keepsInput_note _).bind fun _ => (keepsInput_toOutput _).bind fun _ => keepsInput_toOutput _

theorem keepsInput_deliverData [Output Error ο] (block : Block) :
    Along KeepsInput (deliverData block : ClientM υ ω ι ο Unit) := by
  have onData : Along KeepsInput (onData block : ClientM υ ω ι ο Unit) := by
    apply along_get_bind
    intro s
    split
    · exact along_modify fun _ => rfl
    · exact keepsInput_notify _ _
  have onDataCancelable : Along KeepsInput (onDataCancelable block : ClientM υ ω ι ο Bool) := by
    apply along_get_bind
    intro s
    split
    · exact along_pure _
    · exact keepsInput_callback _
  apply along_get_bind
  intro s
  split
  · refine onData.bind fun _ => onDataCancelable.bind fun goOn => ?_
    split
    · exact along_pure _
    · exact keepsInput_sendCancel
  · exact along_pure _

section Feeding

variable [LawfulSource Error ι]

/-- From the input of the client the bytes arrive, and after them it is `last`. -/
def Client.Fed (last : ι) (s : Client υ ω ι ο) (bytes : Bytes) : Prop :=
  ∃ input, s.input = some input ∧ LawfulSource.Feeds input bytes last

theorem Client.Fed.of_keepsInput {last : ι} {s t : Client υ ω ι ο} {bytes : Bytes}
    (fed : s.Fed last bytes) (keeps : KeepsInput s t) : t.Fed last bytes := by
  obtain ⟨input, arrives, feeds⟩ := fed
  exact ⟨input, keeps.trans arrives, feeds⟩

variable {last : ι} {s t : Client υ ω ι ο} {bytes rest : Bytes}

/-- A read that decodes the bytes. -/
theorem fromInput_fed {α : Type} {p : EStateM Error ι α} {a b : α} (decodes : Decodes p bytes a)
    (fed : s.Fed last (bytes ++ rest)) (run : Runs (fromInput p) s b t) :
    b = a ∧ t.Fed last rest := by
  obtain ⟨input, arrives, feeds⟩ := fed
  obtain ⟨m, reads, feeds⟩ := decodes feeds
  obtain ⟨⟩ := (runs_fromInput arrives reads).symm.trans run
  exact ⟨rfl, m, rfl, feeds⟩

/-- A packet that is decoded and handed over. -/
theorem receive_fed {α : Type} {read : EStateM Error ι (Option α)} {a b : α}
    {handOver : α → ClientM υ ω ι ο Unit} (decodes : Decodes read bytes (some a))
    (keeps : ∀ a, Along KeepsInput (handOver a)) (fed : s.Fed last (bytes ++ rest))
    (run : Runs (receive read handOver) s (some b) t) : b = a ∧ t.Fed last rest := by
  obtain ⟨value, u, reads, hands⟩ := runs_bind_iff.mp run
  obtain ⟨rfl, fed⟩ := fromInput_fed decodes fed reads
  obtain ⟨_, handed, same⟩ := runs_bind_pure_iff.mp hands
  exact ⟨(Option.some.inj same).symm, fed.of_keepsInput ((keeps a).of_runs handed)⟩

end Feeding

variable [DivisibleSource Error ι] [Output Error ο] [Hashing] [Codec] {last : ι}
  {s t : Client υ ω ι ο} {bytes rest : Bytes} {code : Nat} {received : DecodedPacket}

/-- After the code of a packet its body is received. -/
theorem receivePacket_code {known : ServerCode}
    (fed : s.Fed last (writeUInt64 known.code ++ (bytes ++ rest)))
    (run : Runs receivePacket s (code, received) t) :
    code = known.code ∧ ∃ u, u.Fed last (bytes ++ rest) ∧ u.format = s.format ∧
      u.options = s.options ∧ Runs (receiveBody known) u received t := by
  have small : known.code < 2 ^ 64 := by
    cases known with
    | _ => decide
  obtain ⟨packetType, u, typed, body⟩ := runs_bind_iff.mp run
  have typed := runs_orProtocolError_iff.mp typed
  obtain ⟨input, m, _, _, rfl⟩ := of_runs_fromInput typed
  obtain ⟨same, fed⟩ := fromInput_fed (decodes_readUInt64 small) fed typed
  cases same
  have ofCode : ServerCode.ofCode known.code = some known := by
    cases known with
    | _ => rfl
  rw [ofCode] at body
  obtain ⟨packet, inner, same⟩ := runs_bind_pure_iff.mp body
  obtain ⟨rfl, rfl⟩ := Prod.mk.inj same
  exact ⟨rfl, _, fed, rfl, rfl, inner⟩

omit [Output Error ο] [Hashing] [Codec] in
/-- A body that is decoded, handed over and returned as a packet. -/
theorem body_fed {α : Type} {p : ClientM υ ω ι ο (Option α)} {what : String}
    {wrap : α → DecodedPacket} {a : α}
    (body : Runs (do
      let value ← orProtocolError p what
      pure (wrap value)) s received t)
    (reads : ∀ b u, Runs p s (some b) u → b = a ∧ u.Fed last rest) :
    received = wrap a ∧ t.Fed last rest := by
  obtain ⟨value, read, rfl⟩ := runs_bind_pure_iff.mp body
  obtain ⟨rfl, fed⟩ := reads value _ (runs_orProtocolError_iff.mp read)
  exact ⟨rfl, fed⟩

/-- `ReceivePacket` that returns has read exactly the packet. -/
theorem receivePacket_fed {packet : ServerPacket} (encodes : packet.Encodes s.format bytes)
    (reports : dbmsMinRevisionWithTotalRowsInProgress ≤ s.serverInfo.revision)
    (fed : s.Fed last (bytes ++ rest)) (run : Runs receivePacket s (code, received) t) :
    DecodedPacket.Is packet received ∧ t.Fed last rest := by
  have supported : dbmsMinRevisionWithTemporaryTables ≤ s.format.revision :=
    Nat.le_trans (by decide) reports
  cases encodes with
  | data isBlock framed =>
    have decodes := decodes_readData (σ := ι) supported isBlock framed
    rw [List.append_assoc] at fed
    obtain ⟨_, u, fed, format, _, body⟩ := receivePacket_code fed run
    obtain ⟨rfl, fed⟩ := body_fed body fun b v reads => by
      obtain ⟨_, _, ⟨⟩, reads⟩ := runs_bind_iff.mp reads
      exact receive_fed (format ▸ decodes) (fun _ => keepsInput_deliverData _) fed reads
    exact ⟨.data, fed⟩
  | @progress progress sendable =>
    have decodes := decodes_readProgress (σ := ι) sendable reports
    rw [List.append_assoc] at fed
    obtain ⟨_, u, fed, format, _, body⟩ := receivePacket_code fed run
    have revision : u.serverInfo.revision = s.serverInfo.revision := congrArg Format.revision format
    obtain ⟨rfl, fed⟩ := body_fed body fun b v reads => by
      obtain ⟨_, _, ⟨⟩, reads⟩ := runs_bind_iff.mp reads
      rw [revision] at reads
      exact receive_fed decodes (fun _ => keepsInput_notify _ _) fed reads
    exact ⟨.progress, fed⟩
  | profileInfo sendable =>
    rw [List.append_assoc] at fed
    obtain ⟨_, u, fed, _, _, body⟩ := receivePacket_code fed run
    obtain ⟨rfl, fed⟩ := body_fed body fun b v reads =>
      receive_fed (decodes_readProfileInfo sendable) (fun _ => keepsInput_notify _ _) fed reads
    exact ⟨.profileInfo, fed⟩
  | log isBlock =>
    have decodes := decodes_readTaggedBlock (σ := ι) isBlock
    rw [List.append_assoc] at fed
    obtain ⟨_, u, fed, format, _, body⟩ := receivePacket_code fed run
    obtain ⟨rfl, fed⟩ := body_fed body fun b v reads => by
      obtain ⟨_, _, ⟨⟩, reads⟩ := runs_bind_iff.mp reads
      exact receive_fed (format ▸ decodes) (fun _ => keepsInput_notify _ _) fed reads
    exact ⟨.log, fed⟩
  | tableColumns shortName shortColumns =>
    rw [List.append_assoc] at fed
    obtain ⟨_, u, fed, _, _, body⟩ := receivePacket_code fed run
    obtain ⟨ok, v, reads, returned⟩ := runs_bind_iff.mp body
    obtain ⟨rfl, fed⟩ := fromInput_fed (decodes_readTableColumns shortName shortColumns) fed reads
    obtain ⟨rfl, rfl⟩ := runs_pure_iff.mp returned
    exact ⟨.tableColumns, fed⟩
  | profileEvents isBlock =>
    have decodes := decodes_readTaggedBlock (σ := ι) isBlock
    rw [List.append_assoc] at fed
    obtain ⟨_, u, fed, format, _, body⟩ := receivePacket_code fed run
    obtain ⟨rfl, fed⟩ := body_fed body fun b v reads => by
      obtain ⟨_, _, ⟨⟩, reads⟩ := runs_bind_iff.mp reads
      exact receive_fed (format ▸ decodes) (fun _ => keepsInput_notify _ _) fed reads
    exact ⟨.profileEvents, fed⟩

/-- The same for the packet that ends a response. -/
theorem receivePacket_end_fed {ending : ResponseEnd} (encodes : ending.Encodes bytes)
    (fed : s.Fed last (bytes ++ rest)) (run : Runs receivePacket s (code, received) t) :
    received.ends = true ∧ t.Fed last rest := by
  cases encodes with
  | endOfStream =>
    have fed : s.Fed last (writeUInt64 ServerCode.endOfStream.code ++ ([] ++ rest)) := fed
    obtain ⟨_, u, fed, _, _, body⟩ := receivePacket_code fed run
    obtain ⟨rfl, rfl⟩ := runs_pure_iff.mp body
    exact ⟨rfl, fed⟩
  | exception sendable =>
    rw [List.append_assoc] at fed
    obtain ⟨_, u, fed, _, _, body⟩ := receivePacket_code fed run
    obtain ⟨e, v, reads, rethrown⟩ := runs_bind_iff.mp body
    obtain ⟨_, fed⟩ := receive_fed (decodes_readException sendable)
      (fun _ => keepsInput_notify _ _) fed (runs_orProtocolError_iff.mp reads)
    obtain ⟨_, _, ⟨⟩, rethrown⟩ := runs_bind_iff.mp rethrown
    split at rethrown
    · cases rethrown
    · obtain ⟨rfl, rfl⟩ := runs_pure_iff.mp rethrown
      exact ⟨rfl, fed⟩

end Receiving

end ClickHouse
