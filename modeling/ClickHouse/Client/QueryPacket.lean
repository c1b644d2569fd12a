import ClickHouse.BlockRoundTrip
import ClickHouse.Client.Script
import ClickHouse.Client.Written

/-!
# Reading back a query packet

The settings and the parameters of a query are lists that end with an empty
name.  A decoder that reads a query packet field by field therefore recovers
the query exactly if no name is empty.
-/

namespace ClickHouse

open Kit List

/-! ## The decoder -/

/-- A name, flags and a value. -/
abbrev Triple : Type := Bytes × Nat × Bytes

/-- What a query packet says of the query. -/
structure DecodedQuery where
  queryId : Bytes
  tracingContext : Option TracingContext
  settings : List Triple
  text : Bytes
  params : List Triple
deriving DecidableEq

section Decoder

variable {σ : Type} [Source Error σ]

/-- A string of any length. -/
def readText : EStateM Error σ (Option Bytes) := do
  let some len ← readVarint64 | pure none
  readFixed len

/-- A field that is there from a revision on. -/
def readSince {α : Type} (first revision : Nat) (read : EStateM Error σ (Option α)) (absent : α) :
    EStateM Error σ (Option α) :=
  if revision ≥ first then read else pure (some absent)

def readTracingInfo : EStateM Error σ (Option (Option TracingContext)) := do
  let some present ← readFixedUInt 1 | pure none
  if present = 0 then pure (some none)
  else do
    let some traceId ← readWord 16 | pure none
    let some spanId ← readWord 8 | pure none
    let some tracestate ← readText | pure none
    let some traceFlags ← readWord 1 | pure none
    pure (some (some ⟨traceId, spanId, tracestate, traceFlags⟩))

def readReplicas : EStateM Error σ (Option Unit) := do
  let some _ ← readUInt64 | pure none
  let some _ ← readUInt64 | pure none
  let some _ ← readUInt64 | pure none
  pure (some ())

/-- `ClientInfo`, of which the tracing context is kept. -/
def readClientInfo (revision : Nat) : EStateM Error σ (Option (Option TracingContext)) := do
  let some _queryKind ← readFixedUInt 1 | pure none
  let some _initialUser ← readText | pure none
  let some _initialQueryId ← readText | pure none
  let some _initialAddress ← readText | pure none
  let some _startTime ← readSince dbmsMinRevisionWithInitialQueryStartTime revision
    (readFixedUInt 8) 0 | pure none
  let some _ifaceType ← readFixedUInt 1 | pure none
  let some _osUser ← readText | pure none
  let some _clientHostname ← readText | pure none
  let some _clientName ← readText | pure none
  let some _versionMajor ← readUInt64 | pure none
  let some _versionMinor ← readUInt64 | pure none
  let some _clientRevision ← readUInt64 | pure none
  let some _quotaKey ← readSince dbmsMinRevisionWithQuotaKeyInClientInfo revision readText []
    | pure none
  let some _distributedDepth ← readSince dbmsMinRevisionWithDistributedDepth revision readUInt64 0
    | pure none
  let some _versionPatch ← readSince dbmsMinRevisionWithVersionPatch revision readUInt64 0
    | pure none
  let some context ← readSince dbmsMinRevisionWithOpentelemetry revision readTracingInfo none
    | pure none
  let some _ ← readSince dbmsMinRevisionWithParallelReplicas revision readReplicas () | pure none
  pure (some context)

/-- Triples until an empty name, fewer than the given number of them. -/
def readTriples : Nat → EStateM Error σ (Option (List Triple))
  | 0 => pure none
  | limit + 1 => do
    let some name ← readText | pure none
    if name = [] then pure (some [])
    else do
      let some flags ← readVarint64 | pure none
      let some value ← readText | pure none
      let some triples ← readTriples limit | pure none
      pure (some ((name, flags, value) :: triples))

/-- The fields of a query packet. -/
def readQueryFields (limit revision : Nat) : EStateM Error σ (Option DecodedQuery) := do
  let some code ← readUInt64 | pure none
  if code = ClientCode.query.code then do
    let some queryId ← readText | pure none
    let some context ← readSince dbmsMinRevisionWithClientInfo revision (readClientInfo revision) none
      | pure none
    let some settings ← readTriples limit | pure none
    let some _secret ← readSince dbmsMinRevisionWithInterserverSecret revision readText []
      | pure none
    let some _stage ← readUInt64 | pure none
    let some _compression ← readUInt64 | pure none
    let some text ← readText | pure none
    let some params ← readSince dbmsMinProtocolVersionWithParameters revision (readTriples limit) []
      | pure none
    pure (some ⟨queryId, context, settings, text, params⟩)
  else pure none

end Decoder

/-- A query packet; there are not more triples than bytes. -/
def readQueryPacket (revision : Nat) : EStateM Error ArrayInput (Option DecodedQuery) := do
  let input ← get
  readQueryFields (input.data.length + 1) revision

/-! ## Quoted values -/

/-- The quoted form of a value. -/
def quotedForm (value : Bytes) : Bytes :=
  [0x27] ++ (quotedPieces [] value).flatten ++ [0x27]

/-- What is written for the value of a parameter. -/
def paramForm : Option Bytes → Bytes
  | some value => quotedForm value
  | none => [0x27, 0x5C, 0x5C, 0x4E, 0x27]

/-- The characters that are quoted, one by one. -/
theorem isQuotedChar_iff {c : UInt8} : isQuotedChar c = true ↔
    c = 0x00 ∨ c = 0x08 ∨ c = 0x09 ∨ c = 0x0A ∨ c = 0x27 ∨ c = 0x5C := by
  simp [isQuotedChar, or_assoc]

theorem length_quotedSuffix {c : UInt8} (quoted : isQuotedChar c) : (quotedSuffix c).length = 3 := by
  rcases isQuotedChar_iff.mp quoted with rfl | rfl | rfl | rfl | rfl | rfl <;> decide

/-- Four characters stand for each one that is quoted. -/
theorem length_quotedPieces (start value : Bytes) : (quotedPieces start value).flatten.length =
    start.length + value.length + 3 * value.countP isQuotedChar := by
  induction value generalizing start with
  | nil => simp [quotedPieces]
  | cons c value ih =>
    rw [quotedPieces]
    split
    · rename_i quoted
      simp only [flatten_cons, length_append, ih, length_quotedSuffix quoted,
        countP_cons, quoted, length_cons, length_nil, if_true]
      omega
    · rename_i plain
      rw [ih, countP_cons_of_neg plain]
      simp only [length_append, length_cons, length_nil]
      omega

/-- Without characters to quote the value stays as it is. -/
theorem flatten_quotedPieces {start value : Bytes} (plain : value.countP isQuotedChar = 0) :
    (quotedPieces start value).flatten = start ++ value := by
  induction value generalizing start with
  | nil => simp [quotedPieces]
  | cons c value ih =>
    have all := countP_eq_zero.mp plain
    rw [quotedPieces, if_neg (all c (mem_cons_self ..)), ih, append_assoc]
    · rfl
    · exact countP_eq_zero.mpr fun d mem => all d (mem_cons_of_mem _ mem)

theorem length_quotedForm (value : Bytes) :
    (quotedForm value).length = value.length + 2 + 3 * value.countP isQuotedChar := by
  unfold quotedForm
  simp only [length_append, length_quotedPieces, length_cons, length_nil]
  omega

/-- `WriteQuotedString` writes the quoted form as a string. -/
theorem emits_writeQuotedString {value : Bytes} (fits : 3 * value.countP isQuotedChar < 2 ^ 31) :
    Emits (writeQuotedString value) (writeString (quotedForm value)).flatten := by
  unfold writeQuotedString
  dsimp only
  rw [if_neg (Nat.not_le_of_lt fits), flatten_writeString, length_quotedForm]
  split
  · rename_i plain
    refine ⟨rfl, ?_⟩
    rw [plain, quotedForm, flatten_quotedPieces plain]
    simp [Emit.writes]
  · refine ⟨rfl, ?_⟩
    simp [Emit.writes, quotedForm]

/-- A value is written only if the `int` that counts the bytes added for it does not overflow. -/
theorem fits_of_emits_writeQuotedString {value bytes : Bytes}
    (emits : Emits (writeQuotedString value) bytes) : 3 * value.countP isQuotedChar < 2 ^ 31 := by
  by_contra large
  have thrown := emits.1
  unfold writeQuotedString at thrown
  dsimp only at thrown
  rw [if_pos (Nat.le_of_not_lt large)] at thrown
  cases thrown

variable {param : Bytes × Option Bytes} {limit : Nat}

theorem emits_writeParam
    (fits : ∀ value, param.2 = some value → 3 * value.countP isQuotedChar < 2 ^ 31) :
    Emits (writeParam param) ((writeString param.1).flatten ++ (writeVarint64 2 ++
      (writeString (paramForm param.2)).flatten)) := by
  obtain ⟨name, value⟩ := param
  refine emits_all_iff.mpr ⟨[(writeString name).flatten, writeVarint64 2,
    (writeString (paramForm value)).flatten], .cons (emits_writes _) (.cons (emits_write _)
    (.cons ?_ .nil)), by simp⟩
  cases value with
  | none => exact emits_writes _
  | some value => exact emits_writeQuotedString (fits value rfl)

/-- A parameter that is written has a value that can be quoted. -/
theorem fits_of_emits_writeParam {bytes : Bytes} (emits : Emits (writeParam param) bytes)
    {value : Bytes} (has : param.2 = some value) : 3 * value.countP isQuotedChar < 2 ^ 31 := by
  obtain ⟨name, _⟩ := param
  cases has
  obtain ⟨pieces, each, _⟩ := emits_all_iff.mp emits
  obtain _ | ⟨_, _ | ⟨_, _ | ⟨quoted, _⟩⟩⟩ := each
  exact fits_of_emits_writeQuotedString quoted

/-! ## Decoding -/

section Decoding

variable {σ : Type} [LawfulSource Error σ]

theorem decodes_readText {value : Bytes} (short : value.length < 2 ^ 64) :
    Decodes (σ := σ) readText (writeString value).flatten (some value) := by
  rw [flatten_writeString]
  exact (decodes_readVarint64 short).bind (decodes_readFixed rfl)

theorem decodes_readSince {α : Type} {first revision : Nat} (reached : first ≤ revision)
    {read : EStateM Error σ (Option α)} {bs : Bytes} {a : α} (decodes : Decodes read bs (some a))
    (absent : α) : Decodes (readSince first revision read absent) bs (some a) := by
  unfold readSince
  rw [if_pos reached]
  exact decodes

/-- The bytes of a triple. -/
def tripleBytes (triple : Triple) : Bytes :=
  (writeString triple.1).flatten ++ (writeVarint64 triple.2.1 ++ (writeString triple.2.2).flatten)

/-- The parts of a triple are values of `size_t` and `uint64_t`. -/
def Triple.Sized (triple : Triple) : Prop :=
  triple.1.length < 2 ^ 64 ∧ triple.2.1 < 2 ^ 64 ∧ triple.2.2.length < 2 ^ 64

/-- Triples with names are read until the empty name after them. -/
theorem decodes_readTriples {triples : List Triple} (named : ∀ triple ∈ triples, triple.1 ≠ [])
    (sized : ∀ triple ∈ triples, Triple.Sized triple) (enough : triples.length < limit) :
    Decodes (σ := σ) (readTriples limit)
      ((triples.map tripleBytes).flatten ++ (writeString []).flatten) (some triples) := by
  induction triples generalizing limit with
  | nil =>
    obtain _ | limit := limit
    · cases enough
    · exact (decodes_readText (by decide)).bind_pure (.pure _)
  | cons triple triples ih =>
    obtain _ | limit := limit
    · cases enough
    · obtain ⟨name, flags, value⟩ := triple
      obtain ⟨shortName, smallFlags, shortValue⟩ := sized _ (mem_cons_self ..)
      have others := ih (fun t mem => named t (mem_cons_of_mem _ mem))
        (fun t mem => sized t (mem_cons_of_mem _ mem)) (Nat.lt_of_succ_lt_succ enough)
      rw [map_cons, flatten_cons, tripleBytes]
      simp only [append_assoc]
      refine (decodes_readText shortName).bind ?_
      dsimp only
      rw [if_neg (named _ (mem_cons_self ..))]
      refine (decodes_readVarint64 smallFlags).bind ((decodes_readText shortValue).bind ?_)
      exact others.bind_pure (.pure _)

/-- The triples that are read have names. -/
theorem named_readTriples {σ : Type} [Source Error σ] {triples : List Triple} {s t : σ}
    (run : Runs (readTriples limit) s (some triples) t) : ∀ triple ∈ triples, triple.1 ≠ [] := by
  induction limit generalizing s triples with
  | zero => cases run
  | succ limit ih =>
    obtain ⟨name, _, _, run⟩ := runs_bind_iff.mp run
    obtain _ | name := name
    · cases run
    · dsimp only at run
      split at run
      · cases run
        intro triple mem
        cases mem
      · rename_i named
        obtain ⟨flags, _, _, run⟩ := runs_bind_iff.mp run
        obtain _ | flags := flags
        · cases run
        · obtain ⟨value, _, _, run⟩ := runs_bind_iff.mp run
          obtain _ | value := value
          · cases run
          · obtain ⟨others, _, more, run⟩ := runs_bind_iff.mp run
            obtain _ | others := others
            · cases run
            · cases run
              intro triple mem
              rcases mem_cons.mp mem with rfl | mem
              · exact named
              · exact ih more triple mem

end Decoding

/-! ## Query packets -/

/-- What the packet of a query should say of it: the values of parameters are quoted. -/
def Query.decoded {υ : Type} (query : Query υ) : DecodedQuery where
  queryId := query.queryId
  tracingContext := query.tracingContext
  settings := query.settings.entries.map fun setting =>
    (setting.1, setting.2.flags.toNat, setting.2.value)
  text := query.text
  params := query.params.entries.map fun param => (param.1, 2, paramForm param.2)

/-- All strings of the query are shorter than `size_t` can count. -/
structure Query.Sized {υ : Type} (query : Query υ) : Prop where
  queryId : query.queryId.length < 2 ^ 64
  tracestate : ∀ context, query.tracingContext = some context → context.tracestate.length < 2 ^ 64
  settings : ∀ triple ∈ query.decoded.settings, Triple.Sized triple
  text : query.text.length < 2 ^ 64
  params : ∀ triple ∈ query.decoded.params, Triple.Sized triple

/-- No setting and no parameter has an empty name, and no value has so many characters to quote that
three times their number is not an `int`. -/
structure Query.Decodable {υ : Type} (query : Query υ) : Prop where
  settings : ∀ setting ∈ query.settings.entries, setting.1 ≠ []
  params : ∀ param ∈ query.params.entries, param.1 ≠ []
  quotes : ∀ param ∈ query.params.entries, ∀ value, param.2 = some value →
    3 * value.countP isQuotedChar < 2 ^ 31

/-- A revision from which on all fields are sent. -/
def LatestRevision (revision : Nat) : Prop := dbmsMinProtocolVersionWithParameters ≤ revision

theorem since_eq {revision first : Nat} (latest : LatestRevision revision)
    (earlier : first ≤ dbmsMinProtocolVersionWithParameters) (field : Emit Error) :
    since first revision field = field :=
  if_pos (Nat.le_trans earlier latest)

section Packet

variable {υ σ : Type} [LawfulSource Error σ] {revision : Nat}

/-- The header of a tracing context, or the byte that says that there is none. -/
theorem decodes_readTracingInfo (latest : LatestRevision revision) {context : Option TracingContext}
    (sized : ∀ c, context = some c → c.tracestate.length < 2 ^ 64) :
    ∃ bytes, Emits (tracingInfo revision context) bytes ∧
      Decodes (σ := σ) readTracingInfo bytes (some context) := by
  unfold tracingInfo
  rw [if_pos (Nat.le_trans (by decide) latest)]
  cases context with
  | none => exact ⟨_, emits_write _, (decodes_readFixedUInt (by decide)).bind_pure (.pure _)⟩
  | some context =>
    refine ⟨_, emits_all_iff.mpr ⟨[_, _, _, _, _], .cons (emits_write _) (.cons (emits_write _)
      (.cons (emits_write _) (.cons (emits_writes _) (.cons (emits_write _) .nil)))), rfl⟩, ?_⟩
    simp only [flatten_cons, flatten_nil, append_nil]
    refine (decodes_readFixedUInt (by decide)).bind ?_
    refine (decodes_readWord context.traceId).bind ((decodes_readWord context.spanId).bind ?_)
    refine (decodes_readText (sized context rfl)).bind ?_
    exact (decodes_readWord context.traceFlags).bind_pure (.pure _)

theorem decodes_readClientInfo (latest : LatestRevision revision) {context : Option TracingContext}
    (sized : ∀ c, context = some c → c.tracestate.length < 2 ^ 64) :
    ∃ bytes, Emits (clientInfo revision context) bytes ∧
      Decodes (σ := σ) (readClientInfo revision) bytes (some context) := by
  have reached {first : Nat} (earlier : first ≤ dbmsMinProtocolVersionWithParameters) :
      first ≤ revision := Nat.le_trans earlier latest
  obtain ⟨tracing, emitsTracing, decodesTracing⟩ :=
    decodes_readTracingInfo (σ := σ) latest sized
  have replicas : Emits (.all [.write (writeUInt64 0), .write (writeUInt64 0),
      .write (writeUInt64 0)] : Emit Error) [0, 0, 0] := ⟨rfl, by decide⟩
  have decodesReplicas : Decodes (σ := σ) readReplicas [0, 0, 0] (some ()) := by
    have zero : Decodes (σ := σ) readUInt64 [0] (some 0) :=
      decodes_readUInt64 (show 0 < 2 ^ 64 by decide)
    exact zero.bind (zero.bind (zero.bind_pure (.pure _)))
  unfold clientInfo
  rw [since_eq latest (by decide), since_eq latest (by decide), since_eq latest (by decide),
    since_eq latest (by decide), since_eq latest (by decide)]
  refine ⟨_, emits_all_iff.mpr ⟨[_, _, _, _, _, _, _, _, _, _, _, _, _, _, _, _, _],
    .cons (emits_write _) <| .cons (emits_writes _) <| .cons (emits_writes _) <|
    .cons (emits_writes _) <| .cons (emits_write _) <| .cons (emits_write _) <|
    .cons (emits_writes _) <| .cons (emits_writes _) <| .cons (emits_writes _) <|
    .cons (emits_write _) <| .cons (emits_write _) <| .cons (emits_write _) <|
    .cons (emits_writes _) <| .cons (emits_write _) <| .cons (emits_write _) <|
    .cons emitsTracing <| .cons replicas .nil, rfl⟩, ?_⟩
  simp only [flatten_cons, flatten_nil, append_nil]
  refine (decodes_readFixedUInt (by decide)).bind ?_
  refine (decodes_readText (by decide)).bind ?_
  refine (decodes_readText (by decide)).bind ?_
  refine (decodes_readText (by decide)).bind ?_
  refine (decodes_readSince (reached (by decide)) (decodes_readFixedUInt (by decide)) 0).bind ?_
  refine (decodes_readFixedUInt (by decide)).bind ?_
  refine (decodes_readText (by decide)).bind ?_
  refine (decodes_readText (by decide)).bind ?_
  refine (decodes_readText (by decide)).bind ?_
  refine (decodes_readUInt64 (by decide)).bind ?_
  refine (decodes_readUInt64 (by decide)).bind ?_
  refine (decodes_readUInt64 (by decide)).bind ?_
  refine (decodes_readSince (reached (by decide)) (decodes_readText (by decide)) []).bind ?_
  refine (decodes_readSince (reached (by decide)) (decodes_readUInt64 (by decide)) 0).bind ?_
  refine (decodes_readSince (reached (by decide)) (decodes_readUInt64 (by decide)) 0).bind ?_
  refine (decodes_readSince (reached (by decide)) decodesTracing none).bind ?_
  exact (decodes_readSince (reached (by decide)) decodesReplicas ()).bind_pure (.pure _)

omit [LawfulSource Error σ] in
/-- Each entry of a list is written as a triple. -/
theorem forall₂_emits_triples {α : Type} {entries : List α} {write : α → Emit Error}
    {triple : α → Triple} (each : ∀ entry ∈ entries, Emits (write entry) (tripleBytes (triple entry))) :
    Forall₂ Emits (entries.map write) ((entries.map triple).map tripleBytes) := by
  rw [map_map, forall₂_map_left_iff, forall₂_map_right_iff, forall₂_same]
  exact each

/-- There are not more triples than bytes. -/
theorem length_le_flatten_tripleBytes (triples : List Triple) :
    triples.length ≤ (triples.map tripleBytes).flatten.length := by
  induction triples with
  | nil => exact Nat.le_refl _
  | cons triple triples ih =>
    have positive : 0 < (tripleBytes triple).length := by
      unfold tripleBytes
      rw [flatten_writeString, length_append, length_append]
      have : 0 < (writeVarint64 triple.1.length).length := Nat.succ_pos _
      omega
    rw [map_cons, flatten_cons, length_cons, length_append]
    omega

/-- The packet of a query without empty names. -/
theorem decodes_queryPacket (latest : LatestRevision revision) (compression : Bool)
    {query : Query υ} (sized : query.Sized) (decodable : query.Decodable) :
    ∃ packet, Emits (queryPacket revision compression query) packet ∧
      query.settings.entries.length ≤ packet.length ∧ query.params.entries.length ≤ packet.length ∧
      ∀ limit, query.settings.entries.length < limit → query.params.entries.length < limit →
        Decodes (σ := σ) (readQueryFields limit revision) packet (some query.decoded) := by
  have reached {first : Nat} (earlier : first ≤ dbmsMinProtocolVersionWithParameters) :
      first ≤ revision := Nat.le_trans earlier latest
  obtain ⟨info, emitsInfo, decodesInfo⟩ := decodes_readClientInfo (σ := σ) latest sized.tracestate
  have settings : Emits (writeSettings revision query.settings)
      (query.decoded.settings.map tripleBytes).flatten := by
    unfold writeSettings
    rw [if_pos (reached (by decide))]
    refine emits_all_iff.mpr ⟨_, forall₂_emits_triples fun setting _ => ?_, rfl⟩
    exact emits_all_iff.mpr ⟨[_, _, _], .cons (emits_writes _) (.cons (emits_write _)
      (.cons (emits_writes _) .nil)), by simp [tripleBytes]⟩
  have params : Emits (.all (query.params.entries.map writeParam ++ [.writes (writeString [])]))
      ((query.decoded.params.map tripleBytes).flatten ++ (writeString []).flatten) := by
    have each : Forall₂ Emits (query.params.entries.map writeParam)
        (query.decoded.params.map tripleBytes) :=
      forall₂_emits_triples fun param mem => emits_writeParam (decodable.quotes param mem)
    refine emits_all_iff.mpr ⟨_, rel_append each (.cons (emits_writes _) .nil), ?_⟩
    rw [flatten_append, flatten_singleton]
  have namedSettings : ∀ triple ∈ query.decoded.settings, triple.1 ≠ [] := by
    intro triple mem
    obtain ⟨setting, isSetting, rfl⟩ := mem_map.mp mem
    exact decodable.settings setting isSetting
  have namedParams : ∀ triple ∈ query.decoded.params, triple.1 ≠ [] := by
    intro triple mem
    obtain ⟨param, isParam, rfl⟩ := mem_map.mp mem
    exact decodable.params param isParam
  have flag : (if compression then 1 else 0) < 2 ^ 64 := by split <;> decide
  unfold queryPacket
  rw [since_eq latest (by decide), since_eq latest (by decide), since_eq latest (by decide)]
  refine ⟨_, emits_all_iff.mpr ⟨[_, _, _, _, _, _, _, _, _, _],
    .cons (emits_write _) <| .cons (emits_writes _) <| .cons emitsInfo <| .cons settings <|
    .cons (emits_writes _) <| .cons (emits_writes _) <| .cons (emits_write _) <|
    .cons (emits_write _) <| .cons (emits_writes _) <| .cons params .nil, rfl⟩, ?_, ?_, ?_⟩
  · have count := length_le_flatten_tripleBytes query.decoded.settings
    have same : query.decoded.settings.length = query.settings.entries.length := length_map ..
    simp only [flatten_cons, length_append]
    omega
  · have count := length_le_flatten_tripleBytes query.decoded.params
    have same : query.decoded.params.length = query.params.entries.length := length_map ..
    simp only [flatten_cons, length_append]
    omega
  · intro limit fewSettings fewParams
    have readSettings : Decodes (σ := σ) (readTriples limit) _ (some query.decoded.settings) :=
      decodes_readTriples namedSettings sized.settings (by
        rw [show query.decoded.settings.length = query.settings.entries.length from
          length_map ..]
        exact fewSettings)
    have readParams : Decodes (σ := σ) (readTriples limit) _ (some query.decoded.params) :=
      decodes_readTriples namedParams sized.params (by
        rw [show query.decoded.params.length = query.params.entries.length from length_map ..]
        exact fewParams)
    simp only [flatten_cons, flatten_nil, append_nil]
    refine (decodes_readUInt64 (by decide)).bind ?_
    dsimp only
    rw [if_pos (by decide)]
    refine (decodes_readText sized.queryId).bind ?_
    refine (decodes_readSince (reached (by decide)) decodesInfo none).bind ?_
    rw [← append_assoc]
    refine readSettings.bind ?_
    refine (decodes_readSince (reached (by decide)) (decodes_readText (by decide)) []).bind ?_
    refine (decodes_readUInt64 (by decide)).bind ?_
    refine (decodes_readUInt64 flag).bind ?_
    refine (decodes_readText sized.text).bind ?_
    exact (decodes_readSince (reached (by decide)) readParams []).bind_pure (.pure _)

end Packet

/-- The settings and the parameters that are read have names. -/
theorem named_readQueryFields {σ : Type} [Source Error σ] {revision : Nat} {d : DecodedQuery}
    {s t : σ} (run : Runs (readQueryFields limit revision) s (some d) t) :
    (∀ triple ∈ d.settings, triple.1 ≠ []) ∧ ∀ triple ∈ d.params, triple.1 ≠ [] := by
  obtain ⟨code, _, _, run⟩ := runs_bind_iff.mp run
  obtain _ | code := code
  · cases run
  dsimp only at run
  split at run
  on_goal 2 => cases run
  obtain ⟨queryId, _, _, run⟩ := runs_bind_iff.mp run
  obtain _ | queryId := queryId
  · cases run
  obtain ⟨context, _, _, run⟩ := runs_bind_iff.mp run
  obtain _ | context := context
  · cases run
  obtain ⟨settings, _, readSettings, run⟩ := runs_bind_iff.mp run
  obtain _ | settings := settings
  · cases run
  obtain ⟨secret, _, _, run⟩ := runs_bind_iff.mp run
  obtain _ | secret := secret
  · cases run
  obtain ⟨stage, _, _, run⟩ := runs_bind_iff.mp run
  obtain _ | stage := stage
  · cases run
  obtain ⟨compression, _, _, run⟩ := runs_bind_iff.mp run
  obtain _ | compression := compression
  · cases run
  obtain ⟨text, _, _, run⟩ := runs_bind_iff.mp run
  obtain _ | text := text
  · cases run
  obtain ⟨params, _, readParams, run⟩ := runs_bind_iff.mp run
  obtain _ | params := params
  · cases run
  cases run
  refine ⟨named_readTriples readSettings, ?_⟩
  unfold readSince at readParams
  split at readParams
  · exact named_readTriples readParams
  · cases readParams
    intro triple mem
    cases mem

section Sending

variable {υ ω ι ο : Type}

/-- Whatever is written of a query has values that can be quoted. -/
theorem quotes_of_emits {revision : Nat} (latest : LatestRevision revision) {compression : Bool}
    {query : Query υ} {packet : Bytes}
    (emits : Emits (queryPacket revision compression query) packet)
    (mem : param ∈ query.params.entries) {value : Bytes} (has : param.2 = some value) :
    3 * value.countP isQuotedChar < 2 ^ 31 := by
  unfold queryPacket at emits
  rw [since_eq latest (by decide), since_eq latest (by decide), since_eq latest (by decide)] at emits
  obtain ⟨_, params⟩ := exists_emits_of_mem (w := .all (query.params.entries.map writeParam ++
    [.writes (writeString [])])) emits (by simp)
  obtain ⟨_, written⟩ := exists_emits_of_mem (w := writeParam param) params
    (mem_append_left _ (mem_map_of_mem mem))
  exact fits_of_emits_writeParam written has

variable [Hashing] [Codec] [LawfulOutput Error ο]

open LawfulOutput

/-- The decoder recovers the query from the bytes that `SendQuery` adds to those written before,
and consumes exactly these, if and only if the query has no empty names and no values that cannot
be quoted. -/
theorem readQueryPacket_sendQuery_iff (unlimited : ∀ n, Fits (ε := Error) ο n)
    {s : Client υ ω ι ο} {bs : Bytes} {query : Query υ} (latest : LatestRevision s.serverInfo.revision)
    (sized : query.Sized) (holds : s.Took Took bs) :
    (∃ t packet, Runs (sendQuery query false) s () t ∧ t.Took Took (bs ++ packet) ∧
      ∀ rest, Runs (readQueryPacket s.serverInfo.revision) ⟨packet ++ rest⟩ (some query.decoded)
        ⟨rest⟩) ↔ query.Decodable := by
  constructor
  · rintro ⟨t, packet, sent, _, reads⟩
    obtain ⟨_, _, ⟨⟩, sent⟩ := runs_bind_iff.mp sent
    obtain ⟨_, _, ⟨⟩, sent⟩ := runs_bind_iff.mp sent
    obtain ⟨_, _, wrote, _⟩ := runs_bind_iff.mp sent
    obtain ⟨_, _, _, emits, _⟩ := toOutput_emit_took (accounts_took unlimited)
      (s := { s with history := s.history ++ [.requested .query] }) holds wrote
    obtain ⟨_, _, ⟨⟩, read⟩ := runs_bind_iff.mp (reads [])
    obtain ⟨namedSettings, namedParams⟩ := named_readQueryFields read
    exact {
      settings := fun setting mem => namedSettings _ (mem_map_of_mem mem)
      params := fun param mem => namedParams _ (mem_map_of_mem mem)
      quotes := fun param mem value has => quotes_of_emits latest emits mem has }
  · intro decodable
    obtain ⟨packet, emits, fewSettings, fewParams, decodes⟩ :=
      decodes_queryPacket (σ := ArrayInput) latest s.compression sized decodable
    obtain ⟨output, open', took⟩ := holds
    obtain ⟨output', wrote, took⟩ := runs_emit unlimited emits took
    have sends : Runs (toOutput (emit (queryPacket s.serverInfo.revision s.compression query)))
        { s with history := s.history ++ [.requested .query] } () _ := runs_toOutput open' wrote
    refine ⟨_, packet, (runs_get s).bind ((runs_modify _ s).bind (sends.bind (runs_pure _ _))),
      ⟨output', rfl, took⟩, fun rest => (runs_get _).bind ?_⟩
    refine ArrayInput.runs_of_decodes (decodes _ ?_ ?_) rest
    · show _ < (packet ++ rest).length + 1
      rw [length_append]
      omega
    · show _ < (packet ++ rest).length + 1
      rw [length_append]
      omega

end Sending

/-- A client with a connection to a server of the latest revision. -/
def latestClient : Client Unit Script ScriptedInput (BufferedOutput Sink) :=
  { (Client.initial sampleOptions ⟨[]⟩ () (sampleEndpoint 1) :
      Client Unit Script ScriptedInput (BufferedOutput Sink)) with
    output := some (.create ⟨[]⟩ 64)
    serverInfo := { ServerInfo.initial with revision := 54459 } }

theorem took_latestClient : latestClient.Took LawfulOutput.Took [] :=
  ⟨_, rfl, trivial, [], rfl, rfl⟩

/-- A query with a setting and two parameters, one of which is NULL. -/
def parameterQuery : Query Unit :=
  { sampleQuery with
    queryId := ascii "id"
    tracingContext := some ⟨Word.ofNat 16 1, Word.ofNat 8 2, ascii "s", Word.ofNat 1 1⟩
    settings := ⟨[(ascii "a", ⟨ascii "1", 1⟩)], by decide⟩
    params := ⟨[(ascii "p", some (ascii "it's")), (ascii "q", none)], by decide⟩ }

theorem readQueryPacket_parameterQuery :
    letI := lengthHashing
    letI : Codec := storingCodec
    ∃ t packet, Runs (sendQuery parameterQuery false) latestClient () t ∧
      t.Took LawfulOutput.Took packet ∧
      ∀ rest, Runs (readQueryPacket 54459) ⟨packet ++ rest⟩ (some parameterQuery.decoded) ⟨rest⟩ := by
  let _ := lengthHashing
  let _ : Codec := storingCodec
  have sized : parameterQuery.Sized := {
    queryId := by decide
    tracestate := by
      intro context has
      cases has
      decide
    settings := by
      intro triple mem
      cases mem_singleton.mp mem
      exact ⟨by decide, by decide, by decide⟩
    text := by decide
    params := by
      intro triple mem
      rcases mem_cons.mp mem with rfl | mem
      · exact ⟨by decide, by decide, by decide⟩
      · cases mem_singleton.mp mem
        exact ⟨by decide, by decide, by decide⟩ }
  have decodable : parameterQuery.Decodable := {
    settings := by decide
    params := by decide
    quotes := by
      intro param mem value has
      rcases mem_cons.mp mem with rfl | mem
      · cases has
        decide
      · cases mem_singleton.mp mem
        cases has }
  have latest : LatestRevision latestClient.serverInfo.revision := Nat.le_refl _
  exact (readQueryPacket_sendQuery_iff (fun _ => trivial) latest sized took_latestClient).mpr
    decodable

/-- A query with a parameter without a name. -/
def namelessQuery : Query Unit :=
  { sampleQuery with params := ⟨[([], some (ascii "1"))], by decide⟩ }

/-- It is sent, but the decoder takes the empty name for the end of the parameters. -/
theorem not_readQueryPacket_namelessQuery :
    letI := lengthHashing
    letI : Codec := storingCodec
    (∃ t, Runs (sendQuery namelessQuery false) latestClient () t) ∧
      ¬ ∃ t packet, Runs (sendQuery namelessQuery false) latestClient () t ∧
        t.Took LawfulOutput.Took packet ∧
        ∀ rest, Runs (readQueryPacket 54459) ⟨packet ++ rest⟩ (some namelessQuery.decoded) ⟨rest⟩ := by
  let _ := lengthHashing
  let _ : Codec := storingCodec
  constructor
  · have returned : returnsFrom (sendQuery namelessQuery false) latestClient = true := by
      decide +kernel
    obtain ⟨_, run⟩ := runs_of_returnsFrom returned
    exact ⟨_, run⟩
  · rintro ⟨t, packet, _, _, reads⟩
    obtain ⟨_, _, ⟨⟩, read⟩ := runs_bind_iff.mp (reads [])
    obtain ⟨_, named⟩ := named_readQueryFields read
    exact named _ (mem_singleton.mpr rfl) rfl

end ClickHouse
