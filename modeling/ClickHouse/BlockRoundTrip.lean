import ClickHouse.Block
import ClickHouse.Columns.RoundTrip
import ClickHouse.FactoryRoundTrip

/-!
# Reading back a written block

`ReadBlock` and `WriteBlock` agree field by field at every revision.  What a
column contributes is assumed of it: its type name gives back an empty column
of its type, and its saved form loads into that column.
-/

namespace ClickHouse

open Kit List Block

/-! ## Building blocks -/

variable {block : Block} {column : Column} {name : Bytes}

theorem Block.appendColumn_of_first (defined : column.sizeDefined) (first : block.columns = []) :
    block.appendColumn name column =
      .ok { block with columns := [(name, column)], rows := column.size } := by
  simp [appendColumn, checkSize, defined, first, bind, Except.bind]

theorem Block.appendColumn_of_size (defined : column.sizeDefined)
    (size : column.size = block.rows) :
    block.appendColumn name column =
      .ok { block with columns := block.columns ++ [(name, column)] } := by
  rcases first : block.columns with _ | ⟨head, tail⟩
  · simp [appendColumn, checkSize, defined, first, size, bind, Except.bind]
  · simp [appendColumn, checkSize, defined, first, size, bind, Except.bind]

/-- What `AppendColumn` adds to a block. -/
theorem Block.appendColumn_cases {next : Block} (run : block.appendColumn name column = .ok next) :
    column.sizeDefined ∧ next.columns = block.columns ++ [(name, column)] ∧
      next.rows = column.size ∧ (block.columns = [] ∨ block.rows = column.size) := by
  cases defined : column.sizeDefined with
  | false => simp [appendColumn, checkSize, defined, bind, Except.bind] at run
  | true =>
    rcases first : block.columns with _ | ⟨head, tail⟩
    · rw [appendColumn_of_first defined first] at run
      cases run
      exact ⟨rfl, rfl, rfl, .inl rfl⟩
    · by_cases size : column.size = block.rows
      · rw [appendColumn_of_size defined size] at run
        cases run
        exact ⟨rfl, by rw [first], size.symm, .inr size.symm⟩
      · simp [appendColumn, checkSize, defined, first, size, bind, Except.bind] at run

/-- All columns of a built block have its number of rows; a block of no columns has no rows. -/
theorem Block.Built.sizes (built : block.Built) :
    (∀ column ∈ block.columns, column.2.size = block.rows) ∧
      (block.columns = [] → block.rows = 0) := by
  induction built with
  | empty info =>
    refine ⟨?_, fun _ => rfl⟩
    intro column mem
    cases mem
  | append built run ih =>
    obtain ⟨_, columns, rows, same⟩ := appendColumn_cases run
    rw [columns, rows]
    refine ⟨?_, fun none => absurd none (by simp)⟩
    intro column mem
    rcases mem_append.mp mem with mem | mem
    · rcases same with none | same
      · rw [none] at mem
        cases mem
      · rw [← same]
        exact ih.1 column mem
    · rw [mem_singleton.mp mem]

/-! ## Columns -/

/-- The name of the column's type gives back an empty column of the type, into which the saved
form of the column loads. -/
def Column.RoundTrips (σ : Type) [LawfulSource Error σ] [Hashing]
    (settings : CreateColumnByTypeSettings) (column : Column) : Prop :=
  ∃ empty, createColumnByType settings column.type.getName = .ok (some empty) ∧
    empty.type = column.type ∧ empty.size = 0 ∧ empty.sizeDefined ∧
    (0 < column.size → ∃ bytes loaded, Emits column.save bytes ∧
      Decodes (σ := σ) (empty.load column.size) bytes (true, loaded) ∧
      SameRows column empty loaded)

/-- The two columns have the same name, the same type and the same rows. -/
structure SameColumn (column loaded : Bytes × Column) : Prop where
  name : loaded.1 = column.1
  type : loaded.2.type = column.2.type
  size : loaded.2.size = column.2.size
  row : ∀ n < column.2.size, loaded.2.row? n = column.2.row? n

/-- The two blocks have the same columns and, from the revision that sends it on, the same
info. -/
structure SameBlock (revision : Nat) (block loaded : Block) : Prop where
  info : revision ≥ dbmsMinRevisionWithBlockInfo → loaded.info = block.info
  rows : loaded.rows = block.rows
  columns : Forall₂ SameColumn block.columns loaded.columns

variable {σ : Type} [LawfulSource Error σ]

theorem decodes_readWord {w : Nat} (word : Word w) :
    Decodes (σ := σ) (readWord w) word.1 (some word) := by
  obtain ⟨bytes, length⟩ := word
  subst length
  refine (decodes_readAll bytes).bind_pure ?_
  rw [dif_pos rfl]
  exact .pure _

theorem decodes_readBlockInfo (revision : Nat) (info : BlockInfo) :
    ∃ bytes, Emits (writeBlockInfo revision info) bytes ∧
      Decodes (σ := σ) (readBlockInfo revision) bytes
        (some (if revision ≥ dbmsMinRevisionWithBlockInfo then info else .initial)) := by
  unfold writeBlockInfo readBlockInfo
  split
  · refine ⟨_, (emits_write _).andThen ((emits_write _).andThen ((emits_write _).andThen
      ((emits_write _).andThen (emits_write _)))), ?_⟩
    refine (decodes_readUInt64 (by decide)).bind ?_
    refine (decodes_readWord info.isOverflows).bind ?_
    refine (decodes_readUInt64 (by decide)).bind ?_
    refine (decodes_readWord info.bucketNum).bind ?_
    exact (decodes_readUInt64 (by decide)).bind_pure (.pure _)
  · exact ⟨[], emits_nothing, .pure _⟩

theorem decodes_readCustomFormat (revision : Nat) :
    ∃ bytes, Emits (writeCustomFormat revision) bytes ∧
      Decodes (σ := σ) (readCustomFormat revision) bytes true := by
  unfold writeCustomFormat readCustomFormat
  split
  · exact ⟨_, emits_write _, (decodes_readFixedUInt (by decide)).bind_pure (.pure _)⟩
  · exact ⟨[], emits_nothing, .pure _⟩

variable [Hashing] {settings : CreateColumnByTypeSettings}

/-- The data of a column: nothing if the block has no rows. -/
theorem Column.RoundTrips.decodes_loadRows (roundTrips : column.RoundTrips σ settings)
    (name : Bytes) :
    ∃ empty, createColumnByType settings column.type.getName = .ok (some empty) ∧
      ∃ bytes, Emits (if column.size > 0 then column.save else .nothing) bytes ∧
      ∃ loaded, Decodes (σ := σ) (loadRows name column.type.getName column.size empty) bytes loaded ∧
        loaded.sizeDefined ∧ SameColumn (name, column) (name, loaded) := by
  obtain ⟨empty, created, type, size, defined, loads⟩ := roundTrips
  refine ⟨empty, created, ?_⟩
  unfold loadRows
  rcases Nat.eq_zero_or_pos column.size with none | some
  · rw [if_neg (by omega), if_pos none]
    exact ⟨[], emits_nothing, empty, .pure _, defined, rfl, type, size.trans none.symm,
      fun n below => absurd (none ▸ below : n < 0) (Nat.not_lt_zero n)⟩
  · obtain ⟨bytes, loaded, saved, decodes, same⟩ := loads some
    rw [if_pos some, if_neg (by omega)]
    exact ⟨bytes, saved, loaded, decodes.bind_pure (.pure _), same.sizeDefined.trans defined, rfl,
      same.type.trans type, same.size, same.row⟩

theorem decodes_readColumn (revision : Nat) (block : Block) {column : Bytes × Column}
    (shortName : column.1.length ≤ maxStringLength)
    (shortType : column.2.type.getName.length ≤ maxStringLength)
    (roundTrips : column.2.RoundTrips σ settings)
    (rows : block.columns = [] ∨ block.rows = column.2.size) :
    ∃ bytes, Emits (writeColumn revision column.2.size column) bytes ∧
      ∃ loaded, SameColumn column loaded ∧
        Decodes (σ := σ) (readColumn revision settings column.2.size block) bytes
          (true, { block with columns := block.columns ++ [loaded], rows := column.2.size }) := by
  obtain ⟨name, column⟩ := column
  obtain ⟨empty, created, bytes, saved, loaded, decodes, defined, same⟩ :=
    roundTrips.decodes_loadRows name
  obtain ⟨format, savedFormat, decodesFormat⟩ := decodes_readCustomFormat (σ := σ) revision
  have appended : block.appendColumn name loaded =
      .ok { block with columns := block.columns ++ [(name, loaded)], rows := column.size } := by
    rcases rows with first | rows
    · rw [appendColumn_of_first defined first, first, same.size]
      rfl
    · rw [appendColumn_of_size defined (same.size.trans rows.symm), ← rows]
  refine ⟨_, (emits_writes _).andThen ((emits_writes _).andThen (savedFormat.andThen saved)),
    (name, loaded), same, ?_⟩
  refine (decodes_readString shortName).bind ?_
  refine (decodes_readString shortType).bind ?_
  refine decodesFormat.bind ?_
  rw [created]
  refine decodes.bind_pure ?_
  rw [appended]
  exact .pure _

/-- The loop over the columns, from any block read so far. -/
theorem decodes_readColumns (revision rows : Nat) (columns : List (Bytes × Column))
    (shortNames : ∀ column ∈ columns, column.1.length ≤ maxStringLength)
    (shortTypes : ∀ column ∈ columns, column.2.type.getName.length ≤ maxStringLength)
    (roundTrip : ∀ column ∈ columns, column.2.RoundTrips σ settings)
    (sizes : ∀ column ∈ columns, column.2.size = rows) (block : Block)
    (sofar : block.columns = [] ∨ block.rows = rows) :
    ∃ bytes, Emits (writeColumns revision rows columns) bytes ∧
      ∃ loaded, Forall₂ SameColumn columns loaded ∧
        Decodes (σ := σ) (readColumns revision settings rows columns.length block) bytes
          (true, { block with
            columns := block.columns ++ loaded
            rows := if columns = [] then block.rows else rows }) := by
  induction columns generalizing block with
  | nil =>
    refine ⟨[], emits_nothing, [], .nil, ?_⟩
    rw [if_pos rfl, append_nil]
    exact .pure _
  | cons column columns ih =>
    have size := sizes column (mem_cons_self ..)
    obtain ⟨bytes, saved, loaded, same, decodes⟩ := decodes_readColumn (σ := σ) revision block
      (shortNames column (mem_cons_self ..)) (shortTypes column (mem_cons_self ..))
      (roundTrip column (mem_cons_self ..)) (by rw [size]; exact sofar)
    rw [size] at saved decodes
    obtain ⟨bytes', saved', others, same', decodes'⟩ := ih
      (fun c mem => shortNames c (mem_cons_of_mem _ mem))
      (fun c mem => shortTypes c (mem_cons_of_mem _ mem))
      (fun c mem => roundTrip c (mem_cons_of_mem _ mem))
      (fun c mem => sizes c (mem_cons_of_mem _ mem))
      { block with columns := block.columns ++ [loaded], rows := rows } (.inr rfl)
    refine ⟨bytes ++ bytes', saved.andThen saved', loaded :: others, .cons same same', ?_⟩
    refine decodes.bind ?_
    rw [if_neg (cons_ne_nil _ _)]
    simp only [ite_self, append_assoc, singleton_append] at decodes'
    exact decodes'

/-- Over every source of bytes. -/
theorem decodes_readBlock (revision : Nat) (built : block.Built)
    (columnCount : block.columns.length < 2 ^ 64) (rowCount : block.rows < 2 ^ 64)
    (shortNames : ∀ column ∈ block.columns, column.1.length ≤ maxStringLength)
    (shortTypes : ∀ column ∈ block.columns, column.2.type.getName.length ≤ maxStringLength)
    (roundTrip : ∀ column ∈ block.columns, column.2.RoundTrips σ settings) :
    ∃ bytes, Emits (writeBlock revision block) bytes ∧ ∃ loaded,
      Decodes (σ := σ) (readBlock revision settings) bytes (true, loaded) ∧
        SameBlock revision block loaded := by
  obtain ⟨sizes, noRows⟩ := built.sizes
  obtain ⟨info, savedInfo, decodesInfo⟩ := decodes_readBlockInfo (σ := σ) revision block.info
  obtain ⟨bytes, saved, loaded, same, decodes⟩ := decodes_readColumns (σ := σ) revision block.rows
    block.columns shortNames shortTypes roundTrip sizes
    ⟨if revision ≥ dbmsMinRevisionWithBlockInfo then block.info else .initial, [], 0⟩ (.inl rfl)
  refine ⟨_, savedInfo.andThen ((emits_write _).andThen ((emits_write _).andThen saved)),
    ⟨if revision ≥ dbmsMinRevisionWithBlockInfo then block.info else .initial, loaded,
      if block.columns = [] then 0 else block.rows⟩, ?_, ?_, ?_, same⟩
  · refine decodesInfo.bind ?_
    refine (decodes_readUInt64 columnCount).bind ?_
    refine (decodes_readUInt64 rowCount).bind ?_
    exact decodes
  · intro sent
    exact if_pos sent
  · by_cases none : block.columns = []
    · exact (if_pos none).trans (noRows none).symm
    · exact if_neg none

/-- A consistent column of a type whose name is read back. -/
theorem Column.roundTrips_of_proper (proper : column.type.Proper) (typed : column.WellTyped)
    (consistent : column.Consistent) (savable : column.Savable) : column.RoundTrips σ ⟨false⟩ := by
  obtain ⟨empty, created, fresh⟩ := createColumnByType_fresh proper
  refine ⟨empty, created, fresh.hasType, fresh.size, fresh.sizeDefined, ?_⟩
  intro positive
  obtain ⟨bytes, saved, loaded, decodes, same⟩ := Column.decodes_load (σ := σ) typed
    fresh.wellTyped consistent savable fresh.isEmpty (congrArg Ty.layout fresh.hasType) positive
  exact ⟨bytes, loaded, saved, decodes, same⟩

/-- At every revision, the bytes of a written block followed by any others are read back to a
block with the same columns, and exactly the block is consumed. -/
theorem readBlock_writeBlock (revision : Nat) {block : Block} (built : block.Built)
    (columnCount : block.columns.length < 2 ^ 64) (rowCount : block.rows < 2 ^ 64)
    (shortNames : ∀ column ∈ block.columns, column.1.length ≤ maxStringLength)
    (shortTypes : ∀ column ∈ block.columns, column.2.type.getName.length ≤ maxStringLength)
    (roundTrip : ∀ column ∈ block.columns, column.2.RoundTrips ArrayInput settings)
    (rest : Bytes) :
    (writeBlock revision block).error = none ∧ ∃ loaded,
      Runs (readBlock revision settings)
        (⟨(writeBlock revision block).written.flatten ++ rest⟩ : ArrayInput) (true, loaded) ⟨rest⟩ ∧
      SameBlock revision block loaded := by
  obtain ⟨bytes, ⟨returns, rfl⟩, loaded, decodes, same⟩ := decodes_readBlock revision built
    columnCount rowCount shortNames shortTypes roundTrip
  exact ⟨returns, loaded, ArrayInput.runs_of_decodes decodes rest, same⟩

/-- The columns `n UInt8` and `s Array(String)`, with the rows `(1, ['a'])` and `(2, [])`. -/
def sampleBlock : Block where
  info := ⟨Word.ofNat 1 1, Word.ofNat 4 7⟩
  columns :=
    [(ascii "n", .leaf (.fixed .uint8 [Word.ofNat 1 1, Word.ofNat 1 2])),
      (ascii "s", .array (.leaf (.string [ascii "a"])) [Word.ofNat 8 1, Word.ofNat 8 1])]
  rows := 2

omit [Hashing] in
theorem readBlock_writeBlock_sampleBlock :
    letI := lengthHashing
    ∃ loaded, Runs (readBlock 54459 ⟨false⟩)
        (⟨(writeBlock 54459 sampleBlock).written.flatten ++ [7]⟩ : ArrayInput) (true, loaded) ⟨[7]⟩ ∧
      SameBlock 54459 sampleBlock loaded := by
  let _ := lengthHashing
  have first : Built { sampleBlock with columns := sampleBlock.columns.take 1 } :=
    .append (.empty sampleBlock.info) (appendColumn_of_first rfl rfl)
  have built : sampleBlock.Built := .append first (appendColumn_of_size rfl rfl)
  have numbers : (Column.leaf (.fixed .uint8 [Word.ofNat 1 1, Word.ofNat 1 2])).RoundTrips
      ArrayInput ⟨false⟩ :=
    Column.roundTrips_of_proper trivial trivial trivial (show 2 * 1 < 2 ^ 64 by decide)
  have offsets : ConsistentOffsets [Word.ofNat 8 1, Word.ofNat 8 1] 1 := ⟨by decide, by decide⟩
  have items : (Leaf.string [ascii "a"]).Savable := by
    show ∀ item ∈ [ascii "a"], item.length < 2 ^ 64
    decide
  have strings : (Column.array (.leaf (.string [ascii "a"]))
      [Word.ofNat 8 1, Word.ofNat 8 1]).RoundTrips ArrayInput ⟨false⟩ :=
    Column.roundTrips_of_proper trivial trivial ⟨offsets, trivial⟩ items
  have roundTrip : ∀ column ∈ sampleBlock.columns, column.2.RoundTrips ArrayInput ⟨false⟩ := by
    intro column mem
    rcases mem_cons.mp mem with rfl | mem
    · exact numbers
    · rw [mem_singleton.mp mem]
      exact strings
  obtain ⟨_, loaded, run, same⟩ := readBlock_writeBlock 54459 built (by decide) (by decide)
    (by decide) (by decide) roundTrip [7]
  exact ⟨loaded, run, same⟩

end ClickHouse
