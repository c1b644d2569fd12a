import ClickHouse.Columns.Refinement

/-!
# The lengths of LowCardinality columns

What holds of a LowCardinality column whichever items share a hash key: every
index is a position of the dictionary, so every row can be read, and
`AppendUnsafe` adds one row.  That the row has the value which was appended is
what `Refinement` shows, for items whose keys differ.
-/

namespace ClickHouse

open Kit List Dictionary

/-! ## Rows that a dictionary takes -/

variable {n : Nat} {dictionary : Dictionary}

theorem Leaf.exists_accepted_item {leaf : Leaf} (inside : n < leaf.size) :
    ∃ item, leaf.item? n = some item ∧ item.type = leaf.type.code ∧ leaf.type.Accepts item.data := by
  obtain ⟨bytes, row⟩ := Leaf.exists_bytes inside
  refine ⟨⟨leaf.type.code, bytes⟩, ?_, rfl, Leaf.accepts_bytes row⟩
  rw [Leaf.item?, row]
  rfl

theorem Dictionary.Sound.exists_item (sound : dictionary.Sound) (inside : n < dictionary.size) :
    ∃ item, dictionary.item? n = some item ∧ dictionary.Takes item := by
  have within : n < dictionary.data.size := sound.size_eq ▸ inside
  obtain ⟨item, read, accepted⟩ := Leaf.exists_accepted_item within
  rw [item?]
  rw [size] at inside
  cases nullable : dictionary.nulls with
  | none => exact ⟨item, read, .inr accepted⟩
  | some nulls =>
    rw [nullable] at inside
    dsimp only at inside ⊢
    rw [getElem?_eq_getElem inside]
    dsimp only
    split
    · exact ⟨item, read, .inr accepted⟩
    · exact ⟨.null, rfl, .inl ⟨rfl, by rw [nullable]; rfl⟩⟩

/-- What a dictionary takes depends on its type only. -/
theorem Dictionary.Takes.of_type {d e : Dictionary} {item : ItemView} (takes : d.Takes item)
    (same : e.type = d.type) : e.Takes item := by
  obtain ⟨data, nulls⟩ := type_eq same
  rw [Takes, data, nulls]
  exact takes

namespace LowCardinality

/-- Every index, and every position of the lookup map, is a position of the dictionary. -/
structure Intact (column : LowCardinality) : Prop where
  dictionary : column.dictionary.Sound
  positions : ∀ position ∈ column.index.column, position.toNat < column.dictionary.size
  table : ∀ entry ∈ column.uniqueItems, entry.2 < column.dictionary.size

/-- The column was `column` before it got `rows` rows. -/
structure Longer (column : LowCardinality) (rows : Nat) (column' : LowCardinality) : Prop where
  intact : column'.Intact
  sameType : column'.dictionary.type = column.dictionary.type
  length : column'.index.column.length = column.index.column.length + rows

theorem Longer.trans {column column' column'' : LowCardinality} {m n : Nat}
    (first : column.Longer m column') (second : column'.Longer n column'') :
    column.Longer (m + n) column'' where
  intact := second.intact
  sameType := second.sameType.trans first.sameType
  length := by rw [second.length, first.length, Nat.add_assoc]

variable {column : LowCardinality}

/-- Every row of an intact column has an item, and a dictionary of the same type takes it. -/
theorem Intact.exists_item (intact : column.Intact) (inside : n < column.index.column.length) :
    ∃ item, column.item? n = some item ∧ column.dictionary.Takes item := by
  have within := intact.positions _ (getElem_mem inside)
  rw [item?, dictionaryIndex?, getElem?_eq_getElem inside]
  dsimp only [Option.map_some]
  split
  · rename_i reserved
    exact ⟨.null, rfl, .inl ⟨rfl, reserved.1⟩⟩
  · exact intact.dictionary.exists_item within

theorem Intact.appendIndex {column : LowCardinality} (intact : column.Intact) {position : Nat}
    (inside : position < column.dictionary.size) :
    column.Longer 1 (column.appendIndex position) where
  intact := {
    dictionary := intact.dictionary
    positions := by
      intro word mem
      rcases mem_append.mp mem with old | new
      · exact intact.positions word old
      · rw [mem_singleton.mp new]
        exact Nat.lt_of_le_of_lt (Word.toNat_ofNat_le ..) inside
    table := intact.table }
  sameType := rfl
  length := by simp [LowCardinality.appendIndex]

/-- A new entry of the lookup map with the row it stands for. -/
theorem Intact.store (intact : column.Intact) {value : Option Bytes}
    (stored : column.dictionary.Extends value dictionary) (key : HashKey) {position : Nat}
    (inside : position ≤ column.dictionary.size) :
    column.Longer 0 { column with
      dictionary := dictionary, uniqueItems := column.uniqueItems.emplace key position } where
  intact := {
    dictionary := stored.sound
    positions := by
      intro word mem
      have old := intact.positions word mem
      have size := stored.size
      dsimp only
      omega
    table := by
      intro entry mem
      have size := stored.size
      have old : ∀ entry ∈ column.uniqueItems, entry.2 < dictionary.size := by
        intro entry mem
        have below := intact.table entry mem
        omega
      rw [UniqueItems.emplace] at mem
      split at mem
      · exact old entry mem
      · rcases mem_append.mp mem with mem | mem
        · exact old entry mem
        · rw [mem_singleton.mp mem]
          dsimp only
          omega }
  sameType := stored.type
  length := rfl

variable [Hashing]

/-- `AppendUnsafe` of an item the dictionary takes adds one row. -/
theorem Intact.appendUnsafe (intact : column.Intact) {item : ItemView}
    (takes : column.dictionary.Takes item) :
    ∃ column', Runs (appendUnsafe item) column () column' ∧ column.Longer 1 column' := by
  cases found : column.uniqueItems.lookup item.hashKey with
  | some position =>
    obtain ⟨before, after, table, _⟩ := lookup_eq_some_iff.mp found
    have listed : (item.hashKey, position) ∈ column.uniqueItems := by simp [table]
    exact ⟨_, runs_appendUnsafe_known found, intact.appendIndex (intact.table _ listed)⟩
  | none =>
    obtain ⟨dictionary, appended, extends'⟩ := append_extends intact.dictionary takes
    have stored := intact.store extends' item.hashKey (Nat.le_refl _)
    have inside : column.dictionary.size < dictionary.size := by
      rw [extends'.size]
      exact Nat.lt_succ_self _
    exact ⟨_, runs_appendUnsafe_new found appended, stored.trans (stored.intact.appendIndex inside)⟩

theorem Intact.appendRows {getItem : Nat → Except Error ItemView} {rows : List Nat}
    (intact : column.Intact)
    (gives : ∀ n ∈ rows, ∃ item, getItem n = .ok item ∧ column.dictionary.Takes item) :
    ∃ column', Runs (appendRows getItem rows) column () column' ∧
      column.Longer rows.length column' := by
  induction rows generalizing column with
  | nil => exact ⟨column, runs_pure _ _, intact, rfl, rfl⟩
  | cons n rows ih =>
    obtain ⟨item, read, takes⟩ := gives n (mem_cons_self ..)
    obtain ⟨column', run, longer⟩ := intact.appendUnsafe takes
    have gives' : ∀ n ∈ rows, ∃ item, getItem n = .ok item ∧ column'.dictionary.Takes item := by
      intro n mem
      obtain ⟨item, read, takes⟩ := gives n (mem_cons_of_mem _ mem)
      exact ⟨item, read, takes.of_type longer.sameType⟩
    obtain ⟨column'', run', longer'⟩ := ih longer.intact gives'
    refine ⟨column'', (runs_ofExcept read _).bind (run.bind run'), ?_⟩
    have both := longer.trans longer'
    rwa [Nat.add_comm, ← length_cons] at both

/-! ## The reserved items -/

theorem Intact.appendNullItem (intact : column.Intact) (nullable : column.dictionary.nulls.isSome) :
    ∃ column', Runs appendNullItem column () column' ∧ column.Longer 0 column' := by
  obtain ⟨dictionary, appended, extends'⟩ :=
    append_extends intact.dictionary (.inl ⟨rfl, nullable⟩)
  obtain ⟨nulls, some⟩ := Option.isSome_iff_exists.mp nullable
  refine ⟨_, ?_, intact.store extends' ItemView.null.hashKey (Nat.zero_le _)⟩
  refine (runs_get column).bind ?_
  rw [some]
  exact (runs_ofExcept rfl column).bind ((runs_ofExcept appended column).bind (runs_set ..))

theorem Intact.appendDefaultItem (intact : column.Intact) :
    ∃ column', Runs appendDefaultItem column () column' ∧ column.Longer 0 column' := by
  have supported := intact.dictionary.supported
  obtain ⟨dictionary, appended, extends'⟩ := append_extends intact.dictionary
    (.inr ⟨rfl, LeafType.accepts_zeroItem supported⟩)
  have zero := LeafType.zeroItemForDictionary_eq supported
  refine ⟨_, ?_, intact.store extends'
    column.dictionary.data.type.zeroItem.hashKey (Nat.le_refl _)⟩
  refine (runs_get column).bind ((runs_ofExcept zero column).bind ((runs_set ..).bind ?_))
  exact (runs_ofExcept appended _).bind (runs_set ..)

omit [Hashing] in
/-- A column without rows and with an empty dictionary. -/
theorem intact_empty (sound : dictionary.Sound) (type : IndexType) :
    Intact ⟨dictionary.cloneEmpty, ⟨type, []⟩, []⟩ :=
  ⟨sound.cloneEmpty, nofun, nofun⟩

/-- `Clear` leaves no rows. -/
theorem Intact.clear (intact : column.Intact) :
    ∃ column', Runs clear column () column' ∧ column'.Intact ∧
      column'.dictionary.type = column.dictionary.type ∧ column'.index.column.length = 0 := by
  have empty := intact_empty intact.dictionary column.index.type
  have type := column.dictionary.type_cloneEmpty
  suffices reserves : ∃ column', Runs (do
      if column.dictionary.cloneEmpty.nulls.isSome then LowCardinality.appendNullItem
      LowCardinality.appendDefaultItem) ⟨column.dictionary.cloneEmpty, ⟨column.index.type, []⟩, []⟩ () column' ∧
      Longer ⟨column.dictionary.cloneEmpty, ⟨column.index.type, []⟩, []⟩ 0 column' by
    obtain ⟨column', run, longer⟩ := reserves
    exact ⟨column', (runs_modify _ _).bind ((runs_get _).bind run), longer.intact,
      longer.sameType.trans type, longer.length⟩
  by_cases nullable : column.dictionary.cloneEmpty.nulls.isSome
  · obtain ⟨middle, run, longer⟩ := empty.appendNullItem nullable
    obtain ⟨column', run', longer'⟩ := longer.intact.appendDefaultItem
    rw [if_pos nullable]
    exact ⟨column', run.bind run', longer.trans longer'⟩
  · rw [if_neg nullable]
    obtain ⟨column', run, longer⟩ := empty.appendDefaultItem
    exact ⟨column', (runs_pure _ _).bind run, longer⟩

/-- The constructor for a `ColumnRef`, given an empty dictionary. -/
theorem ofColumnRef_empty (sound : dictionary.Sound) :
    ∃ column, ofColumnRef dictionary.cloneEmpty = .ok column ∧ column.Intact ∧
      column.dictionary.type = dictionary.type ∧ column.index.column.length = 0 := by
  have empty := intact_empty sound.cloneEmpty .uint32
  obtain ⟨column, run, longer⟩ := empty.appendDefaultItem
  have rows : range dictionary.cloneEmpty.size = [] := by
    rw [size_cloneEmpty]
    rfl
  have body : Runs (setup dictionary.cloneEmpty) (blank dictionary.cloneEmpty) () column := by
    refine run.bind ?_
    rw [rows]
    exact runs_pure ..
  refine ⟨column, ?_, longer.intact, ?_, longer.length⟩
  · unfold Runs at body
    rw [ofColumnRef, construct, body]
  · exact longer.sameType.trans
      ((type_cloneEmpty _).trans (type_cloneEmpty _))

/-- `Slice` gives as many rows as it is asked for, if there are as many. -/
theorem Intact.slice (intact : column.Intact) {start len : Nat}
    (inside : start + len ≤ column.index.column.length) :
    ∃ column', column.slice start len = .ok column' ∧ column'.Intact ∧
      column'.dictionary.type = column.dictionary.type ∧ column'.index.column.length = len := by
  obtain ⟨result, made, resultIntact, type, none⟩ := ofColumnRef_empty intact.dictionary
  have gives : ∀ n ∈ range' start len, ∃ item,
      itemOrUndefined (column.item? n) = .ok item ∧ result.dictionary.Takes item := by
    intro n mem
    have bounds := mem_range'_1.mp mem
    have below : n < column.index.column.length := by omega
    obtain ⟨item, read, takes⟩ := intact.exists_item below
    exact ⟨item, by rw [read]; rfl, takes.of_type type⟩
  obtain ⟨column', run, longer⟩ := resultIntact.appendRows gives
  refine ⟨column', ?_, longer.intact, longer.sameType.trans type, ?_⟩
  · unfold Runs at run
    have start' : min start column.index.column.length = start := by omega
    have len' : min len (column.index.column.length - start) = len := by omega
    simp only [LowCardinality.slice, start', len', made]
    show construct _ result = _
    rw [construct, run]
  · rw [longer.length, none, length_range', Nat.zero_add]

/-- `Append` of a column whose items the dictionary takes adds a row for each of its rows. -/
theorem Intact.appendColumn (intact : column.Intact) {source : Column}
    (same : source.type = column.dictionary.type ∨
      ∃ other, source = .lowCardinality other ∧ other.dictionary.type = column.dictionary.type)
    (gives : ∀ n < source.size, ∃ item, source.getItem n = .ok item ∧ column.dictionary.Takes item) :
    ∃ column', Runs (appendColumn source) column () column' ∧ column.Longer source.size column' := by
  have each : ∀ n ∈ range source.size, ∃ item, source.getItem n = .ok item ∧
      column.dictionary.Takes item := fun n mem => gives n (mem_range.mp mem)
  obtain ⟨column', run, longer⟩ := intact.appendRows each
  rw [length_range] at longer
  refine ⟨column', (runs_get column).bind ?_, longer⟩
  rcases same with own | ⟨other, rfl, own⟩
  · dsimp only
    rw [own, Ty.isEqual_self, Bool.or_true, if_pos rfl]
    exact run
  · dsimp only
    rw [own, Ty.isEqual_self, Bool.true_or, if_pos rfl]
    exact run

end LowCardinality

end ClickHouse
