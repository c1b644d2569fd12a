import ClickHouse.Columns.Consistency
import ClickHouse.Columns.Serialization

/-!
# Loading what was saved

A column saved and loaded into an empty column of the same type has the same
rows, and the loader consumes exactly the saved bytes.  The prefix pass depends
on the type alone; the body pass is an induction over the column in which every
component column is loaded with the number of rows it was saved with.
-/

namespace ClickHouse

open Kit List Column LowCardinality Dictionary

variable {σ : Type} [LawfulSource Error σ]

/-! ## Vectors, strings and leaves -/

theorem decodes_loadVector {w : Nat} (data old : ColumnVector w) :
    Decodes (σ := σ) (old.loadBody data.length) (memory data) (true, data) := by
  have read := decodes_readAll (σ := σ) (memory data)
  rw [length_memory] at read
  refine read.bind_pure ?_
  rw [toWords_memory_append, length_memory, beq_self_eq_true]
  exact .pure _

theorem decodes_loadStrings (items : List Bytes) (fits : ∀ item ∈ items, item.length < 2 ^ 64) :
    Decodes (σ := σ) (loadStrings items.length) (items.flatMap writeString).flatten
      (some items) := by
  induction items with
  | nil => exact .pure _
  | cons item items ih =>
    have first : item.length < 2 ^ 64 := fits item (mem_cons_self ..)
    have others := ih fun other mem => fits other (mem_cons_of_mem _ mem)
    rw [flatMap_cons, flatten_append, flatten_writeString, append_assoc]
    refine (decodes_readUInt64 first).bind ?_
    refine (decodes_readFixed rfl).bind ?_
    refine others.bind_pure ?_
    exact .pure _

theorem decodes_loadStringBody (items old : List Bytes)
    (fits : ∀ item ∈ items, item.length < 2 ^ 64) :
    Decodes (σ := σ) (ColumnString.loadBody old items.length) (items.flatMap writeString).flatten
      (true, items) :=
  (decodes_loadStrings items fits).bind_pure (.pure _)

theorem FixedStrings.resized_eq {column old : FixedStrings}
    (same : old.stringSize = column.stringSize) :
    old.resized column.data.length column.data = column := by
  rcases column with ⟨size, data⟩
  rcases old with ⟨oldSize, oldData⟩
  dsimp only at same
  subst same
  unfold FixedStrings.resized
  congr 1
  rw [append_assoc, take_append_of_le_length (Nat.le_refl _), take_length]

/-- A number of rows that occupy less than `2 ^ 64` bytes is loaded as it is. -/
theorem FixedType.loadedRows_eq {type : FixedType} {rows : Nat} (fits : rows * type.width < 2 ^ 64) :
    type.loadedRows rows = rows := by
  cases type with
  | uuid =>
    have fits : rows * 16 < 2 ^ 64 := fits
    show rows * 2 % 2 ^ 64 / 2 = rows
    omega
  | ipv6 =>
    have fits : rows * 16 < 2 ^ 64 := fits
    show 16 * rows % 2 ^ 64 / 16 = rows
    omega
  | _ => rfl

/-- A leaf is read back as it was, whatever the loading column held. -/
theorem Leaf.decodes_loadBody {column old : Leaf} (savable : column.Savable)
    (same : old.type = column.type) :
    ∃ bytes, Emits column.saveBody bytes ∧
      Decodes (σ := σ) (old.loadBody column.size) bytes (true, column) := by
  cases column with
  | fixed type data =>
    cases old <;> simp only [Leaf.type, reduceCtorEq, LeafType.fixed.injEq] at same
    subst same
    refine ⟨memory data, emits_write _, ?_⟩
    unfold Leaf.loadBody Leaf.size
    dsimp only
    rw [FixedType.loadedRows_eq savable]
    exact (decodes_loadVector data _).bind_pure (.pure _)
  | fixedString column =>
    cases old <;> simp only [Leaf.type, reduceCtorEq, LeafType.fixedString.injEq] at same
    rcases savable with ⟨_, aligned, fits⟩
    have whole (old : FixedStrings) (same : old.stringSize = column.stringSize) :
        old.loadSize (column.data.length / column.stringSize) = column.data.length := by
      rw [FixedStrings.loadSize, same, Nat.mul_div_cancel' aligned, Nat.mod_eq_of_lt fits]
    refine ⟨column.data, emits_write _, ?_⟩
    unfold Leaf.loadBody Leaf.size
    dsimp only
    rw [whole _ same]
    refine (decodes_readAll column.data).bind_pure ?_
    rw [FixedStrings.resized_eq same, beq_self_eq_true]
    exact .pure _
  | string items =>
    cases old <;> simp only [Leaf.type, reduceCtorEq] at same
    exact ⟨_, emits_writes _, (decodes_loadStringBody items _ savable).bind_pure (.pure _)⟩
  | json items =>
    cases old <;> simp only [Leaf.type, reduceCtorEq] at same
    exact ⟨_, emits_writes _, (decodes_loadStringBody items _ savable).bind_pure (.pure _)⟩
  | nothing size => exact absurd savable id

theorem Leaf.sizeDefined_eq {column other : Leaf} (same : column.type = other.type) :
    (leaf column).sizeDefined = (leaf other).sizeDefined := by
  cases column <;> cases other <;>
    simp_all [Leaf.type, sizeDefined]

/-! ## LowCardinality -/

/-- The header word of a saved body names its index type and has the right flags. -/
theorem indexSerializationType (type : IndexType) :
    type.toNat ||| hasAdditionalKeysBit < 256 ^ 8 ∧
      createIndexColumn ((type.toNat ||| hasAdditionalKeysBit) &&& 0xFF) = .ok type ∧
      (type.toNat ||| hasAdditionalKeysBit) &&& needGlobalDictionaryBit = 0 ∧
      (type.toNat ||| hasAdditionalKeysBit) &&& hasAdditionalKeysBit ≠ 0 := by
  cases type <;> exact ⟨by decide, rfl, by decide, by decide⟩

/-- The dictionary `Load` builds has the null map of a consistent one. -/
def Dictionary.reloaded (dictionary : Dictionary) : Dictionary :=
  ⟨dictionary.data, dictionary.nulls.map fun _ => nullFlags dictionary.data.size⟩

theorem getElem?_nullFlags {size n : Nat} (inside : n < size) :
    (nullFlags size)[n]? = some (Word.ofNat 1 (if n = 0 then 1 else 0)) := by
  unfold nullFlags
  cases n with
  | zero => rfl
  | succ n => rw [getElem?_cons_succ, getElem?_replicate, if_pos (by omega)]; rfl

variable {column : LowCardinality}

/-- Rebuilding the null map of a consistent column does not change a row. -/
theorem LowCardinality.item?_reloaded (consistent : column.Consistent) (items : UniqueItems)
    (n : Nat) :
    item? ⟨column.dictionary.reloaded, column.index, items⟩ n = column.item? n := by
  obtain ⟨inside, flags⟩ := consistent
  unfold item? dictionaryIndex?
  dsimp only
  cases entry : column.index.column[n]? with
  | none => rfl
  | some word =>
    have within := inside word (mem_of_getElem? entry)
    unfold Dictionary.reloaded Dictionary.item?
    unfold Dictionary.size at within
    cases nullable : column.dictionary.nulls with
    | none => rfl
    | some nulls =>
      obtain ⟨sizes, nullAt⟩ := flags nulls nullable
      simp only [Option.map_some, Option.isSome_some, true_and]
      split
      · rfl
      · rename_i notFirst
        rw [nullable] at within
        dsimp only at within
        have flag := nullAt word.toNat _ (getElem?_eq_getElem within)
        rw [getElem?_nullFlags (by omega), getElem?_eq_getElem within, if_neg notFirst]
        dsimp only
        have unmarked : nulls[word.toNat].toNat = 0 := by
          by_contra marked
          exact notFirst (flag.mp marked)
        rw [if_pos unmarked, if_pos (Word.toNat_ofNat (by decide))]

theorem Dictionary.size_eq_of_consistent (consistent : column.Consistent) :
    column.dictionary.size = column.dictionary.data.size := by
  unfold size
  cases nullable : column.dictionary.nulls with
  | none => rfl
  | some nulls => exact (consistent.2 nulls nullable).1

/-- The null map depends only on whether the dictionary has one. -/
theorem map_const_of_isSome_eq {α β : Type} {a b : Option α} (same : a.isSome = b.isSome) (x : β) :
    a.map (fun _ => x) = b.map fun _ => x := by
  cases a <;> cases b <;> simp_all

/-- What `Load` makes of a number of keys, the keys and an index. -/
theorem LowCardinality.decodes_load_keys [Hashing] {old : Dictionary} {keys : Nat} {bytes : Bytes}
    {data : Leaf} (index : IndexState) (few : keys < 2 ^ 64) (rows : index.column.length < 2 ^ 64)
    (loaded : Decodes (σ := σ) (old.data.cloneEmpty.loadBody keys) bytes (true, data)) :
    Decodes (σ := σ) (load old index.column.length)
      (writeFixedUInt 8 (index.type.toNat ||| hasAdditionalKeysBit) ++ (writeFixedUInt 8 keys ++
        (bytes ++ (writeFixedUInt 8 index.column.length ++ memory index.column))))
      ⟨⟨data, old.nulls.map fun _ => nullFlags data.size⟩, index,
        uniqueItemsOf ⟨data, old.nulls.map fun _ => nullFlags data.size⟩⟩ := by
  obtain ⟨small, indexType, noGlobal, additional⟩ := indexSerializationType index.type
  have loadsKeys : Decodes (σ := σ) (loadKeys old index.column.length)
      (writeFixedUInt 8 (index.type.toNat ||| hasAdditionalKeysBit) ++ (writeFixedUInt 8 keys ++
        (bytes ++ writeFixedUInt 8 index.column.length)))
      ⟨index.type, ⟨data, old.nulls.map fun _ => nullFlags data.size⟩⟩ := by
    refine (decodes_readFixedUInt small).bind ?_
    simp only [orThrow, pure_bind, indexType, noGlobal, additional, ne_eq, not_true_eq_false, if_false]
    refine (decodes_readFixedUInt few).bind ?_
    simp only [pure_bind]
    refine loaded.bind ?_
    simp only [Bool.not_true, Bool.false_eq_true, if_false]
    refine (decodes_readFixedUInt rows).bind_pure ?_
    simp only [pure_bind, not_true_eq_false, if_false]
    exact .pure _
  have whole := loadsKeys.bind (f := loadIndex index.column.length)
    ((decodes_loadVector index.column _).bind_pure (.pure _))
  simp only [append_assoc] at whole
  exact whole

theorem LowCardinality.decodes_load [Hashing] {old : Dictionary} (savable : column.Savable)
    (sizes : column.dictionary.size = column.dictionary.data.size)
    (same : old.type = column.dictionary.type) :
    ∃ bytes, Emits column.saveBody bytes ∧
      Decodes (σ := σ) (load old column.index.column.length) bytes
        ⟨column.dictionary.reloaded, column.index, uniqueItemsOf column.dictionary.reloaded⟩ := by
  obtain ⟨leaf, keys, rows⟩ := savable
  obtain ⟨dataType, nullable⟩ := type_eq same
  obtain ⟨bytes, saved, loaded⟩ := Leaf.decodes_loadBody (σ := σ) leaf
    (old.data.type_cloneEmpty.trans dataType)
  rw [← sizes] at loaded
  have decodes := decodes_load_keys column.index keys rows loaded
  rw [map_const_of_isSome_eq nullable] at decodes
  exact ⟨_, (emits_write _).andThen ((emits_write _).andThen (saved.andThen
    ((emits_write _).andThen (emits_write _)))), decodes⟩

/-- A column is read back with its own rows, whatever the loading column held. -/
theorem LowCardinality.decodes_loadBody [Hashing] {old : LowCardinality}
    (savable : column.Savable) (consistent : column.Consistent)
    (same : old.dictionary.type = column.dictionary.type) :
    ∃ bytes, Emits column.saveBody bytes ∧ ∃ loaded : LowCardinality,
      Decodes (σ := σ) (old.loadBody column.index.column.length) bytes (true, loaded) ∧
        loaded.dictionary.type = column.dictionary.type ∧ loaded.index = column.index ∧
        ∀ n, loaded.item? n = column.item? n := by
  obtain ⟨bytes, saved, load⟩ := decodes_load (σ := σ) savable
    (size_eq_of_consistent consistent) same
  have whole := load.bind_pure (f := fun loaded => pure (true, loaded)) (.pure _)
  exact ⟨bytes, saved, _, whole.tryCatch _,
    type_mk (d := column.dictionary.reloaded) rfl (by simp [reloaded]), rfl,
    item?_reloaded consistent _⟩

/-! ## Prefixes -/

/-- The prefixes a column saves are those a column of the same type expects. -/
def PrefixReloads (σ : Type) [LawfulSource Error σ] (column empty : Column) : Prop :=
  ∃ bytes, Emits column.savePrefix bytes ∧
    ∀ rows > 0, Decodes (σ := σ) (empty.loadPrefix rows) bytes true

theorem decodes_loadVersion {version : Nat} (small : version < 256 ^ 8)
    {f : Option Nat → EStateM Error σ Bool} (accepts : f (some version) = pure true) :
    Decodes (σ := σ) (readFixedUInt 8 >>= f) (writeFixedUInt 8 version) true :=
  (decodes_readFixedUInt small).bind_pure (accepts ▸ .pure _)

theorem Leaf.prefixReloads {column old : Leaf} (same : old.type = column.type) :
    PrefixReloads σ (.leaf column) (.leaf old) := by
  cases column <;> cases old <;> simp only [Leaf.type, reduceCtorEq] at same
  case json.json =>
    exact ⟨_, emits_write _, fun rows _ => decodes_loadVersion (by decide) rfl⟩
  all_goals exact ⟨[], emits_nothing, fun rows _ => .pure true⟩

mutual

theorem Column.prefixReloads : ∀ (column empty : Column), column.WellTyped → empty.WellTyped →
    empty.type.layout = column.type.layout → PrefixReloads σ column empty
  | .leaf column, empty, typed, fresh, layout => by
    obtain ⟨old, rfl, same⟩ := leaf_of_layout fresh layout
    exact Leaf.prefixReloads same
  | .array data offsets, empty, typed, fresh, layout => by
    obtain ⟨old, _, rfl, same⟩ := array_of_layout fresh layout
    obtain ⟨bytes, saved, loaded⟩ := prefixReloads data old typed fresh same
    refine ⟨bytes, saved, ?_⟩
    intro rows positive
    rw [loadPrefix, if_neg (by omega)]
    exact loaded rows positive
  | .nullable nested nulls, empty, typed, fresh, layout => by
    obtain ⟨old, _, rfl, same⟩ := nullable_of_layout fresh layout
    exact prefixReloads nested old typed fresh same
  | .tuple columns names, empty, typed, fresh, layout => by
    obtain ⟨olds, _, rfl, same⟩ := tuple_of_layout fresh layout
    exact prefixesReload columns olds typed fresh same
  | .map data, empty, typed, fresh, layout => by
    obtain ⟨key, value, own, pairs⟩ := typed.layout_map
    obtain ⟨old, rfl, same⟩ := map_of_layout fresh (layout.trans own)
    exact prefixReloads data old typed.1 fresh.1 (same.trans pairs.symm)
  | .lowCardinality column, empty, typed, fresh, layout => by
    obtain ⟨old, rfl, same⟩ := lowCardinality_of_layout fresh layout
    exact ⟨_, emits_write _, fun rows _ => decodes_loadVersion (by decide) rfl⟩
  | .geo kind data, empty, typed, fresh, layout => by
    obtain ⟨old, rfl⟩ := geo_of_layout fresh layout
    exact ⟨[], emits_nothing, fun rows _ => .pure true⟩
  | .adaptor _, _, typed, _, _ => absurd typed id

theorem Column.prefixesReload : ∀ (columns empties : List Column), AllWellTyped columns →
    AllWellTyped empties →
    Ty.layouts (types empties) = Ty.layouts (types columns) →
    ∃ bytes, Emits (savePrefixes columns) bytes ∧
      ∀ rows > 0, Decodes (σ := σ) (loadPrefixes empties rows) bytes true
  | [], [], _, _, _ => ⟨[], emits_nothing, fun rows _ => .pure true⟩
  | [], _ :: _, _, _, layout => by simp [types, Ty.layouts] at layout
  | _ :: _, [], _, _, layout => by simp [types, Ty.layouts] at layout
  | column :: columns, empty :: empties, typed, fresh, layout => by
    obtain ⟨first, others⟩ := cons.inj layout
    obtain ⟨bytes, saved, loaded⟩ := prefixReloads column empty typed.1 fresh.1 first
    obtain ⟨bytes', saved', loaded'⟩ := prefixesReload columns empties typed.2 fresh.2 others
    exact ⟨bytes ++ bytes', saved.andThen saved',
      fun rows positive => (loaded rows positive).bind (loaded' rows positive)⟩

end

/-! ## Bodies -/

/-- `loaded` is a column of the type of `empty` with the rows of `column`. -/
structure SameRows (column empty loaded : Column) : Prop where
  type : loaded.type = empty.type
  size : loaded.size = column.size
  sizeDefined : loaded.sizeDefined = empty.sizeDefined
  row : ∀ n < column.size, loaded.row? n = column.row? n

/-- Loading the saved body of `column` into `empty` gives the rows of `column`. -/
def BodyReloads (σ : Type) [LawfulSource Error σ] [Hashing] (column empty : Column) : Prop :=
  ∃ bytes, Emits column.saveBody bytes ∧ ∃ loaded,
    Decodes (σ := σ) (empty.loadBody column.size) bytes (true, loaded) ∧
      SameRows column empty loaded

theorem mapM_congr {α β : Type} {f g : α → Option β} {l : List α} (same : ∀ a ∈ l, f a = g a) :
    l.mapM f = l.mapM g := by
  induction l with
  | nil => rfl
  | cons a l ih =>
    rw [mapM_cons, mapM_cons, same a (mem_cons_self ..),
      ih fun b mem => same b (mem_cons_of_mem _ mem)]

/-- A row of a consistent array only depends on the rows of its data. -/
theorem Column.row?_array_congr {data other : Column} {offsets : ColumnVector 8}
    (consistent : ConsistentOffsets offsets data.size)
    (same : ∀ n < data.size, other.row? n = data.row? n) (n : Nat) :
    (array other offsets).row? n = (array data offsets).row? n := by
  rw [row?, row?]
  split
  · rename_i inside
    have within := consistent.row_within inside
    congr 1
    refine mapM_congr fun i mem => same _ ?_
    have below := mem_range.mp mem
    omega
  · rfl

section Bodies

variable [Hashing]

theorem Column.bodyReloads_array {data old : Column} {offsets : ColumnVector 8}
    (consistent : ConsistentOffsets offsets data.size) (positive : 0 < offsets.length)
    (reloads : 0 < data.size → BodyReloads σ data old) :
    BodyReloads σ (.array data offsets) (.array old []) := by
  have last : getOffset offsets offsets.length = data.size := consistent.2
  rcases Nat.eq_zero_or_pos data.size with none | some
  · -- No nested rows: neither side touches the data column.
    refine ⟨memory offsets ++ [], (emits_write _).andThen ?_, .array old offsets, ?_, rfl, rfl, rfl,
      ?_⟩
    · rw [if_neg (by omega)]
      exact emits_nothing
    · rw [loadBody, size, if_neg (by omega), append_nil]
      refine (decodes_loadVector offsets []).bind_pure ?_
      simp only [Bool.not_true, Bool.false_eq_true, if_false]
      rw [if_pos (last.trans none)]
      exact .pure _
    · exact fun n _ => row?_array_congr consistent (fun i below => by omega) n
  · obtain ⟨bytes, saved, loaded, decodes, rows⟩ := reloads some
    refine ⟨memory offsets ++ bytes, (emits_write _).andThen ?_, .array loaded offsets, ?_, ?_, rfl,
      rfl, fun n _ => row?_array_congr consistent rows.row n⟩
    · rw [if_pos some]
      exact saved
    · rw [loadBody, size, if_neg (by omega)]
      refine (decodes_loadVector offsets []).bind ?_
      simp only [Bool.not_true, Bool.false_eq_true, if_false]
      rw [last, if_neg (by omega)]
      exact decodes.bind_pure (.pure _)
    · rw [type, type, rows.type]

theorem Column.bodyReloads_nullable {nested old : Column} {nulls : ColumnVector 1}
    (sizes : nested.size = nulls.length) (reloads : BodyReloads σ nested old) :
    BodyReloads σ (.nullable nested nulls) (.nullable old []) := by
  obtain ⟨bytes, saved, loaded, decodes, rows⟩ := reloads
  refine ⟨memory nulls ++ bytes, (emits_write _).andThen saved, .nullable loaded nulls, ?_, ?_, rfl,
    rfl, ?_⟩
  · rw [loadBody, size]
    refine (decodes_loadVector nulls []).bind ?_
    simp only [Bool.not_true, Bool.false_eq_true, if_false]
    rw [← sizes]
    exact decodes.bind_pure (.pure _)
  · rw [type, type, rows.type]
  · intro n inside
    rw [row?, row?, rows.row n (by rw [sizes]; exact inside)]

/-- A column that stores its rows in one other column. -/
theorem BodyReloads.wrap {column empty : Column} (wrap : Column → Column)
    (reloads : BodyReloads σ column empty)
    (saves : (wrap column).saveBody = column.saveBody)
    (loads : ∀ rows, (wrap empty).loadBody (σ := σ) rows = (do
      let (ok, data) ← empty.loadBody rows
      pure (ok, wrap data)))
    (types : ∀ c, c.type = empty.type → (wrap c).type = (wrap empty).type)
    (sizes : ∀ c, (wrap c).size = c.size)
    (defined : ∀ c, (wrap c).sizeDefined = c.sizeDefined)
    (rows : ∀ c n, (wrap c).row? n = c.row? n) :
    BodyReloads σ (wrap column) (wrap empty) := by
  obtain ⟨bytes, saved, loaded, decodes, same⟩ := reloads
  refine ⟨bytes, by rwa [saves], wrap loaded, ?_, types _ same.type, ?_, ?_, ?_⟩
  · rw [loads, sizes]
    exact decodes.bind_pure (.pure _)
  · rw [sizes, sizes, same.size]
  · rw [defined, defined, same.sizeDefined]
  · intro n inside
    rw [rows, rows, same.row n (by rwa [sizes] at inside)]

/-- The columns of a tuple, all with the same number of rows. -/
structure SameTupleRows (columns empties loaded : List Column) (rows : Nat) : Prop where
  types : types loaded = types empties
  size : firstSize loaded = firstSize columns
  sizeDefined : ∀ names names', (tuple loaded names).sizeDefined =
    (tuple empties names').sizeDefined
  row : ∀ n < rows, rows? loaded n = rows? columns n

mutual

theorem Column.bodyReloads : ∀ (column empty : Column), column.WellTyped → empty.WellTyped →
    column.Consistent → column.Savable → empty.IsEmpty →
    empty.type.layout = column.type.layout → 0 < column.size → BodyReloads σ column empty
  | .leaf column, empty, typed, fresh, consistent, savable, isEmpty, layout, positive => by
    obtain ⟨old, rfl, same⟩ := leaf_of_layout fresh layout
    obtain ⟨bytes, saved, decodes⟩ := Leaf.decodes_loadBody (σ := σ) savable same
    exact ⟨bytes, saved, .leaf column, decodes.bind_pure (.pure _), congrArg Ty.leaf same.symm, rfl,
      Leaf.sizeDefined_eq same.symm, fun _ _ => rfl⟩
  | .array data offsets, empty, typed, fresh, consistent, savable, isEmpty, layout, positive => by
    obtain ⟨old, _, rfl, same⟩ := array_of_layout fresh layout
    obtain ⟨rfl, isEmpty⟩ := isEmpty
    exact bodyReloads_array consistent.1 positive
      (bodyReloads data old typed fresh consistent.2 savable isEmpty same)
  | .nullable nested nulls, empty, typed, fresh, consistent, savable, isEmpty, layout, positive => by
    obtain ⟨old, _, rfl, same⟩ := nullable_of_layout fresh layout
    obtain ⟨rfl, isEmpty⟩ := isEmpty
    have some : 0 < nested.size := by rw [consistent.1]; exact positive
    exact bodyReloads_nullable consistent.1
      (bodyReloads nested old typed fresh consistent.2 savable isEmpty same some)
  | .tuple columns names, empty, typed, fresh, consistent, savable, isEmpty, layout, positive => by
    obtain ⟨olds, _, rfl, same⟩ := tuple_of_layout fresh layout
    obtain ⟨bytes, saved, loaded, decodes, rows⟩ :=
      bodiesReload columns olds typed fresh consistent savable.2 isEmpty same positive
    refine ⟨bytes, saved, .tuple loaded _, decodes.bind_pure (.pure _), ?_, rows.size,
      rows.sizeDefined _ _, ?_⟩
    · rw [type, type, rows.types]
    · intro n inside
      rw [row?, row?, rows.row n inside]
  | .map data, empty, typed, fresh, consistent, savable, isEmpty, layout, positive => by
    obtain ⟨key, value, own, pairs⟩ := typed.layout_map
    obtain ⟨old, rfl, same⟩ := map_of_layout fresh (layout.trans own)
    refine (bodyReloads data old typed.1 fresh.1 consistent savable isEmpty
      (same.trans pairs.symm) positive).wrap .map rfl (fun _ => rfl) ?_ (fun _ => rfl)
      (fun _ => by rw [sizeDefined]) fun _ _ => rfl
    intro c types
    rw [type, type, types]
  | .lowCardinality column, empty, typed, fresh, consistent, savable, isEmpty, layout, positive => by
    obtain ⟨old, rfl, same⟩ := lowCardinality_of_layout fresh layout
    rw [layout_type] at same
    obtain ⟨bytes, saved, loaded, decodes, types, index, items⟩ :=
      decodes_loadBody (σ := σ) savable consistent same
    refine ⟨bytes, saved, .lowCardinality loaded, decodes.bind_pure (.pure _), ?_, ?_, rfl, fun n _ =>
      congrArg (Option.map ItemView.value) (items n)⟩
    · rw [type, type, types, same]
    · rw [size, size, index]
  | .geo kind data, empty, typed, fresh, consistent, savable, isEmpty, layout, positive => by
    obtain ⟨old, rfl⟩ := geo_of_layout fresh layout
    exact (bodyReloads data old typed.1 fresh.1 consistent savable isEmpty
      (fresh.2.trans typed.2.symm) positive).wrap (.geo kind) rfl (fun _ => rfl) (fun _ _ => rfl)
      (fun _ => rfl) (fun _ => by rw [sizeDefined]) fun _ _ => rfl
  | .adaptor _, _, typed, _, _, _, _, _, _ => absurd typed id

theorem Column.bodiesReload {rows : Nat} : ∀ (columns empties : List Column),
    AllWellTyped columns → AllWellTyped empties →
    AllConsistent columns rows → AllSavable columns → AllEmpty empties →
    Ty.layouts (types empties) = Ty.layouts (types columns) → 0 < rows →
    ∃ bytes, Emits (saveBodies columns) bytes ∧ ∃ loaded,
      Decodes (σ := σ) (loadBodies empties rows) bytes (true, loaded) ∧
        SameTupleRows columns empties loaded rows
  | [], [], _, _, _, _, _, _, _ =>
    ⟨[], emits_nothing, [], .pure _, rfl, rfl, fun _ _ => rfl, fun _ _ => rfl⟩
  | [], _ :: _, _, _, _, _, _, layout, _ => by simp [types, Ty.layouts] at layout
  | _ :: _, [], _, _, _, _, _, layout, _ => by simp [types, Ty.layouts] at layout
  | column :: columns, empty :: empties, typed, fresh, consistent, savable, isEmpty, layout,
      positive => by
    obtain ⟨first, others⟩ := cons.inj layout
    obtain ⟨size, consistent, restConsistent⟩ := consistent
    obtain ⟨bytes, saved, loaded, decodes, same⟩ := bodyReloads column empty typed.1 fresh.1
      consistent savable.1 isEmpty.1 first (by omega)
    obtain ⟨bytes', saved', loaded', decodes', same'⟩ := bodiesReload columns empties typed.2
      fresh.2 restConsistent savable.2 isEmpty.2 others positive
    refine ⟨bytes ++ bytes', saved.andThen saved', loaded :: loaded', ?_, ?_, same.size, ?_, ?_⟩
    · rw [loadBodies]
      rw [size] at decodes
      exact decodes.bind (decodes'.bind_pure (.pure _))
    · rw [types, types, same.type, same'.types]
    · intro names names'
      rw [sizeDefined, sizeDefined, same.sizeDefined]
    · intro n inside
      rw [rows?, rows?, same.row n (by omega), same'.row n inside]

end

/-- Over every source of bytes: the saved form of a column is consumed exactly and loads the same
rows into an empty column of the same type. -/
theorem Column.decodes_load {column empty : Column} (typed : column.WellTyped)
    (fresh : empty.WellTyped) (consistent : column.Consistent) (savable : column.Savable)
    (isEmpty : empty.IsEmpty) (layout : empty.type.layout = column.type.layout)
    (positive : 0 < column.size) :
    ∃ bytes, Emits column.save bytes ∧ ∃ loaded,
      Decodes (σ := σ) (empty.load column.size) bytes (true, loaded) ∧
        SameRows column empty loaded := by
  obtain ⟨head, savedHead, loadedHead⟩ :=
    prefixReloads (σ := σ) column empty typed fresh layout
  obtain ⟨bytes, saved, loaded, decodes, same⟩ :=
    bodyReloads (σ := σ) column empty typed fresh consistent savable isEmpty layout positive
  exact ⟨head ++ bytes, savedHead.andThen saved, loaded,
    (loadedHead column.size positive).bind decodes, same⟩

/-- A column of consistent representation, saved and loaded into an empty column of its type, has
the same rows; the load returns true and leaves exactly what follows the saved bytes. -/
theorem Column.load_save {column empty : Column} (typed : column.WellTyped)
    (fresh : empty.WellTyped) (consistent : column.Consistent) (savable : column.Savable)
    (isEmpty : empty.IsEmpty) (sameType : empty.type = column.type) (positive : 0 < column.size)
    (rest : Bytes) :
    column.save.error = none ∧ ∃ loaded : Column,
      Runs (empty.load column.size) (⟨column.save.written.flatten ++ rest⟩ : ArrayInput)
        (true, loaded) ⟨rest⟩ ∧
      loaded.type = column.type ∧ loaded.size = column.size ∧
      ∀ n < column.size, ∃ value, column.row? n = some value ∧ loaded.row? n = some value := by
  obtain ⟨bytes, ⟨returns, rfl⟩, loaded, decodes, same⟩ :=
    decodes_load (σ := ArrayInput) typed fresh consistent savable isEmpty
      (congrArg Ty.layout sameType) positive
  refine ⟨returns, loaded, ArrayInput.runs_of_decodes decodes rest, same.type.trans sameType, same.size, ?_⟩
  intro n inside
  obtain ⟨value, defined⟩ := exists_row consistent inside
  exact ⟨value, defined, (same.row n inside).trans defined⟩

end Bodies

/-- `Array(LowCardinality(Nullable(String)))` with the rows `['a', NULL]` and `[]`. -/
def sampleColumn : Column :=
  .array
    (.lowCardinality
      ⟨⟨.string [[], [], ascii "a"], some (nullFlags 3)⟩,
        ⟨.uint32, [Word.ofNat 4 2, Word.ofNat 4 0]⟩, []⟩)
    [Word.ofNat 8 2, Word.ofNat 8 2]

def emptySampleColumn : Column :=
  .array (.lowCardinality ⟨⟨.string [], some []⟩, ⟨.uint32, []⟩, []⟩) []

theorem Column.load_save_sampleColumn :
    letI := lengthHashing
    ∃ loaded : Column, Runs (emptySampleColumn.load 2)
      (⟨sampleColumn.save.written.flatten ++ [7]⟩ : ArrayInput) (true, loaded) ⟨[7]⟩ ∧
      ∀ n < 2, ∃ value, sampleColumn.row? n = some value ∧ loaded.row? n = some value := by
  let _ := lengthHashing
  have typed : sampleColumn.WellTyped := trivial
  have fresh : emptySampleColumn.WellTyped := trivial
  have offsets : ConsistentOffsets [Word.ofNat 8 2, Word.ofNat 8 2] 2 := ⟨by decide, by decide⟩
  have flags : ∀ n flag, (nullFlags 3)[n]? = some flag → (flag.toNat ≠ 0 ↔ n = 0) := by
    intro n flag entry
    rcases n with _ | _ | _ | n <;> simp [nullFlags] at entry <;> subst entry <;> decide
  have consistent : sampleColumn.Consistent := by
    refine ⟨offsets, by decide, ?_⟩
    rintro nulls ⟨⟩
    exact ⟨by decide, flags⟩
  have savable : sampleColumn.Savable := by
    refine ⟨?_, by decide, by decide⟩
    show ∀ item ∈ [[], [], ascii "a"], item.length < 2 ^ 64
    decide
  obtain ⟨_, loaded, run, _, _, rows⟩ := load_save typed fresh consistent savable
    ⟨rfl, rfl⟩ rfl (by decide) [7]
  exact ⟨loaded, run, rows⟩

end ClickHouse
