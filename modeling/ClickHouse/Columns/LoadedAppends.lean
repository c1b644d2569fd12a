import ClickHouse.Columns.ReceivedIndexes
import ClickHouse.Columns.Slices

/-!
# Appending to a loaded LowCardinality column

A loaded column keeps the index type that the peer chose, and `appendIndex`
converts the position of an item to it, whatever the size of the dictionary.  A
column that is loaded from a well-formed body is related to its items as a column
that was given them is, so appending to it needs no proof of its own.
-/

namespace ClickHouse

open Kit List Dictionary

/-- The items of the keys of a dictionary, in order. -/
def Dictionary.items (dictionary : Dictionary) : List ItemView :=
  (range dictionary.data.size).map fun n => (dictionary.item? n).getD .null

variable {n : Nat} {dictionary : Dictionary} {item : ItemView}

namespace LowCardinality

variable [Hashing]

/-- The lookup map that `Load` builds of distinct items is the table of their positions. -/
theorem foldl_emplace {itemAt : Nat → ItemView} (distinct : ((range n).map itemAt).Nodup)
    (injective : Set.InjOn ItemView.hashKey { item | item ∈ (range n).map itemAt }) :
    (range n).foldl (fun items i => UniqueItems.emplace items (itemAt i).hashKey i) [] =
      keyTable ItemView.hashKey ((range n).map itemAt) := by
  induction n with
  | zero => rfl
  | succ n ih =>
    rw [range_succ, map_append, map_singleton] at distinct injective ⊢
    have old := nodup_append.mp distinct
    have fresh : itemAt n ∉ (range n).map itemAt := fun mem =>
      old.2.2 _ mem _ (mem_singleton_self _) rfl
    have separated : Separated ItemView.hashKey ((range n).map itemAt) (itemAt n) :=
      fun other mem same => injective (mem_append_left _ mem)
        (mem_append_right _ (mem_singleton_self _)) same
    rw [foldl_append, ih old.1 (injective.mono fun item mem => mem_append_left _ mem),
      foldl_cons, foldl_nil, UniqueItems.emplace, lookup_keyTable separated,
      if_neg fresh, keyTable_concat, length_map, length_range]
    rfl

/-- A body whose indexes are positions of its keys, whose keys are distinct, and whose key data are
whole rows. -/
structure WellFormed (loaded : LowCardinality) : Prop where
  indexes : ∀ position ∈ loaded.index.column, position.toNat < loaded.dictionary.data.size
  keys : loaded.dictionary.items.Nodup
  whole : loaded.dictionary.data.Aligned

section Loaded

variable {loaded : LowCardinality} {type : LeafType} {nullable : Bool}

omit [Hashing] in
theorem getElem?_items (inside : n < dictionary.data.size) :
    dictionary.items[n]? = some ((dictionary.item? n).getD .null) := by
  rw [items, getElem?_map, getElem?_range inside]
  rfl

/-- The dictionary of a loaded column holds its keys. -/
theorem keyed_items (received : dictionary.Received)
    (supported : dictionary.data.type.isDictionary) (positive : dictionary.data.type.Positive)
    (whole : dictionary.data.Aligned) (first : dictionary.nulls.isSome → 0 < dictionary.data.size)
    (distinct : dictionary.items.Nodup)
    (injective : Set.InjOn ItemView.hashKey { item | item ∈ dictionary.items }) :
    Keyed dictionary.items dictionary (uniqueItemsOf dictionary) := by
  have flags : ∀ nulls, dictionary.nulls = some nulls → nulls.length = dictionary.data.size := by
    intro nulls same
    have positive := first (by rw [same]; rfl)
    rw [received nulls same, length_nullFlags]
    omega
  have sound : dictionary.Sound := ⟨supported, positive, whole, flags⟩
  have defined {n : Nat} {item : ItemView} (found : dictionary.items[n]? = some item) :
      dictionary.item? n = some item ∧
        dictionary.data.type.HasItem dictionary.nulls.isSome item := by
    have inside : n < dictionary.data.size := by
      have below := (List.getElem?_eq_some_iff.mp found).1
      rwa [items, length_map, length_range] at below
    obtain ⟨item', row, has⟩ := hasItem flags (sound.size_eq.symm ▸ inside)
    rw [getElem?_items inside, row] at found
    cases found
    exact ⟨row, has⟩
  refine ⟨sound, distinct, ?_, ?_, ?_, foldl_emplace distinct injective⟩
  · intro item mem
    obtain ⟨n, found⟩ := mem_iff_getElem?.mp mem
    exact (defined found).2
  · rw [sound.size_eq, items, length_map, length_range]
  · intro n item found
    exact valueOf_item supported (defined found).1

/-- The items of the rows of a loaded column. -/
def rowItems (loaded : LowCardinality) : List ItemView :=
  loaded.index.column.map fun position =>
    (loaded.dictionary.items[position.toNat]?).getD .null

theorem tracks_loaded (received : loaded.dictionary.Received)
    (table : loaded.uniqueItems = uniqueItemsOf loaded.dictionary)
    (hasType : loaded.dictionary.data.type = type)
    (isNullable : loaded.dictionary.nulls.isSome = nullable) (supported : type.isDictionary)
    (positive : type.Positive) (wellFormed : loaded.WellFormed)
    (first : nullable = true → 0 < loaded.dictionary.data.size)
    (injective : Set.InjOn ItemView.hashKey { item | item ∈ loaded.dictionary.items }) :
    Tracks loaded.dictionary.items type nullable loaded.index.type loaded loaded.rowItems := by
  subst hasType isNullable
  have inside {position : Word loaded.index.type.width} (mem : position ∈ loaded.index.column) :
      position.toNat < loaded.dictionary.items.length := by
    rw [items, length_map, length_range]
    exact wellFormed.indexes position mem
  refine ⟨rfl, rfl, rfl, ?_, ?_, ?_⟩
  · rw [table]
    exact keyed_items received supported positive wellFormed.whole first wellFormed.keys injective
  · rw [rowItems, map_map]
    refine map_congr_left fun position mem => ?_
    rw [Function.comp_apply, getElem?_eq_getElem (inside mem), Option.getD_some,
      wellFormed.keys.idxOf_getElem, Nat.mod_eq_of_lt position.toNat_lt]
  · intro item mem
    obtain ⟨position, isPosition, rfl⟩ := mem_map.mp mem
    rw [getElem?_eq_getElem (inside isPosition)]
    exact getElem_mem _

end Loaded

/-! ## Rows after appending -/

/-- The rows that were loaded read as before, and the rows after them are the given items. -/
structure KeepsValues (type : LeafType) (loaded column : LowCardinality) (given : List ItemView) :
    Prop where
  size : column.index.column.length = loaded.index.column.length + given.length
  oldAt : ∀ n < loaded.index.column.length, column.at? n = loaded.at? n
  oldItem : ∀ n < loaded.index.column.length, column.item? n = loaded.item? n
  newAt : ∀ n, column.at? (loaded.index.column.length + n) = (given[n]?).map type.valueOf
  newItem : ∀ n, column.item? (loaded.index.column.length + n) =
    (given[n]?).map fun item => itemOf type.code (type.valueOf item)

/-- What the index keeps of the position of the item is a position of the same value.  Distinct
items have one value only in a `FixedString`, where zeros at the end do not count. -/
def Addressed (type : LeafType) (width : IndexType) (stored : List ItemView) (item : ItemView) :
    Prop :=
  ∃ other, stored[stored.idxOf item % 256 ^ width.width]? = some other ∧
    type.valueOf other = type.valueOf item

omit [Hashing] in
/-- A position that fits the width of the index is kept. -/
theorem addressed_of_lt {type : LeafType} {width : IndexType} {stored : List ItemView}
    (mem : item ∈ stored) (fits : stored.idxOf item < 256 ^ width.width) :
    Addressed type width stored item := by
  refine ⟨item, ?_, rfl⟩
  rw [Nat.mod_eq_of_lt fits]
  exact getElem?_idxOf mem

omit [Hashing] in
/-- All positions are kept if there are at most as many as the index has values. -/
theorem addressed_of_few {type : LeafType} {given stored : List ItemView} {width : IndexType}
    (few : (given.foldl intern stored).length ≤ 256 ^ width.width) :
    ∀ item ∈ given, Addressed type width (given.foldl intern stored) item := by
  intro item mem
  have isStored : item ∈ given.foldl intern stored :=
    mem_foldl_intern_of_mem (mem_append_right _ mem)
  exact addressed_of_lt isStored
    (Nat.lt_of_lt_of_le (idxOf_lt_length_of_mem isStored) few)

section Appending

variable {stored items given : List ItemView} {type : LeafType} {nullable : Bool}
  {width : IndexType} {loaded column : LowCardinality}

theorem Tracks.item? (tracks : Tracks stored type nullable width column items)
    (null : nullable = true → stored[0]? = some .null) (n : Nat) :
    column.item? n = (column.at? n).map (itemOf type.code) := by
  rw [item?_eq_at?, tracks.dataType]
  intro isNullable
  rw [tracks.isNullable] at isNullable
  exact tracks.points.keyed.values 0 _ (null isNullable)

/-- More items do not change what the rows before them read. -/
theorem Tracks.at?_old (before : Tracks stored type nullable width loaded items)
    (after : Tracks (given.foldl intern stored) type nullable width column (items ++ given))
    (below : n < items.length) : column.at? n = loaded.at? n := by
  rw [after.at?, before.at?, getElem?_append_left below, getElem?_eq_getElem below,
    Option.bind_some, Option.bind_some]
  have mem := getElem_mem below
  have known := before.points.known _ mem
  obtain ⟨other, found, value⟩ := before.value mem
  rw [value, idxOf_foldl_intern known, ← after.dataType]
  exact after.points.keyed.values _ other (getElem?_foldl_intern found given)

theorem Tracks.keepsValues_iff (before : Tracks stored type nullable width loaded items)
    (after : Tracks (given.foldl intern stored) type nullable width column (items ++ given))
    (null : nullable = true → stored[0]? = some .null) :
    KeepsValues type loaded column given ↔
      ∀ item ∈ given, Addressed type width (given.foldl intern stored) item := by
  have length : loaded.index.column.length = items.length := before.points.length
  have item (n : Nat) : column.item? n = (column.at? n).map (itemOf type.code) :=
    after.item? (fun isNullable => getElem?_foldl_intern (null isNullable) given) n
  have new (n : Nat) : column.at? (loaded.index.column.length + n) = (given[n]?).bind fun item =>
      typedAt? column.dictionary
        ((given.foldl intern stored).idxOf item % 256 ^ width.width) := by
    rw [after.at?, length, getElem?_append_right (Nat.le_add_right ..),
      Nat.add_sub_cancel_left]
  constructor
  · intro keeps item mem
    obtain ⟨other, found, value⟩ := after.value (mem_append_right _ mem)
    obtain ⟨n, isGiven⟩ := mem_iff_getElem?.mp mem
    have row := keeps.newAt n
    rw [new, isGiven, Option.bind_some, value] at row
    exact ⟨other, found, Option.some.inj row⟩
  · intro addressed
    have newAt (n : Nat) :
        column.at? (loaded.index.column.length + n) = (given[n]?).map type.valueOf := by
      rw [new]
      cases isGiven : given[n]? with
      | none => rfl
      | some item =>
        have mem := mem_of_getElem? isGiven
        obtain ⟨other, found, value⟩ := after.value (mem_append_right _ mem)
        obtain ⟨other', found', same⟩ := addressed item mem
        cases found.symm.trans found'
        rw [Option.bind_some, value, same]
        rfl
    have oldAt (n : Nat) (below : n < loaded.index.column.length) : column.at? n = loaded.at? n :=
      before.at?_old after (length ▸ below)
    refine ⟨?_, oldAt, ?_, newAt, ?_⟩
    · rw [after.points.length, length_append, length]
    · intro n below
      rw [item, before.item? null, oldAt n below]
    · intro n
      rw [item, newAt, Option.map_map]
      rfl

end Appending

/-! ## Loading and appending -/

omit [Hashing] in
theorem kind_items :
    ∀ item ∈ dictionary.items, item = .null ∨ item.type = dictionary.data.type.code := by
  intro item mem
  obtain ⟨n, -, rfl⟩ := mem_map.mp mem
  rw [item?_eq_typedAt?]
  cases typedAt? dictionary n with
  | none => exact .inl rfl
  | some value =>
    cases value with
    | none => exact .inl rfl
    | some data => exact .inr rfl

omit [Hashing] in
theorem kind_of_appends {type : LeafType} {nullable : Bool} {call : Operation}
    (supported : type.isDictionary) (appends : call.Appends type nullable) :
    ∀ item ∈ call.items type, item = .null ∨ item.type = type.code := by
  suffices typed : call.Typed type nullable from kind_of_typed supported typed
  cases call with
  | append value =>
    cases value with
    | none => exact appends
    | some data => exact appends.2
  | appendColumn source => exact appends
  | clear => cases appends

variable {σ : Type} [Source Error σ] {type : LeafType} {nullable : Bool}
  {column loaded : LowCardinality}

/-- What is loaded has the type of the column, a position for each row, and the lookup map of its
own dictionary. -/
theorem of_runs_loadBody {rows : Nat} {s t : σ}
    (run : Runs (column.loadBody rows) s (true, loaded) t) :
    loaded.dictionary.data.type = column.dictionary.data.type ∧
      loaded.dictionary.nulls.isSome = column.dictionary.nulls.isSome ∧
      loaded.dictionary.Received ∧ loaded.uniqueItems = uniqueItemsOf loaded.dictionary ∧
      loaded.index.column.length = rows := by
  obtain ⟨keys, m, ranKeys, ranIndex⟩ := runs_loadBody_iff.mp run
  obtain ⟨bytes, -, rfl⟩ := runs_loadIndex_iff.mp ranIndex
  obtain ⟨_, _, _, _, _, loads, flags, _⟩ := runs_loadKeys ranKeys
  refine ⟨(Leaf.type_loadBody loads).trans (Leaf.type_cloneEmpty _), ?_,
    received_loadKeys ranKeys, rfl, length_toWords ..⟩
  show keys.dictionary.nulls.isSome = _
  rw [flags, Option.isSome_map]

omit [Hashing] in
/-- The first key of a nullable dictionary stands for NULL. -/
theorem getElem?_zero_items (received : dictionary.Received)
    (isNullable : dictionary.nulls.isSome) (first : 0 < dictionary.data.size) :
    dictionary.items[0]? = some .null := by
  obtain ⟨nulls, same⟩ := Option.isSome_iff_exists.mp isNullable
  rw [getElem?_items first, Dictionary.item?, same, received nulls same]
  rfl

/-- A column that is loaded from a well-formed body, before and after it is given values. -/
theorem tracks_loaded_calls {rows : Nat} {s t : σ}
    (run : Runs (column.loadBody rows) s (true, loaded) t)
    (hasType : column.dictionary.data.type = type)
    (isNullable : column.dictionary.nulls.isSome = nullable) (supported : type.isDictionary)
    (positive : type.Positive) (wellFormed : loaded.WellFormed)
    (first : nullable = true → 0 < loaded.dictionary.data.size) {calls : List Operation}
    (appends : ∀ call ∈ calls, call.Appends type nullable)
    (apart : HashesApart (loaded.dictionary.items ++ calls.flatMap (Operation.items type))) :
    Tracks loaded.dictionary.items type nullable loaded.index.type loaded loaded.rowItems ∧
    Tracks ((appendedItems type calls).foldl intern loaded.dictionary.items) type nullable
      loaded.index.type (afterCalls calls loaded) (loaded.rowItems ++ appendedItems type calls) ∧
    (nullable = true → loaded.dictionary.items[0]? = some .null) := by
  obtain ⟨sameType, sameNullable, received, table, length⟩ := of_runs_loadBody run
  rw [hasType] at sameType
  rw [isNullable] at sameNullable
  have injective := apart.injOn (LeafType.code_of_isDictionary supported) (by
    intro item mem
    rcases mem_append.mp mem with key | given
    · rw [← sameType]
      exact kind_items item key
    · obtain ⟨call, isCall, mem⟩ := mem_flatMap.mp given
      exact kind_of_appends supported (appends call isCall) item mem)
  have before := tracks_loaded received table sameType sameNullable supported positive wellFormed
    first (injective.mono fun item mem => mem_append_left _ mem)
  refine ⟨before, before.afterCalls supported appends injective
    (fun item mem => mem_append_left _ mem) fun item mem => mem_append_right _ mem, ?_⟩
  intro isNull
  exact getElem?_zero_items received (sameNullable.trans isNull) (first isNull)

/-- A column is loaded from a well-formed body and then given values.  All rows are kept exactly if
the index can address the given values.  A nullable dictionary has a key for NULL. -/
theorem loaded_keepsValues_iff {rows : Nat} {s t : σ}
    (run : Runs (column.loadBody rows) s (true, loaded) t)
    (hasType : column.dictionary.data.type = type)
    (isNullable : column.dictionary.nulls.isSome = nullable) (supported : type.isDictionary)
    (positive : type.Positive) (wellFormed : loaded.WellFormed)
    (first : nullable = true → 0 < loaded.dictionary.data.size) {calls : List Operation}
    (appends : ∀ call ∈ calls, call.Appends type nullable)
    (apart : HashesApart (loaded.dictionary.items ++ calls.flatMap (Operation.items type))) :
    loaded.index.column.length = rows ∧
    (((appendedItems type calls).foldl intern loaded.dictionary.items).length ≤
        256 ^ loaded.index.type.width →
      KeepsValues type loaded (afterCalls calls loaded) (appendedItems type calls)) ∧
    (KeepsValues type loaded (afterCalls calls loaded) (appendedItems type calls) ↔
      ∀ item ∈ appendedItems type calls, Addressed type loaded.index.type
        ((appendedItems type calls).foldl intern loaded.dictionary.items) item) := by
  obtain ⟨before, after, null⟩ := tracks_loaded_calls run hasType isNullable supported positive
    wellFormed first appends apart
  have keeps := before.keepsValues_iff after null
  exact ⟨(of_runs_loadBody run).2.2.2.2, fun few => keeps.mpr (addressed_of_few few), keeps⟩

end LowCardinality

open LowCardinality

theorem loaded_keepsValues_sampleKeys :
    letI : Hashing := stringHashing
    KeepsValues .string (loadedStrings [1, 0])
      (afterCalls [.append (some (ascii "b")), .append (some (ascii "a"))] (loadedStrings [1, 0]))
      [⟨.string, ascii "b"⟩, ⟨.string, ascii "a"⟩] := by
  let _ : Hashing := stringHashing
  have run : Runs (unloadedStrings.loadBody 2) (⟨sampleKeys ++ [1, 0, 9]⟩ : ArrayInput)
      (true, loadedStrings [1, 0]) ⟨[9]⟩ := rfl
  have wellFormed : (loadedStrings [1, 0]).WellFormed :=
    ⟨by decide, by decide +kernel, trivial⟩
  have appends : ∀ call ∈ [Operation.append (some (ascii "b")), .append (some (ascii "a"))],
      call.Appends .string false := by
    intro call mem
    rcases mem_cons.mp mem with rfl | mem
    · exact ⟨rfl, trivial⟩
    · rw [mem_singleton.mp mem]
      exact ⟨rfl, trivial⟩
  have apart : HashesApart ((loadedStrings [1, 0]).dictionary.items ++
      [Operation.append (some (ascii "b")), .append (some (ascii "a"))].flatMap
        (Operation.items .string)) := ⟨by decide +kernel, by decide +kernel⟩
  exact (loaded_keepsValues_iff run rfl rfl rfl trivial wellFormed nofun appends apart).2.1
    (by decide +kernel)

/-! ## A full `UInt8` index -/

/-- The values 1, 2, … as keys. -/
def countedWords (n : Nat) : ColumnVector 8 := (range n).map fun i => Word.ofNat 8 (i + 1)

theorem length_countedWords (n : Nat) : (countedWords n).length = n := by
  rw [countedWords, length_map, length_range]

/-- A `UInt64` column with `n` keys, a `UInt8` index and one row. -/
def countedColumn (n : Nat) : LowCardinality :=
  ⟨⟨.fixed .uint64 (countedWords n), none⟩, ⟨.uint8, [Word.ofNat 1 5]⟩, []⟩

theorem items_countedColumn (n : Nat) :
    (countedColumn n).dictionary.items = (range n).map countedItem := by
  have size : (countedColumn n).dictionary.data.size = n := length_countedWords n
  rw [Dictionary.items, size]
  refine map_congr_left fun i mem => ?_
  have row : (countedWords n)[i]? = some (Word.ofNat 8 (i + 1)) := by
    rw [countedWords, getElem?_map, getElem?_range (mem_range.mp mem)]
    rfl
  have bytes : (countedColumn n).dictionary.data.bytes? i = some (encodeLE 8 (i + 1)) :=
    congrArg (Option.map Subtype.val) row
  rw [Dictionary.item?]
  simp only [countedColumn, Leaf.item?] at bytes ⊢
  rw [bytes]
  rfl

theorem savable_countedColumn (small : n * 8 < 2 ^ 64) : (countedColumn n).Savable := by
  have length := length_countedWords n
  refine ⟨?_, ?_, show 1 < 2 ^ 64 by decide⟩
  · show (countedWords n).length * 8 < 2 ^ 64
    rw [length]
    exact small
  · show (countedWords n).length < 2 ^ 64
    omega

/-- What is saved of such a column is loaded with its keys and its index. -/
theorem exists_loads_countedColumn [Hashing] (small : n * 8 < 2 ^ 64) :
    ∃ (bytes : Bytes) (loaded : LowCardinality),
      Runs (LowCardinality.loadBody ⟨⟨.fixed .uint64 [], none⟩, ⟨.uint32, []⟩, []⟩ 1)
        (⟨bytes⟩ : ArrayInput) (true, loaded) ⟨[]⟩ ∧
      loaded.dictionary = (countedColumn n).dictionary ∧ loaded.index = (countedColumn n).index := by
  have sameType : type ⟨.fixed .uint64 [], none⟩ = (countedColumn n).dictionary.type := rfl
  obtain ⟨bytes, -, decodes⟩ :=
    LowCardinality.decodes_load (σ := ArrayInput) (savable_countedColumn small) rfl sameType
  exact ⟨bytes ++ [], _, runs_loadBody.1 _ (ArrayInput.runs_of_decodes decodes []), rfl, rfl⟩

theorem nodup_countedItems (small : n < 2 ^ 64) : ((range n).map countedItem).Nodup :=
  (nodup_append.mp (nodup_counted small)).2.1

theorem wellFormed_counted {loaded : LowCardinality} (some : 5 < n) (small : n < 2 ^ 64)
    (dictionary : loaded.dictionary = (countedColumn n).dictionary)
    (index : loaded.index = (countedColumn n).index) : loaded.WellFormed := by
  obtain ⟨_, _, items⟩ := loaded
  dsimp only at dictionary index
  subst dictionary index
  refine ⟨?_, ?_, trivial⟩
  · intro position mem
    have same : position = Word.ofNat 1 5 := mem_singleton.mp mem
    rw [same]
    show 5 < (countedWords n).length
    rw [length_countedWords]
    exact some
  · rw [items_countedColumn]
    exact nodup_countedItems small

/-- A key that is not among those that were counted becomes the next one. -/
theorem intern_countedItem (small : n + 1 < 2 ^ 64) :
    [countedItem n].foldl intern ((range n).map countedItem) =
        (range n).map countedItem ++ [countedItem n] ∧
      ((range n).map countedItem ++ [countedItem n]).idxOf (countedItem n) = n := by
  have distinct := nodup_countedItems small
  rw [range_succ, map_append, map_singleton] at distinct
  refine ⟨foldl_intern_of_nodup distinct, ?_⟩
  have fresh : countedItem n ∉ (range n).map countedItem := fun mem =>
    (nodup_append.mp distinct).2.2 _ mem _ (mem_singleton_self _) rfl
  rw [idxOf_append_of_notMem fresh, length_map, length_range, idxOf_cons_self,
    Nat.add_zero]

theorem hashesApart_countedItems :
    @HashesApart countingHashing ((range n).map countedItem ++ [countedItem n]) := by
  refine hashesApart_counting ?_
  intro item mem _
  rcases mem_append.mp mem with key | given
  · obtain ⟨i, -, rfl⟩ := mem_map.mp key
    exact length_encodeLE 8 (i + 1)
  · rw [mem_singleton.mp given]
    exact length_encodeLE 8 (n + 1)

/-- The 257th key of a column with a `UInt8` index is read as the first one. -/
theorem not_keepsValues_countedColumn :
    letI : Hashing := countingHashing
    ∃ (bytes : Bytes) (loaded : LowCardinality),
      Runs (LowCardinality.loadBody ⟨⟨.fixed .uint64 [], none⟩, ⟨.uint32, []⟩, []⟩ 1)
        (⟨bytes⟩ : ArrayInput) (true, loaded) ⟨[]⟩ ∧
      loaded.WellFormed ∧ loaded.index.type = .uint8 ∧ loaded.dictionary.size = 256 ∧
      (afterCalls [.append (some (encodeLE 8 257))] loaded).at? 1 = some (some (encodeLE 8 1)) ∧
      ¬ KeepsValues (.fixed .uint64) loaded
        (afterCalls [.append (some (encodeLE 8 257))] loaded) [⟨.uint64, encodeLE 8 257⟩] := by
  let _ : Hashing := countingHashing
  obtain ⟨bytes, loaded, run, dictionary, index⟩ :=
    exists_loads_countedColumn (by decide : 256 * 8 < 2 ^ 64)
  have items : loaded.dictionary.items = (range 256).map countedItem := by
    rw [dictionary, items_countedColumn]
  have wellFormed := wellFormed_counted (by decide) (by decide) dictionary index
  have appends : ∀ call ∈ [Operation.append (some (encodeLE 8 257))],
      call.Appends (.fixed .uint64) false := by
    intro call mem
    rw [mem_singleton.mp mem]
    exact ⟨rfl, length_encodeLE 8 257⟩
  have given : appendedItems (.fixed .uint64) [Operation.append (some (encodeLE 8 257))] =
      [countedItem 256] := rfl
  have apart : HashesApart (loaded.dictionary.items ++
      [Operation.append (some (encodeLE 8 257))].flatMap (Operation.items (.fixed .uint64))) := by
    rw [items]
    exact hashesApart_countedItems
  have hasType : (Leaf.fixed .uint64 []).type = .fixed .uint64 := rfl
  have notNullable : (none : Option (ColumnVector 1)).isSome = false := rfl
  obtain ⟨before, after, -⟩ := tracks_loaded_calls run hasType notNullable rfl trivial wellFormed
    nofun appends apart
  obtain ⟨stored, position⟩ := intern_countedItem (by decide : 256 + 1 < 2 ^ 64)
  have oneRow : loaded.index.column.length = 1 := (of_runs_loadBody run).2.2.2.2
  have width : loaded.index.type = .uint8 := by
    rw [index]
    rfl
  rw [given, items, stored, width] at after
  have wrong : (afterCalls [.append (some (encodeLE 8 257))] loaded).at? 1 =
      some (some (encodeLE 8 1)) := by
    have rows : loaded.rowItems.length = 1 := before.points.length.symm.trans oneRow
    have wrapped : 256 % 256 ^ IndexType.uint8.width = 0 := by decide
    rw [after.at?, getElem?_append_right (Nat.le_of_eq rows), rows]
    show typedAt? _ (_ % _) = _
    rw [position, wrapped]
    have value := after.points.keyed.values 0 (countedItem 0) rfl
    rw [after.dataType] at value
    exact value
  refine ⟨bytes, loaded, run, wellFormed, width, ?_, wrong, ?_⟩
  · rw [dictionary]
    exact length_countedWords 256
  · intro keeps
    have row := keeps.newAt 0
    rw [oneRow, wrong] at row
    exact absurd row (by decide)

end ClickHouse
