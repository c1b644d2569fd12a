import ClickHouse.Columns.Consistency
import ClickHouse.Columns.DictionaryLaws
import ClickHouse.Kit.Interning
import Mathlib.Data.Set.Function

/-!
# LowCardinality columns as lists of values

`Holds` relates a LowCardinality column to the items it was given and to the
items in the order of its dictionary.  `AppendUnsafe` keeps the relation with
one more item; the two ways to read a row follow from it.
-/

namespace ClickHouse

open Kit List ItemView

/-- What `GetItem` of a plain column of the type code returns for a value. -/
def itemOf (code : Code) : Option Bytes → ItemView
  | none => .null
  | some data => ⟨code, data⟩

theorem Dictionary.item?_eq_typedAt? (dictionary : Dictionary) (n : Nat) :
    dictionary.item? n =
      (LowCardinality.typedAt? dictionary n).map (itemOf dictionary.data.type.code) := by
  rw [Dictionary.item?, LowCardinality.typedAt?]
  cases dictionary.nulls with
  | none =>
    simp only [Leaf.item?, Option.map_map]
    rfl
  | some nulls =>
    dsimp only
    cases nulls[n]? with
    | none => rfl
    | some flag =>
      dsimp only
      split
      · simp only [Leaf.item?, Option.map_map]
        rfl
      · rfl

namespace LowCardinality

variable [Hashing]

/-! ## The dictionary and the lookup map -/

/-- The dictionary and the lookup map hold the items `stored`, in this order. -/
structure Keyed (stored : List ItemView) (dictionary : Dictionary) (uniqueItems : UniqueItems) :
    Prop where
  sound : dictionary.Sound
  distinct : stored.Nodup
  taken : ∀ item ∈ stored, dictionary.Takes item
  size : dictionary.size = stored.length
  values : ∀ n item, stored[n]? = some item →
    typedAt? dictionary n = some (dictionary.data.type.valueOf item)
  table : uniqueItems = keyTable hashKey stored

section Keyed

variable {stored : List ItemView} {dictionary : Dictionary} {uniqueItems : UniqueItems}
  {item : ItemView}

theorem Keyed.lookup (keyed : Keyed stored dictionary uniqueItems)
    (separated : Separated hashKey stored item) : uniqueItems.lookup item.hashKey =
      if item ∈ stored then some (stored.idxOf item) else none := by
  rw [keyed.table, lookup_keyTable separated]

/-- One more item in the dictionary. -/
theorem Keyed.store (keyed : Keyed stored dictionary uniqueItems)
    (separated : Separated hashKey stored item) (fresh : item ∉ stored)
    (takes : dictionary.Takes item) :
    ∃ dictionary', dictionary.append item = .ok dictionary' ∧
      dictionary.Extends (dictionary.data.type.valueOf item) dictionary' ∧
      Keyed (stored ++ [item]) dictionary'
        (uniqueItems.emplace item.hashKey dictionary.size) := by
  obtain ⟨dictionary', appended, extends'⟩ := Dictionary.append_extends keyed.sound takes
  refine ⟨dictionary', appended, extends', ?_⟩
  constructor
  case sound => exact extends'.sound
  case distinct => exact nodup_append_comm.mpr (nodup_cons.mpr ⟨fresh, keyed.distinct⟩)
  case taken =>
    intro other mem
    refine extends'.takes ?_
    rcases mem_append.mp mem with old | new
    · exact keyed.taken other old
    · rw [mem_singleton.mp new]
      exact takes
  case size => rw [extends'.size, keyed.size, length_append, length_singleton]
  case values =>
    intro n other found
    rw [extends'.dataType]
    rcases Nat.lt_trichotomy n stored.length with below | rfl | above
    · rw [getElem?_append_left below] at found
      rw [extends'.old n (keyed.size ▸ below), keyed.values n other found]
    · rw [getElem?_concat_length] at found
      cases found
      rw [← keyed.size]
      exact extends'.new
    · rw [getElem?_eq_none] at found
      · cases found
      · rw [length_append, length_singleton]
        omega
  case table =>
    rw [UniqueItems.emplace, keyed.lookup separated, if_neg fresh, keyTable_concat, keyed.table,
      keyed.size]
    rfl

end Keyed

/-! ## The cases of `AppendUnsafe` -/

theorem runs_appendUnsafe_known {column : LowCardinality} {item : ItemView} {position : Nat}
    (found : column.uniqueItems.lookup item.hashKey = some position) :
    Runs (appendUnsafe item) column () (column.appendIndex position) := by
  have kept : column.uniqueItems.emplace item.hashKey column.dictionary.size =
      column.uniqueItems := if_pos (by rw [found]; rfl)
  refine (runs_get column).bind ?_
  simp only [found, kept, Option.getD_some, Option.isNone_some, Bool.false_eq_true, if_false]
  refine (runs_set column column).bind ?_
  exact Runs.tryCatch ((runs_modify _ column).bind (runs_pure _ _)) _

theorem runs_appendUnsafe_new {column : LowCardinality} {item : ItemView} {dictionary : Dictionary}
    (fresh : column.uniqueItems.lookup item.hashKey = none)
    (appended : column.dictionary.append item = .ok dictionary) :
    Runs (appendUnsafe item) column () { column.appendIndex column.dictionary.size with
      dictionary := dictionary
      uniqueItems := column.uniqueItems.emplace item.hashKey column.dictionary.size } := by
  refine (runs_get column).bind ?_
  simp only [fresh, Option.getD_none, Option.isNone_none, if_true]
  refine (runs_set column _).bind ?_
  refine Runs.tryCatch ((runs_modify _ _).bind ((runs_get _).bind ?_)) _
  simp only [appendIndex, appended]
  exact runs_set _ _

omit [Hashing] in
/-- Erasing an entry that was not there before. -/
theorem erase_emplace {items : UniqueItems} {key : HashKey} (fresh : items.lookup key = none)
    (position : Nat) : (items.emplace key position).erase key = items := by
  rw [UniqueItems.emplace, fresh]
  show filter _ (items ++ [(key, position)]) = items
  have others : items.filter (fun entry => entry.1 != key) = items := by
    rw [filter_eq_self]
    intro entry mem
    rw [bne_comm]
    exact lookup_eq_none_iff.mp fresh entry mem
  rw [filter_append, others]
  simp

/-- An item that the dictionary refuses leaves no trace. -/
theorem throws_appendUnsafe {column : LowCardinality} {item : ItemView} {e : Error}
    (fresh : column.uniqueItems.lookup item.hashKey = none)
    (refused : column.dictionary.append item = .error e) :
    Throws (appendUnsafe item) column e column := by
  refine (runs_get column).bind_throws ?_
  simp only [fresh, Option.getD_none, Option.isNone_none, if_true]
  refine (runs_set column _).bind_throws ?_
  let emplaced : LowCardinality := { column with
    uniqueItems := column.uniqueItems.emplace item.hashKey column.dictionary.size }
  refine Throws.tryCatch (e := e) (t := emplaced.appendIndex column.dictionary.size) ?_ ?_
  · refine (runs_modify _ _).bind_throws ((runs_get _).bind_throws ?_)
    simp only [appendIndex, refused]
    exact throws_throw e _
  · have grown : (emplaced.appendIndex column.dictionary.size).index.column.length ≠
        column.index.column.length := by
      simp [appendIndex, emplaced]
    have restored : (emplaced.appendIndex column.dictionary.size).removeLastIndex = emplaced := by
      simp [appendIndex, removeLastIndex]
    have erased : { emplaced with uniqueItems := emplaced.uniqueItems.erase item.hashKey } =
        column := by
      rw [erase_emplace fresh]
    refine (runs_get _).bind_throws ?_
    rw [if_pos grown]
    refine (runs_modify _ _).bind_throws ?_
    rw [restored]
    refine (runs_modify _ _).bind_throws ?_
    rw [erased]
    exact throws_throw e column

/-- `AppendUnsafe` of an item the dictionary can hold.  The row is the position of the item. -/
theorem Keyed.accepts {stored : List ItemView} {column : LowCardinality} {item : ItemView}
    (keyed : Keyed stored column.dictionary column.uniqueItems)
    (separated : Separated hashKey stored item) (takes : column.dictionary.Takes item) :
    ∃ dictionary uniqueItems, Runs (appendUnsafe item) column ()
        { column.appendIndex ((intern stored item).idxOf item) with
          dictionary := dictionary, uniqueItems := uniqueItems } ∧
      Keyed (intern stored item) dictionary uniqueItems ∧
      dictionary.data.type = column.dictionary.data.type ∧
      dictionary.nulls.isSome = column.dictionary.nulls.isSome := by
  have found := keyed.lookup separated
  by_cases mem : item ∈ stored
  · rw [if_pos mem] at found
    rw [intern, if_pos mem]
    exact ⟨_, _, runs_appendUnsafe_known found, keyed, rfl, rfl⟩
  · rw [if_neg mem] at found
    obtain ⟨dictionary, appended, extends', stores⟩ := keyed.store separated mem takes
    have last : (stored ++ [item]).idxOf item = column.dictionary.size := by
      rw [idxOf_append_of_notMem mem, keyed.size, idxOf_cons_self, Nat.add_zero]
    rw [intern, if_neg mem, last]
    exact ⟨_, _, runs_appendUnsafe_new found appended, stores, extends'.dataType,
      extends'.nullable⟩

/-- A refused item that is not stored changes nothing. -/
theorem Keyed.refuses {stored : List ItemView} {column : LowCardinality} {item : ItemView}
    (keyed : Keyed stored column.dictionary column.uniqueItems)
    (separated : Separated hashKey stored item) (fresh : item ∉ stored) {e : Error}
    (refused : column.dictionary.append item = .error e) :
    Throws (LowCardinality.appendUnsafe item) column e column := by
  have absent : column.uniqueItems.lookup item.hashKey = none := by
    rw [keyed.lookup separated, if_neg fresh]
  exact throws_appendUnsafe absent refused

/-! ## Rows -/

/-- The column was given `items`, and its dictionary holds `stored`.  A row has as much of the
position of its item as the width of the index keeps. -/
structure Points (stored : List ItemView) (column : LowCardinality) (items : List ItemView) :
    Prop where
  keyed : Keyed stored column.dictionary column.uniqueItems
  index : column.index.column.map Word.toNat =
    items.map fun item => stored.idxOf item % 256 ^ column.index.type.width
  known : ∀ item ∈ items, item ∈ stored

/-- The column was given `items`, its dictionary holds `stored`, and a row has the position of its
item. -/
structure Holds (stored : List ItemView) (column : LowCardinality) (items : List ItemView) : Prop
    extends keyed : Keyed stored column.dictionary column.uniqueItems where
  width : column.index.type = .uint32
  index : column.index.column.map Word.toNat = items.map stored.idxOf
  known : ∀ item ∈ items, item ∈ stored

section Rows

variable {stored items : List ItemView} {column : LowCardinality} {item : ItemView}

/-- Only the dictionary and the lookup map of a column without rows have changed. -/
theorem Holds.of_keyed {dictionary : Dictionary} {uniqueItems : UniqueItems} {more : List ItemView}
    (holds : Holds stored column []) (keyed : Keyed more dictionary uniqueItems) :
    Holds more { column with dictionary := dictionary, uniqueItems := uniqueItems } [] :=
  ⟨keyed, holds.width, holds.index, nofun⟩

theorem Holds.points (holds : Holds stored column items) : Points stored column items := by
  refine ⟨holds.keyed, holds.index.trans (map_congr_left ?_), holds.known⟩
  intro item mem
  have position : stored.idxOf item ∈ column.index.column.map Word.toNat := by
    rw [holds.index]
    exact mem_map_of_mem mem
  obtain ⟨word, _, same⟩ := mem_map.mp position
  rw [← same, Nat.mod_eq_of_lt word.toNat_lt]

/-- An index of 32 bits has the positions of up to 2 ^ 32 items. -/
theorem Points.holds (points : Points stored column items) (width : column.index.type = .uint32)
    (room : stored.length ≤ 2 ^ 32) : Holds stored column items := by
  refine ⟨points.keyed, width, points.index.trans ?_, points.known⟩
  refine map_congr_left fun item mem => ?_
  have below := idxOf_lt_length_of_mem (points.known item mem)
  rw [width]
  exact Nat.mod_eq_of_lt (Nat.lt_of_lt_of_le below room)

/-- `AppendUnsafe` of an item the dictionary can hold. -/
theorem Points.accepts (points : Points stored column items)
    (separated : Separated hashKey stored item) (takes : column.dictionary.Takes item) :
    ∃ column', Runs (appendUnsafe item) column () column' ∧
      Points (intern stored item) column' (items ++ [item]) ∧
      column'.dictionary.data.type = column.dictionary.data.type ∧
      column'.dictionary.nulls.isSome = column.dictionary.nulls.isSome ∧
      column'.index.type = column.index.type := by
  obtain ⟨dictionary, uniqueItems, ran, keyed, type, nullable⟩ :=
    points.keyed.accepts separated takes
  refine ⟨_, ran, ⟨keyed, ?_, ?_⟩, type, nullable, rfl⟩
  · -- Positions stay when one more item is stored.
    have old : items.map (fun item => stored.idxOf item % 256 ^ column.index.type.width) =
        items.map fun other =>
          (intern stored item).idxOf other % 256 ^ column.index.type.width := by
      refine map_congr_left fun other mem => ?_
      have kept := idxOf_foldl_intern (points.known other mem) [item]
      rw [foldl_cons, foldl_nil] at kept
      rw [kept]
    show (column.index.column ++ [_]).map Word.toNat = _
    rw [map_append, map_append, points.index, old, map_singleton,
      map_singleton, Word.toNat_ofNat_mod]
    rfl
  · intro other mem
    rcases mem_append.mp mem with isItem | new
    · exact mem_intern.mpr (.inl (points.known other isItem))
    · exact mem_intern.mpr (.inr (mem_singleton.mp new))

end Rows

/-! ## Reading rows -/

omit [Hashing] in
theorem index_getElem? {column : LowCardinality} {positions : List Nat}
    (index : column.index.column.map Word.toNat = positions) (n : Nat) :
    column.dictionaryIndex? n = positions[n]? := by
  rw [dictionaryIndex?, ← index, getElem?_map]

theorem Points.length {stored items : List ItemView} {column : LowCardinality}
    (points : Points stored column items) : column.index.column.length = items.length := by
  have lengths := congrArg List.length points.index
  rwa [List.length_map, List.length_map] at lengths

/-- `At` returns what the dictionary has at the position in the index. -/
theorem Points.at? {stored items : List ItemView} {column : LowCardinality}
    (points : Points stored column items) (n : Nat) :
    column.at? n = (items[n]?).bind fun item =>
      typedAt? column.dictionary (stored.idxOf item % 256 ^ column.index.type.width) := by
  rw [LowCardinality.at?, index_getElem? points.index, getElem?_map]
  cases items[n]? <;> rfl

theorem Holds.length {stored items : List ItemView} {column : LowCardinality}
    (holds : Holds stored column items) : column.index.column.length = items.length :=
  holds.points.length

theorem Holds.value {stored items : List ItemView} {column : LowCardinality} {item : ItemView}
    (holds : Holds stored column items) (mem : item ∈ items) :
    typedAt? column.dictionary (stored.idxOf item) =
      some (column.dictionary.data.type.valueOf item) :=
  holds.values _ item (getElem?_idxOf (holds.known item mem))

/-- `At` returns what was given. -/
theorem Holds.at? {stored items : List ItemView} {column : LowCardinality}
    (holds : Holds stored column items) (n : Nat) :
    column.at? n = (items[n]?).map column.dictionary.data.type.valueOf := by
  rw [LowCardinality.at?, index_getElem? holds.index, getElem?_map]
  cases found : items[n]? with
  | none => rfl
  | some item => exact holds.value (mem_of_getElem? found)

/-- `GetItem` returns what was given, but NULL for an item at position 0 of a nullable
dictionary. -/
theorem Holds.item? {stored items : List ItemView} {column : LowCardinality}
    (holds : Holds stored column items) (n : Nat) :
    column.item? n = (items[n]?).map fun item =>
      if column.dictionary.nulls.isSome ∧ stored.idxOf item = 0 then .null
      else itemOf column.dictionary.data.type.code (column.dictionary.data.type.valueOf item) := by
  rw [LowCardinality.item?, index_getElem? holds.index, getElem?_map]
  cases found : items[n]? with
  | none => rfl
  | some item =>
    dsimp only [Option.map_some]
    rw [Dictionary.item?_eq_typedAt?, holds.value (mem_of_getElem? found)]
    split <;> rfl

/-! ## Several items -/

/-- Also `AppendUnsafe` of the rows of another column. -/
theorem Points.appendRows {getItem : Nat → Except Error ItemView} {rows : List Nat}
    {given : List ItemView} (gives : Forall₂ (fun n item => getItem n = .ok item) rows given)
    {stored items : List ItemView} {column : LowCardinality} (points : Points stored column items)
    {used : Set ItemView} (injective : used.InjOn hashKey)
    (storedWithin : ∀ item ∈ stored, item ∈ used) (within : ∀ item ∈ given, item ∈ used)
    (takes : ∀ item ∈ given, column.dictionary.Takes item) :
    ∃ column', Runs (appendRows getItem rows) column () column' ∧
      Points (given.foldl intern stored) column' (items ++ given) ∧
      column'.dictionary.data.type = column.dictionary.data.type ∧
      column'.dictionary.nulls.isSome = column.dictionary.nulls.isSome ∧
      column'.index.type = column.index.type := by
  induction gives generalizing stored items column with
  | nil =>
    rw [append_nil]
    exact ⟨column, runs_pure _ _, points, rfl, rfl, rfl⟩
  | @cons n item rows given got others ih =>
    have isGiven : item ∈ item :: given := mem_cons_self ..
    have separated : Separated hashKey stored item := fun other mem same =>
      injective (storedWithin other mem) (within item isGiven) same
    obtain ⟨column', ran, points', type, nullable, width⟩ :=
      points.accepts separated (takes item isGiven)
    have storedWithin' : ∀ other ∈ intern stored item, other ∈ used := by
      intro other mem
      rcases mem_intern.mp mem with old | rfl
      · exact storedWithin other old
      · exact within other isGiven
    have takes' : ∀ other ∈ given, column'.dictionary.Takes other := by
      intro other mem
      rw [Dictionary.Takes, type, nullable]
      exact takes other (mem_cons_of_mem _ mem)
    obtain ⟨column'', ran', points'', type', nullable', width'⟩ := ih points' storedWithin'
      (fun other mem => within other (mem_cons_of_mem _ mem)) takes'
    refine ⟨column'', ?_, ?_, type'.trans type, nullable'.trans nullable, width'.trans width⟩
    · exact (runs_ofExcept got column).bind (ran.bind ran')
    · rw [append_cons]
      exact points''

/-! ## The reserved items -/

theorem keyed_cloneEmpty {dictionary : Dictionary}
    (supported : dictionary.data.type.isDictionary) (positive : dictionary.data.type.Positive) :
    Keyed [] dictionary.cloneEmpty [] :=
  ⟨Dictionary.sound_cloneEmpty supported positive, .nil, nofun, dictionary.size_cloneEmpty, nofun,
    rfl⟩

/-- A column whose members were just initialised. -/
theorem holds_blank {dictionary : Dictionary} (sound : dictionary.Sound) :
    Holds [] ⟨dictionary.cloneEmpty, ⟨.uint32, []⟩, []⟩ [] :=
  ⟨keyed_cloneEmpty sound.supported sound.positive, rfl, rfl, nofun⟩

/-- `AppendDefaultItem` stores the default item and touches no row. -/
theorem Keyed.reserveDefault {stored : List ItemView} {column : LowCardinality}
    (keyed : Keyed stored column.dictionary column.uniqueItems)
    (separated : Separated hashKey stored column.dictionary.data.type.zeroItem)
    (fresh : column.dictionary.data.type.zeroItem ∉ stored) :
    ∃ dictionary uniqueItems, Runs appendDefaultItem column ()
        { column with dictionary := dictionary, uniqueItems := uniqueItems } ∧
      Keyed (stored ++ [column.dictionary.data.type.zeroItem]) dictionary uniqueItems ∧
      dictionary.data.type = column.dictionary.data.type ∧
      dictionary.nulls.isSome = column.dictionary.nulls.isSome := by
  have takes : column.dictionary.Takes column.dictionary.data.type.zeroItem :=
    .inr ⟨rfl, LeafType.accepts_zeroItem keyed.sound.supported⟩
  obtain ⟨dictionary, appended, extends', stores⟩ := keyed.store separated fresh takes
  exact ⟨_, _, runs_appendDefaultItem keyed.sound.supported appended, stores, extends'.dataType,
    extends'.nullable⟩

/-- `AppendNullItem` of an empty dictionary stores NULL and touches no row. -/
theorem Keyed.reserveNull {column : LowCardinality}
    (keyed : Keyed [] column.dictionary column.uniqueItems)
    (nullable : column.dictionary.nulls.isSome = true) :
    ∃ dictionary uniqueItems, Runs appendNullItem column ()
        { column with dictionary := dictionary, uniqueItems := uniqueItems } ∧
      Keyed [.null] dictionary uniqueItems ∧
      dictionary.data.type = column.dictionary.data.type ∧ dictionary.nulls.isSome = true := by
  obtain ⟨dictionary, appended, extends', stores⟩ :=
    keyed.store (show Separated hashKey [] null from nofun) nofun
      (.inl ⟨rfl, nullable⟩)
  rw [keyed.size] at stores
  exact ⟨_, _, runs_appendNullItem nullable appended, stores, extends'.dataType,
    extends'.nullable.trans nullable⟩

/-- The items the constructors of `ColumnLowCardinalityT` and `Clear` reserve. -/
def reservedItems (type : LeafType) (nullable : Bool) : List ItemView :=
  if nullable then [.null, type.zeroItem] else [type.zeroItem]

/-- Reserving items, as the constructors and `Clear` do it. -/
theorem Keyed.reserved {column : LowCardinality}
    (keyed : Keyed [] column.dictionary column.uniqueItems)
    (notNull : column.dictionary.data.type.zeroItem.hashKey ≠ null.hashKey) :
    ∃ dictionary uniqueItems, Runs (do
        if column.dictionary.nulls.isSome then appendNullItem
        appendDefaultItem) column ()
        { column with dictionary := dictionary, uniqueItems := uniqueItems } ∧
      Keyed (reservedItems column.dictionary.data.type column.dictionary.nulls.isSome)
        dictionary uniqueItems ∧
      dictionary.data.type = column.dictionary.data.type ∧
      dictionary.nulls.isSome = column.dictionary.nulls.isSome := by
  cases nullable : column.dictionary.nulls.isSome with
  | false =>
    obtain ⟨dictionary, uniqueItems, ran, keyed', type, isNullable⟩ :=
      keyed.reserveDefault nofun nofun
    exact ⟨_, _, ran, keyed', type, isNullable.trans nullable⟩
  | true =>
    obtain ⟨null, uniqueItems, ranNull, keyedNull, type, isNullable⟩ := keyed.reserveNull nullable
    have separated : Separated hashKey [.null] null.data.type.zeroItem := by
      intro other mem same
      rw [mem_singleton.mp mem, type] at same
      exact absurd same.symm notNull
    have fresh : null.data.type.zeroItem ∉ [ItemView.null] := by
      intro mem
      rw [mem_singleton, type] at mem
      exact notNull (congrArg hashKey mem)
    let withNull : LowCardinality :=
      { column with dictionary := null, uniqueItems := uniqueItems }
    have keyedNull : Keyed [.null] withNull.dictionary withNull.uniqueItems := keyedNull
    obtain ⟨dictionary, uniqueItems', ran, keyed', type', isNullable'⟩ :=
      keyedNull.reserveDefault separated fresh
    rw [show LowCardinality.dictionary _ = null from rfl, type] at keyed'
    exact ⟨_, _, ranNull.bind ran, keyed', type'.trans type, isNullable'.trans isNullable⟩

/-- The column of the type was given `items` after the reserved ones. -/
structure Grown (reserved : List ItemView) (type : LeafType) (nullable : Bool)
    (column : LowCardinality) (items : List ItemView) : Prop where
  dataType : column.dictionary.data.type = type
  isNullable : column.dictionary.nulls.isSome = nullable
  holds : Holds (items.foldl intern reserved) column items

/-- The column was given `items` after what `ColumnLowCardinalityT` reserves. -/
abbrev Represents (type : LeafType) (nullable : Bool) (column : LowCardinality)
    (items : List ItemView) : Prop :=
  Grown (reservedItems type nullable) type nullable column items

theorem represents_reserved {column : LowCardinality} (holds : Holds [] column [])
    (notNull : column.dictionary.data.type.zeroItem.hashKey ≠ null.hashKey) :
    ∃ column', Runs (do
        if column.dictionary.nulls.isSome then appendNullItem
        appendDefaultItem) column () column' ∧
      Represents column.dictionary.data.type column.dictionary.nulls.isSome column' [] := by
  obtain ⟨dictionary, uniqueItems, ran, keyed, type, nullable⟩ := holds.keyed.reserved notNull
  exact ⟨_, ran, type, nullable, holds.of_keyed keyed⟩

end LowCardinality

end ClickHouse
