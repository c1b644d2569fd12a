import ClickHouse.Columns.RefinementRuns
import ClickHouse.Columns.RoundTrip

/-!
# Slices of LowCardinality columns

`Slice` and `CloneEmpty` make their result with the constructor that reserves
only the default item, so in the slice of a nullable column position 0 is not
NULL.  A row has three readers that may disagree about it: `GetItem`, `At`,
and the column that is loaded from the saved one.
-/

namespace ClickHouse

open Kit List Operation LeafType ItemView

namespace LowCardinality

variable {type : LeafType} {nullable : Bool} {used : Set ItemView} {dictionary : Dictionary}
  {n len start : Nat} {item : ItemView} {calls : List Operation}

/-- In a loaded dictionary NULL stands at position 0 and nowhere else. -/
theorem typedAt?_reloaded (inside : n < dictionary.data.size) :
    typedAt? dictionary.reloaded n =
      if dictionary.nulls.isSome ∧ n = 0 then some none
      else (dictionary.data.bytes? n).map some := by
  rw [typedAt?, Dictionary.reloaded]
  cases dictionary.nulls with
  | none => simp
  | some nulls =>
    simp only [Option.map_some, getElem?_nullFlags inside, Option.isSome_some, true_and]
    by_cases first : n = 0
    · rw [if_pos first, if_pos first, if_neg (by decide)]
    · rw [if_neg first, if_neg first, if_pos (by decide)]

/-- The readers agree where position 0 of a nullable dictionary is NULL. -/
theorem item?_eq_at? {column : LowCardinality}
    (null : column.dictionary.nulls.isSome → typedAt? column.dictionary 0 = some none) (n : Nat) :
    column.item? n = (column.at? n).map (itemOf column.dictionary.data.type.code) := by
  rw [item?, at?]
  cases column.dictionaryIndex? n with
  | none => rfl
  | some position =>
    dsimp only [Option.bind_some]
    split
    · rename_i first
      rw [first.2, null first.1]
      rfl
    · exact Dictionary.item?_eq_typedAt? ..

theorem bytes?_of_typedAt? {data : Bytes} (value : typedAt? dictionary n = some (some data)) :
    dictionary.data.bytes? n = some data := by
  have value' : (dictionary.data.bytes? n).map some = some (some data) := by
    rw [typedAt?] at value
    split at value
    · exact value
    · split at value
      · split at value
        · exact value
        · cases value
      · cases value
  obtain ⟨_, row, same⟩ := Option.map_eq_some_iff.mp value'
  cases same
  exact row

/-- The rows of a column are stored in full. -/
theorem stored_bytes {leaf : Leaf} {data : Bytes} (row : leaf.bytes? n = some data) :
    leaf.type.stored data = data := by
  cases leaf with
  | fixedString column =>
    rcases column with ⟨size, bytes⟩
    rw [Leaf.bytes?, FixedStrings.at?] at row
    split at row
    · rename_i inside
      dsimp only at inside row
      cases row
      have full : size ≤ bytes.length - n * size := by omega
      show padded size _ = _
      rw [padded, length_take, length_drop, Nat.min_eq_left full, Nat.sub_self]
      exact append_nil _
    · cases row
  | _ => rfl

theorem valueOf_item (supported : dictionary.data.type.isDictionary)
    (row : dictionary.item? n = some item) :
    typedAt? dictionary n = some (dictionary.data.type.valueOf item) := by
  rw [Dictionary.item?_eq_typedAt?] at row
  obtain ⟨value, found, rfl⟩ := Option.map_eq_some_iff.mp row
  rw [found]
  cases value with
  | none => rfl
  | some data =>
    have bytes := stored_bytes (bytes?_of_typedAt? found)
    rw [valueOf, itemOf, if_neg (code_of_isDictionary supported), bytes]

/-! ## Rows after the default item -/

variable [Hashing]

/-! ## The three readers -/

/-- All readers of the column see the given rows. -/
structure Denotes (type : LeafType) (column : LowCardinality) (rows : List (Option Bytes)) :
    Prop where
  shows : Shows type column rows
  reloads : ∀ (empty : LowCardinality) (rest : Bytes),
    empty.dictionary.type = column.dictionary.type → ∃ loaded,
      Runs ((Column.lowCardinality empty).load column.index.column.length)
        (⟨(Column.lowCardinality column).save.written.flatten ++ rest⟩ : ArrayInput)
        (true, .lowCardinality loaded) ⟨rest⟩ ∧
      Shows type loaded rows

/-- The column that is loaded from the saved one. -/
def reloaded (column : LowCardinality) : LowCardinality :=
  ⟨column.dictionary.reloaded, column.index, uniqueItemsOf column.dictionary.reloaded⟩

theorem runs_load_save {column empty : LowCardinality} (savable : column.Savable)
    (sizes : column.dictionary.size = column.dictionary.data.size)
    (same : empty.dictionary.type = column.dictionary.type) (rest : Bytes) :
    Runs ((Column.lowCardinality empty).load column.index.column.length)
      (⟨(Column.lowCardinality column).save.written.flatten ++ rest⟩ : ArrayInput)
      (true, .lowCardinality column.reloaded) ⟨rest⟩ := by
  obtain ⟨body, saved, load⟩ :=
    LowCardinality.decodes_load (σ := ArrayInput) savable sizes same
  have version : Emits (Column.lowCardinality column).savePrefix
      (writeFixedUInt 8 keySerializationVersion) := emits_write _
  obtain ⟨_, bytes⟩ := version.andThen saved
  have whole := load.bind_pure (f := fun loaded => pure (true, loaded)) (.pure _)
  have decodes : Decodes (σ := ArrayInput)
      ((Column.lowCardinality empty).load column.index.column.length)
      (writeFixedUInt 8 keySerializationVersion ++ body) (true, .lowCardinality column.reloaded) := by
    refine (decodes_loadVersion (by decide) rfl).bind ?_
    exact (whole.tryCatch _).bind_pure (.pure _)
  rw [show (Column.lowCardinality column).save.written.flatten = _ from bytes]
  exact ArrayInput.runs_of_decodes decodes rest

section Rows

variable {column : LowCardinality} {stored items : List ItemView} {width : IndexType}

/-- The value of an entry of the dictionary. -/
theorem Tracks.entry {other : ItemView} (tracks : Tracks stored type nullable width column items)
    (entry : stored[n]? = some other) :
    typedAt? column.dictionary n = some (type.valueOf other) := by
  rw [← tracks.dataType]
  exact tracks.points.keyed.values _ _ entry

/-- An entry that is not NULL has bytes. -/
theorem Tracks.entryBytes {other : ItemView} (tracks : Tracks stored type nullable width column items)
    (supported : type.isDictionary) (entry : stored[n]? = some other)
    (solid : nullable = true → other ≠ .null) :
    type.valueOf other = some (type.stored other.data) := by
  have takes := tracks.points.keyed.taken other (mem_of_getElem? entry)
  rw [Dictionary.Takes, tracks.dataType, tracks.isNullable] at takes
  refine if_neg ?_
  rcases takes with ⟨null, isNullable⟩ | ⟨code, _⟩
  · exact absurd null (solid isNullable)
  · rw [code]
    exact code_of_isDictionary supported

/-- The value that a row reads. -/
theorem Tracks.value (tracks : Tracks stored type nullable width column items)
    (mem : item ∈ items) :
    ∃ other, stored[stored.idxOf item % 256 ^ width.width]? = some other ∧
      typedAt? column.dictionary (stored.idxOf item % 256 ^ width.width) =
        some (type.valueOf other) := by
  have below := idxOf_lt_length_of_mem (tracks.points.known item mem)
  have inside := Nat.lt_of_le_of_lt (Nat.mod_le _ (256 ^ width.width)) below
  exact ⟨_, getElem?_eq_getElem inside, tracks.entry (getElem?_eq_getElem inside)⟩

theorem Tracks.at? (tracks : Tracks stored type nullable width column items) (n : Nat) :
    column.at? n = (items[n]?).bind fun item =>
      typedAt? column.dictionary (stored.idxOf item % 256 ^ width.width) := by
  rw [tracks.points.at?, tracks.indexType]

theorem Tracks.dictionaryIndex? (tracks : Tracks stored type nullable width column items)
    (n : Nat) : column.dictionaryIndex? n =
      (items[n]?).map fun item => stored.idxOf item % 256 ^ width.width := by
  rw [index_getElem? tracks.points.index, getElem?_map, tracks.indexType]

/-- What `GetItem` reads. -/
theorem Tracks.getItem (tracks : Tracks stored type nullable width column items)
    (found : items[n]? = some item) :
    column.item? n = if nullable ∧ stored.idxOf item % 256 ^ width.width = 0 then some .null
      else column.dictionary.item? (stored.idxOf item % 256 ^ width.width) := by
  rw [LowCardinality.item?, tracks.dictionaryIndex?, found, tracks.isNullable]
  rfl

/-- What `At` of the loaded column reads. -/
theorem Tracks.at?_reloaded (tracks : Tracks stored type nullable width column items)
    (found : items[n]? = some item) : column.reloaded.at? n =
      if nullable ∧ stored.idxOf item % 256 ^ width.width = 0 then some none
      else (column.dictionary.data.bytes? (stored.idxOf item % 256 ^ width.width)).map some := by
  have known := tracks.points.known item (mem_of_getElem? found)
  have position : column.reloaded.dictionaryIndex? n =
      some (stored.idxOf item % 256 ^ width.width) := by
    rw [show column.reloaded.dictionaryIndex? n = column.dictionaryIndex? n from rfl,
      tracks.dictionaryIndex?, found]
    rfl
  have inside : stored.idxOf item % 256 ^ width.width < column.dictionary.data.size := by
    rw [← tracks.points.keyed.sound.size_eq, tracks.points.keyed.size]
    exact Nat.lt_of_le_of_lt (Nat.mod_le ..) (idxOf_lt_length_of_mem known)
  rw [LowCardinality.at?, position]
  refine (typedAt?_reloaded inside).trans ?_
  rw [tracks.isNullable]

/-- The row is read at the position that the index of 32 bits keeps for the item: an item of its
value is there, which in a nullable dictionary is neither NULL nor the first one. -/
def RowRead (type : LeafType) (nullable : Bool) (stored : List ItemView) (row : Option Bytes)
    (item : ItemView) : Prop :=
  ∃ other, stored[stored.idxOf item % 256 ^ IndexType.uint32.width]? = some other ∧
    type.valueOf other = row ∧ (nullable = true → other ≠ .null ∧
      stored.idxOf item % 256 ^ IndexType.uint32.width ≠ 0)

/-- So are all rows of a column that was given the items after the default item. -/
def RowsRead (type : LeafType) (nullable : Bool) (rows : List (Option Bytes))
    (items : List ItemView) : Prop :=
  Forall₂ (RowRead type nullable (items.foldl intern [type.zeroItem])) rows items

variable {rows : List (Option Bytes)}

omit [Hashing] in
theorem RowsRead.row (read : RowsRead type nullable rows items) (found : items[n]? = some item) :
    ∃ row, rows[n]? = some row ∧
      RowRead type nullable (items.foldl intern [type.zeroItem]) row item := by
  obtain ⟨below, rfl⟩ := List.getElem?_eq_some_iff.mp found
  have below' : n < rows.length := read.length_eq ▸ below
  exact ⟨_, getElem?_eq_getElem below', (forall₂_iff_get.mp read).2 n below' below⟩

theorem Tracks.rowsRead_of_denotes
    (tracks : Tracks (items.foldl intern [type.zeroItem]) type nullable .uint32 column items)
    (supported : type.isDictionary) (savable : column.Savable) (denotes : Denotes type column rows) :
    RowsRead type nullable rows items := by
  have length : rows.length = items.length := denotes.shows.size.symm.trans tracks.points.length
  refine forall₂_iff_get.mpr ⟨length, fun n below below' => ?_⟩
  rw [get_eq_getElem, get_eq_getElem]
  have found : items[n]? = some items[n] := getElem?_eq_getElem below'
  have isRow : rows[n]? = some rows[n] := getElem?_eq_getElem below
  obtain ⟨other, isOther, value⟩ := tracks.value (getElem_mem below')
  have typed := denotes.shows.typedAt n
  rw [tracks.at?, found, isRow, Option.bind_some, value] at typed
  have same : type.valueOf other = rows[n] := Option.some.inj typed
  refine ⟨other, isOther, same, fun isNullable => ?_⟩
  have notFirst : (items.foldl intern [type.zeroItem]).idxOf items[n] %
      256 ^ IndexType.uint32.width ≠ 0 := by
    -- `GetItem` takes position 0 for NULL.
    intro zero
    have get := denotes.shows.getItem n
    rw [tracks.getItem found, isRow, if_pos ⟨isNullable, zero⟩, ← same] at get
    rw [zero, getElem?_zero_foldl_intern] at isOther
    cases isOther
    rw [valueOf, if_neg (zeroItem_type supported)] at get
    have code := congrArg ItemView.type (Option.some.inj get)
    exact code_of_isDictionary supported code.symm
  refine ⟨?_, notFirst⟩
  rintro rfl
  -- The loaded column has the bytes of the NULL entry as a value.
  obtain ⟨loaded, ran, shows⟩ := denotes.reloads column [] rfl
  have ran' := runs_load_save savable tracks.points.keyed.sound.size_eq rfl []
  obtain ⟨alike, _⟩ := ran.unique ran'
  cases alike
  have row := shows.typedAt n
  rw [tracks.at?_reloaded found, if_neg (fun both => notFirst both.2), isRow, ← same] at row
  obtain ⟨_, _, some⟩ := Option.map_eq_some_iff.mp row
  cases some

theorem Tracks.denotes_of_rowsRead
    (tracks : Tracks (items.foldl intern [type.zeroItem]) type nullable .uint32 column items)
    (supported : type.isDictionary) (savable : column.Savable)
    (read : RowsRead type nullable rows items) : Denotes type column rows := by
  have keyed := tracks.points.keyed
  have size : (Column.lowCardinality column).size = rows.length :=
    tracks.points.length.trans read.length_eq.symm
  have outside {n : Nat} (missing : items[n]? = none) :
      rows[n]? = none ∧ column.dictionaryIndex? n = none := by
    rw [tracks.dictionaryIndex?, missing]
    rw [getElem?_eq_none_iff, ← read.length_eq] at missing
    exact ⟨getElem?_eq_none_iff.mpr missing, rfl⟩
  have typedAt (n : Nat) : column.at? n = rows[n]? := by
    rw [tracks.at?]
    cases found : items[n]? with
    | none => exact (outside found).1.symm
    | some item =>
      obtain ⟨row, isRow, other, entry, same, _⟩ := read.row found
      rw [isRow, Option.bind_some, tracks.entry entry, same]
  have reloadedAt (n : Nat) : column.reloaded.at? n = rows[n]? := by
    cases found : items[n]? with
    | none =>
      rw [LowCardinality.at?, show column.reloaded.dictionaryIndex? n = none from (outside found).2,
        (outside found).1]
      rfl
    | some item =>
      obtain ⟨row, isRow, other, entry, same, safe⟩ := read.row found
      have value := tracks.entry entry
      rw [tracks.entryBytes supported entry fun isNullable => (safe isNullable).1] at value same
      rw [tracks.at?_reloaded found, if_neg (fun both => (safe both.1).2 both.2),
        bytes?_of_typedAt? value, isRow, ← same, Option.map_some]
  have getItem (n : Nat) : column.item? n = (rows[n]?).map (itemOf type.code) := by
    cases found : items[n]? with
    | none =>
      rw [LowCardinality.item?, (outside found).1, (outside found).2]
      rfl
    | some item =>
      obtain ⟨_, _, _, _, _, safe⟩ := read.row found
      rw [tracks.getItem found, if_neg (fun both => (safe both.1).2 both.2),
        Dictionary.item?_eq_typedAt?, tracks.dataType, ← typedAt, tracks.at?, found]
      rfl
  refine ⟨⟨size, typedAt, getItem⟩, fun _ rest same =>
    ⟨_, runs_load_save savable keyed.sound.size_eq same rest, size, reloadedAt, fun n => ?_⟩⟩
  have nonempty : 0 < column.dictionary.data.size := by
    rw [← keyed.sound.size_eq, keyed.size]
    exact length_le_foldl_intern items [type.zeroItem]
  have null (isNullable : column.reloaded.dictionary.nulls.isSome) :
      typedAt? column.reloaded.dictionary 0 = some none := by
    refine (typedAt?_reloaded nonempty).trans (if_pos ⟨?_, rfl⟩)
    simpa [reloaded, Dictionary.reloaded] using isNullable
  have code : column.reloaded.dictionary.data.type.code = type.code := congrArg code tracks.dataType
  rw [item?_eq_at? null, reloadedAt, code]

/-- What a nullable column without a reserved NULL can hold, and every other column. -/
def Unreserved (type : LeafType) (nullable : Bool) (items : List ItemView) : Prop :=
  nullable = false ∨ ∀ item ∈ items, item ≠ .null ∧ item ≠ type.zeroItem

omit [Hashing] in
/-- Where the index keeps all positions, rows are read if no item needs a reserved NULL. -/
theorem rowsRead_iff_unreserved
    (room : (items.foldl intern [type.zeroItem]).length ≤ 2 ^ 32)
    (agree : Unreserved type nullable items → rows = items.map type.valueOf) :
    RowsRead type nullable rows items ↔ Unreserved type nullable items := by
  have stored {item : ItemView} (mem : item ∈ items) :
      item ∈ items.foldl intern [type.zeroItem] := mem_foldl_intern_of_mem (mem_append_right _ mem)
  have kept {item : ItemView} (mem : item ∈ items) :
      (items.foldl intern [type.zeroItem]).idxOf item % 256 ^ IndexType.uint32.width =
        (items.foldl intern [type.zeroItem]).idxOf item :=
    Nat.mod_eq_of_lt (Nat.lt_of_lt_of_le (idxOf_lt_length_of_mem (stored mem)) room)
  have first := getElem?_zero_foldl_intern items type.zeroItem []
  constructor
  · intro read
    cases nullable with
    | false => exact .inl rfl
    | true =>
      refine .inr fun item mem => ?_
      obtain ⟨n, found⟩ := getElem?_of_mem mem
      obtain ⟨row, _, other, isOther, _, safe⟩ := read.row found
      rw [kept mem] at isOther safe
      cases isOther.symm.trans (getElem?_idxOf (stored mem))
      refine ⟨(safe rfl).1, ?_⟩
      rintro rfl
      refine (safe rfl).2 ?_
      cases all : items.foldl intern [type.zeroItem] with
      | nil => rw [all] at first; cases first
      | cons a others =>
        rw [all] at first
        cases first
        exact idxOf_cons_self
  · intro unreserved
    rw [agree unreserved, RowsRead, forall₂_map_left_iff, forall₂_same]
    intro item mem
    refine ⟨item, ?_, rfl, fun isNullable => ?_⟩
    · rw [kept mem]
      exact getElem?_idxOf (stored mem)
    · rcases unreserved with notNullable | differs
      · rw [isNullable] at notNullable
        cases notNullable
      · refine ⟨(differs item mem).1, fun zero => (differs item mem).2 ?_⟩
        have found := getElem?_idxOf (stored mem)
        rw [← kept mem, zero, first] at found
        exact (Option.some.inj found).symm

end Rows

/-! ## Making the columns -/

/-- `ColumnLowCardinality(ColumnRef)` of a dictionary without rows. -/
theorem grown_ofColumnRef (sound : dictionary.Sound) (empty : dictionary.size = 0) :
    ∃ column, ofColumnRef dictionary = .ok column ∧
      Grown [dictionary.data.type.zeroItem] dictionary.data.type dictionary.nulls.isSome
        column [] := by
  have dataType : dictionary.cloneEmpty.data.type = dictionary.data.type := Leaf.type_cloneEmpty _
  have isNullable : dictionary.cloneEmpty.nulls.isSome = dictionary.nulls.isSome := by
    simp [Dictionary.cloneEmpty]
  have blank := holds_blank sound
  obtain ⟨reserved, uniqueItems, ran, keyed, type, nullable⟩ := blank.keyed.reserveDefault
    (fun _ mem => absurd mem not_mem_nil) not_mem_nil
  have holds := blank.of_keyed keyed
  rw [dataType] at holds type
  rw [isNullable] at nullable
  refine ⟨_, construct_of_runs (ran.bind ?_), type, nullable, holds⟩
  rw [empty]
  exact runs_pure _ _

/-- The items `Slice` passes on. -/
def sliceItems (column : LowCardinality) (start len : Nat) : List ItemView :=
  (range' start len).filterMap column.item?

/-- The rows that a slice should have. -/
def sliceRows (column : LowCardinality) (start len : Nat) : List (Option Bytes) :=
  (range' start len).filterMap column.at?

/-- The column after calls on it. -/
def afterCalls (calls : List Operation) (column : LowCardinality) : LowCardinality :=
  calls.foldl (fun column call => after call.program column) column

/-- The items that a plain column takes from calls. -/
def appendedItems (type : LeafType) (calls : List Operation) : List ItemView :=
  calls.flatMap (apply type [])

omit [Hashing] in
theorem sliceItems_hasItem {column : LowCardinality} (readable : column.Readable)
    (inside : start + len ≤ column.index.column.length) :
    Forall₂ (fun n item => itemOrUndefined (column.item? n) = .ok item)
        (range' start len) (column.sliceItems start len) ∧
      ∀ item ∈ column.sliceItems start len,
        column.dictionary.data.type.HasItem column.dictionary.nulls.isSome item := by
  have defined {n : Nat} (mem : n ∈ range' start len) := readable.hasItem
    (Nat.lt_of_lt_of_le (mem_range'_1.mp mem).2 inside)
  have gives : ∀ n ∈ range' start len, ∃ item,
      itemOrUndefined (column.item? n) = .ok item := by
    intro n mem
    obtain ⟨item, row, _⟩ := defined mem
    exact ⟨item, by rw [row]; rfl⟩
  have same : column.sliceItems start len = (range' start len).filterMap
      fun n => (itemOrUndefined (column.item? n)).toOption := by
    refine congrArg (filterMap · _) (funext fun n => ?_)
    cases column.item? n <;> rfl
  refine ⟨same ▸ forall₂_items gives, ?_⟩
  intro item mem
  obtain ⟨n, inRange, row⟩ := mem_filterMap.mp mem
  obtain ⟨item', row', has⟩ := defined inRange
  rw [row] at row'
  cases row'
  exact has

theorem grown_cloneEmpty {column : LowCardinality} (cleared : column.dictionary.cloneEmpty.Sound)
    (hasType : column.dictionary.data.type = type)
    (isNullable : column.dictionary.nulls.isSome = nullable) :
    ∃ made, column.cloneEmpty = .ok made ∧ Grown [type.zeroItem] type nullable made [] := by
  obtain ⟨made, created, grown⟩ :=
    grown_ofColumnRef cleared column.dictionary.size_cloneEmpty
  refine ⟨made, created, ?_⟩
  have dataType : column.dictionary.cloneEmpty.data.type = type :=
    (Leaf.type_cloneEmpty _).trans hasType
  have nullable' : column.dictionary.cloneEmpty.nulls.isSome = nullable := by
    rw [← isNullable]
    simp [Dictionary.cloneEmpty]
  rw [dataType, nullable'] at grown
  exact grown

/-- The slice was given the items of its rows after the default item. -/
theorem tracks_slice {column : LowCardinality} (readable : column.Readable)
    (cleared : column.dictionary.cloneEmpty.Sound) (hasType : column.dictionary.data.type = type)
    (isNullable : column.dictionary.nulls.isSome = nullable)
    (inside : start + len ≤ column.index.column.length) (injective : used.InjOn hashKey)
    (within : Within [type.zeroItem] used (column.sliceItems start len)) :
    ∃ made, column.slice start len = .ok made ∧
      Tracks ((column.sliceItems start len).foldl intern [type.zeroItem]) type nullable .uint32 made
        (column.sliceItems start len) := by
  obtain ⟨empty, created, grown⟩ := grown_cloneEmpty cleared hasType isNullable
  obtain ⟨gives, has⟩ := sliceItems_hasItem readable inside
  rw [hasType, isNullable] at has
  have within' : Within [type.zeroItem] used ([] ++ column.sliceItems start len) := within
  obtain ⟨made, ran, tracks⟩ :=
    grown.tracks.appendRows injective within'.stored within'.more has gives
  refine ⟨made, ?_, tracks⟩
  have fromStart : min start column.index.column.length = start := by omega
  have whole : min len (column.index.column.length - start) = len := by omega
  rw [cloneEmpty] at created
  rw [slice, fromStart, whole, created]
  exact construct_of_runs ran

/-! ## Appending to them -/

/-- Calls that give values to the column. -/
theorem Tracks.afterCalls {stored : List ItemView} {width : IndexType} {column : LowCardinality}
    {items : List ItemView} (tracks : Tracks stored type nullable width column items)
    (supported : type.isDictionary) (appends : ∀ call ∈ calls, call.Appends type nullable)
    (injective : used.InjOn hashKey) (storedWithin : ∀ item ∈ stored, item ∈ used)
    (within : ∀ item ∈ calls.flatMap (Operation.items type), item ∈ used) :
    Tracks ((appendedItems type calls).foldl intern stored) type nullable width
      (LowCardinality.afterCalls calls column) (items ++ appendedItems type calls) := by
  induction calls generalizing stored column items with
  | nil =>
    have nothing : items ++ appendedItems type [] = items := append_nil items
    rw [nothing]
    exact tracks
  | cons call calls ih =>
    have first := appends call (mem_cons_self ..)
    have ownWithin : ∀ item ∈ call.items type, item ∈ used := fun item mem =>
      within item (mem_append_left _ mem)
    have split : appendedItems type (call :: calls) =
        call.apply type [] ++ appendedItems type calls := flatMap_cons
    rw [split, foldl_append, ← append_assoc]
    refine ih (tracks.append supported first injective storedWithin ownWithin)
      (fun other mem => appends other (mem_cons_of_mem _ mem)) ?_
      fun item mem => within item (mem_append_right _ mem)
    intro item mem
    rcases mem_append.mp (mem_foldl_intern mem) with old | new
    · exact storedWithin item old
    · exact ownWithin item (by simpa using mem_apply new)

/-! ## Slices and their rows -/

omit [Hashing] in
/-- `GetItem` and `At` of a column agree but for items that are read as NULL. -/
theorem at?_of_item? {column : LowCardinality}
    (supported : column.dictionary.data.type.isDictionary) (row : column.item? n = some item)
    (notNull : column.dictionary.nulls.isSome = false ∨ item ≠ .null) :
    column.at? n = some (column.dictionary.data.type.valueOf item) := by
  rw [item?] at row
  rw [at?]
  cases position : column.dictionaryIndex? n with
  | none => rw [position] at row; cases row
  | some p =>
    rw [position] at row
    dsimp only [Option.bind_some] at row ⊢
    split at row
    · rename_i first
      cases row
      rcases notNull with notNullable | notNull
      · rw [first.1] at notNullable
        cases notNullable
      · exact absurd rfl notNull
    · exact valueOf_item supported row

omit [Hashing] in
theorem sliceRows_eq {column : LowCardinality} (readable : column.Readable)
    (supported : column.dictionary.data.type.isDictionary)
    (inside : start + len ≤ column.index.column.length)
    (unreserved : Unreserved column.dictionary.data.type column.dictionary.nulls.isSome
      (column.sliceItems start len)) :
    column.sliceRows start len =
      (column.sliceItems start len).map column.dictionary.data.type.valueOf := by
  rw [sliceRows, sliceItems, map_filterMap]
  refine filterMap_congr fun n mem => ?_
  obtain ⟨item, row, _⟩ := readable.hasItem
    (Nat.lt_of_lt_of_le (mem_range'_1.mp mem).2 inside)
  have isItem : item ∈ column.sliceItems start len := mem_filterMap.mpr ⟨n, mem, row⟩
  rw [row, Option.map_some]
  exact at?_of_item? supported row (unreserved.imp id fun differs => (differs item isItem).1)

theorem Tracks.readable {stored items : List ItemView} {width : IndexType} {column : LowCardinality}
    (tracks : Tracks stored type nullable width column items) : column.Readable := by
  refine ⟨?_, tracks.points.keyed.sound.flags⟩
  intro position mem
  have isPosition := mem_map_of_mem (f := Word.toNat) mem
  rw [tracks.points.index] at isPosition
  obtain ⟨item, isItem, same⟩ := mem_map.mp isPosition
  rw [← same, tracks.points.keyed.size]
  exact Nat.lt_of_le_of_lt (Nat.mod_le ..) (idxOf_lt_length_of_mem (tracks.points.known item isItem))

/-- The readers of a column that was made from items of another one, and then given more. -/
theorem Tracks.denotes_iff {made : LowCardinality} {items : List ItemView}
    (tracks : Tracks (items.foldl intern [type.zeroItem]) type nullable .uint32 made items)
    (supported : type.isDictionary) (appends : ∀ call ∈ calls, call.Appends type nullable)
    (injective : used.InjOn hashKey)
    (within : Within [type.zeroItem] used (items ++ calls.flatMap (Operation.items type)))
    (rows : List (Option Bytes)) :
    (LowCardinality.afterCalls calls made).Readable ∧
      ((LowCardinality.afterCalls calls made).Savable →
        (Denotes type (LowCardinality.afterCalls calls made) rows ↔
          RowsRead type nullable rows (items ++ appendedItems type calls))) := by
  have whole := tracks.afterCalls supported appends injective within.stored within.more
  rw [← foldl_append] at whole
  exact ⟨whole.readable, fun savable =>
    ⟨whole.rowsRead_of_denotes supported savable, whole.denotes_of_rowsRead supported savable⟩⟩

omit [Hashing] in
theorem Operation.Appends.typed {call : Operation} (appends : call.Appends type nullable) :
    call.Typed type nullable := by
  cases call with
  | append value =>
    cases value with
    | none => exact appends
    | some data => exact appends.2
  | appendColumn source => exact appends
  | clear => trivial

/-- `Slice` and `CloneEmpty` of a column, and calls that give more values.  The results can be
sliced again.  All readers of a result see the rows of the slice and the values that were given
exactly if each row is read at the position that the index keeps.  With at most `2 ^ 32` items that
is so exactly if the column is not nullable, or neither NULL nor the default item is among them. -/
theorem slice_denotes_iff {column : LowCardinality} (readable : column.Readable)
    (hasType : column.dictionary.data.type = type)
    (isNullable : column.dictionary.nulls.isSome = nullable) (supported : type.isDictionary)
    (positive : type.Positive) {start len : Nat}
    (inside : start + len ≤ column.index.column.length) {calls : List Operation}
    (appends : ∀ call ∈ calls, call.Appends type nullable)
    (apart : HashesApart (type.zeroItem ::
      (column.sliceItems start len ++ calls.flatMap (items type)))) :
    (∃ made, column.slice start len = .ok made ∧ (afterCalls calls made).Readable ∧
      ((afterCalls calls made).Savable →
        (Denotes type (afterCalls calls made)
            (column.sliceRows start len ++ (appendedItems type calls).map type.valueOf) ↔
          RowsRead type nullable
            (column.sliceRows start len ++ (appendedItems type calls).map type.valueOf)
            (column.sliceItems start len ++ appendedItems type calls)))) ∧
    (∃ made, column.cloneEmpty = .ok made ∧ (afterCalls calls made).Readable ∧
      ((afterCalls calls made).Savable →
        (Denotes type (afterCalls calls made) ((appendedItems type calls).map type.valueOf) ↔
          RowsRead type nullable ((appendedItems type calls).map type.valueOf)
            (appendedItems type calls)))) ∧
    ((type.zeroItem ::
        (column.sliceItems start len ++ appendedItems type calls)).dedup.length ≤ 2 ^ 32 →
      (RowsRead type nullable
          (column.sliceRows start len ++ (appendedItems type calls).map type.valueOf)
          (column.sliceItems start len ++ appendedItems type calls) ↔
        Unreserved type nullable (column.sliceItems start len ++ appendedItems type calls))) := by
  subst hasType isNullable
  have cleared : column.dictionary.cloneEmpty.Sound :=
    Dictionary.sound_cloneEmpty supported positive
  have has := (sliceItems_hasItem readable inside).2
  have injective := apart.injOn (code_of_isDictionary supported) (by
    intro item mem
    rcases mem_cons.mp mem with zero | mem
    · exact .inr (congrArg type zero)
    · rcases mem_append.mp mem with sliced | given
      · exact (has item sliced).imp And.left And.left
      · obtain ⟨call, isCall, mem⟩ := mem_flatMap.mp given
        exact kind_of_typed supported (Operation.Appends.typed (appends call isCall)) item mem)
  refine ⟨?_, ?_, fun few => ?_⟩
  · obtain ⟨made, created, tracks⟩ := tracks_slice readable cleared rfl rfl inside injective
      (fun item mem => mem_cons.mpr ((mem_cons.mp mem).imp id (mem_append_left _)))
    exact ⟨made, created, tracks.denotes_iff supported appends injective (fun item mem => mem) _⟩
  · obtain ⟨made, created, grown⟩ := grown_cloneEmpty cleared rfl rfl
    exact ⟨made, created, grown.tracks.denotes_iff supported appends injective
      (fun item mem => mem_cons.mpr ((mem_cons.mp mem).imp id (mem_append_right _))) _⟩
  · refine rowsRead_iff_unreserved ?_ fun unreserved => ?_
    · refine (length_le_dedup (nodup_foldl_intern (nodup_singleton _) _) ?_).trans few
      exact fun item mem => mem_foldl_intern mem
    · rw [map_append, sliceRows_eq readable supported inside (unreserved.imp id
        fun differs item mem => differs item (mem_append_left _ mem))]

/-- `LowCardinality(Nullable(String))` with the rows `'a'`, NULL and `'b'`. -/
def sampleNullable : LowCardinality :=
  ⟨⟨.string [[], [], ascii "a", ascii "b"], some (nullFlags 4)⟩,
    ⟨.uint32, [Word.ofNat 4 2, Word.ofNat 4 0, Word.ofNat 4 3]⟩, []⟩

omit [Hashing] in
theorem slice_denotes_iff_sampleNullable :
    letI : Hashing := stringHashing
    ∃ made, sampleNullable.slice 2 1 = .ok made ∧
      Denotes .string (afterCalls [.append (some (ascii "c"))] made)
        [some (ascii "b"), some (ascii "c")] := by
  let _ : Hashing := stringHashing
  have readable : sampleNullable.Readable := by
    refine ⟨by decide, ?_⟩
    rintro nulls ⟨⟩
    rfl
  have appends : ∀ call ∈ [append (some (ascii "c"))], call.Appends .string true := by
    intro call mem
    rw [mem_singleton.mp mem]
    exact ⟨rfl, trivial⟩
  have apart : HashesApart (string.zeroItem :: (sampleNullable.sliceItems 2 1 ++
      [append (some (ascii "c"))].flatMap (items .string))) :=
    ⟨by decide +kernel, by decide +kernel⟩
  obtain ⟨⟨made, created, _, iff⟩, _, reads⟩ := slice_denotes_iff readable rfl rfl rfl trivial
    (show 2 + 1 ≤ 3 by decide) appends apart
  have evaluated : sampleNullable.slice 2 1 = .ok ⟨⟨.string [[], ascii "b"],
      some [Word.ofNat 1 0, Word.ofNat 1 0]⟩, ⟨.uint32, [Word.ofNat 4 1]⟩,
      [((1, 0), 0), ((2, 98), 1)]⟩ := rfl
  refine ⟨made, created, (iff ?_).mpr ((reads (by decide +kernel)).mpr (.inr (by decide +kernel)))⟩
  rw [evaluated] at created
  cases created
  refine ⟨?_, by decide +kernel, by decide +kernel⟩
  show ∀ item ∈ [[], ascii "b", ascii "c"], item.length < 2 ^ 64
  decide

omit [Hashing] in
/-- In the slice of a nullable column, `GetItem` reads the empty string as NULL. -/
theorem not_denotes_slice_emptyString :
    letI : Hashing := stringHashing
    ∃ fresh made, ofTyped (emptyDictionary .string true) = .ok fresh ∧
      (afterCalls [.append (some [])] fresh).at? 0 = some (some []) ∧
      (afterCalls [.append (some [])] fresh).item? 0 = some ⟨.string, []⟩ ∧
      (afterCalls [.append (some [])] fresh).slice 0 1 = .ok made ∧
      made.at? 0 = some (some []) ∧ made.item? 0 = some .null ∧
      ¬ Denotes .string made [some []] := by
  let _ : Hashing := stringHashing
  refine ⟨_, _, rfl, rfl, rfl, rfl, rfl, rfl, fun denotes => ?_⟩
  have get := denotes.shows.getItem 0
  exact absurd get (by decide)

end LowCardinality

end ClickHouse
