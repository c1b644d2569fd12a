import ClickHouse.Columns.Refinement

/-!
# Runs over LowCardinality columns

Two `ColumnLowCardinalityT` columns of one type under any sequence of typed
`Append`, `Append` of a column, `Clear` and `Swap`, next to the lists of values
that plain columns would hold.
-/

namespace ClickHouse

open Kit List ItemView LowCardinality LeafType

/-! ## Rows of the columns that are appended -/

/-- Bytes of a column of the type, or NULL if it is nullable. -/
def LeafType.HasItem (type : LeafType) (nullable : Bool) (item : ItemView) : Prop :=
  item = .null ∧ nullable = true ∨ item.type = type.code ∧ type.Accepts item.data

variable {data : Bytes} {n : Nat}

/-- Every row of a leaf column is an item of its type. -/
theorem Leaf.hasItem {leaf : Leaf} (inside : n < leaf.size) (nullable : Bool) :
    ∃ item, leaf.item? n = some item ∧ leaf.type.HasItem nullable item := by
  obtain ⟨data, row⟩ := Leaf.exists_bytes inside
  refine ⟨⟨leaf.type.code, data⟩, ?_, .inr ⟨rfl, Leaf.accepts_bytes row⟩⟩
  rw [Leaf.item?, row]
  rfl

theorem Dictionary.type_iff {dictionary : Dictionary} {type : LeafType} {nullable : Bool}
    (hasType : dictionary.type = if nullable then .nullable (.leaf type) else .leaf type) :
    dictionary.data.type = type ∧ dictionary.nulls.isSome = nullable := by
  obtain ⟨data, nulls⟩ := dictionary
  cases nulls <;> cases nullable <;> cases hasType <;> exact ⟨rfl, rfl⟩

theorem Dictionary.hasItem {dictionary : Dictionary}
    (flags : ∀ nulls, dictionary.nulls = some nulls → nulls.length = dictionary.data.size) {n : Nat}
    (inside : n < dictionary.size) : ∃ item, dictionary.item? n = some item ∧
      dictionary.data.type.HasItem dictionary.nulls.isSome item := by
  obtain ⟨data, nulls⟩ := dictionary
  cases nulls with
  | none => exact Leaf.hasItem inside _
  | some nulls =>
    have below : n < nulls.length := inside
    rw [Dictionary.item?]
    simp only [getElem?_eq_getElem below]
    split
    · exact Leaf.hasItem (flags nulls rfl ▸ below) _
    · exact ⟨.null, rfl, .inl ⟨rfl, rfl⟩⟩

/-- Every row of the column points to a row of its dictionary. -/
structure LowCardinality.Readable (column : LowCardinality) : Prop where
  positions : ∀ position ∈ column.index.column, position.toNat < column.dictionary.size
  flags : ∀ nulls, column.dictionary.nulls = some nulls →
    nulls.length = column.dictionary.data.size

theorem LowCardinality.Consistent.readable {column : LowCardinality}
    (consistent : column.Consistent) : column.Readable :=
  ⟨consistent.1, fun nulls same => (consistent.2 nulls same).1⟩

theorem LowCardinality.Readable.hasItem {column : LowCardinality} (readable : column.Readable)
    (inside : n < column.index.column.length) : ∃ item, column.item? n = some item ∧
      column.dictionary.data.type.HasItem column.dictionary.nulls.isSome item := by
  have within := readable.positions _ (getElem_mem inside)
  rw [item?, dictionaryIndex?, getElem?_eq_getElem inside]
  simp only [Option.map_some]
  split
  · rename_i null
    exact ⟨.null, rfl, .inl ⟨rfl, null.1⟩⟩
  · exact Dictionary.hasItem readable.flags within

/-- The type of the dictionary of a column of values of the type. -/
def dictionaryType (type : LeafType) (nullable : Bool) : Ty :=
  if nullable then .nullable (.leaf type) else .leaf type

/-- A consistent column of the dictionary type or of the LowCardinality type over it. -/
def Column.Feeds (type : LeafType) (nullable : Bool) (source : Column) : Prop :=
  source.Consistent ∧ (source.type = dictionaryType type nullable ∨
    ∃ other, source = .lowCardinality other ∧ other.dictionary.type = dictionaryType type nullable)

/-- The items of all rows of a column. -/
def Column.items (source : Column) : List ItemView :=
  (range source.size).filterMap fun n => (source.getItem n).toOption

variable {source : Column} {item : ItemView} {given : List ItemView}

/-- A column of a leaf type is a leaf, also when it is the adaptor of one. -/
theorem Column.getItem_of_type {type : LeafType} (supported : type.isDictionary)
    (hasType : source.type = .leaf type) : ∃ leaf : Leaf, leaf.type = type ∧
      source.size = leaf.size ∧ ∀ n, source.getItem n = itemOrUndefined (leaf.item? n) := by
  cases source with
  | leaf leaf => exact ⟨leaf, Ty.leaf.inj hasType, rfl, fun _ => rfl⟩
  | adaptor leaf => exact ⟨leaf, Ty.leaf.inj hasType, rfl, fun _ => rfl⟩
  | map data =>
    unfold Column.type getMapType at hasType
    split at hasType
    · cases hasType
    · cases hasType
      cases supported
  | _ => simp [Column.type] at hasType

theorem Column.nullable_of_type {type : LeafType} (hasType : source.type = .nullable (.leaf type)) :
    ∃ nested nulls, source = .nullable nested nulls ∧ nested.type = .leaf type := by
  cases source with
  | nullable nested nulls => exact ⟨nested, nulls, rfl, Ty.nullable.inj hasType⟩
  | map data =>
    unfold Column.type getMapType at hasType
    split at hasType <;> cases hasType
  | _ => simp [Column.type] at hasType

theorem Column.Feeds.hasItem {type : LeafType} {nullable : Bool} {source : Column}
    (supported : type.isDictionary) (feeds : source.Feeds type nullable) {n : Nat}
    (inside : n < source.size) :
    ∃ item, source.getItem n = .ok item ∧ type.HasItem nullable item := by
  obtain ⟨consistent, hasType | ⟨other, rfl, hasType⟩⟩ := feeds
  · cases nullable with
    | false =>
      obtain ⟨leaf, rfl, size, get⟩ := Column.getItem_of_type supported hasType
      obtain ⟨item, row, has⟩ := Leaf.hasItem (size ▸ inside) false
      exact ⟨item, by rw [get, row]; rfl, has⟩
    | true =>
      obtain ⟨nested, nulls, rfl, nestedType⟩ := Column.nullable_of_type hasType
      obtain ⟨leaf, rfl, size, get⟩ := Column.getItem_of_type supported nestedType
      have below : n < nulls.length := inside
      have sizes : leaf.size = nulls.length := size.symm.trans consistent.1
      simp only [Column.getItem, getElem?_eq_getElem below]
      split
      · obtain ⟨item, row, has⟩ := Leaf.hasItem (sizes ▸ below) true
        exact ⟨item, by rw [get, row]; rfl, has⟩
      · exact ⟨.null, rfl, .inl ⟨rfl, rfl⟩⟩
  · obtain ⟨rfl, rfl⟩ := Dictionary.type_iff hasType
    obtain ⟨item, row, has⟩ := Readable.hasItem
      (Consistent.readable consistent) inside
    refine ⟨item, ?_, has⟩
    rw [Column.getItem, row]
    rfl

/-- The rows of a column whose items all exist. -/
theorem forall₂_items {getItem : Nat → Except Error ItemView} {rows : List Nat}
    (defined : ∀ n ∈ rows, ∃ item, getItem n = .ok item) :
    Forall₂ (fun n item => getItem n = .ok item) rows
      (rows.filterMap fun n => (getItem n).toOption) := by
  induction rows with
  | nil => exact .nil
  | cons n rows ih =>
    obtain ⟨item, got⟩ := defined n (mem_cons_self ..)
    have first : (getItem n).toOption = some item := by
      rw [got]
      rfl
    rw [filterMap_cons, first]
    exact .cons got (ih fun m mem => defined m (mem_cons_of_mem _ mem))

theorem Column.Feeds.items {type : LeafType} {nullable : Bool} (supported : type.isDictionary)
    (feeds : source.Feeds type nullable) :
    Forall₂ (fun n item => source.getItem n = .ok item) (range source.size)
        source.items ∧
      ∀ item ∈ source.items, type.HasItem nullable item := by
  have defined (n : Nat) (mem : n ∈ range source.size) :=
    feeds.hasItem supported (mem_range.mp mem)
  refine ⟨forall₂_items fun n mem => (defined n mem).imp fun _ both => both.1, ?_⟩
  intro item mem
  obtain ⟨n, inside, got⟩ := mem_filterMap.mp mem
  obtain ⟨item', row, has⟩ := defined n inside
  rw [row] at got
  cases got
  exact has

/-! ## Operations -/

/-- The types of values that `ColumnLowCardinalityT` takes and returns as their bytes. -/
def LeafType.isValueType : LeafType → Bool
  | .string | .fixedString _ => true
  | .fixed type => type.code ∈ ([.int8, .int16, .int32, .int64, .int128, .uint8, .uint16, .uint32,
      .uint64, .uint128, .float32, .float64] : List Code)
  | _ => false

theorem LeafType.isDictionary_of_isValueType {type : LeafType} (isValue : type.isValueType) :
    type.isDictionary := by
  cases type with
  | string => rfl
  | fixedString size => rfl
  | void => cases isValue
  | json => cases isValue
  | fixed type => cases type <;> first | rfl | cases isValue

/-- A call on one column. -/
inductive Operation
  | append (value : Option Bytes)
  | appendColumn (source : Column)
  | clear

/-- The member function that is called. -/
def Operation.program [Hashing] : Operation → EStateM Error LowCardinality Unit
  | .append value => LowCardinality.appendValue value
  | .appendColumn source => LowCardinality.appendColumn source
  | .clear => LowCardinality.clear

/-- The length a value of the C++ type has. -/
def LeafType.Value : LeafType → Bytes → Prop
  | .fixed type, data => data.length = type.width
  | _, _ => True

/-- The call is well typed: the value is one of the type, and a source is a column of the
dictionary type or of the same LowCardinality type. -/
def Operation.Typed (type : LeafType) (nullable : Bool) : Operation → Prop
  | .append (some data) => type.Value data
  | .append none => nullable = true
  | .appendColumn source => source.Feeds type nullable
  | .clear => True

/-- The call gives values to the column: typed ones for the types whose values have an item, or a
column of the dictionary type or of the same LowCardinality type. -/
def Operation.Appends (type : LeafType) (nullable : Bool) : Operation → Prop
  | .append (some data) => type.isValueType ∧ type.Value data
  | .append none => nullable = true
  | .appendColumn source => source.Feeds type nullable
  | .clear => False

instance (type : LeafType) (data : Bytes) : Decidable (type.Accepts data) :=
  match type with
  | .fixed type => inferInstanceAs (Decidable (data.length = type.width))
  | .fixedString size => inferInstanceAs (Decidable (data.length ≤ size))
  | .void => inferInstanceAs (Decidable True)
  | .string => inferInstanceAs (Decidable True)
  | .json => inferInstanceAs (Decidable True)

/-- The items a call passes on. -/
def Operation.items (type : LeafType) : Operation → List ItemView
  | .append (some data) => [⟨type.code, data⟩]
  | .append none => [.null]
  | .appendColumn source => source.items
  | .clear => []

/-- What a plain column holds after the call: the items in order, without those that are too long
for a `FixedString`. -/
def Operation.apply (type : LeafType) (given : List ItemView) : Operation → List ItemView
  | .append (some data) =>
    if type.Accepts data then given ++ [⟨type.code, data⟩] else given
  | .append none => given ++ [.null]
  | .appendColumn source => given ++ source.items
  | .clear => []

/-! ## One call -/

theorem ItemView.create_value {type : LeafType} (isValue : type.isValueType)
    (value : type.Value data) : create type.code data = .ok ⟨type.code, data⟩ := by
  cases type with
  | string => rfl
  | fixedString size => rfl
  | void => cases isValue
  | json => cases isValue
  | fixed type =>
    have length : data.length = type.width := value
    cases type <;> first | exact if_pos (mem_singleton.mpr length) | cases isValue

/-- A value that is not accepted is a string that is too long, which the dictionary refuses. -/
theorem Dictionary.refuses {dictionary : Dictionary} (sound : dictionary.Sound)
    (value : dictionary.data.type.Value data) (refused : ¬ dictionary.data.type.Accepts data) :
    ∃ e, dictionary.append ⟨dictionary.data.type.code, data⟩ = .error e := by
  obtain ⟨data', nulls⟩ := dictionary
  cases data' with
  | fixedString column =>
    have long : ¬ data.length ≤ column.stringSize := refused
    cases nulls <;>
    · simp only [Dictionary.append, Leaf.type, code, appendToDictionary,
        FixedStrings.append, long, if_false]
      exact ⟨_, rfl⟩
  | fixed type words => exact absurd value refused
  | _ => exact absurd trivial refused

variable {operation : Operation}

namespace LowCardinality

variable [Hashing] {reserved : List ItemView} {type : LeafType} {nullable : Bool}
  {used : Set ItemView}

/-! ### Any width of the index -/

/-- The column of the type was given `items`, and its dictionary holds `stored`. -/
structure Tracks (stored : List ItemView) (type : LeafType) (nullable : Bool) (width : IndexType)
    (column : LowCardinality) (items : List ItemView) : Prop where
  dataType : column.dictionary.data.type = type
  isNullable : column.dictionary.nulls.isSome = nullable
  indexType : column.index.type = width
  points : Points stored column items

section Tracks

variable {stored items : List ItemView} {width : IndexType} {column : LowCardinality}

theorem Tracks.takes (tracks : Tracks stored type nullable width column items)
    (has : type.HasItem nullable item) : column.dictionary.Takes item := by
  rw [Dictionary.Takes, tracks.dataType, tracks.isNullable]
  exact has

/-- `AppendUnsafe` of rows that the column takes. -/
theorem Tracks.appendRows {more : List ItemView}
    (tracks : Tracks stored type nullable width column items)
    (injective : used.InjOn hashKey) (storedWithin : ∀ item ∈ stored, item ∈ used)
    (within : ∀ item ∈ more, item ∈ used) (has : ∀ item ∈ more, type.HasItem nullable item)
    {getItem : Nat → Except Error ItemView} {rows : List Nat}
    (gives : Forall₂ (fun n item => getItem n = .ok item) rows more) :
    ∃ column', Runs (appendRows getItem rows) column () column' ∧
      Tracks (more.foldl intern stored) type nullable width column' (items ++ more) := by
  obtain ⟨column', ran, points, dataType, isNullable, indexType⟩ := tracks.points.appendRows gives
    injective storedWithin within fun item mem => tracks.takes (has item mem)
  exact ⟨column', ran, dataType.trans tracks.dataType, isNullable.trans tracks.isNullable,
    indexType.trans tracks.indexType, points⟩

/-- `AppendUnsafe` of one item that the column takes. -/
theorem Tracks.appendUnsafe (tracks : Tracks stored type nullable width column items)
    (separated : Separated hashKey stored item) (has : type.HasItem nullable item) :
    ∃ column', Runs (appendUnsafe item) column () column' ∧
      Tracks (intern stored item) type nullable width column' (items ++ [item]) := by
  obtain ⟨column', ran, points, dataType, isNullable, indexType⟩ :=
    tracks.points.accepts separated (tracks.takes has)
  exact ⟨column', ran, dataType.trans tracks.dataType, isNullable.trans tracks.isNullable,
    indexType.trans tracks.indexType, points⟩

/-- A value that is too long for a `FixedString` is refused and changes nothing. -/
theorem Keyed.refuses_long (keyed : Keyed stored column.dictionary column.uniqueItems)
    (dataType : column.dictionary.data.type = type)
    (separated : Separated hashKey stored ⟨type.code, data⟩) (value : type.Value data)
    (refused : ¬ type.Accepts data) :
    ∃ e, Throws (appendUnsafe ⟨type.code, data⟩) column e column := by
  subst dataType
  obtain ⟨e, thrown⟩ := Dictionary.refuses keyed.sound value refused
  refine ⟨e, keyed.refuses separated ?_ thrown⟩
  intro isStored
  rcases keyed.taken _ isStored with ⟨null, _⟩ | ⟨_, accepts⟩
  · exact code_of_isDictionary keyed.sound.supported (congrArg type null)
  · exact refused accepts

/-- `Append` does not ignore a source of the right type. -/
theorem runs_appendColumn {column' : LowCardinality}
    (dataType : column.dictionary.data.type = type)
    (isNullable : column.dictionary.nulls.isSome = nullable) (feeds : source.Feeds type nullable)
    (ran : Runs (appendRows source.getItem (range source.size)) column ()
      column') : Runs (appendColumn source) column () column' := by
  have own : column.dictionary.type = dictionaryType type nullable := by
    rw [Dictionary.type, ← dataType, ← isNullable, dictionaryType]
    cases column.dictionary.nulls <;> rfl
  refine (runs_get column).bind ?_
  obtain ⟨_, same | ⟨other, rfl, same⟩⟩ := feeds
  · dsimp only
    rw [own, same, Ty.isEqual_self, Bool.or_true, if_pos rfl]
    exact ran
  · dsimp only
    rw [own, same, Ty.isEqual_self, Bool.true_or, if_pos rfl]
    exact ran

/-- After every call that gives values, the column has those that a plain column would take. -/
theorem Tracks.append {operation : Operation}
    (tracks : Tracks stored type nullable width column items) (supported : type.isDictionary)
    (appends : operation.Appends type nullable) (injective : used.InjOn hashKey)
    (storedWithin : ∀ item ∈ stored, item ∈ used)
    (within : ∀ item ∈ operation.items type, item ∈ used) :
    Tracks ((operation.apply type []).foldl intern stored) type nullable width
      (after operation.program column) (items ++ operation.apply type []) := by
  have separated {item : ItemView} (mem : item ∈ operation.items type) :
      Separated hashKey stored item :=
    fun other isStored same => injective (storedWithin other isStored) (within item mem) same
  cases operation with
  | append value =>
    cases value with
    | none =>
      obtain ⟨column', ran, tracks'⟩ := tracks.appendUnsafe
        (separated (mem_singleton_self _)) (.inl ⟨rfl, appends⟩)
      have called : Runs (Operation.append none).program column () column' :=
        (runs_get column).bind ran
      rw [called.after_eq]
      exact tracks'
    | some data =>
      obtain ⟨isValue, value⟩ := appends
      have created : create column.dictionary.data.type.code data =
          .ok ⟨type.code, data⟩ := by
        rw [tracks.dataType]
        exact create_value isValue value
      have apart := separated (mem_singleton_self _)
      by_cases accepts : type.Accepts data
      · rw [Operation.apply, if_pos accepts]
        obtain ⟨column', ran, tracks'⟩ := tracks.appendUnsafe apart (.inr ⟨rfl, accepts⟩)
        have called : Runs (Operation.append (some data)).program column () column' :=
          (runs_get column).bind ((runs_ofExcept created column).bind ran)
        rw [called.after_eq]
        exact tracks'
      · rw [Operation.apply, if_neg accepts, append_nil]
        obtain ⟨e, thrown⟩ :=
          tracks.points.keyed.refuses_long tracks.dataType apart value accepts
        have called : Throws (Operation.append (some data)).program column e column :=
          (runs_get column).bind_throws ((runs_ofExcept created column).bind_throws thrown)
        rw [called.after_eq]
        exact tracks
  | appendColumn source =>
    obtain ⟨gives, has⟩ := appends.items supported
    obtain ⟨column', ran, tracks'⟩ :=
      tracks.appendRows injective storedWithin within has gives
    have called : Runs (Operation.appendColumn source).program column () column' :=
      runs_appendColumn tracks.dataType tracks.isNullable appends ran
    rw [called.after_eq]
    exact tracks'
  | clear => cases appends

omit [Hashing] in
theorem apply_eq_append {call : Operation} (appends : call.Appends type nullable)
    (given : List ItemView) : call.apply type given = given ++ call.apply type [] := by
  cases call with
  | append value =>
    cases value with
    | none => rfl
    | some data =>
      rw [Operation.apply, Operation.apply]
      split
      · rfl
      · exact (append_nil given).symm
  | appendColumn source => rfl
  | clear => cases appends

end Tracks

/-! ### An index of 32 bits -/

/-- The items the column was given or reserved are all told apart by their keys. -/
def Within (reserved : List ItemView) (used : Set ItemView) (given : List ItemView) : Prop :=
  ∀ item ∈ reserved ++ given, item ∈ used

omit [Hashing] in
theorem Within.stored {more : List ItemView} (within : Within reserved used (given ++ more)) :
    ∀ item ∈ given.foldl intern reserved, item ∈ used := by
  intro item mem
  refine within item ?_
  rw [← append_assoc]
  exact mem_append_left _ (mem_foldl_intern mem)

omit [Hashing] in
theorem Within.more {given more : List ItemView}
    (within : Within reserved used (given ++ more)) : ∀ item ∈ more, item ∈ used :=
  fun item mem => within item (mem_append_right _ (mem_append_right _ mem))

theorem Grown.tracks {column : LowCardinality} (grown : Grown reserved type nullable column given) :
    Tracks (given.foldl intern reserved) type nullable .uint32 column given :=
  ⟨grown.dataType, grown.isNullable, grown.holds.width, grown.holds.points⟩

theorem Tracks.grown {column : LowCardinality}
    (tracks : Tracks (given.foldl intern reserved) type nullable .uint32 column given)
    (room : (given.foldl intern reserved).length ≤ 2 ^ 32) :
    Grown reserved type nullable column given :=
  ⟨tracks.dataType, tracks.isNullable, tracks.points.holds tracks.indexType room⟩

/-- After every call that gives values, the column has those that a plain column would take. -/
theorem Grown.append {column : LowCardinality} {given : List ItemView} {operation : Operation}
    (grown : Grown reserved type nullable column given) (supported : type.isDictionary)
    (appends : operation.Appends type nullable) (injective : used.InjOn hashKey)
    (within : Within reserved used (given ++ operation.items type))
    (room : ((operation.apply type given).foldl intern reserved).length ≤ 2 ^ 32) :
    Grown reserved type nullable (after operation.program column) (operation.apply type given) := by
  have tracks := grown.tracks.append supported appends injective within.stored within.more
  rw [← foldl_append, ← apply_eq_append appends] at tracks
  exact tracks.grown room

theorem Represents.clear {column : LowCardinality}
    (represents : Represents type nullable column given)
    (notNull : type.zeroItem.hashKey ≠ null.hashKey) :
    ∃ column', Runs clear column () column' ∧
      Represents type nullable column' [] := by
  obtain ⟨dictionary, ⟨width, index⟩, uniqueItems⟩ := column
  obtain ⟨dataType, isNullable, holds⟩ := represents
  have narrow : width = .uint32 := holds.width
  subst narrow
  have dataType' : dictionary.cloneEmpty.data.type = type :=
    (Leaf.type_cloneEmpty _).trans dataType
  have isNullable' : dictionary.cloneEmpty.nulls.isSome = nullable := by
    rw [← isNullable]
    simp [Dictionary.cloneEmpty]
  have blank : Holds [] ⟨dictionary.cloneEmpty, ⟨.uint32, []⟩, []⟩ [] := holds_blank holds.sound
  obtain ⟨column', ran, represents'⟩ := represents_reserved blank (by rw [dataType']; exact notNull)
  rw [dataType', isNullable'] at represents'
  exact ⟨column', (runs_modify _ _).bind ((runs_get _).bind ran), represents'⟩

/-- After every well-typed call the column represents what a plain column holds. -/
theorem Represents.step {column : LowCardinality}
    (represents : Represents type nullable column given) (isValue : type.isValueType)
    (typed : operation.Typed type nullable) (injective : used.InjOn hashKey)
    (within : Within (reservedItems type nullable) used (given ++ operation.items type))
    (notNull : type.zeroItem.hashKey ≠ null.hashKey)
    (room : ((operation.apply type given).foldl intern (reservedItems type nullable)).length ≤
      2 ^ 32) :
    Represents type nullable (after operation.program column) (operation.apply type given) := by
  have supported := isDictionary_of_isValueType isValue
  cases operation with
  | append value =>
    have appends : (Operation.append value).Appends type nullable := by
      cases value with
      | none => exact typed
      | some data => exact ⟨isValue, typed⟩
    exact represents.append supported appends injective within room
  | appendColumn source =>
    have appends : (Operation.appendColumn source).Appends type nullable := typed
    exact represents.append supported appends injective within room
  | clear =>
    obtain ⟨column', ran, represents'⟩ := represents.clear notNull
    rw [show after Operation.clear.program column = column' from ran.after_eq]
    exact represents'

end LowCardinality

/-! ## Two columns -/

/-- A call on one of two columns, or a swap of them. -/
inductive Command
  | left (operation : Operation)
  | right (operation : Operation)
  | swap

def Command.exec [Hashing] : Command → LowCardinality × LowCardinality →
    LowCardinality × LowCardinality
  | .left operation, (l, r) => (after operation.program l, r)
  | .right operation, (l, r) => (l, after operation.program r)
  | .swap, (l, r) =>
    match LowCardinality.swap l r with
    | .ok swapped => swapped
    | .error _ => (l, r)

/-- What two plain columns hold after the call. -/
def Command.apply (type : LeafType) : Command → List ItemView × List ItemView →
    List ItemView × List ItemView
  | .left operation, (l, r) => (operation.apply type l, r)
  | .right operation, (l, r) => (l, operation.apply type r)
  | .swap, (l, r) => (r, l)

def Command.Typed (type : LeafType) (nullable : Bool) : Command → Prop
  | .left operation => operation.Typed type nullable
  | .right operation => operation.Typed type nullable
  | .swap => True

def Command.items (type : LeafType) : Command → List ItemView
  | .left operation => operation.items type
  | .right operation => operation.items type
  | .swap => []

def runCommands [Hashing] (commands : List Command) (columns : LowCardinality × LowCardinality) :
    LowCardinality × LowCardinality :=
  commands.foldl (fun columns command => command.exec columns) columns

def runPlain (type : LeafType) (commands : List Command) : List ItemView × List ItemView :=
  commands.foldl (fun plain command => command.apply type plain) ([], [])

/-- All items the columns meet: the reserved ones and those of the calls. -/
def usedItems (type : LeafType) (nullable : Bool) (commands : List Command) : List ItemView :=
  reservedItems type nullable ++ commands.flatMap (Command.items type)

/-- The pair of hashes is injective on the values, and never that of NULL. -/
structure HashesApart [Hashing] (items : List ItemView) : Prop where
  injective : ∀ a ∈ items, ∀ b ∈ items, a.type ≠ .void → b.type ≠ .void →
    Hashing.itemKey a.data = Hashing.itemKey b.data → a.data = b.data
  nonzero : ∀ a ∈ items, a.type ≠ .void → Hashing.itemKey a.data ≠ (0, 0)

theorem HashesApart.injOn [Hashing] {items : List ItemView} {code : Code} (apart : HashesApart items)
    (isValue : code ≠ .void) (kind : ∀ item ∈ items, item = .null ∨ item.type = code) :
    Set.InjOn hashKey { item | item ∈ items } := by
  have nullKey : null.hashKey = (0, 0) := rfl
  have keyOf {item : ItemView} (type : item.type = code) :
      item.hashKey = Hashing.itemKey item.data := if_neg (type ▸ isValue)
  have differs {item : ItemView} (mem : item ∈ items) (type : item.type = code) :
      item.hashKey ≠ (0, 0) := by
    rw [keyOf type]
    exact apart.nonzero item mem (type ▸ isValue)
  intro a isA b isB same
  rcases kind a isA with rfl | aType
  · rcases kind b isB with rfl | bType
    · rfl
    · exact absurd (same.symm.trans nullKey) (differs isB bType)
  · rcases kind b isB with rfl | bType
    · exact absurd (same.trans nullKey) (differs isA aType)
    · rw [keyOf aType, keyOf bType] at same
      have data := apart.injective a isA b isB (aType ▸ isValue) (bType ▸ isValue) same
      obtain ⟨typeA, dataA⟩ := a
      obtain ⟨typeB, dataB⟩ := b
      cases aType
      cases bType
      cases data
      rfl

theorem Operation.mem_apply {type : LeafType} (mem : item ∈ operation.apply type given) :
    item ∈ given ++ operation.items type := by
  cases operation with
  | append value =>
    cases value with
    | none => exact mem
    | some data =>
      rw [Operation.apply] at mem
      split at mem
      · exact mem
      · exact mem_append_left _ mem
  | appendColumn source => exact mem
  | clear => cases mem

namespace LowCardinality

variable [Hashing] {type : LeafType} {nullable : Bool} {used : Set ItemView}

/-- Both columns represent what the plain columns hold. -/
def RepresentBoth (type : LeafType) (nullable : Bool) (columns : LowCardinality × LowCardinality)
    (plain : List ItemView × List ItemView) : Prop :=
  Represents type nullable columns.1 plain.1 ∧ Represents type nullable columns.2 plain.2

/-- Both dictionaries fit the width of the index column. -/
def Room (type : LeafType) (nullable : Bool) (plain : List ItemView × List ItemView) : Prop :=
  (plain.1.foldl intern (reservedItems type nullable)).length ≤ 2 ^ 32 ∧
    (plain.2.foldl intern (reservedItems type nullable)).length ≤ 2 ^ 32

/-- `Swap` of two columns that represent plain columns of one type. -/
theorem Represents.swap {left right : LowCardinality} {given' : List ItemView}
    (represents : Represents type nullable left given)
    (represents' : Represents type nullable right given') :
    swap left right = .ok (right, left) := by
  have same : left.dictionary.type = right.dictionary.type :=
    Dictionary.type_mk (represents.dataType.trans represents'.dataType.symm)
      (represents.isNullable.trans represents'.isNullable.symm)
  rw [LowCardinality.swap, same, Ty.isEqual_self, if_pos rfl]

omit [Hashing] in
theorem Within.items {operation : Operation} {given : List ItemView}
    (reserved : ∀ item ∈ reservedItems type nullable, item ∈ used)
    (within : ∀ item ∈ given, item ∈ used) (items : ∀ item ∈ operation.items type, item ∈ used) :
    Within (reservedItems type nullable) used (given ++ operation.items type) := by
  intro item mem
  rcases mem_append.mp mem with isReserved | mem
  · exact reserved item isReserved
  · rcases mem_append.mp mem with old | new
    · exact within item old
    · exact items item new

/-- One command. -/
theorem RepresentBoth.step {columns : LowCardinality × LowCardinality}
    {plain : List ItemView × List ItemView} {command : Command}
    (both : RepresentBoth type nullable columns plain) (isValue : type.isValueType)
    (typed : command.Typed type nullable) (injective : used.InjOn hashKey)
    (notNull : type.zeroItem.hashKey ≠ null.hashKey)
    (reserved : ∀ item ∈ reservedItems type nullable, item ∈ used)
    (within : ∀ item ∈ plain.1 ++ plain.2, item ∈ used)
    (items : ∀ item ∈ command.items type, item ∈ used)
    (room : Room type nullable (command.apply type plain)) :
    RepresentBoth type nullable (command.exec columns) (command.apply type plain) ∧
      ∀ item ∈ (command.apply type plain).1 ++ (command.apply type plain).2, item ∈ used := by
  obtain ⟨l, r⟩ := columns
  obtain ⟨given, given'⟩ := plain
  obtain ⟨left, right⟩ := both
  have leftWithin : ∀ item ∈ given, item ∈ used := fun item mem =>
    within item (mem_append_left _ mem)
  have rightWithin : ∀ item ∈ given', item ∈ used := fun item mem =>
    within item (mem_append_right _ mem)
  cases command with
  | left operation =>
    have applied := Within.items reserved leftWithin items
    refine ⟨⟨left.step isValue typed injective applied notNull room.1, right⟩, ?_⟩
    intro item mem
    rcases mem_append.mp mem with new | old
    · exact applied item (mem_append_right _ (Operation.mem_apply new))
    · exact rightWithin item old
  | right operation =>
    have applied := Within.items reserved rightWithin items
    refine ⟨⟨left, right.step isValue typed injective applied notNull room.2⟩, ?_⟩
    intro item mem
    rcases mem_append.mp mem with old | new
    · exact leftWithin item old
    · exact applied item (mem_append_right _ (Operation.mem_apply new))
  | swap =>
    rw [Command.exec, left.swap right]
    refine ⟨⟨right, left⟩, ?_⟩
    intro item mem
    exact within item (mem_append.mpr (mem_append.mp mem).symm)

variable {commands : List Command}

/-- Every run of commands. -/
theorem RepresentBoth.run {columns : LowCardinality × LowCardinality}
    {plain : List ItemView × List ItemView} (both : RepresentBoth type nullable columns plain)
    (isValue : type.isValueType) (typed : ∀ command ∈ commands, command.Typed type nullable)
    (injective : used.InjOn hashKey)
    (notNull : type.zeroItem.hashKey ≠ null.hashKey)
    (reserved : ∀ item ∈ reservedItems type nullable, item ∈ used)
    (within : ∀ item ∈ plain.1 ++ plain.2, item ∈ used)
    (items : ∀ command ∈ commands, ∀ item ∈ command.items type, item ∈ used)
    (room : ∀ n, Room type nullable
      ((commands.take n).foldl (fun plain command => command.apply type plain) plain)) :
    RepresentBoth type nullable (runCommands commands columns)
      (commands.foldl (fun plain command => command.apply type plain) plain) := by
  induction commands generalizing columns plain with
  | nil => exact both
  | cons command commands ih =>
    have first := mem_cons_self (a := command) (l := commands)
    have others {other : Command} (mem : other ∈ commands) : other ∈ command :: commands :=
      mem_cons_of_mem _ mem
    obtain ⟨both', within'⟩ := both.step isValue (typed command first) injective notNull reserved
      within (items command first) (room 1)
    exact ih both' (fun other mem => typed other (others mem)) within'
      (fun other mem => items other (others mem)) fun n => room (n + 1)

/-! ## From the constructors on -/

/-- The empty dictionary column that is passed to the constructor. -/
def emptyDictionary (type : LeafType) (nullable : Bool) : Dictionary :=
  ⟨type.emptyColumn, if nullable then some [] else none⟩

omit [Hashing] in
theorem sound_emptyDictionary (supported : type.isDictionary) (positive : type.Positive)
    (nullable : Bool) : (emptyDictionary type nullable).Sound := by
  have hasType : (emptyDictionary type nullable).data.type = type := type.type_emptyColumn
  refine ⟨by rw [hasType]; exact supported, by rw [hasType]; exact positive,
    type.aligned_emptyColumn, ?_⟩
  intro nulls same
  cases nullable with
  | false => cases same
  | true =>
    cases same
    exact type.size_emptyColumn.symm

/-- The constructors of `ColumnLowCardinalityT` make a column without rows. -/
theorem exists_ofTyped (supported : type.isDictionary) (positive : type.Positive)
    (nullable : Bool) (notNull : type.zeroItem.hashKey ≠ null.hashKey) :
    ∃ column, ofTyped (emptyDictionary type nullable) = .ok column ∧
      Represents type nullable column [] := by
  have blank := holds_blank (sound_emptyDictionary supported positive nullable)
  have dataType : (emptyDictionary type nullable).cloneEmpty.data.type = type :=
    (Leaf.type_cloneEmpty _).trans type.type_emptyColumn
  have isNullable : (emptyDictionary type nullable).cloneEmpty.nulls.isSome = nullable := by
    cases nullable <;> rfl
  obtain ⟨column, ran, represents⟩ := represents_reserved blank (by rw [dataType]; exact notNull)
  rw [dataType, isNullable] at represents
  rw [isNullable] at ran
  refine ⟨column, ?_, represents⟩
  have empty : (emptyDictionary type nullable).size = 0 := by
    cases nullable with
    | false => exact type.size_emptyColumn
    | true => rfl
  have noRows : Runs (appendRows
      (fun n => itemOrUndefined ((emptyDictionary type nullable).item? n))
      (range (emptyDictionary type nullable).size)) column () column := by
    rw [empty]
    exact runs_pure _ _
  cases nullable with
  | false => exact construct_of_runs (ran.bind noRows)
  | true =>
    obtain ⟨_, null, ranNull, ranDefault⟩ := runs_bind_iff.mp ran
    exact construct_of_runs (ranNull.bind (ranDefault.bind noRows))

/-- `Size`, `At` and `GetItem` are those of a plain column with the given rows. -/
structure Shows (type : LeafType) (column : LowCardinality) (rows : List (Option Bytes)) : Prop where
  size : (Column.lowCardinality column).size = rows.length
  typedAt : ∀ n, column.at? n = rows[n]?
  getItem : ∀ n, column.item? n = (rows[n]?).map (itemOf type.code)

theorem Represents.shows {column : LowCardinality}
    (represents : Represents type nullable column given) :
    Shows type column (given.map type.valueOf) := by
  obtain ⟨rfl, isNullable, holds⟩ := represents
  refine ⟨holds.length.trans (length_map _).symm, ?_, ?_⟩
  · intro n
    rw [holds.at?, getElem?_map]
  · intro n
    rw [holds.item?, getElem?_map, Option.map_map]
    cases found : given[n]? with
    | none => rfl
    | some item =>
      simp only [Option.map_some, Function.comp_apply]
      split
      · rename_i null
        -- The item at position 0 of a nullable dictionary is the reserved NULL.
        have first := getElem?_idxOf (holds.known item (mem_of_getElem? found))
        rw [null.2, ← isNullable, null.1] at first
        have isNull := (getElem?_zero_foldl_intern given _ _).symm.trans first
        cases isNull
        rfl
      · rfl

omit [Hashing] in
theorem kind_of_typed (supported : type.isDictionary) (typed : operation.Typed type nullable) :
    ∀ item ∈ operation.items type, item = .null ∨ item.type = type.code := by
  intro item mem
  cases operation with
  | append value =>
    cases value with
    | none => exact .inl (mem_singleton.mp mem)
    | some data => exact .inr (congrArg ItemView.type (mem_singleton.mp mem))
  | appendColumn source =>
    rcases (typed.items supported).2 item mem with ⟨null, _⟩ | ⟨same, _⟩
    · exact .inl null
    · exact .inr same
  | clear => cases mem

omit [Hashing] in
theorem kind_of_used (supported : type.isDictionary)
    (typed : ∀ command ∈ commands, command.Typed type nullable) :
    ∀ item ∈ usedItems type nullable commands, item = .null ∨ item.type = type.code := by
  intro item mem
  rcases mem_append.mp mem with isReserved | mem
  · rw [reservedItems] at isReserved
    split at isReserved
    · rcases mem_cons.mp isReserved with null | zero
      · exact .inl null
      · exact .inr (congrArg ItemView.type (mem_singleton.mp zero))
    · exact .inr (congrArg ItemView.type (mem_singleton.mp isReserved))
  · obtain ⟨command, isCommand, mem⟩ := mem_flatMap.mp mem
    have typed := typed command isCommand
    cases command with
    | left operation => exact kind_of_typed supported typed item mem
    | right operation => exact kind_of_typed supported typed item mem
    | swap => cases mem

/-- The distinct values a column holds, the reserved ones among them. -/
def distinctCount (type : LeafType) (nullable : Bool) (given : List ItemView) : Nat :=
  (reservedItems type nullable ++ given).dedup.length

theorem notNull_of_apart (supported : type.isDictionary)
    (apart : HashesApart (usedItems type nullable commands)) :
    type.zeroItem.hashKey ≠ null.hashKey := by
  have notVoid := zeroItem_type supported
  have reserved : type.zeroItem ∈ reservedItems type nullable := by
    cases nullable <;> simp [reservedItems]
  have key : type.zeroItem.hashKey = Hashing.itemKey type.zeroItem.data := if_neg notVoid
  rw [key]
  exact apart.nonzero _ (mem_append_left _ reserved) notVoid

omit [Hashing] in
theorem nodup_reservedItems (supported : type.isDictionary) (nullable : Bool) :
    (reservedItems type nullable).Nodup := by
  cases nullable with
  | false => exact nodup_singleton _
  | true =>
    refine nodup_cons.mpr ⟨?_, nodup_singleton _⟩
    intro mem
    exact zeroItem_type supported (congrArg ItemView.type (mem_singleton.mp mem)).symm

omit [Hashing] in
theorem room_of_distinctCount (supported : type.isDictionary)
    (few : distinctCount type nullable given ≤ 2 ^ 32) :
    (given.foldl intern (reservedItems type nullable)).length ≤ 2 ^ 32 :=
  (length_le_dedup (nodup_foldl_intern (nodup_reservedItems supported nullable) given)
    fun _ mem => mem_foldl_intern mem).trans few

/-- The two columns of a run from their construction on. -/
theorem represents_run (isValue : type.isValueType) (positive : type.Positive)
    (typed : ∀ command ∈ commands, command.Typed type nullable)
    (apart : HashesApart (usedItems type nullable commands))
    (room : ∀ n, Room type nullable (runPlain type (commands.take n))) :
    ∃ column, ofTyped (emptyDictionary type nullable) = .ok column ∧
      RepresentBoth type nullable (runCommands commands (column, column))
        (runPlain type commands) := by
  have supported := isDictionary_of_isValueType isValue
  have notNull := notNull_of_apart supported apart
  obtain ⟨column, made, represents⟩ := exists_ofTyped supported positive nullable notNull
  have start : RepresentBoth type nullable (column, column) ([], []) := ⟨represents, represents⟩
  refine ⟨column, made, start.run isValue typed
    (apart.injOn (code_of_isDictionary supported) (kind_of_used supported typed)) notNull
    (fun item mem => mem_append_left _ mem) nofun ?_ room⟩
  intro command isCommand item mem
  exact mem_append_right _ (mem_flatMap.mpr ⟨command, isCommand, mem⟩)

/-- After every sequence of calls, the rows of both columns are those of plain columns that
received the same calls, as long as the values and the reserved items that a column holds are at
most `2 ^ 32` different ones. -/
theorem shows_runCommands (isValue : type.isValueType) (positive : type.Positive)
    {commands : List Command} (typed : ∀ command ∈ commands, command.Typed type nullable)
    (apart : HashesApart (usedItems type nullable commands))
    (few : ∀ n, distinctCount type nullable (runPlain type (commands.take n)).1 ≤ 2 ^ 32 ∧
      distinctCount type nullable (runPlain type (commands.take n)).2 ≤ 2 ^ 32) :
    ∃ column, ofTyped (emptyDictionary type nullable) = .ok column ∧
      Shows type (runCommands commands (column, column)).1
        ((runPlain type commands).1.map type.valueOf) ∧
      Shows type (runCommands commands (column, column)).2
        ((runPlain type commands).2.map type.valueOf) := by
  have supported := isDictionary_of_isValueType isValue
  have room (n : Nat) : Room type nullable (runPlain type (commands.take n)) :=
    ⟨room_of_distinctCount supported (few n).1, room_of_distinctCount supported (few n).2⟩
  obtain ⟨column, made, left, right⟩ := represents_run isValue positive typed apart room
  exact ⟨column, made, left.shows, right.shows⟩

/-- Hashes that tell the strings of up to eight bytes apart. -/
@[reducible] def stringHashing : Hashing :=
  ⟨fun data => (UInt64.ofNat (data.length + 1), UInt64.ofNat (decodeLE data)), fun _ _ => 1⟩

/-- `Nullable(FixedString(3))` with the rows NULL and `'ab\0'`. -/
def sampleSource : Column :=
  .nullable (.leaf (.fixedString ⟨3, [0, 0, 0, 97, 98, 0]⟩)) [Word.ofNat 1 1, Word.ofNat 1 0]

def sampleCommands : List Command :=
  [.left (.append (some (ascii "zz"))), .left .clear, .left (.append (some (ascii "ab"))),
    .left (.append none), .left (.append (some [])), .left (.append (some (ascii "abcd"))),
    .right (.append (some (ascii "x"))), .left (.appendColumn sampleSource), .swap]

omit [Hashing] in
theorem shows_runCommands_sampleCommands :
    letI : Hashing := stringHashing
    ∃ column, ofTyped (emptyDictionary (.fixedString 3) true) = .ok column ∧
      Shows (.fixedString 3) (runCommands sampleCommands (column, column)).1
        [some [120, 0, 0]] ∧
      Shows (.fixedString 3) (runCommands sampleCommands (column, column)).2
        [some [97, 98, 0], none, some [0, 0, 0], none, some [97, 98, 0]] := by
  let _ : Hashing := stringHashing
  have feeds : sampleSource.Feeds (.fixedString 3) true := ⟨⟨rfl, trivial⟩, .inl rfl⟩
  have typed : ∀ command ∈ sampleCommands, command.Typed (.fixedString 3) true := by
    simp only [sampleCommands, forall_mem_cons]
    exact ⟨trivial, trivial, trivial, rfl, trivial, trivial, trivial, feeds, trivial, nofun⟩
  have apart : HashesApart (usedItems (.fixedString 3) true sampleCommands) :=
    ⟨by decide +kernel, by decide +kernel⟩
  have prefixes : ∀ n < 10,
      distinctCount (.fixedString 3) true
          (runPlain (.fixedString 3) (sampleCommands.take n)).1 ≤ 2 ^ 32 ∧
        distinctCount (.fixedString 3) true
          (runPlain (.fixedString 3) (sampleCommands.take n)).2 ≤ 2 ^ 32 := by
    decide +kernel
  have positive : (fixedString 3).Positive := Nat.succ_pos 2
  refine shows_runCommands rfl positive typed apart fun n => ?_
  by_cases short : n < 10
  · exact prefixes n short
  · have whole : sampleCommands.take n = sampleCommands.take 9 :=
      (take_of_length_le (show 9 ≤ n by omega)).trans (take_of_length_le le_rfl).symm
    rw [whole]
    exact prefixes 9 (by decide)

/-! ## A full dictionary

The reserved items take positions of the dictionary, too: a nullable column cannot hold
`2 ^ 32 - 1` values if NULL and the default value are not among them. -/

/-- The position of one item more than the index column can address wraps around to 0. -/
theorem Represents.wraps {column : LowCardinality}
    (represents : Represents type nullable column given)
    (separated : Separated hashKey
      (given.foldl intern (reservedItems type nullable)) item)
    (fresh : item ∉ given.foldl intern (reservedItems type nullable))
    (has : type.HasItem nullable item) {first : ItemView}
    (atZero : (given.foldl intern (reservedItems type nullable))[0]? = some first)
    (full : (given.foldl intern (reservedItems type nullable)).length = 2 ^ 32) :
    ∃ column', Runs (appendUnsafe item) column () column' ∧
      column'.at? given.length = some (type.valueOf first) := by
  obtain ⟨column', ran, tracks⟩ := represents.tracks.appendUnsafe separated has
  refine ⟨column', ran, ?_⟩
  have position : (intern (given.foldl intern (reservedItems type nullable)) item).idxOf item =
      2 ^ 32 := by
    rw [intern, if_neg fresh, idxOf_append_of_notMem fresh, full, idxOf_cons_self,
      Nat.add_zero]
  have start : (intern (given.foldl intern (reservedItems type nullable)) item)[0]? =
      some first := by
    rw [intern, if_neg fresh, getElem?_append_left (by rw [full]; decide), atZero]
  have wrapped : 2 ^ 32 % 256 ^ IndexType.uint32.width = 0 := by decide
  rw [tracks.points.at?, getElem?_concat_length, tracks.indexType, Option.bind_some, position,
    wrapped, ← tracks.dataType]
  exact tracks.points.keyed.values 0 first start

end LowCardinality

namespace LowCardinality

/-- Hashes that tell all values of eight bytes apart. -/
@[reducible] def countingHashing : Hashing := ⟨fun data => (1, UInt64.ofNat (decodeLE data)), fun _ _ => 1⟩

theorem hashesApart_counting {items : List ItemView}
    (length : ∀ item ∈ items, item.type ≠ .void → item.data.length = 8) :
    @HashesApart countingHashing items := by
  let _ := countingHashing
  constructor
  · intro a isA b isB aValue bValue same
    have small (item : ItemView) (mem : item ∈ items) (value : item.type ≠ .void) :
        decodeLE item.data < 2 ^ 64 := by
      have bound := decodeLE_lt item.data
      rw [length item mem value] at bound
      exact bound
    have keys : UInt64.ofNat (decodeLE a.data) = UInt64.ofNat (decodeLE b.data) :=
      congrArg Prod.snd same
    have numbers := congrArg UInt64.toNat keys
    rw [UInt64.toNat_ofNat_of_lt' (small a isA aValue),
      UInt64.toNat_ofNat_of_lt' (small b isB bValue)] at numbers
    rw [← encodeLE_decodeLE a.data, ← encodeLE_decodeLE b.data, numbers, length a isA aValue,
      length b isB bValue]
  · intro a _ _ zero
    have first : (1 : UInt64) = 0 := congrArg Prod.fst zero
    exact absurd first (by decide)

/-- The values 1, 2, … as calls and as items. -/
def countUp (n : Nat) : List Command :=
  (range n).map fun i => .left (.append (some (encodeLE 8 (i + 1))))

def countedItem (i : Nat) : ItemView := ⟨.uint64, encodeLE 8 (i + 1)⟩

theorem countUp_succ (n : Nat) :
    countUp (n + 1) = countUp n ++ [.left (.append (some (encodeLE 8 (n + 1))))] := by
  rw [countUp, range_succ, map_append, map_singleton, countUp]

theorem runPlain_countUp (n : Nat) :
    runPlain (.fixed .uint64) (countUp n) = ((range n).map countedItem, []) := by
  induction n with
  | zero => rfl
  | succ n ih =>
    rw [countUp_succ, runPlain, foldl_append, ← runPlain, ih, range_succ,
      map_append, map_singleton]
    have fits : (fixed .uint64).Accepts (encodeLE 8 (n + 1)) := length_encodeLE 8 (n + 1)
    simp only [foldl_cons, foldl_nil, Command.apply, Operation.apply, if_pos fits]
    rfl

theorem take_countUp (n m : Nat) : (countUp n).take m = countUp (min m n) := by
  rw [countUp, ← map_take, take_range, countUp]

theorem typed_countUp (n : Nat) : ∀ command ∈ countUp n, command.Typed (.fixed .uint64) true := by
  intro command mem
  obtain ⟨i, _, rfl⟩ := mem_map.mp mem
  exact length_encodeLE 8 (i + 1)

theorem apart_countUp (n : Nat) :
    @HashesApart countingHashing (usedItems (.fixed .uint64) true (countUp n)) := by
  refine hashesApart_counting ?_
  intro item mem value
  rcases mem_append.mp mem with isReserved | mem
  · rcases mem_cons.mp isReserved with rfl | zero
    · exact absurd rfl value
    · rw [mem_singleton.mp zero]
      rfl
  · obtain ⟨command, isCommand, mem⟩ := mem_flatMap.mp mem
    obtain ⟨i, _, rfl⟩ := mem_map.mp isCommand
    rw [mem_singleton.mp mem]
    exact length_encodeLE 8 (i + 1)

/-- The counted items are different from each other and from the reserved ones. -/
theorem nodup_counted (small : n < 2 ^ 64) :
    (reservedItems (.fixed .uint64) true ++ (range n).map countedItem).Nodup := by
  have number {i : Nat} (inside : i < n) : decodeLE (countedItem i).data = i + 1 :=
    decodeLE_encodeLE (by omega)
  refine nodup_append.mpr ⟨nodup_reservedItems rfl true, ?_, ?_⟩
  · refine Nodup.map_on ?_ nodup_range
    intro i isI j isJ same
    have numbers := congrArg (fun item => decodeLE item.data) same
    simp only [number (mem_range.mp isI), number (mem_range.mp isJ)] at numbers
    omega
  · intro item isReserved other isCounted same
    subst same
    obtain ⟨i, isI, rfl⟩ := mem_map.mp isCounted
    rcases mem_cons.mp isReserved with null | zero
    · have types : Code.uint64 = .void := congrArg type null
      cases types
    · have numbers := congrArg (fun item => decodeLE item.data) (mem_singleton.mp zero)
      simp only [number (mem_range.mp isI)] at numbers
      have zeroNumber : decodeLE (fixed .uint64).zeroItem.data = 0 := by decide
      omega

theorem stored_countedItems (small : n < 2 ^ 64) :
    ((range n).map countedItem).foldl intern (reservedItems (.fixed .uint64) true) =
      reservedItems (.fixed .uint64) true ++ (range n).map countedItem :=
  foldl_intern_of_nodup (nodup_counted small)

theorem length_stored (full : n + 2 = 2 ^ 32) :
    (((range n).map countedItem).foldl intern
      (reservedItems (.fixed .uint64) true)).length = 2 ^ 32 := by
  have two : (reservedItems (.fixed .uint64) true).length = 2 := rfl
  rw [stored_countedItems (by omega), length_append, length_map, length_range]
  omega

theorem fresh_countedItem (small : n + 1 < 2 ^ 64) :
    countedItem n ∉ ((range n).map countedItem).foldl intern
      (reservedItems (.fixed .uint64) true) := by
  have distinct := nodup_counted small
  rw [range_succ, map_append, map_singleton, ← append_assoc,
    nodup_append_comm, singleton_append, nodup_cons] at distinct
  rw [stored_countedItems (by omega)]
  exact distinct.1

theorem separated_countedItem (n : Nat) :
    Separated (@hashKey countingHashing)
      (((range n).map countedItem).foldl intern (reservedItems (.fixed .uint64) true))
      (countedItem n) := by
  let _ : Hashing := countingHashing
  have injective := (apart_countUp (n + 1)).injOn (show Code.uint64 ≠ .void by decide)
    (kind_of_used rfl (typed_countUp (n + 1)))
  have used {i : Nat} (inside : i < n + 1) :
      countedItem i ∈ usedItems (.fixed .uint64) true (countUp (n + 1)) := by
    have called : Command.left (.append (some (encodeLE 8 (i + 1)))) ∈ countUp (n + 1) :=
      mem_map.mpr ⟨i, mem_range.mpr inside, rfl⟩
    exact mem_append_right _ (mem_flatMap.mpr ⟨_, called, mem_singleton_self _⟩)
  intro other mem same
  refine injective ?_ (used (Nat.lt_succ_self n)) same
  rcases mem_append.mp (mem_foldl_intern mem) with isReserved | isCounted
  · exact mem_append_left _ isReserved
  · obtain ⟨i, isI, rfl⟩ := mem_map.mp isCounted
    exact used (Nat.lt_succ_of_lt (mem_range.mp isI))

theorem represents_countUp (full : n + 2 = 2 ^ 32) : letI : Hashing := countingHashing
    ∃ column, ofTyped (emptyDictionary (.fixed .uint64) true) = .ok column ∧
      Represents (.fixed .uint64) true (runCommands (countUp n) (column, column)).1
        ((range n).map countedItem) := by
  let _ : Hashing := countingHashing
  have room (m : Nat) : Room (.fixed .uint64) true
      (runPlain (.fixed .uint64) ((countUp n).take m)) := by
    have two : (reservedItems (.fixed .uint64) true).length = 2 := rfl
    rw [take_countUp, runPlain_countUp]
    refine ⟨?_, by simp [two]⟩
    dsimp only
    rw [stored_countedItems (by omega), length_append, length_map, length_range]
    omega
  obtain ⟨column, made, left, _⟩ := represents_run
    (show (fixed .uint64).isValueType = true from rfl) trivial (typed_countUp n)
    (apart_countUp n) room
  rw [runPlain_countUp] at left
  exact ⟨column, made, left⟩

/-- With `2 ^ 32 - 1` different values in a nullable column, its last row reads as NULL. -/
theorem not_shows_countUp :
    letI : Hashing := countingHashing
    ∃ commands : List Command,
      (∀ command ∈ commands, command.Typed (.fixed .uint64) true) ∧
      HashesApart (usedItems (.fixed .uint64) true commands) ∧
      (∀ n, (runPlain (.fixed .uint64) (commands.take n)).1.dedup.length < 2 ^ 32 ∧
        (runPlain (.fixed .uint64) (commands.take n)).2.dedup.length < 2 ^ 32) ∧
      ∃ column, ofTyped (emptyDictionary (.fixed .uint64) true) = .ok column ∧
        ¬ Shows (.fixed .uint64) (runCommands commands (column, column)).1
          ((runPlain (.fixed .uint64) commands).1.map (valueOf (.fixed .uint64))) := by
  let _ : Hashing := countingHashing
  -- `n` values fit with the two reserved items, and one more does not.
  obtain ⟨n, full⟩ : ∃ n, n + 2 = 2 ^ 32 := ⟨2 ^ 32 - 2, by decide⟩
  refine ⟨countUp (n + 1), typed_countUp _, apart_countUp _, ?_, ?_⟩
  · intro m
    rw [take_countUp, runPlain_countUp]
    refine ⟨?_, Nat.two_pow_pos 32⟩
    have count := (dedup_sublist ((range (min m (n + 1))).map countedItem)).length_le
    rw [length_map, length_range] at count
    dsimp only
    omega
  · obtain ⟨column, made, represents⟩ := represents_countUp full
    refine ⟨column, made, ?_⟩
    obtain ⟨column', appended, null⟩ := represents.wraps (separated_countedItem n)
      (fresh_countedItem (by omega)) (.inr ⟨rfl, length_encodeLE 8 (n + 1)⟩)
      (getElem?_zero_foldl_intern _ _ _) (length_stored full)
    have created :
        ItemView.create (runCommands (countUp n) (column, column)).1.dictionary.data.type.code
          (encodeLE 8 (n + 1)) = .ok (countedItem n) := by
      have value : LeafType.Value (.fixed .uint64) (encodeLE 8 (n + 1)) := length_encodeLE 8 (n + 1)
      rw [represents.dataType]
      exact ItemView.create_value rfl value
    have called : Runs (Operation.append (some (encodeLE 8 (n + 1)))).program
        (runCommands (countUp n) (column, column)).1 () column' :=
      (runs_get _).bind ((runs_ofExcept created _).bind appended)
    have last : (runCommands (countUp (n + 1)) (column, column)).1 = column' := by
      rw [countUp_succ, runCommands, foldl_append]
      exact called.after_eq
    intro shows
    have row := shows.typedAt n
    rw [last, runPlain_countUp] at row
    rw [length_map, length_range] at null
    rw [null] at row
    simp [valueOf, countedItem, ItemView.null] at row

end LowCardinality

end ClickHouse
