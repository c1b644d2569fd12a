import ClickHouse.Columns.RefinementRuns
import ClickHouse.Kit.Contract
import ClickHouse.Kit.Runs

/-!
# The keys of LowCardinality columns

A key of the lookup map is computed from an item as it is given, and the
dictionary stores the item as its column does.  Where the two are the same, the
dictionary has no duplicates and the map finds every entry, in every run of calls
on two columns, whether the calls succeed or throw.  A `ColumnFixedString` adds
zeros to what it is given, and the default item is already an entry that is not
found.
-/

namespace ClickHouse

open Kit List ItemView LowCardinality LeafType

/-- The entries of the dictionary are distinct, and the lookup map has the position of each. -/
structure LowCardinality.NoDuplicates [Hashing] (column : LowCardinality) : Prop where
  defined : ∀ n < column.dictionary.size, (column.dictionary.item? n).isSome
  distinct : ∀ m < column.dictionary.size, ∀ n < column.dictionary.size,
    column.dictionary.item? m = column.dictionary.item? n → m = n
  found : ∀ n < column.dictionary.size, ∀ item, column.dictionary.item? n = some item →
    column.uniqueItems.lookup item.hashKey = some n

/-! ## Items of a source -/

/-- `Append` of the column is not ignored because of its type. -/
def Column.HasRows (type : LeafType) (nullable : Bool) (source : Column) : Prop :=
  source.type = dictionaryType type nullable ∨
    ∃ other, source = .lowCardinality other ∧ other.dictionary.type = dictionaryType type nullable

variable {item : ItemView} {n : Nat}

theorem Leaf.hasItem_of_item? {leaf : Leaf} (row : leaf.item? n = some item) (nullable : Bool) :
    leaf.type.HasItem nullable item := by
  obtain ⟨data, bytes, rfl⟩ := Option.map_eq_some_iff.mp row
  exact .inr ⟨rfl, Leaf.accepts_bytes bytes⟩

theorem Dictionary.hasItem_of_item? {dictionary : Dictionary} {n : Nat} {item : ItemView}
    (row : dictionary.item? n = some item) :
    dictionary.data.type.HasItem dictionary.nulls.isSome item := by
  rw [Dictionary.item?] at row
  cases nulls : dictionary.nulls with
  | none =>
    rw [nulls] at row
    exact Leaf.hasItem_of_item? row _
  | some flags =>
    rw [nulls] at row
    dsimp only at row
    split at row
    · split at row
      · exact Leaf.hasItem_of_item? row _
      · cases row
        exact .inl ⟨rfl, rfl⟩
    · cases row

theorem LowCardinality.hasItem_of_item? {column : LowCardinality}
    (row : column.item? n = some item) :
    column.dictionary.data.type.HasItem column.dictionary.nulls.isSome item := by
  rw [item?] at row
  split at row
  · split at row
    · rename_i null
      cases row
      exact .inl ⟨rfl, null.1⟩
    · exact Dictionary.hasItem_of_item? row
  · cases row

theorem itemOrUndefined_eq_ok {found : Option ItemView} (ok : itemOrUndefined found = .ok item) :
    found = some item := by
  cases found with
  | none => cases ok
  | some other =>
    cases ok
    rfl

/-- Whatever the rows of a source are, those that can be read are items of its type. -/
theorem Column.HasRows.hasItem {type : LeafType} {nullable : Bool} {source : Column}
    (rows : source.HasRows type nullable) (supported : type.isDictionary)
    (got : source.getItem n = .ok item) : type.HasItem nullable item := by
  rcases rows with hasType | ⟨other, rfl, hasType⟩
  · cases nullable with
    | false =>
      obtain ⟨leaf, rfl, -, get⟩ := Column.getItem_of_type supported hasType
      rw [get] at got
      exact Leaf.hasItem_of_item? (itemOrUndefined_eq_ok got) false
    | true =>
      obtain ⟨nested, nulls, rfl, nestedType⟩ := Column.nullable_of_type hasType
      obtain ⟨leaf, rfl, -, get⟩ := Column.getItem_of_type supported nestedType
      rw [Column.getItem] at got
      split at got
      · split at got
        · rw [get] at got
          exact Leaf.hasItem_of_item? (itemOrUndefined_eq_ok got) true
        · cases got
          exact .inl ⟨rfl, rfl⟩
      · cases got
  · obtain ⟨rfl, rfl⟩ := Dictionary.type_iff hasType
    exact hasItem_of_item? (itemOrUndefined_eq_ok got)

/-- An item of a supported type has the size of a value. -/
theorem LeafType.value_of_create {type : LeafType} (supported : type.isDictionary) {data : Bytes}
    (created : create type.code data = .ok item) :
    item = ⟨type.code, data⟩ ∧ type.Value data := by
  cases type with
  | string =>
    cases created
    exact ⟨rfl, trivial⟩
  | fixedString size =>
    cases created
    exact ⟨rfl, trivial⟩
  | void => cases supported
  | json => cases supported
  | fixed type =>
    have sized {w : Nat} (sizes : type.code.allowedSizes = .ok (some [w])) :
        item = ⟨type.code, data⟩ ∧ data.length = w := by
      simp only [create, code, sizes] at created
      split at created
      · rename_i mem
        cases created
        exact ⟨rfl, mem_singleton.mp mem⟩
      · cases created
    cases type <;> first | exact sized rfl | cases supported

/-- Rows of the type are filled up with zeros. -/
def LeafType.isFixedString : LeafType → Bool
  | .fixedString _ => true
  | _ => false

theorem LeafType.stored_eq {type : LeafType} (unpadded : type.isFixedString = false)
    (data : Bytes) : type.stored data = data := by
  cases type with
  | fixedString size => cases unpadded
  | _ => rfl

namespace LowCardinality

variable [Hashing] {type : LeafType} {nullable : Bool} {used : Set ItemView}

/-! ## The invariant -/

/-- The column of the type holds the default item and items of the set, each once. -/
structure Tidy (type : LeafType) (nullable : Bool) (used : Set ItemView) (stored : List ItemView)
    (column : LowCardinality) : Prop where
  dataType : column.dictionary.data.type = type
  isNullable : column.dictionary.nulls.isSome = nullable
  within : ∀ item ∈ stored, item ∈ used
  default : type.zeroItem ∈ stored
  keyed : Keyed stored column.dictionary column.uniqueItems

def IsTidy (type : LeafType) (nullable : Bool) (used : Set ItemView) (column : LowCardinality) :
    Prop :=
  ∃ stored, Tidy type nullable used stored column

/-- What `GetItem` of the dictionary returns for an entry is what it has stored of the item. -/
theorem Tidy.item? {stored : List ItemView} {column : LowCardinality}
    (tidy : Tidy type nullable used stored column) (isStored : stored[n]? = some item) :
    column.dictionary.item? n = some (itemOf type.code (type.valueOf item)) := by
  rw [Dictionary.item?_eq_typedAt?, tidy.keyed.values n item isStored, tidy.dataType]
  rfl

theorem Tidy.separated {stored : List ItemView} {column : LowCardinality}
    (tidy : Tidy type nullable used stored column) (injective : used.InjOn hashKey)
    (isUsed : item ∈ used) : Separated hashKey stored item :=
  fun other mem same => injective (tidy.within other mem) isUsed same

theorem Tidy.lookup {stored : List ItemView} {column : LowCardinality}
    (tidy : Tidy type nullable used stored column) (injective : used.InjOn hashKey)
    {item : ItemView} (isUsed : item ∈ used) : column.uniqueItems.lookup item.hashKey =
      if item ∈ stored then some (stored.idxOf item) else none :=
  tidy.keyed.lookup (tidy.separated injective isUsed)

/-- An entry is the item that was given, unless it is filled up with zeros. -/
theorem Tidy.item?_eq {stored : List ItemView} {column : LowCardinality}
    (tidy : Tidy type nullable used stored column) (unpadded : type.isFixedString = false)
    (isStored : stored[n]? = some item) : column.dictionary.item? n = some item := by
  rw [tidy.item? isStored]
  have supported := tidy.keyed.sound.supported
  rw [tidy.dataType] at supported
  rcases tidy.keyed.taken item (mem_of_getElem? isStored) with ⟨rfl, -⟩ | ⟨code, -⟩
  · rfl
  · rw [tidy.dataType] at code
    have notNull : item.type ≠ .void := code ▸ code_of_isDictionary supported
    rw [valueOf, if_neg notNull, stored_eq unpadded, itemOf, ← code]

theorem Tidy.noDuplicates {stored : List ItemView} {column : LowCardinality}
    (tidy : Tidy type nullable used stored column) (injective : used.InjOn hashKey)
    (unpadded : type.isFixedString = false) : column.NoDuplicates := by
  have entry {n : Nat} (inside : n < column.dictionary.size) :
      ∃ item, stored[n]? = some item ∧ column.dictionary.item? n = some item := by
    rw [tidy.keyed.size] at inside
    have isStored := List.getElem?_eq_getElem inside
    exact ⟨_, isStored, tidy.item?_eq unpadded isStored⟩
  have position {n : Nat} {item : ItemView} (isStored : stored[n]? = some item) :
      stored.idxOf item = n := by
    obtain ⟨below, rfl⟩ := List.getElem?_eq_some_iff.mp isStored
    exact tidy.keyed.distinct.idxOf_getElem n below
  constructor
  · intro n inside
    obtain ⟨item, -, row⟩ := entry inside
    rw [row]
    rfl
  · intro m insideM n insideN same
    obtain ⟨item, storedM, rowM⟩ := entry insideM
    obtain ⟨other, storedN, rowN⟩ := entry insideN
    rw [rowM, rowN] at same
    cases same
    rw [← position storedM, position storedN]
  · intro n inside item row
    obtain ⟨other, isStored, row'⟩ := entry inside
    rw [row'] at row
    cases row
    have mem := List.mem_of_getElem? isStored
    rw [tidy.lookup injective (tidy.within _ mem), if_pos mem, position isStored]

/-- In a dictionary of fixed strings the map does not find the default item: its key is the one of
the empty string, and its entry has zeros. -/
theorem Tidy.duplicates {stored : List ItemView} {column : LowCardinality}
    (tidy : Tidy type nullable used stored column) (injective : used.InjOn hashKey)
    (zeros : ⟨type.code, type.stored type.zeroItem.data⟩ ∈ used)
    (padded : type.isFixedString = true) : ¬ column.NoDuplicates := by
  intro unique
  cases type with
  | fixedString size =>
    have positive : 0 < size := by
      have positive := tidy.keyed.sound.positive
      rw [tidy.dataType] at positive
      exact positive
    have isStored := getElem?_idxOf tidy.default
    have inside : stored.idxOf (LeafType.fixedString size).zeroItem < column.dictionary.size := by
      rw [tidy.keyed.size]
      exact idxOf_lt_length_of_mem tidy.default
    have found := unique.found _ inside _ (tidy.item? isStored)
    have lookup := (tidy.lookup injective zeros).symm.trans found
    split at lookup
    · rename_i mem
      -- Two items of different lengths would have one position.
      have same := congrArg (stored[·]?) (Option.some.inj lookup)
      rw [isStored, getElem?_idxOf mem] at same
      have lengths := congrArg (fun item : ItemView => item.data.length) (Option.some.inj same)
      have length : (LeafType.stored (.fixedString size) []).length = size :=
        length_padded (Nat.zero_le size)
      exact Nat.ne_of_gt positive (length.symm.trans lengths)
    · cases lookup
  | _ => cases padded

/-! ## What keeps the invariant -/

/-- The item is NULL for a nullable column or has the size of a value of the type. -/
def Offers (type : LeafType) (nullable : Bool) (item : ItemView) : Prop :=
  item = .null ∧ nullable = true ∨ item.type = type.code ∧ type.Value item.data

omit [Hashing] in
theorem offers_of_hasItem (has : type.HasItem nullable item) : Offers type nullable item := by
  refine has.imp_right fun value => ⟨value.1, ?_⟩
  cases type with
  | fixed type => exact value.2
  | _ => trivial

/-- `AppendUnsafe` stores the item, or throws and changes nothing. -/
theorem IsTidy.appendUnsafe {column : LowCardinality} (tidy : IsTidy type nullable used column)
    (injective : used.InjOn hashKey) (isUsed : item ∈ used)
    (offers : Offers type nullable item) :
    IsTidy type nullable used (after (appendUnsafe item) column) := by
  obtain ⟨stored, tidy⟩ := tidy
  have separated := tidy.separated injective isUsed
  have accepted (has : type.HasItem nullable item) :
      IsTidy type nullable used (after (LowCardinality.appendUnsafe item) column) := by
    have takes : column.dictionary.Takes item := by
      rw [Dictionary.Takes, tidy.dataType, tidy.isNullable]
      exact has
    obtain ⟨dictionary, uniqueItems, ran, keyed, dataType, isNullable⟩ :=
      tidy.keyed.accepts separated takes
    rw [ran.after_eq]
    refine ⟨intern stored item, dataType.trans tidy.dataType, isNullable.trans tidy.isNullable,
      ?_, mem_intern.mpr (.inl tidy.default), keyed⟩
    intro other mem
    rcases mem_intern.mp mem with old | rfl
    · exact tidy.within other old
    · exact isUsed
  rcases offers with null | ⟨code, value⟩
  · exact accepted (.inl null)
  · by_cases accepts : type.Accepts item.data
    · exact accepted (.inr ⟨code, accepts⟩)
    · rcases item with ⟨itemCode, data⟩
      dsimp only at code value accepts
      subst code
      obtain ⟨e, thrown⟩ := tidy.keyed.refuses_long tidy.dataType separated value accepts
      rw [thrown.after_eq]
      exact ⟨stored, tidy⟩

theorem IsTidy.appendRows {getItem : Nat → Except Error ItemView} {rows : List Nat}
    {column : LowCardinality} (tidy : IsTidy type nullable used column)
    (injective : used.InjOn hashKey) (gives : ∀ n ∈ rows, ∀ item,
      getItem n = .ok item → item ∈ used ∧ type.HasItem nullable item) :
    IsTidy type nullable used (after (appendRows getItem rows) column) := by
  induction rows generalizing column with
  | nil => exact tidy
  | cons n rows ih =>
    refine Ensures.after_holds (Ensures.bind (ensures_ofExcept ?_ fun _ _ => tidy))
    intro item got
    obtain ⟨isUsed, has⟩ := gives n (mem_cons_self ..) item got
    refine Ensures.bind ((ensures_of_after
      (tidy.appendUnsafe injective isUsed (offers_of_hasItem has))).imp ?_ fun _ _ kept => kept)
    intro _ column' tidy'
    exact ensures_of_after (ih tidy' fun m mem => gives m (mem_cons_of_mem _ mem))

end LowCardinality

/-! ## Calls -/

section Calls

variable [Hashing]

/-- A call of which `IsEqual` does not mistake the type of a source. -/
def Operation.Offered (type : LeafType) (nullable : Bool) : Operation → Prop
  | .append (some _) => True
  | .append none => nullable = true
  | .appendColumn source =>
    ((dictionaryType type nullable).isEqual source.type →
      source.type = dictionaryType type nullable) ∧
    ∀ other, source = .lowCardinality other →
      (dictionaryType type nullable).isEqual other.dictionary.type →
      other.dictionary.type = dictionaryType type nullable
  | .clear => True

def Command.Offered (type : LeafType) (nullable : Bool) : Command → Prop
  | .left operation => operation.Offered type nullable
  | .right operation => operation.Offered type nullable
  | .swap => True

/-- The items of the type that a call passes on. -/
def Command.met (type : LeafType) (command : Command) : List ItemView :=
  (command.items type).filter fun item => item = .null ∨ item.type = type.code

/-- The rows of a dictionary column that can be read. -/
def Dictionary.rowItems (dictionary : Dictionary) : List ItemView :=
  (range dictionary.size).filterMap dictionary.item?

namespace LowCardinality

variable {type : LeafType} {nullable : Bool} {used : Set ItemView} {column : LowCardinality}

theorem IsTidy.appendColumn {source : Column} (tidy : IsTidy type nullable used column)
    (injective : used.InjOn hashKey) (supported : type.isDictionary)
    (offered : (Operation.appendColumn source).Offered type nullable)
    (met : ∀ item ∈ source.items, (item = .null ∨ item.type = type.code) → item ∈ used) :
    IsTidy type nullable used (after (LowCardinality.appendColumn source) column) := by
  have own : column.dictionary.type = dictionaryType type nullable := by
    obtain ⟨_, tidy⟩ := tidy
    rw [Dictionary.type, dictionaryType, ← tidy.dataType, ← tidy.isNullable]
    cases column.dictionary.nulls <;> rfl
  have appends (rows : source.HasRows type nullable) : IsTidy type nullable used
      (after (LowCardinality.appendRows source.getItem (range source.size)) column) := by
    refine tidy.appendRows injective fun n mem item got => ?_
    have has := rows.hasItem supported got
    refine ⟨met item (mem_filterMap.mpr ⟨n, mem, by rw [got]; rfl⟩) ?_, has⟩
    exact has.imp And.left And.left
  refine Ensures.after_holds (ensures_get_bind ?_)
  rw [own]
  refine ensures_ite (fun accepted => ensures_of_after (appends ?_)) fun _ => ensures_pure tidy
  rcases Bool.or_eq_true_iff.mp accepted with same | same
  · cases source with
    | lowCardinality other => exact .inr ⟨other, rfl, offered.2 other rfl same⟩
    | _ => cases same
  · exact .inl (offered.1 same)

/-- Storing the reserved items. -/
theorem isTidy_reserved (keyed : Keyed [] column.dictionary column.uniqueItems)
    (hasType : column.dictionary.data.type = type)
    (isNullable : column.dictionary.nulls.isSome = nullable)
    (injective : used.InjOn hashKey) (null : .null ∈ used) (zero : type.zeroItem ∈ used) :
    ∃ column', Runs (do
        if column.dictionary.nulls.isSome then appendNullItem
        appendDefaultItem) column () column' ∧ IsTidy type nullable used column' := by
  subst hasType isNullable
  have notNull : column.dictionary.data.type.zeroItem.hashKey ≠ ItemView.null.hashKey := by
    intro same
    have types := congrArg type (injective zero null same)
    exact zeroItem_type keyed.sound.supported types
  obtain ⟨dictionary, uniqueItems, ran, keyed', dataType, isNullable⟩ := keyed.reserved notNull
  refine ⟨_, ran, _, dataType, isNullable, ?_, ?_, keyed'⟩
  · intro item mem
    rw [reservedItems] at mem
    split at mem
    · rcases mem_cons.mp mem with rfl | mem
      · exact null
      · exact mem_singleton.mp mem ▸ zero
    · exact mem_singleton.mp mem ▸ zero
  · rw [reservedItems]
    split <;> simp

theorem IsTidy.clear (tidy : IsTidy type nullable used column)
    (injective : used.InjOn hashKey) (null : .null ∈ used) (zero : type.zeroItem ∈ used) :
    IsTidy type nullable used (after LowCardinality.clear column) := by
  obtain ⟨stored, tidy⟩ := tidy
  have dataType : column.dictionary.cloneEmpty.data.type = type :=
    (Leaf.type_cloneEmpty _).trans tidy.dataType
  have isNullable : column.dictionary.cloneEmpty.nulls.isSome = nullable := by
    rw [← tidy.isNullable]
    simp [Dictionary.cloneEmpty]
  have sound := tidy.keyed.sound
  let cleared : LowCardinality := ⟨column.dictionary.cloneEmpty, ⟨column.index.type, []⟩, []⟩
  have keyed : Keyed [] cleared.dictionary cleared.uniqueItems :=
    keyed_cloneEmpty sound.supported sound.positive
  obtain ⟨column', ran, tidy'⟩ := isTidy_reserved keyed dataType isNullable injective null zero
  have called : Runs LowCardinality.clear column () column' :=
    (runs_modify _ _).bind ((runs_get _).bind ran)
  rw [called.after_eq]
  exact tidy'

theorem IsTidy.appendValue {value : Option Bytes} (tidy : IsTidy type nullable used column)
    (injective : used.InjOn hashKey) (supported : type.isDictionary)
    (offered : (Operation.append value).Offered type nullable)
    (met : ∀ item ∈ (Operation.append value).items type, item ∈ used) :
    IsTidy type nullable used (after (appendValue value) column) := by
  refine Ensures.after_holds (ensures_get_bind ?_)
  cases value with
  | none =>
    have isUsed : .null ∈ used := met _ (mem_singleton_self _)
    exact ensures_of_after (tidy.appendUnsafe injective isUsed (.inl ⟨rfl, offered⟩))
  | some data =>
    have isUsed : ⟨type.code, data⟩ ∈ used := met _ (mem_singleton_self _)
    have dataType : column.dictionary.data.type = type := tidy.choose_spec.dataType
    rw [dataType]
    refine Ensures.bind (ensures_ofExcept ?_ fun _ _ => tidy)
    intro item created
    obtain ⟨rfl, value⟩ := value_of_create supported created
    exact ensures_of_after (tidy.appendUnsafe injective isUsed (.inr ⟨rfl, value⟩))

/-- Every call keeps the invariant, also one that throws. -/
theorem IsTidy.operation {operation : Operation} (tidy : IsTidy type nullable used column)
    (injective : used.InjOn hashKey) (supported : type.isDictionary) (null : .null ∈ used)
    (zero : type.zeroItem ∈ used) (offered : operation.Offered type nullable)
    (met : ∀ item ∈ operation.items type, (item = .null ∨ item.type = type.code) → item ∈ used) :
    IsTidy type nullable used (after operation.program column) := by
  cases operation with
  | append value =>
    refine tidy.appendValue injective supported offered fun item mem => met item mem ?_
    cases value with
    | none => exact .inl (mem_singleton.mp mem)
    | some data => exact .inr (congrArg ItemView.type (mem_singleton.mp mem))
  | appendColumn source => exact tidy.appendColumn injective supported offered met
  | clear => exact tidy.clear injective null zero

/-! ## The constructors -/

/-- The column was made by one of the constructors of a dictionary column of the type, with any
rows. -/
def Constructed (type : LeafType) (nullable : Bool) (dictionary : Dictionary)
    (column : LowCardinality) : Prop :=
  dictionary.data.type = type ∧ dictionary.nulls.isSome = nullable ∧
    (ofColumnRef dictionary = .ok column ∨ nullable = true ∧ ofNullable dictionary = .ok column)

theorem isTidy_constructed {dictionary : Dictionary}
    (constructed : Constructed type nullable dictionary column) (supported : type.isDictionary)
    (positive : type.Positive) (injective : used.InjOn hashKey) (null : .null ∈ used)
    (zero : type.zeroItem ∈ used) (met : ∀ item ∈ dictionary.rowItems, item ∈ used) :
    IsTidy type nullable used column := by
  obtain ⟨rfl, rfl, made⟩ := constructed
  have dataType : dictionary.cloneEmpty.data.type = dictionary.data.type := Leaf.type_cloneEmpty _
  have isNullable : dictionary.cloneEmpty.nulls.isSome = dictionary.nulls.isSome := by
    simp [Dictionary.cloneEmpty]
  have keyed : Keyed [] (blank dictionary).dictionary (blank dictionary).uniqueItems :=
    keyed_cloneEmpty supported positive
  -- The rows of the given column are appended to the reserved items.
  have filled {reserved : LowCardinality}
      (tidy : IsTidy dictionary.data.type dictionary.nulls.isSome used reserved)
      (ran : Runs (appendRows (fun n => itemOrUndefined (dictionary.item? n))
        (range dictionary.size)) reserved () column) :
      IsTidy dictionary.data.type dictionary.nulls.isSome used column := by
    rw [← ran.after_eq]
    refine tidy.appendRows injective fun n mem item got => ?_
    have row := itemOrUndefined_eq_ok got
    exact ⟨met item (mem_filterMap.mpr ⟨n, mem, row⟩), Dictionary.hasItem_of_item? row⟩
  rcases made with made | ⟨nullable, made⟩
  · obtain ⟨_, reserved, ranDefault, ranRows⟩ := runs_bind_iff.mp (runs_of_construct made)
    have separated : Separated hashKey [] (blank dictionary).dictionary.data.type.zeroItem :=
      fun _ mem => absurd mem not_mem_nil
    obtain ⟨dictionary', uniqueItems, ran, keyed', type, nullable⟩ :=
      keyed.reserveDefault separated not_mem_nil
    cases ran.symm.trans ranDefault
    refine filled ⟨_, type.trans dataType, nullable.trans isNullable, ?_, ?_, keyed'⟩ ranRows
    · intro item mem
      rw [mem_singleton.mp mem, show (blank dictionary).dictionary.data.type = _ from dataType]
      exact zero
    · rw [show (blank dictionary).dictionary.data.type = _ from dataType]
      exact mem_singleton_self _
  · obtain ⟨_, withNull, ranNull, ranSetup⟩ := runs_bind_iff.mp (runs_of_construct made)
    obtain ⟨_, reserved, ranDefault, ranRows⟩ := runs_bind_iff.mp ranSetup
    obtain ⟨column', ran, tidy⟩ := isTidy_reserved keyed dataType isNullable injective null zero
    simp only [show (blank dictionary).dictionary.nulls.isSome = true from
      isNullable.trans nullable, if_true] at ran
    cases ran.symm.trans (ranNull.bind ranDefault)
    exact filled tidy ranRows

/-! ## Runs -/

/-- All items of the type that two columns meet, and the default item as it is stored. -/
def metItems (type : LeafType) (given : List Dictionary) (commands : List Command) :
    List ItemView :=
  [.null, type.zeroItem, ⟨type.code, type.stored type.zeroItem.data⟩] ++
    given.flatMap Dictionary.rowItems ++ commands.flatMap (Command.met type)

omit [Hashing] in
theorem kind_of_met {given : List Dictionary} {commands : List Command}
    (hasType : ∀ dictionary ∈ given, dictionary.data.type = type) :
    ∀ item ∈ metItems type given commands, item = .null ∨ item.type = type.code := by
  intro item mem
  rcases mem_append.mp mem with mem | mem
  · rcases mem_append.mp mem with mem | mem
    · simp only [mem_cons, not_mem_nil, or_false] at mem
      rcases mem with rfl | rfl | rfl
      · exact .inl rfl
      · exact .inr rfl
      · exact .inr rfl
    · obtain ⟨dictionary, isGiven, mem⟩ := mem_flatMap.mp mem
      obtain ⟨n, -, row⟩ := mem_filterMap.mp mem
      have has := Dictionary.hasItem_of_item? row
      rw [hasType dictionary isGiven] at has
      exact has.imp And.left And.left
  · obtain ⟨command, -, mem⟩ := mem_flatMap.mp mem
    simpa using (mem_filter.mp mem).2

/-- One call on one of two columns, or their swap. -/
theorem isTidy_exec {columns : LowCardinality × LowCardinality} {command : Command}
    (tidy : IsTidy type nullable used columns.1 ∧ IsTidy type nullable used columns.2)
    (injective : used.InjOn hashKey) (supported : type.isDictionary) (null : .null ∈ used)
    (zero : type.zeroItem ∈ used) (offered : command.Offered type nullable)
    (met : ∀ item ∈ command.met type, item ∈ used) :
    IsTidy type nullable used (command.exec columns).1 ∧
      IsTidy type nullable used (command.exec columns).2 := by
  obtain ⟨left, right⟩ := columns
  have met (item : ItemView) (mem : item ∈ command.items type)
      (kind : item = .null ∨ item.type = type.code) : item ∈ used :=
    met item (mem_filter.mpr ⟨mem, decide_eq_true kind⟩)
  cases command with
  | left operation =>
    exact ⟨tidy.1.operation injective supported null zero offered met, tidy.2⟩
  | right operation =>
    exact ⟨tidy.1, tidy.2.operation injective supported null zero offered met⟩
  | swap =>
    rw [Command.exec, swap]
    split <;> rename_i swapped
    · split at swapped <;> cases swapped
      exact ⟨tidy.2, tidy.1⟩
    · exact tidy

/-- From the construction of two columns on, and after every call, whether it succeeds or throws,
the dictionaries have no duplicates and the map finds every entry, unless their type is a
`FixedString`. -/
theorem always_noDuplicates_iff {left right : LowCardinality} {given given' : Dictionary}
    (madeLeft : Constructed type nullable given left)
    (madeRight : Constructed type nullable given' right) (supported : type.isDictionary)
    (positive : type.Positive) {commands : List Command}
    (offered : ∀ command ∈ commands, command.Offered type nullable)
    (apart : HashesApart (metItems type [given, given'] commands)) :
    Always (fun columns command => Command.exec command columns)
      (fun columns => columns.1.NoDuplicates ∧ columns.2.NoDuplicates) (left, right) commands ↔
        type.isFixedString = false := by
  let used : Set ItemView := { item | item ∈ metItems type [given, given'] commands }
  have injective : used.InjOn hashKey := by
    refine apart.injOn (code_of_isDictionary supported) (kind_of_met ?_)
    intro dictionary isGiven
    simp only [mem_cons, not_mem_nil, or_false] at isGiven
    rcases isGiven with rfl | rfl
    · exact madeLeft.1
    · exact madeRight.1
  have null : .null ∈ used := by simp [used, metItems]
  have zero : type.zeroItem ∈ used := by simp [used, metItems]
  have zeros : ⟨type.code, type.stored type.zeroItem.data⟩ ∈ used := by simp [used, metItems]
  have tidyLeft := isTidy_constructed madeLeft supported positive injective null zero
    fun item mem => by simp [used, metItems, mem]
  have tidyRight := isTidy_constructed madeRight supported positive injective null zero
    fun item mem => by simp [used, metItems, mem]
  constructor
  · intro always
    obtain ⟨stored, tidy⟩ := tidyLeft
    by_contra padded
    exact tidy.duplicates injective zeros (Bool.not_eq_false _ ▸ padded) always.first.1
  · intro unpadded
    -- The invariant of the run is stronger: the columns hold items of the set.
    have always : Always (fun columns command => Command.exec command columns) (fun columns =>
        IsTidy type nullable used columns.1 ∧ IsTidy type nullable used columns.2) (left, right)
        commands := by
      refine always_of_forall ⟨tidyLeft, tidyRight⟩ fun command mem columns tidy => ?_
      refine isTidy_exec tidy injective supported null zero (offered command mem) ?_
      intro item isMet
      exact mem_append_right _ (mem_flatMap.mpr ⟨command, mem, isMet⟩)
    refine always.mono fun columns tidy => ?_
    obtain ⟨⟨_, tidyLeft⟩, _, tidyRight⟩ := tidy
    exact ⟨tidyLeft.noDuplicates injective unpadded, tidyRight.noDuplicates injective unpadded⟩

/-- `Nullable(String)` with the rows `'x'` and NULL. -/
def givenStrings : Dictionary :=
  ⟨.string [ascii "x", []], some [Word.ofNat 1 0, Word.ofNat 1 1]⟩

def stringCommands : List Command :=
  [.left (.append (some (ascii "ab"))), .right (.append none), .left (.append (some [])), .swap,
    .right (.appendColumn (.leaf (.string [ascii "ab"]))), .left .clear]

omit [Hashing] in
theorem always_noDuplicates_iff_stringCommands :
    letI : Hashing := stringHashing
    ∃ left right, ofNullable givenStrings = .ok left ∧
      ofTyped (emptyDictionary .string true) = .ok right ∧
      (Always (fun columns command => Command.exec command columns)
        (fun columns => columns.1.NoDuplicates ∧ columns.2.NoDuplicates) (left, right)
        stringCommands ↔ string.isFixedString = false) := by
  let _ : Hashing := stringHashing
  have apart : HashesApart
      (metItems .string [givenStrings, emptyDictionary .string true] stringCommands) :=
    ⟨by decide +kernel, by decide +kernel⟩
  have offered : ∀ command ∈ stringCommands, command.Offered .string true := by
    simp only [stringCommands, forall_mem_cons]
    refine ⟨trivial, rfl, trivial, trivial, ⟨?_, nofun⟩, trivial, nofun⟩
    intro same
    exact absurd same (by decide)
  have positive : string.Positive := trivial
  have made (dictionary : Dictionary) (dataType : dictionary.data.type = .string)
      (isNullable : dictionary.nulls.isSome = true) {column : LowCardinality}
      (ok : ofNullable dictionary = .ok column) : Constructed .string true dictionary column :=
    ⟨dataType, isNullable, .inr ⟨rfl, ok⟩⟩
  exact ⟨_, _, rfl, rfl, always_noDuplicates_iff (made givenStrings rfl rfl rfl)
    (made (emptyDictionary .string true) rfl rfl rfl) rfl positive offered apart⟩

/-- The string `'ab'` and the string `'ab\0'` have different keys and become one value. -/
def paddedCommands : List Command :=
  [.left (.append (some [97, 98])), .left (.append (some [97, 98, 0]))]

omit [Hashing] in
theorem not_noDuplicates_paddedCommands :
    letI : Hashing := stringHashing
    ∃ column, ofTyped (emptyDictionary (.fixedString 3) false) = .ok column ∧
      (runCommands paddedCommands (column, column)).1.dictionary.size = 3 ∧
      (runCommands paddedCommands (column, column)).1.dictionary.item? 1 =
        some ⟨.fixedString, [97, 98, 0]⟩ ∧
      (runCommands paddedCommands (column, column)).1.dictionary.item? 2 =
        some ⟨.fixedString, [97, 98, 0]⟩ ∧
      ¬ (runCommands paddedCommands (column, column)).1.NoDuplicates := by
  let _ : Hashing := stringHashing
  refine ⟨_, rfl, by decide +kernel, by decide +kernel, by decide +kernel, ?_⟩
  intro unique
  exact absurd (unique.distinct 1 (by decide +kernel) 2 (by decide +kernel) (by decide +kernel))
    (by decide)

end LowCardinality

end Calls

end ClickHouse
