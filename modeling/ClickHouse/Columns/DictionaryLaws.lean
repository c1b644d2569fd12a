import ClickHouse.Columns.LowCardinality
import ClickHouse.Kit.Program

/-!
# Appending to a dictionary

What the functions that extend the dictionary column of a LowCardinality column
do to its rows.
-/

namespace ClickHouse

open Kit List Dictionary LowCardinality LeafType

/-! ## Leaf columns -/

/-- The bytes that `AppendToDictionary` can store as a row of the type. -/
def LeafType.Accepts : LeafType → Bytes → Prop
  | .fixed type, data => data.length = type.width
  | .fixedString size, data => data.length ≤ size
  | _, _ => True

/-- The row that is stored for the bytes. -/
def LeafType.stored : LeafType → Bytes → Bytes
  | .fixedString size, data => padded size data
  | _, data => data

/-- The type is not that of strings of length 0. -/
def LeafType.Positive : LeafType → Prop
  | .fixedString size => 0 < size
  | _ => True

variable {data row : Bytes}

theorem length_padded {size : Nat} (fits : data.length ≤ size) :
    (padded size data).length = size := by
  rw [padded, length_append, length_replicate]
  omega

theorem Leaf.accepts_bytes {leaf : Leaf} {n : Nat} (row : leaf.bytes? n = some data) :
    leaf.type.Accepts data := by
  cases leaf with
  | fixed type words =>
    obtain ⟨word, _, rfl⟩ := Option.map_eq_some_iff.mp row
    exact word.property
  | fixedString column =>
    rw [Leaf.bytes?, FixedStrings.at?] at row
    split at row
    · cases row
      rw [Leaf.type, Accepts, length_take]
      exact Nat.min_le_left _ _
    · cases row
  | _ => trivial

/-- `column` with one more row, which holds the bytes. -/
structure Leaf.Extends (column : Leaf) (row : Bytes) (column' : Leaf) : Prop where
  hasType : column'.type = column.type
  aligned : column'.Aligned
  size : column'.size = column.size + 1
  old : ∀ n < column.size, column'.bytes? n = column.bytes? n
  new : column'.bytes? column.size = some row

/-- The rows of a `ColumnFixedString`, in order. -/
theorem FixedStrings.at?_append {size : Nat} (positive : 0 < size) {rows : Nat}
    (whole : data.length = size * rows) (length : row.length = size) :
    (∀ n < rows, FixedStrings.at? ⟨size, data ++ row⟩ n = FixedStrings.at? ⟨size, data⟩ n) ∧
    FixedStrings.at? ⟨size, data ++ row⟩ rows = some row := by
  constructor
  · intro n below
    have inside : n * size + size ≤ data.length := by
      rw [whole, Nat.mul_comm size, ← Nat.succ_mul]
      exact Nat.mul_le_mul_right _ below
    simp only [FixedStrings.at?, length_append]
    rw [if_pos (by omega), if_pos (by omega), drop_append_of_le_length (by omega),
      take_append_of_le_length (by rw [length_drop]; omega)]
  · have start : rows * size = data.length := by rw [whole, Nat.mul_comm]
    simp only [FixedStrings.at?, length_append, start]
    rw [if_pos (by omega), drop_left, take_of_length_le (Nat.le_of_eq length)]

theorem FixedStrings.extends_append {column : FixedStrings} (positive : 0 < column.stringSize)
    (aligned : column.stringSize ∣ column.data.length) (fits : data.length ≤ column.stringSize) :
    ∃ column', column.append data = .ok column' ∧
      (Leaf.fixedString column).Extends (padded column.stringSize data) (.fixedString column') := by
  rcases aligned with ⟨rows, whole⟩
  have size : (Leaf.fixedString column).size = rows := by
    show column.data.length / column.stringSize = rows
    rw [whole, Nat.mul_div_cancel_left _ positive]
  obtain ⟨old, new⟩ := FixedStrings.at?_append positive whole (length_padded fits)
  refine ⟨_, if_pos fits, rfl, ?_, ?_, ?_, ?_⟩
  · show column.stringSize ∣ (column.data ++ padded column.stringSize data).length
    rw [length_append, length_padded fits, whole]
    exact Nat.dvd_add (Nat.dvd_mul_right ..) (Nat.dvd_refl _)
  · rw [size]
    show (column.data ++ padded column.stringSize data).length / column.stringSize = rows + 1
    rw [length_append, length_padded fits, whole, ← Nat.mul_succ,
      Nat.mul_div_cancel_left _ positive]
  · rw [size]
    exact old
  · rw [size]
    exact new

theorem Leaf.extends_fixed (type : FixedType) (data : ColumnVector type.width)
    (word : Word type.width) :
    (Leaf.fixed type data).Extends word.val (.fixed type (data ++ [word])) where
  hasType := rfl
  aligned := trivial
  size := length_append
  old n below := by
    show ((data ++ [word])[n]?).map _ = (data[n]?).map _
    rw [getElem?_append_left below]
  new := by
    show ((data ++ [word])[data.length]?).map _ = _
    rw [getElem?_concat_length]
    rfl

theorem Leaf.extends_string (items : List Bytes) (item : Bytes) :
    (Leaf.string items).Extends item (.string (items ++ [item])) where
  hasType := rfl
  aligned := trivial
  size := length_append
  old _ below := getElem?_append_left below
  new := getElem?_concat_length

theorem FixedType.fixedSize_of_isDictionary {type : FixedType}
    (dictionary : (fixed type).isDictionary) :
    fixedSizeForDictionaryType type.code = type.width ∧
      fixedSizeForDictionaryType type.code ≠ 0 := by
  cases type <;> first | exact ⟨rfl, nofun⟩ | cases dictionary

/-- A dictionary that is not nullable takes every item its type accepts. -/
theorem appendToDictionary_extends {column : Leaf} (dictionary : column.type.isDictionary)
    (positive : column.type.Positive) (aligned : column.Aligned) {item : ItemView} (accepts : column.type.Accepts item.data) :
    ∃ column', appendToDictionary column item = .ok column' ∧
      column.Extends (column.type.stored item.data) column' := by
  cases column with
  | string items => exact ⟨_, rfl, Leaf.extends_string items item.data⟩
  | fixedString column =>
    obtain ⟨column', appended, extends'⟩ := FixedStrings.extends_append positive aligned accepts
    exact ⟨_, congrArg (Except.map Leaf.fixedString) appended, extends'⟩
  | json items => cases dictionary
  | nothing size => cases dictionary
  | fixed type data =>
    have length : item.data.length = type.width := accepts
    refine ⟨_, ?_, Leaf.extends_fixed type data ⟨item.data, length⟩⟩
    have copied : copyWord type.width item.data = .ok ⟨item.data, length⟩ := by
      rw [copyWord, dif_pos (Nat.le_of_eq length.symm)]
      simp only [take_of_length_le (Nat.le_of_eq length)]
    have got : getWord type.width item.data = .ok ⟨item.data, length⟩ := dif_pos length
    have supported := (FixedType.fixedSize_of_isDictionary dictionary).2
    simp only [appendToDictionary, copied, got, ne_eq, supported, not_false_eq_true, if_true,
      ite_self]
    rfl

/-! ## The reserved items -/

/-- The item of a type whose bytes are zero. -/
def LeafType.zeroItem (type : LeafType) : ItemView :=
  ⟨type.code, replicate (fixedSizeForDictionaryType type.code) 0⟩

theorem LeafType.zeroItemForDictionary_eq {type : LeafType} (dictionary : type.isDictionary) :
    zeroItemForDictionary type.code = .ok type.zeroItem := by
  cases type with
  | string => rfl
  | fixedString size => rfl
  | void => cases dictionary
  | json => cases dictionary
  | fixed type => cases type <;> first | rfl | cases dictionary

theorem LeafType.accepts_zeroItem {type : LeafType} (dictionary : type.isDictionary) :
    type.Accepts type.zeroItem.data := by
  cases type with
  | fixed type =>
    exact length_replicate.trans (FixedType.fixedSize_of_isDictionary dictionary).1
  | fixedString size => exact Nat.zero_le _
  | _ => trivial

theorem LeafType.zeroItem_type {type : LeafType} (dictionary : type.isDictionary) :
    type.zeroItem.type ≠ .void := by
  cases type with
  | string => nofun
  | fixedString size => nofun
  | void => cases dictionary
  | json => cases dictionary
  | fixed type => cases type <;> nofun

/-! ## Dictionaries -/

/-- A dictionary of a supported type, with a null flag for each row if it is nullable. -/
structure Dictionary.Sound (dictionary : Dictionary) : Prop where
  supported : dictionary.data.type.isDictionary = true
  positive : dictionary.data.type.Positive
  aligned : dictionary.data.Aligned
  flags : ∀ nulls, dictionary.nulls = some nulls → nulls.length = dictionary.data.size

/-- The item can be stored: NULL in a nullable dictionary, or bytes of the right type. -/
def Dictionary.Takes (dictionary : Dictionary) (item : ItemView) : Prop :=
  item = .null ∧ dictionary.nulls.isSome ∨
    item.type = dictionary.data.type.code ∧ dictionary.data.type.Accepts item.data

/-- The value of an item in a column of the type, NULL being `none`. -/
def LeafType.valueOf (type : LeafType) (item : ItemView) : Option Bytes :=
  if item.type = .void then none else some (type.stored item.data)

/-- `dictionary` with one more row, which holds the value. -/
structure Dictionary.Extends (dictionary : Dictionary) (value : Option Bytes)
    (dictionary' : Dictionary) : Prop where
  dataType : dictionary'.data.type = dictionary.data.type
  nullable : dictionary'.nulls.isSome = dictionary.nulls.isSome
  sound : dictionary'.Sound
  size : dictionary'.size = dictionary.size + 1
  old : ∀ n < dictionary.size,
    typedAt? dictionary' n = typedAt? dictionary n
  new : typedAt? dictionary' dictionary.size = some value

variable {dictionary : Dictionary}

theorem Dictionary.Extends.type {dictionary' : Dictionary} {value : Option Bytes}
    (extends' : dictionary.Extends value dictionary') : dictionary'.type = dictionary.type :=
  type_mk extends'.dataType extends'.nullable

theorem Dictionary.Extends.takes {dictionary dictionary' : Dictionary} {value : Option Bytes}
    (extends' : dictionary.Extends value dictionary') {item : ItemView}
    (takes : dictionary.Takes item) : dictionary'.Takes item := by
  rw [Takes, extends'.dataType, extends'.nullable]
  exact takes

theorem Dictionary.type_cloneEmpty (dictionary : Dictionary) :
    dictionary.cloneEmpty.type = dictionary.type := by
  obtain ⟨data, nulls⟩ := dictionary
  cases nulls <;> simp [type, cloneEmpty]

theorem LeafType.code_of_isDictionary {type : LeafType} (dictionary : type.isDictionary) :
    type.code ≠ .void :=
  type.zeroItem_type dictionary

theorem Dictionary.Sound.size_eq (sound : dictionary.Sound) :
    dictionary.size = dictionary.data.size := by
  rw [size]
  split
  · rfl
  · exact sound.flags _ ‹_›

theorem Leaf.Extends.plain {data data' : Leaf} (sound : Dictionary.Sound ⟨data, none⟩)
    (extends' : data.Extends row data') :
    Dictionary.Extends ⟨data, none⟩ (some row) ⟨data', none⟩ := by
  refine ⟨extends'.hasType, rfl, ⟨?_, ?_, extends'.aligned, nofun⟩, extends'.size, ?_, ?_⟩
  · exact (congrArg isDictionary extends'.hasType).trans sound.supported
  · exact extends'.hasType.symm ▸ sound.positive
  · intro n below
    exact congrArg (Option.map some) (extends'.old n below)
  · exact congrArg (Option.map some) extends'.new

/-- The data and the null map grow together. -/
theorem Leaf.Extends.nullable {data data' : Leaf} {nulls : ColumnVector 1}
    (sound : Dictionary.Sound ⟨data, some nulls⟩) (extends' : data.Extends row data')
    (flag : Word 1) :
    Dictionary.Extends ⟨data, some nulls⟩ (if flag.toNat = 0 then some row else none)
      ⟨data', some (nulls ++ [flag])⟩ := by
  have length : nulls.length = data.size := sound.flags nulls rfl
  refine ⟨extends'.hasType, rfl, ⟨?_, ?_, extends'.aligned, ?_⟩, length_append, ?_, ?_⟩
  · exact (congrArg isDictionary extends'.hasType).trans sound.supported
  · exact extends'.hasType.symm ▸ sound.positive
  · intro nulls' same
    cases same
    rw [length_append, length, extends'.size]
    rfl
  · intro n below
    have below : n < nulls.length := below
    simp only [typedAt?, getElem?_append_left below,
      extends'.old n (length ▸ below)]
  · show typedAt? _ nulls.length = _
    have new : data'.bytes? nulls.length = some row := length ▸ extends'.new
    simp only [typedAt?, getElem?_concat_length, new, Option.map_some]
    split <;> rfl

/-- A sound dictionary stores every item it takes. -/
theorem Dictionary.append_extends (sound : dictionary.Sound) {item : ItemView}
    (takes : dictionary.Takes item) :
    ∃ dictionary', dictionary.append item = .ok dictionary' ∧
      dictionary.Extends (dictionary.data.type.valueOf item) dictionary' := by
  obtain ⟨data, nulls⟩ := dictionary
  have store {item : ItemView} (accepts : data.type.Accepts item.data) :=
    appendToDictionary_extends sound.supported sound.positive sound.aligned accepts
  have notVoid := code_of_isDictionary sound.supported
  rcases takes with ⟨rfl, nullable⟩ | ⟨type, accepts⟩
  · obtain ⟨nulls, rfl⟩ := Option.isSome_iff_exists.mp nullable
    obtain ⟨data', appended, extends'⟩ := store (accepts_zeroItem sound.supported)
    have result := extends'.nullable sound (Word.ofNat 1 1)
    refine ⟨⟨data', some (nulls ++ [Word.ofNat 1 1])⟩, ?_, result⟩
    simp only [append, ItemView.null, if_true,
      zeroItemForDictionary_eq sound.supported]
    exact congrArg (Except.map fun data => (⟨data, some (nulls ++ [Word.ofNat 1 1])⟩ : Dictionary))
      appended
  · have value : data.type.valueOf item = some (data.type.stored item.data) :=
      if_neg (type ▸ notVoid)
    obtain ⟨data', appended, extends'⟩ := store accepts
    simp only [value]
    cases nulls with
    | none =>
      exact ⟨⟨data', none⟩, congrArg (Except.map (mk · none)) appended,
        extends'.plain sound⟩
    | some nulls =>
      refine ⟨⟨data', some (nulls ++ [Word.ofNat 1 0])⟩, ?_,
        extends'.nullable sound (Word.ofNat 1 0)⟩
      have notNull : data.type.code ≠ .void := notVoid
      simp only [append, notNull, type, ne_eq, not_true, if_false]
      exact congrArg
        (Except.map fun data => (⟨data, some (nulls ++ [Word.ofNat 1 0])⟩ : Dictionary)) appended

@[simp] theorem Leaf.size_cloneEmpty (column : Leaf) : column.cloneEmpty.size = 0 := by
  cases column with
  | fixedString column => exact Nat.zero_div _
  | _ => rfl

theorem Leaf.aligned_cloneEmpty (column : Leaf) : column.cloneEmpty.Aligned := by
  cases column with
  | fixedString column => exact Nat.dvd_zero _
  | _ => trivial

theorem Dictionary.size_cloneEmpty (dictionary : Dictionary) : dictionary.cloneEmpty.size = 0 := by
  obtain ⟨data, nulls⟩ := dictionary
  cases nulls with
  | none => exact Leaf.size_cloneEmpty data
  | some nulls => rfl

theorem Dictionary.sound_cloneEmpty (supported : dictionary.data.type.isDictionary)
    (positive : dictionary.data.type.Positive) : dictionary.cloneEmpty.Sound := by
  rcases dictionary with ⟨data, nulls⟩
  refine ⟨?_, ?_, Leaf.aligned_cloneEmpty data, ?_⟩
  · simpa [cloneEmpty] using supported
  · simpa [cloneEmpty] using positive
  · intro nulls' same
    cases nulls with
    | none => cases same
    | some nulls =>
      cases same
      exact (Leaf.size_cloneEmpty data).symm

theorem Dictionary.Sound.cloneEmpty (sound : dictionary.Sound) : dictionary.cloneEmpty.Sound :=
  sound_cloneEmpty sound.supported sound.positive

/-! ## Reserving items -/

namespace LowCardinality

variable [Hashing]

variable {column : LowCardinality}

theorem runs_appendDefaultItem (supported : column.dictionary.data.type.isDictionary)
    (appended : column.dictionary.append column.dictionary.data.type.zeroItem = .ok dictionary) :
    Runs appendDefaultItem column () { column with
      dictionary := dictionary
      uniqueItems := column.uniqueItems.emplace column.dictionary.data.type.zeroItem.hashKey
        column.dictionary.size } := by
  refine (runs_get column).bind ?_
  refine (runs_ofExcept (zeroItemForDictionary_eq supported) column).bind ?_
  refine (runs_set column _).bind ?_
  refine (runs_ofExcept appended _).bind ?_
  exact runs_set _ _

theorem runs_appendNullItem (nullable : column.dictionary.nulls.isSome)
    (appended : column.dictionary.append .null = .ok dictionary) :
    Runs appendNullItem column () { column with
      dictionary := dictionary
      uniqueItems := column.uniqueItems.emplace ItemView.null.hashKey 0 } := by
  obtain ⟨nulls, isNullable⟩ := Option.isSome_iff_exists.mp nullable
  refine (runs_get column).bind ?_
  simp only [isNullable]
  refine (runs_ofExcept rfl column).bind ?_
  refine (runs_ofExcept appended column).bind ?_
  exact runs_set _ _

omit [Hashing] in
theorem construct_of_runs {body : EStateM Error LowCardinality Unit} {made : LowCardinality}
    (runs : Runs body column () made) : construct body column = .ok made := by
  unfold Runs at runs
  rw [construct, runs]

omit [Hashing] in
theorem runs_of_construct {body : EStateM Error LowCardinality Unit} {made : LowCardinality}
    (ok : construct body column = .ok made) : Runs body column () made := by
  unfold construct at ok
  cases ended : body column with
  | ok _ column' =>
    rw [ended] at ok
    cases ok
    exact ended
  | error e column' =>
    rw [ended] at ok
    cases ok

/-- The dictionary that `ColumnLowCardinality(ColumnRef)` makes of an empty one holds the default
item. -/
theorem exists_ofColumnRef (sound : dictionary.Sound) (empty : dictionary.size = 0) : ∃ reserved,
      dictionary.cloneEmpty.Extends
        (dictionary.data.type.valueOf dictionary.data.type.zeroItem) reserved ∧
      ofColumnRef dictionary =
        .ok ⟨reserved, ⟨.uint32, []⟩, [(dictionary.data.type.zeroItem.hashKey, 0)]⟩ := by
  have cleared := sound.cloneEmpty
  have takes : dictionary.cloneEmpty.Takes dictionary.cloneEmpty.data.type.zeroItem :=
    .inr ⟨rfl, accepts_zeroItem cleared.supported⟩
  obtain ⟨reserved, appended, extends'⟩ := append_extends cleared takes
  have reserves : Runs appendDefaultItem (blank dictionary) () ⟨reserved, ⟨.uint32, []⟩,
      [(dictionary.cloneEmpty.data.type.zeroItem.hashKey, dictionary.cloneEmpty.size)]⟩ :=
    runs_appendDefaultItem cleared.supported appended
  have type : dictionary.cloneEmpty.data.type = dictionary.data.type := Leaf.type_cloneEmpty _
  rw [type, size_cloneEmpty] at reserves
  rw [type] at extends'
  refine ⟨reserved, extends', construct_of_runs (reserves.bind ?_)⟩
  rw [empty]
  exact runs_pure _ _

/-- The dictionary that the constructor for a `ColumnNullable` makes of an empty one holds NULL and
then the default item. -/
theorem exists_ofNullable (sound : dictionary.Sound) (nullable : dictionary.nulls.isSome)
    (empty : dictionary.size = 0) : ∃ null reserved,
      dictionary.cloneEmpty.Extends none null ∧
      null.Extends (dictionary.data.type.valueOf dictionary.data.type.zeroItem) reserved ∧
      ofNullable dictionary = .ok ⟨reserved, ⟨.uint32, []⟩,
        UniqueItems.emplace [(ItemView.null.hashKey, 0)] dictionary.data.type.zeroItem.hashKey 1⟩ := by
  have cleared := sound.cloneEmpty
  have nullable' : dictionary.cloneEmpty.nulls.isSome := by
    simpa [Dictionary.cloneEmpty] using nullable
  obtain ⟨null, appendedNull, extendsNull⟩ :=
    append_extends cleared (.inl ⟨rfl, nullable'⟩)
  have reservesNull : Runs appendNullItem (blank dictionary) ()
      ⟨null, ⟨.uint32, []⟩, [(ItemView.null.hashKey, 0)]⟩ :=
    runs_appendNullItem nullable' appendedNull
  have takes : null.Takes null.data.type.zeroItem :=
    .inr ⟨rfl, accepts_zeroItem extendsNull.sound.supported⟩
  obtain ⟨reserved, appended, extends'⟩ := append_extends extendsNull.sound takes
  have reserves : Runs appendDefaultItem ⟨null, ⟨.uint32, []⟩, [(ItemView.null.hashKey, 0)]⟩ ()
      ⟨reserved, ⟨.uint32, []⟩, UniqueItems.emplace [(ItemView.null.hashKey, 0)]
        null.data.type.zeroItem.hashKey null.size⟩ :=
    runs_appendDefaultItem extendsNull.sound.supported appended
  have type : null.data.type = dictionary.data.type :=
    extendsNull.dataType.trans (Leaf.type_cloneEmpty _)
  have size : null.size = 1 := by rw [extendsNull.size, size_cloneEmpty]
  rw [type, size] at reserves
  rw [type] at extends'
  refine ⟨null, reserved, extendsNull, extends',
    construct_of_runs (reservesNull.bind (reserves.bind ?_))⟩
  rw [empty]
  exact runs_pure _ _

end LowCardinality

end ClickHouse
