import ClickHouse.Columns.Gains
import ClickHouse.Columns.TypedColumns

/-!
# Rows of typed columns

A value that is taken as a whole becomes the last row of a typed column, and the
rows before it stay.  A value that is refused after some of its parts were taken
leaves these parts behind, where later rows are read.
-/

namespace ClickHouse

open Kit List TypedColumn RowValue

/-! ## The values of rows -/

/-- The bytes of a row that holds the item. -/
def LeafType.itemBytes : (type : LeafType) → type.Item → Bytes
  | .fixed _, item => Subtype.val item
  | .fixedString size, item => padded size item
  | .string, item => item
  | .json, item => item
  | .void, _ => []

def LeafValue.value (value : LeafValue) (type : LeafType) : Value :=
  match value type with
  | .ok item => ItemView.value ⟨type.code, type.itemBytes item⟩
  | .error _ => .null

mutual

/-- What the value is in a column of the type. -/
def RowValue.value : RowValue → RowType → Value
  | .leaf value, .leaf type => LeafValue.value value type
  | .array items, .array item => .array (values items item)
  | .present value, .nullable item => value.value item
  | .tuple items, .tuple types => .tuple (eachValue items types)
  | .map pairs, .map type => pairs.value type
  | _, _ => .null

def RowValue.values : List RowValue → RowType → List Value
  | [], _ => []
  | item :: items, type => item.value type :: values items type

def RowValue.eachValue : List RowValue → List RowType → List Value
  | value :: values, type :: types => value.value type :: eachValue values types
  | _, _ => []

end

theorem RowValue.length_values (items : List RowValue) (type : RowType) :
    (values items type).length = items.length := by
  induction items with
  | nil => rfl
  | cons item items ih => rw [values, length_cons, length_cons, ih]

/-! ## Columns whose components agree -/

mutual

/-- The components of the column hold the same rows. -/
def TypedColumn.Sound : TypedColumn → Prop
  | .leaf column => column.Aligned ∧ column.type.Positive
  | .array data offsets => data.Sound ∧ ConsistentOffsets offsets data.size
  | .nullable nested nulls => nested.Sound ∧ nested.size = nulls.length
  | .tuple columns => columns ≠ [] ∧
      AllSound (Column.firstSize (toColumns columns)) columns
  | .map data => data.Sound

def TypedColumn.AllSound (size : Nat) : List TypedColumn → Prop
  | [] => True
  | column :: columns => (column.Sound ∧ column.size = size) ∧ AllSound size columns

end

theorem Leaf.size_le_weight (column : Leaf) : column.size ≤ column.weight := by
  cases column with
  | fixedString column => exact Nat.div_le_self ..
  | _ => exact Nat.le_refl _

mutual

theorem TypedColumn.size_le_weight : ∀ column : TypedColumn, column.size ≤ column.weight
  | .leaf column => column.size_le_weight
  | .array _ _ => Nat.le_add_left ..
  | .nullable _ _ => Nat.le_add_left ..
  | .tuple columns => firstSize_le_weights columns
  | .map data => size_le_weight data

theorem TypedColumn.firstSize_le_weights : ∀ columns : List TypedColumn,
    Column.firstSize (toColumns columns) ≤ weights columns
  | [] => Nat.zero_le 0
  | column :: columns => by
    have first := size_le_weight column
    exact Nat.le_trans first (Nat.le_add_right ..)

end

/-- The rows of a column, with more rows after them. -/
structure TypedColumn.Gains (column : TypedColumn) (values : List Value) (column' : TypedColumn) :
    Prop where
  sound : column'.Sound
  rows : column.toColumn.Gains values.length (fun n => values[n]?) column'.toColumn

theorem TypedColumn.Gains.size {column column' : TypedColumn} {values : List Value}
    (gains : column.Gains values column') : column'.size = column.size + values.length :=
  gains.rows.size

theorem TypedColumn.Gains.refl {column : TypedColumn} (sound : column.Sound) :
    column.Gains [] column :=
  ⟨sound, Column.Gains.refl _ _⟩

variable {column column' data data' : TypedColumn} {columns columns' : List TypedColumn}

theorem TypedColumn.Gains.cons {column₁ : TypedColumn} {value : Value} {values : List Value}
    (first : column.Gains [value] column₁) (others : column₁.Gains values column') :
    column.Gains (value :: values) column' := by
  refine ⟨others.sound, ?_⟩
  have rows := first.rows.trans others.rows
  rw [length_singleton, Nat.add_comm] at rows
  refine rows.congr fun n below => ?_
  unfold joined
  cases n with
  | zero => rfl
  | succ n => rfl

/-! ## One row -/

/-- An item that a leaf takes is its new row. -/
theorem Leaf.extends_appendItem {column column' : Leaf} (aligned : column.Aligned)
    (positive : column.type.Positive) {item : column.type.Item}
    (appended : column.appendItem item = .ok column') :
    column.Extends (column.type.itemBytes item) column' := by
  cases column with
  | fixed type data =>
    cases appended
    exact Leaf.extends_fixed type data item
  | fixedString own =>
    have whole : (own.append item).map Leaf.fixedString = .ok column' := appended
    cases admits : (LeafType.fixedString own.stringSize).admits item with
    | true =>
      obtain ⟨own', ok, extended⟩ :=
        FixedStrings.extends_append positive aligned (of_decide_eq_true admits)
      rw [ok] at whole
      cases whole
      exact extended
    | false =>
      have refused : (Leaf.fixedString own).type.admits item = false := admits
      obtain ⟨e, error⟩ := Leaf.appendItem_error refused
      cases error.symm.trans appended
  | string items =>
    cases appended
    exact Leaf.extends_string items item
  | json items =>
    cases appended
    exact ⟨rfl, trivial, length_append, fun _ below => getElem?_append_left below,
      getElem?_concat_length⟩
  | nothing size =>
    cases appended
    exact ⟨rfl, trivial, rfl, fun _ _ => rfl, rfl⟩

theorem TypedColumn.gains_leaf {own own' : Leaf} {value : LeafValue}
    (sound : (leaf own).Sound) (appended : own.appendValue value = .ok own') :
    (leaf own).Gains [value.value own.type] (.leaf own') := by
  obtain ⟨aligned, positive⟩ : own.Aligned ∧ own.type.Positive := sound
  unfold Leaf.appendValue at appended
  unfold LeafValue.value
  cases converted : value own.type with
  | error e =>
    rw [converted] at appended
    cases appended
  | ok item =>
    rw [converted] at appended
    have extended := Leaf.extends_appendItem aligned positive appended
    have positive' : own'.type.Positive := by
      rw [extended.hasType]
      exact positive
    refine ⟨⟨extended.aligned, positive'⟩, extended.gains.congr fun n below => ?_⟩
    have only : n = 0 := Nat.lt_one_iff.mp below
    subst only
    rfl

theorem mapM_range_getElem? {α : Type} (l : List α) :
    (range l.length).mapM (fun n => l[n]?) = some l := by
  induction l with
  | nil => rfl
  | cons a l ih =>
    rw [length_cons, range_succ_eq_map, mapM_cons, mapM_map]
    simp only [getElem?_cons_zero, Function.comp_def, getElem?_cons_succ]
    rw [ih]
    rfl

theorem TypedColumn.gains_array {offsets : ColumnVector 8} {values : List Value}
    (consistent : ConsistentOffsets offsets data.size) (gains : data.Gains values data')
    (fits : data'.weight < 2 ^ 64) :
    (array data offsets).Gains [.array values]
      (.array data' (addOffset offsets values.length)) := by
  have size := gains.size
  have bound := data'.size_le_weight
  have room : data.size + values.length < 2 ^ 64 := by omega
  refine ⟨⟨gains.sound, ?_⟩, ?_⟩
  · rw [size]
    exact consistent.addOffset room
  · refine (gains.rows.array consistent room).congr fun n below => ?_
    have only : n = 0 := Nat.lt_one_iff.mp below
    subst only
    rw [mapM_range_getElem?]
    rfl

theorem TypedColumn.gains_nullable {nested nested' : TypedColumn} {nulls : ColumnVector 1}
    {value : Value} (flag : Word 1) (sizes : nested.size = nulls.length)
    (gains : nested.Gains [value] nested') :
    (nullable nested nulls).Gains [if flag.toNat = 0 then value else .null]
      (.nullable nested' (nulls ++ [flag])) := by
  refine ⟨⟨gains.sound, ?_⟩, ?_⟩
  · rw [gains.size, sizes, length_append]
    rfl
  · have rows : nested.toColumn.Gains [flag].length (fun n => [value][n]?) nested'.toColumn :=
      gains.rows
    refine (rows.nullable sizes).congr fun n below => ?_
    have only : n = 0 := Nat.lt_one_iff.mp below
    subst only
    show (if flag.toNat = 0 then some value else some .null) =
      some (if flag.toNat = 0 then value else .null)
    split
    · rfl
    · rfl

/-- The columns of a tuple gain one row. -/
structure TypedColumn.AllGain (columns : List TypedColumn) (size : Nat) (values : List Value)
    (columns' : List TypedColumn) : Prop where
  sound : AllSound (size + 1) columns'
  rows : Column.AllGain (toColumns columns) size 1 (fun _ => some values)
    (toColumns columns')

theorem TypedColumn.AllGain.nil (size : Nat) : AllGain [] size [] [] :=
  ⟨trivial, Column.AllGain.nil size 1⟩

theorem TypedColumn.AllGain.cons {value : Value} {values : List Value}
    (first : column.Gains [value] column')
    (others : AllGain columns column.size values columns') :
    AllGain (column :: columns) column.size (value :: values)
      (column' :: columns') := by
  refine ⟨⟨⟨first.sound, first.size⟩, others.sound⟩, ?_⟩
  refine (Column.AllGain.cons first.rows others.rows).congr fun n below => ?_
  have only : n = 0 := Nat.lt_one_iff.mp below
  subst only
  rfl

theorem TypedColumn.gains_tuple {values : List Value} (nonempty : columns ≠ [])
    (gains : AllGain columns (Column.firstSize (toColumns columns)) values
      columns') : (tuple columns).Gains [.tuple values] (.tuple columns') := by
  cases columns with
  | nil => exact absurd rfl nonempty
  | cons column columns =>
    have length := gains.rows.length
    cases columns' with
    | nil => cases length
    | cons column' columns' =>
      obtain ⟨⟨first, size⟩, others⟩ := gains.sound
      refine ⟨⟨cons_ne_nil _ _, ?_⟩, ?_⟩
      · have firstSize : Column.firstSize (toColumns (column' :: columns')) =
            Column.firstSize (toColumns (column :: columns)) + 1 := size
        rw [firstSize]
        exact gains.sound
      · refine (gains.rows.tuple (cons_ne_nil _ _)).congr fun n below => ?_
        have only : n = 0 := Nat.lt_one_iff.mp below
        subst only
        rfl

theorem TypedColumn.gains_map {values : List Value} (gains : data.Gains values data') :
    (map data).Gains values (.map data') :=
  ⟨gains.sound, gains.rows.size, gains.rows.old, gains.rows.new⟩

mutual

/-- The value-initialised row is a row. -/
theorem TypedColumn.gains_appendDefault : ∀ {column : TypedColumn}, column.Sound →
    column.appendDefault.weight < 2 ^ 64 →
    column.Gains [column.type.defaultValue.value column.type] column.appendDefault
  | .leaf own, sound, _ => gains_leaf sound own.appendValue_default
  | .array data offsets, sound, fits => by
    have room : data.weight < 2 ^ 64 := Nat.lt_of_le_of_lt (Nat.le_add_right ..) fits
    exact gains_array sound.2 (Gains.refl sound.1) room
  | .nullable nested nulls, sound, fits => by
    have room : nested.appendDefault.weight < 2 ^ 64 :=
      Nat.lt_of_le_of_lt (Nat.le_add_right ..) fits
    have inner := gains_appendDefault sound.1 room
    exact gains_nullable (Word.ofNat 1 1) sound.2 inner
  | .tuple columns, sound, fits => by
    have inner := allGain_appendDefaults sound.2 fits
    exact gains_tuple sound.1 inner
  | .map data, sound, fits => by
    have sound : data.Sound := sound
    have inner := gains_appendDefault sound fits
    exact gains_map inner

theorem TypedColumn.allGain_appendDefaults : ∀ {size : Nat} {columns : List TypedColumn},
    AllSound size columns →
    weights (appendDefaults columns) < 2 ^ 64 →
    AllGain columns size
      (eachValue (RowType.defaultValues (types columns))
        (types columns)) (appendDefaults columns)
  | size, [], _, _ => AllGain.nil size
  | size, column :: columns, sound, fits => by
    obtain ⟨⟨first, same⟩, others⟩ := sound
    subst same
    have total : column.appendDefault.weight +
      weights (appendDefaults columns) < 2 ^ 64 := fits
    exact AllGain.cons (gains_appendDefault first (by omega))
      (allGain_appendDefaults others (by omega))

end

/-! ## Accepted values -/

theorem RowValue.appendTuple_eq_ok {value : RowValue} {values : List RowValue}
    (ok : appendTuple (value :: values) (column :: columns) = .ok () columns') :
    ∃ first others, value.append column = .ok () first ∧
      appendTuple values columns = .ok () others ∧ first :: others = columns' := by
  rw [appendTuple] at ok
  cases rest : appendTuple values columns with
  | ok a others =>
    rw [rest] at ok
    obtain ⟨first, ran, same⟩ := around_eq_ok ok
    exact ⟨first, others, ran, rfl, same⟩
  | error e others =>
    rw [rest] at ok
    cases ok

/-- An append that returns keeps the type and takes nothing away. -/
theorem RowValue.grows_of_runs {value : RowValue} (run : Runs value.append column () column') :
    column'.type = column.type ∧ column.weight ≤ column'.weight := by
  cases fits : value.fits column.type with
  | true =>
    obtain ⟨other, ran, type, leaves⟩ := (value.outcome column).accepted fits
    cases ran.symm.trans run
    exact ⟨type, leaves.le⟩
  | false =>
    obtain ⟨e, other, thrown, -⟩ := (value.outcome column).refused fits
    cases thrown.symm.trans run

theorem RowValue.weight_le_of_runs_appendItems {items : List RowValue}
    (run : Runs (appendItems items) data () data') : data.weight ≤ data'.weight := by
  cases fits : allFit items data.type with
  | true =>
    obtain ⟨other, ran, -, weight⟩ := (itemsOutcome items data).accepted fits
    cases ran.symm.trans run
    exact weight
  | false =>
    obtain ⟨e, other, thrown, -⟩ := (itemsOutcome items data).refused fits
    cases thrown.symm.trans run

mutual

/-- A value that is taken is the new row. -/
theorem RowValue.gains : ∀ (value : RowValue) {column column' : TypedColumn}, column.Sound →
    Runs value.append column () column' → column'.weight < 2 ^ 64 →
    column.Gains [value.value column.type] column'
  | .leaf value, column, column', sound, run, fits => by
    cases column with
    | leaf own =>
      obtain ⟨own', ran, rfl⟩ := around_eq_ok run
      exact TypedColumn.gains_leaf sound (ok_of_assigns ran)
    | _ => cases run
  | .array items, column, column', sound, run, fits => by
    cases column with
    | array data offsets =>
      obtain ⟨data', ran, rfl⟩ := around_eq_ok run
      have room : data'.weight < 2 ^ 64 := Nat.lt_of_le_of_lt (Nat.le_add_right ..) fits
      have inner := gains_appendItems items sound.1 ran room
      have whole := TypedColumn.gains_array sound.2 inner room
      rw [length_values] at whole
      exact whole
    | _ => cases run
  | .null, column, column', sound, run, fits => by
    cases column with
    | nullable nested nulls =>
      cases run
      have room : nested.appendDefault.weight < 2 ^ 64 :=
        Nat.lt_of_le_of_lt (Nat.le_add_right ..) fits
      have inner := TypedColumn.gains_appendDefault sound.1 room
      exact TypedColumn.gains_nullable (Word.ofNat 1 1) sound.2 inner
    | _ => cases run
  | .present value, column, column', sound, run, fits => by
    cases column with
    | nullable nested nulls =>
      obtain ⟨nested', ran, rfl⟩ := around_eq_ok run
      have room : nested'.weight < 2 ^ 64 := Nat.lt_of_le_of_lt (Nat.le_add_right ..) fits
      have inner := gains value sound.1 ran room
      exact TypedColumn.gains_nullable (Word.ofNat 1 0) sound.2 inner
    | _ => cases run
  | .tuple items, column, column', sound, run, fits => by
    cases column with
    | tuple columns =>
      by_cases arity : items.length = columns.length
      · have run : around TypedColumn.tuple TypedColumn.tuple (appendTuple items columns) =
            .ok () column' := (if_pos arity).symm.trans run
        obtain ⟨columns', ran, rfl⟩ := around_eq_ok run
        have inner := allGain_appendTuple items arity sound.2 ran fits
        exact TypedColumn.gains_tuple sound.1 inner
      · cases (if_neg arity).symm.trans run
    | _ => cases run
  | .map pairs, column, column', sound, run, fits => by
    cases column with
    | map data =>
      obtain ⟨data', ran, rfl⟩ := around_eq_ok run
      have sound : data.Sound := sound
      have inner := gains pairs sound ran fits
      exact TypedColumn.gains_map inner
    | _ => cases run

theorem RowValue.gains_appendItems : ∀ (items : List RowValue) {data data' : TypedColumn},
    data.Sound → Runs (appendItems items) data () data' → data'.weight < 2 ^ 64 →
    data.Gains (values items data.type) data'
  | [], data, data', sound, run, _ => by
    cases run
    exact Gains.refl sound
  | item :: items, data, data', sound, run, fits => by
    obtain ⟨⟨⟩, data₁, first, others⟩ := runs_bind_iff.mp run
    have room := Nat.lt_of_le_of_lt (weight_le_of_runs_appendItems others) fits
    have gained := gains item sound first room
    have rest := gains_appendItems items gained.sound others fits
    rw [(grows_of_runs first).1] at rest
    exact gained.cons rest

theorem RowValue.allGain_appendTuple : ∀ (values : List RowValue) {size : Nat}
    {columns columns' : List TypedColumn}, values.length = columns.length →
    AllSound size columns → appendTuple values columns = .ok () columns' →
    weights columns' < 2 ^ 64 →
    AllGain columns size (eachValue values (types columns))
      columns'
  | [], size, [], columns', _, _, ran, _ => by
    cases ran
    exact AllGain.nil size
  | value :: values, size, column :: columns, columns', arity, sound, ran, fits => by
    obtain ⟨first, others, ranFirst, ranOthers, rfl⟩ := appendTuple_eq_ok ran
    obtain ⟨⟨soundFirst, same⟩, soundOthers⟩ := sound
    subst same
    have total : first.weight + weights others < 2 ^ 64 := fits
    exact AllGain.cons (gains value soundFirst ranFirst (by omega))
      (allGain_appendTuple values (Nat.succ.inj arity) soundOthers ranOthers (by omega))

end

/-! ## Refused values -/

mutual

theorem RowValue.refusedFirst_of_fits : ∀ (value : RowValue) (type : RowType),
    value.fits type = true → value.refusedFirst type = true
  | .array items, .array item, fits => itemRefusedFirst_of_allFit items item fits
  | .present value, .nullable item, fits => refusedFirst_of_fits value item fits
  | .tuple items, .tuple types, fits => by
    have fits : (items.length == types.length && eachFits items types) = true := fits
    obtain ⟨-, each⟩ := Bool.and_eq_true_iff.mp fits
    rw [refusedFirst, lastRefusedFirst_of_eachFits items types each,
      Bool.or_true]
  | .map pairs, .map type, fits => refusedFirst_of_fits pairs type fits
  | .leaf _, type, _ => by cases type <;> rfl
  | .null, type, _ => by cases type <;> rfl

theorem RowValue.itemRefusedFirst_of_allFit : ∀ (items : List RowValue) (type : RowType),
    allFit items type = true → itemRefusedFirst items type = true
  | [], _, _ => by rw [itemRefusedFirst]
  | item :: items, type, fits => by
    obtain ⟨first, others⟩ := Bool.and_eq_true_iff.mp fits
    rw [itemRefusedFirst, if_pos first, others,
      itemRefusedFirst_of_allFit items type others, ite_self]

theorem RowValue.lastRefusedFirst_of_eachFits : ∀ (values : List RowValue) (types : List RowType),
    eachFits values types = true → lastRefusedFirst values types = true
  | value :: values, type :: types, fits => by
    obtain ⟨first, others⟩ := Bool.and_eq_true_iff.mp fits
    rw [lastRefusedFirst, if_pos others, first, Bool.true_or]
  | [], _, _ => by simp only [lastRefusedFirst]
  | _ :: _, [], _ => rfl

end

/-- If the value is refused, all is as before, and rows that are appended later are read back. -/
def TypedColumn.AllOrNothing (value : RowValue) (column : TypedColumn) : Prop :=
  ∀ e column', Throws value.append column e column' →
    column' = column ∧
      (column.Sound → ∀ rows column'', Runs (appendItems rows) column' () column'' →
        column''.weight < 2 ^ 64 → column.Gains (values rows column.type) column'')

/-- Nothing is left of a refused value exactly if nothing that takes room came before the part that
was refused. -/
theorem TypedColumn.allOrNothing_iff (value : RowValue) (column : TypedColumn) :
    column.AllOrNothing value ↔ value.refusedFirst column.type = true := by
  cases fits : value.fits column.type with
  | true =>
    -- An accepted value does not throw.
    obtain ⟨accepted, run, -⟩ := (value.outcome column).accepted fits
    refine iff_of_true ?_ (value.refusedFirst_of_fits column.type fits)
    intro e column' thrown
    cases thrown.symm.trans run
  | false =>
    obtain ⟨e, left, thrown, leaves⟩ := (value.outcome column).refused fits
    constructor
    · intro whole
      obtain ⟨same, -⟩ := whole e left thrown
      by_contra later
      have heavier := leaves.heavier (Bool.eq_false_iff.mpr later)
      rw [same] at heavier
      exact Nat.lt_irrefl _ heavier
    · intro first e' column' thrown'
      have same : column' = column := by
        cases thrown.symm.trans thrown'
        exact leaves.unchanged first
      refine ⟨same, fun sound rows column'' run room => ?_⟩
      subst same
      exact gains_appendItems rows sound run room

/-- `Append(std::string_view)` and its like -/
def LeafValue.ofBytes (data : Bytes) : LeafValue
  | .fixedString _ => .ok data
  | .string => .ok data
  | .json => .ok data
  | _ => .error .undefinedBehavior

/-- Two strings, of which the second is too long for a `FixedString(2)`. -/
def overlong : RowValue :=
  .array [.leaf (LeafValue.ofBytes [97, 98]), .leaf (LeafValue.ofBytes [97, 98, 99])]

/-- The first string stays in the data of the array, where the next row is read. -/
theorem TypedColumn.not_allOrNothing_overlong :
    ∃ column left : TypedColumn, column = .array (.leaf (.fixedString ⟨2, []⟩)) [] ∧
      left = after overlong.append column ∧ ¬ column.AllOrNothing overlong ∧
      (after (append (.array [.leaf (LeafValue.ofBytes [99, 100])])) left).row? 0 =
        some (.array [.bytes [97, 98]]) := by
  refine ⟨_, _, rfl, rfl, fun whole => ?_, ?_⟩
  · obtain ⟨same, -⟩ := whole _ _ rfl
    cases same
  · have strings : after (append (.array [.leaf (LeafValue.ofBytes [99, 100])]))
        (.array (.leaf (.fixedString ⟨2, [97, 98]⟩)) []) =
          .array (.leaf (.fixedString ⟨2, [97, 98, 99, 100]⟩)) (addOffset [] 1) := rfl
    have one : getSize (addOffset [] 1) 0 = 1 := by decide
    have row : (array (.leaf (.fixedString ⟨2, [97, 98, 99, 100]⟩))
        (addOffset [] 1)).row? 0 = some (.array [.bytes [97, 98]]) := by
      rw [row?, toColumn, Column.row?, one]
      rfl
    exact (congrArg (row? · 0) strings).trans row

end ClickHouse
