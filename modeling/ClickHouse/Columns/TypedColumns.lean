import ClickHouse.Columns.Appending
import ClickHouse.Columns.FailedCalls
import ClickHouse.Kit.Ending

/-!
# Typed columns

`ColumnArrayT`, `ColumnTupleT`, `ColumnMapT` and `ColumnNullableT` take a row as
one value and spread it over their component columns, one after the other.  A
leaf may refuse its part.  The appends are modelled here one component at a
time, so that what a refusal leaves behind is a matter of their order.
-/

namespace ClickHouse

open Kit Leaf

/-! ## Columns and values -/

/-- What the template arguments of a typed column say. -/
inductive RowType
  | leaf (type : LeafType)
  | array (item : RowType)
  | nullable (item : RowType)
  | tuple (items : List RowType)
  /-- A map holds an array of pairs. -/
  | map (pairs : RowType)

/-- A leaf column, or one of the wrappers around the columns it is made of. -/
inductive TypedColumn
  | leaf (column : Leaf)
  | array (data : TypedColumn) (offsets : ColumnVector 8)
  | nullable (nested : TypedColumn) (nulls : ColumnVector 1)
  | tuple (columns : List TypedColumn)
  | map (data : TypedColumn)

mutual

def TypedColumn.type : TypedColumn → RowType
  | .leaf column => .leaf column.type
  | .array data _ => .array data.type
  | .nullable nested _ => .nullable nested.type
  | .tuple columns => .tuple (TypedColumn.types columns)
  | .map data => .map data.type

def TypedColumn.types : List TypedColumn → List RowType
  | [] => []
  | column :: columns => column.type :: TypedColumn.types columns

end

mutual

/-- The column of the untyped interface that the wrapper is. -/
def TypedColumn.toColumn : TypedColumn → Column
  | .leaf column => .leaf column
  | .array data offsets => .array data.toColumn offsets
  | .nullable nested nulls => .nullable nested.toColumn nulls
  | .tuple columns => .tuple (TypedColumn.toColumns columns) []
  | .map data => .map data.toColumn

def TypedColumn.toColumns : List TypedColumn → List Column
  | [] => []
  | column :: columns => column.toColumn :: TypedColumn.toColumns columns

end

def TypedColumn.size (column : TypedColumn) : Nat := column.toColumn.size

def TypedColumn.row? (column : TypedColumn) (n : Nat) : Option Value := column.toColumn.row? n

/-- The C++ type of a row of a leaf column. -/
def LeafType.Item : LeafType → Type
  | .fixed type => Word type.width
  | .fixedString _ => Bytes
  | .string => Bytes
  | .json => Bytes
  | .void => Unit

/-- A value that a leaf column is given: what the overload of `Append` makes of it before it comes
to the column.  The text of an address, the digits of a decimal and the label of an enum can be
refused there. -/
abbrev LeafValue := (type : LeafType) → Except Error type.Item

inductive RowValue
  | leaf (value : LeafValue)
  | array (items : List RowValue)
  /-- An optional value that is absent. -/
  | null
  | present (value : RowValue)
  | tuple (items : List RowValue)
  | map (pairs : RowValue)

/-! ## Append -/

/-- `Append` of a value of the own type of a leaf column. -/
def Leaf.appendItem : (column : Leaf) → column.type.Item → Except Error Leaf
  | .fixed type data, item => .ok (.fixed type (data ++ [(show Word type.width from item)]))
  | .fixedString column, item => (column.append item).map .fixedString
  | .string items, item => .ok (.string (items ++ [(show Bytes from item)]))
  | .json items, item => .ok (.json (items ++ [(show Bytes from item)]))
  | .nothing size, _ => .ok (.nothing (size + 1))

def Leaf.appendValue (value : LeafValue) (column : Leaf) : Except Error Leaf := do
  let item ← value column.type
  column.appendItem item

/-- The value-initialised value of the type. -/
def LeafType.defaultItem : (type : LeafType) → type.Item
  | .fixed type => Word.ofNat type.width 0
  | .fixedString _ => []
  | .string => []
  | .json => []
  | .void => ()

def Leaf.appendDefault : Leaf → Leaf
  | .fixed type data => .fixed type (data ++ [Word.ofNat type.width 0])
  | .fixedString column =>
    .fixedString ⟨column.stringSize, column.data ++ padded column.stringSize []⟩
  | .string items => .string (items ++ [[]])
  | .json items => .json (items ++ [[]])
  | .nothing size => .nothing (size + 1)

/-- `ColumnVector::Erase` -/
def ColumnVector.erase {w : Nat} (data : ColumnVector w) (pos count : Nat) : ColumnVector w :=
  let first := min pos data.length
  let last := first + min (data.length - first) count
  data.take first ++ data.drop last

mutual

/-- `Append` of the value-initialised value of a row, which no leaf refuses. -/
def TypedColumn.appendDefault : TypedColumn → TypedColumn
  | .leaf column => .leaf column.appendDefault
  | .array data offsets => .array data (addOffset offsets 0)
  | .nullable nested nulls => .nullable nested.appendDefault (nulls ++ [Word.ofNat 1 1])
  | .tuple columns => .tuple (TypedColumn.appendDefaults columns)
  | .map data => .map data.appendDefault

def TypedColumn.appendDefaults : List TypedColumn → List TypedColumn
  | [] => []
  | column :: columns => column.appendDefault :: TypedColumn.appendDefaults columns

end

mutual

/-- `Append` of a row.  A value of another type than the column does not compile; it is refused here
before anything is done. -/
def RowValue.append : RowValue → EStateM Error TypedColumn Unit
  | .leaf value => fun column =>
    match column with
    | .leaf own => around .leaf .leaf (assigns (appendValue value) own)
    | _ => .error .undefinedBehavior column
  | .array items => fun column =>
    match column with
    | .array data offsets =>
      -- The offset is added if no element was refused.
      around (.array · (addOffset offsets items.length)) (.array · offsets)
        (RowValue.appendItems items data)
    | _ => .error .undefinedBehavior column
  | .null => fun column =>
    match column with
    | .nullable nested nulls =>
      .ok () (.nullable nested.appendDefault (nulls ++ [Word.ofNat 1 1]))
    | _ => .error .undefinedBehavior column
  | .present value => fun column =>
    match column with
    | .nullable nested nulls =>
      -- If the nested column refuses its part, the flag is erased again.
      around (.nullable · (nulls ++ [Word.ofNat 1 0]))
        (.nullable · (ColumnVector.erase (nulls ++ [Word.ofNat 1 0]) nulls.length 1))
        (value.append nested)
    | _ => .error .undefinedBehavior column
  | .tuple items => fun column =>
    match column with
    | .tuple columns =>
      if items.length = columns.length then
        around .tuple .tuple (RowValue.appendTuple items columns)
      else .error .undefinedBehavior column
    | _ => .error .undefinedBehavior column
  | .map pairs => fun column =>
    match column with
    | .map data => around .map .map (pairs.append data)
    | _ => .error .undefinedBehavior column

/-- The loop of `ColumnArrayT::Append`. -/
def RowValue.appendItems : List RowValue → EStateM Error TypedColumn Unit
  | [] => pure ()
  | item :: items => do
    item.append
    RowValue.appendItems items

/-- `ColumnTupleT::AppendTuple`, which begins with the last element. -/
def RowValue.appendTuple : List RowValue → List TypedColumn →
    EStateM.Result Error (List TypedColumn) Unit
  | value :: values, column :: columns =>
    match RowValue.appendTuple values columns with
    | .ok _ columns => around (· :: columns) (· :: columns) (value.append column)
    | .error e columns => .error e (column :: columns)
  | _, columns => .ok () columns

end

mutual

/-- The value-initialised row of a type. -/
def RowType.defaultValue : RowType → RowValue
  | .leaf _ => .leaf fun type => .ok type.defaultItem
  | .array _ => .array []
  | .nullable _ => .null
  | .tuple items => .tuple (RowType.defaultValues items)
  | .map pairs => .map pairs.defaultValue

def RowType.defaultValues : List RowType → List RowValue
  | [] => []
  | item :: items => item.defaultValue :: RowType.defaultValues items

end

theorem Leaf.appendValue_default (column : Leaf) :
    column.appendValue (fun type => .ok type.defaultItem) = .ok column.appendDefault := by
  cases column with
  | fixedString column =>
    have short : ([] : Bytes).length ≤ column.stringSize := Nat.zero_le _
    show (column.append []).map fixedString = _
    rw [FixedStrings.append, if_pos short]
    rfl
  | _ => rfl

theorem length_defaultValues (columns : List TypedColumn) :
    (RowType.defaultValues (TypedColumn.types columns)).length = columns.length := by
  induction columns with
  | nil => rfl
  | cons column columns ih => simp [TypedColumn.types, RowType.defaultValues, ih]

mutual

/-- What a nullable column gives to its nested column for an absent value. -/
theorem TypedColumn.runs_append_default : ∀ column : TypedColumn,
    Runs column.type.defaultValue.append column () column.appendDefault
  | .leaf column => by
    have run := runs_assigns (f := appendValue fun type => .ok type.defaultItem)
      column.appendValue_default
    exact congrArg (around TypedColumn.leaf TypedColumn.leaf) run
  | .array data offsets => rfl
  | .nullable nested nulls => rfl
  | .tuple columns => by
    have run := TypedColumn.appendTuple_default columns
    show (if _ then around TypedColumn.tuple TypedColumn.tuple (RowValue.appendTuple _ columns)
      else _) = _
    rw [if_pos (length_defaultValues columns), run]
    rfl
  | .map data => by
    have run := TypedColumn.runs_append_default data
    exact congrArg (around TypedColumn.map TypedColumn.map) run

theorem TypedColumn.appendTuple_default : ∀ columns : List TypedColumn,
    RowValue.appendTuple (RowType.defaultValues (TypedColumn.types columns)) columns =
      .ok () (TypedColumn.appendDefaults columns)
  | [] => rfl
  | column :: columns => by
    have first := TypedColumn.runs_append_default column
    unfold Runs at first
    rw [TypedColumn.types, RowType.defaultValues, RowValue.appendTuple,
      TypedColumn.appendTuple_default columns]
    dsimp only
    rw [first]
    rfl

end

/-! ## Values that are refused -/

/-- The column takes the item: a `FixedString` must not be longer than its length. -/
def LeafType.admits : (type : LeafType) → type.Item → Bool
  | .fixedString size, item => decide ((show Bytes from item).length ≤ size)
  | .fixed _, _ => true
  | .string, _ => true
  | .json, _ => true
  | .void, _ => true

def LeafType.takes (type : LeafType) (value : LeafValue) : Bool :=
  match value type with
  | .ok item => type.admits item
  | .error _ => false

mutual

/-- No part of the value is refused. -/
def RowValue.fits : RowValue → RowType → Bool
  | .leaf value, .leaf type => type.takes value
  | .array items, .array item => RowValue.allFit items item
  | .null, .nullable _ => true
  | .present value, .nullable item => value.fits item
  | .tuple items, .tuple types => items.length == types.length && RowValue.eachFits items types
  | .map pairs, .map type => pairs.fits type
  | _, _ => false

def RowValue.allFit : List RowValue → RowType → Bool
  | [], _ => true
  | item :: items, type => item.fits type && RowValue.allFit items type

def RowValue.eachFits : List RowValue → List RowType → Bool
  | value :: values, type :: types => value.fits type && RowValue.eachFits values types
  | _, _ => true

end

mutual

/-- A row of the type takes room.  A string of length zero takes none, nor does a tuple without
elements. -/
def RowType.takesRoom : RowType → Bool
  | .leaf (.fixedString size) => size != 0
  | .leaf _ => true
  | .array _ => true
  | .nullable _ => true
  | .tuple items => RowType.anyTakesRoom items
  | .map pairs => pairs.takesRoom

def RowType.anyTakesRoom : List RowType → Bool
  | [] => false
  | item :: items => item.takesRoom || RowType.anyTakesRoom items

end

mutual

/-- A part of the value that is refused is the first that a column is given, but for those that take
no room. -/
def RowValue.refusedFirst : RowValue → RowType → Bool
  | .array items, .array item => RowValue.itemRefusedFirst items item
  | .present value, .nullable item => value.refusedFirst item
  | .tuple items, .tuple types =>
    items.length != types.length || RowValue.lastRefusedFirst items types
  | .map pairs, .map type => pairs.refusedFirst type
  | _, _ => true

/-- The elements of an array are appended from the first to the last. -/
def RowValue.itemRefusedFirst : List RowValue → RowType → Bool
  | [], _ => true
  | item :: items, type =>
    if item.fits type then
      if type.takesRoom then RowValue.allFit items type else RowValue.itemRefusedFirst items type
    else item.refusedFirst type

/-- The elements of a tuple are appended from the last to the first. -/
def RowValue.lastRefusedFirst : List RowValue → List RowType → Bool
  | value :: values, type :: types =>
    if RowValue.eachFits values types then
      value.fits type || !RowType.anyTakesRoom types && value.refusedFirst type
    else RowValue.lastRefusedFirst values types
  | _, _ => true

end

/-! ## What a refused value leaves behind -/

def Leaf.weight : Leaf → Nat
  | .fixed _ data => data.length
  | .fixedString column => column.data.length
  | .string items => items.length
  | .json items => items.length
  | .nothing size => size

mutual

/-- All that the component columns hold. -/
def TypedColumn.weight : TypedColumn → Nat
  | .leaf column => column.weight
  | .array data offsets => data.weight + offsets.length
  | .nullable nested nulls => nested.weight + nulls.length
  | .tuple columns => TypedColumn.weights columns
  | .map data => data.weight

def TypedColumn.weights : List TypedColumn → Nat
  | [] => 0
  | column :: columns => column.weight + TypedColumn.weights columns

end

/-- Nothing was appended if `same`, and something otherwise. -/
structure Leaves {α : Type} (f : α → Nat) (same : Bool) (a a' : α) : Prop where
  unchanged : same = true → a' = a
  heavier : same = false → f a < f a'

namespace Leaves

variable {α β : Type} {f : α → Nat} {same : Bool} {a a' : α}

theorem refl (f : α → Nat) (a : α) : Leaves f true a a :=
  ⟨fun _ => rfl, fun later => absurd later.symm Bool.false_ne_true⟩

theorem of_lt (heavier : f a < f a') : Leaves f false a a' :=
  ⟨fun same => absurd same Bool.false_ne_true, fun _ => heavier⟩

theorem le (leaves : Leaves f same a a') : f a ≤ f a' := by
  cases same with
  | true => exact Nat.le_of_eq (congrArg f (leaves.unchanged rfl)).symm
  | false => exact Nat.le_of_lt (leaves.heavier rfl)

/-- A wrapper that is as much heavier as its component is. -/
theorem map {f' : β → Nat} (leaves : Leaves f same a a') (g : α → β)
    (weights : f a < f a' → f' (g a) < f' (g a')) : Leaves f' same (g a) (g a') :=
  ⟨fun whole => congrArg g (leaves.unchanged whole), fun later => weights (leaves.heavier later)⟩

end Leaves

namespace RowValue

/-- What an append that returns does. -/
def Taken (column column' : TypedColumn) : Prop :=
  column'.type = column.type ∧ Leaves TypedColumn.weight (!column.type.takesRoom) column column'

/-- What the elements of a tuple do to its columns. -/
def AllTaken (columns columns' : List TypedColumn) : Prop :=
  TypedColumn.types columns' = TypedColumn.types columns ∧
    Leaves TypedColumn.weights (!RowType.anyTakesRoom (TypedColumn.types columns)) columns columns'

/-- `Append` of a value ends as the types say. -/
abbrev Outcome (value : RowValue) (column : TypedColumn) : Prop :=
  Ends (value.append column) (value.fits column.type) (Taken column)
    (Leaves TypedColumn.weight (value.refusedFirst column.type) column)

abbrev ItemsOutcome (items : List RowValue) (data : TypedColumn) : Prop :=
  Ends (appendItems items data) (allFit items data.type)
    (fun data' => data'.type = data.type ∧ data.weight ≤ data'.weight)
    (Leaves TypedColumn.weight (itemRefusedFirst items data.type) data)

abbrev TupleOutcome (values : List RowValue) (columns : List TypedColumn) : Prop :=
  Ends (appendTuple values columns) (eachFits values (TypedColumn.types columns))
    (AllTaken columns)
    (Leaves TypedColumn.weights (lastRefusedFirst values (TypedColumn.types columns)) columns)

end RowValue

theorem length_lt_concat {α : Type} (l : List α) (a : α) : l.length < (l ++ [a]).length := by
  simp

theorem erase_concat {w : Nat} (data : ColumnVector w) (a : Word w) :
    ColumnVector.erase (data ++ [a]) data.length 1 = data := by
  simp [ColumnVector.erase]

section Leaf

variable {column : Leaf} {item : column.type.Item}

theorem Leaf.appendItem_ok (admits : column.type.admits item = true) :
    ∃ column', column.appendItem item = .ok column' ∧ column'.type = column.type ∧
      Leaves weight (!(RowType.leaf column.type).takesRoom) column column' := by
  cases column with
  | fixedString column =>
    have short : (show Bytes from item).length ≤ column.stringSize := of_decide_eq_true admits
    have length := length_padded short
    refine ⟨_, congrArg (Except.map fixedString) (if_pos short), rfl, ?_, ?_⟩
    · intro none
      have none : (!(column.stringSize != 0)) = true := none
      have empty : padded column.stringSize item = [] :=
        List.eq_nil_of_length_eq_zero (by simpa [length] using none)
      rw [empty, List.append_nil]
    · intro some
      have some : (!(column.stringSize != 0)) = false := some
      have positive : column.stringSize ≠ 0 := by simpa using some
      show column.data.length < (column.data ++ padded column.stringSize _).length
      rw [List.length_append, length]
      omega
  | fixed type data => exact ⟨_, rfl, rfl, .of_lt (length_lt_concat data item)⟩
  | string items => exact ⟨_, rfl, rfl, .of_lt (length_lt_concat items item)⟩
  | json items => exact ⟨_, rfl, rfl, .of_lt (length_lt_concat items item)⟩
  | nothing size => exact ⟨_, rfl, rfl, .of_lt (Nat.lt_succ_self size)⟩

theorem Leaf.appendItem_error (refused : column.type.admits item = false) :
    ∃ e, column.appendItem item = .error e := by
  cases column with
  | fixedString column =>
    have long : ¬ (show Bytes from item).length ≤ column.stringSize := of_decide_eq_false refused
    exact ⟨_, congrArg (Except.map fixedString) (if_neg long)⟩
  | _ => cases refused

theorem Leaf.appendDefault_facts (column : Leaf) :
    column.appendDefault.type = column.type ∧ column.weight ≤ column.appendDefault.weight := by
  cases column with
  | fixed type data => exact ⟨rfl, Nat.le_of_lt (length_lt_concat data _)⟩
  | fixedString column => exact ⟨rfl, by simp [appendDefault, weight]⟩
  | string items => exact ⟨rfl, Nat.le_of_lt (length_lt_concat items _)⟩
  | json items => exact ⟨rfl, Nat.le_of_lt (length_lt_concat items _)⟩
  | nothing size => exact ⟨rfl, Nat.le_succ size⟩

end Leaf

mutual

theorem TypedColumn.appendDefault_facts : ∀ column : TypedColumn,
    column.appendDefault.type = column.type ∧ column.weight ≤ column.appendDefault.weight
  | .leaf column => by
    obtain ⟨type, weight⟩ := column.appendDefault_facts
    exact ⟨congrArg RowType.leaf type, weight⟩
  | .array data offsets => by
    refine ⟨rfl, Nat.add_le_add_left ?_ data.weight⟩
    exact Nat.le_of_lt (length_lt_concat offsets _)
  | .nullable nested nulls => by
    obtain ⟨type, weight⟩ := TypedColumn.appendDefault_facts nested
    exact ⟨congrArg RowType.nullable type,
      Nat.add_le_add weight (Nat.le_of_lt (length_lt_concat nulls _))⟩
  | .tuple columns => by
    obtain ⟨types, weights⟩ := TypedColumn.appendDefaults_facts columns
    exact ⟨congrArg RowType.tuple types, weights⟩
  | .map data => by
    obtain ⟨type, weight⟩ := TypedColumn.appendDefault_facts data
    exact ⟨congrArg RowType.map type, weight⟩

theorem TypedColumn.appendDefaults_facts : ∀ columns : List TypedColumn,
    TypedColumn.types (TypedColumn.appendDefaults columns) = TypedColumn.types columns ∧
      TypedColumn.weights columns ≤ TypedColumn.weights (TypedColumn.appendDefaults columns)
  | [] => ⟨rfl, Nat.le_refl 0⟩
  | column :: columns => by
    obtain ⟨type, weight⟩ := TypedColumn.appendDefault_facts column
    obtain ⟨types, weights⟩ := TypedColumn.appendDefaults_facts columns
    constructor
    · rw [TypedColumn.appendDefaults, TypedColumn.types, TypedColumn.types, type, types]
    · exact Nat.add_le_add weight weights

end

theorem TypedColumn.length_types (columns : List TypedColumn) :
    (TypedColumn.types columns).length = columns.length := by
  induction columns with
  | nil => rfl
  | cons column columns ih => rw [TypedColumn.types, List.length_cons, List.length_cons, ih]

/-- The others were given their parts before the first column of a tuple. -/
theorem Leaves.cons {room same : Bool} {column column' : TypedColumn}
    {columns columns' : List TypedColumn} (late : Leaves TypedColumn.weight same column column')
    (early : Leaves TypedColumn.weights (!room) columns columns') :
    Leaves TypedColumn.weights (!room && same) (column :: columns) (column' :: columns') := by
  cases room with
  | true => exact .of_lt (Nat.add_lt_add_of_le_of_lt late.le (early.heavier rfl))
  | false =>
    have same := early.unchanged rfl
    subst same
    exact late.map (· :: columns') fun heavier => Nat.add_lt_add_right heavier _

namespace RowValue

variable {value : RowValue} {items values : List RowValue} {column data nested : TypedColumn}
  {columns : List TypedColumn} {nulls : ColumnVector 1}

/-- A leaf is given its part as a whole or not at all. -/
theorem outcome_leaf (value : LeafValue) (own : Leaf) : Outcome (.leaf value) (.leaf own) := by
  have inner : Ends (assigns (appendValue value) own) (own.type.takes value)
      (fun own' => own'.type = own.type ∧
        Leaves weight (!(RowType.leaf own.type).takesRoom) own own')
      (Leaves weight true own) := by
    unfold LeafType.takes
    cases converted : value own.type with
    | error e =>
      have error : own.appendValue value = .error e := by
        rw [appendValue, converted]
        rfl
      exact Ends.of_error (throws_assigns error) (Leaves.refl _ own)
    | ok item =>
      have step : own.appendValue value = own.appendItem item := by
        rw [appendValue, converted]
        rfl
      dsimp only
      cases admits : own.type.admits item with
      | true =>
        obtain ⟨own', appended, taken⟩ := appendItem_ok admits
        exact Ends.of_ok (runs_assigns (step.trans appended)) taken
      | false =>
        obtain ⟨e, error⟩ := appendItem_error admits
        exact Ends.of_error (throws_assigns (step.trans error)) (Leaves.refl _ own)
  refine inner.around ?_ ?_
  · exact fun own' taken => ⟨congrArg RowType.leaf taken.1, taken.2.map TypedColumn.leaf id⟩
  · exact fun own' leaves => leaves.map TypedColumn.leaf id

/-- A value of another type is refused before anything is done. -/
theorem outcome_of_mismatch (misfit : value.fits column.type = false)
    (first : value.refusedFirst column.type = true)
    (thrown : value.append column = .error .undefinedBehavior column) : value.Outcome column := by
  rw [Outcome, misfit, first]
  exact Ends.of_error thrown (Leaves.refl _ column)

theorem outcome_array {offsets : ColumnVector 8} (inner : ItemsOutcome items data) :
    Outcome (.array items) (.array data offsets) := by
  refine inner.around ?_ ?_
  · rintro data' ⟨type, weight⟩
    refine ⟨congrArg RowType.array type, .of_lt ?_⟩
    exact Nat.add_lt_add_of_le_of_lt weight (length_lt_concat offsets _)
  · exact fun data' leaves => leaves.map (TypedColumn.array · offsets) fun heavier =>
      Nat.add_lt_add_right heavier offsets.length

theorem outcome_present (inner : value.Outcome nested) :
    Outcome (.present value) (.nullable nested nulls) := by
  refine inner.around ?_ ?_
  · rintro nested' ⟨type, leaves⟩
    refine ⟨congrArg RowType.nullable type, .of_lt ?_⟩
    exact Nat.add_lt_add_of_le_of_lt leaves.le (length_lt_concat nulls _)
  · intro nested' leaves
    rw [erase_concat]
    exact leaves.map (TypedColumn.nullable · nulls) fun heavier =>
      Nat.add_lt_add_right heavier nulls.length

theorem outcome_null : Outcome .null (.nullable nested nulls) := by
  obtain ⟨type, weight⟩ := nested.appendDefault_facts
  refine Ends.of_ok rfl ⟨congrArg RowType.nullable type, .of_lt ?_⟩
  exact Nat.add_lt_add_of_le_of_lt weight (length_lt_concat nulls _)

theorem outcome_map (inner : value.Outcome data) : Outcome (.map value) (.map data) := by
  refine inner.around ?_ ?_
  · exact fun data' taken => ⟨congrArg RowType.map taken.1, taken.2.map TypedColumn.map id⟩
  · exact fun data' leaves => leaves.map TypedColumn.map id

theorem outcome_tuple (inner : items.length = columns.length → TupleOutcome items columns) :
    Outcome (.tuple items) (.tuple columns) := by
  by_cases arity : items.length = columns.length
  · have ran : append (.tuple items) (.tuple columns) =
        around .tuple .tuple (appendTuple items columns) := if_pos arity
    have same : (items.length == (TypedColumn.types columns).length) = true := by
      rw [TypedColumn.length_types, arity, beq_self_eq_true]
    have fits : fits (.tuple items) (TypedColumn.tuple columns).type =
        eachFits items (TypedColumn.types columns) := by
      show (_ && _) = _
      rw [same, Bool.true_and]
    have first : refusedFirst (.tuple items) (TypedColumn.tuple columns).type =
        lastRefusedFirst items (TypedColumn.types columns) := by
      show (_ != _ || _) = _
      rw [bne, same, Bool.not_true, Bool.false_or]
    rw [Outcome, ran, fits, first]
    refine (inner arity).around ?_ ?_
    · exact fun columns' taken =>
        ⟨congrArg RowType.tuple taken.1, taken.2.map TypedColumn.tuple id⟩
    · exact fun columns' leaves => leaves.map TypedColumn.tuple id
  · have differ : (items.length == (TypedColumn.types columns).length) = false := by
      rw [TypedColumn.length_types]
      exact beq_eq_false_iff_ne.mpr arity
    refine outcome_of_mismatch ?_ ?_ (if_neg arity)
    · show (_ && _) = false
      rw [differ, Bool.false_and]
    · show (_ != _ || _) = true
      rw [bne, differ, Bool.not_false, Bool.true_or]

theorem itemsOutcome_cons (first : value.Outcome data)
    (rest : ∀ data', ItemsOutcome items data') : ItemsOutcome (value :: items) data := by
  show Ends _ (value.fits data.type && allFit items data.type) _ _
  refine first.bind ?_ ?_
  · rintro fits data₁ ⟨type, early⟩
    have late := rest data₁
    rw [ItemsOutcome, type] at late
    refine late.imp ?_ ?_
    · exact fun _ data' made => ⟨made.1, early.le.trans made.2⟩
    · intro misfit data' left
      rw [itemRefusedFirst, fits, if_pos rfl, misfit]
      cases room : data.type.takesRoom with
      | true =>
        rw [room] at early
        exact .of_lt (Nat.lt_of_lt_of_le (early.heavier rfl) left.le)
      | false =>
        rw [room] at early
        have same := early.unchanged rfl
        subst same
        exact left
  · intro misfit data' left
    rw [itemRefusedFirst, misfit, if_neg Bool.false_ne_true]
    exact left

theorem tupleOutcome_cons (first : value.Outcome column) (rest : TupleOutcome values columns) :
    TupleOutcome (value :: values) (column :: columns) := by
  cases fits : eachFits values (TypedColumn.types columns) with
  | true =>
    obtain ⟨columns', others, types, early⟩ := rest.accepted fits
    have ran : appendTuple (value :: values) (column :: columns) =
        around (· :: columns') (· :: columns') (value.append column) := by
      rw [appendTuple, others]
    have whole : eachFits (value :: values) (TypedColumn.types (column :: columns)) =
        value.fits column.type := by
      rw [TypedColumn.types, eachFits, fits, Bool.and_true]
    rw [TupleOutcome, ran, whole]
    have first := first.imp (fun _ _ => id) fun misfit column' late =>
      show value.fits column.type = false ∧ _ from ⟨misfit, late⟩
    refine first.around ?_ ?_
    · rintro column' ⟨type, late⟩
      constructor
      · rw [TypedColumn.types, TypedColumn.types, type, types]
      · rw [TypedColumn.types, RowType.anyTakesRoom, Bool.not_or, Bool.and_comm]
        exact late.cons early
    · rintro column' ⟨misfit, late⟩
      rw [TypedColumn.types, lastRefusedFirst, fits, if_pos rfl, misfit, Bool.false_or]
      exact late.cons early
  | false =>
    obtain ⟨e, columns', thrown, leaves⟩ := rest.refused fits
    have whole : eachFits (value :: values) (TypedColumn.types (column :: columns)) = false := by
      rw [TypedColumn.types, eachFits, fits, Bool.and_false]
    rw [TupleOutcome, whole]
    have ended : appendTuple (value :: values) (column :: columns) =
        .error e (column :: columns') := by
      rw [appendTuple, thrown]
    refine Ends.of_error ended ?_
    rw [TypedColumn.types, lastRefusedFirst, fits, if_neg Bool.false_ne_true]
    exact leaves.map (column :: ·) fun heavier => Nat.add_lt_add_left heavier _

mutual

/-- What an append does is settled by the types. -/
theorem outcome : ∀ (value : RowValue) (column : TypedColumn), value.Outcome column
  | .leaf value, column => by
    cases column with
    | leaf own => exact outcome_leaf value own
    | _ => exact outcome_of_mismatch rfl rfl rfl
  | .array items, column => by
    cases column with
    | array data offsets => exact outcome_array (itemsOutcome items data)
    | _ => exact outcome_of_mismatch rfl rfl rfl
  | .null, column => by
    cases column with
    | nullable nested nulls => exact outcome_null
    | _ => exact outcome_of_mismatch rfl rfl rfl
  | .present value, column => by
    cases column with
    | nullable nested nulls => exact outcome_present (outcome value nested)
    | _ => exact outcome_of_mismatch rfl rfl rfl
  | .tuple items, column => by
    cases column with
    | tuple columns => exact outcome_tuple (tupleOutcome items columns)
    | _ => exact outcome_of_mismatch rfl rfl rfl
  | .map pairs, column => by
    cases column with
    | map data => exact outcome_map (outcome pairs data)
    | _ => exact outcome_of_mismatch rfl rfl rfl

theorem itemsOutcome : ∀ (items : List RowValue) (data : TypedColumn), ItemsOutcome items data
  | [], _ => Ends.of_ok rfl ⟨rfl, Nat.le_refl _⟩
  | item :: items, data => itemsOutcome_cons (outcome item data) (itemsOutcome items)

theorem tupleOutcome : ∀ (values : List RowValue) (columns : List TypedColumn),
    values.length = columns.length → TupleOutcome values columns
  | [], [], _ => Ends.of_ok rfl ⟨rfl, Leaves.refl _ []⟩
  | value :: values, column :: columns, arity =>
    tupleOutcome_cons (outcome value column) (tupleOutcome values columns (Nat.succ.inj arity))

end

end RowValue

end ClickHouse
