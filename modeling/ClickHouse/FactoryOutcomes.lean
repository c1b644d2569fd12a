import ClickHouse.Columns.Measures
import ClickHouse.FactoryRoundTrip

/-!
# Outcomes of the column factory

Whether `CreateColumnFromAst` makes a column can be read off a type name: each
element has an outcome, which follows from its arguments and from the outcomes
of its elements.  Columns do not occur in it; a column that is made is known by
its measure, by what a LowCardinality column can use it for, and by the
wrappers over strings of length zero in it.
-/

namespace ClickHouse

open Kit List Column LowCardinality

/-! ## Outcomes of type names -/

/-- How a call fails. -/
inductive Fault
  | thrown
  /-- A null pointer is used. -/
  | dereferenced
  | divided
deriving DecidableEq, Repr

/-- What a column is as the dictionary of a LowCardinality column. -/
inductive DictionaryUse
  | keys
  | nullableKeys
  | refused
deriving DecidableEq, Repr

/-- The use of a nullable column over a column. -/
def DictionaryUse.nullable : DictionaryUse → DictionaryUse
  | .keys => .nullableKeys
  | _ => .refused

/-- What the factory and the members of a column ask of a column. -/
structure Shape where
  measure : Measure
  use : DictionaryUse
  wrapsNothing : Bool
deriving DecidableEq, Repr

/-- A column of this shape, a null pointer or a failure. -/
abbrev Outcome := Except Fault (Option Shape)

namespace Shape

/-- A column that counts its rows and cannot be a dictionary. -/
def counted : Shape := ⟨.count, .refused, false⟩

/-- The size of the column is taken. -/
def sized (shape : Shape) : Except Fault Shape :=
  if shape.measure.isDefined then .ok shape else .error .divided

/-- The column of the given columns as elements of a tuple. -/
def tuple (shapes : List Shape) : Shape :=
  ⟨(shapes.map measure).headD .absent, .refused, shapes.any wrapsNothing⟩

/-- `LowCardinality` of the column. -/
def asDictionary (shape : Shape) : Except Fault Shape :=
  match shape.use with
  | .keys => do
    let _ ← shape.sized
    .ok counted
  | .nullableKeys => .ok counted
  | .refused => .error .thrown

/-- `LowCardinality` of a nullable column over the column. -/
def asNullableDictionary (shape : Shape) : Except Fault Shape := do
  let shape ← shape.sized
  if shape.use = .keys then .ok counted else .error .thrown

end Shape

/-- A pointer that is used without a check. -/
def dereferenced : Option Shape → Except Fault Shape
  | some shape => .ok shape
  | none => .error .dereferenced

section Elements

variable {α : Type}

def firstElement : List α → Except Fault α
  | [] => .error .thrown
  | a :: _ => .ok a

/-- The last of at least two elements. -/
def lastElement (elements : List α) : Except Fault α :=
  if elements.length < 2 then .error .thrown
  else
    match elements.getLast? with
    | some a => .ok a
    | none => .error .thrown

end Elements

/-- The elements of a tuple or a map are made in order, until one is a null pointer or fails. -/
def collectShapes : List Outcome → Except Fault (Option (List Shape))
  | [] => .ok (some [])
  | outcome :: outcomes =>
    match outcome with
    | .error fault => .error fault
    | .ok none => .ok none
    | .ok (some shape) => do
      let shapes ← collectShapes outcomes
      .ok (shapes.map (shape :: ·))

namespace TypeAst

/-- A type with a precision below `limit` as its first argument. -/
def precisionOutcome (limit : Nat) : List TypeAst → Outcome
  | [] => .ok none
  | precision :: _ =>
    if toSizeT precision.value < limit then .ok (some .counted) else .error .thrown

/-- A type without element types.  A name that is in no table has the code `Void`. -/
def terminalOutcome (ast : TypeAst) : Outcome :=
  match ast.code with
  | .decimal => do
    let _ ← firstElement ast.elements
    let _ ← lastElement ast.elements
    .ok (some .counted)
  | .decimal32 | .decimal64 | .decimal128 => do
    let _ ← firstElement ast.elements
    .ok (some .counted)
  | .fixedString => do
    let size ← firstElement ast.elements
    .ok (some ⟨.quotient (toSizeT size.value), .keys, false⟩)
  | .dateTime64 => precisionOutcome 19 ast.elements
  | .time64 => precisionOutcome 10 ast.elements
  | .uuid => .ok (some ⟨.quotient 2, .keys, false⟩)
  | .ipv6 => .ok (some ⟨.quotient 16, .keys, false⟩)
  | .array | .nullable | .tuple | .enum8 | .enum16 | .lowCardinality | .map => .ok none
  | code =>
    if code = .string ∨ fixedSizeForDictionaryType code ≠ 0 then .ok (some ⟨.count, .keys, false⟩)
    else .ok (some .counted)

/-- A wrapper over the element. -/
def wrapperOutcome (nested : TypeAst) : Outcome :=
  match nested.code with
  | .string => .ok (some ⟨.count, .keys, false⟩)
  | .fixedString => do
    let size ← firstElement nested.elements
    if toSizeT size.value = 0 then .ok (some ⟨.quotient 0, .keys, true⟩)
    else .ok (some ⟨.count, .keys, false⟩)
  | _ => .error .thrown

/-- Some elements of a tuple have a name and some do not. -/
def partlyNamed (ast : TypeAst) : Bool :=
  ast.elements.any (fun element => !element.elementName.isEmpty) &&
    ast.elements.any fun element => element.elementName.isEmpty

/-- The outcome of an element, and those of its elements. -/
structure Outcomes where
  own : Outcome
  elements : List Outcome

/-- The element of an array or a nullable column. -/
def operandOutcome (elements : List Outcome) : Except Fault Shape := do
  let element ← firstElement elements
  let shape ← dereferenced (← element)
  shape.sized

/-- A LowCardinality column over the element, which is not wrapped. -/
def dictionaryOutcome (nested : TypeAst) (outcomes : Outcomes) : Outcome :=
  match nested.code with
  | .string | .fixedString => do
    let shape ← dereferenced (← outcomes.own)
    let shape ← shape.asDictionary
    .ok (some shape)
  -- The elements are looked at and not the element: it need not be of the kind `Nullable`.
  | .nullable => do
    let element ← firstElement outcomes.elements
    let shape ← dereferenced (← element)
    let shape ← shape.asNullableDictionary
    .ok (some shape)
  | _ => do
    match ← outcomes.own with
    | none => .error .thrown
    | some shape => do
      let shape ← shape.asDictionary
      .ok (some shape)

def outcomeOver (settings : CreateColumnByTypeSettings) (ast : TypeAst) (elements : List Outcomes) :
    Outcome :=
  match ast.metaKind with
  | .terminal => ast.terminalOutcome
  | .array => do
    let data ← operandOutcome (elements.map Outcomes.own)
    .ok (some { Shape.counted with wrapsNothing := data.wrapsNothing })
  | .nullable => do
    let nested ← operandOutcome (elements.map Outcomes.own)
    .ok (some ⟨.count, nested.use.nullable, nested.wrapsNothing⟩)
  | .tuple => do
    match ← collectShapes (elements.map Outcomes.own) with
    | none => .ok none
    | some shapes => if ast.partlyNamed then .error .thrown else .ok (some (.tuple shapes))
  | .enum =>
    if ast.elements.length % 2 ≠ 0 then .error .thrown
    else if ast.code = .enum8 ∨ ast.code = .enum16 then .ok (some .counted)
    else .ok none
  | .lowCardinality => do
    let nested ← firstElement ast.elements
    let outcomes ← firstElement elements
    if settings.lowCardinalityAsWrappedColumn then nested.wrapperOutcome
    else nested.dictionaryOutcome outcomes
  | .simpleAggregateFunction => do
    let element ← lastElement elements
    element.own
  | .map =>
    if ast.elements.length ≠ 2 then .error .thrown
    else do
      match ← collectShapes (elements.map Outcomes.own) with
      | none => .ok none
      | some shapes => do
        let pairs ← (Shape.tuple shapes).sized
        .ok (some { Shape.counted with wrapsNothing := pairs.wrapsNothing })
  | .assign | .null | .number | .string => .ok none

mutual

def outcomes (settings : CreateColumnByTypeSettings) : TypeAst → Outcomes
  | ⟨metaKind, code, name, elementName, value, valueString, elements⟩ =>
    let inner := outcomesOf settings elements
    ⟨outcomeOver settings ⟨metaKind, code, name, elementName, value, valueString, elements⟩ inner,
      inner.map Outcomes.own⟩

def outcomesOf (settings : CreateColumnByTypeSettings) : List TypeAst → List Outcomes
  | [] => []
  | ast :: rest => outcomes settings ast :: outcomesOf settings rest

end

/-- The outcome of a type name. -/
def outcome (settings : CreateColumnByTypeSettings) (ast : TypeAst) : Outcome :=
  (ast.outcomes settings).own

end TypeAst

/-! ## Results and outcomes -/

/-- How a call fails that ends with the error. -/
def Error.fault : Error → Fault
  | .undefinedBehavior => .dereferenced
  | .divisionByZero => .divided
  | _ => .thrown

/-- The two return related values, or the first fails as the second says. -/
inductive Foretold {α β : Type} (R : α → β → Prop) : Except Error α → Except Fault β → Prop
  | ok {a : α} {b : β} (related : R a b) : Foretold R (.ok a) (.ok b)
  | error (e : Error) : Foretold R (.error e) (.error e.fault)

namespace Foretold

variable {α β γ δ : Type} {R : α → β → Prop} {S : γ → δ → Prop}

theorem bind {x : Except Error α} {y : Except Fault β} {f : α → Except Error γ}
    {g : β → Except Fault δ} (first : Foretold R x y)
    (rest : ∀ a b, R a b → Foretold S (f a) (g b)) : Foretold S (x >>= f) (y >>= g) := by
  cases first with
  | ok related => exact rest _ _ related
  | error e => exact .error e

theorem thrown {e : Error} (exception : e.fault = .thrown) :
    Foretold R (.error e) (.error .thrown) :=
  exception ▸ .error e

end Foretold

/-! ### Elements -/

section Elements

variable {α β : Type} {R : α → β → Prop} {elements : List α} {others : List β}

theorem foretold_first (related : Forall₂ R elements others) :
    Foretold R (getASTChildElement elements 0) (firstElement others) := by
  cases related with
  | nil => exact .thrown rfl
  | cons first rest => exact .ok first

theorem foretold_last (related : Forall₂ R elements others) :
    Foretold R (getASTChildElement elements (-1)) (lastElement others) := by
  have length := related.length_eq
  rw [getASTChildElement, lastElement, ← length]
  by_cases few : elements.length < 2
  · rw [if_pos (by omega), if_pos few]
    exact .thrown rfl
  · have inside : elements.length - 1 < elements.length := by omega
    have inside' : elements.length - 1 < others.length := length ▸ inside
    rw [if_neg (by omega), if_neg few, if_pos (by decide), getLast?_eq_getElem?, ← length,
      show ((elements.length : Int) + -1).toNat = elements.length - 1 by omega,
      getElem?_eq_getElem inside, getElem?_eq_getElem inside']
    exact .ok (related.get inside inside')

end Elements

/-! ### Columns -/

def Column.use : Column → DictionaryUse
  | .leaf column => if column.type.isDictionary then .keys else .refused
  | .adaptor column => if column.type.isDictionary then .keys else .refused
  | .nullable nested _ => nested.use.nullable
  | _ => .refused

def Column.shape (column : Column) : Shape :=
  ⟨column.measure, column.use, column.wrapsNothing⟩

/-- A column as the factory makes it, of the given shape. -/
structure Column.Has (column : Column) (shape : Shape) : Prop where
  shape : column.shape = shape
  made : column.Made

theorem Column.Made.has {column : Column} (made : column.Made) : column.Has column.shape :=
  ⟨rfl, made⟩

/-- What is foretold of a call that returns a pointer. -/
def Foretells : Except Error (Option Column) → Outcome → Prop :=
  Foretold (Option.Rel Column.Has)

theorem foretells_some {column : Column} {shape : Shape} (has : column.Has shape) :
    Foretells (.ok (some column)) (.ok (some shape)) :=
  .ok (.some has)

theorem foretells_none : Foretells (.ok none) (.ok none) := .ok .none

/-- A column that is made and returned. -/
theorem Foretold.returned {r : Except Error Column} {outcome : Except Fault Shape}
    (foretold : Foretold Column.Has r outcome) :
    Foretells (r >>= fun column => .ok (some column)) (outcome >>= fun shape => .ok (some shape)) :=
  foretold.bind fun _ _ => foretells_some

theorem foretold_dereference {found : Option Column} {shape : Option Shape}
    (related : Option.Rel Column.Has found shape) :
    Foretold Column.Has (dereference found) (dereferenced shape) := by
  cases related with
  | some has => exact .ok has
  | none => exact .error .undefinedBehavior

theorem foretold_checkSize {column : Column} {shape : Shape} (has : column.Has shape) :
    Foretold (fun column' shape' => column' = column ∧ shape' = shape ∧ column.sizeDefined)
      (checkSize column) shape.sized := by
  rw [checkSize, Shape.sized, sizeDefined_eq, ← has.shape]
  show Foretold _ _ (if column.measure.isDefined then _ else _)
  split
  · rename_i defined
    exact .ok ⟨rfl, rfl, defined⟩
  · exact .error .divisionByZero

theorem foretold_collect {results : List (Except Error (Option Column))} {outcomes : List Outcome}
    (foretold : Forall₂ Foretells results outcomes) :
    Foretold (Option.Rel (Forall₂ Column.Has)) (collectColumns results)
      (collectShapes outcomes) := by
  induction foretold with
  | nil => exact .ok (.some .nil)
  | cons first others ih =>
    cases first with
    | error e => exact .error e
    | ok related =>
      cases related with
      | none => exact .ok .none
      | some has =>
        refine ih.bind fun columns shapes rest => .ok ?_
        cases rest with
        | none => exact .none
        | some rest => exact .some (.cons has rest)

/-! ### Types without element types -/

theorem has_fixed {type : FixedType} : (Column.fixed type).Has
    ⟨(LeafType.fixed type).measure, if (LeafType.fixed type).isDictionary then .keys else .refused,
      false⟩ :=
  ⟨rfl, rfl⟩

theorem GeoKind.has (kind : GeoKind) : kind.emptyColumn.Has .counted := by
  have point : Column.point.Made := ⟨⟨rfl, rfl, trivial⟩, rfl⟩
  have ring : Column.ring.Made := ⟨⟨rfl, rfl, point⟩, rfl⟩
  have polygon : Column.polygon.Made := ⟨⟨rfl, rfl, ring⟩, rfl⟩
  have multiPolygon : Column.multiPolygon.Made := ⟨⟨rfl, rfl, polygon⟩, rfl⟩
  cases kind with
  | point => exact ⟨rfl, point⟩
  | ring => exact ⟨rfl, ring⟩
  | polygon => exact ⟨rfl, polygon⟩
  | multiPolygon => exact ⟨rfl, multiPolygon⟩

theorem foretells_precision (type : Nat → Except Error FixedType) {limit : Nat}
    (below : ∀ n < limit, ∃ made, type n = .ok made ∧ (Column.fixed made).Has .counted)
    (above : ∀ n, ¬ n < limit → ∃ e, type n = .error e ∧ e.fault = .thrown) (n : Nat) :
    Foretells (type n >>= fun made => .ok (some (.fixed made)))
      (if n < limit then .ok (some .counted) else .error .thrown) := by
  split
  · rename_i fits
    obtain ⟨made, created, has⟩ := below n fits
    rw [created]
    exact foretells_some has
  · rename_i exceeds
    obtain ⟨e, failed, exception⟩ := above n exceeds
    rw [failed]
    exact .thrown exception

theorem foretells_dateTime64 (timezone : Bytes) (n : Nat) :
    Foretells (createDateTime64 n timezone >>= fun made => .ok (some (.fixed made)))
      (if n < 19 then .ok (some .counted) else .error .thrown) :=
  foretells_precision (fun n => createDateTime64 n timezone)
    (fun _ fits => ⟨_, dif_pos fits, has_fixed⟩) (fun _ exceeds => ⟨_, dif_neg exceeds, rfl⟩) n

theorem foretells_time64 (n : Nat) :
    Foretells (createTime64 n >>= fun made => .ok (some (.fixed made)))
      (if n < 10 then .ok (some .counted) else .error .thrown) :=
  foretells_precision createTime64
    (fun _ fits => ⟨_, dif_pos fits, has_fixed⟩) (fun _ exceeds => ⟨_, dif_neg exceeds, rfl⟩) n

theorem foretells_terminal (ast : TypeAst) :
    Foretells (createTerminalColumn ast) ast.terminalOutcome := by
  unfold createTerminalColumn TypeAst.terminalOutcome
  generalize ast.elements = elements
  have same : Forall₂ Eq elements elements := forall₂_same.mpr fun _ _ => rfl
  cases ast.code with
  | decimal =>
    exact (foretold_first same).bind fun _ _ _ => (foretold_last same).bind fun _ _ _ =>
      foretells_some has_fixed
  | decimal32 => exact (foretold_first same).bind fun _ _ _ => foretells_some has_fixed
  | decimal64 => exact (foretold_first same).bind fun _ _ _ => foretells_some has_fixed
  | decimal128 => exact (foretold_first same).bind fun _ _ _ => foretells_some has_fixed
  | fixedString =>
    cases elements with
    | nil => exact .thrown rfl
    | cons size rest => exact foretells_some ⟨rfl, rfl⟩
  | dateTime =>
    cases elements with
    | nil => exact foretells_some has_fixed
    | cons timezone rest => exact foretells_some has_fixed
  | dateTime64 =>
    rcases elements with _ | ⟨precision, _ | ⟨timezone, rest⟩⟩
    · exact foretells_none
    · exact foretells_dateTime64 [] _
    · exact foretells_dateTime64 timezone.valueString _
  | time64 =>
    cases elements with
    | nil => exact foretells_none
    | cons precision rest => exact foretells_time64 _
  | string => exact foretells_some ⟨rfl, rfl⟩
  | void => exact foretells_some ⟨rfl, rfl⟩
  | json => exact foretells_some ⟨rfl, rfl⟩
  | point => exact foretells_some (GeoKind.has .point)
  | ring => exact foretells_some (GeoKind.has .ring)
  | polygon => exact foretells_some (GeoKind.has .polygon)
  | multiPolygon => exact foretells_some (GeoKind.has .multiPolygon)
  | array => exact foretells_none
  | nullable => exact foretells_none
  | tuple => exact foretells_none
  | enum8 => exact foretells_none
  | enum16 => exact foretells_none
  | lowCardinality => exact foretells_none
  | map => exact foretells_none
  | _ => exact foretells_some has_fixed

/-! ### Dictionaries -/

/-- A call that fails with exceptions only. -/
def OnlyThrows {α : Type} (r : Except Error α) : Prop :=
  ∀ e, r = .error e → e.fault = .thrown

section OnlyThrows

variable {α β : Type} {r : Except Error α}

theorem onlyThrows_error {e : Error} (exception : e.fault = .thrown) :
    OnlyThrows (.error e : Except Error α) := by
  intro _ same
  cases same
  exact exception

theorem OnlyThrows.bind {f : α → Except Error β} (first : OnlyThrows r)
    (rest : ∀ a, r = .ok a → OnlyThrows (f a)) : OnlyThrows (r >>= f) := by
  cases r with
  | error e => exact onlyThrows_error (first e rfl)
  | ok a => exact rest a rfl

/-- The call throws an exception. -/
def Thrown (r : Except Error α) : Prop :=
  ∃ e, r = .error e ∧ e.fault = .thrown

theorem OnlyThrows.thrown (only : OnlyThrows r) (never : ∀ a, r ≠ .ok a) : Thrown r := by
  cases r with
  | error e => exact ⟨e, rfl, only e rfl⟩
  | ok a => exact absurd rfl (never a)

theorem Thrown.onlyThrows (thrown : Thrown r) : OnlyThrows r := by
  obtain ⟨e, rfl, exception⟩ := thrown
  exact onlyThrows_error exception

/-- What comes first may throw as well. -/
theorem OnlyThrows.bind_thrown {f : α → Except Error β} (first : OnlyThrows r)
    (rest : ∀ a, Thrown (f a)) : Thrown (r >>= f) := by
  cases r with
  | error e => exact ⟨e, rfl, first e rfl⟩
  | ok a => exact rest a

theorem Thrown.foretold {R : α → β → Prop} (thrown : Thrown r) :
    Foretold R r (.error .thrown) := by
  obtain ⟨e, rfl, exception⟩ := thrown
  exact .thrown exception

end OnlyThrows

theorem onlyThrows_zeroItem (code : Code) : OnlyThrows (zeroItemForDictionary code) := by
  intro e failed
  cases code <;> cases failed <;> rfl

theorem type_zeroItem {code : Code} {item : ItemView}
    (zero : zeroItemForDictionary code = .ok item) : item.type = code := by
  cases code <;> cases zero <;> rfl

/-- A zero item has the right size for every type that is supported. -/
theorem onlyThrows_appendZero {data : Leaf} {item : ItemView}
    (zero : zeroItemForDictionary data.type.code = .ok item) :
    OnlyThrows (appendToDictionary data item) := by
  intro e failed
  cases data with
  | fixed type words => cases type <;> cases zero <;> cases failed
  | fixedString column =>
    cases zero
    cases failed
  | string items => cases failed
  | json items =>
    cases failed
    rfl
  | nothing size =>
    cases failed
    rfl

theorem appendToDictionary_unsupported {data : Leaf} (other : data.type.isDictionary = false)
    (item : ItemView) (data' : Leaf) : appendToDictionary data item ≠ .ok data' := by
  intro appended
  cases data with
  | fixed type words => cases type <;> first | cases appended | cases other
  | json items => cases appended
  | nothing size => cases appended
  | string items => cases other
  | fixedString column => cases other

theorem thrown_refuseDictionary {α : Type} (column : Column) :
    Thrown (refuseDictionary column : Except Error α) :=
  (onlyThrows_zeroItem _).bind_thrown fun _ => ⟨_, rfl, rfl⟩

theorem onlyThrows_defaultItem : ∀ column : Column, OnlyThrows (defaultItemForDictionary column)
  | .nullable nested _ => onlyThrows_defaultItem nested
  | .leaf _ => onlyThrows_zeroItem _
  | .adaptor _ => onlyThrows_zeroItem _
  | .array _ _ => onlyThrows_zeroItem _
  | .tuple _ _ => onlyThrows_zeroItem _
  | .map _ => onlyThrows_zeroItem _
  | .lowCardinality _ => onlyThrows_zeroItem _
  | .geo _ _ => onlyThrows_zeroItem _

theorem onlyThrows_appendNullTo : ∀ column : Column, OnlyThrows (appendNullTo column)
  | .nullable nested _ => onlyThrows_appendNullTo nested
  | .leaf _ => appended
  | .adaptor _ => appended
  | .array _ _ => (thrown_refuseDictionary _).onlyThrows
  | .tuple _ _ => (thrown_refuseDictionary _).onlyThrows
  | .map _ => (thrown_refuseDictionary _).onlyThrows
  | .lowCardinality _ => (thrown_refuseDictionary _).onlyThrows
  | .geo _ _ => (thrown_refuseDictionary _).onlyThrows
where
  appended {data : Leaf} : OnlyThrows (do
      let zero ← zeroItemForDictionary data.type.code
      let _ ← appendToDictionary data zero
      .ok ()) :=
    (onlyThrows_zeroItem _).bind fun _ zero => (onlyThrows_appendZero zero).bind fun _ _ => nofun

section Dictionaries

variable {dictionary : Dictionary}

/-- The reserved items of a dictionary: NULL, and the zero item of its type. -/
def Dictionary.Reserved (dictionary : Dictionary) (item : ItemView) : Prop :=
  item = .null ∧ dictionary.nulls.isSome ∨
    zeroItemForDictionary dictionary.data.type.code = .ok item

/-- In each case the zero item of the type is appended to the data. -/
theorem Dictionary.append_unsupported (other : dictionary.data.type.isDictionary = false)
    {item : ItemView} (reserved : dictionary.Reserved item) : Thrown (dictionary.append item) := by
  have appended (flags : Leaf → Dictionary) {zero : ItemView}
      (isZero : zeroItemForDictionary dictionary.data.type.code = .ok zero) :
      Thrown (appendToDictionary dictionary.data zero >>= fun data => .ok (flags data)) := by
    obtain ⟨e, failed, exception⟩ :=
      (onlyThrows_appendZero isZero).thrown (appendToDictionary_unsupported other zero)
    rw [failed]
    exact ⟨e, rfl, exception⟩
  rw [append]
  split
  · rename_i plain
    rcases reserved with ⟨-, nullable⟩ | zero
    · rw [plain] at nullable
      cases nullable
    · exact appended (⟨·, none⟩) zero
  · rename_i nulls _
    split
    · cases zero : zeroItemForDictionary dictionary.data.type.code with
      | error e => exact ⟨e, rfl, onlyThrows_zeroItem _ e zero⟩
      | ok item => exact appended (⟨·, some (nulls ++ [Word.ofNat 1 1])⟩) zero
    · rename_i notVoid
      rcases reserved with ⟨rfl, -⟩ | zero
      · exact absurd rfl notVoid
      · rw [if_neg (not_not.mpr (type_zeroItem zero).symm)]
        exact appended (⟨·, some (nulls ++ [Word.ofNat 1 0])⟩) zero

theorem LowCardinality.construct_of_throws {body : EStateM Error LowCardinality Unit} {e : Error}
    {column column' : LowCardinality} (throws : Throws body column e column') :
    construct body column = .error e := by
  rw [construct, throws]

theorem LowCardinality.has {column : LowCardinality} (noRows : column.index.column = [])
    (defined : (leaf column.dictionary.data).sizeDefined) :
    (lowCardinality column).Has .counted :=
  ⟨rfl, noRows, defined⟩

variable {data : Leaf} {nulls : Option (ColumnVector 1)}

theorem Dictionary.sound_of_made (made : data.cloneEmpty = data)
    (defined : (adaptor data).sizeDefined) (supported : data.type.isDictionary)
    (flags : ∀ found, nulls = some found → found = []) : Dictionary.Sound ⟨data, nulls⟩ := by
  refine ⟨supported, Leaf.positive_of_sizeDefined defined, made ▸ data.aligned_cloneEmpty, ?_⟩
  intro found same
  rw [flags found same]
  exact (made ▸ data.size_cloneEmpty : data.size = 0).symm

theorem Leaf.sizeDefined_adaptor (column : Leaf) :
    (adaptor column).sizeDefined = (leaf column).sizeDefined := by
  cases column <;> rfl

theorem Column.Made.of_keys {column : Column} (made : column.Made) (keys : column.keys? = some data) :
    data.cloneEmpty = data ∧ (adaptor data).sizeDefined = column.sizeDefined ∧
      column.use = if data.type.isDictionary then .keys else .refused := by
  cases column with
  | leaf data =>
    cases keys
    exact ⟨made, Leaf.sizeDefined_adaptor data, rfl⟩
  | adaptor data =>
    cases keys
    exact ⟨made.1, rfl, rfl⟩
  | _ => cases keys

theorem Column.use_ne_keys {column : Column} (none : column.keys? = none) : column.use ≠ .keys := by
  cases column with
  | leaf data => cases none
  | adaptor data => cases none
  | nullable nested nulls =>
    rw [use]
    cases nested.use <;> exact nofun
  | _ => exact nofun

theorem Leaf.sizeDefined_of_unsupported {data : Leaf} (other : data.type.isDictionary = false) :
    (adaptor data).sizeDefined = true := by
  cases data with
  | fixedString column => cases other
  | _ => rfl

theorem thrown_refuseNested {α : Type} (nested : Column) :
    Thrown (refuseNested nested : Except Error α) := ⟨_, rfl, rfl⟩

variable [Hashing]

theorem LowCardinality.appendDefaultItem_throws {column : LowCardinality}
    (other : column.dictionary.data.type.isDictionary = false) :
    ∃ e column', Throws appendDefaultItem column e column' ∧ e.fault = .thrown := by
  cases zero : zeroItemForDictionary column.dictionary.data.type.code with
  | error e =>
    exact ⟨e, column, (runs_get column).bind_throws ((throws_ofExcept zero column).bind _),
      onlyThrows_zeroItem _ e zero⟩
  | ok item =>
    obtain ⟨e, failed, exception⟩ := Dictionary.append_unsupported other (.inr zero)
    exact ⟨e, _, (runs_get column).bind_throws ((runs_ofExcept zero column).bind_throws
      ((runs_set column _).bind_throws ((throws_ofExcept failed _).bind _))), exception⟩

theorem LowCardinality.appendNullItem_throws {column : LowCardinality}
    (other : column.dictionary.data.type.isDictionary = false)
    (nullable : column.dictionary.nulls.isSome) :
    ∃ e column', Throws appendNullItem column e column' ∧ e.fault = .thrown := by
  obtain ⟨e, failed, exception⟩ := Dictionary.append_unsupported other (.inl ⟨rfl, nullable⟩)
  obtain ⟨nulls, same⟩ := Option.isSome_iff_exists.mp nullable
  refine ⟨e, column, (runs_get column).bind_throws ?_, exception⟩
  rw [same]
  exact (runs_ofExcept rfl column).bind_throws ((throws_ofExcept failed column).bind _)

theorem LowCardinality.ofColumnRef_thrown (other : dictionary.data.type.isDictionary = false) :
    Thrown (ofColumnRef dictionary) := by
  have other : (blank dictionary).dictionary.data.type.isDictionary = false :=
    (congrArg LeafType.isDictionary (Leaf.type_cloneEmpty _)).trans other
  obtain ⟨e, column', throws, exception⟩ := appendDefaultItem_throws other
  exact ⟨e, construct_of_throws (throws.bind _), exception⟩

theorem LowCardinality.ofNullable_thrown (other : dictionary.data.type.isDictionary = false)
    (nullable : dictionary.nulls.isSome) : Thrown (ofNullable dictionary) := by
  have other : (blank dictionary).dictionary.data.type.isDictionary = false :=
    (congrArg LeafType.isDictionary (Leaf.type_cloneEmpty _)).trans other
  obtain ⟨e, column', throws, exception⟩ :=
    appendNullItem_throws other (by simpa [blank, Dictionary.cloneEmpty] using nullable)
  exact ⟨e, construct_of_throws (throws.bind _), exception⟩

theorem foretold_ofColumnRef (nulls : Option (ColumnVector 1)) (made : data.cloneEmpty = data)
    (defined : (adaptor data).sizeDefined) (flags : ∀ found, nulls = some found → found = []) :
    Foretold Column.Has ((ofColumnRef ⟨data, nulls⟩).map .lowCardinality)
      (if data.type.isDictionary then .ok .counted else .error .thrown) := by
  cases supported : data.type.isDictionary with
  | false =>
    obtain ⟨e, failed, exception⟩ : Thrown (ofColumnRef ⟨data, nulls⟩) :=
      ofColumnRef_thrown supported
    rw [failed]
    exact .thrown exception
  | true =>
    have sound := Dictionary.sound_of_made made defined supported flags
    have empty : Dictionary.size ⟨data, nulls⟩ = 0 := by
      rw [sound.size_eq]
      exact made ▸ data.size_cloneEmpty
    obtain ⟨reserved, extends', constructed⟩ := exists_ofColumnRef sound empty
    rw [constructed]
    refine .ok (LowCardinality.has rfl ?_)
    rw [Leaf.sizeDefined_eq (extends'.dataType.trans (Leaf.type_cloneEmpty _)),
      ← Leaf.sizeDefined_adaptor]
    exact defined

theorem foretold_ofNullable (made : data.cloneEmpty = data)
    (defined : (adaptor data).sizeDefined) :
    Foretold Column.Has ((ofNullable ⟨data, some []⟩).map .lowCardinality)
      (if data.type.isDictionary then .ok .counted else .error .thrown) := by
  cases supported : data.type.isDictionary with
  | false =>
    obtain ⟨e, failed, exception⟩ : Thrown (ofNullable ⟨data, some []⟩) :=
      ofNullable_thrown supported rfl
    rw [failed]
    exact .thrown exception
  | true =>
    have sound : Dictionary.Sound ⟨data, some []⟩ :=
      Dictionary.sound_of_made made defined supported fun _ same => (Option.some.inj same).symm
    obtain ⟨null, reserved, extendsNull, extends', constructed⟩ := exists_ofNullable sound rfl rfl
    rw [constructed]
    refine .ok (LowCardinality.has rfl ?_)
    rw [Leaf.sizeDefined_eq (extends'.dataType.trans
      (extendsNull.dataType.trans (Leaf.type_cloneEmpty _))), ← Leaf.sizeDefined_adaptor]
    exact defined

theorem foretold_createNullableLowCardinality {nested : Column} {shape : Shape}
    (has : nested.Has shape) :
    Foretold Column.Has (createNullableLowCardinality nested) shape.asNullableDictionary := by
  refine (foretold_checkSize has).bind ?_
  rintro nested' _ ⟨same, rfl, defined⟩
  subst same
  obtain ⟨rfl, made⟩ := has
  cases keys : nested'.keys? with
  | some data =>
    obtain ⟨empty, same, use⟩ := made.of_keys keys
    have foretold := foretold_ofNullable empty (same.trans defined)
    show Foretold _ _ (if nested'.use = .keys then _ else _)
    rw [use]
    cases supported : data.type.isDictionary with
    | true => simpa [supported] using foretold
    | false => simpa [supported] using foretold
  | none =>
    show Foretold _ _ (if nested'.use = .keys then _ else _)
    rw [if_neg (use_ne_keys keys)]
    exact ((onlyThrows_appendNullTo nested').bind_thrown fun _ =>
      thrown_refuseNested nested').foretold

/-- A column with keys is used as the dictionary. -/
theorem foretold_keys {column : Column} (made : column.Made) (keys : column.keys? = some data) :
    Foretold Column.Has
      (checkSize column >>= fun _ => (ofColumnRef ⟨data, none⟩).map .lowCardinality)
      column.shape.asDictionary := by
  obtain ⟨empty, same, use⟩ := made.of_keys keys
  have use' : column.shape.use = _ := use
  rw [Shape.asDictionary, use']
  cases supported : data.type.isDictionary with
  | true =>
    refine (foretold_checkSize made.has).bind ?_
    rintro _ _ ⟨rfl, rfl, defined⟩
    have foretold := foretold_ofColumnRef none empty (same.trans defined) nofun
    rwa [if_pos supported] at foretold
  | false =>
    have defined := Leaf.sizeDefined_of_unsupported supported
    have foretold := foretold_ofColumnRef none empty defined nofun
    rw [if_neg (Bool.eq_false_iff.mp supported)] at foretold
    rw [checkSize, if_pos (same ▸ defined)]
    exact foretold

theorem foretold_createLowCardinality {column : Column} {shape : Shape} (has : column.Has shape) :
    Foretold Column.Has (createLowCardinality column) shape.asDictionary := by
  obtain ⟨rfl, made⟩ := has
  cases column with
  | leaf data => exact foretold_keys made rfl
  | adaptor data => exact foretold_keys made rfl
  | nullable nested nulls =>
    obtain ⟨-, defined, inner⟩ := made
    have inner : nested.Made := inner
    have sized (f : Column → Except Error Column) : (Except.ok nested >>= f) = f nested := rfl
    have use' : (nullable nested nulls).shape.use = nested.use.nullable := rfl
    rw [createLowCardinality, checkSize, if_pos defined, sized, Shape.asDictionary, use']
    cases keys : nested.keys? with
    | some data =>
      obtain ⟨empty, same, use⟩ := inner.of_keys keys
      have foretold := foretold_ofColumnRef (some []) empty (same.trans defined)
        fun _ same => (Option.some.inj same).symm
      rw [use]
      cases supported : data.type.isDictionary with
      | true => rwa [supported] at foretold
      | false => rwa [supported] at foretold
    | none =>
      have other : nested.use.nullable = .refused := by
        have := use_ne_keys keys
        cases use : nested.use with
        | keys => exact absurd use this
        | _ => rfl
      rw [other]
      refine ((onlyThrows_defaultItem nested).bind_thrown fun item => ?_).foretold
      dsimp only
      split
      · exact (onlyThrows_appendNullTo nested).bind_thrown fun _ => thrown_refuseNested nested
      · exact thrown_refuseNested nested
  | _ => exact (thrown_refuseDictionary _).foretold

end Dictionaries

/-! ### The factory -/

theorem toSizeT_lt (value : Int) : toSizeT value < 2 ^ 64 := by
  unfold toSizeT
  omega

theorem has_tuple {columns : List Column} {shapes : List Shape}
    (related : Forall₂ Column.Has columns shapes) (names : List Bytes) :
    (tuple columns names).Has (.tuple shapes) := by
  have made : AllMade columns := by
    induction related with
    | nil => trivial
    | cons first _ ih => exact ⟨first.made, ih⟩
  have measure : firstMeasure columns = (shapes.map Shape.measure).headD .absent := by
    cases related with
    | nil => rfl
    | cons first _ => exact congrArg Shape.measure first.shape
  have wraps : anyWrapsNothing columns = shapes.any Shape.wrapsNothing := by
    clear made measure
    induction related with
    | nil => rfl
    | cons first _ ih =>
      rw [anyWrapsNothing, ih, any_cons]
      exact congrArg (·.wrapsNothing || _) first.shape
  exact ⟨congrArg₂ (Shape.mk · .refused ·) measure wraps, made⟩

/-- A tuple of which some elements have names is refused. -/
theorem foretells_tuple (ast : TypeAst) {columns : List Column} {shapes : List Shape}
    (related : Forall₂ Column.Has columns shapes) :
    Foretells (do
        let names := ast.elements.map TypeAst.elementName
        if names.any fun name => !name.isEmpty then
          let column ← createNamedTuple columns names
          .ok (some column)
        else .ok (some (.tuple columns [])))
      (if ast.partlyNamed then .error .thrown else .ok (some (.tuple shapes))) := by
  simp only [TypeAst.partlyNamed, createNamedTuple, any_map, Function.comp_def]
  by_cases named : (ast.elements.any fun element => !element.elementName.isEmpty) = true
  · by_cases unnamed : (ast.elements.any fun element => element.elementName.isEmpty) = true
    · simp only [named, unnamed, if_true, Bool.and_self]
      exact .thrown rfl
    · simp only [named, unnamed, if_true, Bool.and_false, if_false, Bool.false_eq_true]
      exact foretells_some (has_tuple related _)
  · simp only [named, if_false, Bool.false_and, Bool.false_eq_true]
    exact foretells_some (has_tuple related [])

section Factory

variable [Hashing] {settings : CreateColumnByTypeSettings}

/-- What is made of an element, and of each of its elements, is foretold. -/
structure Created.Foretold (created : Created) (outcomes : TypeAst.Outcomes) : Prop where
  column : Foretells created.column outcomes.own
  elements : Forall₂ Foretells created.elements outcomes.elements

theorem foretells_wrapper (wrapped : settings.lowCardinalityAsWrappedColumn) (nested : TypeAst) :
    Foretells (createLowCardinalityFromAst settings (create settings nested))
      nested.wrapperOutcome := by
  rw [createLowCardinalityFromAst, create_ast, TypeAst.wrapperOutcome, if_pos wrapped]
  cases nested.code with
  | string => exact foretells_some ⟨rfl, rfl, trivial⟩
  | fixedString =>
    refine (foretold_first (forall₂_same.mpr fun _ _ => rfl)).bind ?_
    rintro size _ rfl
    have made : (adaptor (.fixedString ⟨toSizeT size.value, []⟩)).Made := ⟨rfl, toSizeT_lt _⟩
    split
    · rename_i zero
      refine foretells_some ⟨?_, made⟩
      rw [zero]
      rfl
    · rename_i positive
      refine foretells_some ⟨?_, made⟩
      simp [shape, Column.measure, use, wrapsNothing, sizeDefined, Leaf.type, LeafType.hasRows,
        LeafType.isDictionary, positive]
  | _ => exact .thrown rfl

theorem foretells_dictionary (plain : settings.lowCardinalityAsWrappedColumn = false)
    {nested : TypeAst} {outcomes : TypeAst.Outcomes}
    (foretold : (create settings nested).Foretold outcomes) :
    Foretells (createLowCardinalityFromAst settings (create settings nested))
      (nested.dictionaryOutcome outcomes) := by
  have used : Foretells (do
        let inner ← dereference (← (create settings nested).column)
        let column ← createLowCardinality inner
        .ok (some column))
      (do
        let shape ← dereferenced (← outcomes.own)
        let shape ← shape.asDictionary
        .ok (some shape)) :=
    foretold.column.bind fun _ _ found => (foretold_dereference found).bind fun _ _ has =>
      (foretold_createLowCardinality has).returned
  rw [createLowCardinalityFromAst, create_ast, TypeAst.dictionaryOutcome,
    if_neg (Bool.eq_false_iff.mp plain)]
  cases nested.code with
  | string => exact used
  | fixedString => exact used
  | nullable =>
    exact (foretold_first foretold.elements).bind fun _ _ child => child.bind fun _ _ found =>
      (foretold_dereference found).bind fun _ _ has =>
        (foretold_createNullableLowCardinality has).returned
  | _ =>
    refine foretold.column.bind fun _ _ found => ?_
    cases found with
    | none => exact .thrown rfl
    | some has => exact (foretold_createLowCardinality has).returned

/-- One step of the factory. -/
theorem foretells_createFromElements (ast : TypeAst) {outcomes : List TypeAst.Outcomes}
    (foretold : Forall₂ Created.Foretold (createAll settings ast.elements) outcomes) :
    Foretells (createFromElements settings ast (createAll settings ast.elements))
      (ast.outcomeOver settings outcomes) := by
  have columns : Forall₂ Foretells ((createAll settings ast.elements).map Created.column)
      (outcomes.map TypeAst.Outcomes.own) :=
    forall₂_map_left_iff.mpr (forall₂_map_right_iff.mpr
      (foretold.imp fun _ _ each => each.column))
  have operand : Forall₂ (fun created outcome => Foretells created.column outcome)
      (createAll settings ast.elements) (outcomes.map TypeAst.Outcomes.own) :=
    forall₂_map_right_iff.mpr (foretold.imp fun _ _ each => each.column)
  rw [createFromElements, TypeAst.outcomeOver]
  cases metaKind : ast.metaKind with
  | array =>
    simp only [TypeAst.operandOutcome, bind_assoc]
    refine (foretold_first operand).bind fun _ _ child => child.bind fun _ _ found =>
      (foretold_dereference found).bind fun data shape has => ?_
    rw [createArray, bind_assoc]
    refine (foretold_checkSize has).bind ?_
    rintro _ _ ⟨rfl, rfl, defined⟩
    obtain ⟨rfl, made⟩ := has
    exact foretells_some ⟨rfl, rfl, defined, made⟩
  | nullable =>
    simp only [TypeAst.operandOutcome, bind_assoc]
    refine (foretold_first operand).bind fun _ _ child => child.bind fun _ _ found =>
      (foretold_dereference found).bind fun data shape has => ?_
    rw [createNullable, bind_assoc]
    refine (foretold_checkSize has).bind ?_
    rintro _ _ ⟨rfl, rfl, defined⟩
    obtain ⟨rfl, made⟩ := has
    exact foretells_some ⟨rfl, rfl, defined, made⟩
  | terminal => exact foretells_terminal ast
  | tuple =>
    refine (foretold_collect columns).bind fun made shapes collected => ?_
    cases collected with
    | none => exact foretells_none
    | some related => exact foretells_tuple ast related
  | enum =>
    dsimp only
    split
    · exact .thrown rfl
    · cases ast.code with
      | enum8 => exact foretells_some has_fixed
      | enum16 => exact foretells_some has_fixed
      | _ => exact foretells_none
  | lowCardinality =>
    revert foretold
    cases ast.elements with
    | nil => exact fun _ => .thrown rfl
    | cons nested rest =>
      rintro (_ | ⟨first, -⟩)
      show Foretells (createLowCardinalityFromAst settings (create settings _))
        (if settings.lowCardinalityAsWrappedColumn then _ else _)
      split
      · exact foretells_wrapper ‹_› _
      · exact foretells_dictionary (Bool.eq_false_iff.mpr ‹_›) first
  | simpleAggregateFunction => exact (foretold_last foretold).bind fun _ _ child => child.column
  | map =>
    dsimp only
    split
    · exact .thrown rfl
    · refine (foretold_collect columns).bind fun made shapes collected => ?_
      cases collected with
      | none => exact foretells_none
      | some related =>
        have has := has_tuple related []
        simp only [createArray, bind_assoc]
        refine (foretold_checkSize has).bind ?_
        rintro _ _ ⟨rfl, rfl, defined⟩
        exact foretells_some ⟨congrArg (fun shape : Shape =>
          { Shape.counted with wrapsNothing := shape.wrapsNothing }) has.shape, rfl, defined, has.made⟩
  | assign => exact foretells_none
  | null => exact foretells_none
  | number => exact foretells_none
  | string => exact foretells_none

mutual

theorem create_foretold (ast : TypeAst) :
    (create settings ast).Foretold (ast.outcomes settings) := by
  obtain ⟨metaKind, code, name, elementName, value, valueString, elements⟩ := ast
  have children := createAll_foretold elements
  refine ⟨?_, ?_⟩
  · exact foretells_createFromElements
      ⟨metaKind, code, name, elementName, value, valueString, elements⟩ children
  · exact forall₂_map_left_iff.mpr (forall₂_map_right_iff.mpr
      (children.imp fun _ _ each => each.column))

theorem createAll_foretold (elements : List TypeAst) :
    Forall₂ Created.Foretold (createAll settings elements)
      (TypeAst.outcomesOf settings elements) := by
  cases elements with
  | nil => exact .nil
  | cons ast rest => exact .cons (create_foretold ast) (createAll_foretold rest)

end

/-- The factory ends as the outcome of the type name says. -/
theorem createColumnFromAst_foretold (ast : TypeAst) :
    Foretells (createColumnFromAst settings ast) (ast.outcome settings) :=
  (create_foretold ast).column

end Factory

end ClickHouse
