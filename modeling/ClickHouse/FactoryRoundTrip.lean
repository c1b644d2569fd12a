import ClickHouse.Columns.Consistency
import ClickHouse.Columns.DictionaryLaws
import ClickHouse.Factory
import ClickHouse.TypeNames

/-!
# Columns from the names of types

`CreateColumnByType` of the name of a type is an empty column of that type.
-/

namespace ClickHouse

open Kit List Column

/-- An empty column of the type, as its constructor leaves it. -/
structure Column.Fresh (type : Ty) (column : Column) : Prop where
  hasType : column.type = type
  size : column.size = 0
  sizeDefined : column.sizeDefined = true
  wellTyped : column.WellTyped
  isEmpty : column.IsEmpty

/-! ## Elements and parameters -/

theorem toSizeT_ofNat {n : Nat} (fits : n < 2 ^ 63) : toSizeT n = n := by
  rw [toSizeT, Int.emod_eq_of_lt (by omega) (by omega), Int.toNat_natCast]

theorem toInt16_of_fits {value : Int} (low : -2 ^ 15 ≤ value) (high : value < 2 ^ 15) :
    toInt16 value = value := by
  rw [toInt16, Int.bmod_eq_of_le (by omega) (by omega)]

theorem enumItems_arguments {entries : List (Int × Bytes)}
    (fits : ∀ entry ∈ entries, -2 ^ 15 ≤ entry.1 ∧ entry.1 < 2 ^ 15) :
    enumItems (entries.map fun entry =>
      [TypeAst.ofString entry.2, TypeAst.ofNumber entry.1]).flatten = entries.map Prod.swap := by
  induction entries with
  | nil => rfl
  | cons entry entries ih =>
    obtain ⟨low, high⟩ := fits entry (mem_cons_self ..)
    have first : toInt16 (TypeAst.ofNumber entry.1).value = entry.1 := toInt16_of_fits low high
    simp only [map_cons, flatten_cons, cons_append, nil_append, enumItems, first,
      ih fun other mem => fits other (mem_cons_of_mem _ mem)]
    rfl

theorem EnumType.Proper.ofItems {bound : Int} {type : EnumType} (proper : type.Proper bound) :
    EnumType.ofItems (type.valueToName.entries.map Prod.swap) = type := by
  obtain ⟨items, _, labels, values, _, rfl⟩ := proper
  exact EnumType.ofItems_entries labels values

/-- An enum comes back from the elements of its labels and values. -/
theorem EnumType.Proper.ofItems_arguments {bound : Int} {type : EnumType}
    (proper : type.Proper bound) (small : bound ≤ 2 ^ 15) :
    type.arguments.length % 2 = 0 ∧ EnumType.ofItems (enumItems type.arguments) = type := by
  have printed := proper.ofItems
  obtain ⟨items, _, labels, values, fits, rfl⟩ := proper
  obtain ⟨entries, _⟩ := EnumType.mem_ofItems labels values
  constructor
  · simp [EnumType.arguments, length_flatten, map_const', Function.comp_def]
  · rw [EnumType.arguments, enumItems_arguments, printed]
    intro entry mem
    have range := fits _ ((entries entry.1 entry.2).mp mem)
    exact ⟨by omega, by omega⟩

/-! ## Leaves -/

/-- What the factory looks at in the element of a type. -/
structure TypeAst.Of (code : Code) (elements : List TypeAst) (ast : TypeAst) : Prop where
  metaKind : ast.metaKind = code.metaKind
  hasCode : ast.code = code
  elements : ast.elements = elements

theorem Ty.of_fill (type : Ty) {base : TypeAst} (noElements : base.elements = []) :
    (type.fill base).Of type.code type.arguments where
  metaKind := getTypeMeta_typeName _
  hasCode := getTypeCode_typeName _
  elements := by
    show base.elements ++ _ = _
    rw [noElements, nil_append]

theorem LeafType.Proper.sizeDefined {type : LeafType} (proper : type.Proper) :
    (leaf type.emptyColumn).sizeDefined = true := by
  cases type with
  | fixedString size => exact bne_iff_ne.mpr (Nat.ne_of_gt proper.1)
  | _ => rfl

theorem LeafType.Proper.fresh {type : LeafType} (proper : type.Proper) :
    (leaf type.emptyColumn).Fresh (.leaf type) where
  hasType := congrArg Ty.leaf type.type_emptyColumn
  size := type.size_emptyColumn
  sizeDefined := proper.sizeDefined
  wellTyped := trivial
  isEmpty := type.size_emptyColumn

section Leaves

variable {ast element : TypeAst} {columns : List Column} {items : List Ty}

theorem LeafType.Proper.sound {type : LeafType} (proper : type.Proper)
    (dictionary : type.isDictionary) {nulls : Option (ColumnVector 1)}
    (empty : ∀ flags, nulls = some flags → flags = []) :
    Dictionary.Sound ⟨type.emptyColumn, nulls⟩ := by
  refine ⟨?_, ?_, type.aligned_emptyColumn, ?_⟩
  · rw [type.type_emptyColumn]
    exact dictionary
  · show type.emptyColumn.type.Positive
    rw [type.type_emptyColumn]
    cases type with
    | fixedString size => exact proper.1
    | _ => trivial
  · intro flags same
    rw [empty flags same, type.size_emptyColumn]
    rfl

/-- A LowCardinality column without rows. -/
theorem LowCardinality.fresh {column : LowCardinality} {type : Ty}
    (hasType : column.dictionary.type = type) (noRows : column.index.column = []) :
    (lowCardinality column).Fresh (.lowCardinality type) :=
  ⟨congrArg Ty.lowCardinality hasType, congrArg length noRows, rfl, trivial, noRows⟩

theorem Column.Fresh.array {item : Ty} {data : Column} (fresh : data.Fresh item) :
    (array data []).Fresh (.array item) :=
  ⟨congrArg Ty.array fresh.hasType, rfl, rfl, fresh.wellTyped, rfl, fresh.isEmpty⟩

theorem Column.Fresh.nullable {type : Ty} {nested : Column} (fresh : nested.Fresh type) :
    (nullable nested []).Fresh (.nullable type) :=
  ⟨congrArg Ty.nullable fresh.hasType, rfl, rfl, fresh.wellTyped, rfl, fresh.isEmpty⟩

theorem Column.fresh_components (fresh : Forall₂ Fresh items columns) :
    types columns = items ∧ AllWellTyped columns ∧ AllEmpty columns := by
  induction fresh with
  | nil => exact ⟨rfl, trivial, trivial⟩
  | cons first _ ih =>
    obtain ⟨types, wellTyped, empty⟩ := ih
    exact ⟨congrArg₂ cons first.hasType types, ⟨first.wellTyped, wellTyped⟩,
      first.isEmpty, empty⟩

theorem Column.fresh_tuple (fresh : Forall₂ Fresh items columns)
    (nonempty : items ≠ []) (names : List Bytes) :
    (tuple columns names).Fresh (.tuple items names) := by
  obtain ⟨types, wellTyped, empty⟩ := fresh_components fresh
  cases fresh with
  | nil => exact absurd rfl nonempty
  | cons first _ =>
    exact ⟨congrArg (Ty.tuple · names) types, first.size, first.sizeDefined, wellTyped, empty⟩

theorem Column.Fresh.map {key value : Ty} {keys values : Column} (freshKey : keys.Fresh key)
    (freshValue : values.Fresh value) :
    (map (.array (.tuple [keys, values] []) [])).Fresh (.map key value) := by
  have pair := fresh_tuple (.cons freshKey (.cons freshValue .nil)) (cons_ne_nil _ _) []
  have data := pair.array
  refine ⟨?_, rfl, rfl, ⟨data.wellTyped, key, value, [], data.hasType⟩, data.isEmpty⟩
  show getMapType _ = _
  rw [data.hasType]
  rfl

/-- An empty column of a geometric type. -/
def GeoKind.emptyColumn : GeoKind → Column
  | .point => .point
  | .ring => .ring
  | .polygon => .polygon
  | .multiPolygon => .multiPolygon

theorem GeoKind.fresh (kind : GeoKind) : kind.emptyColumn.Fresh (.geo kind) := by
  have point : GeoKind.point.emptyColumn.Fresh (.geo .point) :=
    ⟨rfl, rfl, rfl, ⟨⟨trivial, trivial, trivial⟩, rfl⟩, rfl, rfl, trivial⟩
  have ring : GeoKind.ring.emptyColumn.Fresh (.geo .ring) :=
    ⟨rfl, rfl, rfl, ⟨point.wellTyped, rfl⟩, rfl, point.isEmpty⟩
  have polygon : GeoKind.polygon.emptyColumn.Fresh (.geo .polygon) :=
    ⟨rfl, rfl, rfl, ⟨ring.wellTyped, rfl⟩, rfl, ring.isEmpty⟩
  cases kind with
  | point => exact point
  | ring => exact ring
  | polygon => exact polygon
  | multiPolygon => exact ⟨rfl, rfl, rfl, ⟨polygon.wellTyped, rfl⟩, rfl, polygon.isEmpty⟩

theorem elementName_fill (type : Ty) (name : Bytes) :
    (type.fill (TypeAst.blank.setName name)).elementName = name := by
  cases name <;> rfl

theorem elementNames_unnamed (items : List Ty) :
    ∀ name ∈ (Ty.fields [] items).map TypeAst.elementName, name = [] := by
  induction items with
  | nil => nofun
  | cons item items ih =>
    intro name mem
    rcases mem_cons.mp mem with rfl | mem
    · rfl
    · exact ih name mem

theorem elementNames_named {names : List Bytes} (count : names.length = items.length) :
    (Ty.fields names items).map TypeAst.elementName = names := by
  induction names generalizing items with
  | nil =>
    cases items with
    | nil => rfl
    | cons item items => cases count
  | cons name names ih =>
    cases items with
    | nil => cases count
    | cons item items =>
      exact congrArg₂ cons (elementName_fill item name) (ih (Nat.succ.inj count))

variable [Hashing] {settings : CreateColumnByTypeSettings}

theorem create_column (ast : TypeAst) : (create settings ast).column =
    createFromElements settings ast (createAll settings ast.elements) := by
  cases ast
  rfl

theorem create_fixed {type : FixedType} (proper : type.Proper)
    (of : ast.Of type.code type.arguments) :
    (create settings ast).column = .ok (some (.fixed type)) := by
  obtain ⟨metaKind, code, elements⟩ := of
  rw [create_column, createFromElements, metaKind]
  cases type with
  | dateTime timezone =>
    show createTerminalColumn ast = _
    rw [createTerminalColumn, code, elements, FixedType.arguments]
    cases timezone <;> rfl
  | dateTime64 precision timezone =>
    have fits : createDateTime64 (toSizeT (precision : Nat)) timezone =
        .ok (.dateTime64 precision timezone) := by
      rw [toSizeT_ofNat (by omega), createDateTime64, dif_pos precision.isLt]
    show createTerminalColumn ast = _
    rw [createTerminalColumn, code, elements, FixedType.arguments]
    cases timezone with
    | nil => exact congrArg (Except.map fun type => some (fixed type)) fits
    | cons c timezone => exact congrArg (Except.map fun type => some (fixed type)) fits
  | time64 precision =>
    have fits : createTime64 (toSizeT (precision : Nat)) = .ok (.time64 precision) := by
      rw [toSizeT_ofNat (by omega), createTime64, dif_pos precision.isLt]
    show createTerminalColumn ast = _
    rw [createTerminalColumn, code, elements, FixedType.arguments]
    exact congrArg (Except.map fun type => some (fixed type)) fits
  | decimal precision scale =>
    show createTerminalColumn ast = _
    rw [createTerminalColumn, code, elements]
    show Except.ok (some (fixed (.decimal (toSizeT precision) (toSizeT scale)))) = _
    rw [toSizeT_ofNat proper.1, toSizeT_ofNat proper.2]
  | enum8 type =>
    obtain ⟨even, same⟩ := EnumType.Proper.ofItems_arguments proper (by decide)
    have arguments : ast.elements = type.arguments := elements
    simp only [FixedType.code, Code.metaKind, code, arguments, even, same, ne_eq, not_true,
      if_false]
  | enum16 type =>
    obtain ⟨even, same⟩ := EnumType.Proper.ofItems_arguments proper (by decide)
    have arguments : ast.elements = type.arguments := elements
    simp only [FixedType.code, Code.metaKind, code, arguments, even, same, ne_eq, not_true,
      if_false]
  | _ =>
    show createTerminalColumn ast = _
    rw [createTerminalColumn, code]
    rfl

theorem create_fixedString {size : Nat} (fits : size < 2 ^ 63)
    (of : ast.Of .fixedString (LeafType.fixedString size).arguments) :
    (create settings ast).column = .ok (some (.fixedString size)) := by
  obtain ⟨metaKind, code, elements⟩ := of
  rw [create_column, createFromElements, metaKind]
  show createTerminalColumn ast = _
  rw [createTerminalColumn, code, elements]
  show Except.ok (some (fixedString (toSizeT size))) = _
  rw [toSizeT_ofNat fits]

theorem create_leaf {type : LeafType} (proper : type.Proper)
    (of : ast.Of type.code type.arguments) :
    (create settings ast).column = .ok (some (.leaf type.emptyColumn)) := by
  cases type with
  | fixed type => exact create_fixed proper of
  | fixedString size => exact create_fixedString proper.2 of
  | _ =>
    obtain ⟨metaKind, code, _⟩ := of
    rw [create_column, createFromElements, metaKind]
    show createTerminalColumn ast = _
    rw [createTerminalColumn, code]
    rfl

/-! ## LowCardinality -/

theorem createLowCardinality_fresh {type : LeafType} (proper : type.Proper)
    (dictionary : type.isDictionary) :
    ∃ column, createLowCardinality (.leaf type.emptyColumn) = .ok column ∧
      column.Fresh (.lowCardinality (.leaf type)) := by
  have sound : Dictionary.Sound ⟨type.emptyColumn, none⟩ := proper.sound dictionary nofun
  obtain ⟨reserved, extends', made⟩ := LowCardinality.exists_ofColumnRef sound type.size_emptyColumn
  have column := congrArg (Except.map lowCardinality) made
  refine ⟨_, Eq.trans ?_ column, LowCardinality.fresh ?_ rfl⟩
  · show (checkSize _ >>= fun _ => _) = _
    rw [checkSize, if_pos proper.sizeDefined]
    rfl
  · rw [extends'.type, Dictionary.type_cloneEmpty]
    exact congrArg Ty.leaf type.type_emptyColumn

theorem createNullableLowCardinality_fresh {type : LeafType} (proper : type.Proper)
    (dictionary : type.isDictionary) :
    ∃ column, createNullableLowCardinality (.leaf type.emptyColumn) = .ok column ∧
      column.Fresh (.lowCardinality (.nullable (.leaf type))) := by
  have sound : Dictionary.Sound ⟨type.emptyColumn, some []⟩ :=
    proper.sound dictionary fun flags same => (Option.some.inj same).symm
  obtain ⟨null, reserved, extendsNull, extends', made⟩ :=
    LowCardinality.exists_ofNullable sound rfl rfl
  have column := congrArg (Except.map lowCardinality) made
  refine ⟨_, Eq.trans ?_ column, LowCardinality.fresh ?_ rfl⟩
  · rw [createNullableLowCardinality, checkSize, if_pos proper.sizeDefined]
    rfl
  · rw [extends'.type, extendsNull.type, Dictionary.type_cloneEmpty]
    exact congrArg (Ty.nullable ∘ Ty.leaf) type.type_emptyColumn

/-! ## Composite columns -/

theorem create_geo {kind : GeoKind} (of : ast.Of kind.code []) :
    (create settings ast).column = .ok (some kind.emptyColumn) := by
  obtain ⟨metaKind, code, _⟩ := of
  rw [create_column, createFromElements, metaKind]
  cases kind <;>
  · show createTerminalColumn ast = _
    rw [createTerminalColumn, code]
    rfl

theorem create_array {item : Ty} {data : Column} (of : ast.Of .array [element])
    (created : (create settings element).column = .ok (some data)) (fresh : data.Fresh item) :
    (create settings ast).column = .ok (some (.array data [])) := by
  obtain ⟨metaKind, _, elements⟩ := of
  rw [create_column, createFromElements, metaKind, elements]
  show ((create settings element).column >>= _) = _
  rw [created]
  show (createArray data >>= _) = _
  rw [createArray, checkSize, if_pos fresh.sizeDefined]
  rfl

theorem create_nullable {type : Ty} {nested : Column} (of : ast.Of .nullable [element])
    (created : (create settings element).column = .ok (some nested)) (fresh : nested.Fresh type) :
    (create settings ast).column = .ok (some (.nullable nested [])) := by
  obtain ⟨metaKind, _, elements⟩ := of
  rw [create_column, createFromElements, metaKind, elements]
  show ((create settings element).column >>= _) = _
  rw [created]
  show (createNullable nested >>= _) = _
  rw [createNullable, checkSize, if_pos fresh.sizeDefined]
  rfl

theorem create_ast (ast : TypeAst) : (create settings ast).ast = ast := by
  cases ast
  rfl

theorem create_elements (ast : TypeAst) :
    (create settings ast).elements = (createAll settings ast.elements).map Created.column := by
  cases ast
  rfl

theorem create_lowCardinality {type : LeafType} (proper : type.Proper)
    (dictionary : type.isDictionary) (of : ast.Of .lowCardinality [element])
    (ofElement : element.Of type.code type.arguments) :
    ∃ column, (create ⟨false⟩ ast).column = .ok (some column) ∧
      column.Fresh (.lowCardinality (.leaf type)) := by
  obtain ⟨column, made, fresh⟩ := createLowCardinality_fresh proper dictionary
  refine ⟨column, ?_, fresh⟩
  have created : (create ⟨false⟩ element).column = .ok (some (.leaf type.emptyColumn)) :=
    create_leaf proper ofElement
  obtain ⟨metaKind, _, elements⟩ := of
  rw [create_column, createFromElements, metaKind, elements]
  show createLowCardinalityFromAst ⟨false⟩ (create ⟨false⟩ element) = _
  rw [createLowCardinalityFromAst, create_ast, ofElement.hasCode, created]
  have used : (createLowCardinality (.leaf type.emptyColumn) >>= fun column => .ok (some column)) =
      .ok (some column) := by
    rw [made]
    rfl
  cases type with
  | string => exact used
  | fixedString size => exact used
  | void => cases dictionary
  | json => cases dictionary
  | fixed type => cases type <;> exact used

theorem create_nullableLowCardinality {inner : TypeAst} {type : LeafType} (proper : type.Proper)
    (dictionary : type.isDictionary) (of : ast.Of .lowCardinality [element])
    (ofElement : element.Of .nullable [inner]) (ofInner : inner.Of type.code type.arguments) :
    ∃ column, (create ⟨false⟩ ast).column = .ok (some column) ∧
      column.Fresh (.lowCardinality (.nullable (.leaf type))) := by
  obtain ⟨column, made, fresh⟩ := createNullableLowCardinality_fresh proper dictionary
  refine ⟨column, ?_, fresh⟩
  have created : (create ⟨false⟩ inner).column = .ok (some (.leaf type.emptyColumn)) :=
    create_leaf proper ofInner
  obtain ⟨metaKind, _, elements⟩ := of
  rw [create_column, createFromElements, metaKind, elements]
  show createLowCardinalityFromAst ⟨false⟩ (create ⟨false⟩ element) = _
  rw [createLowCardinalityFromAst, create_ast, ofElement.hasCode, create_elements,
    ofElement.elements]
  show ((create ⟨false⟩ inner).column >>= _) = _
  rw [created]
  show (createNullableLowCardinality (.leaf type.emptyColumn) >>= _) = _
  rw [made]
  rfl

theorem create_tuple {names : List Bytes} (of : ast.Of .tuple (Ty.fields names items))
    (created : collectColumns ((createAll settings (Ty.fields names items)).map Created.column) =
      .ok (some columns)) (nonempty : items ≠ [])
    (count : names = [] ∨ names.length = items.length) (named : ∀ name ∈ names, name ≠ []) :
    (create settings ast).column = .ok (some (.tuple columns names)) := by
  obtain ⟨metaKind, _, elements⟩ := of
  rw [create_column, createFromElements, metaKind, elements]
  simp only [created]
  show (if _ then _ else _) = _
  rcases count with rfl | count
  · rw [if_neg]
    intro any
    obtain ⟨name, mem, present⟩ := any_eq_true.mp any
    rw [elementNames_unnamed items name mem] at present
    cases present
  · have any : names.any (fun name => !name.isEmpty) = true := by
      obtain ⟨name, rest, rfl⟩ : ∃ name rest, names = name :: rest := by
        cases names with
        | nil => exact absurd (length_eq_zero_iff.mp count.symm) nonempty
        | cons name rest => exact ⟨name, rest, rfl⟩
      have first := named name (mem_cons_self ..)
      simp [first]
    have all : names.any isEmpty = false := by
      rw [any_eq_false]
      intro name mem
      simpa using named name mem
    rw [elementNames_named count, if_pos any, createNamedTuple, all]
    rfl

theorem create_map {keyElement valueElement : TypeAst} {keys values : Column}
    (of : ast.Of .map [keyElement, valueElement])
    (createdKey : (create settings keyElement).column = .ok (some keys))
    (createdValue : (create settings valueElement).column = .ok (some values))
    (sized : keys.sizeDefined) :
    (create settings ast).column = .ok (some (.map (.array (.tuple [keys, values] []) []))) := by
  obtain ⟨metaKind, _, elements⟩ := of
  have sized : (tuple [keys, values] []).sizeDefined = true := sized
  have both : collectColumns [(create settings keyElement).column,
      (create settings valueElement).column] = .ok (some [keys, values]) := by
    rw [createdKey, createdValue]
    rfl
  rw [create_column, createFromElements, metaKind, elements]
  show (collectColumns [(create settings keyElement).column,
    (create settings valueElement).column] >>= _) = _
  rw [both]
  show (createArray (.tuple [keys, values] []) >>= _) = _
  rw [createArray, checkSize, if_pos sized]
  rfl

end Leaves

theorem collectColumns_cons {column : Except Error (Option Column)} {made : Column}
    {columns : List (Except Error (Option Column))} {madeAll : List Column}
    (first : column = .ok (some made)) (others : collectColumns columns = .ok (some madeAll)) :
    collectColumns (column :: columns) = .ok (some (made :: madeAll)) := by
  rw [first, collectColumns, others]
  rfl

section Create

variable [Hashing]

mutual

/-- The factory makes an empty column of the type from its tree. -/
theorem Ty.Proper.creates {type : Ty} (proper : type.Proper) (base : TypeAst)
    (noElements : base.elements = []) :
    ∃ column, (create ⟨false⟩ (type.fill base)).column = .ok (some column) ∧
      column.Fresh type := by
  have of := type.of_fill noElements
  match type, proper, of with
  | .leaf type, proper, of =>
    have proper : type.Proper := proper
    exact ⟨_, create_leaf proper of, proper.fresh⟩
  | .geo kind, _, of => exact ⟨_, create_geo of, kind.fresh⟩
  | .array item, proper, of =>
    have proper : item.Proper := proper
    obtain ⟨data, created, fresh⟩ := Ty.Proper.creates proper .blank rfl
    exact ⟨_, create_array of created fresh, fresh.array⟩
  | .nullable nested, proper, of =>
    have proper : nested.Proper := proper
    obtain ⟨column, created, fresh⟩ := Ty.Proper.creates proper .blank rfl
    exact ⟨_, create_nullable of created fresh, fresh.nullable⟩
  | .tuple items names, ⟨nonempty, count, named, proper⟩, of =>
    obtain ⟨columns, created, fresh⟩ := Ty.AllProper.creates proper names
    have named := fun name mem => (named name mem).1
    exact ⟨_, create_tuple of created nonempty count named, fresh_tuple fresh nonempty names⟩
  | .lowCardinality (.leaf type), ⟨proper, dictionary⟩, of =>
    exact create_lowCardinality proper dictionary of (Ty.of_fill (.leaf type) rfl)
  | .lowCardinality (.nullable (.leaf type)), ⟨proper, dictionary⟩, of =>
    exact create_nullableLowCardinality proper dictionary of
      (Ty.of_fill (.nullable (.leaf type)) rfl) (Ty.of_fill (.leaf type) rfl)
  | .map key value, ⟨keyProper, valueProper⟩, of =>
    obtain ⟨keys, createdKey, freshKey⟩ := Ty.Proper.creates keyProper .blank rfl
    obtain ⟨values, createdValue, freshValue⟩ := Ty.Proper.creates valueProper .blank rfl
    exact ⟨_, create_map of createdKey createdValue freshKey.sizeDefined, freshKey.map freshValue⟩

theorem Ty.AllProper.creates {items : List Ty} (proper : Ty.AllProper items)
    (names : List Bytes) : ∃ columns,
      collectColumns ((createAll ⟨false⟩ (Ty.fields names items)).map Created.column) =
        .ok (some columns) ∧ Forall₂ Fresh items columns := by
  match items, proper, names with
  | [], _, _ => exact ⟨[], by cases names <;> rfl, .nil⟩
  | item :: items, ⟨first, others⟩, [] =>
    obtain ⟨column, created, fresh⟩ := Ty.Proper.creates first .blank rfl
    obtain ⟨columns, createdAll, freshAll⟩ := Ty.AllProper.creates others []
    exact ⟨column :: columns, collectColumns_cons created createdAll, .cons fresh freshAll⟩
  | item :: items, ⟨first, others⟩, name :: names =>
    obtain ⟨column, created, fresh⟩ :=
      Ty.Proper.creates first (TypeAst.blank.setName name) rfl
    obtain ⟨columns, createdAll, freshAll⟩ := Ty.AllProper.creates others names
    exact ⟨column :: columns, collectColumns_cons created createdAll, .cons fresh freshAll⟩

end

/-- Every type name gives back an empty column of the type. -/
theorem createColumnByType_fresh {type : Ty} (proper : type.Proper) :
    ∃ column, createColumnByType ⟨false⟩ type.getName = .ok (some column) ∧ column.Fresh type := by
  obtain ⟨column, created, fresh⟩ := proper.creates .blank rfl
  refine ⟨column, ?_, fresh⟩
  rw [createColumnByType, parseTypeName_getName proper]
  exact created

/-- `CreateColumnByType` of the name a type prints returns a column of exactly that type. -/
theorem createColumnByType_getName {type : Ty} (proper : type.Proper) :
    ∃ column, createColumnByType ⟨false⟩ type.getName = .ok (some column) ∧
      column.type = type := by
  obtain ⟨column, created, fresh⟩ := createColumnByType_fresh proper
  exact ⟨column, created, fresh.hasType⟩

/-- A tuple with a quoted field name, an enum with a quote in a label, a time zone, a decimal and a
map to a nullable dictionary. -/
def sampleType : Ty :=
  .tuple
    [.leaf (.fixed (.enum8 (.ofItems [(ascii "it's", 1), (ascii "no", -2)]))),
      .array (.leaf (.fixed (.dateTime64 3 (ascii "UTC")))),
      .leaf (.fixed (.decimal 10 2)),
      .map (.leaf .string) (.lowCardinality (.nullable (.leaf (.fixedString 3))))]
    [ascii "a kind", ascii "times", ascii "price", ascii "m"]

end Create

theorem createColumnByType_sampleType :
    letI := lengthHashing
    sampleType.Proper ∧ ∃ column,
      createColumnByType ⟨false⟩ sampleType.getName = .ok (some column) ∧
        column.type = sampleType := by
  let _ := lengthHashing
  have labels : EnumType.Proper (2 ^ 7) (.ofItems [(ascii "it's", 1), (ascii "no", -2)]) :=
    ⟨_, by decide, by decide, by decide, by decide, rfl⟩
  have names : ∀ name ∈ [ascii "a kind", ascii "times", ascii "price", ascii "m"],
      name ≠ [] ∧ LexesBack name := by decide
  have proper : sampleType.Proper :=
    ⟨by decide, .inr rfl, names, labels, trivial, ⟨by decide, by decide⟩,
      ⟨trivial, ⟨by decide, by decide⟩, rfl⟩, trivial⟩
  exact ⟨proper, createColumnByType_getName proper⟩

end ClickHouse
