import ClickHouse.FactoryRoundTrip

/-!
# Enum columns

`enum.cpp`: the label of a row is stored as the number that the type has for it,
and found again by that number.  The two maps of an `EnumType` treat repetitions
in different ways: of two numbers of a label the first counts, of two labels of a
number the last.  The numbers are narrowed when the type is made from its name,
and once more when they are stored.
-/

namespace ClickHouse

open Kit List

def EnumType.getEnumName (type : EnumType) (value : Int) : Except Error Bytes :=
  match type.valueToName.find? value with
  | some name => .ok name
  | none => .error (.outOfRange (ascii "map::at"))

def EnumType.getEnumValue (type : EnumType) (name : Bytes) : Except Error Int :=
  match type.nameToValue.find? name with
  | some value => .ok value
  | none => .error (.outOfRange (ascii "map::at"))

/-- `ColumnEnum8` and `ColumnEnum16` -/
inductive EnumKind
  | enum8 | enum16

/-- `sizeof(T)` of `ColumnEnum<T>` -/
def EnumKind.width : EnumKind → Nat
  | .enum8 => 1
  | .enum16 => 2

def EnumKind.fixedType : EnumKind → EnumType → FixedType
  | .enum8 => .enum8
  | .enum16 => .enum16

namespace ColumnEnum

variable {w : Nat}

/-- `Append(const std::string&)` -/
def append (type : EnumType) (data : ColumnVector w) (name : Bytes) :
    Except Error (ColumnVector w) := do
  let value ← type.getEnumValue name
  .ok (data ++ [.ofInt w value])

/-- `At`, with the check of `std::vector::at`. -/
def at? (data : ColumnVector w) (n : Nat) : Except Error Int :=
  match data[n]? with
  | some word => .ok word.toInt
  | none => .error (.outOfRange (ascii "vector::_M_range_check"))

def nameAt (type : EnumType) (data : ColumnVector w) (n : Nat) : Except Error Bytes := do
  let value ← at? data n
  type.getEnumName value

end ColumnEnum

/-! ## The maps of an enum -/

namespace EnumType

/-- A label has the first of its numbers. -/
theorem nameToValue_ofItems (items : List EnumItem) (label : Bytes) :
    (ofItems items).nameToValue.find? label = items.lookup label := by
  induction items using reverseRecOn with
  | nil => rfl
  | append_singleton items item ih =>
    have added : ofItems (items ++ [item]) = (ofItems items).addItem item := foldl_concat ..
    rw [added, addItem, OrdMap.find?_insert, ih, lookup_append]
    obtain ⟨name, value⟩ := item
    by_cases same : label = name
    · rw [if_pos same, lookup_cons, same, beq_self_eq_true]
    · rw [if_neg same, lookup_cons, beq_false_of_ne same]
      rfl

/-- A number has the last of its labels. -/
theorem valueToName_ofItems (items : List EnumItem) (value : Int) :
    (ofItems items).valueToName.find? value =
      (items.reverse.find? fun item => item.2 = value).map Prod.fst := by
  induction items using reverseRecOn with
  | nil => rfl
  | append_singleton items item ih =>
    have added : ofItems (items ++ [item]) = (ofItems items).addItem item := foldl_concat ..
    rw [added, addItem, OrdMap.find?_assign, ih, reverse_concat, find?_cons]
    by_cases same : value = item.2
    · simp [same]
    · simp [same, Ne.symm same]

/-- The enum of the labels with the numbers they are given, which are narrowed to 16 bits. -/
def named (given : List (Bytes × Int)) : EnumType :=
  .ofItems (given.map fun item => (item.1, toInt16 item.2))

/-- The labels of the elements of an enum, with the numbers of the type name. -/
def givenItems : List TypeAst → List (Bytes × Int)
  | label :: number :: rest => (label.valueString, number.value) :: givenItems rest
  | _ => []

/-- `CreateEnum8` and `CreateEnum16` are given numbers of 16 bits. -/
theorem named_of_fits {given : List (Bytes × Int)}
    (fits : ∀ item ∈ given, -2 ^ 15 ≤ item.2 ∧ item.2 < 2 ^ 15) :
    named given = .ofItems given := by
  have same : given.map (fun item => (item.1, toInt16 item.2)) = given.map id := by
    refine map_congr_left fun item mem => ?_
    rw [toInt16_of_fits (fits item mem).1 (fits item mem).2]
    rfl
  rw [named, same, map_id]

/-- `CreateColumnFromAst` narrows the numbers of the type name. -/
theorem ofItems_enumItems (elements : List TypeAst) :
    ofItems (enumItems elements) = named (givenItems elements) := by
  have same : enumItems elements =
      (givenItems elements).map fun item => (item.1, toInt16 item.2) := by
    fun_induction enumItems elements with
    | case1 label number rest ih => rw [givenItems, map_cons, ih]
    | case2 elements short =>
      rcases elements with _ | ⟨label, _ | ⟨number, rest⟩⟩
      · rfl
      · rfl
      · exact absurd rfl (short label number rest)
  rw [same, named]

end EnumType

/-- An enum column of the factory, whatever the numbers in its type name are. -/
theorem createFromElements_enum [Hashing] (settings : CreateColumnByTypeSettings) {ast : TypeAst}
    (elements : List Created) (kind : EnumKind) (isEnum : ast.metaKind = .enum)
    (code : ast.code = (kind.fixedType (.named [])).code) (even : ast.elements.length % 2 = 0) :
    createFromElements settings ast elements =
      .ok (some (.fixed (kind.fixedType (.named (EnumType.givenItems ast.elements))))) := by
  rw [createFromElements, isEnum]
  dsimp only
  rw [if_neg (not_not.mpr even), EnumType.ofItems_enumItems, code]
  cases kind <;> rfl

/-! ## Storing a label -/

/-- A label is stored as its number, and found again. -/
def LabelSurvives (kind : EnumKind) (type : EnumType) (label : Bytes) (number : Int) : Prop :=
  ∀ data : ColumnVector kind.width, ∃ data', ColumnEnum.append type data label = .ok data' ∧
    ColumnEnum.nameAt type data' data.length = .ok label ∧
    ColumnEnum.at? data' data.length = .ok number

theorem lookup_map_snd {α β : Type} (f : α → β) (items : List (Bytes × α)) (label : Bytes) :
    (items.map fun item => (item.1, f item.2)).lookup label = (items.lookup label).map f := by
  induction items with
  | nil => rfl
  | cons item items ih =>
    obtain ⟨name, value⟩ := item
    simp only [map_cons, lookup_cons]
    by_cases same : label = name
    · rw [same, beq_self_eq_true]
      rfl
    · rw [beq_false_of_ne same]
      exact ih

/-- What is stored fits the rows. -/
theorem EnumKind.toInt_range (kind : EnumKind) (word : Word kind.width) :
    -(256 ^ kind.width / 2) ≤ word.toInt ∧ word.toInt < 256 ^ kind.width / 2 := by
  unfold Word.toInt
  cases kind with
  | enum8 => exact ⟨Int.le_bmod (by decide), Int.bmod_lt (by decide)⟩
  | enum16 => exact ⟨Int.le_bmod (by decide), Int.bmod_lt (by decide)⟩

/-- A number that fits the rows is kept by both conversions. -/
theorem EnumKind.stored_eq (kind : EnumKind) {number : Int}
    (low : -(256 ^ kind.width / 2) ≤ number) (high : number < 256 ^ kind.width / 2) :
    toInt16 number = number ∧ (Word.ofInt kind.width number).toInt = number := by
  cases kind with
  | enum8 =>
    have low : -128 ≤ number := low
    have high : number < 128 := high
    exact ⟨toInt16_of_fits (by omega) (by omega), Word.toInt_ofInt low high⟩
  | enum16 =>
    have low : -32768 ≤ number := low
    have high : number < 32768 := high
    exact ⟨toInt16_of_fits low high, Word.toInt_ofInt low high⟩

/-- A label survives if its number fits the rows of the column, and of all labels with that number
it is the last. -/
theorem labelSurvives_iff (kind : EnumKind) {given : List (Bytes × Int)} {label : Bytes}
    {number : Int} (known : given.lookup label = some number) :
    LabelSurvives kind (.named given) label number ↔
      (-(256 ^ kind.width / 2) ≤ number ∧ number < 256 ^ kind.width / 2) ∧
      (given.reverse.find? fun item => toInt16 item.2 = number).map Prod.fst = some label := by
  have value : (EnumType.named given).getEnumValue label = .ok (toInt16 number) := by
    rw [EnumType.getEnumValue, EnumType.named, EnumType.nameToValue_ofItems, lookup_map_snd, known]
    rfl
  have name : (EnumType.named given).valueToName.find? number =
      (given.reverse.find? fun item => toInt16 item.2 = number).map Prod.fst := by
    rw [EnumType.named, EnumType.valueToName_ofItems, ← map_reverse, find?_map,
      Option.map_map]
    rfl
  have appended (data : ColumnVector kind.width) :
      ColumnEnum.append (.named given) data label = .ok (data ++ [.ofInt _ (toInt16 number)]) := by
    rw [ColumnEnum.append, value]
    rfl
  have stored (data : ColumnVector kind.width) :
      ColumnEnum.at? (data ++ [.ofInt _ (toInt16 number)]) data.length =
        .ok (Word.ofInt kind.width (toInt16 number)).toInt := by
    rw [ColumnEnum.at?, getElem?_concat_length]
  constructor
  · intro survives
    obtain ⟨data', append, named, number'⟩ := survives []
    cases (appended []).symm.trans append
    have same := Except.ok.inj ((stored []).symm.trans number')
    refine ⟨same ▸ kind.toInt_range _, ?_⟩
    rw [ColumnEnum.nameAt, number'] at named
    have found : (EnumType.named given).getEnumName number = .ok label := named
    rw [EnumType.getEnumName] at found
    split at found
    · cases found
      rw [← name]
      assumption
    · cases found
  · rintro ⟨⟨low, high⟩, last⟩ data
    obtain ⟨narrow, same⟩ := kind.stored_eq low high
    rw [narrow] at appended stored
    refine ⟨_, appended data, ?_, ?_⟩
    · rw [ColumnEnum.nameAt, stored, same]
      show (EnumType.named given).getEnumName number = _
      rw [EnumType.getEnumName, name, last]
    · rw [stored, same]

/-- The later of two labels of a number, between labels of others. -/
theorem labelSurvives_later : LabelSurvives .enum8
    (.named [(ascii "a", -1), (ascii "b", 7), (ascii "c", 7), (ascii "d", 300)]) (ascii "c") 7 :=
  (labelSurvives_iff .enum8 (by decide)).mpr (by decide)

/-- Of two labels of a number the first is found as the second, and 300 does not fit a byte. -/
theorem not_labelSurvives_shared :
    ¬ LabelSurvives .enum8 (.ofItems [(ascii "a", 1), (ascii "b", 1)]) (ascii "a") 1 ∧
      ¬ LabelSurvives .enum8 (.ofItems [(ascii "a", 300)]) (ascii "a") 300 := by
  constructor
  · intro survives
    obtain ⟨data', append, name, -⟩ := survives []
    have appended : ColumnEnum.append (.ofItems [(ascii "a", 1), (ascii "b", 1)])
        ([] : ColumnVector 1) (ascii "a") = .ok [.ofInt 1 1] := rfl
    cases appended.symm.trans append
    have found : ColumnEnum.nameAt (.ofItems [(ascii "a", 1), (ascii "b", 1)])
        ([.ofInt 1 1] : ColumnVector 1) 0 = .ok (ascii "b") := rfl
    exact absurd (Except.ok.inj (found.symm.trans name)) (by decide)
  · intro survives
    obtain ⟨data', append, -, number⟩ := survives []
    have appended : ColumnEnum.append (.ofItems [(ascii "a", 300)]) ([] : ColumnVector 1)
        (ascii "a") = .ok [.ofInt 1 300] := rfl
    cases appended.symm.trans append
    have stored : (Word.ofInt 1 300).toInt = 300 := Except.ok.inj number
    have fits : (Word.ofInt 1 300).toInt < 128 := (EnumKind.toInt_range .enum8 _).2
    omega

end ClickHouse
