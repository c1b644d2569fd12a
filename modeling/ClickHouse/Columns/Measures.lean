import ClickHouse.Columns.ReceivedArrays
import ClickHouse.Columns.RoundTrip
import ClickHouse.Kit.Contract

/-!
# Sizes of fresh columns

`Size()` of a column is a count of rows, or a quotient of the bytes it holds by
the bytes of a row.  `ColumnFixedString` takes the divisor from its type, and
makes room for a product of `size_t` when it is loaded.  This module says of a
column as the factory makes it where `Size()`, `CloneEmpty()` and `Load` divide
by zero, and after which loads `Size()` is the number of rows asked for.
-/

namespace ClickHouse

open Kit List Column LowCardinality

/-! ## Measures -/

/-- What `Size()` is taken from. -/
inductive Measure
  | count
  /-- The units a column holds, divided by the units of a row.  `Load` makes room for their product
  with the number of rows. -/
  | quotient (units : Nat)
  /-- A tuple without elements. -/
  | absent
deriving DecidableEq, Repr

namespace Measure

/-- `Size()` after `rows` rows were loaded into an empty column. -/
def loaded : Measure → Nat → Nat
  | .count, rows => rows
  | .quotient units, rows => units * rows % 2 ^ 64 / units
  | .absent, _ => 0

/-- The divisor, if there is one, is not zero. -/
def isDefined : Measure → Bool
  | .quotient units => units != 0
  | _ => true

/-- No number of rows makes the product wrap around. -/
def isExact : Measure → Bool
  | .count => true
  | .quotient units => units == 1
  | .absent => false

theorem isDefined_of_isExact {measure : Measure} (exact : measure.isExact) : measure.isDefined := by
  cases measure with
  | count => rfl
  | quotient units =>
    have one : units = 1 := by simpa [isExact] using exact
    simp [isDefined, one]
  | absent => cases exact

/-- Two rows more than fit leave less than there were. -/
theorem exists_wrapped {units : Nat} (several : 2 ≤ units) :
    ∃ rows < 2 ^ 64, units * rows % 2 ^ 64 / units ≠ rows := by
  have split := Nat.div_add_mod (2 ^ 64) units
  have remainder := Nat.mod_lt (2 ^ 64) (show units > 0 by omega)
  have half : 2 ^ 64 / units ≤ 2 ^ 63 := by
    rw [show (2 : Nat) ^ 63 = 2 ^ 64 / 2 by decide]
    exact Nat.div_le_div_left several (by decide)
  refine ⟨2 ^ 64 / units + 1, by omega, ?_⟩
  have bytes : units * (2 ^ 64 / units + 1) = 2 ^ 64 + (units - 2 ^ 64 % units) := by
    rw [Nat.mul_add, Nat.mul_one]
    omega
  rw [bytes, Nat.add_mod_left]
  intro same
  have few : (units - 2 ^ 64 % units) % 2 ^ 64 / units ≤ 1 := by
    calc (units - 2 ^ 64 % units) % 2 ^ 64 / units
        ≤ units / units := Nat.div_le_div_right (by
          have := Nat.mod_le (units - 2 ^ 64 % units) (2 ^ 64)
          omega)
      _ = 1 := Nat.div_self (by omega)
  have none : 2 ^ 64 / units = 0 := by
    rw [same] at few
    exact Nat.le_zero.mp (Nat.le_of_succ_le_succ few)
  have large : 2 ^ 64 < units := (Nat.div_eq_zero_iff_lt (by omega)).mp none
  rw [none, Nat.mod_eq_of_lt large] at same
  have below : (units - 2 ^ 64) % 2 ^ 64 < units := by
    have := Nat.mod_le (units - 2 ^ 64) (2 ^ 64)
    omega
  rw [Nat.div_eq_of_lt below] at same
  cases same

theorem isExact_iff {measure : Measure} :
    measure.isExact ↔ ∀ rows < 2 ^ 64, measure.loaded rows = rows := by
  cases measure with
  | count => simp [isExact, loaded]
  | absent =>
    simp only [isExact, loaded, Bool.false_eq_true, false_iff]
    intro all
    cases all 1 (by decide)
  | quotient units =>
    simp only [isExact, loaded, beq_iff_eq]
    constructor
    · rintro rfl rows below
      rw [Nat.one_mul, Nat.mod_eq_of_lt below, Nat.div_one]
    · intro all
      by_contra other
      rcases Nat.eq_zero_or_pos units with rfl | positive
      · have none := all 1 (by decide)
        rw [Nat.div_zero] at none
        cases none
      · obtain ⟨rows, below, differs⟩ := exists_wrapped (show 2 ≤ units by omega)
        exact differs (all rows below)

end Measure

/-- `ColumnUUID` holds two numbers a row and `ColumnIPv6` sixteen bytes. -/
def LeafType.measure : LeafType → Measure
  | .fixed .uuid => .quotient 2
  | .fixed .ipv6 => .quotient 16
  | .fixedString size => .quotient size
  | _ => .count

mutual

def Column.measure : Column → Measure
  | .leaf column => column.type.measure
  | .tuple columns _ => firstMeasure columns
  | .map data => data.measure
  | .geo _ data => data.measure
  -- The rows are appended one by one when the wrapper is loaded.
  | .adaptor column => if column.type.hasRows then .count else .quotient 0
  | .array _ _ => .count
  | .nullable _ _ => .count
  | .lowCardinality _ => .count

def Column.firstMeasure : List Column → Measure
  | [] => .absent
  | column :: _ => column.measure

end

theorem LeafType.loadedSize_eq (type : LeafType) {rows : Nat} (below : rows < 2 ^ 64) :
    type.loadedSize rows = type.measure.loaded rows := by
  cases type with
  | fixed type =>
    cases type with
    | uuid => exact congrArg (· % 2 ^ 64 / 2) (Nat.mul_comm rows 2)
    | _ => rfl
  | void => exact Nat.mod_eq_of_lt below
  | _ => rfl

mutual

theorem Column.loadedSize_eq {rows : Nat} (below : rows < 2 ^ 64) : ∀ column : Column,
    column.loadedSize rows = column.measure.loaded rows
  | .leaf column => column.type.loadedSize_eq below
  | .array _ _ => rfl
  | .nullable _ _ => rfl
  | .tuple columns _ => loadedFirstSize_eq below columns
  | .map data => loadedSize_eq below data
  | .lowCardinality _ => rfl
  | .geo _ data => loadedSize_eq below data
  | .adaptor column => by
    rw [loadedSize, measure]
    split
    · rfl
    · exact (Nat.div_zero _).symm

theorem Column.loadedFirstSize_eq {rows : Nat} (below : rows < 2 ^ 64) : ∀ columns : List Column,
    loadedFirstSize columns rows = (firstMeasure columns).loaded rows
  | [] => rfl
  | column :: _ => loadedSize_eq below column

end

theorem Leaf.sizeDefined_eq_isDefined (column : Leaf) :
    (leaf column).sizeDefined = column.type.measure.isDefined := by
  cases column with
  | fixed type data => cases type <;> rfl
  | _ => rfl

theorem Column.sizeDefined_eq : ∀ column : Column, column.sizeDefined = column.measure.isDefined
  | .leaf column => column.sizeDefined_eq_isDefined
  | .array _ _ => rfl
  | .nullable _ _ => rfl
  | .tuple [] _ => rfl
  | .tuple (column :: _) _ => by
    rw [sizeDefined, sizeDefined_eq column]
    rfl
  | .map data => by
    rw [sizeDefined, sizeDefined_eq data]
    rfl
  | .lowCardinality _ => rfl
  | .geo _ data => by
    rw [sizeDefined, sizeDefined_eq data]
    rfl
  | .adaptor column => by
    cases column with
    | fixedString column =>
      rw [sizeDefined, measure]
      rcases Nat.eq_zero_or_pos column.stringSize with none | positive
      · simp [Leaf.type, LeafType.hasRows, none, Measure.isDefined]
      · have some : column.stringSize ≠ 0 := by omega
        simp [Leaf.type, LeafType.hasRows, some, Measure.isDefined]
    | _ => rfl

/-! ## Divisions by zero -/

mutual

/-- `CloneEmpty()` does not divide by zero: the constructors it calls take the sizes of what they
are given. -/
def Column.cloneDefined : Column → Bool
  | .array data _ => data.cloneDefined && data.sizeDefined
  | .nullable nested _ => nested.cloneDefined && nested.sizeDefined
  | .tuple columns _ => clonesDefined columns
  | .map data => data.cloneDefined
  | .lowCardinality column => (leaf column.dictionary.data).sizeDefined
  | .leaf _ => true
  | .geo _ _ => true
  | .adaptor _ => true

def Column.clonesDefined : List Column → Bool
  | [] => true
  | column :: columns => column.cloneDefined && clonesDefined columns

end

mutual

/-- The column is or contains a wrapper over strings of length zero, where `LoadPrefix` comes. -/
def Column.wrapsNothing : Column → Bool
  | .adaptor column => !(adaptor column).sizeDefined
  | .array data _ => data.wrapsNothing
  | .nullable nested _ => nested.wrapsNothing
  | .tuple columns _ => anyWrapsNothing columns
  | .map data => data.wrapsNothing
  | .leaf _ => false
  | .lowCardinality _ => false
  | .geo _ _ => false

def Column.anyWrapsNothing : List Column → Bool
  | [] => false
  | column :: columns => column.wrapsNothing || anyWrapsNothing columns

end

theorem Column.sizeDefined_of_solid {column : Leaf}
    (solid : (adaptor column).wrapsNothing = false) : (adaptor column).sizeDefined = true :=
  Bool.not_eq_eq_eq_not.mp solid

/-- Wherever it starts, the program does not end in a division by zero. -/
def Undivided {α : Type} (p : EStateM Error ArrayInput α) : Prop :=
  ∀ s, Ensures p s (fun _ _ => True) fun e _ => e ≠ .divisionByZero

section Undivided

variable {α β : Type} {p : EStateM Error ArrayInput α}

theorem Undivided.pure (a : α) : Undivided (pure a) := fun _ => ensures_pure trivial

theorem Undivided.throw {e : Error} (other : e ≠ .divisionByZero) :
    Undivided (throw e : EStateM Error ArrayInput α) := fun _ => ensures_throw other

theorem Undivided.bind {f : α → EStateM Error ArrayInput β} (first : Undivided p)
    (rest : ∀ a, Undivided (f a)) : Undivided (p >>= f) :=
  fun s => Ensures.bind ((first s).imp (fun a t _ => rest a t) fun _ _ other => other)

theorem Undivided.bind_pure (first : Undivided p) (f : α → β) :
    Undivided (do let a ← p; Pure.pure (f a)) :=
  first.bind fun _ => .pure _

theorem undivided_ofExcept {x : Except Error α} (other : ∀ e, x = .error e → e ≠ .divisionByZero) :
    Undivided (ofExcept x) := fun _ => ensures_ofExcept (fun _ _ => trivial) other

theorem undivided_readAll (len : Nat) : Undivided (readAll len) := by
  have loop (fuel : Nat) : ∀ len, Undivided (readAllLoop fuel len) := by
    induction fuel with
    | zero => exact fun _ => .pure _
    | succ fuel ih =>
      intro len
      rw [readAllLoop]
      split
      · exact .pure _
      · have read : Undivided (Source.read len) := fun _ => trivial
        refine read.bind fun piece => ?_
        split
        · exact .pure _
        · exact (ih _).bind_pure _
  exact loop len len

theorem undivided_readFixedUInt (width : Nat) : Undivided (readFixedUInt width) :=
  ((undivided_readAll width).bind_pure _).bind_pure _

theorem undivided_skip (bytes : Nat) : Undivided (skip bytes) := by
  have loop (fuel : Nat) : ∀ bytes, Undivided (skipLoop fuel bytes) := by
    induction fuel with
    | zero => exact fun _ => .pure _
    | succ fuel ih =>
      intro bytes
      rw [skipLoop]
      split
      · exact .pure _
      · have next : Undivided (Source.next bytes) := fun _ => trivial
        refine next.bind fun piece => ?_
        split
        · exact .pure _
        · exact ih _
  exact loop bytes bytes

theorem undivided_readUInt64 : Undivided readUInt64 := by
  have loop (fuel : Nat) : ∀ i value, Undivided (readVarintLoop fuel i value) := by
    induction fuel with
    | zero => exact fun _ _ => .pure _
    | succ fuel ih =>
      intro i value
      have read : Undivided (Source.read 1) := fun _ => trivial
      refine read.bind fun piece => ?_
      split
      · dsimp only
        split
        · exact .pure _
        · exact ih _ _
      · exact .pure _
  exact loop maxVarintBytes 0 0

theorem undivided_loadStringBody (items : List Bytes) (rows : Nat) :
    Undivided (ColumnString.loadBody items rows) := by
  have strings : Undivided (loadStrings rows) := by
    induction rows with
    | zero => exact .pure _
    | succ rows ih =>
      refine undivided_readUInt64.bind fun len => ?_
      cases len with
      | none => exact .pure _
      | some len =>
        refine ((undivided_readAll len).bind_pure _).bind fun item => ?_
        cases item with
        | none => exact .pure _
        | some item => exact ih.bind_pure _
  refine strings.bind fun loaded => ?_
  cases loaded with
  | none => exact .pure _
  | some loaded => exact .pure _

theorem Leaf.undivided_loadPrefix (column : Leaf) : Undivided column.loadPrefix := by
  cases column with
  | json items =>
    refine (undivided_readFixedUInt 8).bind fun version => ?_
    cases version with
    | none => exact .pure _
    | some version =>
      dsimp only
      split
      · exact .throw nofun
      · exact .pure _
  | _ => exact .pure _

theorem Leaf.undivided_loadBody (column : Leaf) (rows : Nat) : Undivided (column.loadBody rows) := by
  cases column with
  | fixed type data => exact ((undivided_readAll _).bind_pure _).bind_pure _
  | fixedString column => exact (undivided_readAll _).bind_pure _
  | string items => exact (undivided_loadStringBody items rows).bind_pure _
  | json items => exact (undivided_loadStringBody items rows).bind_pure _
  | nothing size => exact (undivided_skip rows).bind_pure _

theorem LowCardinality.undivided_loadPrefix : Undivided LowCardinality.loadPrefix := by
  refine (undivided_readFixedUInt 8).bind fun version => ?_
  cases version with
  | none => exact fun _ => Ensures.bind (ensures_throw nofun)
  | some version =>
    refine Undivided.bind (.pure _) fun version => ?_
    split
    · exact .throw nofun
    · exact .pure _

end Undivided

/-! ## Inputs that are loaded -/

section Inputs

variable {σ : Type} [LawfulSource Error σ]

theorem Leaf.exists_prefix (column : Leaf) :
    ∃ bytes, Decodes (σ := σ) column.loadPrefix bytes true := by
  cases column with
  | json items => exact ⟨_, decodes_loadVersion (show jsonSerializationVersion < 256 ^ 8 by decide) rfl⟩
  | _ => exact ⟨[], .pure true⟩

theorem LowCardinality.exists_prefix :
    ∃ bytes, Decodes (σ := σ) loadPrefix bytes true :=
  ⟨_, decodes_loadVersion (show keySerializationVersion < 256 ^ 8 by decide) rfl⟩

mutual

/-- Every column without such a wrapper has a prefix that it loads. -/
theorem Column.exists_prefix (rows : Nat) : ∀ column : Column, column.wrapsNothing = false →
    ∃ bytes, Decodes (σ := σ) (column.loadPrefix rows) bytes true
  | .leaf column, _ => column.exists_prefix
  | .array data _, solid => by
    rw [loadPrefix]
    split
    · exact ⟨[], .pure true⟩
    · exact exists_prefix rows data solid
  | .nullable nested _, solid => exists_prefix rows nested solid
  | .tuple columns _, solid => exists_prefixes rows columns solid
  | .map data, solid => exists_prefix rows data solid
  | .lowCardinality _, _ => LowCardinality.exists_prefix
  | .geo _ _, _ => ⟨[], .pure true⟩
  | .adaptor column, solid => by
    rw [loadPrefix, if_pos (sizeDefined_of_solid solid)]
    exact LowCardinality.exists_prefix

theorem Column.exists_prefixes (rows : Nat) : ∀ columns : List Column,
    anyWrapsNothing columns = false →
    ∃ bytes, Decodes (σ := σ) (loadPrefixes columns rows) bytes true
  | [], _ => ⟨[], .pure true⟩
  | column :: columns, solid => by
    obtain ⟨first, others⟩ := Bool.or_eq_false_iff.mp solid
    obtain ⟨bytes, first⟩ := exists_prefix rows column first
    obtain ⟨bytes', others⟩ := exists_prefixes rows columns others
    exact ⟨bytes ++ bytes', first.bind others⟩

end

mutual

/-- A wrapper over strings of length zero is reached once the prefixes before it are there. -/
theorem Column.exists_divides : ∀ column : Column, column.wrapsNothing = true →
    ∃ input rest : ArrayInput, Throws (column.loadPrefix 1) input .divisionByZero rest
  | .adaptor column, wraps => by
    rw [loadPrefix, if_neg (Bool.eq_false_iff.mp (Bool.not_eq_eq_eq_not.mp wraps))]
    exact ⟨⟨[]⟩, ⟨[]⟩, rfl⟩
  | .array data _, wraps => exists_divides data wraps
  | .nullable nested _, wraps => exists_divides nested wraps
  | .tuple columns _, wraps => exists_dividesAmong columns wraps
  | .map data, wraps => exists_divides data wraps

theorem Column.exists_dividesAmong : ∀ columns : List Column, anyWrapsNothing columns = true →
    ∃ input rest : ArrayInput, Throws (loadPrefixes columns 1) input .divisionByZero rest
  | column :: columns, wraps => by
    cases first : column.wrapsNothing with
    | true =>
      obtain ⟨input, rest, divides⟩ := exists_divides column first
      exact ⟨input, rest, divides.bind _⟩
    | false =>
      have others : anyWrapsNothing columns = true := by
        simpa [anyWrapsNothing, first] using wraps
      obtain ⟨⟨data⟩, rest, divides⟩ := exists_dividesAmong columns others
      obtain ⟨bytes, loads⟩ := exists_prefix (σ := ArrayInput) 1 column first
      exact ⟨⟨bytes ++ data⟩, rest, (ArrayInput.runs_of_decodes loads data).bind_throws divides⟩

end

mutual

theorem Column.undivided_loadPrefix (rows : Nat) : ∀ column : Column,
    column.wrapsNothing = false → Undivided (column.loadPrefix rows)
  | .leaf column, _ => column.undivided_loadPrefix
  | .array data _, solid => by
    rw [loadPrefix]
    split
    · exact .pure _
    · exact undivided_loadPrefix rows data solid
  | .nullable nested _, solid => undivided_loadPrefix rows nested solid
  | .tuple columns _, solid => undivided_loadPrefixes rows columns solid
  | .map data, solid => undivided_loadPrefix rows data solid
  | .lowCardinality _, _ => LowCardinality.undivided_loadPrefix
  | .geo _ _, _ => .pure _
  | .adaptor column, solid => by
    rw [loadPrefix, if_pos (sizeDefined_of_solid solid)]
    exact LowCardinality.undivided_loadPrefix

theorem Column.undivided_loadPrefixes (rows : Nat) : ∀ columns : List Column,
    anyWrapsNothing columns = false → Undivided (loadPrefixes columns rows)
  | [], _ => .pure _
  | column :: columns, solid => by
    obtain ⟨first, others⟩ := Bool.or_eq_false_iff.mp solid
    refine (undivided_loadPrefix rows column first).bind fun ok => ?_
    split
    · exact undivided_loadPrefixes rows columns others
    · exact .pure _

end

end Inputs

/-! ## Columns as the factory makes them -/

mutual

/-- A column without rows.  The sizes that constructors have taken are defined. -/
def Column.Made : Column → Prop
  | .leaf column => column.cloneEmpty = column
  | .array data offsets => offsets = [] ∧ data.sizeDefined ∧ data.Made
  | .nullable nested nulls => nulls = [] ∧ nested.sizeDefined ∧ nested.Made
  | .tuple columns _ => AllMade columns
  | .map data => data.Made
  | .lowCardinality column =>
    column.index.column = [] ∧ (leaf column.dictionary.data).sizeDefined
  | .geo _ data => data.Made ∧ data.wrapsNothing = false
  | .adaptor column => column.cloneEmpty = column ∧ column.type.IsText

def Column.AllMade : List Column → Prop
  | [] => True
  | column :: columns => column.Made ∧ AllMade columns

end

mutual

theorem Column.Made.isEmpty : ∀ {column : Column}, column.Made → column.IsEmpty
  | .leaf column, made => by
    have empty : column.size = 0 := made ▸ column.size_cloneEmpty
    exact empty
  | .array data _, made => by
    have inner : data.IsEmpty := Made.isEmpty made.2.2
    exact ⟨made.1, inner⟩
  | .nullable nested _, made => by
    have inner : nested.IsEmpty := Made.isEmpty made.2.2
    exact ⟨made.1, inner⟩
  | .tuple columns _, made => by
    have inner : AllEmpty columns := AllMade.allEmpty made
    exact inner
  | .map data, made => by
    have inner : data.IsEmpty := Made.isEmpty made
    exact inner
  | .lowCardinality _, made => made.1
  | .geo _ data, made => by
    have inner : data.IsEmpty := Made.isEmpty made.1
    exact inner
  | .adaptor column, made => by
    have empty : column.size = 0 := made.1 ▸ column.size_cloneEmpty
    exact empty

theorem Column.AllMade.allEmpty : ∀ {columns : List Column}, AllMade columns →
    AllEmpty columns
  | [], _ => trivial
  | _ :: _, made => ⟨Made.isEmpty made.1, AllMade.allEmpty made.2⟩

end

mutual

theorem Column.Made.cloneDefined : ∀ {column : Column}, column.Made → column.cloneDefined
  | .leaf _, _ => rfl
  | .array data _, made => by
    have inner : data.cloneDefined := Made.cloneDefined made.2.2
    simp [cloneDefined, inner, made.2.1]
  | .nullable nested _, made => by
    have inner : nested.cloneDefined := Made.cloneDefined made.2.2
    simp [cloneDefined, inner, made.2.1]
  | .tuple columns _, made => by
    have inner : clonesDefined columns := AllMade.clonesDefined made
    exact inner
  | .map data, made => by
    have inner : data.cloneDefined := Made.cloneDefined made
    exact inner
  | .lowCardinality _, made => made.2
  | .geo _ _, _ => rfl
  | .adaptor _, _ => rfl

theorem Column.AllMade.clonesDefined : ∀ {columns : List Column}, AllMade columns →
    clonesDefined columns
  | [], _ => rfl
  | _ :: _, made => by
    simp [clonesDefined, Made.cloneDefined made.1,
      AllMade.clonesDefined made.2]

end

/-! ## Bodies that are loaded -/

/-- Indexes that all point to the first key. -/
def firstKeys (rows : Nat) : IndexState :=
  ⟨.uint8, replicate rows (Word.ofNat 1 0)⟩

theorem length_firstKeys (rows : Nat) : (firstKeys rows).column.length = rows :=
  length_replicate

/-- The wrapper can append the first key as often as it likes. -/
theorem Adaptor.exists_appendRows {loaded : LowCardinality} {key : Bytes} {rows : List Nat}
    (reads : ∀ n ∈ rows, loaded.at? n = some (some key)) : ∀ {column : Leaf},
    column.type.isDictionary → column.type.Positive → column.Aligned → column.type.Accepts key →
    ∃ column', Adaptor.appendRows loaded rows column = .ok column' := by
  induction rows with
  | nil => exact fun _ _ _ _ => ⟨_, rfl⟩
  | cons n rows ih =>
    intro column supported positive aligned accepts
    have item : column.type.Accepts (ItemView.data ⟨column.type.code, key⟩) := accepts
    obtain ⟨next, appended, extends'⟩ := appendToDictionary_extends supported positive aligned item
    have hasType := extends'.hasType
    obtain ⟨column', others⟩ := ih (fun m mem => reads m (mem_cons_of_mem _ mem))
      (hasType ▸ supported) (hasType ▸ positive) extends'.aligned (hasType ▸ accepts)
    refine ⟨column', ?_⟩
    rw [Adaptor.appendRows, reads n (mem_cons_self ..)]
    simp only [appended]
    exact others

/-- A column of one row, which its type accepts. -/
theorem LeafType.exists_key {type : LeafType} (text : type.IsText) (positive : type.Positive) :
    ∃ (column : Leaf) (key : Bytes), column.type = type ∧ column.Savable ∧ column.size < 2 ^ 64 ∧
      column.bytes? 0 = some key ∧ type.Accepts key := by
  cases type with
  | string => exact ⟨.string [[]], [], rfl, by simp [Leaf.Savable], by decide, rfl, trivial⟩
  | fixedString size =>
    have positive : 0 < size := positive
    have length : (replicate size (0 : UInt8)).length = size := length_replicate
    refine ⟨.fixedString ⟨size, replicate size 0⟩, replicate size 0, rfl, ?_, ?_, ?_,
      Nat.le_of_eq length⟩
    · simp only [Leaf.Savable, length]
      exact ⟨positive, Nat.dvd_refl size, text⟩
    · simp only [Leaf.size, length]
      rw [Nat.div_self positive]
      decide
    · simp [Leaf.bytes?, FixedStrings.at?, positive]
  | fixed type => cases text
  | void => cases text
  | json => cases text

theorem LeafType.IsText.isDictionary {type : LeafType} (text : type.IsText) : type.isDictionary := by
  cases type <;> first | rfl | cases text

theorem Leaf.positive_of_sizeDefined {column : Leaf} (defined : (adaptor column).sizeDefined) :
    column.type.Positive := by
  cases column with
  | fixedString column => exact Nat.pos_of_ne_zero (by simpa [sizeDefined] using defined)
  | _ => trivial

theorem at?_firstKeys {data : Leaf} {key : Bytes} {items : UniqueItems} {rows n : Nat}
    (first : data.bytes? 0 = some key) (inside : n < rows) :
    at? ⟨⟨data, none⟩, firstKeys rows, items⟩ n = some (some key) := by
  have index : dictionaryIndex? ⟨⟨data, none⟩, firstKeys rows, items⟩ n = some 0 := by
    rw [dictionaryIndex?]
    show ((replicate rows (Word.ofNat 1 0))[n]?).map Word.toNat = some 0
    rw [getElem?_replicate, if_pos inside]
    rfl
  simp [at?, index, typedAt?, first]

theorem getOffset_zeros (rows n : Nat) :
    getOffset (replicate rows (Word.ofNat 8 0)) n = 0 := by
  unfold getOffset
  split
  · rfl
  · rw [getElem?_replicate]
    split <;> rfl

/-- What a failed append of a text throws. -/
theorem Adaptor.appendRows_error {loaded : LowCardinality} {rows : List Nat} {e : Error} :
    ∀ column : Leaf, column.type.IsText → Adaptor.appendRows loaded rows column = .error e →
    e ≠ .divisionByZero := by
  induction rows with
  | nil =>
    intro column _ failed
    cases failed
  | cons n rows ih =>
    intro column text failed
    rw [Adaptor.appendRows] at failed
    split at failed
    · cases column with
      | string items => exact ih (.string (items ++ [_])) text failed
      | fixedString column =>
        simp only [appendToDictionary, FixedStrings.append] at failed
        split at failed
        · exact ih (.fixedString ⟨column.stringSize,
            column.data ++ padded column.stringSize _⟩) text failed
        · cases failed
          exact Error.noConfusion
      | fixed => cases text
      | json => cases text
      | nothing => cases text
    · cases failed
      exact Error.noConfusion

section Bodies

variable {σ : Type} [LawfulSource Error σ]

/-- Every leaf loads any number of rows of zero bytes. -/
theorem Leaf.exists_body (column : Leaf) (rows : Nat) :
    ∃ bytes loaded, Decodes (σ := σ) (column.loadBody rows) bytes (true, loaded) := by
  cases column with
  | fixed type data =>
    have decodes := decodes_loadVector (σ := σ)
      (replicate (type.loadedRows rows) (Word.ofNat type.width 0)) data
    rw [length_replicate] at decodes
    exact ⟨_, _, decodes.bind_pure (.pure _)⟩
  | fixedString column =>
    have decodes := decodes_readAll (σ := σ) (replicate (column.loadSize rows) 0)
    rw [length_replicate] at decodes
    have whole : length (replicate (column.loadSize rows) (0 : UInt8)) =
        column.loadSize rows := length_replicate
    refine ⟨_, .fixedString (column.resized (column.loadSize rows) 
      (replicate (column.loadSize rows) 0)), decodes.bind_pure ?_⟩
    rw [whole, beq_self_eq_true]
    exact .pure _
  | string items =>
    have decodes := decodes_loadStringBody (σ := σ) (replicate rows []) items
      fun item mem => by rw [eq_of_mem_replicate mem]; decide
    rw [length_replicate] at decodes
    exact ⟨_, _, decodes.bind_pure (.pure _)⟩
  | json items =>
    have decodes := decodes_loadStringBody (σ := σ) (replicate rows []) items
      fun item mem => by rw [eq_of_mem_replicate mem]; decide
    rw [length_replicate] at decodes
    exact ⟨_, _, decodes.bind_pure (.pure _)⟩
  | nothing size =>
    have decodes := decodes_skip (σ := σ) (replicate rows 0)
    rw [length_replicate] at decodes
    exact ⟨_, _, decodes.bind_pure (.pure _)⟩

variable [Hashing]

theorem LowCardinality.exists_body (column : LowCardinality) {rows : Nat} (fits : rows < 2 ^ 64) :
    ∃ bytes loaded, Decodes (σ := σ) (column.loadBody rows) bytes (true, loaded) := by
  obtain ⟨bytes, data, loads⟩ :=
    Leaf.exists_body (σ := σ) column.dictionary.data.cloneEmpty 0
  have decodes := decodes_load_keys (firstKeys rows) (by decide)
    (by rw [length_firstKeys]; exact fits) loads
  rw [length_firstKeys] at decodes
  have whole := decodes.bind_pure (f := fun loaded => pure (true, loaded)) (.pure _)
  exact ⟨_, _, whole.tryCatch _⟩

/-- The wrapper loads a LowCardinality column and then appends its rows. -/
theorem Adaptor.decodes_loadBody {column column' : Leaf} {rows length : Nat} {bytes : Bytes}
    {lowCardinality loaded : LowCardinality}
    (made : ofColumnRef ⟨column.cloneEmpty, none⟩ = .ok lowCardinality)
    (loads : Decodes (σ := σ) (lowCardinality.loadBody rows) bytes (true, loaded))
    (size : loaded.index.column.length = length)
    (appended : Adaptor.appendRows loaded (range length) column.cloneEmpty = .ok column') :
    Decodes (σ := σ) (Adaptor.loadBody column rows) bytes (true, column') := by
  subst size
  have typed : ofTyped ⟨column.cloneEmpty, none⟩ = .ok lowCardinality := made
  unfold Adaptor.loadBody
  simp only [typed, ofExcept, pure_bind]
  refine loads.bind_pure ?_
  simp only [Bool.not_true, Bool.false_eq_true, if_false, appended, pure_bind]
  exact .pure _

theorem Adaptor.exists_body {column : Leaf} (text : column.type.IsText)
    (positive : column.type.Positive) {rows : Nat} (fits : rows < 2 ^ 64) :
    ∃ bytes loaded, Decodes (σ := σ) (Adaptor.loadBody column rows) bytes (true, loaded) := by
  have type := column.type_cloneEmpty
  have supported := text.isDictionary
  have sound : Dictionary.Sound ⟨column.cloneEmpty, none⟩ :=
    ⟨by rw [type]; exact supported, by rw [type]; exact positive, column.aligned_cloneEmpty,
      fun _ same => by cases same⟩
  obtain ⟨reserved, extends', made⟩ :=
    exists_ofColumnRef sound column.size_cloneEmpty
  obtain ⟨dataType, nullable⟩ := Dictionary.type_eq extends'.type
  have plain : reserved.nulls = none := by simpa [Dictionary.cloneEmpty] using nullable
  have keyType : reserved.data.cloneEmpty.type = column.type := by
    rw [Leaf.type_cloneEmpty, dataType]
    exact (Leaf.type_cloneEmpty _).trans type
  obtain ⟨keys, key, hasType, savable, few, first, accepts⟩ := LeafType.exists_key text positive
  obtain ⟨bytes, -, loads⟩ := Leaf.decodes_loadBody (σ := σ) savable (keyType.trans hasType.symm)
  have decodes := decodes_load_keys (firstKeys rows) few
    (by rw [length_firstKeys]; exact fits) loads
  rw [length_firstKeys, plain] at decodes
  have whole := decodes.bind_pure (f := fun loaded => pure (true, loaded)) (.pure _)
  have reads : ∀ n ∈ range rows, at? ⟨⟨keys, none⟩, firstKeys rows,
      uniqueItemsOf ⟨keys, none⟩⟩ n = some (some key) :=
    fun n mem => at?_firstKeys first (mem_range.mp mem)
  obtain ⟨column', appended⟩ := Adaptor.exists_appendRows reads
    (show column.cloneEmpty.type.isDictionary by rw [type]; exact supported)
    (by rw [type]; exact positive) column.aligned_cloneEmpty (by rw [type]; exact accepts)
  exact ⟨_, column', Adaptor.decodes_loadBody made (whole.tryCatch _) (length_firstKeys rows)
    appended⟩

/-- An array loads any number of empty rows. -/
theorem Column.exists_arrayBody (data : Column) (offsets : ColumnVector 8) (rows : Nat) :
    ∃ bytes loaded,
      Decodes (σ := σ) ((array data offsets).loadBody rows) bytes (true, loaded) := by
  rw [loadBody]
  split
  · exact ⟨[], _, .pure _⟩
  · have decodes := decodes_loadVector (σ := σ) (replicate rows (Word.ofNat 8 0)) offsets
    rw [length_replicate] at decodes
    refine ⟨_, .array data (replicate rows (Word.ofNat 8 0)), decodes.bind_pure ?_⟩
    simp only [Bool.not_true, Bool.false_eq_true, if_false, getOffset_zeros, if_true]
    exact .pure _

mutual

/-- A column as the factory makes it has a body for any number of rows. -/
theorem Column.Made.exists_body {rows : Nat} (fits : rows < 2 ^ 64) : ∀ {column : Column},
    column.Made → column.wrapsNothing = false →
    ∃ bytes loaded, Decodes (σ := σ) (column.loadBody rows) bytes (true, loaded)
  | .leaf column, _, _ => by
    obtain ⟨bytes, loaded, decodes⟩ := column.exists_body (σ := σ) rows
    exact ⟨bytes, _, decodes.bind_pure (.pure _)⟩
  | .array data offsets, _, _ => exists_arrayBody data offsets rows
  | .nullable nested nulls, made, solid => by
    obtain ⟨bytes, loaded, decodes⟩ := Made.exists_body fits made.2.2 solid
    have flags := decodes_loadVector (σ := σ) (replicate rows (Word.ofNat 1 0)) nulls
    rw [length_replicate] at flags
    refine ⟨memory (replicate rows (Word.ofNat 1 0)) ++ bytes,
      .nullable loaded (replicate rows (Word.ofNat 1 0)), flags.bind ?_⟩
    simp only [Bool.not_true, Bool.false_eq_true, if_false]
    exact decodes.bind_pure (.pure _)
  | .tuple columns _, made, solid => by
    obtain ⟨bytes, loaded, decodes⟩ := AllMade.exists_bodies fits made solid
    exact ⟨bytes, _, decodes.bind_pure (.pure _)⟩
  | .map data, made, solid => by
    have inner : data.Made := made
    obtain ⟨bytes, loaded, decodes⟩ := Made.exists_body fits inner solid
    exact ⟨bytes, .map loaded, decodes.bind_pure (.pure _)⟩
  | .lowCardinality column, _, _ => by
    obtain ⟨bytes, loaded, decodes⟩ := column.exists_body (σ := σ) fits
    exact ⟨bytes, _, decodes.bind_pure (.pure _)⟩
  | .geo kind data, made, _ => by
    obtain ⟨bytes, loaded, decodes⟩ := Made.exists_body fits made.1 made.2
    exact ⟨bytes, .geo kind loaded, decodes.bind_pure (.pure _)⟩
  | .adaptor column, made, solid => by
    obtain ⟨bytes, loaded, decodes⟩ :=
      Adaptor.exists_body (σ := σ) made.2
        (Leaf.positive_of_sizeDefined (sizeDefined_of_solid solid)) fits
    exact ⟨bytes, _, decodes.bind_pure (.pure _)⟩

theorem Column.AllMade.exists_bodies {rows : Nat} (fits : rows < 2 ^ 64) :
    ∀ {columns : List Column}, AllMade columns → anyWrapsNothing columns = false →
    ∃ bytes loaded, Decodes (σ := σ) (loadBodies columns rows) bytes (true, loaded)
  | [], _, _ => ⟨[], [], .pure _⟩
  | column :: columns, made, solid => by
    obtain ⟨first, others⟩ := Bool.or_eq_false_iff.mp solid
    obtain ⟨bytes, loaded, first⟩ := Made.exists_body fits made.1 first
    obtain ⟨bytes', loaded', others⟩ := AllMade.exists_bodies fits made.2 others
    exact ⟨bytes ++ bytes', loaded :: loaded', first.bind (others.bind_pure (.pure _))⟩

end

theorem Adaptor.undivided_loadBody {column : Leaf} (text : column.type.IsText)
    (positive : column.type.Positive) (rows : Nat) :
    Undivided (Adaptor.loadBody column rows) := by
  have type := column.type_cloneEmpty
  have sound : Dictionary.Sound ⟨column.cloneEmpty, none⟩ :=
    ⟨by rw [type]; exact text.isDictionary, by rw [type]; exact positive,
      column.aligned_cloneEmpty, fun _ same => by cases same⟩
  obtain ⟨reserved, -, made⟩ := exists_ofColumnRef sound column.size_cloneEmpty
  have typed : ofTyped ⟨column.cloneEmpty, none⟩ = _ := made
  unfold Adaptor.loadBody
  rw [typed]
  refine Undivided.bind (.pure _) fun lowCardinality => ?_
  have caught : Undivided (lowCardinality.loadBody rows) := fun s =>
    Ensures.tryCatch ((ensures_outcome _ s).imp (fun _ _ _ => trivial)
      fun _ _ _ => ensures_pure trivial)
  refine caught.bind fun loaded => ?_
  dsimp only
  split
  · exact .pure _
  · exact (undivided_ofExcept fun e => Adaptor.appendRows_error _ (by rwa [type])).bind_pure _

mutual

theorem Column.Made.undivided_loadBody : ∀ {column : Column}, column.Made →
    column.wrapsNothing = false → ∀ rows, Undivided (column.loadBody rows)
  | .leaf column, _, _, rows => (column.undivided_loadBody rows).bind_pure _
  | .array data offsets, made, solid, rows => by
    rw [loadBody]
    split
    · exact .pure _
    · refine ((undivided_readAll _).bind_pure _).bind fun read => ?_
      dsimp only
      split
      · exact .pure _
      · split
        · exact .pure _
        · exact (Made.undivided_loadBody made.2.2 solid _).bind_pure _
  | .nullable nested nulls, made, solid, rows => by
    refine Undivided.bind ((undivided_readAll _).bind_pure _) fun read => ?_
    dsimp only
    split
    · exact .pure _
    · exact (Made.undivided_loadBody made.2.2 solid rows).bind_pure _
  | .tuple columns _, made, solid, rows =>
    (AllMade.undivided_loadBodies made solid rows).bind_pure _
  | .map data, made, solid, rows =>
    (Made.undivided_loadBody (show data.Made from made) solid rows).bind_pure _
  | .lowCardinality column, _, _, rows => by
    have caught : Undivided (column.loadBody rows) := fun s =>
      Ensures.tryCatch ((ensures_outcome _ s).imp (fun _ _ _ => trivial)
        fun _ _ _ => ensures_pure trivial)
    exact caught.bind_pure _
  | .geo _ data, made, _, rows =>
    (Made.undivided_loadBody (show data.Made from made.1) made.2 rows).bind_pure _
  | .adaptor column, made, solid, rows =>
    (Adaptor.undivided_loadBody made.2
      (Leaf.positive_of_sizeDefined (sizeDefined_of_solid solid)) rows).bind_pure _

theorem Column.AllMade.undivided_loadBodies : ∀ {columns : List Column}, AllMade columns →
    anyWrapsNothing columns = false → ∀ rows, Undivided (loadBodies columns rows)
  | [], _, _, _ => .pure _
  | column :: columns, made, solid, rows => by
    obtain ⟨first, others⟩ := Bool.or_eq_false_iff.mp solid
    refine (Made.undivided_loadBody made.1 first rows).bind fun read => ?_
    dsimp only
    split
    · exact .pure _
    · exact (AllMade.undivided_loadBodies made.2 others rows).bind_pure _

end

/-- `Size()`, `CloneEmpty()` and `Load` do not divide by zero, and a load that returns true leaves
as many rows as it was asked for. -/
structure Column.SizeLaw (column : Column) : Prop where
  size : column.sizeDefined
  cloneEmpty : column.cloneDefined
  load : ∀ rows < 2 ^ 64, ∀ input rest : ArrayInput,
    ¬ Throws (column.load rows) input .divisionByZero rest
  loadedSize : ∀ rows < 2 ^ 64, ∀ (input rest : ArrayInput) (loaded : Column),
    Runs (column.load rows) input (true, loaded) rest → loaded.size = rows

/-- `Size()` after any load that returns true. -/
theorem Column.Made.size_load {column loaded : Column} {rows : Nat} {s t : σ} (made : column.Made)
    (below : rows < 2 ^ 64) (run : Runs (column.load rows) s (true, loaded) t) :
    loaded.size = column.measure.loaded rows := by
  obtain ⟨ok, m, -, run⟩ := runs_bind_iff.mp run
  cases ok with
  | false => cases run
  | true => rw [size_loadBody made.isEmpty run, loadedSize_eq below]

theorem Column.Made.undivided_load {column : Column} (made : column.Made)
    (solid : column.wrapsNothing = false) (rows : Nat) : Undivided (column.load rows) := by
  refine (undivided_loadPrefix rows column solid).bind fun ok => ?_
  split
  · exact made.undivided_loadBody solid rows
  · exact .pure _

/-- The law holds exactly for the columns whose measure is exact and whose wrappers, if there are
any, have rows. -/
theorem Column.Made.sizeLaw_iff {column : Column} (made : column.Made) :
    column.SizeLaw ↔ column.measure.isExact ∧ column.wrapsNothing = false := by
  constructor
  · intro law
    have solid : column.wrapsNothing = false := by
      rw [Bool.eq_false_iff]
      intro wraps
      obtain ⟨input, rest, divides⟩ := exists_divides column wraps
      exact law.load 1 (by decide) input rest (divides.bind _)
    refine ⟨Measure.isExact_iff.mpr fun rows below => ?_, solid⟩
    obtain ⟨head, loadsHead⟩ := exists_prefix (σ := ArrayInput) rows column solid
    obtain ⟨bytes, loaded, loads⟩ := made.exists_body (σ := ArrayInput) below solid
    have run : Runs (column.load rows) (⟨head ++ bytes ++ []⟩ : ArrayInput) (true, loaded) ⟨[]⟩ :=
      ArrayInput.runs_of_decodes (loadsHead.bind loads) []
    exact (made.size_load below run).symm.trans (law.loadedSize rows below _ _ loaded run)
  · rintro ⟨exact', solid⟩
    constructor
    · rw [sizeDefined_eq]
      exact Measure.isDefined_of_isExact exact'
    · exact made.cloneDefined
    · intro rows _ input rest divides
      exact (made.undivided_load solid rows input).of_throws divides rfl
    · intro rows below input rest loaded run
      exact (made.size_load below run).trans (Measure.isExact_iff.mp exact' rows below)

end Bodies

end ClickHouse
