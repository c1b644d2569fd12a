import ClickHouse.BufferedInput
import ClickHouse.Columns.Replacement
import ClickHouse.Kit.Truncation

/-!
# Truncated columns

A column is loaded from the first part of the bytes a server sends for it.  Most
readers return false as soon as a byte is missing, and that is handed on.  Two
results are dropped: that of reading the index of a LowCardinality column, and
that of skipping the rows of `Nothing`.  Both may be the last thing that is read,
and then `Load` returns true although bytes are missing.
-/

namespace ClickHouse

open Kit List Column ArrayInput Leaf LowCardinality

/-! ## Readers -/

variable {part : Bytes} {slack : Nat} {α : Type}

namespace ArrayInput

variable {len : Nat}

/-- All there is, if that is not enough. -/
theorem runs_readAll_short (short : part.length ≤ len) :
    Runs (readAll len) (⟨part⟩ : ArrayInput) part ⟨[]⟩ := by
  obtain ⟨⟨rest⟩, run, after⟩ := runs_readAll len (⟨part⟩ : ArrayInput)
  obtain rfl : rest = [] := after.trans (drop_of_length_le short)
  have all : (ExactSource.left (⟨part⟩ : ArrayInput)).take len = part := take_of_length_le short
  rwa [all] at run

theorem runs_skip_short (short : part.length ≤ len) :
    ∃ ok, Runs (skip len) (⟨part⟩ : ArrayInput) ok ⟨[]⟩ := by
  obtain ⟨⟨rest⟩, run, after⟩ := runs_skip len (⟨part⟩ : ArrayInput)
  obtain rfl : rest = [] := after.trans (drop_of_length_le short)
  exact ⟨_, run⟩

end ArrayInput

theorem tolerates_readAll (bytes : Bytes) :
    Tolerates mk (· = bytes) (·.length ≠ bytes.length) (readAll bytes.length) bytes 0 := by
  refine .of_strict (runs_of_decodes (decodes_readAll bytes)) ?_
  intro part missing split more found t run
  have length := congrArg length split
  rw [length_append] at length
  have some := length_pos_iff.mpr more
  obtain ⟨rfl, -⟩ := run.unique (runs_readAll_short (by omega : part.length ≤ bytes.length))
  omega

theorem tolerates_readFixed {bytes : Bytes} {width : Nat} (length : bytes.length = width) :
    Tolerates mk (· = some bytes) (· = none) (readFixed width) bytes 0 := by
  subst length
  refine (tolerates_readAll bytes).bind_pure ?_ ?_
  · intro found same
    exact ⟨some bytes, rfl, by rw [same, if_pos rfl]⟩
  · intro found short
    exact ⟨none, rfl, by rw [if_neg short]⟩

theorem tolerates_readFixedUInt {width value : Nat} (fits : value < 256 ^ width) :
    Tolerates mk (· = some value) (· = none) (readFixedUInt width)
      (writeFixedUInt width value) 0 := by
  refine (tolerates_readFixed (length_encodeLE width value)).bind_pure ?_ ?_
  · intro found same
    exact ⟨some value, rfl, by rw [same, Option.map_some, decodeLE_encodeLE fits]⟩
  · intro found missing
    exact ⟨none, rfl, by rw [missing, Option.map_none]⟩

theorem tolerates_readUInt64 {value : Nat} (fits : value < 2 ^ 64) :
    Tolerates mk (· = some value) (· = none) readUInt64 (writeUInt64 value) 0 := by
  refine .of_strict (runs_of_decodes (decodes_readUInt64 fits)) ?_
  intro part missing split more found t run
  exact (run.unique (runs_readVarintLoop_short split more)).1

theorem tolerates_loadVector {w : Nat} (data old : ColumnVector w) :
    Tolerates mk (· = (true, data)) (·.1 = false) (old.loadBody data.length)
      (memory data) 0 := by
  refine .of_strict (runs_of_decodes (decodes_loadVector data old)) ?_
  intro part missing split more result t run
  have length := congrArg length split
  rw [length_memory, length_append] at length
  have some := length_pos_iff.mpr more
  obtain ⟨found, read, rfl⟩ := runs_bind_pure_iff.mp run
  obtain ⟨rfl, -⟩ :=
    read.unique (runs_readAll_short (by omega : part.length ≤ data.length * w))
  exact beq_eq_false_iff_ne.mpr (by omega)

theorem tolerates_loadStrings {items : List Bytes} (fits : ∀ item ∈ items, item.length < 2 ^ 64) :
    Tolerates mk (· = some items) (· = none) (loadStrings items.length)
      (items.flatMap writeString).flatten 0 := by
  induction items with
  | nil => exact .pure rfl
  | cons item items ih =>
    have first : item.length < 2 ^ 64 := fits item (mem_cons_self ..)
    have others := ih fun other mem => fits other (mem_cons_of_mem _ mem)
    rw [flatMap_cons, flatten_append, flatten_writeString, append_assoc]
    refine (tolerates_readUInt64 first).bind_exact (fun run => by cases run; rfl) ?_
    refine (tolerates_readFixed rfl).bind_exact (fun run => by cases run; rfl) ?_
    refine others.bind_pure ?_ ?_
    · intro loaded same
      exact ⟨some (item :: items), rfl, by rw [same, Option.map_some]⟩
    · intro loaded missing
      exact ⟨none, rfl, by rw [missing, Option.map_none]⟩

/-- `ColumnString` hands on what its loop returns. -/
theorem tolerates_loadStringBody {items : List Bytes} (old : List Bytes)
    (fits : ∀ item ∈ items, item.length < 2 ^ 64) :
    Tolerates mk (· = (true, items)) (·.1 = false)
      (ColumnString.loadBody old items.length) (items.flatMap writeString).flatten 0 := by
  refine (tolerates_loadStrings fits).bind_pure ?_ ?_
  · intro loaded same
    exact ⟨(true, items), rfl, by rw [same]⟩
  · intro loaded missing
    exact ⟨(false, old), rfl, by rw [missing]⟩

/-! ## Leaves -/

/-- A loader that returns true with up to `slack` bytes missing, and with no more. -/
abbrev Loads {α : Type} (p : EStateM Error ArrayInput (Bool × α)) (bytes : Bytes) (slack : Nat) : Prop :=
  Tolerates mk (·.1 = true) (·.1 = false) p bytes slack

/-- A loader whose result is only put into another form. -/
theorem tolerates_make {β : Type} {p : EStateM Error ArrayInput (Bool × α)}
    {f : Bool × α → EStateM Error ArrayInput (Bool × β)} {good : Bool × α → Prop}
    {good' : Bool × β → Prop} {bytes : Bytes} (make : α → β)
    (makes : ∀ r, f r = pure (r.1, make r.2)) (keeps : ∀ {r}, good r → good' (r.1, make r.2))
    (loads : Tolerates mk good (·.1 = false) p bytes slack) :
    Tolerates mk good' (·.1 = false) (p >>= f) bytes slack :=
  loads.bind_pure (fun accepted => ⟨_, keeps accepted, makes _⟩) fun refused => ⟨_, refused, makes _⟩

theorem loads_make {β : Type} {p : EStateM Error ArrayInput (Bool × α)}
    {f : Bool × α → EStateM Error ArrayInput (Bool × β)} {bytes : Bytes} (make : α → β)
    (makes : ∀ r, f r = pure (r.1, make r.2)) (loads : Loads p bytes slack) :
    Loads (p >>= f) bytes slack :=
  tolerates_make make makes id loads

/-- A loader that goes on if its first part, a vector, was there in full. -/
theorem loads_vector_bind {w : Nat} {data old : ColumnVector w}
    {f : Bool × ColumnVector w → EStateM Error ArrayInput (Bool × α)} {bytes : Bytes}
    (failed : ColumnVector w → α) (stops : ∀ read, f (false, read) = pure (false, failed read))
    (next : Loads (f (true, data)) bytes slack) :
    Loads (old.loadBody data.length >>= f) (memory data ++ bytes) slack := by
  refine (tolerates_loadVector data old).bind_strict ?_ ?_
  · intro r s result t refused run
    obtain ⟨ok, read⟩ := r
    cases refused
    rw [stops] at run
    cases run
    rfl
  · intro r same
    rw [same]
    exact next

/-- A leaf that can be saved is read in full or not at all. -/
theorem Leaf.tolerates_loadBody {column old : Leaf} {bytes : Bytes} (savable : column.Savable)
    (same : column.type = old.type) (emits : Emits column.saveBody bytes) :
    Tolerates mk (· = (true, column)) (·.1 = false) (old.loadBody column.size) bytes 0 := by
  obtain ⟨-, rfl⟩ := emits
  cases column with
  | fixed type data =>
    cases old <;> simp only [Leaf.type, reduceCtorEq, LeafType.fixed.injEq] at same
    subst same
    unfold Leaf.loadBody Leaf.size
    dsimp only
    rw [FixedType.loadedRows_eq savable, Leaf.saveBody, (emits_write _).2]
    refine tolerates_make (Leaf.fixed type) (fun _ => rfl) ?_ (tolerates_loadVector data _)
    intro r same
    rw [same]
  | fixedString column =>
    cases old <;> simp only [Leaf.type, reduceCtorEq, LeafType.fixedString.injEq] at same
    rename_i old
    obtain ⟨-, aligned, fits⟩ := savable
    have size : old.loadSize (column.data.length / column.stringSize) = column.data.length := by
      rw [FixedStrings.loadSize, ← same, Nat.mul_div_cancel' aligned, Nat.mod_eq_of_lt fits]
    unfold Leaf.loadBody Leaf.size
    dsimp only
    rw [size, Leaf.saveBody, (emits_write _).2]
    refine (tolerates_readAll column.data).bind_pure ?_ ?_
    · intro found accepted
      refine ⟨_, rfl, ?_⟩
      rw [accepted, FixedStrings.resized_eq same.symm, beq_self_eq_true]
    · intro found short
      exact ⟨_, beq_eq_false_iff_ne.mpr short, rfl⟩
  | string items =>
    cases old <;> simp only [Leaf.type, reduceCtorEq] at same
    refine tolerates_make Leaf.string (fun _ => rfl) ?_ (tolerates_loadStringBody _ savable)
    intro r same
    rw [same]
  | json items =>
    cases old <;> simp only [Leaf.type, reduceCtorEq] at same
    refine tolerates_make Leaf.json (fun _ => rfl) ?_ (tolerates_loadStringBody _ savable)
    intro r same
    rw [same]
  | nothing size => exact absurd savable id

theorem Leaf.sent_nonempty {column : Leaf} {bytes : Bytes} (savable : column.Savable)
    (positive : 0 < column.size) (emits : Emits column.saveBody bytes) : 0 < bytes.length := by
  obtain ⟨-, rfl⟩ := emits
  have strings {items : List Bytes} (some : 0 < items.length) :
      0 < (items.flatMap writeString).flatten.length := by
    cases items with
    | nil => exact absurd some (Nat.lt_irrefl 0)
    | cons item items =>
      rw [flatMap_cons, flatten_append, flatten_writeString, writeVarint64]
      exact Nat.succ_pos _
  cases column with
  | fixed type data =>
    rw [saveBody, (emits_write _).2, length_memory]
    refine Nat.mul_pos positive ?_
    cases type <;> simp only [FixedType.width] <;> (try split) <;> (try split) <;> decide
  | fixedString column =>
    rw [saveBody, (emits_write _).2]
    exact Nat.pos_of_ne_zero fun none => by simp [size, none] at positive
  | string items => exact strings positive
  | json items => exact strings positive
  | nothing size => exact absurd savable id

/-- Rows of `Nothing` are passed over as far as they are there. -/
theorem loads_nothing {bytes : Bytes} (size : Nat) :
    Loads ((nothing size).loadBody bytes.length) bytes bytes.length := by
  refine .of_lenient ?_ ?_
  · intro rest
    have skips := runs_of_decodes (decodes_skip bytes) rest
    exact ⟨_, rfl, skips.bind (runs_pure _ _)⟩
  · intro part missing split
    have short : part.length ≤ bytes.length := by
      rw [split, length_append]
      exact Nat.le_add_right ..
    obtain ⟨ok, skips⟩ := runs_skip_short short
    exact ⟨_, rfl, skips.bind (runs_pure _ _)⟩

/-! ## LowCardinality -/

section LowCardinality

variable {column : LowCardinality}

/-- What is sent before the index, with `keys` for the values of the dictionary. -/
def LowCardinality.keysBytes (column : LowCardinality) (keys : Bytes) : Bytes :=
  writeFixedUInt 8 (column.index.type.toNat ||| hasAdditionalKeysBit) ++
    (writeFixedUInt 8 column.dictionary.size ++
      (keys ++ writeFixedUInt 8 column.index.column.length))

variable {keys : Bytes}

theorem LowCardinality.emits_saveBody (saved : Emits column.dictionary.data.saveBody keys) :
    Emits column.saveBody (column.keysBytes keys ++ memory column.index.column) := by
  unfold keysBytes
  simp only [append_assoc]
  exact (emits_write _).andThen ((emits_write _).andThen (saved.andThen
    ((emits_write _).andThen (emits_write _))))

/-- Up to the index, every missing byte is an exception. -/
theorem LowCardinality.tolerates_loadKeys {old : Dictionary} (savable : column.Savable)
    (sizes : column.dictionary.size = column.dictionary.data.size)
    (same : column.dictionary.type = old.type)
    (saved : Emits column.dictionary.data.saveBody keys) :
    Tolerates ArrayInput.mk (· = ⟨column.index.type, column.dictionary.reloaded⟩) (fun _ => False)
      (loadKeys old column.index.column.length) (column.keysBytes keys) 0 := by
  obtain ⟨leaf, count, rows⟩ := savable
  obtain ⟨dataType, nullable⟩ := Dictionary.type_eq same
  obtain ⟨small, indexType, noGlobal, additional⟩ := indexSerializationType column.index.type
  refine (tolerates_readFixedUInt small).bind_exact (fun run => by cases run) ?_
  simp only [orThrow, pure_bind, indexType, noGlobal, additional, ne_eq, not_true_eq_false, if_false]
  refine (tolerates_readFixedUInt count).bind_exact (fun run => by cases run) ?_
  simp only [pure_bind, sizes]
  have loads := tolerates_loadBody leaf (dataType.trans old.data.type_cloneEmpty.symm) saved
  refine loads.bind_strict ?_ ?_
  · intro r s result t refused run
    obtain ⟨ok, data⟩ := r
    cases refused
    cases run
  · intro r accepted
    rw [accepted]
    simp only [Bool.not_true, Bool.false_eq_true, if_false]
    rw [← append_nil (writeFixedUInt 8 column.index.column.length)]
    refine (tolerates_readFixedUInt rows).bind_exact (fun run => by cases run) ?_
    simp only [pure_bind, not_true_eq_false, if_false]
    refine .pure ?_
    rw [map_const_of_isSome_eq nullable.symm]
    rfl

/-- Of the index any part will do. -/
theorem LowCardinality.tolerates_loadIndex [Hashing] (keys : LoadedKeys)
    (index : ColumnVector keys.indexType.width) :
    Tolerates ArrayInput.mk (fun _ => True) (fun _ => False) (loadIndex index.length keys)
      (memory index) (memory index).length := by
  refine .of_lenient ?_ ?_
  · intro rest
    have reads := runs_of_decodes (decodes_readAll (memory index)) rest
    rw [length_memory] at reads
    exact ⟨_, trivial, runs_loadIndex_iff.mpr ⟨_, reads, rfl⟩⟩
  · intro part missing split
    have short : part.length ≤ index.length * keys.indexType.width := by
      rw [← length_memory, split, length_append]
      exact Nat.le_add_right ..
    exact ⟨_, trivial, runs_loadIndex_iff.mpr ⟨_, runs_readAll_short short, rfl⟩⟩

theorem LowCardinality.loads_loadBody [Hashing] {old : LowCardinality} (savable : column.Savable)
    (sizes : column.dictionary.size = column.dictionary.data.size)
    (same : column.dictionary.type = old.dictionary.type)
    (saved : Emits column.dictionary.data.saveBody keys) :
    Loads (old.loadBody column.index.column.length)
      (column.keysBytes keys ++ memory column.index.column) (memory column.index.column).length := by
  have loads : Tolerates ArrayInput.mk (fun _ => True) (fun _ => False)
      (load old.dictionary column.index.column.length)
      (column.keysBytes keys ++ memory column.index.column) (memory column.index.column).length := by
    unfold load
    refine (tolerates_loadKeys savable sizes same saved).bind_strict False.elim ?_
    intro keys accepted
    rw [accepted]
    exact tolerates_loadIndex ⟨column.index.type, column.dictionary.reloaded⟩ column.index.column
  refine Tolerates.tryCatch ?_ ?_
  · exact loads.bind_pure (fun _ => ⟨_, rfl, rfl⟩) False.elim
  · intro e s r t run
    cases run
    rfl

end LowCardinality

/-! ## What a server sends -/

/-- The bytes sent for a leaf: what `SaveBody` writes, or a byte for each row of `Nothing`. -/
def Leaf.Sends : Leaf → Bytes → Prop
  | .nothing size, bytes => bytes.length = size
  | column, bytes => column.Savable ∧ Emits column.saveBody bytes

mutual

/-- The bytes sent for the body of a column. -/
def Column.SendsBody : Column → Bytes → Prop
  | .leaf column, bytes => column.Sends bytes
  | .array data offsets, bytes => ∃ rest, bytes = memory offsets ++ rest ∧
    if data.size > 0 then data.SendsBody rest else rest = []
  | .nullable nested nulls, bytes => ∃ rest, bytes = memory nulls ++ rest ∧ nested.SendsBody rest
  | .tuple columns _, bytes => SendBodies columns bytes
  | .map data, bytes => data.SendsBody bytes
  | .lowCardinality column, bytes => column.Savable ∧ Emits column.saveBody bytes
  | .geo _ data, bytes => data.SendsBody bytes
  | .adaptor _, _ => False

def Column.SendBodies : List Column → Bytes → Prop
  | [], bytes => bytes = []
  | column :: columns, bytes => ∃ first rest, bytes = first ++ rest ∧ column.SendsBody first ∧
    SendBodies columns rest

end

/-- The bytes sent for a column. -/
def Column.Sends (column : Column) (bytes : Bytes) : Prop :=
  ∃ head body, bytes = head ++ body ∧ Emits column.savePrefix head ∧ column.SendsBody body

section Saving

theorem Leaf.Savable.sends {column : Leaf} {bytes : Bytes} (savable : column.Savable)
    (emits : Emits column.saveBody bytes) : column.Sends bytes := by
  cases column with
  | nothing size => exact absurd savable id
  | _ => exact ⟨savable, emits⟩

variable [Hashing]

mutual

theorem Column.Savable.sendsBody : ∀ {column : Column} {bytes : Bytes}, column.WellTyped →
    column.Savable → Emits column.saveBody bytes → column.SendsBody bytes
  | .leaf _, _, _, savable, emits => Savable.sends savable emits
  | .array data offsets, _, typed, savable, emits => by
    obtain ⟨first, rest, emitsOffsets, emitsData, rfl⟩ := emits.of_andThen
    obtain rfl := emitsOffsets.unique (emits_write _)
    refine ⟨rest, rfl, ?_⟩
    split at emitsData
    · rename_i some
      rw [if_pos some]
      exact Savable.sendsBody typed savable emitsData
    · rename_i none
      rw [if_neg none]
      exact emitsData.unique emits_nothing
  | .nullable nested nulls, _, typed, savable, emits => by
    obtain ⟨first, rest, emitsNulls, emitsNested, rfl⟩ := emits.of_andThen
    obtain rfl := emitsNulls.unique (emits_write _)
    exact ⟨rest, rfl, Savable.sendsBody typed savable emitsNested⟩
  | .tuple columns _, _, typed, savable, emits => by
    have sends := sendBodies_of_allSavable typed savable.2 emits
    exact sends
  | .map data, _, typed, savable, emits => by
    have sends : data.SendsBody _ := Savable.sendsBody typed.1 savable emits
    exact sends
  | .lowCardinality _, _, _, savable, emits => ⟨savable, emits⟩
  | .geo _ data, _, typed, savable, emits => by
    have sends : data.SendsBody _ := Savable.sendsBody typed.1 savable emits
    exact sends
  | .adaptor _, _, typed, _, _ => absurd typed id

theorem Column.sendBodies_of_allSavable : ∀ {columns : List Column} {bytes : Bytes},
    AllWellTyped columns → AllSavable columns →
    Emits (saveBodies columns) bytes → SendBodies columns bytes
  | [], _, _, _, emits => emits.unique emits_nothing
  | _ :: _, _, typed, savable, emits => by
    obtain ⟨first, rest, emitsFirst, emitsRest, rfl⟩ := emits.of_andThen
    exact ⟨first, rest, rfl, Savable.sendsBody typed.1 savable.1 emitsFirst,
      sendBodies_of_allSavable typed.2 savable.2 emitsRest⟩

end

/-- What a column without `Nothing` saves is what is sent for it. -/
theorem Column.Savable.sends {column : Column} {bytes : Bytes} (typed : column.WellTyped)
    (savable : column.Savable) (emits : Emits column.save bytes) : column.Sends bytes := by
  obtain ⟨head, body, emitsPrefix, emitsBody, rfl⟩ := emits.of_andThen
  exact ⟨head, body, rfl, emitsPrefix, savable.sendsBody typed emitsBody⟩

end Saving

/-! ## What is not checked -/

def Leaf.isNothing : Leaf → Bool
  | .nothing _ => true
  | _ => false

mutual

/-- The body has no bytes but those of `Nothing`. -/
def Column.onlyNothing : Column → Bool
  | .leaf column => column.isNothing
  | .array _ _ => false
  | .nullable _ _ => false
  | .tuple columns _ => allNothing columns
  | .map data => data.onlyNothing
  | .lowCardinality _ => false
  | .geo _ data => data.onlyNothing
  | .adaptor _ => false

def Column.allNothing : List Column → Bool
  | [] => true
  | column :: columns => column.onlyNothing && allNothing columns

end

mutual

/-- The number of bytes at the end of the body that may be missing: the index of a LowCardinality
column or the rows of `Nothing`, where they come last. -/
def Column.unchecked : Column → Nat
  | .leaf column => if column.isNothing then column.size else 0
  | .array data _ => if 0 < data.size then data.unchecked else 0
  | .nullable nested _ => nested.unchecked
  | .tuple columns _ => uncheckedOf columns
  | .map data => data.unchecked
  | .lowCardinality column => (memory column.index.column).length
  | .geo _ data => data.unchecked
  | .adaptor _ => 0

def Column.uncheckedOf : List Column → Nat
  | [] => 0
  | column :: columns =>
    if allNothing columns then column.unchecked + uncheckedOf columns
    else uncheckedOf columns

end

/-! ## Prefixes -/

/-- The prefix pass notices every missing byte. -/
def PrefixStrict (head : Bytes) (loadPrefix : EStateM Error ArrayInput Bool) : Prop :=
  Tolerates mk (· = true) (· = false) loadPrefix head 0

theorem Leaf.prefixStrict {column fresh : Leaf} {head : Bytes} (same : column.type = fresh.type)
    (emits : Emits column.savePrefix head) : PrefixStrict head fresh.loadPrefix := by
  obtain ⟨-, rfl⟩ := emits
  cases column <;> cases fresh <;> simp only [type, reduceCtorEq] at same
  case json.json =>
    have version : jsonSerializationVersion < 256 ^ 8 := by decide
    refine (tolerates_readFixedUInt version).bind_exact (fun run => by cases run; rfl) ?_
    exact .pure rfl
  all_goals exact .pure rfl

theorem LowCardinality.prefixStrict :
    PrefixStrict (writeFixedUInt 8 keySerializationVersion) loadPrefix := by
  have version : keySerializationVersion < 256 ^ 8 := by decide
  unfold PrefixStrict
  rw [← append_nil (writeFixedUInt 8 keySerializationVersion)]
  exact (tolerates_readFixedUInt version).bind_exact (fun run => by cases run) (.pure rfl)

mutual

theorem Column.Alike.prefixStrict {rows : Nat} (positive : 0 < rows) : ∀ {column fresh : Column}
    {head : Bytes}, column.Alike fresh → column.WellTyped → Emits column.savePrefix head →
    PrefixStrict head (fresh.loadPrefix rows)
  | _, _, _, .leaf same, _, emits => prefixStrict same emits
  | _, _, _, .array alike, typed, emits => by
    rw [loadPrefix, if_neg (Nat.ne_of_gt positive)]
    exact Alike.prefixStrict positive alike typed emits
  | _, _, _, .nullable alike, typed, emits => by
    rw [loadPrefix]
    exact Alike.prefixStrict positive alike typed emits
  | _, _, _, .tuple alike, typed, emits => by
    rw [loadPrefix]
    exact AllAlike.prefixesStrict positive alike typed emits
  | _, _, _, .map alike, typed, emits => by
    rw [loadPrefix]
    exact Alike.prefixStrict positive alike typed.1 emits
  | _, _, _, .lowCardinality _, _, emits => by
    rw [emits.unique (emits_write _)]
    exact prefixStrict
  | _, _, _, .geo _, _, emits => by
    rw [emits.unique emits_nothing]
    exact .pure rfl
  | _, _, _, .adaptor _, typed, _ => absurd typed id

theorem Column.AllAlike.prefixesStrict {rows : Nat} (positive : 0 < rows) :
    ∀ {columns fresh : List Column} {head : Bytes}, AllAlike columns fresh →
    AllWellTyped columns → Emits (savePrefixes columns) head →
    PrefixStrict head (loadPrefixes fresh rows)
  | _, _, _, .nil, _, emits => by
    rw [emits.unique emits_nothing]
    exact .pure rfl
  | _, _, _, .cons first rest, typed, emits => by
    obtain ⟨xs, ys, emitsFirst, emitsRest, rfl⟩ := emits.of_andThen
    have strict := Alike.prefixStrict positive first typed.1 emitsFirst
    have strictRest := AllAlike.prefixesStrict positive rest typed.2 emitsRest
    rw [loadPrefixes]
    exact strict.bind_exact (fun run => by cases run; rfl) strictRest

end

/-! ## Bodies -/

section Bodies

variable [Hashing]

/-- The body of `column`, loaded into `fresh`, may lack the bytes that are not checked and no
others.  Those are all of them only if there is nothing but `Nothing`. -/
structure LoadsPart (column fresh : Column) (bytes : Bytes) : Prop where
  loads : Loads (fresh.loadBody column.size) bytes column.unchecked
  all : column.unchecked = bytes.length ↔ column.onlyNothing = true

theorem Leaf.loadsPart {column fresh : Leaf} {bytes : Bytes} (same : column.type = fresh.type)
    (positive : 0 < column.size) (sends : column.Sends bytes) :
    LoadsPart (.leaf column) (.leaf fresh) bytes := by
  have checked (savable : column.Savable) (emits : Emits column.saveBody bytes)
      (other : column.isNothing = false) : LoadsPart (.leaf column) (.leaf fresh) bytes := by
    have some := sent_nonempty savable positive emits
    have loads := tolerates_loadBody savable same emits
    have none : (leaf column).unchecked = 0 := by
      rw [unchecked, other]
      rfl
    refine ⟨?_, ?_⟩
    · rw [none]
      refine tolerates_make leaf (fun _ => rfl) ?_ loads
      intro r same
      rw [same]
    · rw [none, onlyNothing, other]
      simp only [Bool.false_eq_true, iff_false]
      omega
  cases column with
  | nothing size =>
    cases fresh <;> simp only [type, reduceCtorEq] at same
    obtain rfl : bytes.length = size := sends
    exact ⟨loads_make leaf (fun _ => rfl) (loads_nothing _), iff_of_true rfl rfl⟩
  | _ => exact checked sends.1 sends.2 rfl

theorem LowCardinality.loadsPart {column fresh : LowCardinality} {bytes : Bytes}
    (same : column.dictionary.type = fresh.dictionary.type) (consistent : column.Consistent)
    (savable : column.Savable) (emits : Emits column.saveBody bytes) :
    LoadsPart (.lowCardinality column) (.lowCardinality fresh) bytes := by
  have sizes := Dictionary.size_eq_of_consistent consistent
  obtain ⟨keys, saved, -⟩ := Leaf.decodes_loadBody (σ := ArrayInput) savable.1 rfl
  obtain rfl := emits.unique (emits_saveBody saved)
  refine ⟨loads_make lowCardinality (fun _ => rfl) (loads_loadBody savable sizes same saved), ?_⟩
  have header : 0 < (column.keysBytes keys).length := by
    rw [keysBytes, length_append, writeFixedUInt, length_encodeLE]
    omega
  rw [unchecked, onlyNothing, length_append]
  simp only [Bool.false_eq_true, iff_false]
  omega

variable {fresh : Column}

theorem LoadsPart.array {data : Column} {offsets offsets' : ColumnVector 8} {rest : Bytes}
    (consistent : ConsistentOffsets offsets data.size) (positive : 0 < offsets.length)
    (sends : data.size = 0 → rest = []) (inner : 0 < data.size → LoadsPart data fresh rest) :
    LoadsPart (.array data offsets) (.array fresh offsets') (memory offsets ++ rest) := by
  have last : getOffset offsets offsets.length = data.size := consistent.2
  have shorter : (Column.array data offsets).unchecked ≤ rest.length := by
    rw [Column.unchecked]
    split
    · rename_i some
      exact (inner some).loads.within
    · exact Nat.zero_le _
  refine ⟨?_, ?_⟩
  · rw [Column.loadBody, Column.size, if_neg (Nat.ne_of_gt positive)]
    refine loads_vector_bind (Column.array fresh ·) (fun _ => rfl) ?_
    simp only [Bool.not_true, Bool.false_eq_true, if_false, last]
    rw [Column.unchecked]
    rcases Nat.eq_zero_or_pos data.size with none | some
    · rw [if_pos none, if_neg (Nat.not_lt.mpr (Nat.le_of_eq none)), sends none]
      exact .pure rfl
    · rw [if_neg (Nat.ne_of_gt some), if_pos some]
      exact loads_make (Column.array · offsets) (fun _ => rfl) (inner some).loads
  · rw [Column.onlyNothing, length_append, length_memory]
    simp only [Bool.false_eq_true, iff_false]
    omega

theorem LoadsPart.nullable {nested : Column} {nulls nulls' : ColumnVector 1} {rest : Bytes}
    (sizes : nested.size = nulls.length) (positive : 0 < nulls.length)
    (inner : LoadsPart nested fresh rest) :
    LoadsPart (.nullable nested nulls) (.nullable fresh nulls') (memory nulls ++ rest) := by
  refine ⟨?_, ?_⟩
  · rw [Column.loadBody, Column.size, Column.unchecked]
    refine loads_vector_bind (Column.nullable fresh ·) (fun _ => rfl) ?_
    simp only [Bool.not_true, Bool.false_eq_true, if_false]
    rw [← sizes]
    exact loads_make (Column.nullable · nulls) (fun _ => rfl) inner.loads
  · have within := inner.loads.within
    rw [Column.unchecked, Column.onlyNothing, length_append, length_memory]
    simp only [Bool.false_eq_true, iff_false]
    omega

/-- The columns of a tuple, as `LoadsPart` for one column. -/
structure LoadPart (columns fresh : List Column) (rows : Nat) (bytes : Bytes) : Prop where
  loads : Loads (loadBodies fresh rows) bytes (uncheckedOf columns)
  all : uncheckedOf columns = bytes.length ↔ allNothing columns = true

theorem LoadPart.cons {column : Column} {columns others : List Column} {rows : Nat}
    {xs ys : Bytes} (size : column.size = rows) (first : LoadsPart column fresh xs)
    (rest : LoadPart columns others rows ys) :
    LoadPart (column :: columns) (fresh :: others) rows (xs ++ ys) := by
  have loads := first.loads
  have within := loads.within
  have withinRest := rest.loads.within
  rw [size] at loads
  refine ⟨?_, ?_⟩
  · rw [loadBodies, uncheckedOf]
    simp only [← rest.all]
    refine loads.bind ?_ ?_
    · intro r s result t refused run
      obtain ⟨ok, column'⟩ := r
      cases refused
      cases run
      rfl
    · intro r accepted
      obtain ⟨ok, column'⟩ := r
      cases accepted
      exact loads_make (column' :: ·) (fun _ => rfl) rest.loads
  · rw [uncheckedOf, allNothing, Bool.and_eq_true, ← first.all, length_append]
    simp only [← rest.all]
    split <;> omega

mutual

theorem Column.Alike.loadsPart : ∀ {column fresh : Column} {bytes : Bytes}, column.Alike fresh →
    column.Consistent → 0 < column.size → column.SendsBody bytes → LoadsPart column fresh bytes
  | _, _, _, .leaf same, _, positive, sends => loadsPart same positive sends
  | .array data _, _, _, .array alike, consistent, positive, sends => by
    obtain ⟨rest, rfl, sends⟩ := sends
    refine LoadsPart.array consistent.1 positive ?_ ?_
    · intro none
      rwa [if_neg (Nat.not_lt.mpr (Nat.le_of_eq none))] at sends
    · intro some
      rw [if_pos some] at sends
      exact Alike.loadsPart alike consistent.2 some sends
  | .nullable nested _, _, _, .nullable alike, consistent, positive, sends => by
    obtain ⟨rest, rfl, sends⟩ := sends
    have some : 0 < nested.size := by
      rw [consistent.1]
      exact positive
    exact LoadsPart.nullable consistent.1 positive
      (Alike.loadsPart alike consistent.2 some sends)
  | .tuple _ names, _, _, .tuple alike, consistent, positive, sends => by
    have part := AllAlike.loadPart alike consistent positive sends
    exact ⟨loads_make (tuple · names) (fun _ => rfl) part.loads, part.all⟩
  | .map _, _, _, .map alike, consistent, positive, sends => by
    have inner := Alike.loadsPart alike consistent positive sends
    exact ⟨loads_make map (fun _ => rfl) inner.loads, inner.all⟩
  | _, _, _, .lowCardinality same, consistent, _, sends =>
    loadsPart same consistent sends.1 sends.2
  | .geo kind _, _, _, .geo alike, consistent, positive, sends => by
    have inner := Alike.loadsPart alike consistent positive sends
    exact ⟨loads_make (geo kind) (fun _ => rfl) inner.loads, inner.all⟩
  | _, _, _, .adaptor _, _, _, sends => absurd sends id

theorem Column.AllAlike.loadPart {rows : Nat} : ∀ {columns fresh : List Column} {bytes : Bytes},
    AllAlike columns fresh → AllConsistent columns rows → 0 < rows →
    SendBodies columns bytes → LoadPart columns fresh rows bytes
  | _, _, _, .nil, _, _, sends => by
    cases sends
    exact ⟨.pure rfl, iff_of_true rfl rfl⟩
  | _, _, _, .cons first rest, consistent, positive, sends => by
    obtain ⟨size, consistent, restConsistent⟩ := consistent
    obtain ⟨xs, ys, rfl, sends, restSends⟩ := sends
    refine LoadPart.cons size ?_ ?_
    · exact Alike.loadsPart first consistent (size.symm ▸ positive) sends
    · exact AllAlike.loadPart rest restConsistent positive restSends

end

/-- Given only the first part of the bytes sent for a column, `Load` does not return true exactly if
more is missing than the end of the body that is not checked. -/
theorem load_truncated_iff {column fresh : Column} {bytes part missing : Bytes}
    (alike : column.Alike fresh) (typed : column.WellTyped) (consistent : column.Consistent)
    (positive : 0 < column.size) (sends : column.Sends bytes) (cut : bytes = part ++ missing) :
    (∀ loaded t, ¬ Runs (fresh.load column.size) (⟨part⟩ : ArrayInput) (true, loaded) t) ↔
      column.unchecked < missing.length := by
  obtain ⟨head, body, rfl, emits, sends⟩ := sends
  have strict := alike.prefixStrict positive typed emits
  have loads : Loads (fresh.load column.size) (head ++ body) column.unchecked :=
    strict.bind_exact (fun run => by cases run; rfl)
      (alike.loadsPart consistent positive sends).loads
  constructor
  · intro never
    by_contra few
    obtain ⟨⟨ok, loaded⟩, accepted, run⟩ := loads.accepts cut (Nat.not_lt.mp few)
    cases accepted
    exact never loaded _ run
  · intro many loaded t run
    cases loads.refuses cut many run

end Bodies

/-- `LowCardinality(String)` with the rows `''` and `'a'`. -/
def sentStrings [Hashing] : Column := .lowCardinality (loadedStrings [0, 1])

theorem sentStrings_savable [Hashing] : sentStrings.Savable := by
  have items : ∀ item ∈ [[], ascii "a"], item.length < 2 ^ 64 := by decide
  have keys : 2 < 2 ^ 64 := by decide
  exact ⟨items, keys, keys⟩

/-- What is sent for them up to the number of rows. -/
def sentKeys : Bytes :=
  writeFixedUInt 8 1 ++ (writeFixedUInt 8 hasAdditionalKeysBit ++ (writeFixedUInt 8 2 ++ [0, 1, 97]))

theorem emits_sentStrings :
    letI : Hashing := stringHashing
    Emits sentStrings.save (sentKeys ++ (writeFixedUInt 8 2 ++ [0, 1])) :=
  ⟨rfl, rfl⟩

theorem load_truncated_sentStrings :
    letI : Hashing := stringHashing
    Emits sentStrings.save (sentKeys ++ (writeFixedUInt 8 2 ++ [0, 1])) ∧
      ∀ loaded t, ¬ Runs ((lowCardinality unloadedStrings).load 2) (⟨sentKeys⟩ : ArrayInput)
        (true, loaded) t := by
  let _ : Hashing := stringHashing
  have alike : sentStrings.Alike (.lowCardinality unloadedStrings) := .lowCardinality rfl
  have typed : sentStrings.WellTyped := trivial
  have consistent : sentStrings.Consistent := ⟨by decide, nofun⟩
  have sends := sentStrings_savable.sends typed emits_sentStrings
  refine ⟨emits_sentStrings, ?_⟩
  exact (load_truncated_iff alike typed consistent (by decide) sends rfl).mpr (by decide)

/-- Without the last byte of the index the row `'a'` is loaded as `''`, and a row of
`Nullable(Nothing)` is loaded without its byte. -/
theorem load_truncated_returns_true :
    letI : Hashing := stringHashing
    (Emits sentStrings.save ((writeFixedUInt 8 1 ++ (sampleKeys ++ [0])) ++ [1]) ∧
      Runs ((lowCardinality unloadedStrings).load 2)
        (⟨writeFixedUInt 8 1 ++ (sampleKeys ++ [0])⟩ : ArrayInput)
        (true, .lowCardinality (loadedStrings [0, 0])) ⟨[]⟩ ∧
      (loadedStrings [0, 1]).at? 1 = some (some (ascii "a")) ∧
      (loadedStrings [0, 0]).at? 1 = some (some [])) ∧
    (nullable (.leaf (.nothing 1)) [Word.ofNat 1 1]).Sends ([1] ++ [0]) ∧
      Runs ((nullable (.leaf (.nothing 0)) []).load 1) (⟨[1]⟩ : ArrayInput)
        (true, .nullable (.leaf (.nothing 1)) [Word.ofNat 1 1]) ⟨[]⟩ := by
  let _ : Hashing := stringHashing
  refine ⟨⟨⟨rfl, rfl⟩, rfl, rfl, rfl⟩, ?_, rfl⟩
  exact ⟨[], [1, 0], rfl, emits_nothing, [0], rfl, rfl⟩

end ClickHouse
