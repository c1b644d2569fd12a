import ClickHouse.Columns.RefinementRuns
import ClickHouse.Columns.RoundTrip

/-!
# Received LowCardinality columns

The body of a LowCardinality column is its keys and then an index for each row,
all of which the peer chooses.  `Load` is taken apart at the place where the
index begins: what it reads up to there is checked, and what it reads from there
on is not.
-/

namespace ClickHouse

open Kit LowCardinality

variable {keys : LoadedKeys}

section Loading

variable {σ : Type} [Source Error σ]

namespace LowCardinality

variable [Hashing]

variable {s m t : σ} {rows : Nat}

/-- Whatever is read of the index, there is one for each row, zeros standing for what is missing. -/
theorem runs_loadIndex_iff {loaded : LowCardinality} :
    Runs (loadIndex rows keys) m loaded t ↔ ∃ bytes,
      Runs (readAll (rows * keys.indexType.width)) m bytes t ∧
      loaded = ⟨keys.dictionary, ⟨keys.indexType, toWords _ rows bytes⟩,
        uniqueItemsOf keys.dictionary⟩ := by
  unfold loadIndex ColumnVector.loadBody
  simp only [bind_assoc, pure_bind, runs_bind_pure_iff]
  refine exists_congr fun bytes => and_congr_right fun _ => ?_
  have nothing : (memory ([] : ColumnVector keys.indexType.width)).drop bytes.length = [] :=
    List.drop_nil
  rw [nothing, List.append_nil]
  exact eq_comm

/-- `LoadBody` returns true with what `Load` returns, and false if that throws. -/
theorem runs_loadBody {column : LowCardinality} :
    (∀ loaded, Runs (load column.dictionary rows) s loaded t →
      Runs (column.loadBody rows) s (true, loaded) t) ∧
    (∀ e, Throws (load column.dictionary rows) s e t →
      Runs (column.loadBody rows) s (false, column) t) := by
  constructor
  · intro loaded run
    have whole : Runs (load column.dictionary rows >>= fun loaded => pure (true, loaded)) s
        (true, loaded) t := run.bind (runs_pure _ _)
    exact whole.tryCatch _
  · intro e throws
    have whole : Throws (load column.dictionary rows >>= fun loaded => pure (true, loaded)) s e t :=
      throws.bind _
    exact whole.tryCatch_runs (runs_pure _ _)

theorem runs_loadBody_iff {column loaded : LowCardinality} :
    Runs (column.loadBody rows) s (true, loaded) t ↔
      ∃ keys m, Runs (loadKeys column.dictionary rows) s keys m ∧
        Runs (loadIndex rows keys) m loaded t := by
  rw [← runs_bind_iff]
  refine ⟨?_, runs_loadBody.1 loaded⟩
  intro run
  cases ended : load column.dictionary rows s with
  | ok found u =>
    cases (runs_loadBody.1 found ended).symm.trans run
    exact ended
  | error e u => cases (runs_loadBody.2 e ended).symm.trans run

end LowCardinality

end Loading

/-! ## What a loaded dictionary has -/

/-- The null map is the one that `Load` makes. -/
def Dictionary.Received (dictionary : Dictionary) : Prop :=
  ∀ nulls, dictionary.nulls = some nulls → nulls = nullFlags dictionary.data.size

theorem length_nullFlags (size : Nat) : (nullFlags size).length = size - 1 + 1 := by
  simp [nullFlags]

/-- Loading does not change the type. -/
theorem Leaf.type_loadBody {σ : Type} [Source Error σ] {column column' : Leaf} {rows : Nat}
    {s t : σ} {ok : Bool} (run : Runs (column.loadBody rows) s (ok, column') t) :
    column'.type = column.type := by
  cases column with
  | fixedString column =>
    obtain ⟨_, _, _, run⟩ := runs_bind_iff.mp run
    cases run
    rfl
  | nothing size =>
    obtain ⟨_, _, _, run⟩ := runs_bind_iff.mp run
    cases run
    rfl
  | _ =>
    obtain ⟨_, _, _, run⟩ := runs_bind_iff.mp run
    cases run
    rfl

/-- `Size()` after `rows` rows were loaded into an empty column. -/
def LeafType.loadedSize : LeafType → Nat → Nat
  | .fixed type, rows => type.loadedRows rows
  | .fixedString size, rows => size * rows % 2 ^ 64 / size
  | .void, rows => rows % 2 ^ 64
  | _, rows => rows

section Sizes

variable {σ : Type} [Source Error σ] {s t : σ} {rows : Nat}

/-- A vector is loaded as the bytes that are read, all of them. -/
theorem ColumnVector.runs_loadBody_iff {w : Nat} {old data : ColumnVector w} :
    Runs (old.loadBody rows) s (true, data) t ↔
      data.length = rows ∧ Runs (readAll (rows * w)) s (memory data) t := by
  unfold ColumnVector.loadBody
  rw [runs_bind_pure_iff]
  constructor
  · rintro ⟨bytes, read, same⟩
    obtain ⟨whole, rfl⟩ := Prod.mk.inj same
    have length : bytes.length = rows * w := beq_iff_eq.mp whole
    have words : toWords w rows (bytes ++ (memory old).drop bytes.length) = toWords w rows bytes := by
      have back := toWords_memory_append (toWords w rows bytes) ((memory old).drop bytes.length)
      rwa [memory_toWords length, length_toWords] at back
    rw [words]
    refine ⟨length_toWords .., ?_⟩
    rw [memory_toWords length]
    exact read
  · rintro ⟨rfl, read⟩
    refine ⟨memory data, read, ?_⟩
    rw [toWords_memory_append, length_memory, beq_self_eq_true]

theorem length_loadStrings {items : List Bytes} (run : Runs (loadStrings rows) s (some items) t) :
    items.length = rows := by
  induction rows generalizing s items with
  | zero =>
    cases run
    rfl
  | succ rows ih =>
    rw [loadStrings] at run
    obtain ⟨len, _, _, run⟩ := runs_bind_iff.mp run
    cases len with
    | none => cases run
    | some len =>
      obtain ⟨item, _, _, run⟩ := runs_bind_iff.mp run
      cases item with
      | none => cases run
      | some item =>
        obtain ⟨others, loads, same⟩ := runs_bind_pure_iff.mp run
        obtain ⟨others, rfl, rfl⟩ := Option.map_eq_some_iff.mp same
        rw [List.length_cons, ih loads]

theorem runs_loadStringBody_iff {items loaded : List Bytes} :
    Runs (ColumnString.loadBody items rows) s (true, loaded) t ↔
      Runs (loadStrings rows) s (some loaded) t := by
  constructor
  · intro run
    obtain ⟨found, _, loads, run⟩ := runs_bind_iff.mp run
    cases found with
    | none => cases run
    | some found =>
      cases run
      exact loads
  · intro loads
    exact runs_bind_iff.mpr ⟨some loaded, t, loads, runs_pure _ t⟩

theorem FixedStrings.runs_loadBody_iff {column : FixedStrings} {loaded : Leaf} :
    Runs ((Leaf.fixedString column).loadBody rows) s (true, loaded) t ↔
      ∃ bytes, bytes.length = column.loadSize rows ∧ Runs (readAll (column.loadSize rows)) s bytes t ∧
        loaded = .fixedString ⟨column.stringSize, bytes⟩ := by
  have filled {bytes : Bytes} (length : bytes.length = column.loadSize rows) :
      column.resized (column.loadSize rows) bytes = ⟨column.stringSize, bytes⟩ := by
    rw [← length]
    have same : column.stringSize = (⟨column.stringSize, bytes⟩ : FixedStrings).stringSize := rfl
    exact FixedStrings.resized_eq same
  unfold Leaf.loadBody
  rw [runs_bind_pure_iff]
  constructor
  · rintro ⟨bytes, read, same⟩
    obtain ⟨whole, rfl⟩ := Prod.mk.inj same
    have length : bytes.length = column.loadSize rows := beq_iff_eq.mp whole
    exact ⟨bytes, length, read, by rw [filled length]⟩
  · rintro ⟨bytes, length, read, rfl⟩
    exact ⟨bytes, read, by rw [filled length, length, beq_self_eq_true]⟩

theorem Leaf.size_loadBody {column loaded : Leaf} (isEmpty : column.size = 0)
    (run : Runs (column.loadBody rows) s (true, loaded) t) :
    loaded.size = column.type.loadedSize rows := by
  cases column with
  | fixed type data =>
    obtain ⟨⟨ok, data'⟩, loads, same⟩ := runs_bind_pure_iff.mp run
    cases same
    exact (ColumnVector.runs_loadBody_iff.mp loads).1
  | fixedString column =>
    obtain ⟨bytes, length, -, rfl⟩ := FixedStrings.runs_loadBody_iff.mp run
    exact congrArg (· / column.stringSize) length
  | string items =>
    obtain ⟨⟨ok, items'⟩, loads, same⟩ := runs_bind_pure_iff.mp run
    cases same
    exact length_loadStrings (runs_loadStringBody_iff.mp loads)
  | json items =>
    obtain ⟨⟨ok, items'⟩, loads, same⟩ := runs_bind_pure_iff.mp run
    cases same
    exact length_loadStrings (runs_loadStringBody_iff.mp loads)
  | nothing size =>
    obtain ⟨_, _, same⟩ := runs_bind_pure_iff.mp run
    cases same
    have none : size = 0 := isEmpty
    rw [none, Nat.zero_add]
    rfl

end Sizes

theorem runs_orThrow_iff {σ α : Type} [Source Error σ] {what : String} {value : Option α} {a : α}
    {s t : σ} : Runs (orThrow what value) s a t ↔ value = some a ∧ s = t := by
  cases value with
  | none => exact ⟨nofun, nofun⟩
  | some b => rw [orThrow, runs_pure_iff, Option.some.injEq, eq_comm (a := b), eq_comm (a := s)]

/-- What stands in the input before the index, and what `Load` makes of it. -/
theorem LowCardinality.runs_loadKeys {σ : Type} [Source Error σ] {dictionary : Dictionary}
    {rows : Nat} {s t : σ} (run : Runs (loadKeys dictionary rows) s keys t) :
    ∃ (flags numberOfKeys : Nat) (a u v : σ),
      Runs (dictionary.data.cloneEmpty.loadBody numberOfKeys) u (true, keys.dictionary.data) v ∧
      keys.dictionary.nulls = (dictionary.nulls.map fun _ => nullFlags keys.dictionary.data.size) ∧
      Runs (readFixedUInt 8) s (some flags) a ∧
      createIndexColumn (flags &&& 0xFF) = .ok keys.indexType ∧
      Runs (readFixedUInt 8) a (some numberOfKeys) u ∧ Runs (readFixedUInt 8) v (some rows) t := by
  unfold loadKeys at run
  obtain ⟨_, a, flagged, rest⟩ := runs_bind_iff.mp run
  obtain ⟨flags, _, read, run⟩ := runs_bind_iff.mp rest
  obtain ⟨rfl, rfl⟩ := runs_orThrow_iff.mp read
  cases known : createIndexColumn (flags &&& 0xFF) with
  | error e =>
    rw [known] at run
    cases run
  | ok indexType =>
    rw [known] at run
    dsimp only at run
    split at run
    · cases run
    · split at run
      · cases run
      · obtain ⟨_, u, counted, rest⟩ := runs_bind_iff.mp run
        obtain ⟨numberOfKeys, _, read, run⟩ := runs_bind_iff.mp rest
        obtain ⟨rfl, rfl⟩ := runs_orThrow_iff.mp read
        obtain ⟨⟨ok, data⟩, v, loads, run⟩ := runs_bind_iff.mp run
        cases ok with
        | false => cases run
        | true =>
          obtain ⟨_, _, numbered, rest⟩ := runs_bind_iff.mp run
          obtain ⟨numberOfRows, _, read, run⟩ := runs_bind_iff.mp rest
          obtain ⟨rfl, rfl⟩ := runs_orThrow_iff.mp read
          split at run
          · cases run
          · rename_i same
            obtain ⟨rfl, rfl⟩ := runs_pure_iff.mp run
            exact ⟨flags, numberOfKeys, a, u, v, loads, rfl, flagged, known, counted,
              not_not.mp same ▸ numbered⟩

theorem LowCardinality.received_loadKeys {σ : Type} [Source Error σ] {dictionary : Dictionary}
    {rows : Nat} {s t : σ} (run : Runs (loadKeys dictionary rows) s keys t) :
    keys.dictionary.Received := by
  obtain ⟨_, _, _, _, _, _, flags, _⟩ := runs_loadKeys run
  intro nulls same
  rw [flags, Option.map_eq_some_iff] at same
  obtain ⟨_, _, rfl⟩ := same
  rfl

/-- Every position below its size is one that `At` can read. -/
theorem Dictionary.Received.typedAt {dictionary : Dictionary} (received : dictionary.Received)
    {n : Nat} (inside : n < dictionary.size) :
    (typedAt? dictionary n).isSome := by
  rcases dictionary with ⟨data, nulls⟩
  cases nulls with
  | none =>
    obtain ⟨bytes, row⟩ := Leaf.exists_bytes inside
    simp [typedAt?, row]
  | some nulls =>
    obtain rfl : nulls = nullFlags data.size := received nulls rfl
    have inside : n < (nullFlags data.size).length := inside
    rw [length_nullFlags] at inside
    cases n with
    | zero => rfl
    | succ n =>
      have below : n + 1 < data.size := by omega
      obtain ⟨bytes, row⟩ := Leaf.exists_bytes below
      have unmarked : (Word.ofNat 1 0).toNat = 0 := rfl
      simp [typedAt?, getElem?_nullFlags below, row, unmarked]

/-! ## Valid columns -/

/-- The size of the dictionary whose number of keys is announced. -/
def Dictionary.announcedSize (dictionary : Dictionary) (numberOfKeys : Nat) : Nat :=
  let size := dictionary.data.type.loadedSize numberOfKeys
  if dictionary.nulls.isSome then max size 1 else size

section Validity

variable {σ : Type} [Source Error σ] [Hashing]

namespace LowCardinality

/-- From the state after the keys, the bytes that were read are those of the index of the column,
which has an entry for each of the rows; each of them is a position of the dictionary, and the two
ways to read a row are defined. -/
structure ReceivedValid (column : LowCardinality) (rows : Nat) (s : σ) (loaded : LowCardinality)
    (t : σ) : Prop where
  length : loaded.index.column.length = rows
  read : ∃ keys m, Runs (loadKeys column.dictionary rows) s keys m ∧
    Runs (readAll (rows * loaded.index.type.width)) m (memory loaded.index.column) t
  inside : ∀ position ∈ loaded.index.column, position.toNat < loaded.dictionary.size
  getItem : ∀ n < rows, (loaded.item? n).isSome
  typedAt : ∀ n < rows, (loaded.at? n).isSome

/-- The input has the flags of the body, a number of keys and the keys, the number of rows and an
index for each of them, all of which are positions among the announced keys. -/
inductive IndexArrives (column : LowCardinality) (rows : Nat) (s : σ) : Prop
  | arrives {flags numberOfKeys : Nat} {type : IndexType} {a b c d t : σ} {keys : Leaf}
    (index : ColumnVector type.width) (flagged : Runs (readFixedUInt 8) s (some flags) a)
    (ofType : createIndexColumn (flags &&& 0xFF) = .ok type)
    (counted : Runs (readFixedUInt 8) a (some numberOfKeys) b)
    (skipped : Runs (column.dictionary.data.cloneEmpty.loadBody numberOfKeys) b (true, keys) c)
    (numbered : Runs (readFixedUInt 8) c (some rows) d) (length : index.length = rows)
    (read : Runs (readAll (rows * type.width)) d (memory index) t)
    (inside : ∀ position ∈ index,
      position.toNat < column.dictionary.announcedSize numberOfKeys) : IndexArrives column rows s

omit [Hashing] in
/-- Within the dictionary, every row can be read. -/
theorem defined_of_inside {loaded : LowCardinality} (received : loaded.dictionary.Received)
    (inside : ∀ position ∈ loaded.index.column, position.toNat < loaded.dictionary.size) {n : Nat}
    (below : n < loaded.index.column.length) :
    (loaded.item? n).isSome ∧ (loaded.at? n).isSome := by
  have within := inside _ (List.getElem_mem below)
  have defined := received.typedAt within
  have position : loaded.dictionaryIndex? n = some (loaded.index.column[n]).toNat := by
    rw [dictionaryIndex?, List.getElem?_eq_getElem below]
    rfl
  constructor
  · rw [item?, position]
    dsimp only
    split
    · rfl
    · rw [Dictionary.item?_eq_typedAt?, Option.isSome_map]
      exact defined
  · rw [at?, position]
    exact defined

omit [Hashing] in
theorem size_of_loaded {dictionary loaded : Dictionary} {numberOfKeys : Nat} {s t : σ}
    (loads : Runs (dictionary.data.cloneEmpty.loadBody numberOfKeys) s (true, loaded.data) t)
    (nulls : loaded.nulls = dictionary.nulls.map fun _ => nullFlags loaded.data.size) :
    loaded.size = dictionary.announcedSize numberOfKeys := by
  have size : loaded.data.size = dictionary.data.type.loadedSize numberOfKeys := by
    rw [Leaf.size_loadBody (Leaf.size_cloneEmpty _) loads, Leaf.type_cloneEmpty]
  unfold Dictionary.size Dictionary.announcedSize
  rw [nulls, ← size]
  cases dictionary.nulls with
  | none => rfl
  | some nulls =>
    show (nullFlags loaded.data.size).length = max loaded.data.size 1
    rw [length_nullFlags]
    omega

/-- A column that is loaded is valid exactly if the whole index arrives and points among the keys
that the input announces. -/
theorem receivedValid_iff {column loaded : LowCardinality} {rows : Nat} {s t : σ}
    (run : Runs (column.loadBody rows) s (true, loaded) t) :
    ReceivedValid column rows s loaded t ↔ IndexArrives column rows s := by
  obtain ⟨keys, m, ranKeys, ranIndex⟩ := runs_loadBody_iff.mp run
  obtain ⟨bytes, ranBytes, rfl⟩ := runs_loadIndex_iff.mp ranIndex
  obtain ⟨_, _, _, _, _, loads, nulls, flagged, ofType, counted, numbered⟩ := runs_loadKeys ranKeys
  have size := size_of_loaded loads nulls
  constructor
  · rintro ⟨length, ⟨keys', m', ranKeys', read⟩, inside, -, -⟩
    cases ranKeys.symm.trans ranKeys'
    exact .arrives _ flagged ofType counted loads numbered length read (size ▸ inside)
  · rintro ⟨index, flagged', ofType', counted', loads', numbered', length, read, inside⟩
    cases flagged.symm.trans flagged'
    cases ofType.symm.trans ofType'
    cases counted.symm.trans counted'
    cases loads.symm.trans loads'
    cases numbered.symm.trans numbered'
    rw [← size] at inside
    cases ranBytes.symm.trans read
    have words : toWords keys.indexType.width rows (memory index) = index := by
      have whole := toWords_memory_append index []
      rwa [List.append_nil, length] at whole
    rw [words]
    have received : keys.dictionary.Received := received_loadKeys ranKeys
    refine ⟨length, ⟨keys, m, ranKeys, read⟩, inside, ?_, ?_⟩
    · intro n below
      exact (defined_of_inside received inside (length.symm ▸ below)).1
    · intro n below
      exact (defined_of_inside received inside (length.symm ▸ below)).2

end LowCardinality

end Validity

/-- A body with a `UInt8` index, the keys `''` and `'a'` and two rows, up to the index. -/
def sampleKeys : Bytes :=
  writeFixedUInt 8 hasAdditionalKeysBit ++ (writeFixedUInt 8 2 ++ ([0, 1, 97] ++ writeFixedUInt 8 2))

/-- A column of strings before it is loaded. -/
def unloadedStrings : LowCardinality := ⟨⟨.string [], none⟩, ⟨.uint32, []⟩, []⟩

/-- What is loaded if the index is the given one. -/
def loadedStrings [Hashing] (index : List Nat) : LowCardinality :=
  ⟨⟨.string [[], ascii "a"], none⟩, ⟨.uint8, index.map (Word.ofNat 1)⟩,
    uniqueItemsOf ⟨.string [[], ascii "a"], none⟩⟩

theorem receivedValid_sampleKeys :
    letI : Hashing := stringHashing
    ReceivedValid unloadedStrings 2 (⟨sampleKeys ++ [1, 0, 9]⟩ : ArrayInput)
      (loadedStrings [1, 0]) ⟨[9]⟩ := by
  let _ : Hashing := stringHashing
  have run : Runs (unloadedStrings.loadBody 2) (⟨sampleKeys ++ [1, 0, 9]⟩ : ArrayInput)
      (true, loadedStrings [1, 0]) ⟨[9]⟩ := rfl
  have flagged : Runs (readFixedUInt 8) (⟨sampleKeys ++ [1, 0, 9]⟩ : ArrayInput)
      (some hasAdditionalKeysBit) ⟨sampleKeys.drop 8 ++ [1, 0, 9]⟩ := rfl
  have ofType : createIndexColumn (hasAdditionalKeysBit &&& 0xFF) = .ok .uint8 := rfl
  have counted : Runs (readFixedUInt 8) (⟨sampleKeys.drop 8 ++ [1, 0, 9]⟩ : ArrayInput) (some 2)
      ⟨sampleKeys.drop 16 ++ [1, 0, 9]⟩ := rfl
  have skipped : Runs ((Leaf.string []).loadBody 2) (⟨sampleKeys.drop 16 ++ [1, 0, 9]⟩ : ArrayInput)
      (true, .string [[], ascii "a"]) ⟨sampleKeys.drop 19 ++ [1, 0, 9]⟩ := rfl
  have numbered : Runs (readFixedUInt 8) (⟨sampleKeys.drop 19 ++ [1, 0, 9]⟩ : ArrayInput) (some 2)
      ⟨[1, 0, 9]⟩ := rfl
  let index : ColumnVector IndexType.uint8.width := [Word.ofNat 1 1, Word.ofNat 1 0]
  have read : Runs (readAll 2) (⟨[1, 0, 9]⟩ : ArrayInput) (memory index) ⟨[9]⟩ := rfl
  refine (receivedValid_iff run).mpr
    (.arrives index flagged ofType counted skipped numbered rfl read ?_)
  decide

/-- An index that ends after its first row is loaded all the same, and so is one that points behind
the dictionary, whose row cannot be read. -/
theorem not_receivedValid_sampleKeys :
    letI : Hashing := stringHashing
    (Runs (unloadedStrings.loadBody 2) (⟨sampleKeys ++ [1]⟩ : ArrayInput)
        (true, loadedStrings [1, 0]) ⟨[]⟩ ∧
      ¬ ReceivedValid unloadedStrings 2 (⟨sampleKeys ++ [1]⟩ : ArrayInput)
        (loadedStrings [1, 0]) ⟨[]⟩) ∧
    (Runs (unloadedStrings.loadBody 2) (⟨sampleKeys ++ [1, 7]⟩ : ArrayInput)
        (true, loadedStrings [1, 7]) ⟨[]⟩ ∧
      (loadedStrings [1, 7]).at? 1 = none ∧
      ¬ ReceivedValid unloadedStrings 2 (⟨sampleKeys ++ [1, 7]⟩ : ArrayInput)
        (loadedStrings [1, 7]) ⟨[]⟩) := by
  let _ : Hashing := stringHashing
  refine ⟨⟨rfl, ?_⟩, rfl, rfl, ?_⟩
  · intro valid
    obtain ⟨keys, m, ranKeys, read⟩ := valid.read
    have ran : Runs (loadKeys unloadedStrings.dictionary 2)
        (⟨sampleKeys ++ [1]⟩ : ArrayInput) ⟨.uint8, ⟨.string [[], ascii "a"], none⟩⟩ ⟨[1]⟩ := rfl
    cases ran.symm.trans ranKeys
    cases read
  · intro valid
    have outside : 7 < 2 :=
      valid.inside (Word.ofNat 1 7) (List.mem_cons_of_mem _ (List.mem_singleton_self _))
    exact absurd outside (by decide)

end ClickHouse
