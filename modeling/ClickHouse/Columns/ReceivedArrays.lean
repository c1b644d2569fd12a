import ClickHouse.Columns.ReceivedIndexes
import ClickHouse.Columns.Soundness

/-!
# Received arrays

`ColumnArray::LoadBody` takes the offsets as they come and loads as many rows of
the data as the last of them says.  It makes none of the checks of the
constructor.  How many rows a column has after it was loaded follows from its
type: for some types it is not the number of rows that was asked for.
-/

namespace ClickHouse

open Kit Column LowCardinality

/-! ## The number of rows -/

/-- A row of the type occupies space. -/
def LeafType.hasRows : LeafType → Bool
  | .fixedString size => size != 0
  | _ => true

mutual

/-- `Size()` after `rows` rows were loaded into an empty column of the same type. -/
def Column.loadedSize : Column → Nat → Nat
  | .leaf column, rows => column.type.loadedSize rows
  | .array _ _, rows => rows
  | .nullable _ _, rows => rows
  | .tuple columns _, rows => loadedFirstSize columns rows
  | .map data, rows => data.loadedSize rows
  | .lowCardinality _, rows => rows
  | .geo _ data, rows => data.loadedSize rows
  | .adaptor column, rows => if column.type.hasRows then rows else 0

def Column.loadedFirstSize : List Column → Nat → Nat
  | [], _ => 0
  | column :: _, rows => column.loadedSize rows

end

section Loading

variable {σ : Type} {s t : σ} {rows : Nat} {column : Leaf} {α : Type}

theorem size_appendToDictionary {column' : Leaf} {item : ItemView}
    (ok : appendToDictionary column item = .ok column') :
    column'.type = column.type ∧
      column'.size = column.size + if column.type.hasRows then 1 else 0 := by
  cases column with
  | fixedString column =>
    rw [appendToDictionary, FixedStrings.append] at ok
    split at ok
    · rename_i short
      cases ok
      refine ⟨rfl, ?_⟩
      show (column.data ++ padded column.stringSize item.data).length / column.stringSize = _
      rw [List.length_append, length_padded short]
      cases size : column.stringSize with
      | zero => simp [Leaf.size, Leaf.type, LeafType.hasRows, size]
      | succ n =>
        rw [Nat.add_div_right _ n.succ_pos]
        simp [Leaf.size, Leaf.type, LeafType.hasRows, size]
    · cases ok
  | string items =>
    cases ok
    exact ⟨rfl, by simp [Leaf.size, Leaf.type, LeafType.hasRows]⟩
  | fixed type data =>
    have added {word : Except Error (Word type.width)}
        (ok : (word.map fun word => Leaf.fixed type (data ++ [word])) = .ok column') :
        column'.type = .fixed type ∧ column'.size = data.length + 1 := by
      cases word with
      | error e => cases ok
      | ok word =>
        cases ok
        exact ⟨rfl, List.length_append ..⟩
    rw [appendToDictionary] at ok
    split at ok
    · exact added ok
    · split at ok
      · exact added ok
      · cases ok
  | json items => cases ok
  | nothing size => cases ok

theorem Adaptor.size_appendRows {loaded : LowCardinality} {rows : List Nat} {column' : Leaf}
    (ok : Adaptor.appendRows loaded rows column = .ok column') :
    column'.size = column.size + if column.type.hasRows then rows.length else 0 := by
  induction rows generalizing column with
  | nil =>
    cases ok
    simp
  | cons n rows ih =>
    rw [Adaptor.appendRows] at ok
    split at ok
    · cases appended : appendToDictionary column ⟨column.type.code, _⟩ with
      | error e =>
        rw [appended] at ok
        cases ok
      | ok next =>
        rw [appended] at ok
        obtain ⟨type, size⟩ := size_appendToDictionary appended
        rw [ih ok, type, size]
        split
        · rw [List.length_cons]
          omega
        · rfl
    · cases ok

theorem Column.IsEmpty.size : ∀ {column : Column}, column.IsEmpty → column.size = 0
  | .leaf _, isEmpty => isEmpty
  | .array _ _, isEmpty => congrArg List.length isEmpty.1
  | .nullable _ _, isEmpty => congrArg List.length isEmpty.1
  | .tuple [] _, _ => rfl
  | .tuple (column :: _) _, isEmpty => by
    have first : column.size = 0 := IsEmpty.size isEmpty.1
    exact first
  | .map data, isEmpty => by
    have inner : data.size = 0 := IsEmpty.size isEmpty
    exact inner
  | .lowCardinality _, isEmpty => congrArg List.length isEmpty
  | .geo _ data, isEmpty => by
    have inner : data.size = 0 := IsEmpty.size isEmpty
    exact inner
  | .adaptor _, isEmpty => isEmpty

/-! ## What a load that returns true has done -/

/-- A loader that goes on if its first part returned true. -/
theorem runs_load_bind_iff {β : Type} {p : EStateM Error σ (Bool × α)}
    {f : Bool × α → EStateM Error σ (Bool × β)} (failed : α → β) {b : β}
    (stops : ∀ a, f (false, a) = pure (false, failed a)) :
    Runs (p >>= f) s (true, b) t ↔
      ∃ a m, Runs p s (true, a) m ∧ Runs (f (true, a)) m (true, b) t := by
  rw [runs_bind_iff]
  constructor
  · rintro ⟨⟨ok, a⟩, m, first, rest⟩
    cases ok with
    | false =>
      rw [stops] at rest
      cases rest
    | true => exact ⟨a, m, first, rest⟩
  · rintro ⟨a, m, first, rest⟩
    exact ⟨(true, a), m, first, rest⟩

/-- A loader whose result is only put into another form. -/
theorem runs_load_map_iff {β : Type} {p : EStateM Error σ (Bool × α)}
    {f : Bool × α → EStateM Error σ (Bool × β)} (make : α → β) {b : β}
    (makes : ∀ r, f r = pure (r.1, make r.2)) :
    Runs (p >>= f) s (true, b) t ↔ ∃ a, Runs p s (true, a) t ∧ b = make a := by
  rw [runs_bind_iff]
  constructor
  · rintro ⟨⟨ok, a⟩, m, run, rest⟩
    rw [makes] at rest
    cases rest
    exact ⟨a, run, rfl⟩
  · rintro ⟨a, run, rfl⟩
    refine ⟨(true, a), t, run, ?_⟩
    rw [makes]
    exact runs_pure _ t

theorem eq_ok_of_runs {x : Except Error α} {a : α}
    (run : Runs (ofExcept x : EStateM Error σ α) s a t) : x = .ok a := by
  cases x with
  | ok b =>
    cases run
    rfl
  | error e => cases run

variable [Source Error σ] [Hashing]

theorem LowCardinality.length_loadBody {column loaded : LowCardinality}
    (run : Runs (column.loadBody rows) s (true, loaded) t) : loaded.index.column.length = rows := by
  obtain ⟨keys, m, -, ranIndex⟩ := runs_loadBody_iff.mp run
  obtain ⟨bytes, -, rfl⟩ := runs_loadIndex_iff.mp ranIndex
  exact length_toWords ..

theorem Column.runs_loadArray_iff {data loaded : Column} {offsets : ColumnVector 8}
    (positive : 0 < rows) :
    Runs ((array data offsets).loadBody rows) s (true, loaded) t ↔
      ∃ offsets' m, Runs (offsets.loadBody rows) s (true, offsets') m ∧
        if getOffset offsets' rows = 0 then loaded = .array data offsets' ∧ m = t
        else ∃ data', Runs (data.loadBody (getOffset offsets' rows)) m (true, data') t ∧
          loaded = .array data' offsets' := by
  rw [loadBody, if_neg (Nat.ne_of_gt positive)]
  refine Iff.trans (runs_load_bind_iff (array data ·) fun _ => rfl) ?_
  refine exists_congr fun offsets' => exists_congr fun m => and_congr_right fun _ => ?_
  simp only [Bool.not_true, Bool.false_eq_true, if_false]
  split
  · rw [runs_pure_iff, Prod.mk.injEq, eq_comm (b := loaded)]
    simp
  · exact runs_load_map_iff (array · offsets') fun _ => rfl

theorem Column.runs_loadNullable_iff {nested loaded : Column} {nulls : ColumnVector 1} :
    Runs ((nullable nested nulls).loadBody rows) s (true, loaded) t ↔
      ∃ nulls' m, Runs (nulls.loadBody rows) s (true, nulls') m ∧
        ∃ nested', Runs (nested.loadBody rows) m (true, nested') t ∧
          loaded = .nullable nested' nulls' := by
  rw [loadBody]
  refine Iff.trans (runs_load_bind_iff (nullable nested ·) fun _ => rfl) ?_
  refine exists_congr fun nulls' => exists_congr fun m => and_congr_right fun _ => ?_
  exact runs_load_map_iff (nullable · nulls') fun _ => rfl

theorem Column.runs_loadBodies_iff {column : Column} {columns loaded : List Column} :
    Runs (loadBodies (column :: columns) rows) s (true, loaded) t ↔
      ∃ column' m, Runs (column.loadBody rows) s (true, column') m ∧
        ∃ columns', Runs (loadBodies columns rows) m (true, columns') t ∧
          loaded = column' :: columns' := by
  rw [loadBodies]
  refine Iff.trans (runs_load_bind_iff (· :: columns) fun _ => rfl) ?_
  refine exists_congr fun column' => exists_congr fun m => and_congr_right fun _ => ?_
  exact runs_load_map_iff (column' :: ·) fun _ => rfl

theorem Adaptor.size_loadBody {loaded : Leaf}
    (run : Runs (Adaptor.loadBody column rows) s (true, loaded) t) :
    loaded.size = if column.type.hasRows then rows else 0 := by
  unfold Adaptor.loadBody at run
  obtain ⟨made, m, _, run⟩ := runs_bind_iff.mp run
  obtain ⟨lowCardinality, _, loads, run⟩ := (runs_load_bind_iff (fun _ => column) fun _ => rfl).mp run
  obtain ⟨appended, _, appends, run⟩ := runs_bind_iff.mp run
  cases run
  have size := Adaptor.size_appendRows (eq_ok_of_runs appends)
  rw [List.length_range, length_loadBody loads, Leaf.type_cloneEmpty,
    Leaf.size_cloneEmpty, Nat.zero_add] at size
  exact size

mutual

/-- The number of rows of a column that was empty depends on its type alone. -/
theorem Column.size_loadBody : ∀ {column loaded : Column} {rows : Nat} {s t : σ}, column.IsEmpty →
    Runs (column.loadBody rows) s (true, loaded) t → loaded.size = column.loadedSize rows
  | .leaf column, _, _, _, _, isEmpty, run => by
    rw [loadBody] at run
    obtain ⟨loaded, loads, rfl⟩ := (runs_load_map_iff leaf fun _ => rfl).mp run
    exact Leaf.size_loadBody isEmpty loads
  | .array data offsets, _, rows, _, _, isEmpty, run => by
    rcases Nat.eq_zero_or_pos rows with rfl | positive
    · cases run
      rw [isEmpty.1]
      rfl
    · obtain ⟨offsets', m, loads, run⟩ := (runs_loadArray_iff positive).mp run
      have length := (ColumnVector.runs_loadBody_iff.mp loads).1
      split at run
      · obtain ⟨rfl, -⟩ := run
        exact length
      · obtain ⟨data', -, rfl⟩ := run
        exact length
  | .nullable nested nulls, _, _, _, _, isEmpty, run => by
    obtain ⟨nulls', m, loads, nested', -, rfl⟩ := runs_loadNullable_iff.mp run
    exact (ColumnVector.runs_loadBody_iff.mp loads).1
  | .tuple columns names, _, _, _, _, isEmpty, run => by
    rw [loadBody] at run
    obtain ⟨loaded, loads, rfl⟩ := (runs_load_map_iff (tuple · names) fun _ => rfl).mp run
    exact firstSize_loadBodies isEmpty loads
  | .map data, _, _, _, _, isEmpty, run => by
    rw [loadBody] at run
    obtain ⟨loaded, loads, rfl⟩ := (runs_load_map_iff map fun _ => rfl).mp run
    have size : loaded.size = data.loadedSize _ := size_loadBody isEmpty loads
    exact size
  | .lowCardinality column, _, _, _, _, isEmpty, run => by
    rw [loadBody] at run
    obtain ⟨loaded, loads, rfl⟩ := (runs_load_map_iff lowCardinality fun _ => rfl).mp run
    exact length_loadBody loads
  | .geo kind data, _, _, _, _, isEmpty, run => by
    rw [loadBody] at run
    obtain ⟨loaded, loads, rfl⟩ := (runs_load_map_iff (geo kind) fun _ => rfl).mp run
    have size : loaded.size = data.loadedSize _ := size_loadBody isEmpty loads
    exact size
  | .adaptor column, _, _, _, _, isEmpty, run => by
    rw [loadBody] at run
    obtain ⟨loaded, loads, rfl⟩ := (runs_load_map_iff adaptor fun _ => rfl).mp run
    exact Adaptor.size_loadBody loads

theorem Column.firstSize_loadBodies : ∀ {columns loaded : List Column} {rows : Nat} {s t : σ},
    AllEmpty columns → Runs (loadBodies columns rows) s (true, loaded) t →
    firstSize loaded = loadedFirstSize columns rows
  | [], _, _, _, _, isEmpty, run => by
    cases run
    rfl
  | column :: columns, _, _, _, _, isEmpty, run => by
    obtain ⟨column', m, loads, columns', -, rfl⟩ := runs_loadBodies_iff.mp run
    exact size_loadBody isEmpty.1 loads

end

/-! ## Well-formed arrays -/

/-- What the constructor of an array enforces, and with it where the rows of the array are. -/
structure ArrayReceived (rows : Nat) (data : Column) (offsets : ColumnVector 8) : Prop where
  length : offsets.length = rows
  consistent : ConsistentOffsets offsets data.size
  within : ∀ n < rows, getOffset offsets n + getSize offsets n ≤ data.size
  exact : ∀ n < rows, getSize offsets n = getOffset offsets (n + 1) - getOffset offsets n

/-- The stream delivers an offset for each row.  They increase, and the last is a number of rows
that the data can have. -/
def OffsetsArrive (data : Column) (rows : Nat) (s : σ) : Prop :=
  ∃ (offsets : ColumnVector 8) (m : σ), offsets.length = rows ∧
    Runs (readAll (rows * 8)) s (memory offsets) m ∧
    (∀ n < rows, getOffset offsets n ≤ getOffset offsets (n + 1)) ∧
    (getOffset offsets rows = 0 ∨
      data.loadedSize (getOffset offsets rows) = getOffset offsets rows)

/-- An array that was loaded into an empty column is well formed exactly if its offsets arrive in
order and the data counts as many rows as the last of them says. -/
theorem arrayReceived_iff {data data' : Column} {offsets offsets' : ColumnVector 8}
    (isEmpty : (array data offsets).IsEmpty) (positive : 0 < rows)
    (run : Runs ((array data offsets).loadBody rows) s (true, .array data' offsets') t) :
    ArrayReceived rows data' offsets' ↔ OffsetsArrive data rows s := by
  obtain ⟨read, m, loads, run⟩ := (runs_loadArray_iff positive).mp run
  obtain ⟨length, arrives⟩ := ColumnVector.runs_loadBody_iff.mp loads
  have size : offsets' = read ∧ data'.size =
      if getOffset read rows = 0 then 0 else data.loadedSize (getOffset read rows) := by
    split at run
    · rename_i none
      obtain ⟨same, -⟩ := run
      cases same
      rw [if_pos none]
      exact ⟨rfl, isEmpty.2.size⟩
    · rename_i some
      obtain ⟨loaded, loadsData, same⟩ := run
      cases same
      rw [if_neg some]
      exact ⟨rfl, size_loadBody isEmpty.2 loadsData⟩
  obtain ⟨rfl, size⟩ := size
  constructor
  · intro received
    refine ⟨offsets', m, length, arrives, length ▸ received.consistent.1, ?_⟩
    have last := received.consistent.2
    rw [length, size] at last
    split at last
    · exact .inl last
    · exact .inr last.symm
  · rintro ⟨other, m', length', arrives', increasing, counts⟩
    obtain rfl : offsets' = other :=
      eq_of_memory_eq (length.trans length'.symm) (arrives.unique arrives').1
    have consistent : ConsistentOffsets offsets' data'.size := by
      refine ⟨length.symm ▸ increasing, ?_⟩
      rw [length, size]
      split
      · assumption
      · rename_i some
        exact (counts.resolve_left some).symm
    refine ⟨length, consistent, ?_, ?_⟩
    · intro n below
      exact consistent.row_within (length.symm ▸ below)
    · intro n below
      exact consistent.getSize_eq (length.symm ▸ below)

end Loading

/-- `Array(UInt8)` before it is loaded. -/
def unloadedArray : Column := .array (.leaf (.fixed .uint8 [])) []

theorem arrayReceived_bytes :
    letI : Hashing := stringHashing
    ∃ data' offsets', Runs (unloadedArray.loadBody 2)
        (⟨writeFixedUInt 8 1 ++ (writeFixedUInt 8 2 ++ [7, 8])⟩ : ArrayInput)
        (true, .array data' offsets') ⟨[]⟩ ∧ ArrayReceived 2 data' offsets' := by
  let _ : Hashing := stringHashing
  have run : Runs (unloadedArray.loadBody 2)
      (⟨writeFixedUInt 8 1 ++ (writeFixedUInt 8 2 ++ [7, 8])⟩ : ArrayInput)
      (true, .array (.leaf (.fixed .uint8 [Word.ofNat 1 7, Word.ofNat 1 8]))
        [Word.ofNat 8 1, Word.ofNat 8 2]) ⟨[]⟩ := rfl
  have isEmpty : unloadedArray.IsEmpty := ⟨rfl, rfl⟩
  refine ⟨_, _, run, (arrayReceived_iff isEmpty (by decide) run).mpr ?_⟩
  exact ⟨[Word.ofNat 8 1, Word.ofNat 8 2], ⟨[7, 8]⟩, rfl, rfl, by decide, .inr rfl⟩

/-- Offsets that go back are loaded all the same, and the size of the second row wraps around.  So
are offsets that increase to more rows of a `FixedString` than the data has. -/
theorem not_arrayReceived_bytes :
    letI : Hashing := stringHashing
    (∃ data' offsets', Runs (unloadedArray.loadBody 2)
        (⟨writeFixedUInt 8 2 ++ (writeFixedUInt 8 1 ++ [7])⟩ : ArrayInput)
        (true, .array data' offsets') ⟨[]⟩ ∧
      data'.size = 1 ∧ getSize offsets' 1 = 2 ^ 64 - 1 ∧ ¬ ArrayReceived 2 data' offsets') ∧
    ∃ data' offsets', Runs
        ((array (.leaf (.fixedString ⟨2 ^ 33, []⟩)) []).loadBody 1)
        (⟨writeFixedUInt 8 (2 ^ 31)⟩ : ArrayInput) (true, .array data' offsets') ⟨[]⟩ ∧
      data'.size = 0 ∧ getOffset offsets' 1 = 2 ^ 31 ∧ ¬ ArrayReceived 1 data' offsets' := by
  let _ : Hashing := stringHashing
  have back : Runs (unloadedArray.loadBody 2)
      (⟨writeFixedUInt 8 2 ++ (writeFixedUInt 8 1 ++ [7])⟩ : ArrayInput)
      (true, .array (.leaf (.fixed .uint8 [Word.ofNat 1 7])) [Word.ofNat 8 2, Word.ofNat 8 1])
      ⟨[]⟩ := rfl
  have wraps : Runs ((array (.leaf (.fixedString ⟨2 ^ 33, []⟩)) []).loadBody 1)
      (⟨writeFixedUInt 8 (2 ^ 31)⟩ : ArrayInput)
      (true, .array (.leaf (.fixedString ⟨2 ^ 33, []⟩)) [Word.ofNat 8 (2 ^ 31)]) ⟨[]⟩ := rfl
  refine ⟨⟨_, _, back, rfl, by decide, ?_⟩, _, _, wraps, by decide, by decide, ?_⟩
  · intro received
    have step := received.consistent.1 1 (by decide)
    exact absurd step (by decide)
  · intro received
    have last := received.consistent.2
    exact absurd last (by decide)

end ClickHouse
