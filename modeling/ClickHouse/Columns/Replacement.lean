import ClickHouse.Columns.ReceivedArrays

/-!
# Loading into a column with contents

`Load` is meant to replace what a column holds.  Most classes do: they read all
they have, or swap in what they read.  `ColumnNothing` adds to its size, and
`ColumnArray` returns at once when it has no rows to read and leaves its data
alone when there are none of those.  The column is compared with a fresh one of
the same classes, loaded from the same place.
-/

namespace ClickHouse

open Kit Column ColumnVector

/-! ## Columns of the same classes -/

mutual

/-- The columns are of the same classes, with the same parameters. -/
inductive Column.Alike : Column → Column → Prop
  | leaf {column other : Leaf} (same : column.type = other.type) :
    Alike (.leaf column) (.leaf other)
  | array {data other : Column} {offsets offsets' : ColumnVector 8} (alike : data.Alike other) :
    Alike (.array data offsets) (.array other offsets')
  | nullable {nested other : Column} {nulls nulls' : ColumnVector 1} (alike : nested.Alike other) :
    Alike (.nullable nested nulls) (.nullable other nulls')
  | tuple {columns others : List Column} {names : List Bytes}
    (alike : AllAlike columns others) :
    Alike (.tuple columns names) (.tuple others names)
  | map {data other : Column} (alike : data.Alike other) : Alike (.map data) (.map other)
  | lowCardinality {column other : LowCardinality}
    (same : column.dictionary.type = other.dictionary.type) :
    Alike (.lowCardinality column) (.lowCardinality other)
  | geo {kind : GeoKind} {data other : Column} (alike : data.Alike other) :
    Alike (.geo kind data) (.geo kind other)
  | adaptor {column other : Leaf} (same : column.type = other.type) :
    Alike (.adaptor column) (.adaptor other)

inductive Column.AllAlike : List Column → List Column → Prop
  | nil : AllAlike [] []
  | cons {column other : Column} {columns others : List Column} (first : column.Alike other)
    (rest : AllAlike columns others) : AllAlike (column :: columns) (other :: others)

end

mutual

/-- The offsets of every array in the column end at the size of its data. -/
def Column.OffsetsEnd : Column → Prop
  | .array data offsets => getOffset offsets offsets.length = data.size ∧ data.OffsetsEnd
  | .nullable nested _ => nested.OffsetsEnd
  | .tuple columns _ => AllOffsetsEnd columns
  | .map data => data.OffsetsEnd
  | .geo _ data => data.OffsetsEnd
  | _ => True

def Column.AllOffsetsEnd : List Column → Prop
  | [] => True
  | column :: columns => column.OffsetsEnd ∧ AllOffsetsEnd columns

end

mutual

theorem Column.IsEmpty.offsetsEnd : ∀ {column : Column}, column.IsEmpty → column.OffsetsEnd
  | .leaf _, _ => trivial
  | .array data offsets, isEmpty => by
    obtain ⟨rfl, inner⟩ := isEmpty
    have ends : data.OffsetsEnd := IsEmpty.offsetsEnd inner
    exact ⟨inner.size.symm, ends⟩
  | .nullable nested _, isEmpty => by
    have ends : nested.OffsetsEnd := IsEmpty.offsetsEnd isEmpty.2
    exact ends
  | .tuple columns _, isEmpty => by
    have ends : AllOffsetsEnd columns := allOffsetsEnd_of_allEmpty isEmpty
    exact ends
  | .map data, isEmpty => by
    have ends : data.OffsetsEnd := IsEmpty.offsetsEnd isEmpty
    exact ends
  | .lowCardinality _, _ => trivial
  | .geo _ data, isEmpty => by
    have ends : data.OffsetsEnd := IsEmpty.offsetsEnd isEmpty
    exact ends
  | .adaptor _, _ => trivial

theorem Column.allOffsetsEnd_of_allEmpty : ∀ {columns : List Column}, AllEmpty columns →
    AllOffsetsEnd columns
  | [], _ => trivial
  | _ :: _, allEmpty =>
    ⟨IsEmpty.offsetsEnd allEmpty.1, allOffsetsEnd_of_allEmpty allEmpty.2⟩

end

variable {column : Leaf}

theorem Leaf.cloneEmpty_eq {other : Leaf} (same : column.type = other.type) :
    column.cloneEmpty = other.cloneEmpty := by
  cases column <;> cases other <;>
    simp only [Leaf.type, reduceCtorEq, LeafType.fixed.injEq, LeafType.fixedString.injEq] at same
  case fixed.fixed =>
    subst same
    rfl
  case fixedString.fixedString => rw [Leaf.cloneEmpty, Leaf.cloneEmpty, same]
  all_goals rfl

section Loading

variable {σ : Type} [Source Error σ]

/-! ## What does not depend on the contents -/

theorem Leaf.loadPrefix_eq {other : Leaf} (same : column.type = other.type) :
    column.loadPrefix (σ := σ) = other.loadPrefix := by
  cases column <;> cases other <;> simp only [Leaf.type, reduceCtorEq] at same <;> rfl

theorem Leaf.sizeDefined_adaptor_eq {other : Leaf} (same : column.type = other.type) :
    (adaptor column).sizeDefined = (adaptor other).sizeDefined := by
  cases column <;> cases other <;> simp_all [Leaf.type, sizeDefined]

mutual

theorem Column.Alike.loadPrefix {rows : Nat} : ∀ {column other : Column}, column.Alike other →
    column.loadPrefix (σ := σ) rows = other.loadPrefix rows
  | _, _, .leaf same => Leaf.loadPrefix_eq same
  | _, _, .array alike => by
    rw [loadPrefix, loadPrefix, Alike.loadPrefix alike]
  | _, _, .nullable alike => by
    rw [loadPrefix, loadPrefix, Alike.loadPrefix alike]
  | _, _, .tuple alike => by
    rw [loadPrefix, loadPrefix, AllAlike.loadPrefixes alike]
  | _, _, .map alike => by
    rw [loadPrefix, loadPrefix, Alike.loadPrefix alike]
  | _, _, .lowCardinality _ => rfl
  | _, _, .geo _ => rfl
  | _, _, .adaptor same => by
    rw [loadPrefix, loadPrefix, Leaf.sizeDefined_adaptor_eq same]

theorem Column.AllAlike.loadPrefixes {rows : Nat} : ∀ {columns others : List Column},
    AllAlike columns others →
    loadPrefixes (σ := σ) columns rows = loadPrefixes others rows
  | _, _, .nil => rfl
  | _, _, .cons first rest => by
    rw [loadPrefixes, loadPrefixes, Alike.loadPrefix first,
      AllAlike.loadPrefixes rest]

end

variable {s t : σ} {rows : Nat}

/-- A vector that is read in full has nothing of the earlier one. -/
theorem ColumnVector.runs_loadBody_congr {w : Nat} (old other : ColumnVector w)
    {data : ColumnVector w} :
    Runs (old.loadBody rows) s (true, data) t ↔ Runs (other.loadBody rows) s (true, data) t :=
  runs_loadBody_iff.trans runs_loadBody_iff.symm

/-- Two columns that count the rows of the type `Nothing` start from the same number. -/
def Leaf.SameCount : Leaf → Leaf → Prop
  | .nothing size, .nothing other => size % 2 ^ 64 = other % 2 ^ 64
  | _, _ => True

theorem Leaf.load_alike {fresh loaded : Leaf} (same : column.type = fresh.type)
    (run : Runs (column.loadBody rows) s (true, loaded) t) :
    ∃ loaded', Runs (fresh.loadBody rows) s (true, loaded') t ∧
      (loaded = loaded' ↔ column.SameCount fresh) := by
  cases column with
  | fixed type data =>
    cases fresh <;> simp only [Leaf.type, reduceCtorEq, LeafType.fixed.injEq] at same
    subst same
    obtain ⟨data', loads, rfl⟩ := (runs_load_map_iff (Leaf.fixed type) fun _ => rfl).mp run
    refine ⟨.fixed type data', ?_, by simp [Leaf.SameCount]⟩
    refine (runs_load_map_iff (Leaf.fixed type) fun _ => rfl).mpr ⟨data', ?_, rfl⟩
    exact (runs_loadBody_congr ..).mp loads
  | fixedString column =>
    cases fresh <;> simp only [Leaf.type, reduceCtorEq, LeafType.fixedString.injEq] at same
    rename_i fresh
    obtain ⟨bytes, length, read, rfl⟩ := FixedStrings.runs_loadBody_iff.mp run
    have size : column.loadSize rows = fresh.loadSize rows := by
      rw [FixedStrings.loadSize, FixedStrings.loadSize, same]
    rw [size] at length read
    refine ⟨.fixedString ⟨fresh.stringSize, bytes⟩, ?_, by simp [Leaf.SameCount, same]⟩
    exact FixedStrings.runs_loadBody_iff.mpr ⟨bytes, length, read, rfl⟩
  | string items =>
    cases fresh <;> simp only [Leaf.type, reduceCtorEq] at same
    obtain ⟨items', loads, rfl⟩ := (runs_load_map_iff Leaf.string fun _ => rfl).mp run
    refine ⟨.string items', ?_, by simp [Leaf.SameCount]⟩
    refine (runs_load_map_iff Leaf.string fun _ => rfl).mpr ⟨items', ?_, rfl⟩
    exact runs_loadStringBody_iff.mpr (runs_loadStringBody_iff.mp loads)
  | json items =>
    cases fresh <;> simp only [Leaf.type, reduceCtorEq] at same
    obtain ⟨items', loads, rfl⟩ := (runs_load_map_iff Leaf.json fun _ => rfl).mp run
    refine ⟨.json items', ?_, by simp [Leaf.SameCount]⟩
    refine (runs_load_map_iff Leaf.json fun _ => rfl).mpr ⟨items', ?_, rfl⟩
    exact runs_loadStringBody_iff.mpr (runs_loadStringBody_iff.mp loads)
  | nothing size =>
    cases fresh <;> simp only [Leaf.type, reduceCtorEq] at same
    rename_i other
    obtain ⟨skipped, skips, same⟩ := runs_bind_pure_iff.mp run
    cases same
    refine ⟨_, runs_bind_pure_iff.mpr ⟨skipped, skips, rfl⟩, ?_⟩
    simp only [Leaf.SameCount, Leaf.nothing.injEq]
    omega

theorem LowCardinality.loadKeys_eq {dictionary other : Dictionary}
    (same : dictionary.type = other.type) :
    loadKeys (σ := σ) dictionary rows = loadKeys other rows := by
  obtain ⟨data, nulls⟩ := Dictionary.type_eq same
  have flags (size : Nat) := map_const_of_isSome_eq nulls (nullFlags size)
  unfold loadKeys
  simp only [Leaf.cloneEmpty_eq data, flags]

variable [Hashing]

theorem LowCardinality.load_alike {column fresh loaded : LowCardinality}
    (same : column.dictionary.type = fresh.dictionary.type)
    (run : Runs (column.loadBody rows) s (true, loaded) t) :
    Runs (fresh.loadBody rows) s (true, loaded) t := by
  rw [runs_loadBody_iff] at run ⊢
  rwa [loadKeys_eq same] at run

theorem Adaptor.load_alike {fresh loaded : Leaf} (same : column.type = fresh.type)
    (run : Runs (Adaptor.loadBody column rows) s (true, loaded) t) :
    Runs (Adaptor.loadBody fresh rows) s (true, loaded) t := by
  unfold Adaptor.loadBody at run ⊢
  rw [Leaf.cloneEmpty_eq same] at run
  obtain ⟨made, m, makes, run⟩ := runs_bind_iff.mp run
  obtain ⟨lowCardinality, u, loads, run⟩ :=
    (runs_load_bind_iff (fun _ => column) fun _ => rfl).mp run
  refine runs_bind_iff.mpr ⟨made, m, makes, ?_⟩
  exact (runs_load_bind_iff (fun _ => fresh) fun _ => rfl).mpr ⟨lowCardinality, u, loads, run⟩

/-! ## What may be kept -/

mutual

/-- Loading `rows` rows from `s` into `column` keeps nothing that a fresh column would not have:
where a part is not loaded it is as in the fresh column, rows of `Nothing` are counted from the same
number, and the data of an array counts as many rows as are loaded. -/
def Column.KeepsNothing : Column → Column → Nat → σ → Prop
  | .leaf column, .leaf fresh, _, _ => column.SameCount fresh
  | .array data offsets, .array fresh freshOffsets, rows, s =>
    if rows = 0 then data = fresh ∧ offsets = freshOffsets
    else ∀ (read : ColumnVector 8) (m : σ), Runs (freshOffsets.loadBody rows) s (true, read) m →
      if getOffset read rows = 0 then data = fresh
      else fresh.loadedSize (getOffset read rows) = getOffset read rows ∧
        data.KeepsNothing fresh (getOffset read rows) m
  | .nullable nested _, .nullable fresh nulls, rows, s =>
    ∀ (read : ColumnVector 1) (m : σ), Runs (nulls.loadBody rows) s (true, read) m →
      nested.KeepsNothing fresh rows m
  | .tuple columns _, .tuple fresh _, rows, s => KeepNothing columns fresh rows s
  | .map data, .map fresh, rows, s => data.KeepsNothing fresh rows s
  | .geo _ data, .geo _ fresh, rows, s => data.KeepsNothing fresh rows s
  | _, _, _, _ => True

/-- The columns of a tuple are loaded one after the other. -/
def Column.KeepNothing : List Column → List Column → Nat → σ → Prop
  | column :: columns, fresh :: others, rows, s =>
    column.KeepsNothing fresh rows s ∧
      ∀ loaded m, Runs (fresh.loadBody rows) s (true, loaded) m →
        KeepNothing columns others rows m
  | _, _, _, _ => True

end

omit [Source Error σ] [Hashing] in
/-- What is required of every way to load is required of the one there is. -/
theorem forall_loaded_iff {α : Type} {p : EStateM Error σ (Bool × α)} {P : α → σ → Prop} {a : α}
    (run : Runs p s (true, a) t) : (∀ b u, Runs p s (true, b) u → P b u) ↔ P a t := by
  constructor
  · intro all
    exact all a t run
  · intro one b u other
    obtain ⟨same, rfl⟩ := run.unique other
    cases same
    exact one

/-- A load into `fresh` ends like one into `column`, and with the same well-formed column exactly
if nothing is kept. -/
def LoadsAlike (column fresh loaded : Column) (rows : Nat) (s t : σ) : Prop :=
  ∃ loaded', Runs (fresh.loadBody rows) s (true, loaded') t ∧
    (loaded = loaded' ∧ loaded'.OffsetsEnd ↔ column.KeepsNothing fresh rows s)

theorem Column.loadsAlike_array {data fresh : Column} {offsets : ColumnVector 8} {loaded : Column}
    (isEmpty : fresh.IsEmpty)
    (inner : ∀ {data' : Column} {count : Nat} {m : σ}, Runs (data.loadBody count) m (true, data') t →
      LoadsAlike data fresh data' count m t)
    (run : Runs ((array data offsets).loadBody rows) s (true, loaded) t) :
    LoadsAlike (.array data offsets) (.array fresh []) loaded rows s t := by
  rcases Nat.eq_zero_or_pos rows with rfl | positive
  · cases run
    have ends : (array fresh []).OffsetsEnd := ⟨isEmpty.size.symm, isEmpty.offsetsEnd⟩
    refine ⟨.array fresh [], rfl, ?_⟩
    rw [KeepsNothing, if_pos rfl, array.injEq]
    exact and_iff_left ends
  · obtain ⟨read, m, loads, rest⟩ := (runs_loadArray_iff positive).mp run
    rw [runs_loadBody_congr offsets []] at loads
    have length := (runs_loadBody_iff.mp loads).1
    unfold LoadsAlike
    rw [KeepsNothing, if_neg (Nat.ne_of_gt positive), forall_loaded_iff loads]
    by_cases none : getOffset read rows = 0
    · rw [if_pos none] at rest ⊢
      obtain ⟨rfl, rfl⟩ := rest
      have ends : (array fresh read).OffsetsEnd :=
        ⟨by rw [length, none, isEmpty.size], isEmpty.offsetsEnd⟩
      refine ⟨.array fresh read, (runs_loadArray_iff positive).mpr ⟨read, m, loads, ?_⟩, ?_⟩
      · rw [if_pos none]
        exact ⟨rfl, rfl⟩
      · rw [array.injEq]
        simp [ends]
    · rw [if_neg none] at rest ⊢
      obtain ⟨data', loadsData, rfl⟩ := rest
      obtain ⟨fresh', loadsFresh, same⟩ := inner loadsData
      refine ⟨.array fresh' read, (runs_loadArray_iff positive).mpr ⟨read, m, loads, ?_⟩, ?_⟩
      · rw [if_neg none]
        exact ⟨fresh', loadsFresh, rfl⟩
      · rw [← same, array.injEq, OffsetsEnd, length,
          size_loadBody isEmpty loadsFresh, eq_comm]
        tauto

theorem Column.loadsAlike_nullable {nested fresh : Column} {nulls : ColumnVector 1} {loaded : Column}
    (inner : ∀ {nested' : Column} {m : σ}, Runs (nested.loadBody rows) m (true, nested') t →
      LoadsAlike nested fresh nested' rows m t)
    (run : Runs ((nullable nested nulls).loadBody rows) s (true, loaded) t) :
    LoadsAlike (.nullable nested nulls) (.nullable fresh []) loaded rows s t := by
  obtain ⟨read, m, loads, nested', loadsNested, rfl⟩ := runs_loadNullable_iff.mp run
  rw [runs_loadBody_congr nulls []] at loads
  obtain ⟨fresh', loadsFresh, same⟩ := inner loadsNested
  refine ⟨.nullable fresh' read, runs_loadNullable_iff.mpr ⟨read, m, loads, fresh', loadsFresh, rfl⟩,
    ?_⟩
  rw [nullable.injEq, OffsetsEnd, KeepsNothing, forall_loaded_iff loads, ← same]
  simp

mutual

/-- Into whatever a column held, a load that returns true reads what a load into a fresh column of
the same classes reads. -/
theorem Column.Alike.loadsAlike : ∀ {column fresh loaded : Column} {rows : Nat} {s t : σ},
    column.Alike fresh → fresh.IsEmpty → Runs (column.loadBody rows) s (true, loaded) t →
    LoadsAlike column fresh loaded rows s t
  | _, _, _, _, _, _, .leaf same, isEmpty, run => by
    rw [loadBody] at run
    obtain ⟨loaded, loads, rfl⟩ := (runs_load_map_iff leaf fun _ => rfl).mp run
    obtain ⟨loaded', loadsFresh, counts⟩ := Leaf.load_alike same loads
    refine ⟨.leaf loaded', (runs_load_map_iff leaf fun _ => rfl).mpr ⟨_, loadsFresh, rfl⟩, ?_⟩
    rw [leaf.injEq, counts]
    exact and_iff_left trivial
  | _, _, _, _, _, _, .array alike, isEmpty, run => by
    obtain ⟨rfl, isEmpty⟩ := isEmpty
    exact loadsAlike_array isEmpty (Alike.loadsAlike alike isEmpty) run
  | _, _, _, _, _, _, .nullable alike, isEmpty, run => by
    obtain ⟨rfl, isEmpty⟩ := isEmpty
    exact loadsAlike_nullable (Alike.loadsAlike alike isEmpty) run
  | .tuple _ names, _, _, _, _, _, .tuple alike, isEmpty, run => by
    rw [loadBody] at run
    obtain ⟨loaded, loads, rfl⟩ := (runs_load_map_iff (tuple · names) fun _ => rfl).mp run
    obtain ⟨loaded', loadsFresh, same⟩ := AllAlike.loadAlike alike isEmpty loads
    refine ⟨.tuple loaded' names,
      (runs_load_map_iff (tuple · names) fun _ => rfl).mpr ⟨_, loadsFresh, rfl⟩, ?_⟩
    rw [tuple.injEq, OffsetsEnd, KeepsNothing, ← same]
    simp
  | _, _, _, _, _, _, .map alike, isEmpty, run => by
    rw [loadBody] at run
    obtain ⟨loaded, loads, rfl⟩ := (runs_load_map_iff map fun _ => rfl).mp run
    obtain ⟨loaded', loadsFresh, same⟩ := Alike.loadsAlike alike isEmpty loads
    refine ⟨.map loaded', (runs_load_map_iff map fun _ => rfl).mpr ⟨_, loadsFresh, rfl⟩, ?_⟩
    rwa [map.injEq, OffsetsEnd, KeepsNothing]
  | _, _, _, _, _, _, .lowCardinality same, _, run => by
    rw [loadBody] at run
    obtain ⟨loaded, loads, rfl⟩ := (runs_load_map_iff lowCardinality fun _ => rfl).mp run
    refine ⟨.lowCardinality loaded, (runs_load_map_iff lowCardinality fun _ => rfl).mpr
      ⟨_, LowCardinality.load_alike same loads, rfl⟩, ?_⟩
    simp [OffsetsEnd, KeepsNothing]
  | .geo kind _, _, _, _, _, _, .geo alike, isEmpty, run => by
    rw [loadBody] at run
    obtain ⟨loaded, loads, rfl⟩ := (runs_load_map_iff (geo kind) fun _ => rfl).mp run
    obtain ⟨loaded', loadsFresh, same⟩ := Alike.loadsAlike alike isEmpty loads
    refine ⟨.geo kind loaded',
      (runs_load_map_iff (geo kind) fun _ => rfl).mpr ⟨_, loadsFresh, rfl⟩, ?_⟩
    rw [geo.injEq, OffsetsEnd, KeepsNothing, ← same]
    simp
  | _, _, _, _, _, _, .adaptor same, _, run => by
    rw [loadBody] at run
    obtain ⟨loaded, loads, rfl⟩ := (runs_load_map_iff adaptor fun _ => rfl).mp run
    refine ⟨.adaptor loaded, (runs_load_map_iff adaptor fun _ => rfl).mpr
      ⟨_, Adaptor.load_alike same loads, rfl⟩, ?_⟩
    simp [OffsetsEnd, KeepsNothing]

theorem Column.AllAlike.loadAlike : ∀ {columns fresh loaded : List Column} {rows : Nat}
    {s t : σ}, AllAlike columns fresh → AllEmpty fresh →
    Runs (loadBodies columns rows) s (true, loaded) t →
    ∃ loaded', Runs (loadBodies fresh rows) s (true, loaded') t ∧
      (loaded = loaded' ∧ AllOffsetsEnd loaded' ↔ KeepNothing columns fresh rows s)
  | _, _, _, _, _, _, .nil, _, run => by
    cases run
    refine ⟨[], rfl, ?_⟩
    simp [AllOffsetsEnd, KeepNothing]
  | _, _, _, _, _, _, .cons first rest, isEmpty, run => by
    obtain ⟨column', m, loads, columns', loadsRest, rfl⟩ := runs_loadBodies_iff.mp run
    obtain ⟨fresh', loadsFresh, same⟩ := Alike.loadsAlike first isEmpty.1 loads
    obtain ⟨others', loadsOthers, sameRest⟩ :=
      AllAlike.loadAlike rest isEmpty.2 loadsRest
    refine ⟨fresh' :: others',
      runs_loadBodies_iff.mpr ⟨fresh', m, loadsFresh, others', loadsOthers, rfl⟩, ?_⟩
    rw [List.cons.injEq, AllOffsetsEnd, KeepNothing, forall_loaded_iff loadsFresh,
      ← same, ← sameRest]
    exact and_and_and_comm

end

/-! ## Replaced contents -/

/-- The rows that were asked for are there, all is as in a fresh column after the same load, and
the offsets of the arrays end where their data does. -/
structure Replaced (fresh loaded : Column) (rows : Nat) (s t : σ) : Prop where
  size : loaded.size = rows
  same : Runs (fresh.load rows) s (true, loaded) t
  offsetsEnd : loaded.OffsetsEnd

/-- A load that returns true replaces the contents of a column exactly if the class of the column
counts the rows that are loaded and nothing is kept after the prefix. -/
theorem replaced_iff {column fresh loaded : Column} (alike : column.Alike fresh)
    (isEmpty : fresh.IsEmpty) (run : Runs (column.load rows) s (true, loaded) t) :
    Replaced fresh loaded rows s t ↔
      fresh.loadedSize rows = rows ∧
        ∀ m, Runs (fresh.loadPrefix rows) s true m → column.KeepsNothing fresh rows m := by
  unfold load at run
  rw [alike.loadPrefix] at run
  obtain ⟨ok, m, loadsPrefix, loads⟩ := runs_bind_iff.mp run
  cases ok with
  | false => cases loads
  | true =>
    obtain ⟨loaded', loadsFresh, same⟩ := alike.loadsAlike isEmpty loads
    have size : loaded'.size = fresh.loadedSize rows := size_loadBody isEmpty loadsFresh
    have whole : Runs (fresh.load rows) s (true, loaded') t :=
      runs_bind_iff.mpr ⟨true, m, loadsPrefix, loadsFresh⟩
    constructor
    · intro replaced
      obtain ⟨equal, -⟩ := replaced.same.unique whole
      obtain ⟨-, rfl⟩ := Prod.mk.inj equal
      refine ⟨size.symm.trans replaced.size, ?_⟩
      intro m' loadsPrefix'
      obtain ⟨-, rfl⟩ := loadsPrefix.unique loadsPrefix'
      exact same.mp ⟨rfl, replaced.offsetsEnd⟩
    · rintro ⟨counts, kept⟩
      obtain ⟨rfl, ends⟩ := same.mpr (kept m loadsPrefix)
      exact ⟨size.trans counts, whole, ends⟩

end Loading

/-- `Array(UInt8)` with the row `[5]`. -/
def filledArray : Column := .array (.leaf (.fixed .uint8 [Word.ofNat 1 5])) [Word.ofNat 8 1]

theorem filledArray_alike : filledArray.Alike unloadedArray := .array (.leaf rfl)

theorem replaced_filledArray :
    letI : Hashing := LowCardinality.stringHashing
    ∃ loaded : Column, Replaced unloadedArray loaded 2
      (⟨writeFixedUInt 8 1 ++ (writeFixedUInt 8 2 ++ [7, 8])⟩ : ArrayInput) ⟨[]⟩ := by
  let _ : Hashing := LowCardinality.stringHashing
  have run : Runs (filledArray.load 2)
      (⟨writeFixedUInt 8 1 ++ (writeFixedUInt 8 2 ++ [7, 8])⟩ : ArrayInput)
      (true, .array (.leaf (.fixed .uint8 [Word.ofNat 1 7, Word.ofNat 1 8]))
        [Word.ofNat 8 1, Word.ofNat 8 2]) ⟨[]⟩ := rfl
  refine ⟨_, (replaced_iff filledArray_alike ⟨rfl, rfl⟩ run).mpr ⟨rfl, ?_⟩⟩
  intro m loadsPrefix
  cases loadsPrefix
  have loads : Runs (loadBody (w := 8) [] 2)
      (⟨writeFixedUInt 8 1 ++ (writeFixedUInt 8 2 ++ [7, 8])⟩ : ArrayInput)
      (true, [Word.ofNat 8 1, Word.ofNat 8 2]) ⟨[7, 8]⟩ := rfl
  intro read m loads'
  obtain ⟨same, rfl⟩ := loads.unique loads'
  cases same
  exact ⟨rfl, trivial⟩

/-- A column of `Nothing` counts the rows of both loads.  An array keeps its row when it is loaded
with no rows, and keeps its data when it is loaded with an empty row. -/
theorem not_replaced_filledArray :
    letI : Hashing := LowCardinality.stringHashing
    (Runs ((leaf (.nothing 2)).load 1) (⟨[0]⟩ : ArrayInput) (true, .leaf (.nothing 3)) ⟨[]⟩ ∧
      ¬ Replaced (.leaf (.nothing 0)) (.leaf (.nothing 3)) 1 (⟨[0]⟩ : ArrayInput) ⟨[]⟩) ∧
    (Runs (filledArray.load 0) (⟨[]⟩ : ArrayInput) (true, filledArray) ⟨[]⟩ ∧
      ¬ Replaced unloadedArray filledArray 0 (⟨[]⟩ : ArrayInput) ⟨[]⟩) ∧
    ∃ loaded, Runs (filledArray.load 1) (⟨writeFixedUInt 8 0⟩ : ArrayInput) (true, loaded) ⟨[]⟩ ∧
      loaded.size = 1 ∧ ¬ loaded.OffsetsEnd ∧
      ¬ Replaced unloadedArray loaded 1 (⟨writeFixedUInt 8 0⟩ : ArrayInput) ⟨[]⟩ := by
  let _ : Hashing := LowCardinality.stringHashing
  have emptyRow : Runs (filledArray.load 1) (⟨writeFixedUInt 8 0⟩ : ArrayInput)
      (true, .array (.leaf (.fixed .uint8 [Word.ofNat 1 5])) [Word.ofNat 8 0]) ⟨[]⟩ := rfl
  have apart : ¬ (array (.leaf (.fixed .uint8 [Word.ofNat 1 5])) [Word.ofNat 8 0]).OffsetsEnd :=
    fun ends => absurd ends.1 (by decide)
  refine ⟨⟨rfl, ?_⟩, ⟨rfl, ?_⟩, _, emptyRow, rfl, apart, ?_⟩
  · intro replaced
    exact absurd replaced.size (by decide)
  · intro replaced
    exact absurd replaced.size (by decide)
  · intro replaced
    exact apart replaced.offsetsEnd

end ClickHouse
