import ClickHouse.Columns.ReceivedIndexes
import ClickHouse.Columns.StringBlocks
import ClickHouse.Kit.Contract

/-!
# Calls that fail

`AppendUnsafe` changes three containers of a LowCardinality column and undoes
what it did when the last of them refuses the value.  `LoadBody` of a string or
LowCardinality column reads into new containers and puts them in place at the
end.  Both are modelled here one assignment at a time, down to the two columns
of a nullable dictionary and the blocks that the strings are in, so that what
a failure leaves behind is a matter of their order; they are shown to do what
the other modules take them to do.
-/

namespace ClickHouse

open Kit List Dictionary

/-! ## Appending to a dictionary -/

/-- `ColumnFixedString::Append`: the string is inserted, then filled up. -/
def FixedStrings.appendSteps (data : Bytes) : EStateM Error FixedStrings Unit := do
  let column ← get
  if data.length > column.stringSize then
    throw (.validationError (ascii "Expected string of length not greater than " ++
      toDecimal column.stringSize ++ ascii " bytes, received " ++ toDecimal data.length ++
      ascii " bytes."))
  else do
    modify fun column => { column with data := column.data ++ data }
    if data.length < column.stringSize then
      let paddingSize := column.stringSize - data.length
      modify fun column => { column with data := column.data ++ replicate paddingSize 0 }

theorem FixedStrings.appendSteps_eq (data : Bytes) :
    FixedStrings.appendSteps data = assigns (·.append data) := by
  refine eq_assigns (fun column column' ok => ?_) fun column e error => ?_
  · refine (runs_get column).bind ?_
    rw [FixedStrings.append] at ok
    split at ok
    · rename_i short
      cases ok
      rw [if_neg (Nat.not_lt.mpr short)]
      refine (runs_modify _ _).bind ?_
      by_cases shorter : data.length < column.stringSize
      · rw [if_pos shorter, padded, ← append_assoc]
        exact runs_modify _ _
      · rw [if_neg shorter, padded, show column.stringSize - data.length = 0 by omega,
          replicate_zero, append_nil]
        exact runs_pure () _
    · cases ok
  · refine (runs_get column).bind_throws ?_
    rw [FixedStrings.append] at error
    split at error
    · cases error
    · rename_i long
      cases error
      rw [if_pos (Nat.lt_of_not_le long)]
      exact throws_throw _ column

/-- `AppendToDictionary` for a dictionary that is not nullable. -/
def Leaf.appendSteps (item : ItemView) : EStateM Error Leaf Unit := fun leaf =>
  match leaf with
  | .fixedString column => embed Leaf.fixedString (FixedStrings.appendSteps item.data column)
  | leaf => assigns (appendToDictionary · item) leaf

theorem Leaf.appendSteps_eq (item : ItemView) :
    Leaf.appendSteps item = assigns (appendToDictionary · item) := by
  funext leaf
  cases leaf with
  | fixedString column =>
    show embed Leaf.fixedString (FixedStrings.appendSteps item.data column) = _
    rw [FixedStrings.appendSteps_eq]
    cases appended : column.append item.data with
    | ok column' =>
      have whole : appendToDictionary (.fixedString column) item = .ok (.fixedString column') := by
        rw [appendToDictionary, appended]
        rfl
      have run := runs_assigns (f := (FixedStrings.append · item.data)) appended
      rw [Runs] at run
      rw [run]
      exact (runs_assigns (f := (appendToDictionary · item)) whole).symm
    | error e =>
      have whole : appendToDictionary (.fixedString column) item = .error e := by
        rw [appendToDictionary, appended]
        rfl
      have thrown := throws_assigns (f := (FixedStrings.append · item.data)) appended
      rw [Throws] at thrown
      rw [thrown]
      exact (throws_assigns (f := (appendToDictionary · item)) whole).symm
  | _ => rfl

/-- What `AppendNullableToDictionary` gives to the nested column, after its check. -/
def Dictionary.nestedItem (dictionary : Dictionary) (item : ItemView) : Except Error ItemView :=
  if item.type = .void then zeroItemForDictionary dictionary.data.type.code
  else if dictionary.data.type.code ≠ item.type then
    .error (.validationError (ascii "Invalid value. Type expected: " ++
      dictionary.data.type.getName))
  else .ok item

/-- `AppendToDictionary`.  A nullable dictionary gets the value first and then its flag. -/
def Dictionary.appendSteps (item : ItemView) : EStateM Error Dictionary Unit := do
  let dictionary ← get
  match dictionary.nulls with
  | none => appendNested item
  | some _ => do
    let value ← ofExcept (dictionary.nestedItem item)
    appendNested value
    let isNullValue : Bool := item.type = .void
    modify fun dictionary => { dictionary with
      nulls := dictionary.nulls.map (· ++ [Word.ofNat 1 isNullValue.toNat]) }
where
  appendNested (item : ItemView) : EStateM Error Dictionary Unit :=
    zoom data (fun data dictionary => { dictionary with data := data })
      (Leaf.appendSteps item)

variable {dictionary : Dictionary}

theorem Dictionary.runs_appendNested {item : ItemView} {data : Leaf}
    (ok : appendToDictionary dictionary.data item = .ok data) :
    Runs (appendSteps.appendNested item) dictionary () { dictionary with data := data } := by
  unfold appendSteps.appendNested
  rw [Leaf.appendSteps_eq]
  exact (runs_assigns (f := (appendToDictionary · item)) ok).zoom

theorem Dictionary.throws_appendNested {item : ItemView} {e : Error}
    (error : appendToDictionary dictionary.data item = .error e) :
    Throws (appendSteps.appendNested item) dictionary e dictionary := by
  unfold appendSteps.appendNested
  rw [Leaf.appendSteps_eq]
  exact (throws_assigns (f := (appendToDictionary · item)) error).zoom

theorem Dictionary.append_nullable (data : Leaf) (nulls : ColumnVector 1) (item : ItemView) :
    append ⟨data, some nulls⟩ item =
      (nestedItem ⟨data, some nulls⟩ item).bind fun value =>
        (appendToDictionary data value).map fun data =>
          ⟨data, some (nulls ++ [Word.ofNat 1 (decide (item.type = .void)).toNat])⟩ := by
  rw [append, nestedItem]
  dsimp only
  by_cases null : item.type = .void
  · simp only [null, if_true, decide_true, Bool.toNat_true]
    rfl
  · simp only [null, if_false, decide_false, Bool.toNat_false]
    split <;> rfl

/-- The nested column and the null map grow together or not at all. -/
theorem Dictionary.appendSteps_eq (item : ItemView) :
    appendSteps item = assigns (·.append item) := by
  funext dictionary
  rcases dictionary with ⟨data, _ | nulls⟩
  · have whole : append ⟨data, none⟩ item =
        (appendToDictionary data item).map fun data => ⟨data, none⟩ := rfl
    cases appended : appendToDictionary data item with
    | ok data' =>
      rw [appended] at whole
      exact ((runs_get _).bind (runs_appendNested appended)).trans (runs_assigns whole).symm
    | error e =>
      rw [appended] at whole
      exact ((runs_get _).bind_throws (throws_appendNested appended)).trans
        (throws_assigns whole).symm
  · have whole := append_nullable data nulls item
    cases chosen : nestedItem ⟨data, some nulls⟩ item with
    | ok value =>
      rw [chosen] at whole
      cases appended : appendToDictionary data value with
      | ok data' =>
        rw [Except.bind, appended] at whole
        exact ((runs_get _).bind ((runs_ofExcept chosen _).bind
          ((runs_appendNested appended).bind (runs_modify _ _)))).trans (runs_assigns whole).symm
      | error e =>
        rw [Except.bind, appended] at whole
        exact ((runs_get _).bind_throws ((runs_ofExcept chosen _).bind_throws
          ((throws_appendNested appended).bind _))).trans (throws_assigns whole).symm
    | error e =>
      rw [chosen] at whole
      exact ((runs_get _).bind_throws ((throws_ofExcept chosen _).bind _)).trans
        (throws_assigns whole).symm

/-! ## Appending a value -/

namespace LowCardinality

variable [Hashing]

/-- `AppendUnsafe`, one assignment at a time. -/
def appendUnsafeSteps (value : ItemView) : EStateM Error LowCardinality Unit := do
  let key := value.hashKey
  let column ← get
  let initialIndexSize := column.index.column.length
  let found := column.uniqueItems.lookup key
  let position := found.getD column.dictionary.size
  let isNewItem := found.isNone
  set { column with uniqueItems := column.uniqueItems.emplace key column.dictionary.size }
  tryCatch (do
      modify fun column => column.appendIndex position
      if isNewItem then
        zoom LowCardinality.dictionary
          (fun dictionary column => { column with dictionary := dictionary })
          (appendSteps value))
    fun e => do
      let column ← get
      if column.index.column.length ≠ initialIndexSize then modify removeLastIndex
      if isNewItem then
        modify fun column => { column with uniqueItems := column.uniqueItems.erase key }
      throw e

theorem appendUnsafeSteps_eq (value : ItemView) : appendUnsafeSteps value = appendUnsafe value := by
  unfold appendUnsafeSteps appendUnsafe
  refine bind_congr fun column => bind_congr fun _ => ?_
  congr 1
  refine bind_congr fun _ => ?_
  congr 1
  -- What is left is the part on the dictionary.
  funext column
  rw [appendSteps_eq]
  have rest := (runs_get (ε := Error) column).bind_eq (β := Unit)
  cases appended : column.dictionary.append value with
  | ok dictionary =>
    refine (runs_assigns (f := (append · value)) appended).zoom.trans ?_
    rw [rest, appended]
    rfl
  | error e =>
    refine (throws_assigns (f := (append · value)) appended).zoom.trans ?_
    rw [rest, appended]
    rfl

/-- A value that is not taken changes nothing. -/
theorem atomic_appendUnsafeSteps (value : ItemView) : Atomic (appendUnsafeSteps value) := by
  rw [appendUnsafeSteps_eq]
  intro column e column' thrown
  cases found : column.uniqueItems.lookup value.hashKey with
  | some position => cases (runs_appendUnsafe_known found).symm.trans thrown
  | none =>
    cases appended : column.dictionary.append value with
    | ok dictionary => cases (runs_appendUnsafe_new found appended).symm.trans thrown
    | error e' =>
      cases (throws_appendUnsafe found appended).symm.trans thrown
      rfl

/-- `AppendUnsafe` that throws leaves the dictionary, the index and the map as they were, and once
it is caught, whatever is called next ends as if it had not been made. -/
theorem unchanged_of_throws_appendUnsafe {value : ItemView} {column column' : LowCardinality}
    {e : Error} (thrown : Throws (appendUnsafeSteps value) column e column') :
    column'.dictionary = column.dictionary ∧ column'.index = column.index ∧
      column'.uniqueItems = column.uniqueItems ∧
      ∀ later : EStateM Error LowCardinality Unit,
        ((tryCatch (appendUnsafeSteps value) fun _ => pure ()) >>= fun _ => later) column =
          later column := by
  have atomic := atomic_appendUnsafeSteps value
  have unchanged := atomic column e column' thrown
  refine ⟨?_, ?_, ?_, atomic.caught thrown ()⟩
  all_goals rw [unchanged]

/-- Appends of which some throw and are caught leave the column of those that returned. -/
theorem runs_accepted_appends (column : LowCardinality) (values : List ItemView) :
    Runs ((accepted appendUnsafeSteps column values).forM appendUnsafeSteps) column ()
      (values.foldl (fun column value => after (appendUnsafeSteps value) column) column) :=
  runs_accepted atomic_appendUnsafeSteps column values

/-- `LowCardinality(Nullable(FixedString(3)))` with the row `'ab\0'`. -/
def sampleFixedStrings : LowCardinality :=
  ⟨⟨.fixedString ⟨3, [0, 0, 0, 0, 0, 0, 97, 98, 0]⟩, some (nullFlags 3)⟩,
    ⟨.uint32, [Word.ofNat 4 2]⟩, [((0, 0), 0)]⟩

omit [Hashing] in
theorem unchanged_of_throws_appendUnsafe_long :
    letI : Hashing := stringHashing
    ∃ e column', Throws (appendUnsafeSteps ⟨.fixedString, [97, 98, 99, 100]⟩) sampleFixedStrings e
        column' ∧
      column'.dictionary = sampleFixedStrings.dictionary ∧
      column'.index = sampleFixedStrings.index ∧
      column'.uniqueItems = sampleFixedStrings.uniqueItems ∧
      ∀ later : EStateM Error LowCardinality Unit,
        ((tryCatch (appendUnsafeSteps ⟨.fixedString, [97, 98, 99, 100]⟩) fun _ => pure ()) >>=
          fun _ => later) sampleFixedStrings = later sampleFixedStrings := by
  let _ : Hashing := stringHashing
  have thrown : Throws (appendUnsafeSteps ⟨.fixedString, [97, 98, 99, 100]⟩) sampleFixedStrings _ _ :=
    rfl
  exact ⟨_, _, thrown, unchanged_of_throws_appendUnsafe thrown⟩

end LowCardinality

/-! ## Loading strings -/

namespace StringColumn

variable {σ : Type} [Source Error σ]

/-- `ColumnString::LoadBody` on the column and the input: what it returns, if nothing is placed
outside a block. -/
def loadBodySteps (rows : Nat) : EStateM Error (StringColumn × σ) (Option Bool) :=
  if rows = 0 then do
    onFirst (modify fun column => { column with items := [] })
    onFirst (modify fun column => { column with blocks := [] })
    pure (some true)
  else do
    match ← onSecond (loadRows rows ⟨[], [.ofCapacity defaultBlockSize], []⟩) with
    | .done new => do
      onFirst (modify fun column => { column with items := new.items })
      onFirst (modify fun column => { column with blocks := new.blocks })
      pure (some true)
    | .failed => pure (some false)
    | .overrun => pure none

/-- The assignments one after the other make the column that `loadBody` returns. -/
theorem loadBodySteps_refines {rows : Nat} {column column' : StringColumn} {s t : σ} {ok : Bool}
    (run : Runs (loadBodySteps rows) (column, s) (some ok) (column', t)) :
    Runs (loadBody rows column) s (some column') t ∧ (ok = false → column' = column) := by
  unfold loadBodySteps at run
  unfold loadBody
  by_cases none : rows = 0
  · rw [if_pos none] at run ⊢
    cases run
    exact ⟨runs_pure _ s, nofun⟩
  · rw [if_neg none] at run ⊢
    obtain ⟨loaded, _, read, run⟩ := runs_bind_iff.mp run
    obtain ⟨s', reads, rfl⟩ := read.of_onSecond
    cases loaded with
    | done new =>
      cases run
      exact ⟨reads.bind (runs_pure _ s'), nofun⟩
    | failed =>
      cases run
      exact ⟨reads.bind (runs_pure _ _), fun _ => rfl⟩
    | overrun => cases run

end StringColumn

/-! ## Loading LowCardinality columns -/

section Loading

variable {σ : Type} [Source Error σ] [Hashing]

/-- `Swap` of two dictionary columns.  The null maps are swapped after the nested columns. -/
def Dictionary.swapSteps : EStateM Error (Dictionary × Dictionary) Unit := do
  let (dictionary, other) ← get
  match dictionary.nulls, other.nulls with
  | none, none => swapData
  | some _, some _ =>
    if (Ty.leaf dictionary.data.type).isEqual (.leaf other.data.type) then do
      swapData
      modify fun (dictionary, other) =>
        (⟨dictionary.data, other.nulls⟩, ⟨other.data, dictionary.nulls⟩)
    else throw (.validationError (ascii "Can't swap() Nullable columns of different types."))
  | _, _ => throw .badCast
where
  swapData : EStateM Error (Dictionary × Dictionary) Unit := do
    let (dictionary, other) ← get
    let (data, data') ← ofExcept (dictionary.data.swap other.data)
    set ((⟨data, dictionary.nulls⟩, ⟨data', other.nulls⟩) : Dictionary × Dictionary)

omit [Hashing] in
theorem Dictionary.runs_swapData {left right : Dictionary}
    (same : left.data.type = right.data.type) :
    Runs swapSteps.swapData (left, right) () (⟨right.data, left.nulls⟩, ⟨left.data, right.nulls⟩) :=
  (runs_get _).bind ((runs_ofExcept (Leaf.swap_eq same) _).bind (runs_set _ _))

theorem Dictionary.runs_swapSteps {left right : Dictionary} (same : left.type = right.type) :
    Runs swapSteps (left, right) () (right, left) := by
  obtain ⟨data, nulls⟩ := type_eq same
  refine (runs_get _).bind ?_
  rcases left with ⟨leftData, _ | leftNulls⟩ <;> rcases right with ⟨rightData, _ | rightNulls⟩
  · exact runs_swapData data
  · cases nulls
  · cases nulls
  · dsimp only at data ⊢
    rw [data, Ty.isEqual_self, if_pos rfl]
    exact (runs_swapData data).bind (runs_modify _ _)

namespace LowCardinality

/-- `ColumnLowCardinality::LoadBody` on the column and the input. -/
def loadBodySteps (rows : Nat) : EStateM Error (LowCardinality × σ) Bool :=
  tryCatch (do
    let (column, _) ← get
    let new ← onSecond (load column.dictionary rows)
    onFirst (zoom (fun column => (column.dictionary, new.dictionary))
      (fun both column => { column with dictionary := both.1 }) swapSteps)
    onFirst (modify fun column => { column with index := new.index })
    onFirst (modify fun column => { column with uniqueItems := new.uniqueItems })
    pure true)
  fun _ => pure false

theorem type_of_runs_load {rows : Nat} {s t : σ} {loaded : LowCardinality}
    (run : Runs (load dictionary rows) s loaded t) : loaded.dictionary.type = dictionary.type := by
  obtain ⟨keys, m, ranKeys, ranIndex⟩ := runs_bind_iff.mp run
  obtain ⟨bytes, -, rfl⟩ := runs_loadIndex_iff.mp ranIndex
  obtain ⟨_, _, _, _, _, loads, nulls, _⟩ := runs_loadKeys ranKeys
  refine type_mk ?_ ?_
  · rw [Leaf.type_loadBody loads, Leaf.type_cloneEmpty]
  · rw [nulls, Option.isSome_map]

/-- The columns are only put in place once nothing can fail any more. -/
theorem loadBodySteps_refines (rows : Nat) (column : LowCardinality) (s : σ) :
    (∃ loaded t, Runs (column.loadBody rows) s (true, loaded) t ∧
      Runs (loadBodySteps rows) (column, s) true (loaded, t)) ∨
    ∃ t, Runs (column.loadBody rows) s (false, column) t ∧
      Runs (loadBodySteps rows) (column, s) false (column, t) := by
  cases ended : load column.dictionary rows s with
  | ok loaded t =>
    have same := (type_of_runs_load ended).symm
    have swapped : Runs (zoom (fun column : LowCardinality => (column.dictionary, loaded.dictionary))
        (fun both column => { column with dictionary := both.1 }) swapSteps) column ()
        { column with dictionary := loaded.dictionary } := by
      have both := runs_swapSteps same
      unfold Runs zoom
      rw [both]
    refine .inl ⟨loaded, t, runs_loadBody.1 loaded ended, Runs.tryCatch ?_ _⟩
    refine (runs_get _).bind ((Runs.onSecond ended column).bind ((swapped.onFirst t).bind ?_))
    exact ((runs_modify _ _).onFirst t).bind (((runs_modify _ _).onFirst t).bind (runs_pure _ _))
  | error e t =>
    refine .inr ⟨t, runs_loadBody.2 e ended, Throws.tryCatch_runs (e := e) ?_ (runs_pure _ _)⟩
    exact (runs_get _).bind_throws ((Throws.onSecond ended column).bind _)

theorem unchanged_loadBodySteps {rows : Nat} {column column' : LowCardinality} {s t : σ}
    (run : Runs (loadBodySteps rows) (column, s) false (column', t)) : column' = column := by
  rcases loadBodySteps_refines rows column s with ⟨_, _, _, other⟩ | ⟨_, _, other⟩
  · cases other.symm.trans run
  · cases other.symm.trans run
    rfl

end LowCardinality

/-- Whatever the column holds and whatever the input delivers, a `LoadBody` that returns false leaves
the rows of a string column as they were, and all of a LowCardinality column. -/
theorem unchanged_of_failed_load (rows : Nat) (s t : σ) :
    (∀ column column' : StringColumn,
      Runs (StringColumn.loadBodySteps rows) (column, s) (some false) (column', t) →
        column' = column ∧ column'.rows = column.rows) ∧
    ∀ column column' : LowCardinality,
      Runs (LowCardinality.loadBodySteps rows) (column, s) false (column', t) →
        column'.dictionary = column.dictionary ∧ column'.index = column.index ∧
          column'.uniqueItems = column.uniqueItems ∧ ∀ n, column'.at? n = column.at? n := by
  constructor
  · intro column column' run
    have unchanged := (StringColumn.loadBodySteps_refines run).2 rfl
    exact ⟨unchanged, congrArg StringColumn.rows unchanged⟩
  · intro column column' run
    rw [LowCardinality.unchanged_loadBodySteps run]
    exact ⟨rfl, rfl, rfl, fun _ => rfl⟩

end Loading

theorem unchanged_of_failed_load_truncated :
    letI : Hashing := LowCardinality.stringHashing
    (∃ column' t, Runs (StringColumn.loadBodySteps 2) (.ofMovedStrings [⟨[120], by decide⟩],
        (⟨[1, 97, 2, 98]⟩ : ArrayInput)) (some false) (column', t) ∧ column'.rows = [[120]]) ∧
    ∃ column' t, Runs (LowCardinality.loadBodySteps 2) (loadedStrings [1, 0],
        (⟨sampleKeys.take 18⟩ : ArrayInput)) false (column', t) ∧
      column'.dictionary = (loadedStrings [1, 0]).dictionary := by
  let _ : Hashing := LowCardinality.stringHashing
  have strings : Runs (StringColumn.loadBodySteps 2) (.ofMovedStrings [⟨[120], by decide⟩],
      (⟨[1, 97, 2, 98]⟩ : ArrayInput)) (some false) (.ofMovedStrings [⟨[120], by decide⟩], ⟨[]⟩) := rfl
  have failed : Runs ((loadedStrings [1, 0]).loadBody 2) (⟨sampleKeys.take 18⟩ : ArrayInput)
      (false, loadedStrings [1, 0]) ⟨[]⟩ := rfl
  refine ⟨⟨_, _, strings, ((unchanged_of_failed_load 2 _ _).1 _ _ strings).2⟩, ?_⟩
  rcases LowCardinality.loadBodySteps_refines 2 (loadedStrings [1, 0])
      (⟨sampleKeys.take 18⟩ : ArrayInput) with ⟨_, _, loads, -⟩ | ⟨t, -, keys⟩
  · cases failed.symm.trans loads
  · exact ⟨_, t, keys, ((unchanged_of_failed_load 2 _ _).2 _ _ keys).1⟩

end ClickHouse
