import ClickHouse.Columns.ReceivedIndexes
import ClickHouse.Columns.Soundness
import ClickHouse.Kit.Runs
import ClickHouse.Kit.Simulation

/-!
# The blocks of string columns

`ColumnString` copies its strings into blocks of a fixed capacity and keeps
views of them.  `AppendUnsafe` and the loop of `LoadBody` place bytes without a
check of their own.  Here every placement is checked: an operation that would
place bytes behind the end of a block, or without a block, has no result.  The
operations refine those of plain lists of strings, which is what it means that
the strings already stored keep their contents.
-/

namespace ClickHouse

open Kit List Operation

/-- `DEFAULT_BLOCK_SIZE` -/
def defaultBlockSize : Nat := 4096

/-- A `std::string_view` or `std::string` that is given to a column: its length is a `size_t`. -/
abbrev StringView := { data : Bytes // data.length < 2 ^ 64 }

/-- `ColumnString::Block` with the `size` bytes of it that are in use. -/
structure StringColumn.Block where
  capacity : Nat
  data : Bytes
  fits : data.length ≤ capacity

/-- A view of `items_`: bytes of a block, a string of `append_data_`, or bytes that the column does
not own. -/
inductive StringColumn.View
  | inBlock (block start length : Nat)
  | inAppendData (n : Nat)
  | elsewhere (data : StringView)

/-- The members of `ColumnString`. -/
structure StringColumn where
  items : List StringColumn.View
  blocks : List StringColumn.Block
  appendData : List StringView

namespace StringColumn

/-- The bytes that are seen through a view. -/
def View.bytes (column : StringColumn) : View → Bytes
  | .inBlock block start length =>
    match column.blocks[block]? with
    | some block => (block.data.drop start).take length
    | none => []
  | .inAppendData n => ((column.appendData[n]?).map Subtype.val).getD []
  | .elsewhere data => data.1

def rows (column : StringColumn) : List Bytes := column.items.map (View.bytes column)

/-! ## Placing bytes -/

def Block.ofCapacity (capacity : Nat) : Block := ⟨capacity, [], Nat.zero_le _⟩

def Block.getAvailable (block : Block) : Nat := block.capacity - block.data.length

/-- The block with more bytes in use. -/
def Block.filled (block : Block) (str : Bytes)
    (room : block.data.length + str.length ≤ block.capacity) : Block :=
  ⟨block.capacity, block.data ++ str, by rw [length_append]; exact room⟩

/-- `Block::AppendUnsafe`, if the bytes fit. -/
def Block.appendUnsafe (block : Block) (str : Bytes) : Option Block :=
  if room : block.data.length + str.length ≤ block.capacity then some (block.filled str room)
  else none

/-- `ColumnString::AppendUnsafe`, if there is a block and the bytes fit. -/
def appendUnsafe (str : Bytes) (column : StringColumn) : Option StringColumn := do
  let block ← column.blocks.getLast?
  let filled ← block.appendUnsafe str
  pure { column with
    items := column.items ++ [.inBlock (column.blocks.length - 1) block.data.length str.length]
    blocks := column.blocks.dropLast ++ [filled] }

/-- `blocks_.size() == 0 || blocks_.back().GetAvailable() < len` -/
def lacksRoom (column : StringColumn) (len : Nat) : Bool :=
  match column.blocks.getLast? with
  | none => true
  | some block => decide (block.getAvailable < len)

/-- A new block if the last one has no room for `len` bytes. -/
def makeRoom (len : Nat) (column : StringColumn) : StringColumn :=
  if column.lacksRoom len then
    { column with blocks := column.blocks ++ [.ofCapacity (max defaultBlockSize len)] }
  else column

/-- The strings one after the other, through `AppendUnsafe`. -/
def appendAllUnsafe (strings : List Bytes) (column : StringColumn) : Option StringColumn :=
  strings.foldlM (fun column str => column.appendUnsafe str) column

/-- `ComputeTotalSize`, a sum in `size_t`. -/
def computeTotalSize (strings : List Bytes) : Nat :=
  strings.foldl (fun result str => (result + str.length) % 2 ^ 64) 0

/-! ## Constructors, Append, Slice, Clear and Swap -/

/-- `ColumnString()`, `ColumnString(size_t)` and `CloneEmpty`. -/
def empty : StringColumn := ⟨[], [], []⟩

/-- `ColumnString(const std::vector<std::string>&)` -/
def ofStrings (data : List StringView) : Option StringColumn :=
  appendAllUnsafe (data.map Subtype.val)
    ⟨[], [.ofCapacity (computeTotalSize (data.map Subtype.val))], []⟩

/-- `Append(std::string&&)` -/
def appendMoved (str : StringView) (column : StringColumn) : StringColumn :=
  { column with
    items := column.items ++ [.inAppendData column.appendData.length]
    appendData := column.appendData ++ [str] }

/-- `ColumnString(std::vector<std::string>&&)` -/
def ofMovedStrings (data : List StringView) : StringColumn :=
  data.foldl (fun column str => column.appendMoved str) empty

/-- `Append(std::string_view)` -/
def append (str : StringView) (column : StringColumn) : Option StringColumn :=
  (column.makeRoom str.1.length).appendUnsafe str.1

/-- What `strlen` counts. -/
def cString (str : StringView) : StringView :=
  ⟨str.1.takeWhile (· ≠ 0), Nat.lt_of_le_of_lt (List.takeWhile_prefix _).length_le str.2⟩

/-- `Append(const char*)` -/
def appendCString (str : StringView) (column : StringColumn) : Option StringColumn :=
  column.append (cString str)

/-- `AppendNoManagedLifetime` -/
def appendNoManagedLifetime (str : StringView) (column : StringColumn) : StringColumn :=
  { column with items := column.items ++ [.elsewhere str] }

/-- `Append(ColumnRef)` of another column. -/
def appendColumn (source column : StringColumn) : Option StringColumn :=
  (column.makeRoom (computeTotalSize source.rows)).appendAllUnsafe source.rows

/-- The strings one after the other, through `Append`. -/
def appendAll (strings : List Bytes) (column : StringColumn) : Option StringColumn :=
  strings.foldlM (fun column str => (column.makeRoom str.length).appendUnsafe str) column

/-- `Slice` -/
def slice (start len : Nat) (column : StringColumn) : Option StringColumn :=
  if start < column.items.length then
    let strings := (column.rows.drop start).take (min len (column.items.length - start))
    appendAll strings ⟨[], [.ofCapacity (computeTotalSize strings)], []⟩
  else some empty

/-! ## LoadBody -/

section Loading

variable {σ : Type} [Source Error σ]

/-- How the loop of `LoadBody` ends. -/
inductive Loaded
  | done (new : StringColumn)
  | failed
  | overrun

/-- The loop of `LoadBody`, with `new_items` and `new_blocks`.  The bytes are read into the block
before they count as used. -/
def loadRows : Nat → StringColumn → EStateM Error σ Loaded
  | 0, new => pure (.done new)
  | rows + 1, new => do
    match ← readUInt64 with
    | none => pure .failed
    | some len =>
      let roomy := new.makeRoom len
      if roomy.lacksRoom len then pure .overrun
      else
        match ← readFixed len with
        | none => pure .failed
        | some data =>
          match roomy.appendUnsafe data with
          | none => pure .overrun
          | some new => loadRows rows new

/-- `LoadBody`: the column afterwards, if nothing is placed outside a block. -/
def loadBody (rows : Nat) (column : StringColumn) : EStateM Error σ (Option StringColumn) :=
  if rows = 0 then pure (some { column with items := [], blocks := [] })
  else do
    match ← loadRows rows ⟨[], [.ofCapacity defaultBlockSize], []⟩ with
    | .done new => pure (some { column with items := new.items, blocks := new.blocks })
    | .failed => pure (some column)
    | .overrun => pure none

end Loading

/-! ## Columns that are used together -/

/-- Calls on columns, which are known by their positions.  `Append` is given another column. -/
inductive Operation (σ : Type)
  | create
  | ofStrings (data : List StringView)
  | ofMovedStrings (data : List StringView)
  | append (n : Nat) (str : StringView)
  | appendCString (n : Nat) (str : StringView)
  | appendMoved (n : Nat) (str : StringView)
  | appendNoManagedLifetime (n : Nat) (str : StringView)
  | appendColumn (n source : Nat) (distinct : source ≠ n)
  | loadBody (n rows : Nat) (input : σ)
  | slice (n start len : Nat)
  | clear (n : Nat)
  | swap (n other : Nat)

/-- A change to the column at the position, if there is one. -/
def change (columns : List StringColumn) (n : Nat) (f : StringColumn → Option StringColumn) :
    Option (List StringColumn) :=
  match columns[n]? with
  | none => some columns
  | some column => (f column).map (columns.set n)

section Operations

variable {σ : Type} [Source Error σ]

/-- The column after `LoadBody`; an exception leaves it as it was. -/
def afterLoad (column : StringColumn) :
    EStateM.Result Error σ (Option StringColumn) → Option StringColumn
  | .ok loaded _ => loaded
  | .error _ _ => some column

/-- The columns after a call; `none` if bytes were placed outside a block.  What a call makes is
the last column. -/
def Operation.apply (columns : List StringColumn) : Operation σ → Option (List StringColumn)
  | .create => some (columns ++ [empty])
  | .ofStrings data => (StringColumn.ofStrings data).map fun made => columns ++ [made]
  | .ofMovedStrings data => some (columns ++ [StringColumn.ofMovedStrings data])
  | .append n str => change columns n (StringColumn.append str)
  | .appendCString n str => change columns n (StringColumn.appendCString str)
  | .appendMoved n str => change columns n fun column => some (column.appendMoved str)
  | .appendNoManagedLifetime n str =>
    change columns n fun column => some (column.appendNoManagedLifetime str)
  | .appendColumn n source _ =>
    match columns[source]? with
    | none => some columns
    | some source => change columns n (StringColumn.appendColumn source)
  | .loadBody n rows input =>
    change columns n fun column => column.afterLoad (StringColumn.loadBody rows column input)
  | .slice n start len =>
    match columns[n]? with
    | none => some columns
    | some column => (column.slice start len).map fun made => columns ++ [made]
  | .clear n => change columns n fun _ => some empty
  | .swap n other =>
    match columns[n]?, columns[other]? with
    | some column, some column' => some ((columns.set n column').set other column)
    | _, _ => some columns

/-- The state after a call.  Nothing is said about calls after one without a result. -/
def step (columns : List StringColumn) (operation : Operation σ) : List StringColumn :=
  (operation.apply columns).getD columns

/-! ### The same calls on plain lists of strings -/

/-- The strings after `LoadBody`. -/
def plainAfterLoad (items : List Bytes) : EStateM.Result Error σ (Bool × List Bytes) → List Bytes
  | .ok loaded _ => loaded.2
  | .error _ _ => items

/-- What a call is meant to do; the lists are the items of `Leaf.string`. -/
def Operation.plain (lists : List (List Bytes)) : Operation σ → List (List Bytes)
  | .create => lists ++ [[]]
  | .ofStrings data => lists ++ [data.map Subtype.val]
  | .ofMovedStrings data => lists ++ [data.map Subtype.val]
  | .append n str => lists.modify n (· ++ [str.1])
  | .appendCString n str => lists.modify n (· ++ [str.1.takeWhile (· ≠ 0)])
  | .appendMoved n str => lists.modify n (· ++ [str.1])
  | .appendNoManagedLifetime n str => lists.modify n (· ++ [str.1])
  | .appendColumn n source _ => lists.modify n (· ++ (lists[source]?).getD [])
  | .loadBody n rows input =>
    lists.modify n fun items => plainAfterLoad items (ColumnString.loadBody items rows input)
  | .slice n start len => lists ++ ((lists[n]?).map fun items => (items.drop start).take len).toList
  | .clear n => lists.modify n fun _ => []
  | .swap n other =>
    match lists[n]?, lists[other]? with
    | some items, some items' => (lists.set n items').set other items
    | _, _ => lists

/-- Every placement of the call is inside a block, and the columns hold the strings that they are
meant to hold. -/
def Places (columns : List StringColumn) (operation : Operation σ) : Prop :=
  ∃ columns', operation.apply columns = some columns' ∧
    columns'.map rows = operation.plain (columns.map rows)

/-- How many bytes the strings have, in any number. -/
def totalLength (strings : List Bytes) : Nat := (strings.map length).sum

/-- The strings that are copied into one block are fewer bytes than `size_t` has values. -/
def Countable (columns : List StringColumn) : Operation σ → Prop
  | .ofStrings data => totalLength (data.map Subtype.val) < 2 ^ 64
  | .appendColumn n source _ => ∀ column source', columns[n]? = some column →
    columns[source]? = some source' → totalLength source'.rows < 2 ^ 64
  | _ => True

end Operations

/-! ## Columns whose views are right -/

/-- The bytes of the view are in use. -/
def View.Inside (column : StringColumn) : View → Prop
  | .inBlock block start length =>
    ∃ found, column.blocks[block]? = some found ∧ start + length ≤ found.data.length
  | .inAppendData n => n < column.appendData.length
  | .elsewhere _ => True

structure WellFormed (column : StringColumn) : Prop where
  inside : ∀ view ∈ column.items, view.Inside column
  small : ∀ block ∈ column.blocks, block.capacity < 2 ^ 64

/-- Every block is still there and may have got more bytes, and so are the strings that were
moved into the column. -/
structure Extends (column column' : StringColumn) : Prop where
  blocks : ∀ (n : Nat) (block : Block), column.blocks[n]? = some block →
    ∃ block' : Block, column'.blocks[n]? = some block' ∧ block.data <+: block'.data
  appendData : column.appendData <+: column'.appendData

variable {column column' made : StringColumn} {view : View} {free : Nat} {str : Bytes}

theorem View.inside_of_extends (inside : view.Inside column) (more : Extends column column') :
    view.Inside column' := by
  cases view with
  | elsewhere data => trivial
  | inAppendData n => exact Nat.lt_of_lt_of_le inside more.appendData.length_le
  | inBlock n start length =>
    obtain ⟨block, found, fits⟩ := inside
    obtain ⟨block', found', data⟩ := more.blocks n block found
    exact ⟨block', found', fits.trans data.length_le⟩

/-- What a view shows does not change when strings are added after it. -/
theorem View.bytes_of_extends (inside : view.Inside column) (more : Extends column column') :
    view.bytes column' = view.bytes column := by
  cases view with
  | elsewhere data => rfl
  | inAppendData n =>
    obtain ⟨rest, data⟩ := more.appendData
    rw [View.bytes, View.bytes, ← data, getElem?_append_left inside]
  | inBlock n start length =>
    obtain ⟨block, found, fits⟩ := inside
    obtain ⟨block', found', rest, data⟩ := more.blocks n block found
    simp only [View.bytes, found, found']
    rw [← data, drop_append_of_le_length (by omega), take_append_of_le_length]
    rw [length_drop]
    omega

/-- One more view on a column that was extended. -/
theorem WellFormed.addItem (wellFormed : column.WellFormed) (more : Extends column column')
    (items : column'.items = column.items ++ [view]) (inside : view.Inside column')
    (small : ∀ block ∈ column'.blocks, block.capacity < 2 ^ 64) :
    column'.WellFormed ∧ column'.rows = column.rows ++ [view.bytes column'] := by
  constructor
  · refine ⟨?_, small⟩
    intro other mem
    rw [items] at mem
    rcases mem_append.mp mem with mem | mem
    · exact View.inside_of_extends (wellFormed.inside other mem) more
    · rw [mem_singleton.mp mem]
      exact inside
  · rw [rows, items, map_append, map_singleton, rows]
    congr 1
    exact map_congr_left fun other mem =>
      View.bytes_of_extends (wellFormed.inside other mem) more

/-! ### Room in the last block -/

/-- How many bytes the last block can take, if there is one. -/
def available (column : StringColumn) : Option Nat := column.blocks.getLast?.map Block.getAvailable

theorem lacksRoom_eq_false_iff {len : Nat} :
    column.lacksRoom len = false ↔ ∃ free, column.available = some free ∧ len ≤ free := by
  rw [lacksRoom, available]
  cases column.blocks.getLast? with
  | none => simp
  | some block => simp

theorem WellFormed.available_lt (wellFormed : column.WellFormed)
    (isFree : column.available = some free) : free < 2 ^ 64 := by
  obtain ⟨block, last, rfl⟩ := Option.map_eq_some_iff.mp isFree
  have small := wellFormed.small block (mem_of_getLast? last)
  rw [Block.getAvailable]
  omega

theorem WellFormed.makeRoom (wellFormed : column.WellFormed) {len : Nat} (small : len < 2 ^ 64) :
    (column.makeRoom len).WellFormed ∧ (column.makeRoom len).rows = column.rows ∧
      ∃ free, (column.makeRoom len).available = some free ∧ len ≤ free := by
  rw [StringColumn.makeRoom]
  split
  · have more : Extends column { column with
        blocks := column.blocks ++ [.ofCapacity (max defaultBlockSize len)] } := by
      refine ⟨?_, List.prefix_rfl⟩
      intro n block found
      obtain ⟨below, -⟩ := List.getElem?_eq_some_iff.mp found
      exact ⟨block, by rw [List.getElem?_append_left below, found], List.prefix_rfl⟩
    refine ⟨⟨?_, ?_⟩, ?_, ?_⟩
    · intro view mem
      exact View.inside_of_extends (wellFormed.inside view mem) more
    · intro block mem
      rcases List.mem_append.mp mem with mem | mem
      · exact wellFormed.small block mem
      · rw [List.mem_singleton.mp mem, Block.ofCapacity, defaultBlockSize]
        dsimp only
        omega
    · exact List.map_congr_left fun view mem =>
        View.bytes_of_extends (wellFormed.inside view mem) more
    · refine ⟨max defaultBlockSize len, ?_, Nat.le_max_right ..⟩
      simp [available, Block.ofCapacity, Block.getAvailable]
  · rename_i roomy
    exact ⟨wellFormed, rfl, lacksRoom_eq_false_iff.mp (Bool.eq_false_iff.mpr roomy)⟩

theorem appendUnsafe_of_fits {block : Block} (last : column.blocks.getLast? = some block)
    (room : block.data.length + str.length ≤ block.capacity) :
    column.appendUnsafe str = some { column with
      items := column.items ++ [.inBlock (column.blocks.length - 1) block.data.length str.length]
      blocks := column.blocks.dropLast ++ [block.filled str room] } := by
  rw [appendUnsafe, last]
  simp only [Option.bind_eq_bind, Option.bind_some, Block.appendUnsafe, dif_pos room, pure]

/-- The last block with more bytes. -/
theorem extends_filled {block filled : Block} {items : List View}
    (last : column.blocks.getLast? = some block) (more : block.data <+: filled.data) :
    Extends column
      { column with items := items, blocks := column.blocks.dropLast ++ [filled] } := by
  refine ⟨?_, prefix_rfl⟩
  have split := dropLast_append_getLast? block last
  intro n found isBlock
  rw [← split] at isBlock
  rcases Nat.lt_trichotomy n column.blocks.dropLast.length with below | rfl | above
  · rw [getElem?_append_left below] at isBlock
    exact ⟨found, by rw [getElem?_append_left below, isBlock], prefix_rfl⟩
  · rw [getElem?_concat_length] at isBlock
    cases isBlock
    exact ⟨filled, getElem?_concat_length .., more⟩
  · rw [getElem?_eq_none] at isBlock
    · cases isBlock
    · rw [length_append, length_singleton]
      exact above

/-- Bytes that fit are placed after the others. -/
theorem WellFormed.appendUnsafe (wellFormed : column.WellFormed)
    (isFree : column.available = some free) (room : str.length ≤ free) :
    ∃ column', column.appendUnsafe str = some column' ∧ column'.WellFormed ∧
      column'.rows = column.rows ++ [str] ∧ column'.available = some (free - str.length) := by
  obtain ⟨block, last, rfl⟩ := Option.map_eq_some_iff.mp isFree
  have fits := block.fits
  have room' : block.data.length + str.length ≤ block.capacity := by
    rw [Block.getAvailable] at room
    omega
  have position : (column.blocks.dropLast ++ [block.filled str room'])[column.blocks.length - 1]? =
      some (block.filled str room') := by
    rw [← length_dropLast, getElem?_concat_length]
  have grows : block.data <+: (block.filled str room').data := prefix_append ..
  have more : Extends column { column with
      items := column.items ++ [.inBlock (column.blocks.length - 1) block.data.length str.length]
      blocks := column.blocks.dropLast ++ [block.filled str room'] } := extends_filled last grows
  have inside : (View.inBlock (column.blocks.length - 1) block.data.length str.length).Inside
      { column with
        items := column.items ++ [.inBlock (column.blocks.length - 1) block.data.length str.length]
        blocks := column.blocks.dropLast ++ [block.filled str room'] } :=
    ⟨_, position, Nat.le_of_eq (length_append).symm⟩
  have small : ∀ other ∈ column.blocks.dropLast ++ [block.filled str room'],
      other.capacity < 2 ^ 64 := by
    intro other mem
    rcases mem_append.mp mem with mem | mem
    · exact wellFormed.small other (dropLast_subset _ mem)
    · rw [mem_singleton.mp mem]
      exact wellFormed.small block (mem_of_getLast? last)
  obtain ⟨wellFormed', rows'⟩ := wellFormed.addItem more rfl inside small
  refine ⟨_, appendUnsafe_of_fits last room', wellFormed', rows'.trans ?_, ?_⟩
  · simp only [View.bytes, position]
    simp [Block.filled]
  · simp only [available, getLast?_concat, Option.map_some, Block.getAvailable, Block.filled,
      length_append]
    congr 1
    omega

theorem appendData_appendUnsafe (placed : column.appendUnsafe str = some column') :
    column'.appendData = column.appendData := by
  rw [StringColumn.appendUnsafe] at placed
  simp only [Option.bind_eq_bind, Option.bind_eq_some_iff, pure, Option.some.injEq] at placed
  obtain ⟨_, _, _, _, rfl⟩ := placed
  rfl

theorem appendData_makeRoom (column : StringColumn) (len : Nat) :
    (column.makeRoom len).appendData = column.appendData := by
  rw [StringColumn.makeRoom]
  split <;> rfl

theorem appendUnsafe_of_full (isFree : column.available = some free) (full : free < str.length) :
    column.appendUnsafe str = none := by
  obtain ⟨block, last, rfl⟩ := Option.map_eq_some_iff.mp isFree
  have lacks : ¬ block.data.length + str.length ≤ block.capacity := by
    rw [Block.getAvailable] at full
    omega
  rw [StringColumn.appendUnsafe, last]
  simp only [Option.bind_eq_bind, Option.bind_some, Block.appendUnsafe, dif_neg lacks,
    Option.bind_none]

/-! ### Several strings -/

theorem totalLength_cons (str : Bytes) (strings : List Bytes) :
    totalLength (str :: strings) = str.length + totalLength strings := by
  rw [totalLength, map_cons, sum_cons, totalLength]

theorem computeTotalSize_eq (strings : List Bytes) :
    computeTotalSize strings = totalLength strings % 2 ^ 64 := by
  suffices sums : ∀ (strings : List Bytes) (start : Nat),
      strings.foldl (fun result str => (result + str.length) % 2 ^ 64) (start % 2 ^ 64) =
        (start + totalLength strings) % 2 ^ 64 by
    have all := sums strings 0
    rwa [Nat.zero_add] at all
  intro strings
  induction strings with
  | nil => exact fun start => rfl
  | cons str strings ih =>
    intro start
    rw [foldl_cons, Nat.mod_add_mod, ih, totalLength_cons, Nat.add_assoc]

/-- Strings that fit into the last block are placed one after the other. -/
theorem WellFormed.appendAllUnsafe {strings : List Bytes} {column : StringColumn}
    (wellFormed : column.WellFormed) {free : Nat} (isFree : column.available = some free)
    (room : totalLength strings ≤ free) :
    ∃ column', column.appendAllUnsafe strings = some column' ∧ column'.WellFormed ∧
      column'.rows = column.rows ++ strings := by
  induction strings generalizing column free with
  | nil => exact ⟨column, rfl, wellFormed, (append_nil _).symm⟩
  | cons str strings ih =>
    rw [totalLength_cons] at room
    obtain ⟨middle, placed, wellFormed', first, isFree'⟩ :=
      wellFormed.appendUnsafe isFree (show str.length ≤ free by omega)
    obtain ⟨column', others, wellFormed'', rest⟩ := ih wellFormed' isFree' (by omega)
    refine ⟨column', ?_, wellFormed'', ?_⟩
    · rw [StringColumn.appendAllUnsafe, foldlM_cons, placed]
      exact others
    · rw [rest, first, append_assoc, singleton_append]

/-- Strings that do not fit are placed behind the end of the block. -/
theorem WellFormed.appendAllUnsafe_of_full {strings : List Bytes} (wellFormed : column.WellFormed)
    (isFree : column.available = some free) (full : free < totalLength strings) :
    column.appendAllUnsafe strings = none := by
  induction strings generalizing column free with
  | nil => exact absurd full (Nat.not_lt_zero _)
  | cons str strings ih =>
    rw [totalLength_cons] at full
    rw [StringColumn.appendAllUnsafe, foldlM_cons]
    rcases Nat.lt_or_ge free str.length with overrun | fits
    · rw [appendUnsafe_of_full isFree overrun]
      rfl
    · obtain ⟨middle, placed, wellFormed', _, isFree'⟩ := wellFormed.appendUnsafe isFree fits
      rw [placed]
      exact ih wellFormed' isFree' (by omega)

/-- One string that is given room. -/
theorem WellFormed.appendInRoom (wellFormed : column.WellFormed) (small : str.length < 2 ^ 64) :
    ∃ column', (column.makeRoom str.length).appendUnsafe str = some column' ∧
      column'.WellFormed ∧ column'.rows = column.rows ++ [str] := by
  obtain ⟨roomy, same, free, isFree, fits⟩ := wellFormed.makeRoom small
  obtain ⟨column', placed, wellFormed', rows', _⟩ := roomy.appendUnsafe isFree fits
  exact ⟨column', placed, wellFormed', by rw [rows', same]⟩

theorem WellFormed.appendAll {strings : List Bytes} {column : StringColumn}
    (wellFormed : column.WellFormed) (small : ∀ str ∈ strings, str.length < 2 ^ 64) :
    ∃ column', column.appendAll strings = some column' ∧ column'.WellFormed ∧
      column'.rows = column.rows ++ strings := by
  induction strings generalizing column with
  | nil => exact ⟨column, rfl, wellFormed, (append_nil _).symm⟩
  | cons str strings ih =>
    obtain ⟨middle, placed, wellFormed', first⟩ :=
      wellFormed.appendInRoom (small str (mem_cons_self ..))
    obtain ⟨column', others, wellFormed'', rest⟩ :=
      ih wellFormed' fun other mem => small other (mem_cons_of_mem _ mem)
    refine ⟨column', ?_, wellFormed'', ?_⟩
    · rw [StringColumn.appendAll, foldlM_cons, placed]
      exact others
    · rw [rest, first, append_assoc, singleton_append]

/-! ## The calls -/

theorem wellFormed_ofCapacity {capacity : Nat} (small : capacity < 2 ^ 64) :
    WellFormed ⟨[], [.ofCapacity capacity], []⟩ where
  inside := fun _ mem => absurd mem not_mem_nil
  small := by
    intro block mem
    rw [mem_singleton.mp mem]
    exact small

theorem available_ofCapacity (capacity : Nat) :
    available ⟨[], [.ofCapacity capacity], []⟩ = some capacity := by
  simp [available, Block.ofCapacity, Block.getAvailable]

theorem computeTotalSize_lt (strings : List Bytes) : computeTotalSize strings < 2 ^ 64 := by
  rw [computeTotalSize_eq]
  exact Nat.mod_lt _ (Nat.two_pow_pos 64)

/-- The strings of a column have lengths of type `size_t`. -/
theorem WellFormed.length_lt (wellFormed : column.WellFormed) (mem : str ∈ column.rows) :
    str.length < 2 ^ 64 := by
  obtain ⟨view, isItem, rfl⟩ := mem_map.mp mem
  have inside := wellFormed.inside view isItem
  cases view with
  | elsewhere data => exact data.2
  | inAppendData n =>
    have inside : n < column.appendData.length := inside
    rw [View.bytes, getElem?_eq_getElem inside]
    exact (column.appendData[n]).2
  | inBlock n start length =>
    obtain ⟨block, found, _⟩ := inside
    have small := wellFormed.small block (mem_of_getElem? found)
    have fits := block.fits
    simp only [View.bytes, found, length_take, length_drop]
    omega

/-- The constructor for a vector places its strings inside its block exactly if they can be
counted. -/
theorem ofStrings_iff (data : List StringView) :
    (∃ made, ofStrings data = some made) ↔ totalLength (data.map Subtype.val) < 2 ^ 64 := by
  have wellFormed := wellFormed_ofCapacity (computeTotalSize_lt (data.map Subtype.val))
  have isFree := available_ofCapacity (computeTotalSize (data.map Subtype.val))
  have total := computeTotalSize_eq (data.map Subtype.val)
  constructor
  · rintro ⟨made, created⟩
    by_contra more
    have full : computeTotalSize (data.map Subtype.val) < totalLength (data.map Subtype.val) := by
      omega
    rw [ofStrings, wellFormed.appendAllUnsafe_of_full isFree full] at created
    cases created
  · intro countable
    obtain ⟨made, created, _⟩ := wellFormed.appendAllUnsafe isFree
      (show totalLength (data.map Subtype.val) ≤ _ by omega)
    exact ⟨made, created⟩

theorem ofStrings_spec {data : List StringView} (created : ofStrings data = some made) :
    made.WellFormed ∧ made.rows = data.map Subtype.val := by
  have countable := (ofStrings_iff data).mp ⟨made, created⟩
  have total := computeTotalSize_eq (data.map Subtype.val)
  obtain ⟨made', created', wellFormed, rows'⟩ :=
    (wellFormed_ofCapacity (computeTotalSize_lt (data.map Subtype.val))).appendAllUnsafe
      (available_ofCapacity _) (show totalLength (data.map Subtype.val) ≤ _ by omega)
  rw [ofStrings, created'] at created
  cases created
  exact ⟨wellFormed, rows'⟩

theorem wellFormed_empty : empty.WellFormed :=
  ⟨fun _ mem => absurd mem not_mem_nil, fun _ mem => absurd mem not_mem_nil⟩

theorem WellFormed.appendMoved (wellFormed : column.WellFormed) (str : StringView) :
    (column.appendMoved str).WellFormed ∧
      (column.appendMoved str).rows = column.rows ++ [str.1] := by
  have more : Extends column (column.appendMoved str) :=
    ⟨fun _ block found => ⟨block, found, prefix_rfl⟩, prefix_append ..⟩
  have inside : (View.inAppendData column.appendData.length).Inside (column.appendMoved str) := by
    simp [View.Inside, StringColumn.appendMoved]
  have added := wellFormed.addItem more rfl inside wellFormed.small
  refine ⟨added.1, added.2.trans ?_⟩
  simp [View.bytes, StringColumn.appendMoved]

theorem ofMovedStrings_spec (data : List StringView) :
    (ofMovedStrings data).WellFormed ∧ (ofMovedStrings data).rows = data.map Subtype.val := by
  suffices built : ∀ (data : List StringView) (column : StringColumn), column.WellFormed →
      (data.foldl (fun column str => column.appendMoved str) column).WellFormed ∧
        (data.foldl (fun column str => column.appendMoved str) column).rows =
          column.rows ++ data.map Subtype.val from built data empty wellFormed_empty
  intro data
  induction data with
  | nil => exact fun column wellFormed => ⟨wellFormed, (append_nil _).symm⟩
  | cons str data ih =>
    intro column wellFormed
    obtain ⟨wellFormed', first⟩ := wellFormed.appendMoved str
    obtain ⟨wellFormed'', rest⟩ := ih _ wellFormed'
    rw [first, append_assoc] at rest
    exact ⟨wellFormed'', rest⟩

theorem WellFormed.appendNoManagedLifetime (wellFormed : column.WellFormed) (str : StringView) :
    (column.appendNoManagedLifetime str).WellFormed ∧
      (column.appendNoManagedLifetime str).rows = column.rows ++ [str.1] := by
  have more : Extends column (column.appendNoManagedLifetime str) :=
    ⟨fun _ block found => ⟨block, found, prefix_rfl⟩, prefix_rfl⟩
  have inside : (View.elsewhere str).Inside (column.appendNoManagedLifetime str) := trivial
  exact wellFormed.addItem more rfl inside wellFormed.small

/-- `Append(ColumnRef)` places the strings of the other column inside one block exactly if they can
be counted. -/
theorem WellFormed.appendColumn {source : StringColumn} (wellFormed : column.WellFormed) :
    (totalLength source.rows < 2 ^ 64 →
      ∃ column', StringColumn.appendColumn source column = some column' ∧ column'.WellFormed ∧
        column'.rows = column.rows ++ source.rows) ∧
    (¬ totalLength source.rows < 2 ^ 64 → StringColumn.appendColumn source column = none) := by
  have total := computeTotalSize_eq source.rows
  obtain ⟨roomy, same, free, isFree, fits⟩ :=
    wellFormed.makeRoom (computeTotalSize_lt source.rows)
  have bound := roomy.available_lt isFree
  constructor
  · intro countable
    obtain ⟨column', placed, wellFormed', rows'⟩ :=
      roomy.appendAllUnsafe isFree (show totalLength source.rows ≤ free by omega)
    exact ⟨column', placed, wellFormed', by rw [rows', same]⟩
  · intro more
    exact roomy.appendAllUnsafe_of_full isFree (by omega)

theorem WellFormed.slice (wellFormed : column.WellFormed) (start len : Nat) :
    ∃ made, column.slice start len = some made ∧ made.WellFormed ∧
      made.rows = (column.rows.drop start).take len := by
  have length : column.rows.length = column.items.length := length_map ..
  rw [StringColumn.slice]
  split
  · rename_i inside
    have clamped : (column.rows.drop start).take (min len (column.items.length - start)) =
        (column.rows.drop start).take len := by
      rw [← length, ← length_drop, ← take_eq_take_min]
    have small : ∀ str ∈ (column.rows.drop start).take len, str.length < 2 ^ 64 := by
      intro str mem
      exact wellFormed.length_lt (mem_of_mem_drop (mem_of_mem_take mem))
    dsimp only
    rw [clamped]
    exact (wellFormed_ofCapacity (computeTotalSize_lt _)).appendAll small
  · rename_i outside
    refine ⟨empty, rfl, wellFormed_empty, ?_⟩
    rw [drop_eq_nil_of_le (by omega), take_nil]
    rfl

/-! ### LoadBody -/

section Loading

variable {σ : Type} [Source Error σ]

theorem readVarintLoop_lt {fuel i value : Nat} (small : value < 2 ^ 64) {s t : σ} {number : Nat}
    (run : Runs (readVarintLoop fuel i value) s (some number) t) : number < 2 ^ 64 := by
  induction fuel generalizing i value s with
  | zero => cases run
  | succ fuel ih =>
    rw [readVarintLoop] at run
    obtain ⟨piece, _, _, run⟩ := runs_bind_iff.mp run
    split at run
    · rename_i byte _
      have next : value ||| ((byte &&& 0x7F).toNat <<< (7 * i)) % 2 ^ 64 < 2 ^ 64 :=
        Nat.or_lt_two_pow small (Nat.mod_lt _ (Nat.two_pow_pos 64))
      dsimp only at run
      split at run
      · obtain ⟨same, _⟩ := runs_pure_iff.mp run
        cases same
        exact next
      · exact ih next run
    · obtain ⟨same, _⟩ := runs_pure_iff.mp run
      cases same

/-- What the loop ends with, compared with the strings that were read. -/
def Loaded.Shows (new : StringColumn) : Loaded → Option (List Bytes) → Prop
  | .done new', some strings => new'.WellFormed ∧ new'.rows = new.rows ++ strings ∧
      new'.appendData = new.appendData
  | .failed, none => True
  | _, _ => False

/-- A block always has room for the string that is read into it. -/
theorem simulates_loadRows (rows : Nat) {new : StringColumn} (wellFormed : new.WellFormed) :
    Simulates (Loaded.Shows new) (loadRows (σ := σ) rows new) (loadStrings rows) := by
  induction rows generalizing new with
  | zero => exact simulates_pure ⟨wellFormed, (append_nil _).symm, rfl⟩
  | succ rows ih =>
    rw [loadRows, loadStrings]
    refine Simulates.bind (V := fun found found' => found = found' ∧
      ∀ len, found = some len → len < 2 ^ 64) (simulates_self ?_) ?_
    · intro s found t run
      refine ⟨rfl, ?_⟩
      rintro len rfl
      exact readVarintLoop_lt (Nat.two_pow_pos 64) run
    · rintro found _ ⟨rfl, bound⟩
      cases found with
      | none => exact simulates_pure trivial
      | some len =>
        obtain ⟨roomy, same, free, isFree, fits⟩ := wellFormed.makeRoom (bound len rfl)
        have room : (new.makeRoom len).lacksRoom len = false :=
          lacksRoom_eq_false_iff.mpr ⟨free, isFree, fits⟩
        dsimp only
        rw [room]
        refine Simulates.bind (V := fun found found' => found = found' ∧
          ∀ data, found = some data → data.length = len) (simulates_self ?_) ?_
        · intro s found t run
          refine ⟨rfl, ?_⟩
          rintro data rfl
          obtain ⟨bytes, _, shown⟩ := runs_bind_pure_iff.mp run
          split at shown
          · cases shown
            assumption
          · cases shown
        · rintro found _ ⟨rfl, length⟩
          cases found with
          | none => exact simulates_pure trivial
          | some data =>
            obtain ⟨new', placed, wellFormed', rows', _⟩ :=
              roomy.appendUnsafe isFree ((length data rfl).symm ▸ fits : data.length ≤ free)
            dsimp only
            rw [placed]
            refine (ih wellFormed').map_right fun loaded strings shows => ?_
            cases loaded with
            | done new'' =>
              cases strings with
              | none => exact shows
              | some strings =>
                obtain ⟨wellFormed'', others, data'⟩ := shows
                refine ⟨wellFormed'', ?_, ?_⟩
                · rw [others, rows', same, append_assoc, singleton_append]
                · rw [data', appendData_appendUnsafe placed, appendData_makeRoom]
            | failed =>
              cases strings with
              | none => exact shows
              | some strings => exact shows
            | overrun =>
              cases strings with
              | none => exact shows
              | some strings => exact shows

/-- `LoadBody` on the column and on its strings. -/
theorem WellFormed.simulates_loadBody (wellFormed : column.WellFormed) (rows : Nat) :
    Simulates (fun loaded found => ∃ column', loaded = some column' ∧ column'.WellFormed ∧
        column'.rows = found.2)
      (loadBody (σ := σ) rows column) (ColumnString.loadBody column.rows rows) := by
  rw [loadBody, ColumnString.loadBody]
  split
  · rename_i none
    subst none
    refine simulates_pure ⟨_, rfl, ⟨?_, ?_⟩, rfl⟩
    · exact fun _ mem => absurd mem not_mem_nil
    · exact fun _ mem => absurd mem not_mem_nil
  · have new := wellFormed_ofCapacity (show defaultBlockSize < 2 ^ 64 by decide)
    refine (simulates_loadRows rows new).bind fun loaded strings shows => ?_
    cases loaded with
    | done new' =>
      cases strings with
      | none => exact shows.elim
      | some strings =>
        obtain ⟨wellFormed', rows', data'⟩ := shows
        -- The views of the new items are not views of `append_data_`.
        have more : Extends new' { column with items := new'.items, blocks := new'.blocks } :=
          ⟨fun _ block found => ⟨block, found, prefix_rfl⟩, data' ▸ nil_prefix⟩
        refine simulates_pure ⟨_, rfl, ⟨?_, wellFormed'.small⟩, ?_⟩
        · intro view mem
          exact View.inside_of_extends (wellFormed'.inside view mem) more
        · exact (map_congr_left fun view mem =>
            View.bytes_of_extends (wellFormed'.inside view mem) more).trans rows'
    | failed =>
      cases strings with
      | none => exact simulates_pure ⟨column, rfl, wellFormed, rfl⟩
      | some strings => exact shows.elim
    | overrun =>
      cases strings with
      | none => exact shows.elim
      | some strings => exact shows.elim

end Loading

/-! ## Runs -/

section Operations

variable {σ : Type} [Source Error σ]

def AllWellFormed (columns : List StringColumn) : Prop := ∀ column ∈ columns, column.WellFormed

variable {columns : List StringColumn}

theorem AllWellFormed.concat (all : AllWellFormed columns) (wellFormed : made.WellFormed) :
    AllWellFormed (columns ++ [made]) := by
  intro column mem
  rcases mem_append.mp mem with mem | mem
  · exact all column mem
  · rw [mem_singleton.mp mem]
    exact wellFormed

theorem AllWellFormed.set (all : AllWellFormed columns) (n : Nat) (wellFormed : made.WellFormed) :
    AllWellFormed (columns.set n made) := by
  intro column mem
  rcases mem_or_eq_of_mem_set mem with mem | rfl
  · exact all column mem
  · exact wellFormed

/-- What a call does: the columns it leaves are well-formed and hold what they are meant to. -/
def Meets (columns : List StringColumn) (lists : List (List Bytes)) : Prop :=
  AllWellFormed columns ∧ columns.map rows = lists

theorem Meets.concat {columns : List StringColumn} (all : AllWellFormed columns)
    {made : StringColumn} (wellFormed : made.WellFormed) {items : List Bytes}
    (holds : made.rows = items) : Meets (columns ++ [made]) (columns.map rows ++ [items]) :=
  ⟨all.concat wellFormed, by rw [map_append, map_singleton, holds]⟩

/-- A change of one column. -/
theorem change_meets (all : AllWellFormed columns) {n : Nat}
    {f : StringColumn → Option StringColumn} {g : List Bytes → List Bytes}
    (does : ∀ column, column.WellFormed →
      ∃ column', f column = some column' ∧ column'.WellFormed ∧ column'.rows = g column.rows) :
    ∃ columns', change columns n f = some columns' ∧
      Meets columns' ((columns.map rows).modify n g) := by
  rw [change]
  cases found : columns[n]? with
  | none =>
    have outside := getElem?_eq_none_iff.mp found
    refine ⟨columns, rfl, all, ?_⟩
    rw [modify_eq_self (by rw [length_map]; exact outside)]
  | some column =>
    obtain ⟨column', changed, wellFormed, holds⟩ :=
      does column (all column (mem_of_getElem? found))
    refine ⟨columns.set n column', congrArg (Option.map (columns.set n)) changed,
      all.set n wellFormed, ?_⟩
    rw [map_set, holds, modify_eq_set_getElem?]
    simp [found]

theorem meets_loadBody (wellFormed : column.WellFormed) (count : Nat) (input : σ) :
    ∃ column', column.afterLoad (loadBody count column input) = some column' ∧
      column'.WellFormed ∧
      column'.rows =
        plainAfterLoad column.rows (ColumnString.loadBody column.rows count input) := by
  have alike := wellFormed.simulates_loadBody count input
  cases left : loadBody count column input with
  | ok loaded s =>
    cases right : ColumnString.loadBody column.rows count input with
    | ok found t =>
      rw [left, right] at alike
      obtain ⟨⟨column', rfl, wellFormed', holds⟩, _⟩ := alike
      exact ⟨column', rfl, wellFormed', holds⟩
    | error e t =>
      rw [left, right] at alike
      exact alike.elim
  | error e s =>
    cases right : ColumnString.loadBody column.rows count input with
    | ok found t =>
      rw [left, right] at alike
      exact alike.elim
    | error f t => exact ⟨column, rfl, wellFormed, rfl⟩

/-- A call whose strings can be counted places them inside blocks and does what it is meant to. -/
theorem Operation.apply_meets {columns : List StringColumn} (all : AllWellFormed columns) :
    ∀ {operation : Operation σ}, Countable columns operation →
      ∃ columns', operation.apply columns = some columns' ∧
        Meets columns' (operation.plain (columns.map rows))
  | .create, _ => ⟨_, rfl, .concat all wellFormed_empty rfl⟩
  | .ofStrings data, countable => by
    obtain ⟨made, created⟩ := (ofStrings_iff data).mpr countable
    obtain ⟨wellFormed, holds⟩ := ofStrings_spec created
    exact ⟨_, congrArg (Option.map fun made => columns ++ [made]) created,
      .concat all wellFormed holds⟩
  | .ofMovedStrings data, _ => by
    obtain ⟨wellFormed, holds⟩ := ofMovedStrings_spec data
    exact ⟨_, rfl, .concat all wellFormed holds⟩
  | .append n str, _ => change_meets all fun _ wellFormed => wellFormed.appendInRoom str.2
  | .appendCString n str, _ =>
    change_meets all fun _ wellFormed => wellFormed.appendInRoom (cString str).2
  | .appendMoved n str, _ =>
    change_meets all fun _ wellFormed => ⟨_, rfl, wellFormed.appendMoved str⟩
  | .appendNoManagedLifetime n str, _ =>
    change_meets all fun _ wellFormed => ⟨_, rfl, wellFormed.appendNoManagedLifetime str⟩
  | .appendColumn n source _, countable => by
    rw [apply, plain, getElem?_map]
    cases isSource : columns[source]? with
    | none =>
      refine ⟨columns, rfl, all, ?_⟩
      simp only [Option.map_none, Option.getD_none, append_nil]
      exact (modify_id n _).symm
    | some source' =>
      cases found : columns[n]? with
      | none =>
        have outside := getElem?_eq_none_iff.mp found
        refine ⟨columns, by simp only [change, found], all, ?_⟩
        rw [modify_eq_self (by rw [length_map]; exact outside)]
      | some column =>
        have total := countable column source' found isSource
        exact change_meets all fun _ wellFormed => wellFormed.appendColumn.1 total
  | .loadBody n count input, _ =>
    change_meets all fun _ wellFormed => meets_loadBody wellFormed count input
  | .slice n start len, _ => by
    rw [apply, plain, getElem?_map]
    cases found : columns[n]? with
    | none => exact ⟨columns, rfl, all, (append_nil _).symm⟩
    | some column =>
      obtain ⟨made, created, wellFormed, holds⟩ :=
        (all column (mem_of_getElem? found)).slice start len
      exact ⟨_, congrArg (Option.map fun made => columns ++ [made]) created,
        .concat all wellFormed holds⟩
  | .clear n, _ => change_meets all fun _ _ => ⟨empty, rfl, wellFormed_empty, rfl⟩
  | .swap n other, _ => by
    rw [apply, plain, getElem?_map, getElem?_map]
    cases found : columns[n]? with
    | none => exact ⟨columns, rfl, all, rfl⟩
    | some column =>
      cases found' : columns[other]? with
      | none => exact ⟨columns, rfl, all, rfl⟩
      | some column' =>
        refine ⟨_, rfl, ?_, ?_⟩
        · exact (all.set n (all column' (mem_of_getElem? found'))).set other
            (all column (mem_of_getElem? found))
        · rw [map_set, map_set]
          rfl

/-- A call whose strings cannot be counted places bytes behind the end of a block. -/
theorem Operation.apply_of_not_countable (all : AllWellFormed columns) {operation : Operation σ}
    (uncountable : ¬ Countable columns operation) : operation.apply columns = none := by
  cases operation with
  | ofStrings data =>
    have overrun : StringColumn.ofStrings data = none := by
      rw [← Option.not_isSome_iff_eq_none, Option.isSome_iff_exists]
      exact fun created => uncountable ((ofStrings_iff data).mp created)
    rw [apply, overrun]
    rfl
  | appendColumn n source distinct =>
    simp only [Countable, not_forall] at uncountable
    obtain ⟨column, source', found, isSource, more⟩ := uncountable
    have overrun := (all column (mem_of_getElem? found)).appendColumn.2 more
    simp only [apply, isSource, change, found, overrun, Option.map_none]
  | _ => exact absurd trivial uncountable

theorem AllWellFormed.step (all : AllWellFormed columns) (operation : Operation σ) :
    AllWellFormed (step columns operation) := by
  by_cases countable : Countable columns operation
  · obtain ⟨columns', applied, meets⟩ := Operation.apply_meets all countable
    rw [StringColumn.step, applied]
    exact meets.1
  · rw [StringColumn.step, Operation.apply_of_not_countable all countable]
    exact all

theorem places_iff (all : AllWellFormed columns) (operation : Operation σ) :
    Places columns operation ↔ Countable columns operation := by
  constructor
  · rintro ⟨columns', applied, _⟩
    by_contra uncountable
    rw [Operation.apply_of_not_countable all uncountable] at applied
    cases applied
  · intro countable
    obtain ⟨columns', applied, meets⟩ := Operation.apply_meets all countable
    exact ⟨columns', applied, meets.2⟩

/-- In a run from no columns, every call places its strings inside blocks and leaves those that are
stored as they are, exactly if the strings that are copied into one block can always be counted. -/
theorem eachStep_places_iff (operations : List (Operation σ)) :
    EachStep step Places [] operations ↔ EachStep step Countable [] operations := by
  have start : AllWellFormed [] := fun _ mem => absurd mem not_mem_nil
  constructor
  · exact eachStep_of_eachStep (P := AllWellFormed) (fun _ operation all _ => all.step operation)
      (fun _ operation all => (places_iff all operation).mp) start
  · exact eachStep_of_eachStep (P := AllWellFormed) (fun _ operation all _ => all.step operation)
      (fun _ operation all => (places_iff all operation).mpr) start

/-! ### Views that share their bytes -/

/-- A column with `n` views of one string that it does not own. -/
def viewing (str : StringView) (n : Nat) : StringColumn :=
  ⟨replicate n (.elsewhere str), [], []⟩

theorem rows_viewing (str : StringView) (n : Nat) :
    (viewing str n).rows = replicate n str.1 := by
  rw [rows, viewing, map_replicate]
  rfl

theorem totalLength_viewing (str : StringView) (n : Nat) :
    totalLength (viewing str n).rows = n * str.1.length := by
  rw [rows_viewing, totalLength, map_replicate, sum_replicate_nat]

theorem eachStep_viewing {Q : List StringColumn → Operation σ → Prop} {str : StringView}
    {others : List (Operation σ)} (n : Nat) {m : Nat}
    (each : EachStep step Q [viewing str m]
      (replicate n (.appendNoManagedLifetime 0 str) ++ others)) :
    EachStep step Q [viewing str (m + n)] others := by
  induction n generalizing m with
  | zero => exact each
  | succ n ih =>
    have next : step [viewing str m] (.appendNoManagedLifetime 0 str : Operation σ) =
        [viewing str (m + 1)] := by
      show [(viewing str m).appendNoManagedLifetime str] = _
      rw [viewing, appendNoManagedLifetime, viewing, replicate_succ']
    have rest := each.2
    rw [next] at rest
    have all := ih rest
    rwa [Nat.add_right_comm] at all

theorem not_eachStep_places_viewing {str : StringView} {n : Nat}
    (many : 2 ^ 64 ≤ n * str.1.length) :
    ¬ EachStep step Places [] ((.create :: (replicate n (.appendNoManagedLifetime 0 str) ++
      [.create, .appendColumn 1 0 (by decide)])) : List (Operation σ)) := by
  intro each
  have last := (eachStep_viewing n (show EachStep step Places [viewing str 0] _ from each.2)).2.1
  rw [Nat.zero_add] at last
  have all : AllWellFormed [viewing str n, empty] := by
    intro column mem
    rcases mem_cons.mp mem with rfl | mem
    · refine ⟨?_, fun _ mem => absurd mem not_mem_nil⟩
      intro view mem
      rw [eq_of_mem_replicate mem]
      trivial
    · rw [mem_singleton.mp mem]
      exact wellFormed_empty
  have countable := (places_iff all _).mp last empty (viewing str n) rfl rfl
  rw [totalLength_viewing] at countable
  omega

end Operations

/-- `2 ^ 18` views of one string of `2 ^ 46` bytes are `2 ^ 64` bytes, for which `Append` makes a
block of the default size. -/
theorem not_eachStep_places_sharedString : ∃ str : StringView, str.1.length = 2 ^ 46 ∧
    ¬ EachStep step Places [] ((.create ::
      (replicate (2 ^ 18) (.appendNoManagedLifetime 0 str) ++
        [.create, .appendColumn 1 0 (by decide)])) : List (Operation ArrayInput)) := by
  have length : (replicate (2 ^ 46) 0 : Bytes).length = 2 ^ 46 := length_replicate
  refine ⟨⟨replicate (2 ^ 46) 0, by rw [length]; decide⟩, length, ?_⟩
  refine not_eachStep_places_viewing ?_
  rw [length]
  decide

end StringColumn

end ClickHouse
