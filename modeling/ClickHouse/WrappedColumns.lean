import ClickHouse.Columns.Serialization
import ClickHouse.FactoryRoundTrip

/-!
# Columns wrapped as LowCardinality

With `low_cardinality_as_wrapped_column` the factory makes a string column with
the wire form of LowCardinality.  The wrapper loads a prefix and does not save
one, so that it never reads what it wrote: the prefix is taken from the first
field of the body, which is not a key version.
-/

namespace ClickHouse

open Kit

/-- A filled column that was made for `LowCardinality(String)` or `LowCardinality(FixedString(n))`
with a size that the parser takes. -/
structure WrappedColumn where
  column : Leaf
  text : column.type = .string ∨ ∃ n, 0 < n ∧ n < 2 ^ 63 ∧ column.type = .fixedString n
  filled : 0 < column.size

namespace WrappedColumn

def type (wrapped : WrappedColumn) : Ty := .lowCardinality (.leaf wrapped.column.type)

theorem proper (wrapped : WrappedColumn) : wrapped.type.Proper := by
  rcases wrapped.text with string | ⟨n, positive, fits, fixed⟩
  · rw [type, string]
    exact ⟨trivial, rfl⟩
  · rw [type, fixed]
    exact ⟨⟨positive, fits⟩, rfl⟩

/-- The wrapped column itself writes no prefix. -/
theorem savePrefix (wrapped : WrappedColumn) : wrapped.column.savePrefix = .nothing := by
  obtain ⟨column, text, -⟩ := wrapped
  cases column with
  | json items => rcases text with string | ⟨_, _, _, fixed⟩ <;> contradiction
  | _ => rfl

end WrappedColumn

section Loading

variable [Hashing]

/-- The factory wraps an empty column of the element type. -/
theorem create_wrapped {ast element : TypeAst} {type : LeafType}
    (text : type = .string ∨ ∃ n, 0 < n ∧ n < 2 ^ 63 ∧ type = .fixedString n)
    (of : ast.Of .lowCardinality [element]) (ofElement : element.Of type.code type.arguments) :
    (create ⟨true⟩ ast).column = .ok (some (.adaptor type.emptyColumn)) := by
  obtain ⟨metaKind, _, elements⟩ := of
  rw [create_column, createFromElements, metaKind, elements]
  show createLowCardinalityFromAst ⟨true⟩ (create ⟨true⟩ element) = _
  rw [createLowCardinalityFromAst, create_ast, ofElement.hasCode, ofElement.elements]
  rcases text with rfl | ⟨n, -, fits, rfl⟩
  · rfl
  · have size : toSizeT n = n := toSizeT_ofNat fits
    show Except.ok (some (Column.adaptor (.fixedString ⟨toSizeT n, []⟩))) = _
    rw [size]
    rfl

theorem createColumnByType_wrapped (wrapped : WrappedColumn) :
    createColumnByType ⟨true⟩ wrapped.type.getName =
      .ok (some (.adaptor wrapped.column.type.emptyColumn)) := by
  rw [createColumnByType, parseTypeName_getName wrapped.proper]
  exact create_wrapped wrapped.text (Ty.of_fill wrapped.type rfl)
    (Ty.of_fill (.leaf wrapped.column.type) rfl)

omit [Hashing] in
/-- The first field of the body of a LowCardinality column is not a key version. -/
theorem IndexType.or_hasAdditionalKeysBit (type : IndexType) :
    type.toNat ||| hasAdditionalKeysBit < 256 ^ 8 ∧
      type.toNat ||| hasAdditionalKeysBit ≠ keySerializationVersion := by
  cases type <;> decide

theorem Adaptor.bytes_saveBody {column : Leaf} {bytes : Bytes}
    (saved : Emits (Adaptor.saveBody column) bytes) :
    ∃ (type : IndexType) (others : Bytes),
      bytes = writeFixedUInt 8 (type.toNat ||| hasAdditionalKeysBit) ++ others := by
  unfold Adaptor.saveBody at saved
  split at saved
  · rename_i lowCardinality _
    obtain ⟨first, others, ⟨-, rfl⟩, -, rfl⟩ := saved.of_andThen
    exact ⟨lowCardinality.index.type, others, by simp [Emit.write]⟩
  · cases saved.1

variable {σ : Type} [LawfulSource Error σ]

theorem WrappedColumn.load_throws (wrapped : WrappedColumn) {bytes rest : Bytes} {s t : σ}
    (saved : Emits (Column.adaptor wrapped.column).save bytes)
    (feeds : LawfulSource.Feeds s (bytes ++ rest) t) {fresh : Leaf}
    (defined : (Column.adaptor fresh).sizeDefined) (rows : Nat) :
    ∃ m, Throws ((Column.adaptor fresh).load rows) s
      (.protocolError (ascii "Invalid key serialization version value.")) m := by
  obtain ⟨none, body, written, savedBody, rfl⟩ := saved.of_andThen
  have empty : none = [] := by
    have written : Emits wrapped.column.savePrefix none := written
    rw [wrapped.savePrefix] at written
    exact written.2.symm
  subst empty
  obtain ⟨type, others, rfl⟩ := Adaptor.bytes_saveBody savedBody
  obtain ⟨fits, differs⟩ := type.or_hasAdditionalKeysBit
  rw [List.nil_append, List.append_assoc] at feeds
  obtain ⟨m, read, -⟩ := decodes_readFixedUInt fits feeds
  refine ⟨m, Throws.bind ?_ _⟩
  rw [Column.loadPrefix, if_pos defined]
  refine read.bind_throws ((runs_pure _ _).bind_throws ?_)
  rw [if_pos differs]
  exact throws_throw _ _

/-- A fresh column made in the same way reads back what the column saves, row by row, and leaves
the bytes that follow. -/
def WrappedColumn.RoundTrips (wrapped : WrappedColumn) (s t : σ) (rest : Bytes) : Prop :=
  ∃ bytes fresh loaded m, Emits (Column.adaptor wrapped.column).save bytes ∧
    LawfulSource.Feeds s (bytes ++ rest) t ∧
    createColumnByType ⟨true⟩ wrapped.type.getName = .ok (some fresh) ∧
    Runs (fresh.load wrapped.column.size) s (true, loaded) m ∧ LawfulSource.Feeds m rest t ∧
    loaded.size = wrapped.column.size ∧
    ∀ n < wrapped.column.size, loaded.row? n = (Column.adaptor wrapped.column).row? n

/-- No wrapped column is read back: loading what it saves throws. -/
theorem WrappedColumn.not_roundTrips (wrapped : WrappedColumn) (s t : σ) (rest : Bytes) :
    ¬ wrapped.RoundTrips s t rest := by
  rintro ⟨bytes, fresh, loaded, m, saved, feeds, created, run, -⟩
  have wraps := (createColumnByType_wrapped wrapped).symm.trans created
  cases wraps
  have defined : (Column.adaptor wrapped.column.type.emptyColumn).sizeDefined := by
    rcases wrapped.text with string | ⟨n, positive, -, fixed⟩
    · rw [string]
      rfl
    · rw [fixed]
      exact bne_iff_ne.mpr (Nat.ne_of_gt positive)
  obtain ⟨u, throws⟩ := wrapped.load_throws saved feeds defined wrapped.column.size
  cases throws.symm.trans run

end Loading

/-- One row with the text `a`. -/
def oneWrappedRow : WrappedColumn := ⟨.string [ascii "a"], .inl rfl, by decide⟩

/-- The column is saved, and what it saves is refused. -/
theorem not_roundTrips_oneRow :
    letI := lengthHashing
    ∃ bytes, Emits (Column.adaptor oneWrappedRow.column).save bytes ∧
      ¬ oneWrappedRow.RoundTrips (⟨bytes⟩ : ArrayInput) ⟨[]⟩ [] := by
  let _ := lengthHashing
  refine ⟨_, ⟨rfl, rfl⟩, ?_⟩
  rintro ⟨_, _, loaded, m, -, -, created, run, -⟩
  rw [createColumnByType_wrapped] at created
  cases created
  cases run

end ClickHouse
