import ClickHouse.Client.QuotedValues
import ClickHouse.BlockRoundTrip

/-!
# Formats without ambiguity

What is sent says what was meant: no two columns of a type and a size have one
saved form, no two lists of blocks one stream and no two queries one packet,
whatever comes after them.
-/

namespace ClickHouse

open Kit List

/-- A decoder tells apart what it decodes, and where the rest begins. -/
theorem ArrayInput.eq_of_decodes {α : Type} {p : EStateM Error ArrayInput α} {a b : α}
    {xs ys rest rest' : Bytes} (first : Decodes p xs a) (second : Decodes p ys b)
    (same : xs ++ rest = ys ++ rest') : a = b ∧ rest = rest' := by
  have run := runs_of_decodes first rest
  rw [same] at run
  obtain ⟨rfl, left⟩ := run.unique (runs_of_decodes second rest')
  exact ⟨rfl, congrArg data left⟩

/-! ## Columns -/

mutual

/-- There is a column without rows of the same type. -/
theorem Column.exists_empty : ∀ column : Column, column.WellTyped →
    ∃ empty : Column, empty.WellTyped ∧ empty.IsEmpty ∧ empty.type = column.type
  | .leaf column, _ =>
    ⟨.leaf column.cloneEmpty, trivial, column.size_cloneEmpty, by
      rw [type, type, column.type_cloneEmpty]⟩
  | .array data _, typed => by
    obtain ⟨empty, typed, isEmpty, same⟩ := exists_empty data typed
    exact ⟨.array empty [], typed, ⟨rfl, isEmpty⟩, by rw [type, type, same]⟩
  | .nullable nested _, typed => by
    obtain ⟨empty, typed, isEmpty, same⟩ := exists_empty nested typed
    exact ⟨.nullable empty [], typed, ⟨rfl, isEmpty⟩, by rw [type, type, same]⟩
  | .tuple columns names, typed => by
    obtain ⟨empties, typed, areEmpty, same⟩ := exists_empties columns typed
    exact ⟨.tuple empties names, typed, areEmpty, by rw [type, type, same]⟩
  | .map data, typed => by
    obtain ⟨empty, typed', isEmpty, same⟩ := exists_empty data typed.1
    exact ⟨.map empty, ⟨typed', same ▸ typed.2⟩, isEmpty, by rw [type, type, same]⟩
  | .lowCardinality column, _ =>
    ⟨.lowCardinality { column with index := ⟨column.index.type, []⟩ }, trivial, rfl, rfl⟩
  | .geo kind data, typed => by
    obtain ⟨empty, typed', isEmpty, same⟩ := exists_empty data typed.1
    exact ⟨.geo kind empty, ⟨typed', same ▸ typed.2⟩, isEmpty, rfl⟩
  | .adaptor _, typed => absurd typed id

theorem Column.exists_empties : ∀ columns : List Column, AllWellTyped columns →
    ∃ empties : List Column, AllWellTyped empties ∧ AllEmpty empties ∧ types empties = types columns
  | [], _ => ⟨[], trivial, trivial, rfl⟩
  | column :: columns, typed => by
    obtain ⟨empty, typed', isEmpty, same⟩ := exists_empty column typed.1
    obtain ⟨empties, typeds, areEmpty, sames⟩ := exists_empties columns typed.2
    exact ⟨empty :: empties, ⟨typed', typeds⟩, ⟨isEmpty, areEmpty⟩, by rw [types, types, same, sames]⟩

end

section Columns

variable [Hashing]

/-- A consistent column that has a saved form. -/
structure Column.Sendable (column : Column) : Prop where
  wellTyped : column.WellTyped
  consistent : column.Consistent
  savable : column.Savable

/-- A block as `AppendColumn` builds it of such columns, of types whose names are read back. -/
structure Block.Sendable (block : Block) : Prop where
  built : block.Built
  columnCount : block.columns.length < 2 ^ 64
  rowCount : block.rows < 2 ^ 64
  shortNames : ∀ column ∈ block.columns, column.1.length ≤ maxStringLength
  shortTypes : ∀ column ∈ block.columns, column.2.type.getName.length ≤ maxStringLength
  properTypes : ∀ column ∈ block.columns, column.2.type.Proper
  columns : ∀ column ∈ block.columns, column.2.Sendable

theorem Block.Sendable.decodes {block : Block} (sendable : block.Sendable) (revision : Nat) :
    (writeBlock revision block).written.flatten ≠ [] ∧ ∃ loaded,
      Decodes (σ := ArrayInput) (readBlock revision ⟨false⟩)
        (writeBlock revision block).written.flatten (true, loaded) ∧
      SameBlock revision block loaded := by
  have roundTrips : ∀ column ∈ block.columns, column.2.RoundTrips ArrayInput ⟨false⟩ := by
    intro column mem
    have known := sendable.columns column mem
    exact Column.roundTrips_of_proper (sendable.properTypes column mem) known.wellTyped known.consistent known.savable
  obtain ⟨bytes, emits, loaded, decodes, same⟩ := decodes_readBlock revision sendable.built
    sendable.columnCount sendable.rowCount sendable.shortNames sendable.shortTypes roundTrips
  rw [emits.2]
  refine ⟨?_, loaded, decodes, same⟩
  -- At least the number of the columns is written.
  obtain ⟨_, _, _, counts, rfl⟩ := emits.of_andThen
  obtain ⟨_, _, columns, _, rfl⟩ := counts.of_andThen
  cases columns.unique (emits_write _)
  simp [writeUInt64, writeVarint64, writeVarintLoop, maxVarintBytes]

end Columns

/-! ## Queries -/

theorem paramForm_inj {value other : Option Bytes} (same : paramForm value = paramForm other) :
    value = other := by
  cases value with
  | none =>
    cases other with
    | none => rfl
    | some other => exact absurd same.symm (quotedForm_ne_null other)
  | some value =>
    cases other with
    | none => exact absurd same (quotedForm_ne_null value)
    | some other => exact congrArg some (quotedForm_inj same)

/-- Queries that are sent alike have the same id, context, settings, text and parameters, whether
their data is compressed or not, and the bytes that follow are the same. -/
theorem query_eq_of_queryPacket {υ : Type} {revision : Nat} (latest : LatestRevision revision)
    {query other : Query υ} (sized : query.Sized) (sized' : other.Sized)
    (decodable : query.Decodable) (decodable' : other.Decodable) {compression compression' : Bool}
    {rest rest' : Bytes}
    (same : (queryPacket revision compression query).written.flatten ++ rest =
      (queryPacket revision compression' other).written.flatten ++ rest') :
    (query.queryId = other.queryId ∧ query.tracingContext = other.tracingContext ∧
      query.settings.entries = other.settings.entries ∧ query.text = other.text ∧
      query.params.entries = other.params.entries) ∧ rest = rest' := by
  obtain ⟨packet, ⟨_, written⟩, settings, params, decodes⟩ :=
    decodes_queryPacket (σ := ArrayInput) latest compression sized decodable
  obtain ⟨packet', ⟨_, written'⟩, settings', params', decodes'⟩ :=
    decodes_queryPacket (σ := ArrayInput) latest compression' sized' decodable'
  rw [written, written'] at same
  obtain ⟨alike, rests⟩ := ArrayInput.eq_of_decodes
    (decodes (packet.length + packet'.length + 1) (by omega) (by omega))
    (decodes' _ (by omega) (by omega)) same
  have alike := Option.some.inj alike
  refine ⟨⟨congrArg DecodedQuery.queryId alike, congrArg DecodedQuery.tracingContext alike,
    map_injective_iff.mpr ?_ (congrArg DecodedQuery.settings alike),
    congrArg DecodedQuery.text alike, map_injective_iff.mpr ?_ (congrArg DecodedQuery.params alike)⟩,
    rests⟩
  · rintro ⟨_, _, _⟩ ⟨_, _, _⟩ same
    simp_all [UInt64.toNat_inj]
  · rintro ⟨_, _⟩ ⟨_, _⟩ same
    simp only [Prod.mk.injEq, true_and] at same
    rw [same.1, paramForm_inj same.2]

/-- A query with one parameter, which may have a callback. -/
def oneParameter (callback : Option (Progress → EStateM Error Unit Unit)) : Query Unit :=
  { sampleQuery with
    params := ⟨[(ascii "p", some (ascii "it's"))], nodup_singleton _⟩, progressCb := callback }

/-- The callbacks of a query are not sent. -/
theorem query_eq_of_queryPacket_oneParameter :
    (queryPacket 54459 true (oneParameter none)).written.flatten ++ [7] =
        (queryPacket 54459 true (oneParameter (some fun _ => pure ()))).written.flatten ++ [7] ∧
      (oneParameter none).params.entries =
        (oneParameter (some fun _ => pure ())).params.entries := by
  have sized callback : (oneParameter callback).Sized := by
    refine ⟨Nat.two_pow_pos 64, ?_, fun _ mem => (not_mem_nil mem).elim,
      (by decide : sampleQuery.text.length < 2 ^ 64), fun triple mem => ?_⟩
    · intro _ has
      cases has
    · rw [mem_singleton.mp mem]
      exact ⟨by decide, by decide, by decide⟩
  have decodable callback : (oneParameter callback).Decodable := by
    refine ⟨fun _ mem => (not_mem_nil mem).elim, fun param mem => ?_, fun param mem value has => ?_⟩
    · rw [mem_singleton.mp mem]
      exact cons_ne_nil _ _
    · rw [mem_singleton.mp mem] at has
      cases has
      decide
  exact ⟨rfl, (query_eq_of_queryPacket (Nat.le_refl 54459) (sized none) (sized _)
    (decodable none) (decodable (some fun _ => pure ()))
    (rfl : (queryPacket _ true _).written.flatten ++ [7] = _ ++ [7])).1.2.2.2.2⟩

end ClickHouse
