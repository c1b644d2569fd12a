import ClickHouse.FactoryOutcomes

/-!
# Sizes of created columns

The length of a `FixedString` is taken from the type name as it stands.  The
constructors of arrays, nullable columns, dictionaries and maps take the size
of what they are given, so that a length of zero can already fail while the
column is made.  This module says which type names give columns that can be
measured.
-/

namespace ClickHouse

open Kit List TypeAst Column

section Factory

variable [Hashing]

/-- Making the column for a type name, and `Size()`, `CloneEmpty()` and `Load` of the column that is
made, do not divide by zero; a load that returns true leaves as many rows as it was asked for. -/
def SizeLaw (settings : CreateColumnByTypeSettings) (typeName : Bytes) : Prop :=
  ∀ ast, parseTypeName typeName = .ok (some ast) →
    createColumnFromAst settings ast ≠ .error .divisionByZero ∧
    ∀ column, createColumnFromAst settings ast = .ok (some column) → column.SizeLaw

/-- What is said in a type name of the sizes of its column. -/
def Measurable (settings : CreateColumnByTypeSettings) (typeName : Bytes) : Prop :=
  ∀ ast, parseTypeName typeName = .ok (some ast) → ast.outcome settings ≠ .error .divided ∧
    ∀ shape, ast.outcome settings = .ok (some shape) →
      shape.measure.isExact ∧ shape.wrapsNothing = false

theorem Column.Has.sizeLaw_iff {column : Column} {shape : Shape} (has : column.Has shape) :
    column.SizeLaw ↔ shape.measure.isExact ∧ shape.wrapsNothing = false := by
  rw [has.made.sizeLaw_iff, ← has.shape]
  rfl

/-- The two laws for what a call returns and for what is foretold of it. -/
theorem Foretells.sizeLaw_iff {r : Except Error (Option Column)} {outcome : Outcome}
    (foretells : Foretells r outcome) :
    (r ≠ .error .divisionByZero ∧ ∀ column, r = .ok (some column) → column.SizeLaw) ↔
      outcome ≠ .error .divided ∧ ∀ shape, outcome = .ok (some shape) →
        shape.measure.isExact ∧ shape.wrapsNothing = false := by
  cases foretells with
  | error e => cases e <;> simp [Error.fault]
  | ok related =>
    cases related with
    | none => simp
    | some has => simp [has.sizeLaw_iff]

/-- The law holds exactly for the type names whose outcome is no division by zero and, if a column
is made, one that is measured exactly. -/
theorem sizeLaw_iff_measurable (settings : CreateColumnByTypeSettings) (typeName : Bytes) :
    SizeLaw settings typeName ↔ Measurable settings typeName :=
  forall_congr' fun ast => imp_congr_right fun _ =>
    (createColumnFromAst_foretold ast).sizeLaw_iff

end Factory

/-- `Tuple(LowCardinality(SimpleAggregateFunction(any, Nullable(UInt8))), Array(FixedString(0)))`:
the dictionary is made, and the array divides by zero. -/
example :
    let type (metaKind : Meta) (code : Code) (elements : List TypeAst) : TypeAst :=
      ⟨metaKind, code, [], [], 0, [], elements⟩
    let zero := type .number .void []
    let nullable := type .nullable .nullable [type .terminal .uint8 []]
    let aggregated := type .simpleAggregateFunction .void [type .terminal .void [], nullable]
    let dictionary := type .lowCardinality .lowCardinality [aggregated]
    let array := type .array .array [type .terminal .fixedString [zero]]
    dictionary.outcome ⟨false⟩ = .ok (some .counted) ∧
      (type .tuple .tuple [dictionary, array]).outcome ⟨false⟩ = .error .divided :=
  ⟨rfl, rfl⟩

/-- The name of a column of strings of length zero is accepted. -/
theorem parseTypeName_fixedString {size : Nat} (fits : size < 2 ^ 63) :
    parseTypeName (Ty.leaf (.fixedString size)).getName =
      .ok (some (Ty.leaf (.fixedString size)).ast) := by
  have reads : Reads (Ty.leaf (.fixedString size)).getName (Ty.leaf (.fixedString size)).fill :=
    (readsElements_toDecimal fits).typeName .fixedString (by decide)
  exact reads.parseTypeName (validateAST_ast _)

/-- A `FixedString(0)` is created, and its size is not defined. -/
theorem not_sizeLaw_fixedStringZero :
    letI := lengthHashing
    ¬ SizeLaw ⟨false⟩ (ascii "FixedString(0)") := by
  let _ := lengthHashing
  intro law
  have name : (Ty.leaf (.fixedString 0)).getName = ascii "FixedString(0)" := by decide +kernel
  have parsed := parseTypeName_fixedString (show 0 < 2 ^ 63 by decide)
  rw [name] at parsed
  obtain ⟨-, sized⟩ := law _ parsed
  have created : createColumnFromAst ⟨false⟩ (Ty.leaf (.fixedString 0)).ast =
      .ok (some (.fixedString 0)) :=
      create_fixedString (by decide) (Ty.of_fill (.leaf (.fixedString 0)) rfl)
  have defined := (sized _ created).size
  cases defined

end ClickHouse
