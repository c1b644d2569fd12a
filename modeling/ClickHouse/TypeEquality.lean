import ClickHouse.Kit.Delimited
import ClickHouse.TypeNames
import Mathlib.Algebra.GroupWithZero.Nat

/-!
# Equality of types

Types are compared by their codes and by hashes of the names they print, so that
two types are told apart only if their names are.  A printed name can be read in
one way: its head is a word that names the code, and the parameters behind it
are numbers, quoted texts, field names and names of types, each of which shows
where it ends.
-/

namespace ClickHouse

open Kit List FixedType

/-! ## Types that can be made -/

/-- Made from items with distinct names and distinct values. -/
def EnumType.Distinct (type : EnumType) : Prop :=
  ∃ items : List EnumItem, (items.map Prod.fst).Nodup ∧ (items.map Prod.snd).Nodup ∧
    type = .ofItems items

def FixedType.WellFormed : FixedType → Prop
  | .enum8 type | .enum16 type => type.Distinct
  | _ => True

def LeafType.WellFormed : LeafType → Prop
  | .fixed type => type.WellFormed
  | _ => True

mutual

/-- Enums have distinct items, and the constructor of a tuple has seen no names or a name for each
item. -/
def Ty.WellFormed : Ty → Prop
  | .leaf type => type.WellFormed
  | .geo _ => True
  | .array item => item.WellFormed
  | .nullable nested => nested.WellFormed
  | .tuple items names =>
    (names = [] ∨ names.length = items.length) ∧ Ty.AllWellFormed items
  | .lowCardinality nested => nested.WellFormed
  | .map key value => key.WellFormed ∧ value.WellFormed

def Ty.AllWellFormed : List Ty → Prop
  | [] => True
  | item :: items => item.WellFormed ∧ Ty.AllWellFormed items

end

theorem Ty.AllWellFormed.mem {items : List Ty} (all : Ty.AllWellFormed items) :
    ∀ item ∈ items, item.WellFormed := by
  induction items with
  | nil => simp
  | cons item items ih =>
    rintro other (_ | ⟨_, mem⟩)
    · exact all.1
    · exact ih all.2 other mem

/-! ## Numbers, quoted texts and field names -/

/-- What stands behind a type in the name of another one. -/
def Follows (rest : Bytes) : Prop := ∀ c ∈ rest.head?, c = 0x2C ∨ c = 0x29

theorem follows_nil : Follows [] := by
  intro c mem
  cases mem

theorem follows_comma (rest : Bytes) : Follows (ascii ", " ++ rest) := by
  intro c mem
  cases mem
  exact .inl rfl

theorem follows_close (rest : Bytes) : Follows (ascii ")" ++ rest) := by
  intro c mem
  cases mem
  exact .inr rfl

variable {rest rest' a b : Bytes}

theorem Follows.delimits (follows : Follows rest) : Delimits rest := by
  intro c mem
  rcases follows c mem with rfl | rfl <;> rfl

theorem Delimits.not_digit (delimits : Delimits rest) : ∀ c ∈ rest.head?, isDigit c = false := by
  intro c mem
  have other := delimits c mem
  unfold isNameChar at other
  simp only [Bool.or_eq_false_iff] at other
  exact other.1.2

theorem toDecimal_append_inj {m n : Nat} (delimits : Delimits rest) (delimits' : Delimits rest')
    (same : toDecimal m ++ rest = toDecimal n ++ rest') : m = n ∧ rest = rest' := by
  obtain ⟨digits, rests⟩ := append_inj_of_all (fun c mem => isDigit_toDecimal mem)
    (fun c mem => isDigit_toDecimal mem) delimits.not_digit delimits'.not_digit same
  rw [← digitsValue_toDecimal m, digits, digitsValue_toDecimal]
  exact ⟨rfl, rests⟩

/-- A number does not start with a sign. -/
theorem toDecimal_append_ne_minus (n : Nat) (rest rest' : Bytes) :
    toDecimal n ++ rest ≠ 0x2D :: rest' := by
  intro same
  obtain ⟨c, digits, text⟩ := exists_cons_of_ne_nil (toDecimal_ne_nil n)
  have digit : isDigit c = true := isDigit_toDecimal (by rw [text]; exact mem_cons_self ..)
  rw [text, cons_append, cons.injEq] at same
  rw [same.1] at digit
  cases digit

theorem toDecimalInt_append_inj {m n : Int} (delimits : Delimits rest)
    (delimits' : Delimits rest') (same : toDecimalInt m ++ rest = toDecimalInt n ++ rest') :
    m = n ∧ rest = rest' := by
  cases m with
  | ofNat m =>
    cases n with
    | ofNat n =>
      obtain ⟨rfl, rests⟩ := toDecimal_append_inj delimits delimits' same
      exact ⟨rfl, rests⟩
    | negSucc n => exact (toDecimal_append_ne_minus _ _ _ same).elim
  | negSucc m =>
    cases n with
    | ofNat n => exact (toDecimal_append_ne_minus _ _ _ same.symm).elim
    | negSucc n =>
      obtain ⟨successors, rests⟩ := toDecimal_append_inj delimits delimits' (cons.inj same).2
      obtain rfl : m = n := by omega
      exact ⟨rfl, rests⟩

/-- An escaped text ends with the first quote that is not escaped. -/
theorem escape_append_inj (more : rest ≠ []) (more' : rest' ≠ [])
    (same : escapeStringLiteral a ++ 0x27 :: rest = escapeStringLiteral b ++ 0x27 :: rest') :
    a = b ∧ rest = rest' := by
  have lexed := congrArg lexQuotedString same
  rw [lexQuotedString_escape a more, lexQuotedString_escape b more', Prod.mk.injEq] at lexed
  exact ⟨append_cancel_right lexed.1, lexed.2⟩

/-- A backtick that is not followed by another one ends the name. -/
theorem doubleBackticks_append_inj
    (same : doubleBackticks a ++ 0x60 :: 0x20 :: rest =
      doubleBackticks b ++ 0x60 :: 0x20 :: rest') : a = b ∧ rest = rest' := by
  induction a generalizing b with
  | nil =>
    cases b with
    | nil =>
      simp only [doubleBackticks, nil_append, cons.injEq, true_and] at same
      exact ⟨rfl, same⟩
    | cons d b =>
      rw [doubleBackticks, doubleBackticks] at same
      split at same
      · simp at same
      · rename_i other
        simp only [nil_append, cons_append, cons.injEq] at same
        exact (other same.1.symm).elim
  | cons c a ih =>
    cases b with
    | nil =>
      rw [doubleBackticks, doubleBackticks] at same
      split at same
      · simp at same
      · rename_i other
        simp only [nil_append, cons_append, cons.injEq] at same
        exact (other same.1).elim
    | cons d b =>
      rw [doubleBackticks, doubleBackticks] at same
      split at same <;> split at same <;>
        simp only [cons_append, cons.injEq, true_and] at same
      · rename_i left right
        obtain ⟨rfl, rests⟩ := ih same
        exact ⟨by rw [left, right], rests⟩
      · rename_i left right
        exact (right same.1.symm).elim
      · rename_i left right
        exact (left same.1).elim
      · obtain ⟨rfl, rests⟩ := ih same.2
        exact ⟨by rw [same.1], rests⟩

theorem isNameChar_of_plain {name : Bytes} (plain : isPlainIdentifier name) :
    ∀ c ∈ name, isNameChar c = true := by
  cases name with
  | nil => simp
  | cons c name =>
    simp only [isPlainIdentifier, Bool.and_eq_true, all_eq_true] at plain
    rintro d (_ | ⟨_, mem⟩)
    · have first := plain.1
      unfold isNameChar
      simp only [Bool.or_eq_true] at first ⊢
      rcases first with letter | underscore
      · exact .inl (.inl letter)
      · exact .inr underscore
    · have other := plain.2 d mem
      unfold isNameChar
      simp only [Bool.or_eq_true] at other ⊢
      rcases other with (letter | underscore) | digit
      · exact .inl (.inl letter)
      · exact .inr underscore
      · exact .inl (.inr digit)

theorem delimits_space (rest : Bytes) : Delimits (0x20 :: rest) := delimits_cons rfl rest

/-- A plain name is not a quoted one. -/
theorem plain_append_ne_backtick {name : Bytes} (plain : isPlainIdentifier name)
    (rest rest' : Bytes) : name ++ rest ≠ 0x60 :: rest' := by
  intro same
  cases name with
  | nil => cases plain
  | cons c name =>
    have first := isNameChar_of_plain plain c (mem_cons_self ..)
    rw [cons_append, cons.injEq] at same
    rw [same.1] at first
    cases first

theorem fieldname_append_inj (same : fieldname a ++ 0x20 :: rest = fieldname b ++ 0x20 :: rest') :
    a = b ∧ rest = rest' := by
  unfold fieldname at same
  split at same <;> split at same
  · rename_i left right
    obtain ⟨rfl, rests⟩ := append_inj_of_all (isNameChar_of_plain left) (isNameChar_of_plain right)
      (delimits_space rest) (delimits_space rest') same
    exact ⟨rfl, (cons.inj rests).2⟩
  · rename_i left right
    exact (plain_append_ne_backtick left _ _ same).elim
  · rename_i left right
    exact (plain_append_ne_backtick right _ _ same.symm).elim
  · simp only [cons_append, append_assoc, nil_append, cons.injEq,
      true_and] at same
    exact doubleBackticks_append_inj same

/-! ## The head of a name -/

def FixedType.suffix : FixedType → Bytes
  | .dateTime timezone =>
    if timezone.isEmpty then [] else ascii "('" ++ escapeStringLiteral timezone ++ ascii "')"
  | .dateTime64 precision timezone =>
    ascii "(" ++ toDecimal precision ++
      (if timezone.isEmpty then [] else ascii ", '" ++ escapeStringLiteral timezone ++ ascii "'") ++
      ascii ")"
  | .time64 precision => ascii "(" ++ toDecimal precision ++ ascii ")"
  | .decimal precision scale =>
    ascii "(" ++ toDecimal precision ++ ascii "," ++ toDecimal scale ++ ascii ")"
  | .enum8 type | .enum16 type => type.getName "("
  | _ => []

def LeafType.suffix : LeafType → Bytes
  | .fixed type => type.suffix
  | .fixedString size => ascii "(" ++ toDecimal size ++ ascii ")"
  | _ => []

/-- What a type prints behind the name of its code. -/
def Ty.suffix : Ty → Bytes
  | .leaf type => type.suffix
  | .geo _ => []
  | .array item => ascii "(" ++ item.getName ++ ascii ")"
  | .nullable nested => ascii "(" ++ nested.getName ++ ascii ")"
  | .tuple items names =>
    ascii "(" ++ joinComma (tupleFields names (Ty.getNames items)) ++ ascii ")"
  | .lowCardinality nested => ascii "(" ++ nested.getName ++ ascii ")"
  | .map key value => ascii "(" ++ key.getName ++ ascii ", " ++ value.getName ++ ascii ")"

theorem EnumType.getName_eq (type : EnumType) {head word : String}
    (split : ascii head = ascii word ++ ascii "(") :
    type.getName head = ascii word ++ type.getName "(" := by
  simp only [EnumType.getName, split, append_assoc]

theorem FixedType.getName_eq (type : FixedType) :
    type.getName = ascii type.code.typeName ++ type.suffix := by
  cases type with
  | enum8 type =>
    have split : ascii "Enum8(" = ascii "Enum8" ++ ascii "(" := by decide
    exact type.getName_eq split
  | enum16 type =>
    have split : ascii "Enum16(" = ascii "Enum16" ++ ascii "(" := by decide
    exact type.getName_eq split
  | dateTime timezone => rfl
  | dateTime64 precision timezone =>
    have split : ascii "DateTime64(" = ascii "DateTime64" ++ ascii "(" := by decide
    simp only [getName, suffix, split, append_assoc]
    rfl
  | time64 precision =>
    have split : ascii "Time64(" = ascii "Time64" ++ ascii "(" := by decide
    simp only [getName, suffix, split, append_assoc]
    rfl
  | decimal precision scale =>
    have split : ascii "Decimal(" = ascii "Decimal" ++ ascii "(" := by decide
    simp only [getName, suffix, split, append_assoc]
    rfl
  | _ => exact (append_nil _).symm

theorem LeafType.getName_eq (type : LeafType) :
    type.getName = ascii type.code.typeName ++ type.suffix := by
  cases type with
  | fixed type => exact type.getName_eq
  | fixedString size =>
    have split : ascii "FixedString(" = ascii "FixedString" ++ ascii "(" := by decide
    simp only [LeafType.getName, LeafType.suffix, split, append_assoc]
    rfl
  | _ => exact (append_nil _).symm

theorem Ty.getName_eq (type : Ty) : type.getName = ascii type.code.typeName ++ type.suffix := by
  cases type with
  | leaf type => exact type.getName_eq
  | geo kind => exact (append_nil _).symm
  | array item =>
    have split : ascii "Array(" = ascii "Array" ++ ascii "(" := by decide
    simp only [Ty.getName, Ty.suffix, split, append_assoc]
    rfl
  | nullable nested =>
    have split : ascii "Nullable(" = ascii "Nullable" ++ ascii "(" := by decide
    simp only [Ty.getName, Ty.suffix, split, append_assoc]
    rfl
  | tuple items names =>
    have split : ascii "Tuple(" = ascii "Tuple" ++ ascii "(" := by decide
    simp only [Ty.getName, Ty.suffix, split, append_assoc]
    rfl
  | lowCardinality nested =>
    have split : ascii "LowCardinality(" = ascii "LowCardinality" ++ ascii "(" := by decide
    simp only [Ty.getName, Ty.suffix, split, append_assoc]
    rfl
  | map key value =>
    have split : ascii "Map(" = ascii "Map" ++ ascii "(" := by decide
    simp only [Ty.getName, Ty.suffix, split, append_assoc]
    rfl

theorem FixedType.suffix_starts (type : FixedType) :
    type.suffix = [] ∨ ∃ text, type.suffix = 0x28 :: text := by
  cases type with
  | dateTime timezone =>
    rw [suffix]
    split
    · exact .inl rfl
    · exact .inr ⟨_, rfl⟩
  | dateTime64 precision timezone => exact .inr ⟨_, rfl⟩
  | time64 precision => exact .inr ⟨_, rfl⟩
  | decimal precision scale => exact .inr ⟨_, rfl⟩
  | enum8 type => exact .inr ⟨_, rfl⟩
  | enum16 type => exact .inr ⟨_, rfl⟩
  | _ => exact .inl rfl

theorem Ty.suffix_starts (type : Ty) : type.suffix = [] ∨ ∃ text, type.suffix = 0x28 :: text := by
  cases type with
  | leaf type =>
    cases type with
    | fixed type => exact type.suffix_starts
    | fixedString size => exact .inr ⟨_, rfl⟩
    | _ => exact .inl rfl
  | geo kind => exact .inl rfl
  | array item => exact .inr ⟨_, rfl⟩
  | nullable nested => exact .inr ⟨_, rfl⟩
  | tuple items names => exact .inr ⟨_, rfl⟩
  | lowCardinality nested => exact .inr ⟨_, rfl⟩
  | map key value => exact .inr ⟨_, rfl⟩

/-- Behind the word for the code there is a parenthesis, or what follows the type. -/
theorem Ty.suffix_append_head (type : Ty) (follows : Follows rest) :
    ∀ c ∈ (type.suffix ++ rest).head?, c = 0x28 ∨ c = 0x2C ∨ c = 0x29 := by
  rcases type.suffix_starts with none | ⟨text, some⟩
  · rw [none, nil_append]
    exact fun c mem => .inr (follows c mem)
  · rw [some]
    intro c mem
    cases mem
    exact .inl rfl

theorem Ty.delimits_suffix (type : Ty) (follows : Follows rest) :
    Delimits (type.suffix ++ rest) := by
  intro c mem
  rcases type.suffix_append_head follows c mem with rfl | rfl | rfl <;> rfl

variable {t u : Ty}

/-- Names that start alike are names of types with the same code. -/
theorem Ty.head_inj (follows : Follows rest) (follows' : Follows rest')
    (same : t.getName ++ rest = u.getName ++ rest') :
    t.code = u.code ∧ t.suffix ++ rest = u.suffix ++ rest' := by
  rw [t.getName_eq, u.getName_eq, append_assoc, append_assoc] at same
  obtain ⟨words, suffixes⟩ := append_inj_of_all
    (isNameChar_of_plain (isPlainIdentifier_typeName t.code))
    (isNameChar_of_plain (isPlainIdentifier_typeName u.code)) (t.delimits_suffix follows)
    (u.delimits_suffix follows') same
  have codes := congrArg getTypeCode words
  rw [getTypeCode_typeName, getTypeCode_typeName] at codes
  exact ⟨codes, suffixes⟩

/-! ## Parameters of leaves -/

/-- A text between a parenthesis and a parenthesis. -/
theorem parenthesised {text : Bytes} :
    ascii "(" ++ text ++ ascii ")" ++ rest = 0x28 :: (text ++ (ascii ")" ++ rest)) := by
  simp only [append_assoc]
  rfl

theorem close_ne_nil (rest : Bytes) : ascii ")" ++ rest ≠ [] :=
  append_ne_nil_of_left_ne_nil (by decide) _

/-- One entry of an enum ends with its number. -/
theorem delimited_enumEntry (entry : Int × Bytes) :
    Delimited enumEntryName (fun _ => True) Follows entry := by
  rintro other rest rest' - follows follows' same
  have shape (entry : Int × Bytes) (rest : Bytes) : enumEntryName entry ++ rest =
      0x27 :: (escapeStringLiteral entry.2 ++ 0x27 :: (ascii " = " ++
        (toDecimalInt entry.1 ++ rest))) := by
    simp only [enumEntryName, append_assoc]
    rfl
  have more (rest : Bytes) : ascii " = " ++ rest ≠ [] :=
    append_ne_nil_of_left_ne_nil (by decide) _
  rw [shape, shape, cons.injEq] at same
  obtain ⟨labels, values⟩ := escape_append_inj (more _) (more _) same.2
  obtain ⟨numbers, rests⟩ := toDecimalInt_append_inj follows.delimits follows'.delimits
    (append_cancel_left values)
  exact ⟨Prod.ext numbers labels, rests⟩

theorem joinComma_eq (texts : List Bytes) : joinComma texts = separated (ascii ", ") texts := by
  fun_induction joinComma texts with
  | case1 => rfl
  | case2 x => rfl
  | case3 x y rest ih => rw [separated, ih]

theorem comma_ne_close (rest rest' : Bytes) : ascii ", " ++ rest ≠ ascii ")" ++ rest' := by
  intro same
  cases (cons.inj same).1

theorem EnumType.suffix_inj {t u : EnumType} (left : t.Distinct) (right : u.Distinct)
    (same : t.getName "(" ++ rest = u.getName "(" ++ rest') : t = u ∧ rest = rest' := by
  unfold EnumType.getName at same
  rw [parenthesised, parenthesised, cons.injEq, joinComma_eq, joinComma_eq] at same
  have opens (entry : Int × Bytes) (rest rest' : Bytes) (_ : True) :
      enumEntryName entry ++ rest ≠ ascii ")" ++ rest' := by
    intro same
    cases (cons.inj same).1
  obtain ⟨entries, rests⟩ := Delimited.separated follows_comma follows_close comma_ne_close opens
    (fun entry _ => ⟨trivial, delimited_enumEntry entry⟩) (fun _ _ => trivial) same.2
  refine ⟨?_, rests⟩
  -- An enum is made again from the entries it prints.
  obtain ⟨items, labels, values, rfl⟩ := left
  obtain ⟨items', labels', values', rfl⟩ := right
  rw [← EnumType.ofItems_entries labels values, entries, EnumType.ofItems_entries labels' values']

/-- The types that the code alone determines. -/
def FixedType.ofCode : Code → FixedType
  | .int16 => .int16
  | .int32 => .int32
  | .int64 => .int64
  | .int128 => .int128
  | .uint8 => .uint8
  | .uint16 => .uint16
  | .uint32 => .uint32
  | .uint64 => .uint64
  | .uint128 => .uint128
  | .float32 => .float32
  | .float64 => .float64
  | .bool => .bool
  | .date => .date
  | .date32 => .date32
  | .time => .time
  | .uuid => .uuid
  | .ipv4 => .ipv4
  | .ipv6 => .ipv6
  | _ => .int8

/-- Types with these codes have parameters. -/
def Code.hasParameters : Code → Bool
  | .dateTime | .dateTime64 | .time64 | .decimal | .enum8 | .enum16 => true
  | _ => false

theorem FixedType.eq_ofCode {type : FixedType} (plain : type.code.hasParameters = false) :
    type = .ofCode type.code ∧ type.suffix = [] := by
  cases type with
  | dateTime timezone => cases plain
  | dateTime64 precision timezone => cases plain
  | time64 precision => cases plain
  | decimal precision scale => cases plain
  | enum8 type => cases plain
  | enum16 type => cases plain
  | _ => exact ⟨rfl, rfl⟩

theorem dateTime_suffix_inj {t u : Bytes} (follows : Follows rest) (follows' : Follows rest')
    (same : (dateTime t).suffix ++ rest = (dateTime u).suffix ++ rest') :
    t = u ∧ rest = rest' := by
  have opens {timezone rest rest' : Bytes} (follows : Follows rest) :
      rest ≠ ascii "('" ++ escapeStringLiteral timezone ++ ascii "')" ++ rest' := by
    rintro rfl
    rcases follows 0x28 rfl with impossible | impossible <;> cases impossible
  have shape (timezone rest : Bytes) :
      ascii "('" ++ escapeStringLiteral timezone ++ ascii "')" ++ rest =
        ascii "('" ++ (escapeStringLiteral timezone ++ 0x27 :: (ascii ")" ++ rest)) := by
    simp only [append_assoc]
    rfl
  unfold suffix at same
  dsimp only at same
  split at same <;> split at same
  · rename_i left right
    rw [isEmpty_iff.mp left, isEmpty_iff.mp right]
    exact ⟨rfl, same⟩
  · exact (opens follows same).elim
  · exact (opens follows' same.symm).elim
  · rw [shape, shape] at same
    obtain ⟨timezones, rests⟩ := escape_append_inj (close_ne_nil rest) (close_ne_nil rest')
      (append_cancel_left same)
    exact ⟨timezones, append_cancel_left rests⟩

theorem dateTime64_suffix_inj {p q : Fin 19} {t u : Bytes}
    (same : (dateTime64 p t).suffix ++ rest =
      (dateTime64 q u).suffix ++ rest') : p = q ∧ t = u ∧ rest = rest' := by
  have shape (p : Fin 19) (t rest : Bytes) : (dateTime64 p t).suffix ++ rest =
      0x28 :: (toDecimal p ++ ((if t.isEmpty then [] else
        ascii ", '" ++ escapeStringLiteral t ++ ascii "'") ++ (ascii ")" ++ rest))) := by
    unfold suffix
    simp only [append_assoc]
    rfl
  have delimits (t rest : Bytes) : Delimits ((if t.isEmpty then [] else
      ascii ", '" ++ escapeStringLiteral t ++ ascii "'") ++ (ascii ")" ++ rest)) := by
    split
    · exact delimits_cons rfl _
    · exact delimits_cons rfl _
  have quoted (t rest : Bytes) :
      ascii ", '" ++ escapeStringLiteral t ++ ascii "'" ++ (ascii ")" ++ rest) =
        ascii ", '" ++ (escapeStringLiteral t ++ 0x27 :: (ascii ")" ++ rest)) := by
    simp only [append_assoc]
    rfl
  rw [shape, shape, cons.injEq] at same
  obtain ⟨precisions, behind⟩ := toDecimal_append_inj (delimits t rest) (delimits u rest') same.2
  refine ⟨Fin.ext precisions, ?_⟩
  split at behind <;> split at behind
  · rename_i left right
    rw [isEmpty_iff.mp left, isEmpty_iff.mp right]
    exact ⟨rfl, append_cancel_left behind⟩
  · cases (cons.inj behind).1
  · cases (cons.inj behind).1
  · rw [quoted, quoted] at behind
    obtain ⟨timezones, rests⟩ := escape_append_inj (close_ne_nil rest) (close_ne_nil rest')
      (append_cancel_left behind)
    exact ⟨timezones, append_cancel_left rests⟩

/-- A number between parentheses. -/
theorem number_inj {m n : Nat}
    (same : ascii "(" ++ toDecimal m ++ ascii ")" ++ rest =
      ascii "(" ++ toDecimal n ++ ascii ")" ++ rest') : m = n ∧ rest = rest' := by
  rw [parenthesised, parenthesised, cons.injEq] at same
  obtain ⟨numbers, rests⟩ := toDecimal_append_inj (follows_close rest).delimits
    (follows_close rest').delimits same.2
  exact ⟨numbers, append_cancel_left rests⟩

theorem decimal_suffix_inj {p q s t : Nat}
    (same : (decimal p s).suffix ++ rest = (decimal q t).suffix ++ rest') :
    p = q ∧ s = t ∧ rest = rest' := by
  have shape (p s : Nat) (rest : Bytes) : (decimal p s).suffix ++ rest =
      0x28 :: (toDecimal p ++ (0x2C :: (toDecimal s ++ (ascii ")" ++ rest)))) := by
    unfold suffix
    simp only [append_assoc]
    rfl
  rw [shape, shape, cons.injEq] at same
  obtain ⟨precisions, behind⟩ := toDecimal_append_inj (delimits_cons rfl _) (delimits_cons rfl _)
    same.2
  obtain ⟨scales, rests⟩ := toDecimal_append_inj (follows_close rest).delimits
    (follows_close rest').delimits (cons.inj behind).2
  exact ⟨precisions, scales, append_cancel_left rests⟩

theorem FixedType.suffix_inj {t u : FixedType} (left : t.WellFormed) (right : u.WellFormed)
    (codes : t.code = u.code) {rest rest' : Bytes} (follows : Follows rest)
    (follows' : Follows rest') (same : t.suffix ++ rest = u.suffix ++ rest') :
    t = u ∧ rest = rest' := by
  cases plain : t.code.hasParameters with
  | false =>
    obtain ⟨known, none⟩ := eq_ofCode plain
    obtain ⟨known', none'⟩ := eq_ofCode (codes ▸ plain)
    rw [none, none'] at same
    rw [known, known', codes]
    exact ⟨rfl, same⟩
  | true =>
    cases t with
    | dateTime timezone =>
      cases u with
      | dateTime timezone' =>
        obtain ⟨rfl, rests⟩ := dateTime_suffix_inj follows follows' same
        exact ⟨rfl, rests⟩
      | _ => cases codes
    | dateTime64 precision timezone =>
      cases u with
      | dateTime64 precision' timezone' =>
        obtain ⟨rfl, rfl, rests⟩ := dateTime64_suffix_inj same
        exact ⟨rfl, rests⟩
      | _ => cases codes
    | time64 precision =>
      cases u with
      | time64 precision' =>
        obtain ⟨precisions, rests⟩ := number_inj same
        exact ⟨congrArg _ (Fin.ext precisions), rests⟩
      | _ => cases codes
    | decimal precision scale =>
      cases u with
      | decimal precision' scale' =>
        obtain ⟨rfl, rfl, rests⟩ := decimal_suffix_inj same
        exact ⟨rfl, rests⟩
      | _ => cases codes
    | enum8 type =>
      cases u with
      | enum8 type' =>
        obtain ⟨rfl, rests⟩ := EnumType.suffix_inj left right same
        exact ⟨rfl, rests⟩
      | _ => cases codes
    | enum16 type =>
      cases u with
      | enum16 type' =>
        obtain ⟨rfl, rests⟩ := EnumType.suffix_inj left right same
        exact ⟨rfl, rests⟩
      | _ => cases codes
    | _ => cases plain

/-- The codes of the types that are leaves but not of fixed width. -/
theorem FixedType.code_ne (type : FixedType) : type.code ≠ .void ∧ type.code ≠ .fixedString ∧
    type.code ≠ .string ∧ type.code ≠ .json := by
  cases type <;> exact ⟨nofun, nofun, nofun, nofun⟩

theorem LeafType.suffix_inj {t u : LeafType} (left : t.WellFormed) (right : u.WellFormed)
    (codes : t.code = u.code) {rest rest' : Bytes} (follows : Follows rest)
    (follows' : Follows rest') (same : t.suffix ++ rest = u.suffix ++ rest') :
    t = u ∧ rest = rest' := by
  cases t with
  | fixed t =>
    obtain ⟨void, fixedString, string, json⟩ := t.code_ne
    cases u with
    | fixed u =>
      obtain ⟨rfl, rests⟩ := FixedType.suffix_inj left right codes follows follows' same
      exact ⟨rfl, rests⟩
    | void => exact (void codes).elim
    | fixedString size => exact (fixedString codes).elim
    | string => exact (string codes).elim
    | json => exact (json codes).elim
  | void =>
    cases u with
    | void => exact ⟨rfl, same⟩
    | fixed u => exact (u.code_ne.1 codes.symm).elim
    | _ => cases codes
  | fixedString size =>
    cases u with
    | fixedString size' =>
      obtain ⟨rfl, rests⟩ := number_inj same
      exact ⟨rfl, rests⟩
    | fixed u => exact (u.code_ne.2.1 codes.symm).elim
    | _ => cases codes
  | string =>
    cases u with
    | string => exact ⟨rfl, same⟩
    | fixed u => exact (u.code_ne.2.2.1 codes.symm).elim
    | _ => cases codes
  | json =>
    cases u with
    | json => exact ⟨rfl, same⟩
    | fixed u => exact (u.code_ne.2.2.2 codes.symm).elim
    | _ => cases codes

/-! ## Components -/

/-- A field of a tuple, with its name if it has one. -/
def fieldText : Option Bytes × Ty → Bytes
  | (none, item) => item.getName
  | (some name, item) => fieldname name ++ 0x20 :: item.getName

/-- The fields of a tuple. -/
def fieldsOf : List Bytes → List Ty → List (Option Bytes × Ty)
  | name :: names, item :: items => (some name, item) :: fieldsOf names items
  | [], items => items.map (none, ·)
  | _, [] => []

theorem tupleFields_eq (names : List Bytes) (items : List Ty) :
    tupleFields names (Ty.getNames items) = (fieldsOf names items).map fieldText := by
  have unnamed (items : List Ty) : Ty.getNames items = (items.map (none, ·)).map fieldText := by
    induction items with
    | nil => rfl
    | cons item items ih => rw [Ty.getNames, ih]; rfl
  induction names generalizing items with
  | nil => rw [tupleFields_nil, fieldsOf, unnamed]
  | cons name names ih =>
    cases items with
    | nil => rfl
    | cons item items =>
      rw [Ty.getNames, tupleFields, ih, fieldsOf, map_cons, fieldText, append_assoc]
      rfl

/-- The names and the items are read off the fields. -/
theorem map_fieldsOf {names : List Bytes} {items : List Ty}
    (count : names.length ≤ items.length) :
    (fieldsOf names items).map Prod.snd = items ∧
      (fieldsOf names items).filterMap Prod.fst = names := by
  induction names generalizing items with
  | nil => simp [fieldsOf, Function.comp_def]
  | cons name names ih =>
    cases items with
    | nil => cases count
    | cons item items =>
      obtain ⟨types, labels⟩ := ih (Nat.le_of_succ_le_succ count)
      simp [fieldsOf, types, labels]

/-- A type is not a field with a name: behind the word of the type there is no space. -/
theorem Ty.getName_append_ne_field (type : Ty) (name : Bytes) (follows : Follows rest) :
    type.getName ++ rest ≠ fieldname name ++ 0x20 :: rest' := by
  intro same
  have word := isPlainIdentifier_typeName type.code
  rw [type.getName_eq, append_assoc, fieldname] at same
  split at same
  · rename_i plain
    obtain ⟨-, behind⟩ := append_inj_of_all (isNameChar_of_plain word) (isNameChar_of_plain plain)
      (type.delimits_suffix follows) (delimits_space rest') same
    have head := type.suffix_append_head follows
    rw [behind] at head
    rcases head 0x20 rfl with impossible | impossible | impossible <;> cases impossible
  · exact plain_append_ne_backtick word _ _ same

theorem delimited_field {item : Ty} (delimited : Delimited Ty.getName Ty.WellFormed Follows item)
    (name : Option Bytes) :
    Delimited fieldText (fun field => field.2.WellFormed) Follows (name, item) := by
  rintro ⟨name', item'⟩ rest rest' wellFormed follows follows' same
  cases name with
  | none =>
    cases name' with
    | none =>
      obtain ⟨rfl, rests⟩ := delimited wellFormed follows follows' same
      exact ⟨rfl, rests⟩
    | some name' =>
      rw [fieldText, fieldText, append_assoc] at same
      exact (item.getName_append_ne_field name' follows same).elim
  | some name =>
    rw [fieldText, append_assoc, cons_append] at same
    cases name' with
    | none => exact (item'.getName_append_ne_field name follows' same.symm).elim
    | some name' =>
      rw [fieldText, append_assoc, cons_append] at same
      obtain ⟨rfl, behind⟩ := fieldname_append_inj same
      obtain ⟨rfl, rests⟩ := delimited wellFormed follows follows' behind
      exact ⟨rfl, rests⟩

/-- A field starts with a name. -/
theorem fieldText_opens (field : Option Bytes × Ty) (rest rest' : Bytes) :
    fieldText field ++ rest ≠ ascii ")" ++ rest' := by
  have plain {name : Bytes} (plain : isPlainIdentifier name) (rest rest' : Bytes) :
      name ++ rest ≠ ascii ")" ++ rest' := by
    intro same
    cases name with
    | nil => cases plain
    | cons c name =>
      have first := isNameChar_of_plain plain c (mem_cons_self ..)
      rw [(cons.inj same).1] at first
      cases first
  obtain ⟨name, item⟩ := field
  cases name with
  | none =>
    rw [fieldText, item.getName_eq, append_assoc]
    exact plain (isPlainIdentifier_typeName item.code) _ _
  | some name =>
    rw [fieldText, fieldname, append_assoc]
    split
    · rename_i isPlain
      exact plain isPlain _ _
    · intro same
      cases (cons.inj same).1

/-! ## Types -/

/-- Leaves are not composite types. -/
theorem LeafType.code_ne_composite (type : LeafType) : type.code ≠ .array ∧
    type.code ≠ .nullable ∧ type.code ≠ .tuple ∧ type.code ≠ .lowCardinality ∧
    type.code ≠ .map := by
  cases type with
  | fixed type => cases type <;> exact ⟨nofun, nofun, nofun, nofun, nofun⟩
  | _ => exact ⟨nofun, nofun, nofun, nofun, nofun⟩

theorem LeafType.code_ne_geo (type : LeafType) (kind : GeoKind) : type.code ≠ kind.code := by
  cases type with
  | fixed type => cases type <;> cases kind <;> nofun
  | _ => cases kind <;> nofun

/-- Two types of one class. -/
inductive SameClass : Ty → Ty → Prop
  | leaf {t u : LeafType} : t.code = u.code → SameClass (.leaf t) (.leaf u)
  | geo (kind : GeoKind) : SameClass (.geo kind) (.geo kind)
  | array (item item' : Ty) : SameClass (.array item) (.array item')
  | nullable (nested nested' : Ty) : SameClass (.nullable nested) (.nullable nested')
  | tuple (items items' : List Ty) (names names' : List Bytes) :
    SameClass (.tuple items names) (.tuple items' names')
  | lowCardinality (nested nested' : Ty) :
    SameClass (.lowCardinality nested) (.lowCardinality nested')
  | map (key key' value value' : Ty) : SameClass (.map key value) (.map key' value')

theorem sameClass_of_leaf {t : LeafType} (codes : t.code = u.code) : SameClass (.leaf t) u := by
  obtain ⟨array, nullable, tuple, lowCardinality, map⟩ := t.code_ne_composite
  cases u with
  | leaf u => exact .leaf codes
  | geo kind => exact (t.code_ne_geo kind codes).elim
  | array item => exact (array codes).elim
  | nullable nested => exact (nullable codes).elim
  | tuple items names => exact (tuple codes).elim
  | lowCardinality nested => exact (lowCardinality codes).elim
  | map key value => exact (map codes).elim

theorem sameClass_of_geo {kind : GeoKind} (codes : kind.code = u.code) :
    SameClass (.geo kind) u := by
  cases u with
  | leaf u => exact (u.code_ne_geo kind codes.symm).elim
  | geo other =>
    obtain rfl : kind = other := by cases kind <;> cases other <;> first | rfl | cases codes
    exact .geo kind
  | _ => cases kind <;> cases codes

/-- The code of a type says which class it is of. -/
theorem sameClass_of_code (codes : t.code = u.code) : SameClass t u := by
  cases t with
  | leaf t => exact sameClass_of_leaf codes
  | geo kind => exact sameClass_of_geo codes
  | _ =>
    cases u with
    | leaf u =>
      obtain ⟨array, nullable, tuple, lowCardinality, map⟩ := u.code_ne_composite
      have codes := codes.symm
      first
      | exact (array codes).elim
      | exact (nullable codes).elim
      | exact (tuple codes).elim
      | exact (lowCardinality codes).elim
      | exact (map codes).elim
    | geo kind => cases kind <;> cases codes
    | _ => first | constructor | cases codes

/-- One type between parentheses. -/
theorem component_inj {item item' : Ty}
    (delimited : Delimited Ty.getName Ty.WellFormed Follows item)
    (same : ascii "(" ++ item.getName ++ ascii ")" ++ rest =
      ascii "(" ++ item'.getName ++ ascii ")" ++ rest') (wellFormed : item'.WellFormed) :
    item = item' ∧ rest = rest' := by
  rw [parenthesised, parenthesised, cons.injEq] at same
  obtain ⟨items, behind⟩ := delimited wellFormed (follows_close rest) (follows_close rest') same.2
  exact ⟨items, append_cancel_left behind⟩

theorem tuple_inj {items items' : List Ty} {names names' : List Bytes}
    (count : names = [] ∨ names.length = items.length)
    (count' : names' = [] ∨ names'.length = items'.length)
    (left : ∀ item ∈ items, item.WellFormed ∧ Delimited Ty.getName Ty.WellFormed Follows item)
    (right : ∀ item ∈ items', item.WellFormed)
    (same : (Ty.tuple items names).suffix ++ rest = (Ty.tuple items' names').suffix ++ rest') :
    items = items' ∧ names = names' ∧ rest = rest' := by
  have enough {items : List Ty} {names : List Bytes}
      (count : names = [] ∨ names.length = items.length) : names.length ≤ items.length := by
    rcases count with rfl | count
    · exact Nat.zero_le _
    · exact Nat.le_of_eq count
  obtain ⟨types, labels⟩ := map_fieldsOf (enough count)
  obtain ⟨types', labels'⟩ := map_fieldsOf (enough count')
  unfold Ty.suffix at same
  rw [parenthesised, parenthesised, cons.injEq, tupleFields_eq, tupleFields_eq, joinComma_eq,
    joinComma_eq] at same
  have fieldsLeft : ∀ field ∈ fieldsOf names items, field.2.WellFormed ∧
      Delimited fieldText (fun field => field.2.WellFormed) Follows field := by
    intro field mem
    have known := left field.2 (by rw [← types]; exact mem_map_of_mem mem)
    exact ⟨known.1, delimited_field known.2 field.1⟩
  have fieldsRight : ∀ field ∈ fieldsOf names' items', field.2.WellFormed := by
    intro field mem
    exact right field.2 (by rw [← types']; exact mem_map_of_mem mem)
  obtain ⟨fields, rests⟩ := Delimited.separated follows_comma follows_close comma_ne_close
    (fun field rest rest' _ => fieldText_opens field rest rest') fieldsLeft fieldsRight same.2
  exact ⟨by rw [← types, ← types', fields], by rw [← labels, ← labels', fields], rests⟩

theorem map_inj {key key' value value' : Ty}
    (keyDelimited : Delimited Ty.getName Ty.WellFormed Follows key)
    (valueDelimited : Delimited Ty.getName Ty.WellFormed Follows value)
    (right : (Ty.map key' value').WellFormed)
    (same : (Ty.map key value).suffix ++ rest = (Ty.map key' value').suffix ++ rest') :
    key = key' ∧ value = value' ∧ rest = rest' := by
  have shape (key value : Ty) (rest : Bytes) : (Ty.map key value).suffix ++ rest =
      ascii "(" ++ (key.getName ++ (ascii ", " ++ (value.getName ++ (ascii ")" ++ rest)))) := by
    unfold Ty.suffix
    simp only [append_assoc]
  rw [shape, shape] at same
  obtain ⟨keys, behind⟩ := keyDelimited right.1 (follows_comma _) (follows_comma _)
    (append_cancel_left same)
  obtain ⟨values, rests⟩ := valueDelimited right.2 (follows_close _) (follows_close _)
    (append_cancel_left behind)
  exact ⟨keys, values, append_cancel_left rests⟩

mutual

/-- The name of a type is read in one way. -/
theorem Ty.delimited : (type : Ty) → type.WellFormed →
    Delimited Ty.getName Ty.WellFormed Follows type
  | .leaf type, left => by
    rintro u rest rest' right follows follows' same
    obtain ⟨codes, suffixes⟩ := Ty.head_inj follows follows' same
    cases sameClass_of_code codes with
    | leaf codes =>
      obtain ⟨rfl, rests⟩ := LeafType.suffix_inj left right codes follows follows' suffixes
      exact ⟨rfl, rests⟩
  | .geo kind, _ => by
    rintro u rest rest' right follows follows' same
    obtain ⟨codes, suffixes⟩ := Ty.head_inj follows follows' same
    cases sameClass_of_code codes with
    | geo => exact ⟨rfl, suffixes⟩
  | .array item, left => by
    rintro u rest rest' right follows follows' same
    obtain ⟨codes, suffixes⟩ := Ty.head_inj follows follows' same
    cases sameClass_of_code codes with
    | array =>
      obtain ⟨rfl, rests⟩ := component_inj (Ty.delimited item left) suffixes right
      exact ⟨rfl, rests⟩
  | .nullable nested, left => by
    rintro u rest rest' right follows follows' same
    obtain ⟨codes, suffixes⟩ := Ty.head_inj follows follows' same
    cases sameClass_of_code codes with
    | nullable =>
      obtain ⟨rfl, rests⟩ := component_inj (Ty.delimited nested left) suffixes right
      exact ⟨rfl, rests⟩
  | .lowCardinality nested, left => by
    rintro u rest rest' right follows follows' same
    obtain ⟨codes, suffixes⟩ := Ty.head_inj follows follows' same
    cases sameClass_of_code codes with
    | lowCardinality =>
      obtain ⟨rfl, rests⟩ := component_inj (Ty.delimited nested left) suffixes right
      exact ⟨rfl, rests⟩
  | .map key value, left => by
    rintro u rest rest' right follows follows' same
    obtain ⟨codes, suffixes⟩ := Ty.head_inj follows follows' same
    cases sameClass_of_code codes with
    | map =>
      obtain ⟨rfl, rfl, rests⟩ := map_inj (Ty.delimited key left.1) (Ty.delimited value left.2)
        right suffixes
      exact ⟨rfl, rests⟩
  | .tuple items names, left => by
    rintro u rest rest' right follows follows' same
    obtain ⟨codes, suffixes⟩ := Ty.head_inj follows follows' same
    cases sameClass_of_code codes with
    | tuple =>
      obtain ⟨rfl, rfl, rests⟩ := tuple_inj left.1 right.1 (Ty.allDelimited items left.2)
        right.2.mem suffixes
      exact ⟨rfl, rests⟩

theorem Ty.allDelimited : (items : List Ty) → Ty.AllWellFormed items →
    ∀ item ∈ items, item.WellFormed ∧ Delimited Ty.getName Ty.WellFormed Follows item
  | [], _ => by simp
  | item :: items, all => by
    rintro other (_ | ⟨_, mem⟩)
    · exact ⟨all.1, Ty.delimited item all.1⟩
    · exact Ty.allDelimited items all.2 other mem

end

theorem Ty.getName_inj (left : t.WellFormed) (right : u.WellFormed) (same : t.getName = u.getName) :
    t = u :=
  (Ty.delimited t left right follows_nil follows_nil (by rw [same])).1

/-- The name says which type it is, and where it ends in the name of another type. -/
theorem Ty.eq_of_getName {type other : Ty} (left : type.WellFormed) (right : other.WellFormed)
    {rest rest' : Bytes} (follows : Follows rest) (follows' : Follows rest')
    (same : type.getName ++ rest = other.getName ++ rest') : type = other ∧ rest = rest' :=
  Ty.delimited type left right follows follows' same

/-- An enum, as the first of two arguments, does not depend on the order of its labels. -/
theorem Ty.eq_of_getName_enum :
    leaf (.fixed (.enum8 (.ofItems [(ascii "a", 1), (ascii "b", 2)]))) =
      leaf (.fixed (.enum8 (.ofItems [(ascii "b", 2), (ascii "a", 1)]))) := by
  have left : (leaf (.fixed (.enum8 (.ofItems [(ascii "a", 1), (ascii "b", 2)])))).WellFormed :=
    ⟨_, by decide, by decide, rfl⟩
  have right : (leaf (.fixed (.enum8 (.ofItems [(ascii "b", 2), (ascii "a", 1)])))).WellFormed :=
    ⟨_, by decide, by decide, rfl⟩
  have follows := follows_comma (ascii "String)")
  exact (eq_of_getName left right follows follows (by decide)).1

/-! ## Equality -/

/-- A type that is compared by its code alone prints the name of the code. -/
theorem Ty.getName_of_simple {type : Ty} (simple : type.code.isSimple = true) :
    type.getName = ascii type.code.typeName := by
  cases type with
  | leaf type =>
    cases type with
    | fixed type => cases type <;> first | rfl | cases simple
    | fixedString size => cases simple
    | _ => rfl
  | geo kind => rfl
  | _ => cases simple

/-- `IsEqual` is equality, given a hash function that tells the two names apart. -/
theorem Ty.isEqual_iff [Hashing] {t u : Ty} (left : t.WellFormed) (right : u.WellFormed)
    (injective : ∀ seed, Hashing.cityHash64WithSeed t.getName seed =
      Hashing.cityHash64WithSeed u.getName seed → t.getName = u.getName) :
    t.isEqual u = true ↔ t = u := by
  constructor
  · intro equal
    simp only [Ty.isEqual, Bool.and_eq_true, beq_iff_eq] at equal
    obtain ⟨codes, ids⟩ := equal
    refine Ty.getName_inj left right ?_
    unfold Ty.typeUniqueId at ids
    cases simple : t.code.isSimple with
    | true => rw [Ty.getName_of_simple simple, Ty.getName_of_simple (codes ▸ simple), codes]
    | false =>
      rw [← codes, simple] at ids
      exact injective t.code.toNat ids
  · rintro rfl
    exact t.isEqual_self

/-- A tuple of an enum, with a name for its field. -/
def labelledTuple (name : String) : Ty :=
  .tuple [.leaf (.fixed (.enum8 (.ofItems [(ascii "x", 1), (ascii "y", -1)])))] [ascii name]

/-- Two types that differ in the name of a field are not equal. -/
theorem Ty.isEqual_labelledTuple :
    letI : Hashing :=
      ⟨fun data => (1, UInt64.ofNat data.length), fun name _ => UInt64.ofNat (name.map UInt8.toNat).sum⟩
    (labelledTuple "a").isEqual (labelledTuple "b") = true ↔
      labelledTuple "a" = labelledTuple "b" := by
  let _ : Hashing :=
    ⟨fun data => (1, UInt64.ofNat data.length), fun name _ => UInt64.ofNat (name.map UInt8.toNat).sum⟩
  have distinct : EnumType.Distinct (.ofItems [(ascii "x", 1), (ascii "y", -1)]) :=
    ⟨_, by decide, by decide, rfl⟩
  have wellFormed (name : String) : (labelledTuple name).WellFormed :=
    ⟨.inr rfl, distinct, trivial⟩
  have differ : UInt64.ofNat ((labelledTuple "a").getName.map UInt8.toNat).sum ≠
      UInt64.ofNat ((labelledTuple "b").getName.map UInt8.toNat).sum := by decide +kernel
  exact Ty.isEqual_iff (wellFormed "a") (wellFormed "b") fun seed same => absurd same differ

end ClickHouse
