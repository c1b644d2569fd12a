import ClickHouse.Client.QueryPacket

/-!
# Quoted parameter values

A parameter travels as a string between single quotes.  The text between the
quotes must not end the literal early, must say which value it stands for, and
must not be taken for the text that stands for NULL.
-/

namespace ClickHouse

open Kit List

/-! ## Varints delimit themselves -/

/-- A byte of a varint says by its high bit whether another one follows. -/
theorem varintByte_continues (value : Nat) :
    (let byte := UInt8.ofNat (value &&& 0x7F)
     (if value > 0x7F then byte ||| 0x80 else byte) &&& 0x80 = 0) ↔ value >>> 7 = 0 := by
  have low : value &&& 0x7F = value % 128 := Nat.and_two_pow_sub_one_eq_mod value 7
  have high : value >>> 7 = value / 128 := Nat.shiftRight_eq_div_pow value 7
  obtain ⟨stops, -, continues, -⟩ := varint_byte (value % 128) (Nat.mod_lt _ (by omega))
  rw [low, high]
  dsimp only
  split
  · exact iff_of_false continues (by omega)
  · exact iff_of_true stops (by omega)

/-- What follows a varint is determined by the bytes, whatever the number. -/
theorem writeVarintLoop_append_inj {fuel m n : Nat} {xs ys : Bytes}
    (same : writeVarintLoop fuel m ++ xs = writeVarintLoop fuel n ++ ys) : xs = ys := by
  induction fuel generalizing m n with
  | zero => exact same
  | succ fuel ih =>
    rw [writeVarintLoop, writeVarintLoop] at same
    have first := (cons.inj same).1
    have rest := (cons.inj same).2
    -- Equal first bytes have equal continuation bits.
    have alike : m >>> 7 = 0 ↔ n >>> 7 = 0 := by
      rw [← varintByte_continues m, ← varintByte_continues n]
      dsimp only at first ⊢
      rw [first]
    by_cases last : m >>> 7 = 0
    · rw [if_pos last, if_pos (alike.mp last)] at rest
      exact rest
    · rw [if_neg last, if_neg (mt alike.mpr last)] at rest
      exact ih rest

variable {a b : Bytes} {c : UInt8}

theorem writeString_inj (same : (writeString a).flatten = (writeString b).flatten) : a = b := by
  rw [flatten_writeString, flatten_writeString] at same
  exact writeVarintLoop_append_inj same

/-! ## The text between the quotes -/

/-- What is written for one character of a value. -/
def quotedByte (c : UInt8) : Bytes :=
  if isQuotedChar c then 0x5C :: quotedSuffix c else [c]

theorem flatten_quotedPieces_eq (start value : Bytes) :
    (quotedPieces start value).flatten = start ++ value.flatMap quotedByte := by
  induction value generalizing start with
  | nil => simp [quotedPieces]
  | cons c value ih =>
    rw [quotedPieces, flatMap_cons, quotedByte]
    split
    · simp [ih]
    · simp [ih]

theorem quotedForm_eq (value : Bytes) :
    quotedForm value = 0x27 :: (value.flatMap quotedByte ++ [0x27]) := by
  rw [quotedForm, flatten_quotedPieces_eq]
  rfl

theorem quotedSuffix_inj {d : UInt8} (left : isQuotedChar c) (right : isQuotedChar d)
    (same : quotedSuffix c = quotedSuffix d) : c = d := by
  rcases isQuotedChar_iff.mp left with rfl | rfl | rfl | rfl | rfl | rfl <;>
    rcases isQuotedChar_iff.mp right with rfl | rfl | rfl | rfl | rfl | rfl <;>
    first | rfl | (revert same; decide)

/-- A text that starts with a backslash was written for a character that is quoted. -/
theorem isQuotedChar_of_backslash {value rest : Bytes}
    (text : value.flatMap quotedByte = 0x5C :: rest) :
    ∃ c tail, value = c :: tail ∧ isQuotedChar c ∧
      rest = quotedSuffix c ++ tail.flatMap quotedByte := by
  cases value with
  | nil => simp at text
  | cons c tail =>
    rw [flatMap_cons, quotedByte] at text
    split at text
    · rename_i quoted
      simp only [cons_append, cons.injEq, true_and] at text
      exact ⟨c, tail, rfl, quoted, text.symm⟩
    · rename_i plain
      simp only [cons_append, nil_append, cons.injEq] at text
      exact (plain (isQuotedChar_iff.mpr (by simp [text.1]))).elim

/-- No two values are quoted alike: a backslash announces four bytes that name one character, and
every other byte stands for itself. -/
theorem flatMap_quotedByte_inj (same : a.flatMap quotedByte = b.flatMap quotedByte) : a = b := by
  induction a generalizing b with
  | nil =>
    cases b with
    | nil => rfl
    | cons d b =>
      rw [flatMap_cons, quotedByte] at same
      split at same <;> simp at same
  | cons c a ih =>
    rw [flatMap_cons, quotedByte] at same
    split at same
    · rename_i quoted
      obtain ⟨d, tail, rfl, quotedToo, rest⟩ := isQuotedChar_of_backslash same.symm
      obtain ⟨suffix, tails⟩ := append_inj rest
        ((length_quotedSuffix quoted).trans (length_quotedSuffix quotedToo).symm)
      rw [quotedSuffix_inj quoted quotedToo suffix, ih tails]
    · rename_i plain
      cases b with
      | nil => simp at same
      | cons d b =>
        rw [flatMap_cons, quotedByte] at same
        split at same
        · simp only [cons_append, nil_append, cons.injEq] at same
          exact (plain (isQuotedChar_iff.mpr (by simp [same.1]))).elim
        · simp only [cons_append, nil_append, cons.injEq] at same
          rw [same.1, ih same.2]

/-- The bytes that may not stand between the quotes. -/
def breaksLiteral (c : UInt8) : Bool :=
  c == 0x27 || c == 0x00 || c == 0x08 || c == 0x09 || c == 0x0A

theorem breaksLiteral_of_mem {d : UInt8} (mem : d ∈ quotedByte c) : breaksLiteral d = false := by
  rw [quotedByte] at mem
  split at mem
  · rename_i quoted
    have none : ((0x5C :: quotedSuffix c).all fun d => !breaksLiteral d) = true := by
      rcases isQuotedChar_iff.mp quoted with rfl | rfl | rfl | rfl | rfl | rfl <;> decide
    simpa using all_eq_true.mp none d mem
  · rename_i plain
    rw [mem_singleton.mp mem]
    unfold isQuotedChar at plain
    unfold breaksLiteral
    simp only [Bool.or_eq_true, not_or, Bool.not_eq_true] at plain
    simp [plain]

/-- Every backslash of the text is followed by the character it escapes, so that none of them
reaches the closing quote. -/
def backslashesPaired : Bytes → Bool
  | [] => true
  | c :: rest =>
    if c = 0x5C then
      match rest with
      | [] => false
      | _ :: rest => backslashesPaired rest
    else backslashesPaired rest

theorem backslashesPaired_cons (other : c ≠ 0x5C) (rest : Bytes) :
    backslashesPaired (c :: rest) = backslashesPaired rest := by
  cases rest <;> simp [backslashesPaired, other]

theorem backslashesPaired_quotedByte (c : UInt8) (rest : Bytes) :
    backslashesPaired (quotedByte c ++ rest) = backslashesPaired rest := by
  rw [quotedByte]
  split
  · rename_i quoted
    rcases isQuotedChar_iff.mp quoted with rfl | rfl | rfl | rfl | rfl | rfl <;>
      simp [quotedSuffix, ascii, backslashesPaired, backslashesPaired_cons]
  · rename_i plain
    have other : c ≠ 0x5C := fun backslash => plain (isQuotedChar_iff.mpr (by simp [backslash]))
    rw [cons_append, nil_append, backslashesPaired_cons other]

theorem backslashesPaired_flatMap (value : Bytes) :
    backslashesPaired (value.flatMap quotedByte) = true := by
  induction value with
  | nil => rfl
  | cons c value ih => rw [flatMap_cons, backslashesPaired_quotedByte, ih]

/-! ## What the server reads -/

/-- The bytes written for a value are a length and as many bytes: a literal between single quotes
that nothing inside it ends or leaves open. -/
def WellQuoted (bytes : Bytes) : Prop :=
  ∃ text : Bytes, bytes = writeVarint64 (0x27 :: (text ++ [0x27])).length ++
      0x27 :: (text ++ [0x27]) ∧
    text.all (fun c => !breaksLiteral c) = true ∧ backslashesPaired text = true

/-- A value is written as a literal of its own, which is neither that of another value nor that
of NULL. -/
def QuotedExactly (value : Bytes) : Prop :=
  ∃ bytes, Emits (writeQuotedString value) bytes ∧ WellQuoted bytes ∧
    (∀ other, Emits (writeQuotedString other) bytes → other = value) ∧
    ¬ Emits writeParamNullRepresentation bytes

theorem wellQuoted_quotedForm (value : Bytes) :
    WellQuoted (writeString (quotedForm value)).flatten := by
  refine ⟨value.flatMap quotedByte, ?_, ?_, backslashesPaired_flatMap value⟩
  · rw [flatten_writeString, quotedForm_eq]
  · simp only [all_eq_true, mem_flatMap, Bool.not_eq_true']
    rintro d ⟨c, -, mem⟩
    exact breaksLiteral_of_mem mem

theorem quotedForm_inj (same : quotedForm a = quotedForm b) : a = b := by
  rw [quotedForm_eq, quotedForm_eq, cons.injEq] at same
  exact flatMap_quotedByte_inj (append_cancel_right same.2)

/-- The text for NULL escapes one character by two bytes, and a quoted character takes four. -/
theorem quotedForm_ne_null (value : Bytes) : quotedForm value ≠ paramForm none := by
  intro same
  have size := congrArg length same
  rw [quotedForm_eq] at same
  have text : value.flatMap quotedByte = [0x5C, 0x5C, 0x4E] :=
    append_cancel_right (cons.inj same).2
  obtain ⟨c, tail, rfl, quoted, -⟩ := isQuotedChar_of_backslash text
  rw [length_quotedForm, countP_cons_of_pos quoted, length_cons] at size
  simp only [paramForm, length_cons, length_nil] at size
  omega

theorem eq_of_emits_writeQuotedString {value bytes : Bytes}
    (emits : Emits (writeQuotedString value) bytes) :
    bytes = (writeString (quotedForm value)).flatten :=
  emits.2.symm.trans (emits_writeQuotedString (fits_of_emits_writeQuotedString emits)).2

/-- Quoting is exact for the values whose quoted characters an `int` can count three times. -/
theorem quotedExactly_iff (value : Bytes) :
    QuotedExactly value ↔ 3 * value.countP isQuotedChar < 2 ^ 31 := by
  constructor
  · rintro ⟨bytes, emits, -⟩
    exact fits_of_emits_writeQuotedString emits
  · intro fits
    refine ⟨_, emits_writeQuotedString fits, wellQuoted_quotedForm value, ?_, ?_⟩
    · intro other emits
      exact quotedForm_inj (writeString_inj (eq_of_emits_writeQuotedString emits).symm)
    · intro null
      have bytes : (writeString (paramForm none)).flatten =
          (writeString (quotedForm value)).flatten := null.2
      exact quotedForm_ne_null value (writeString_inj bytes).symm

/-- A value of 715827883 single quotes needs more bytes than the `int` can count. -/
theorem not_quotedExactly_quotes : ¬ QuotedExactly (replicate 715827883 0x27) := by
  intro exactly
  obtain ⟨bytes, emits, -⟩ := exactly
  have fits := fits_of_emits_writeQuotedString emits
  rw [countP_replicate] at fits
  simp [isQuotedChar] at fits

end ClickHouse
