import ClickHouse.TypeParser

/-!
# Lexing what the types print

What `NextToken` makes of the pieces `GetName` is put together from: plain
identifiers, decimal numbers, escaped literals and quoted field names.
-/

namespace ClickHouse

open Kit List

/-! ## Decimal numbers -/

/-- The digits of a number have the codes of decimal digits. -/
theorem digit_range {n : Nat} {digit : Char} (mem : digit ∈ Nat.toDigits 10 n) :
    48 ≤ digit.toNat ∧ digit.toNat ≤ 57 :=
  Char.isDigit_iff_toNat.mp (Nat.isDigit_of_mem_toDigits (b := 10) (by decide) (by decide) mem)

variable {c : UInt8} {input rest name : Bytes}

theorem isDigit_toDecimal {n : Nat} (mem : c ∈ toDecimal n) : isDigit c := by
  obtain ⟨digit, isDigit, rfl⟩ := mem_map.mp mem
  have range := digit_range isDigit
  have small : digit.toNat < UInt8.size := Nat.lt_of_le_of_lt range.2 (by decide)
  simp only [ClickHouse.isDigit, Bool.and_eq_true, decide_eq_true_eq, UInt8.le_iff_toNat_le,
    UInt8.toNat_ofNat_of_lt' small]
  exact range

theorem toDecimal_ne_nil (n : Nat) : toDecimal n ≠ [] := by
  intro empty
  exact Nat.toDigits_ne_nil (map_eq_nil_iff.mp empty)

theorem digitsValue_toDecimal (n : Nat) : digitsValue (toDecimal n) = n := by
  have value := Nat.ofDigitChars_toDigits (b := 10) (n := n) (by decide) (by decide)
  rw [digitsValue, toDecimal, foldl_map]
  refine Eq.trans ?_ value
  rw [Nat.ofDigitChars]
  refine foldl_ext _ _ _ ?_
  intro sofar digit mem
  have small : digit.toNat < UInt8.size := Nat.lt_of_le_of_lt (digit_range mem).2 (by decide)
  rw [UInt8.toNat_ofNat_of_lt' small, Nat.mul_comm]
  rfl

/-- Every number that fits is read back. -/
theorem stol_toDecimalInt {value : Int} (low : -2 ^ 63 ≤ value) (high : value < 2 ^ 63) :
    stol (toDecimalInt value) = .ok value := by
  have digits (n : Nat) : (toDecimal n).isEmpty = false :=
    isEmpty_eq_false_iff.mpr (toDecimal_ne_nil n)
  cases value with
  | ofNat n =>
    have positive : ∀ rest, toDecimal n ≠ 0x2D :: rest := by
      intro rest starts
      have minus := isDigit_toDecimal (starts ▸ mem_cons_self .. : (0x2D : UInt8) ∈ toDecimal n)
      revert minus
      decide
    rw [toDecimalInt, stol]
    · simp only [digits, digitsValue_toDecimal, Bool.false_eq_true, if_false]
      exact if_pos ⟨low, high⟩
    · exact positive
  | negSucc n =>
    rw [toDecimalInt, stol]
    simp only [digits, digitsValue_toDecimal, Bool.false_eq_true, if_false, if_true]
    exact if_pos ⟨low, high⟩

/-! ## Tokens one after the other -/

theorem length_lexQuotedString_le (input : Bytes) :
    (lexQuotedString input).2.length ≤ input.length := by
  fun_induction lexQuotedString input <;> grind

theorem length_lexQuotedIdentifier_le {quote : UInt8} {scratch left : Bytes}
    (lexed : lexQuotedIdentifier quote input = some (scratch, left)) :
    left.length ≤ input.length := by
  fun_induction lexQuotedIdentifier quote input generalizing scratch <;>
    grind [Option.map_eq_some_iff]

/-- Every token but the last takes at least one byte. -/
theorem nextToken_shorter (input : Bytes) :
    (nextToken input).1 = .eos ∨ (nextToken input).1 = .invalid ∨
      (nextToken input).2.length < input.length := by
  fun_induction nextToken input with
  | case1 => exact .inl rfl
  | case2 c rest blank ih =>
    rcases ih with eos | invalid | shorter
    · exact .inl eos
    · exact .inr (.inl invalid)
    · exact .inr (.inr (Nat.lt_succ_of_lt shorter))
  | case7 rest scratch left lexed =>
    have shorter := length_lexQuotedString_le rest
    rw [lexed] at shorter
    exact .inr (.inr (Nat.lt_succ_of_le shorter))
  | case8 c rest _ _ _ _ _ _ _ scratch left lexed =>
    exact .inr (.inr (Nat.lt_succ_of_le (length_lexQuotedIdentifier_le lexed)))
  | case10 c rest _ _ _ _ _ _ _ alpha =>
    have name : isNameChar c = true := by
      rw [isNameChar, Bool.or_assoc, Bool.or_comm (isDigit c), ← Bool.or_assoc, alpha, Bool.true_or]
    rw [dropWhile_cons_of_pos name]
    exact .inr (.inr (Nat.lt_succ_of_le (dropWhile_suffix isNameChar).length_le))
  | case11 c rest =>
    exact .inr (.inr (Nat.lt_succ_of_le (dropWhile_suffix isDigit).length_le))
  | case9 | case12 => exact .inr (.inl rfl)
  | case3 | case4 | case5 | case6 => exact .inr (.inr (Nat.lt_succ_self _))

theorem tokenizeLoop_succ {fuel : Nat} {token : Token} (next : nextToken input = (token, rest))
    (notEos : token ≠ .eos) (valid : token ≠ .invalid) :
    tokenizeLoop (fuel + 1) input = token :: tokenizeLoop fuel rest := by
  rw [tokenizeLoop, next]
  cases token with
  | eos => exact absurd rfl notEos
  | invalid => exact absurd rfl valid
  | _ => rfl

theorem tokenizeLoop_of_lt {fuel : Nat} (enough : input.length < fuel) :
    tokenizeLoop fuel input = tokenize input := by
  induction fuel using Nat.strong_induction_on generalizing input with
  | h fuel ih =>
    cases fuel with
    | zero => exact absurd enough (Nat.not_lt_zero _)
    | succ fuel =>
      have shorter := nextToken_shorter input
      rw [tokenize]
      cases next : nextToken input with
      | mk token rest =>
        rw [next] at shorter
        by_cases notEos : token = .eos
        · rw [tokenizeLoop, tokenizeLoop, next, notEos]
        by_cases valid : token = .invalid
        · rw [tokenizeLoop, tokenizeLoop, next, valid]
        have shorter : rest.length < input.length := by
          simpa only [notEos, valid, false_or] using shorter
        rw [tokenizeLoop_succ next notEos valid, tokenizeLoop_succ next notEos valid,
          ih fuel (Nat.lt_succ_self _) (by omega), ih input.length (by omega) shorter]

/-- A token that does not end the input is followed by the tokens of what is left. -/
theorem tokenize_of_nextToken {token : Token} (next : nextToken input = (token, rest))
    (notEos : token ≠ .eos) (valid : token ≠ .invalid) :
    tokenize input = token :: tokenize rest := by
  have shorter := nextToken_shorter input
  rw [next] at shorter
  simp only [notEos, valid, false_or] at shorter
  rw [tokenize, tokenizeLoop_succ next notEos valid, tokenizeLoop_of_lt shorter]

/-- What may follow a type name, an identifier or a number. -/
def Delimits (rest : Bytes) : Prop := ∀ c ∈ rest.head?, isNameChar c = false

theorem delimits_nil : Delimits [] := by
  intro c mem
  cases mem

theorem delimits_cons (other : isNameChar c = false) (rest : Bytes) : Delimits (c :: rest) := by
  intro d mem
  cases mem
  exact other

theorem takeWhile_delimits {p : UInt8 → Bool} (within : ∀ c, p c = true → isNameChar c = true)
    {text : Bytes} (all : ∀ c ∈ text, p c = true) (delimits : Delimits rest) :
    (text ++ rest).takeWhile p = text ∧ (text ++ rest).dropWhile p = rest := by
  rw [takeWhile_append_of_pos all, dropWhile_append_of_pos all]
  cases rest with
  | nil => exact ⟨append_nil _, rfl⟩
  | cons c rest =>
    have stops : p c = false := by
      cases stops : p c with
      | false => rfl
      | true => exact absurd (within c stops) (by simp [delimits c rfl])
    rw [takeWhile_cons_of_neg (by simp [stops]), dropWhile_cons_of_neg (by simp [stops])]
    exact ⟨append_nil _, rfl⟩

/-! ## Each kind of token -/

theorem tokenize_nil : tokenize [] = [.eos] := rfl

/-- Blanks are skipped. -/
theorem tokenize_space (rest : Bytes) : tokenize (0x20 :: rest) = tokenize rest := by
  have next : nextToken (0x20 :: rest) = nextToken rest := rfl
  have skipped : tokenize (0x20 :: rest) = tokenizeLoop (rest.length + 2) rest := by
    rw [tokenize, tokenizeLoop, tokenizeLoop, next]
    rfl
  exact skipped.trans (tokenizeLoop_of_lt (Nat.lt_succ_of_lt (Nat.lt_succ_self _)))

theorem tokenize_lpar (rest : Bytes) : tokenize (0x28 :: rest) = .lpar :: tokenize rest :=
  tokenize_of_nextToken rfl nofun nofun

theorem tokenize_rpar (rest : Bytes) : tokenize (0x29 :: rest) = .rpar :: tokenize rest :=
  tokenize_of_nextToken rfl nofun nofun

theorem tokenize_comma (rest : Bytes) : tokenize (0x2C :: rest) = .comma :: tokenize rest :=
  tokenize_of_nextToken rfl nofun nofun

theorem tokenize_assign (rest : Bytes) : tokenize (0x3D :: rest) = .assign :: tokenize rest :=
  tokenize_of_nextToken rfl nofun nofun

/-- The first bytes that start a name are not those that start another token. -/
theorem nextToken_name (starts : (isAlpha c || c == 0x5F) = true) (rest : Bytes) :
    nextToken (c :: rest) =
      (.name ((c :: rest).takeWhile isNameChar), (c :: rest).dropWhile isNameChar) := by
  have other {d : UInt8} (not : (isAlpha d || d == 0x5F) = false) : c ≠ d := by
    rintro rfl
    rw [starts] at not
    cases not
  rw [nextToken]
  simp only [other (d := 0x20) rfl, other (d := 0x0A) rfl, other (d := 0x09) rfl,
    other (d := 0x00) rfl, other (d := 0x3D) rfl, other (d := 0x28) rfl, other (d := 0x29) rfl,
    other (d := 0x2C) rfl, other (d := 0x27) rfl, other (d := 0x22) rfl, other (d := 0x60) rfl,
    starts, or_self, if_false, if_true]

theorem not_alpha_of_number (starts : (isDigit c || c == 0x2D) = true) :
    (isAlpha c || c == 0x5F) = false := by
  simp only [isDigit, isAlpha, Bool.or_eq_true, Bool.and_eq_true, decide_eq_true_eq, beq_iff_eq,
    Bool.or_eq_false_iff, Bool.and_eq_false_iff, decide_eq_false_iff_not, beq_eq_false_iff_ne,
    UInt8.le_iff_toNat_le, ne_eq, ← UInt8.toNat_inj] at starts ⊢
  simp only [UInt8.reduceToNat] at starts ⊢
  omega

theorem nextToken_number (starts : (isDigit c || c == 0x2D) = true) (rest : Bytes) :
    nextToken (c :: rest) = (.number (c :: rest.takeWhile isDigit), rest.dropWhile isDigit) := by
  have other {d : UInt8} (not : (isDigit d || d == 0x2D) = false) : c ≠ d := by
    rintro rfl
    rw [starts] at not
    cases not
  rw [nextToken]
  simp only [other (d := 0x20) rfl, other (d := 0x0A) rfl, other (d := 0x09) rfl,
    other (d := 0x00) rfl, other (d := 0x3D) rfl, other (d := 0x28) rfl, other (d := 0x29) rfl,
    other (d := 0x2C) rfl, other (d := 0x27) rfl, other (d := 0x22) rfl, other (d := 0x60) rfl,
    not_alpha_of_number starts, starts, or_self, Bool.false_eq_true, if_false, if_true]

theorem nextToken_plain (plain : isPlainIdentifier name) (delimits : Delimits rest) :
    nextToken (name ++ rest) = (.name name, rest) := by
  cases name with
  | nil => cases plain
  | cons c name =>
    rw [isPlainIdentifier, Bool.and_eq_true, all_eq_true] at plain
    obtain ⟨starts, all⟩ := plain
    have chars : ∀ d ∈ c :: name, isNameChar d = true := by
      intro d mem
      rcases mem_cons.mp mem with rfl | mem
      · rw [isNameChar, Bool.or_right_comm, starts, Bool.true_or]
      · rw [isNameChar, Bool.or_right_comm]
        exact all d mem
    obtain ⟨taken, dropped⟩ := takeWhile_delimits (fun _ => id) chars delimits
    have next := nextToken_name starts (name ++ rest)
    rw [← cons_append, taken, dropped] at next
    exact next

theorem tokenize_name (plain : isPlainIdentifier name) (delimits : Delimits rest) :
    tokenize (name ++ rest) = .name name :: tokenize rest :=
  tokenize_of_nextToken (nextToken_plain plain delimits) nofun nofun

theorem tokenize_toDecimalInt (value : Int) (delimits : Delimits rest) :
    tokenize (toDecimalInt value ++ rest) = .number (toDecimalInt value) :: tokenize rest := by
  obtain ⟨c, digits, text, starts, all⟩ : ∃ c digits, toDecimalInt value = c :: digits ∧
      (isDigit c || c == 0x2D) = true ∧ ∀ d ∈ digits, isDigit d = true := by
    cases value with
    | negSucc n => exact ⟨0x2D, _, rfl, rfl, fun _ mem => isDigit_toDecimal mem⟩
    | ofNat n =>
      obtain ⟨c, digits, text⟩ := exists_cons_of_ne_nil (toDecimal_ne_nil n)
      have all : ∀ d ∈ c :: digits, isDigit d = true := fun _ mem => isDigit_toDecimal (text ▸ mem)
      refine ⟨c, digits, text, ?_, fun d mem => all d (mem_cons_of_mem _ mem)⟩
      rw [all c (mem_cons_self ..), Bool.true_or]
  have within (d : UInt8) (digit : isDigit d = true) : isNameChar d = true := by
    rw [isNameChar, digit, Bool.or_true, Bool.true_or]
  obtain ⟨taken, dropped⟩ := takeWhile_delimits within all delimits
  have next := nextToken_number starts (digits ++ rest)
  rw [taken, dropped, ← cons_append, ← text] at next
  exact tokenize_of_nextToken next nofun nofun

theorem unescape_escapeMap {e : UInt8} (escaped : escapeMap c = some e) :
    unescapeMap e = some c ∨ unescapeMap e = none ∧ e = 0x27 ∧ c = 0x27 := by
  unfold escapeMap at escaped
  split at escaped <;> cases escaped
  · exact .inr ⟨rfl, rfl, rfl⟩
  all_goals exact .inl rfl

theorem plain_of_escapeMap (plain : escapeMap c = none) : c ≠ 0x5C ∧ c ≠ 0x27 := by
  constructor <;> rintro rfl <;> cases plain

/-- An escaped literal is read back with its closing quote, if that is not the last byte. -/
theorem lexQuotedString_escape (text : Bytes) (more : rest ≠ []) :
    lexQuotedString (escapeStringLiteral text ++ 0x27 :: rest) = (text ++ [0x27], rest) := by
  induction text with
  | nil =>
    obtain ⟨d, rest, rfl⟩ := exists_cons_of_ne_nil more
    rfl
  | cons c text ih =>
    cases escaped : escapeMap c with
    | some e =>
      simp only [escapeStringLiteral, escaped, cons_append, lexQuotedString, if_true]
      rcases unescape_escapeMap escaped with unescaped | ⟨unescaped, rfl, rfl⟩
      · simp only [unescaped, ih]
      · simp only [unescaped, ih, if_true]
    | none =>
      obtain ⟨notEscape, notQuote⟩ := plain_of_escapeMap escaped
      obtain ⟨d, tail, tailEq⟩ : ∃ d tail,
          escapeStringLiteral text ++ 0x27 :: rest = d :: tail :=
        exists_cons_of_ne_nil (append_ne_nil_of_right_ne_nil _ (cons_ne_nil _ _))
      simp only [escapeStringLiteral, escaped, cons_append]
      rw [tailEq] at ih ⊢
      simp only [lexQuotedString, notEscape, notQuote, if_false, ih]

theorem tokenize_quoted (text : Bytes) (more : rest ≠ []) :
    tokenize (0x27 :: escapeStringLiteral text ++ 0x27 :: rest) =
      .quotedString (0x27 :: text ++ [0x27]) :: tokenize rest := by
  have next : nextToken (0x27 :: (escapeStringLiteral text ++ 0x27 :: rest)) =
      (.quotedString (0x27 :: (text ++ [0x27])), rest) := by
    show (Token.quotedString (0x27 :: (lexQuotedString _).1), (lexQuotedString _).2) = _
    rw [lexQuotedString_escape text more]
  exact tokenize_of_nextToken next nofun nofun

/-! ## Field names -/

/-- `NextToken` reads the field name back from what `AppendFieldname` writes. -/
def LexesBack (name : Bytes) : Prop :=
  nextToken (fieldname name) = (.name name, []) ∨
    nextToken (fieldname name) = (.quotedIdentifier name, [])

instance (name : Bytes) : Decidable (LexesBack name) := inferInstanceAs (Decidable (_ ∨ _))

/-- An identifier that is closed at the end of its text is closed there with more text after it,
unless that starts with a quote. -/
theorem lexQuotedIdentifier_append {text scratch : Bytes}
    (lexed : lexQuotedIdentifier 0x60 text = some (scratch, []))
    (unquoted : ∀ c ∈ rest.head?, c ≠ 0x60) :
    lexQuotedIdentifier 0x60 (text ++ rest) = some (scratch, rest) := by
  -- The shorter text of a recursive call is not empty, since it holds the closing quote.
  fun_induction lexQuotedIdentifier 0x60 text generalizing scratch with
  | case1 => cases lexed
  | case2 =>
    cases lexed
    cases rest with
    | nil => rfl
    | cons d rest => simp [lexQuotedIdentifier, unquoted d rfl]
  | case3 => cases lexed
  | case4 c d tail escaped ih =>
    obtain ⟨⟨inner, left⟩, found, same⟩ := Option.map_eq_some_iff.mp lexed
    cases same
    simp only [cons_append, lexQuotedIdentifier, escaped, and_self, if_true, ih found,
      Option.map_some]
  | case5 tail _ ih =>
    obtain ⟨⟨inner, left⟩, found, same⟩ := Option.map_eq_some_iff.mp lexed
    cases same
    simp [lexQuotedIdentifier, ih found]
  | case6 => cases lexed
  | case7 c d tail notEscaped notQuote ih =>
    obtain ⟨⟨inner, left⟩, found, same⟩ := Option.map_eq_some_iff.mp lexed
    cases same
    have tailLexed := ih found
    rw [cons_append] at tailLexed
    simp only [cons_append, lexQuotedIdentifier, notEscaped, notQuote, if_false, tailLexed,
      Option.map_some]

theorem nextToken_backtick (text : Bytes) : nextToken (0x60 :: text) =
    ((lexQuotedIdentifier 0x60 text).map fun lexed => (.quotedIdentifier lexed.1, lexed.2)).getD
      (.invalid, []) := by
  cases lexed : lexQuotedIdentifier 0x60 text with
  | none => simp [nextToken, lexed]
  | some result => simp [nextToken, lexed]

/-- Also with a blank and more text after it. -/
theorem LexesBack.nextToken_append (lexes : LexesBack name) :
    ∃ token, (token = .name name ∨ token = .quotedIdentifier name) ∧
      ∀ rest, nextToken (fieldname name ++ 0x20 :: rest) = (token, 0x20 :: rest) := by
  unfold LexesBack at lexes
  by_cases plain : isPlainIdentifier name
  · rw [fieldname, if_pos plain]
    exact ⟨_, .inl rfl, fun rest => nextToken_plain plain (delimits_cons rfl rest)⟩
  · rw [fieldname, if_neg plain] at lexes ⊢
    rw [cons_append, nextToken_backtick] at lexes
    cases lexed : lexQuotedIdentifier 0x60 (doubleBackticks name ++ [0x60]) with
    | some result =>
      rw [lexed] at lexes
      have same : result = (name, []) := by simpa [Prod.ext_iff] using lexes
      rw [same] at lexed
      refine ⟨_, .inr rfl, ?_⟩
      intro rest
      rw [cons_append, cons_append, nextToken_backtick,
        lexQuotedIdentifier_append lexed (by simp)]
      rfl
    | none =>
      rw [lexed] at lexes
      rcases lexes with no | no <;> cases no

end ClickHouse
