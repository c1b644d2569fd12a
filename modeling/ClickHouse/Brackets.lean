import ClickHouse.Kit.Nesting
import ClickHouse.ParserStack
import Mathlib.Data.List.TakeWhile

/-!
# Brackets of accepted type names

At the end of the input `Parse` only compares the size of its stack with 1.
So it accepts as many closing as opening brackets, in whatever order they come
as long as no element is taken from the empty stack, and whatever tokens follow
the bracket that closes the argument list.
-/

namespace ClickHouse

open Kit List TypeParser

/-! ## Bytes outside quoted tokens -/

def Token.isQuoted : Token → Bool
  | .quotedString _ | .quotedIdentifier _ => true
  | _ => false

/-- The bytes of the input that belong to no quoted token, up to the first byte with which no
token starts. -/
def unquotedLoop : Nat → Bytes → Bytes
  | 0, _ => []
  | fuel + 1, input =>
    match nextToken input with
    | (.eos, _) => input
    | (.invalid, _) => []
    | (token, rest) =>
      (if token.isQuoted then [] else input.take (input.length - rest.length)) ++
        unquotedLoop fuel rest

def unquoted (input : Bytes) : Bytes := unquotedLoop (input.length + 1) input

/-- The token is made of the bytes before the rest, with the brackets it stands for. -/
structure Takes (input : Bytes) (token : Token) (taken rest : Bytes) : Prop where
  split : input = taken ++ rest
  opens : taken.count 0x28 = [token].count .lpar
  closes : taken.count 0x29 = [token].count .rpar

variable {input rest : Bytes} {token : Token}

theorem Takes.cons {taken : Bytes} (takes : Takes input token taken rest) {c : UInt8}
    (notOpen : c ≠ 0x28) (notClose : c ≠ 0x29) : Takes (c :: input) token (c :: taken) rest := by
  refine ⟨by rw [takes.split]; rfl, ?_, ?_⟩
  · rw [count_cons_of_ne notOpen, takes.opens]
  · rw [count_cons_of_ne notClose, takes.closes]

/-- A token without brackets. -/
theorem takes_takeWhile {p : UInt8 → Bool} (input : Bytes) (token : Token) (notOpen : p 0x28 = false)
    (notClose : p 0x29 = false) (opens : [token].count .lpar = 0) (closes : [token].count .rpar = 0) :
    Takes input token (input.takeWhile p) (input.dropWhile p) := by
  have absent {c : UInt8} (not : p c = false) : (input.takeWhile p).count c = 0 := by
    apply count_eq_zero.mpr
    intro mem
    rw [mem_takeWhile_imp mem] at not
    cases not
  exact ⟨takeWhile_append_dropWhile.symm, (absent notOpen).trans opens.symm,
    (absent notClose).trans closes.symm⟩

theorem takes_single {c : UInt8} (opens : [c].count 0x28 = [token].count .lpar)
    (closes : [c].count 0x29 = [token].count .rpar) : Takes (c :: rest) token [c] rest :=
  ⟨rfl, opens, closes⟩

/-- What `NextToken` takes, unless the token is quoted. -/
theorem nextToken_takes (next : nextToken input = (token, rest)) (valid : token ≠ .invalid)
    (plain : token.isQuoted = false) : ∃ taken, Takes input token taken rest := by
  fun_induction nextToken input with
  | case1 =>
    cases next
    exact ⟨[], rfl, rfl, rfl⟩
  | case2 c tail blank ih =>
    obtain ⟨taken, takes⟩ := ih next
    have other : c ≠ 0x28 ∧ c ≠ 0x29 := by
      rcases blank with rfl | rfl | rfl | rfl <;> decide
    exact ⟨c :: taken, takes.cons other.1 other.2⟩
  | case3 =>
    cases next
    exact ⟨_, takes_single rfl rfl⟩
  | case4 =>
    cases next
    exact ⟨_, takes_single rfl rfl⟩
  | case5 =>
    cases next
    exact ⟨_, takes_single rfl rfl⟩
  | case6 =>
    cases next
    exact ⟨_, takes_single rfl rfl⟩
  | case7 =>
    cases next
    cases plain
  | case8 =>
    cases next
    cases plain
  | case9 =>
    cases next
    exact absurd rfl valid
  | case10 c tail =>
    cases next
    exact ⟨_, takes_takeWhile (c :: tail) _ rfl rfl rfl rfl⟩
  | case11 c tail _ notAssign notOpen notClose =>
    cases next
    exact ⟨_, (takes_takeWhile tail _ rfl rfl rfl rfl).cons notOpen notClose⟩
  | case12 =>
    cases next
    exact absurd rfl valid

/-- The end of the input is found at its end. -/
theorem nextToken_eos (next : nextToken input = (.eos, rest)) : rest = [] := by
  fun_induction nextToken input with
  | case1 =>
    cases next
    rfl
  | case2 _ _ _ ih => exact ih next
  | _ => cases next

theorem unquotedLoop_succ {fuel : Nat} (next : nextToken input = (token, rest))
    (continues : token.continues = true) :
    unquotedLoop (fuel + 1) input =
      (if token.isQuoted then [] else input.take (input.length - rest.length)) ++
        unquotedLoop fuel rest := by
  rw [unquotedLoop, next]
  cases token with
  | eos => cases continues
  | invalid => cases continues
  | _ => rfl

theorem Token.count_of_quoted (quoted : token.isQuoted = true) :
    [token].count .lpar = 0 ∧ [token].count .rpar = 0 := by
  cases token with
  | quotedString => exact ⟨rfl, rfl⟩
  | quotedIdentifier => exact ⟨rfl, rfl⟩
  | _ => cases quoted

theorem Token.few_brackets (token : Token) : [token].count .lpar + [token].count .rpar ≤ 1 := by
  cases token with
  | _ => simp

/-- The brackets outside quoted tokens are those among the tokens. -/
theorem nested_unquotedLoop (fuel n : Nat) (input : Bytes) :
    (unquotedLoop fuel input).count 0x28 = (tokenizeLoop fuel input).count .lpar ∧
      (unquotedLoop fuel input).count 0x29 = (tokenizeLoop fuel input).count .rpar ∧
      (Nested 0x28 0x29 n (unquotedLoop fuel input) ↔
        Nested .lpar .rpar n (tokenizeLoop fuel input)) := by
  have none (m : Nat) : Nested (0x28 : UInt8) 0x29 m [] ↔ Nested Token.lpar .rpar m [] :=
    iff_of_true (nested_nil m) (nested_nil m)
  induction fuel generalizing n input with
  | zero => exact ⟨rfl, rfl, none n⟩
  | succ fuel ih =>
    cases next : nextToken input with
    | mk token rest =>
      -- What one token adds on both sides; `piece` are its bytes outside quoted tokens.
      have step (piece : Bytes) (opens : piece.count 0x28 = [token].count .lpar)
          (closes : piece.count 0x29 = [token].count .rpar) {bytes : Bytes} {tokens : List Token}
          (same : bytes.count 0x28 = tokens.count .lpar ∧ bytes.count 0x29 = tokens.count .rpar ∧
            (Nested 0x28 0x29 (n + piece.count 0x28 - piece.count 0x29) bytes ↔
              Nested .lpar .rpar (n + piece.count 0x28 - piece.count 0x29) tokens)) :
          (piece ++ bytes).count 0x28 = ([token] ++ tokens).count .lpar ∧
            (piece ++ bytes).count 0x29 = ([token] ++ tokens).count .rpar ∧
            (Nested 0x28 0x29 n (piece ++ bytes) ↔ Nested .lpar .rpar n ([token] ++ tokens)) := by
        have few := token.few_brackets
        obtain ⟨sameOpens, sameCloses, sameNested⟩ := same
        refine ⟨?_, ?_, ?_⟩
        · rw [count_append, count_append, opens, sameOpens]
        · rw [count_append, count_append, closes, sameCloses]
        · rw [nested_append, nested_append, sameNested, nested_iff_of_few few,
            nested_iff_of_few (by rw [opens, closes]; exact few), opens, closes]
      by_cases continues : token.continues = true
      · have tokens : tokenizeLoop (fuel + 1) input = [token] ++ tokenizeLoop fuel rest := by
          apply tokenizeLoop_succ next
          · rintro rfl
            cases continues
          · rintro rfl
            cases continues
        rw [unquotedLoop_succ next continues, tokens]
        cases quoted : token.isQuoted with
        | true =>
          obtain ⟨opens, closes⟩ := Token.count_of_quoted quoted
          exact step [] opens.symm closes.symm (ih _ rest)
        | false =>
          have valid : token ≠ .invalid := by
            rintro rfl
            cases continues
          obtain ⟨taken, takes⟩ := nextToken_takes next valid quoted
          have isTaken : input.take (input.length - rest.length) = taken := by
            rw [takes.split, length_append, Nat.add_sub_cancel, take_left]
          rw [isTaken]
          exact step taken takes.opens takes.closes (ih _ rest)
      · rw [unquotedLoop, tokenizeLoop, next]
        cases token with
        | eos =>
          have valid : Token.eos ≠ .invalid := by decide
          obtain ⟨taken, takes⟩ := nextToken_takes next valid rfl
          have whole : input = taken ++ [] := by
            rw [takes.split, nextToken_eos next]
          have last := step taken takes.opens takes.closes ⟨rfl, rfl, none _⟩
          rw [← whole] at last
          exact last
        | invalid => exact step [] rfl rfl ⟨rfl, rfl, none _⟩
        | _ => exact absurd rfl continues

/-! ## Accepted inputs -/

/-- Outside quoted tokens no prefix of the input has more closing than opening brackets, the whole
input has as many of both, and no token follows the bracket that closes the outermost argument
list. -/
structure WholeExpression (input : Bytes) : Prop where
  nested : ∀ p, p <+: unquoted input → p.count 0x29 ≤ p.count 0x28
  balanced : (unquoted input).count 0x28 = (unquoted input).count 0x29
  ends : ∀ before after, tokenize input = before ++ .rpar :: after →
    before.count .lpar = before.count .rpar + 1 → after = [.eos]

/-- No token follows a closing bracket that leaves no bracket open. -/
def ClosesLast (input : Bytes) : Prop :=
  ∀ before after, tokenize input = before ++ .rpar :: after →
    before.count .lpar ≤ before.count .rpar + 1 → after = [.eos]

/-- Whether `Parse` returns true. -/
def TypeParser.accepts (input : Bytes) : Bool :=
  match parse input .start with
  | .ok accepted _ => accepted
  | .error _ _ => false

/-- An accepted input has as many closing as opening brackets. -/
theorem count_of_accepts (accepts : accepts input = true) :
    (tokenize input).count .lpar = (tokenize input).count .rpar := by
  obtain ⟨t, accepted⟩ : ∃ t, Runs (parse input) .start true t := by
    unfold TypeParser.accepts at accepts
    split at accepts
    · rename_i t parsed
      exact ⟨t, accepts ▸ parsed⟩
    · cases accepts
  obtain ⟨before, last, tokens, ends, continues⟩ := tokenize_eq input
  rw [parse, tokens, parseTokens_append continues] at accepted
  obtain ⟨_, s, run, accepts⟩ := runs_bind_iff.mp accepted
  have length := length_of_steps run
  cases last with
  | eos =>
    obtain ⟨_, _, ⟨⟩, accepts⟩ := runs_bind_iff.mp accepts
    obtain ⟨yes, _⟩ := runs_pure_iff.mp accepts
    simp only [Bool.and_eq_true, beq_iff_eq] at yes
    rw [tokens, count_append, count_append]
    simp
    omega
  | invalid =>
    obtain ⟨no, _⟩ := runs_pure_iff.mp accepts
    cases no
  | _ => cases ends

/-- An accepted input is a whole type expression exactly if no token follows a closing bracket
that leaves no bracket open. -/
theorem wholeExpression_iff {input : Bytes} (accepts : accepts input = true) :
    WholeExpression input ↔ ClosesLast input := by
  have total := count_of_accepts accepts
  obtain ⟨opens, closes, nested⟩ := nested_unquotedLoop (input.length + 1) 0 input
  have nestedTokens : (∀ p, p <+: unquoted input → p.count 0x29 ≤ p.count 0x28) ↔
      Nested .lpar .rpar 0 (tokenize input) := by
    rw [tokenize, ← nested]
    simp only [Nested, Nat.zero_add, unquoted]
  constructor
  · intro whole before after tokens few
    have inside := nestedTokens.mp whole.nested (before ++ [.rpar])
      ⟨after, by rw [tokens, append_assoc]; rfl⟩
    rw [count_append, count_append] at inside
    simp at inside
    exact whole.ends before after tokens (by omega)
  · intro last
    refine ⟨?_, ?_, ?_⟩
    · rw [nestedTokens]
      by_contra not
      -- The first bracket that closes nothing would be the last token, and the only one.
      obtain ⟨before, after, tokens, equal⟩ := exists_unmatched (by decide) not
      have none := last before after tokens (by omega)
      rw [tokens, none, count_append, count_append] at total
      simp at total
      omega
    · rw [unquoted, opens, closes]
      exact total
    · intro before after tokens closing
      exact last before after tokens (by omega)

theorem wholeExpression_arrayOfInt :
    accepts (ascii "Array(Int8)") = true ∧ WholeExpression (ascii "Array(Int8)") := by
  have accepts : accepts (ascii "Array(Int8)") = true := by decide +kernel
  refine ⟨accepts, (wholeExpression_iff accepts).mpr ?_⟩
  intro before after tokens _
  have known : tokenize (ascii "Array(Int8)") =
      [.name (ascii "Array"), .lpar, .name (ascii "Int8"), .rpar, .eos] := by decide
  rw [known] at tokens
  rcases before with _ | ⟨_, _ | ⟨_, _ | ⟨_, _ | ⟨_, _ | ⟨_, before⟩⟩⟩⟩⟩ <;> simp_all

/-- The second closing bracket closes nothing, and the last opening one is not closed. -/
theorem not_wholeExpression_brackets :
    accepts (ascii "Array(Int8))(") = true ∧
      ¬ WholeExpression (ascii "Array(Int8))(") := by
  refine ⟨by decide +kernel, ?_⟩
  intro whole
  have few := whole.nested (ascii "Array(Int8))") ⟨ascii "(", by decide⟩
  revert few
  decide

end ClickHouse
