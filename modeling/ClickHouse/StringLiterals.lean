import ClickHouse.Kit.Program
import ClickHouse.TypeNames

/-!
# Single-quoted literals

`NextToken` collects a single-quoted literal in a loop that stops one byte
before the end of the input, and returns what it collected whether or not it met
the closing quote.  `Parse` strips the first and the last byte of it.  So a
literal is read as it is written exactly if something follows its closing quote.
-/

namespace ClickHouse

open Kit

/-- Behind an opening quote the bytes of a literal, with their escapes, and its closing quote. -/
inductive Literal : Bytes → Bytes → Bytes → Prop
  | close (after : Bytes) : Literal (0x27 :: after) [] after
  | escape {c u : UInt8} {rest content after : Bytes} (code : unescapeMap c = some u)
    (more : Literal rest content after) : Literal (0x5C :: c :: rest) (u :: content) after
  | quote {rest content after : Bytes} (more : Literal rest content after) :
    Literal (0x5C :: 0x27 :: rest) (0x27 :: content) after
  /-- A backslash that escapes nothing stands for itself. -/
  | backslash {c : UInt8} {rest content after : Bytes} (noCode : unescapeMap c = none)
    (notQuote : c ≠ 0x27) (more : Literal (c :: rest) content after) :
    Literal (0x5C :: c :: rest) (0x5C :: content) after
  | plain {c : UInt8} {rest content after : Bytes} (notEscape : c ≠ 0x5C) (notQuote : c ≠ 0x27)
    (more : Literal rest content after) : Literal (c :: rest) (c :: content) after

variable {content rest : Bytes}

namespace Literal

theorem ne_nil {after : Bytes} (literal : Literal rest content after) : rest ≠ [] := by
  cases literal <;> exact List.cons_ne_nil _ _

/-- There is at most one closing quote, and one way to read what is before it. -/
theorem unique {after content' after' : Bytes} (literal : Literal rest content after)
    (other : Literal rest content' after') : content' = content ∧ after' = after := by
  induction literal generalizing content' with
  | close after =>
    cases other with
    | close => exact ⟨rfl, rfl⟩
    | plain _ notQuote => exact absurd rfl notQuote
  | escape code _ ih =>
    cases other with
    | escape code' more =>
      obtain ⟨rfl, rfl⟩ := ih more
      cases code.symm.trans code'
      exact ⟨rfl, rfl⟩
    | quote => cases code
    | backslash noCode => cases code.symm.trans noCode
    | plain notEscape => exact absurd rfl notEscape
  | quote _ ih =>
    cases other with
    | escape code => cases code
    | quote more =>
      obtain ⟨rfl, rfl⟩ := ih more
      exact ⟨rfl, rfl⟩
    | backslash _ notQuote => exact absurd rfl notQuote
    | plain notEscape => exact absurd rfl notEscape
  | backslash noCode notQuote _ ih =>
    cases other with
    | escape code => cases code.symm.trans noCode
    | quote => exact absurd rfl notQuote
    | backslash _ _ more =>
      obtain ⟨rfl, rfl⟩ := ih more
      exact ⟨rfl, rfl⟩
    | plain notEscape => exact absurd rfl notEscape
  | plain notEscape notQuote _ ih =>
    cases other with
    | close => exact absurd rfl notQuote
    | escape => exact absurd rfl notEscape
    | quote => exact absurd rfl notEscape
    | backslash => exact absurd rfl notEscape
    | plain _ _ more =>
      obtain ⟨rfl, rfl⟩ := ih more
      exact ⟨rfl, rfl⟩

/-- What the loop collects: the last byte of the input is never looked at, so a closing quote there
is neither collected nor passed. -/
theorem lexQuotedString_eq {after : Bytes} (literal : Literal rest content after) :
    lexQuotedString rest =
      if after = [] then (content, [0x27]) else (content ++ [0x27], after) := by
  induction literal with
  | close after =>
    cases after with
    | nil => rfl
    | cons d after => rfl
  | escape code _ ih =>
    simp only [lexQuotedString, if_true, code, ih]
    split <;> rfl
  | quote _ ih =>
    have noCode : unescapeMap 0x27 = none := rfl
    simp only [lexQuotedString, if_true, noCode, ih]
    split <;> rfl
  | backslash noCode notQuote _ ih =>
    simp only [lexQuotedString, if_true, noCode, notQuote, if_false, ih]
    split <;> rfl
  | plain notEscape notQuote more ih =>
    obtain ⟨d, rest, rfl⟩ := List.exists_cons_of_ne_nil more.ne_nil
    simp only [lexQuotedString, notEscape, notQuote, if_false, ih]
    split <;> rfl

end Literal

theorem nextToken_quote (rest : Bytes) : nextToken (0x27 :: rest) =
    (.quotedString (0x27 :: (lexQuotedString rest).1), (lexQuotedString rest).2) := rfl

/-- The literal that starts with a quote at some position of the input, with the bytes `rest` behind
it, is lexed exactly. -/
structure LexedExactly (rest : Bytes) : Prop where
  /-- With a closing quote, `Parse` stores what is between the quotes in the current element, and
  the lexer goes on right after the closing quote. -/
  closed : ∀ content after, Literal rest content after →
    ∃ value, nextToken (0x27 :: rest) = (.quotedString value, after) ∧
      ∀ processed s, TypeParser.parseTokens (tokenize (0x27 :: rest)) processed s =
        TypeParser.parseTokens (tokenize after) (processed + 1) (s.update (.setString content))
  /-- Without one the token is invalid, and `Parse` returns false. -/
  unclosed : (¬∃ content after, Literal rest content after) →
    (nextToken (0x27 :: rest)).1 = .invalid ∧
      ∀ processed s, Runs (TypeParser.parseTokens (tokenize (0x27 :: rest)) processed) s false s

/-- A literal with something behind its closing quote. -/
theorem Literal.stored {after : Bytes} (literal : Literal rest content after)
    (followed : after ≠ []) :
    ∃ value, nextToken (0x27 :: rest) = (.quotedString value, after) ∧
      ∀ processed s, TypeParser.parseTokens (tokenize (0x27 :: rest)) processed s =
        TypeParser.parseTokens (tokenize after) (processed + 1) (s.update (.setString content)) := by
  have next : nextToken (0x27 :: rest) = (.quotedString (0x27 :: content ++ [0x27]), after) := by
    rw [nextToken_quote, literal.lexQuotedString_eq, if_neg followed]
    rfl
  refine ⟨_, next, ?_⟩
  intro processed s
  rw [tokenize_of_nextToken next nofun nofun]
  exact fills_quotedString content (tokenize after) processed s

/-- A literal is lexed exactly if and only if it has a closing quote that is not the last byte of
the input. -/
theorem lexedExactly_iff (rest : Bytes) :
    LexedExactly rest ↔ ∃ content after, Literal rest content after ∧ after ≠ [] := by
  constructor
  · intro exact
    by_cases closes : ∃ content after, Literal rest content after
    · obtain ⟨content, after, literal⟩ := closes
      refine ⟨content, after, literal, ?_⟩
      rintro rfl
      obtain ⟨value, next, _⟩ := exact.closed content [] literal
      rw [nextToken_quote, literal.lexQuotedString_eq, if_pos rfl] at next
      cases next
    · have invalid := (exact.unclosed closes).1
      cases invalid
  · rintro ⟨content, after, literal, followed⟩
    constructor
    · intro content' after' literal'
      obtain ⟨rfl, rfl⟩ := literal.unique literal'
      exact literal.stored followed
    · intro unclosed
      exact absurd ⟨content, after, literal⟩ unclosed

/-- The literal `'ab'` at the end of the input: the closing quote starts another token, on which
`Parse` throws, with `a` stored for the literal. A literal that is not closed is a token as well. -/
theorem not_lexedExactly_last :
    ¬LexedExactly (ascii "ab'") ∧ ¬LexedExactly (ascii "ab") ∧
      nextToken (ascii "'ab'") = (.quotedString (ascii "'ab"), ascii "'") ∧
      Throws (TypeParser.parse (ascii "'ab'")) .start (.outOfRange (ascii "pos must be less than len"))
        ⟨{ TypeAst.blank with metaKind := .terminal, valueString := ascii "a", code := .string }, 0,
          [0]⟩ := by
  have literal : Literal (ascii "ab'") (ascii "ab") [] :=
    .plain (by decide) (by decide) (.plain (by decide) (by decide) (.close []))
  have unclosed : ¬∃ content after, Literal (ascii "ab") content after := by
    rintro ⟨content, after, other⟩
    cases other with
    | plain _ _ more =>
      cases more with
      | plain _ _ more => exact more.ne_nil rfl
  refine ⟨?_, ?_, by decide, rfl⟩
  · intro exact
    obtain ⟨value, next, _⟩ := exact.closed _ _ literal
    cases next
  · intro exact
    cases (exact.unclosed unclosed).1

end ClickHouse
