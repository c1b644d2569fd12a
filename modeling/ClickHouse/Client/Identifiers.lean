import ClickHouse.Client.Operations
import ClickHouse.Lexing

/-!
# Quoted identifiers

`AppendFieldname` and `NameToQueryString` put a name into backticks and double
the backticks in it.  `NextToken` takes a doubled backtick for one, but also a
backslash and a backtick, and nothing doubles a backslash.  So a name is read
back unless one of its backslashes comes before a backtick, be it one of the
name or the closing one.
-/

namespace ClickHouse

open Kit

/-- No backslash of the name is before a backtick or at the end of the name. -/
def SafelyQuoted (name : Bytes) : Prop :=
  ∀ before after, name = before ++ 0x5C :: after → ∃ c rest, after = c :: rest ∧ c ≠ 0x60

/-- From the text one identifier is read, whose value is the name, and the rest is left. -/
def LexesAs (text name rest : Bytes) : Prop :=
  nextToken text = (.name name, rest) ∨ nextToken text = (.quotedIdentifier name, rest)

instance (text name rest : Bytes) : Decidable (LexesAs text name rest) :=
  inferInstanceAs (Decidable (_ ∨ _))

theorem safelyQuoted_nil : SafelyQuoted [] := by
  intro before after split
  exact absurd split.symm (List.append_ne_nil_of_right_ne_nil _ (List.cons_ne_nil _ _))

theorem safelyQuoted_cons_iff {c : UInt8} {name : Bytes} :
    SafelyQuoted (c :: name) ↔
      (c = 0x5C → ∃ d rest, name = d :: rest ∧ d ≠ 0x60) ∧ SafelyQuoted name := by
  constructor
  · intro safe
    refine ⟨fun backslash => safe [] name (by rw [backslash]; rfl), ?_⟩
    intro before after split
    exact safe (c :: before) after (by rw [split]; rfl)
  · rintro ⟨first, others⟩ before after split
    cases before with
    | nil =>
      obtain ⟨rfl, rfl⟩ := List.cons.inj split
      exact first rfl
    | cons d before => exact others before after (List.cons.inj split).2

theorem safelyQuoted_cons {c : UInt8} (other : c ≠ 0x5C) (name : Bytes) :
    SafelyQuoted (c :: name) ↔ SafelyQuoted name := by
  rw [safelyQuoted_cons_iff]
  exact ⟨And.right, fun safe => ⟨fun backslash => absurd backslash other, safe⟩⟩

/-! ## Reading a name back -/

/-- The first byte after a backslash in the doubled name is a backtick if the name goes on with
one or ends. -/
theorem doubleBackticks_head (name rest : Bytes) :
    ∃ d tail, doubleBackticks name ++ 0x60 :: rest = d :: tail ∧
      (d ≠ 0x60 ↔ ∃ c others, name = c :: others ∧ c ≠ 0x60) := by
  cases name with
  | nil => exact ⟨0x60, rest, rfl, by simp⟩
  | cons c others =>
    rw [doubleBackticks]
    split
    · rename_i backtick
      exact ⟨_, _, rfl, by simp [backtick]⟩
    · rename_i other
      exact ⟨_, _, rfl, by simp [other]⟩

theorem lexQuotedIdentifier_iff (name : Bytes) {rest : Bytes}
    (unquoted : ∀ c ∈ rest.head?, c ≠ 0x60) :
    lexQuotedIdentifier 0x60 (doubleBackticks name ++ 0x60 :: rest) = some (name, rest) ↔
      SafelyQuoted name := by
  induction name with
  | nil =>
    refine iff_of_true ?_ safelyQuoted_nil
    cases rest with
    | nil => rfl
    | cons d rest => simp [doubleBackticks, lexQuotedIdentifier, unquoted d rfl]
  | cons c name ih =>
    obtain ⟨d, tail, text, more⟩ := doubleBackticks_head name rest
    by_cases backtick : c = 0x60
    · rw [safelyQuoted_cons (by rw [backtick]; decide), ← ih, doubleBackticks, if_pos backtick]
      simp [lexQuotedIdentifier, backtick]
    · rw [doubleBackticks, if_neg backtick, List.cons_append]
      rw [text] at ih ⊢
      by_cases backslash : c = 0x5C
      · rw [safelyQuoted_cons_iff, ← ih, ← more]
        by_cases quote : d = 0x60
        · -- The backslash and the backtick after it are one backtick.
          simp [lexQuotedIdentifier, backslash, quote]
        · simp [lexQuotedIdentifier, backslash, quote]
      · rw [safelyQuoted_cons backslash, ← ih]
        simp [lexQuotedIdentifier, backslash, backtick]

theorem lexesAs_quoted_iff (name : Bytes) {rest : Bytes} (unquoted : ∀ c ∈ rest.head?, c ≠ 0x60) :
    LexesAs (0x60 :: (doubleBackticks name ++ 0x60 :: rest)) name rest ↔ SafelyQuoted name := by
  rw [← lexQuotedIdentifier_iff name unquoted, LexesAs, nextToken_backtick]
  cases lexQuotedIdentifier 0x60 (doubleBackticks name ++ 0x60 :: rest) with
  | none => simp
  | some lexed => simp [Prod.ext_iff]

theorem nameToQueryString_eq (name : Bytes) :
    nameToQueryString name = 0x60 :: (doubleBackticks name ++ [0x60]) := by
  have doubled : (name.flatMap fun c => if c = 0x60 then [0x60, 0x60] else [c]) =
      doubleBackticks name := by
    induction name with
    | nil => rfl
    | cons c name ih =>
      rw [List.flatMap_cons, ih, doubleBackticks]
      split
      · rfl
      · rfl
  rw [nameToQueryString, doubled]
  rfl

/-- What `AppendFieldname` and `NameToQueryString` write for a name is read back as this name, and
nothing more is read, exactly if no backslash of the name is before a backtick or at its end. -/
theorem identifier_lexesAs_iff (name rest : Bytes) (unquoted : ∀ c ∈ rest.head?, c ≠ 0x60) :
    LexesAs (fieldname name ++ 0x20 :: rest) name (0x20 :: rest) ∧
      LexesAs (nameToQueryString name ++ rest) name rest ↔ SafelyQuoted name := by
  have blank : ∀ c ∈ (0x20 :: rest).head?, c ≠ 0x60 := by
    intro c mem
    cases mem
    decide
  have query : nameToQueryString name ++ rest = 0x60 :: (doubleBackticks name ++ 0x60 :: rest) := by
    rw [nameToQueryString_eq, List.cons_append, List.append_assoc]
    rfl
  rw [query, lexesAs_quoted_iff name unquoted]
  refine ⟨And.right, fun safe => ⟨?_, safe⟩⟩
  by_cases plain : isPlainIdentifier name = true
  · rw [fieldname, if_pos plain]
    exact .inl (nextToken_plain plain (delimits_cons rfl rest))
  · have field : fieldname name ++ 0x20 :: rest =
        0x60 :: (doubleBackticks name ++ 0x60 :: 0x20 :: rest) := by
      rw [fieldname, if_neg plain, List.cons_append, List.cons_append, List.append_assoc]
      rfl
    rw [field]
    exact (lexesAs_quoted_iff name blank).mpr safe

theorem identifier_lexesAs_backtick :
    LexesAs (fieldname (ascii "a`b\\c") ++ 0x20 :: ascii "Int8") (ascii "a`b\\c")
        (0x20 :: ascii "Int8") ∧
      LexesAs (nameToQueryString (ascii "a`b\\c") ++ ascii "Int8") (ascii "a`b\\c")
        (ascii "Int8") := by
  have unquoted : ∀ c ∈ (ascii "Int8").head?, c ≠ 0x60 := by
    intro c mem
    cases mem
    decide
  refine (identifier_lexesAs_iff (ascii "a`b\\c") (ascii "Int8") unquoted).mpr ?_
  rw [show ascii "a`b\\c" = [0x61, 0x60, 0x62, 0x5C, 0x63] from rfl,
    safelyQuoted_cons (by decide), safelyQuoted_cons (by decide), safelyQuoted_cons (by decide),
    safelyQuoted_cons_iff, safelyQuoted_cons (by decide)]
  exact ⟨fun _ => ⟨0x63, [], rfl, by decide⟩, safelyQuoted_nil⟩

/-- The closing backtick after the backslash is one of the identifier, which takes what follows. -/
theorem not_lexesAs_backslash :
    ∃ name rest : Bytes, name ≠ [] ∧ (∀ c ∈ rest.head?, c ≠ 0x60) ∧
      ¬ LexesAs (fieldname name ++ 0x20 :: rest) name (0x20 :: rest) ∧
      ¬ LexesAs (nameToQueryString name ++ rest) name rest ∧
      nextToken (nameToQueryString name ++ rest) = (.quotedIdentifier (ascii "a`,"), ascii "b`)") := by
  refine ⟨ascii "a\\", ascii ",`b`)", by decide, ?_, by decide, by decide, by decide⟩
  intro c mem
  cases mem
  decide

end ClickHouse
