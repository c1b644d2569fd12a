import ClickHouse.ParserStack

/-!
# The cache of parsed type names

`ParseTypeName` keeps the trees it has returned.  It makes the entry before it
parses, lets the parser fill it in place and erases it if the parser refuses
the name.  If the parser throws, the entry stays, with what the parser has made
of it so far, and the next call returns it.
-/

namespace ClickHouse

open Kit TypeParser

/-- `ast_cache` -/
abbrev TypeCache := OrdMap Bytes TypeAst

namespace TypeCache

/-- `ParseTypeName` of a name without an entry. -/
def parseNew (name : Bytes) : EStateM Error TypeCache (Option TypeAst) := do
  modify fun cache => cache.assign name .blank
  match parse name .start with
  | .ok true s => do
    modify fun cache => cache.assign name s.root
    pure (some s.root)
  | .ok false s => do
    modify fun cache => cache.assign name s.root
    modify fun cache => cache.erase name
    pure none
  | .error e s => do
    modify fun cache => cache.assign name s.root
    throw e

/-- `ParseTypeName` -/
def parseTypeName (name : Bytes) : EStateM Error TypeCache (Option TypeAst) := do
  let cache ← get
  match cache.find? name with
  | some ast => pure (some ast)
  | none => parseNew name

/-- The result of a call, or what it throws. -/
def call (name : Bytes) (cache : TypeCache) : Except Error (Option TypeAst) :=
  match parseTypeName name cache with
  | .ok result _ => .ok result
  | .error e _ => .error e

/-- The cache after calls with the names. -/
def afterCalls (names : List Bytes) : TypeCache :=
  names.foldl (fun cache name => after (parseTypeName name) cache) .empty

/-- What a call with the name leaves in the cache if there was no entry. -/
def entry (name : Bytes) : Option TypeAst :=
  match parse name .start with
  | .ok true s => some s.root
  | .ok false _ => none
  | .error _ s => some s.root

/-- What a name without an entry gives and leaves. -/
theorem parseNew_eq (name : Bytes) (cache : TypeCache) :
    parseNew name cache =
      match parse name .start with
      | .ok true s => .ok (some s.root) ((cache.assign name .blank).assign name s.root)
      | .ok false s => .ok none (((cache.assign name .blank).assign name s.root).erase name)
      | .error e s => .error e ((cache.assign name .blank).assign name s.root) := by
  unfold parseNew
  generalize parse name .start = parsed
  match parsed with
  | .ok true s => rfl
  | .ok false s => rfl
  | .error e s => rfl

theorem parseTypeName_of_find? {name : Bytes} {cache : TypeCache} {ast : TypeAst}
    (found : cache.find? name = some ast) : parseTypeName name cache = .ok (some ast) cache := by
  refine ((runs_get cache).bind_eq _).trans ?_
  rw [found]
  rfl

theorem parseTypeName_of_absent {name : Bytes} {cache : TypeCache}
    (absent : cache.find? name = none) : parseTypeName name cache = parseNew name cache := by
  refine ((runs_get cache).bind_eq _).trans ?_
  rw [absent]

theorem find?_after (name : Bytes) (cache : TypeCache) (other : Bytes) :
    (after (parseTypeName name) cache).find? other =
      if other = name then (cache.find? name).orElse fun _ => entry name else cache.find? other := by
  unfold after
  cases found : cache.find? name with
  | some ast =>
    rw [parseTypeName_of_find? found]
    show cache.find? other = _
    split
    · rename_i same
      rw [same, found]
      rfl
    · rfl
  | none =>
    have entered (ast ast' : TypeAst) :
        ((cache.assign name ast).assign name ast').find? other =
          if other = name then some ast' else cache.find? other := by
      rw [OrdMap.find?_assign, OrdMap.find?_assign]
      split
      · rfl
      · rfl
    rw [parseTypeName_of_absent found, parseNew_eq]
    unfold entry
    generalize parse name .start = parsed
    match parsed with
    | .ok true s => exact entered _ _
    | .error e s => exact entered _ _
    | .ok false s =>
      show OrdMap.find? (OrdMap.erase _ name) other = _
      rw [OrdMap.find?_erase, entered]
      split
      · rfl
      · rfl

/-- The entries are those of the names the calls were made with. -/
theorem find?_afterCalls (names : List Bytes) (name : Bytes) :
    (afterCalls names).find? name = if name ∈ names then entry name else none := by
  induction names using List.reverseRecOn with
  | nil => rfl
  | append_singleton names last ih =>
    rw [afterCalls, List.foldl_append, List.foldl_cons, List.foldl_nil, find?_after]
    change (if name = last then ((afterCalls names).find? last).orElse fun _ => entry last
      else (afterCalls names).find? name) = _
    by_cases same : name = last
    · rw [if_pos same, ← same, ih, if_pos (List.mem_append_right _ (List.mem_singleton_self _))]
      split
      · cases entry name with
        | none => rfl
        | some ast => rfl
      · rfl
    · have mem : name ∈ names ++ [last] ↔ name ∈ names := by
        rw [List.mem_append, List.mem_singleton]
        exact or_iff_left same
      rw [if_neg same, ih]
      simp only [mem]

/-- A call with an entry returns it, and one without an entry parses the name. -/
theorem call_eq (name : Bytes) (cache : TypeCache) :
    call name cache =
      match cache.find? name with
      | some ast => .ok (some ast)
      | none => ClickHouse.parseTypeName name := by
  unfold call
  cases found : cache.find? name with
  | some ast => rw [parseTypeName_of_find? found]
  | none =>
    rw [parseTypeName_of_absent found, parseNew_eq, ClickHouse.parseTypeName]
    generalize parse name .start = parsed
    match parsed with
    | .ok true s => rfl
    | .ok false s => rfl
    | .error e s => rfl

/-- After any calls `ParseTypeName` behaves as on the empty cache, exactly if none of them was with
the same name or nothing in the name makes the parser fail. -/
theorem call_afterCalls_iff (names : List Bytes) (name : Bytes) :
    call name (afterCalls names) = call name .empty ↔
      (name ∈ names → PopsMatched name ∧ ∀ token ∈ tokenize name, token.malformed = false) := by
  rw [call_eq, call_eq, find?_afterCalls, ← neverUnderflows_iff, ← parse_returns_iff]
  have fresh : (OrdMap.empty : TypeCache).find? name = none := rfl
  rw [fresh]
  by_cases called : name ∈ names
  · rw [if_pos called]
    simp only [called, true_implies]
    unfold entry ClickHouse.parseTypeName
    cases parsed : parse name .start with
    | ok accepted s =>
      refine iff_of_true ?_ ⟨accepted, s, parsed⟩
      cases accepted with
      | true => rfl
      | false => rfl
    | error e s =>
      refine iff_of_false nofun ?_
      rintro ⟨accepted, t, run⟩
      cases parsed.symm.trans run
  · rw [if_neg called]
    simp only [called, false_implies]

/-- The second call returns what the first one, which has thrown, made of the name. -/
theorem not_call_afterCalls_minus :
    ∃ e ast, call (ascii "FixedString(-)") .empty = .error e ∧
      call (ascii "FixedString(-)") (afterCalls [ascii "FixedString(-)"]) = .ok (some ast) := by
  have fails : (ClickHouse.parseTypeName (ascii "FixedString(-)")).isOk = false := by decide +kernel
  cases parsed : parse (ascii "FixedString(-)") .start with
  | ok accepted s =>
    rw [ClickHouse.parseTypeName, parsed] at fails
    cases accepted <;> cases fails
  | error e s =>
    refine ⟨e, s.root, ?_, ?_⟩
    · rw [call_eq, ClickHouse.parseTypeName, parsed]
      rfl
    · rw [call_eq, find?_afterCalls, if_pos (List.mem_singleton_self _), entry, parsed]

end TypeCache

end ClickHouse
