import ClickHouse.Kit.Contract
import ClickHouse.Lexing
import Mathlib.Data.List.Induction

/-!
# The stack of the type parser

`Parse` keeps a stack of open elements: an opening bracket pushes, a closing
one pops, a comma and an assignment pop and push.  No token is looked at before
`top` and `pop` are called.  So the number of elements on the stack is one more
than the number of brackets that are open, and the stack is empty after a
closing bracket too many.
-/

namespace ClickHouse

open Kit List TypeParser

/-- The tokens for which `Parse` calls `top` and `pop`. -/
def Token.pops : Token → Bool
  | .rpar | .comma | .assign => true
  | _ => false

/-- The tokens on which `Parse` throws: a number that is no `long`, and a quote with at most one
byte after it. -/
def Token.malformed : Token → Bool
  | .number value => !(stol value).isOk
  | .quotedString [_] => true
  | _ => false

/-- The tokens after which the loop of `Parse` goes on. -/
def Token.continues : Token → Bool
  | .eos | .invalid => false
  | _ => true

variable {before : List Token} {input : Bytes}

namespace TypeParser

/-- The body of the loop of `Parse` for one token after the other. -/
def steps : List Token → EStateM Error TypeParser Unit
  | [] => pure ()
  | token :: tokens => do
    step token
    steps tokens

/-- How a token changes the number of elements on the stack. -/
structure Moves (token : Token) (s t : TypeParser) : Prop where
  wellFormed : token.malformed = false
  nonempty : token.pops = true → s.openElements ≠ []
  length : t.openElements.length + [token].count .rpar =
    s.openElements.length + [token].count .lpar

/-- Why a token makes the parser fail. -/
def Fails (token : Token) (s : TypeParser) (e : Error) : Prop :=
  e = .undefinedBehavior ∧ token.pops = true ∧ s.openElements = [] ∨
    e ≠ .undefinedBehavior ∧ token.malformed = true

theorem stol_error {text : Bytes} {e : Error} (failed : stol text = .error e) :
    e ≠ .undefinedBehavior := by
  unfold stol at failed
  split at failed
  dsimp only at failed
  split at failed
  · cases failed
    nofun
  · rename_i negative digits _ _
    generalize (if negative = true then -(digitsValue digits : Int) else digitsValue digits) =
      value at failed
    split at failed
    · cases failed
    · cases failed
      nofun

theorem step_ensures (token : Token) (s : TypeParser) :
    Ensures (step token) s (fun _ t => Moves token s t) fun e _ => Fails token s e := by
  have separates (separator : Token) (pops : separator.pops = true)
      (well : separator.malformed = false) (closes : [separator].count .rpar = 0)
      (opens : [separator].count .lpar = 0) :
      Ensures step.separator s (fun _ t => Moves separator s t) fun e _ => Fails separator s e := by
    apply ensures_get_bind
    split
    · rename_i empty
      exact ensures_throw (.inl ⟨rfl, pops, empty⟩)
    · rename_i top rest stack
      refine ensures_modify ⟨well, ?_, ?_⟩
      · intro _ empty
        rw [stack] at empty
        cases empty
      · rw [closes, opens]
        rfl
  have stays {p : EStateM Error TypeParser Unit} {other : Token} (well : other.malformed = false)
      (pops : other.pops = false) (closes : [other].count .rpar = 0)
      (opens : [other].count .lpar = 0)
      (ensures : Ensures p s (fun _ t => t.openElements = s.openElements) fun _ _ => False) :
      Ensures p s (fun _ t => Moves other s t) fun e _ => Fails other s e := by
    refine ensures.imp ?_ fun _ _ => False.elim
    intro _ t same
    refine ⟨well, fun does => absurd (pops.symm.trans does) Bool.false_ne_true, ?_⟩
    rw [closes, opens, same]
  cases token with
  | quotedString value =>
    match value with
    | [] => exact stays rfl rfl rfl rfl (ensures_modify_bind (ensures_modify_bind (ensures_modify rfl)))
    | [_] => exact ensures_modify_bind (Ensures.bind (ensures_throw (.inr ⟨nofun, rfl⟩)))
    | _ :: _ :: _ =>
      exact stays rfl rfl rfl rfl (ensures_modify_bind (ensures_modify_bind (ensures_modify rfl)))
  | number value =>
    apply ensures_modify_bind
    cases parsed : stol value with
    | error e =>
      refine Ensures.bind (ensures_throw (.inr ⟨stol_error parsed, ?_⟩))
      rw [Token.malformed, parsed]
      rfl
    | ok n =>
      refine Ensures.of_run (runs_ofExcept rfl _) (ensures_modify ⟨?_, nofun, rfl⟩)
      rw [Token.malformed, parsed]
      rfl
  | lpar => exact ensures_modify ⟨rfl, nofun, rfl⟩
  | rpar =>
    apply ensures_get_bind
    split
    · rename_i empty
      exact ensures_throw (.inl ⟨rfl, rfl, empty⟩)
    · rename_i top rest stack
      refine ensures_modify ⟨rfl, ?_, ?_⟩
      · intro _ empty
        rw [stack] at empty
        cases empty
      · rw [stack]
        rfl
  | assign => exact separates .assign rfl rfl rfl rfl
  | comma => exact separates .comma rfl rfl rfl rfl
  | quotedIdentifier => exact stays rfl rfl rfl rfl (ensures_modify rfl)
  | name => exact stays rfl rfl rfl rfl (ensures_modify rfl)
  | string => exact stays rfl rfl rfl rfl (ensures_modify rfl)
  | eos => exact stays rfl rfl rfl rfl (ensures_pure rfl)
  | invalid => exact stays rfl rfl rfl rfl (ensures_pure rfl)

/-- What holds after the body of the loop was executed for all tokens. -/
structure Moved (tokens : List Token) (s t : TypeParser) : Prop where
  wellFormed : ∀ token ∈ tokens, token.malformed = false
  length : t.openElements.length + tokens.count .rpar = s.openElements.length + tokens.count .lpar

theorem steps_ensures (tokens : List Token) (s : TypeParser) :
    Ensures (steps tokens) s (fun _ t => Moved tokens s t)
      fun e _ => e = .undefinedBehavior ∨
        e ≠ .undefinedBehavior ∧ ∃ token ∈ tokens, token.malformed = true := by
  induction tokens generalizing s with
  | nil => exact ensures_pure ⟨nofun, rfl⟩
  | cons token tokens ih =>
    refine Ensures.bind ((step_ensures token s).imp ?_ ?_)
    · intro _ u moves
      refine (ih u).imp ?_ ?_
      · intro _ t moved
        refine ⟨?_, ?_⟩
        · intro other mem
          rcases mem_cons.mp mem with rfl | mem
          · exact moves.wellFormed
          · exact moved.wellFormed other mem
        · have first := moves.length
          have others := moved.length
          rw [count_cons] at first ⊢
          rw [count_cons] at first ⊢
          simp only [count_nil] at first
          omega
      · intro e t failed
        rcases failed with undefined | ⟨defined, other, mem, malformed⟩
        · exact .inl undefined
        · exact .inr ⟨defined, other, mem_cons_of_mem _ mem, malformed⟩
    · intro e t failed
      rcases failed with ⟨undefined, _⟩ | ⟨defined, malformed⟩
      · exact .inl undefined
      · exact .inr ⟨defined, token, mem_cons_self .., malformed⟩

theorem steps_append (first second : List Token) :
    steps (first ++ second) = (do steps first; steps second) := by
  induction first with
  | nil => rfl
  | cons token first ih =>
    show (do step token; steps (first ++ second)) = (do (do step token; steps first); steps second)
    rw [ih, bind_assoc]

/-- The loop goes on as long as the tokens do not end it. -/
theorem parseTokens_append (continues : ∀ token ∈ before, token.continues = true)
    (after : List Token) (processed : Nat) :
    parseTokens (before ++ after) processed =
      (do steps before; parseTokens after (processed + before.length)) := by
  induction before generalizing processed with
  | nil => rfl
  | cons token before ih =>
    have others := ih (fun other mem => continues other (mem_cons_of_mem _ mem)) (processed + 1)
    have first := continues token (mem_cons_self ..)
    have unfolded : parseTokens (token :: (before ++ after)) processed =
        (do step token; parseTokens (before ++ after) (processed + 1)) := by
      cases token with
      | eos => cases first
      | invalid => cases first
      | _ => rfl
    show parseTokens (token :: (before ++ after)) processed =
      (do (do step token; steps before); parseTokens after (processed + (before.length + 1)))
    rw [unfolded, others, bind_assoc, Nat.add_right_comm, Nat.add_assoc]

end TypeParser

/-! ## The tokens of an input -/

theorem tokenize_eos {rest : Bytes} (next : nextToken input = (.eos, rest)) :
    tokenize input = [.eos] := by
  rw [tokenize, tokenizeLoop, next]

theorem tokenize_invalid {rest : Bytes} (next : nextToken input = (.invalid, rest)) :
    tokenize input = [.invalid] := by
  rw [tokenize, tokenizeLoop, next]

/-- The last token, and only this one, ends the loop of `Parse`. -/
theorem tokenize_eq (input : Bytes) :
    ∃ before last, tokenize input = before ++ [last] ∧ last.continues = false ∧
      ∀ token ∈ before, token.continues = true := by
  induction length : input.length using Nat.strong_induction_on generalizing input with
  | h n ih =>
    subst length
    cases next : nextToken input with
    | mk token rest =>
      by_cases eos : token = .eos
      · exact ⟨[], .eos, tokenize_eos (eos ▸ next), rfl, nofun⟩
      by_cases invalid : token = .invalid
      · exact ⟨[], .invalid, tokenize_invalid (invalid ▸ next), rfl, nofun⟩
      have shorter := nextToken_shorter input
      rw [next] at shorter
      simp only [eos, invalid, false_or] at shorter
      obtain ⟨before, last, tokens, ends, continues⟩ := ih rest.length shorter rest rfl
      refine ⟨token :: before, last, ?_, ends, ?_⟩
      · rw [tokenize_of_nextToken next eos invalid, tokens]
        rfl
      · intro other mem
        rcases mem_cons.mp mem with rfl | mem
        · cases other with
          | eos => exact absurd rfl eos
          | invalid => exact absurd rfl invalid
          | _ => rfl
        · exact continues other mem

/-! ## Underflow -/

/-- Whenever `Parse` calls `top` or `pop`, the stack is not empty. -/
def NeverUnderflows (input : Bytes) : Prop :=
  ∀ before token after, tokenize input = before ++ token :: after → token.pops = true →
    ∀ s, Runs (steps before) .start () s → s.openElements ≠ []

/-- Before each closing bracket, comma or assignment, up to the first malformed token, there are
at most as many closing as opening brackets. -/
def PopsMatched (input : Bytes) : Prop :=
  ∀ before token after, tokenize input = before ++ token :: after → token.pops = true →
    (∀ other ∈ before, other.malformed = false) → before.count .rpar ≤ before.count .lpar

theorem TypeParser.length_of_steps {s : TypeParser} (run : Runs (steps before) start () s) :
    s.openElements.length + before.count .rpar = 1 + before.count .lpar :=
  ((steps_ensures before start).of_runs run).length

/-- Well-formed tokens are executed if no one before them underflows. -/
theorem NeverUnderflows.runs_steps (never : NeverUnderflows input) {after : List Token}
    (tokens : tokenize input = before ++ after)
    (wellFormed : ∀ token ∈ before, token.malformed = false) :
    ∃ s, Runs (steps before) .start () s := by
  induction before using reverseRecOn generalizing after with
  | nil => exact ⟨.start, runs_pure () _⟩
  | append_singleton before token ih =>
    rw [append_assoc] at tokens
    obtain ⟨s, run⟩ := ih tokens fun other mem => wellFormed other (mem_append_left _ mem)
    have well := wellFormed token (mem_append_right _ (mem_singleton_self _))
    cases stepped : step token s with
    | ok _ t =>
      rw [steps_append]
      have one : Runs (steps [token]) s () t := Runs.bind stepped (runs_pure () t)
      exact ⟨t, run.bind one⟩
    | error e t =>
      rcases (step_ensures token s).of_throws stepped with ⟨_, pops, empty⟩ | ⟨_, malformed⟩
      · exact absurd empty (never before token after tokens pops s run)
      · rw [well] at malformed
        cases malformed

/-- The parser executes the tokens before the last one, and then it returns. -/
theorem TypeParser.parse_eq {last : Token} (tokens : tokenize input = before ++ [last])
    (ends : last.continues = false) (continues : ∀ token ∈ before, token.continues = true) :
    ∃ accepts : TypeParser → Bool, parse input = (do
      steps before
      let s ← get
      pure (accepts s)) := by
  rw [parse, tokens, parseTokens_append continues]
  cases last with
  | eos =>
    exact ⟨fun s => s.openElements.length == 1 && 0 + before.length != 0 && validateAST s.root, rfl⟩
  | invalid => exact ⟨fun _ => false, rfl⟩
  | _ => cases ends

/-- The parser returns exactly if no token makes it fail. -/
theorem parse_returns_iff (input : Bytes) :
    (∃ accepted s, Runs (parse input) .start accepted s) ↔
      NeverUnderflows input ∧ ∀ token ∈ tokenize input, token.malformed = false := by
  obtain ⟨before, last, tokens, ends, continues⟩ := tokenize_eq input
  obtain ⟨accepts, parsed⟩ := parse_eq tokens ends continues
  rw [parsed]
  constructor
  · rintro ⟨accepted, t, run⟩
    obtain ⟨_, s, run, _⟩ := runs_bind_iff.mp run
    refine ⟨?_, ?_⟩
    · intro first token after split pops u ran
      -- The token is not the last one, which pops nothing, so it was executed.
      obtain ⟨others, rfl⟩ : ∃ others, before = first ++ token :: others := by
        rw [tokens] at split
        rcases eq_nil_or_concat after with rfl | ⟨others, other, rfl⟩
        · obtain ⟨_, same⟩ := append_inj' split rfl
          cases same
          cases last with
          | rpar => cases ends
          | comma => cases ends
          | assign => cases ends
          | _ => cases pops
        · rw [concat_eq_append, ← cons_append, ← append_assoc] at split
          exact ⟨others, (append_inj' split rfl).1⟩
      rw [steps_append] at run
      obtain ⟨_, v, ran', run⟩ := runs_bind_iff.mp run
      obtain ⟨⟩ := ran.symm.trans ran'
      obtain ⟨_, w, stepped, _⟩ := runs_bind_iff.mp run
      exact ((step_ensures token u).of_runs stepped).nonempty pops
    · intro token mem
      rw [tokens] at mem
      rcases mem_append.mp mem with mem | mem
      · exact ((steps_ensures before .start).of_runs run).wellFormed token mem
      · cases mem_singleton.mp mem
        cases last with
        | eos => rfl
        | invalid => rfl
        | _ => cases ends
  · rintro ⟨never, wellFormed⟩
    obtain ⟨s, run⟩ := never.runs_steps tokens fun token mem =>
      wellFormed token (tokens ▸ mem_append_left _ mem)
    exact ⟨_, s, run.bind (runs_pure _ s)⟩

/-- The stack of open elements is never empty when `Parse` takes an element from it, exactly if
no closing bracket, comma or assignment follows more closing than opening brackets. -/
theorem neverUnderflows_iff (input : Bytes) : NeverUnderflows input ↔ PopsMatched input := by
  constructor
  · intro never before token after tokens pops wellFormed
    obtain ⟨s, run⟩ := never.runs_steps tokens wellFormed
    have nonempty := length_pos_iff.mpr (never before token after tokens pops s run)
    have length := length_of_steps run
    omega
  · intro matched before token after tokens pops s run empty
    have wellFormed := ((steps_ensures before .start).of_runs run).wellFormed
    have few := matched before token after tokens pops wellFormed
    have length := length_of_steps run
    rw [empty, length_nil] at length
    omega

/-- The second bracket is taken from the empty stack. -/
theorem not_neverUnderflows_brackets : ¬ NeverUnderflows (ascii "Int8))") := by
  intro never
  exact never [.name (ascii "Int8"), .rpar] .rpar [.eos] (by decide) rfl _ rfl rfl

end ClickHouse
