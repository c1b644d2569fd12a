import Mathlib.Tactic.Common

/-!
# Texts that end by themselves

A printer is read in one way when no text of a value, with something behind it
that may follow a value, is also the text of another value with something else
behind it.  `Delimited print valid follow a` says this of one value `a`, so that
it can be proved by induction over the value; printers of sequences are taken
apart from the left.
-/

namespace Kit

open List
variable {γ α : Type}

/-- The text of `a` and what follows it are recognised. -/
def Delimited (print : α → List γ) (valid : α → Prop) (follow : List γ → Prop) (a : α) : Prop :=
  ∀ ⦃b : α⦄ ⦃rest rest' : List γ⦄, valid b → follow rest → follow rest' →
    print a ++ rest = print b ++ rest' → a = b ∧ rest = rest'

/-- A run of symbols of one kind ends where another symbol follows. -/
theorem append_inj_of_all {p : γ → Bool} {xs ys rest rest' : List γ}
    (left : ∀ c ∈ xs, p c = true) (right : ∀ c ∈ ys, p c = true)
    (stops : ∀ c ∈ rest.head?, p c = false) (stops' : ∀ c ∈ rest'.head?, p c = false)
    (same : xs ++ rest = ys ++ rest') : xs = ys ∧ rest = rest' := by
  induction xs generalizing ys with
  | nil =>
    cases ys with
    | nil => exact ⟨rfl, same⟩
    | cons d ys =>
      have start : d ∈ rest.head? := by
        rw [nil_append] at same
        rw [same]
        rfl
      have refused := stops d start
      rw [right d (mem_cons_self ..)] at refused
      cases refused
  | cons c xs ih =>
    cases ys with
    | nil =>
      have start : c ∈ rest'.head? := by
        rw [nil_append] at same
        rw [← same]
        rfl
      have refused := stops' c start
      rw [left c (mem_cons_self ..)] at refused
      cases refused
    | cons d ys =>
      rw [cons_append, cons_append, cons.injEq] at same
      obtain ⟨rfl, same⟩ := same
      obtain ⟨rfl, rests⟩ := ih (fun c mem => left c (mem_cons_of_mem _ mem))
        (fun c mem => right c (mem_cons_of_mem _ mem)) same
      exact ⟨rfl, rests⟩

/-- Texts with a separator between them. -/
def separated (sep : List γ) : List (List γ) → List γ
  | [] => []
  | [x] => x
  | x :: y :: rest => x ++ sep ++ separated sep (y :: rest)

/-- What follows the first of some separated texts. -/
def afterFirst (sep : List γ) : List (List γ) → List γ → List γ
  | [], rest => rest
  | x :: xs, rest => sep ++ (separated sep (x :: xs) ++ rest)

theorem separated_cons_append (sep x : List γ) (xs : List (List γ)) (rest : List γ) :
    separated sep (x :: xs) ++ rest = x ++ afterFirst sep xs rest := by
  cases xs with
  | nil => rfl
  | cons y xs => simp only [separated, afterFirst, append_assoc]

section Lists

variable {print : α → List γ} {valid : α → Prop} {follow : List γ → Prop} {sep close : List γ}

/-- A list of delimited texts is recognised with what closes it, given that the separator, the
closing text and the texts themselves can be told apart. -/
theorem Delimited.separated (afterSep : ∀ rest, follow (sep ++ rest))
    (afterClose : ∀ rest, follow (close ++ rest))
    (apart : ∀ rest rest', sep ++ rest ≠ close ++ rest')
    (opens : ∀ a rest rest', valid a → print a ++ rest ≠ close ++ rest')
    {xs ys : List α} (left : ∀ x ∈ xs, valid x ∧ Delimited print valid follow x)
    (right : ∀ y ∈ ys, valid y) {rest rest' : List γ}
    (same : separated sep (xs.map print) ++ (close ++ rest) =
      separated sep (ys.map print) ++ (close ++ rest')) : xs = ys ∧ rest = rest' := by
  induction xs generalizing ys with
  | nil =>
    cases ys with
    | nil => exact ⟨rfl, append_cancel_left same⟩
    | cons y ys =>
      rw [map_cons, separated_cons_append] at same
      exact (opens y _ _ (right y (mem_cons_self ..)) same.symm).elim
  | cons x xs ih =>
    obtain ⟨isValid, delimited⟩ := left x (mem_cons_self ..)
    have others := fun x mem => left x (mem_cons_of_mem _ mem)
    cases ys with
    | nil =>
      rw [map_cons, separated_cons_append] at same
      exact (opens x _ _ isValid same).elim
    | cons y ys =>
      have follows (zs : List α) (rest : List γ) :
          follow (afterFirst sep (zs.map print) (close ++ rest)) := by
        cases zs with
        | nil => exact afterClose rest
        | cons z zs => exact afterSep _
      rw [map_cons, map_cons, separated_cons_append, separated_cons_append] at same
      obtain ⟨rfl, behind⟩ := delimited (right y (mem_cons_self ..)) (follows xs rest)
        (follows ys rest') same
      -- Behind the first texts there is a separator on both sides or on none.
      cases xs with
      | nil =>
        cases ys with
        | nil => exact ⟨rfl, append_cancel_left behind⟩
        | cons z ys => exact (apart _ _ behind.symm).elim
      | cons w xs =>
        cases ys with
        | nil => exact (apart _ _ behind).elim
        | cons z ys =>
          obtain ⟨tails, rests⟩ := ih others (fun y mem => right y (mem_cons_of_mem _ mem))
            (append_cancel_left behind)
          exact ⟨congrArg (x :: ·) tails, rests⟩

end Lists

end Kit
