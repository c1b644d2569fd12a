import Mathlib.Data.List.Induction
import Mathlib.Data.List.Infix
import Mathlib.Tactic.Common

/-!
# Nesting

Opening and closing marks in a list.  They are nested if no prefix of the list
has more closing than opening marks.
-/

namespace Kit

open List
variable {α : Type} [DecidableEq α] {o c : α} {n : Nat} {xs ys : List α}

/-- No prefix has more marks `c` than marks `o`, with `n` marks `o` before the list. -/
def Nested (o c : α) (n : Nat) (xs : List α) : Prop :=
  ∀ p, p <+: xs → p.count c ≤ n + p.count o

theorem nested_nil (n : Nat) : Nested o c n [] := by
  intro p isPrefix
  rw [prefix_nil.mp isPrefix]
  exact Nat.zero_le _

theorem nested_append :
    Nested o c n (xs ++ ys) ↔ Nested o c n xs ∧ Nested o c (n + xs.count o - xs.count c) ys := by
  constructor
  · intro nested
    refine ⟨fun p isPrefix => nested p (isPrefix.trans (prefix_append xs ys)), ?_⟩
    intro q isPrefix
    have all := nested (xs ++ q) ((prefix_append_right_inj xs).mpr isPrefix)
    have first := nested xs (prefix_append xs ys)
    rw [count_append, count_append] at all
    omega
  · rintro ⟨first, second⟩ p isPrefix
    rcases prefix_or_prefix_of_prefix isPrefix (prefix_append xs ys) with inside | ⟨q, rfl⟩
    · exact first p inside
    · have whole := first xs (prefix_refl xs)
      have others := second q ((prefix_append_right_inj xs).mp isPrefix)
      rw [count_append, count_append]
      omega

/-- In a list with at most one mark only this one counts. -/
theorem nested_iff_of_few (few : xs.count o + xs.count c ≤ 1) :
    Nested o c n xs ↔ xs.count c ≤ n + xs.count o := by
  constructor
  · intro nested
    exact nested xs (prefix_refl xs)
  · intro bound p isPrefix
    have fewer := isPrefix.sublist.count_le c
    omega

/-- In a list that is not nested there is a first mark that closes nothing. -/
theorem exists_unmatched (different : o ≠ c) (not : ¬ Nested o c 0 xs) :
    ∃ before after, xs = before ++ c :: after ∧ before.count c = before.count o := by
  induction xs using reverseRecOn with
  | nil => exact absurd (nested_nil 0) not
  | append_singleton xs a ih =>
    by_cases nested : Nested o c 0 xs
    · have whole := nested xs (prefix_refl xs)
      have few : [a].count o + [a].count c ≤ 1 := by
        by_cases opens : a = o
        · simp [opens, different]
        · simp [count_singleton, opens]
          split <;> omega
      rw [nested_append, nested_iff_of_few few] at not
      have tooMany : ¬ [a].count c ≤ 0 + xs.count o - xs.count c + [a].count o :=
        fun bound => not ⟨nested, bound⟩
      have closes : a = c := by
        by_contra other
        simp [count_singleton, other] at tooMany
      refine ⟨xs, [], by rw [closes], ?_⟩
      simp [closes, different.symm] at tooMany
      omega
    · obtain ⟨before, after, rfl, equal⟩ := ih nested
      exact ⟨before, after ++ [a], by simp, equal⟩

end Kit
