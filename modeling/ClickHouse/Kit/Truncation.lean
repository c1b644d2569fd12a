import ClickHouse.Kit.Source

/-!
# Decoders on truncated input

What a decoder does when its input ends too early is a property of the decoder
and of the bytes it expects: how many of them may be missing at the end before
it notices.  Of two decoders one after the other the second has its own such
number; only if it can do without all of its bytes are missing bytes of the
first unnoticed too.
-/

namespace Kit

open List
variable {ε σ α β : Type}

/-- The program expects `bytes` of an input and returns a good value if they are there, whatever
follows, or if no more than `slack` of them are missing at the end.  If more are missing, all it may
return is a bad value. -/
structure Tolerates (input : Bytes → σ) (good bad : α → Prop) (p : EStateM ε σ α) (bytes : Bytes)
    (slack : Nat) : Prop where
  within : slack ≤ bytes.length
  whole : ∀ rest, ∃ a, good a ∧ Runs p (input (bytes ++ rest)) a (input rest)
  accepts : ∀ {part missing}, bytes = part ++ missing → missing.length ≤ slack →
    ∃ a, good a ∧ Runs p (input part) a (input [])
  refuses : ∀ {part missing}, bytes = part ++ missing → slack < missing.length →
    ∀ {a t}, Runs p (input part) a t → bad a

namespace Tolerates

variable {input : Bytes → σ} {good bad : α → Prop} {good' bad' : β → Prop} {p : EStateM ε σ α}
  {f : α → EStateM ε σ β} {xs ys : Bytes} {j k : Nat}

variable {a : α}

theorem pure (accepted : good a) : Tolerates input good bad (Pure.pure a : EStateM ε σ α) [] 0 where
  within := Nat.le_refl 0
  whole rest := ⟨a, accepted, runs_pure a _⟩
  accepts split _ := by
    obtain ⟨rfl, -⟩ := append_eq_nil_iff.mp split.symm
    exact ⟨a, accepted, runs_pure a _⟩
  refuses split more := by
    obtain ⟨-, rfl⟩ := append_eq_nil_iff.mp split.symm
    exact absurd more (Nat.lt_irrefl 0)

/-- A decoder that notices every missing byte. -/
theorem of_strict (whole : ∀ rest, Runs p (input (xs ++ rest)) a (input rest))
    (refuses : ∀ {part missing}, xs = part ++ missing → missing ≠ [] →
      ∀ {b t}, Runs p (input part) b t → bad b) : Tolerates input (· = a) bad p xs 0 where
  within := Nat.zero_le _
  whole rest := ⟨a, rfl, whole rest⟩
  accepts := by
    intro part missing split none
    obtain rfl := eq_nil_of_length_eq_zero (Nat.le_zero.mp none)
    have run := whole []
    rw [split, append_nil, append_nil] at run
    exact ⟨a, rfl, run⟩
  refuses split more := refuses split (length_pos_iff.mp more)

/-- A decoder that notices no missing byte. -/
theorem of_lenient (whole : ∀ rest, ∃ a, good a ∧ Runs p (input (xs ++ rest)) a (input rest))
    (accepts : ∀ {part missing}, xs = part ++ missing → ∃ a, good a ∧ Runs p (input part) a (input [])) :
    Tolerates input good bad p xs xs.length where
  within := Nat.le_refl _
  whole := whole
  accepts split _ := accepts split
  refuses split more := by
    rw [split, length_append] at more
    omega

theorem bind (first : Tolerates input good bad p xs j)
    (fails : ∀ {a s b t}, bad a → Runs (f a) s b t → bad' b)
    (next : ∀ {a}, good a → Tolerates input good' bad' (f a) ys k) :
    Tolerates input good' bad' (p >>= f) (xs ++ ys) (if k = ys.length then j + k else k) := by
  obtain ⟨some, accepted, _⟩ := first.whole []
  have short : k ≤ ys.length := (next accepted).within
  refine ⟨?_, ?_, ?_, ?_⟩
  · have within := first.within
    rw [length_append]
    split <;> omega
  · intro rest
    rw [append_assoc]
    obtain ⟨a, accepted, run⟩ := first.whole (ys ++ rest)
    obtain ⟨b, accepted', run'⟩ := (next accepted).whole rest
    exact ⟨b, accepted', run.bind run'⟩
  · intro part missing cut few
    rcases append_eq_append_iff.mp cut with ⟨tail, rfl, rest⟩ | ⟨tail, rfl, rfl⟩
    · -- The input ends within the second part.
      have lengths := congrArg length rest
      rw [length_append] at lengths
      obtain ⟨a, accepted, run⟩ := first.whole tail
      obtain ⟨b, accepted', run'⟩ := (next accepted).accepts rest (by split at few <;> omega)
      exact ⟨b, accepted', run.bind run'⟩
    · -- It ends within the first, so that the second has no input at all.
      rw [length_append] at few
      obtain ⟨a, accepted, run⟩ := first.accepts rfl (by split at few <;> omega)
      have none : ys = [] ++ ys := rfl
      obtain ⟨b, accepted', run'⟩ := (next accepted).accepts none (by split at few <;> omega)
      exact ⟨b, accepted', run.bind run'⟩
  · intro part missing cut many b t run
    obtain ⟨a, m, run, run'⟩ := runs_bind_iff.mp run
    rcases append_eq_append_iff.mp cut with ⟨tail, rfl, rest⟩ | ⟨tail, rfl, rfl⟩
    · have lengths := congrArg length rest
      rw [length_append] at lengths
      obtain ⟨a', accepted, same⟩ := first.whole tail
      obtain ⟨rfl, rfl⟩ := run.unique same
      exact (next accepted).refuses rest (by split at many <;> omega) run'
    · rw [length_append] at many
      by_cases enough : tail.length ≤ j
      · obtain ⟨a', accepted, same⟩ := first.accepts rfl enough
        obtain ⟨rfl, rfl⟩ := run.unique same
        have none : ys = [] ++ ys := rfl
        exact (next accepted).refuses none (by split at many <;> omega) run'
      · exact fails (first.refuses rfl (by omega) run) run'

/-- A first part that notices every missing byte. -/
theorem bind_strict (first : Tolerates input good bad p xs 0)
    (fails : ∀ {a s b t}, bad a → Runs (f a) s b t → bad' b)
    (next : ∀ {a}, good a → Tolerates input good' bad' (f a) ys k) :
    Tolerates input good' bad' (p >>= f) (xs ++ ys) k := by
  have both := first.bind fails next
  rwa [Nat.zero_add, ite_self] at both

/-- A first part with one value for success and one for failure. -/
theorem bind_exact {c : α} (first : Tolerates input (· = a) (· = c) p xs 0)
    (stops : ∀ {s b t}, Runs (f c) s b t → bad' b) (next : Tolerates input good' bad' (f a) ys k) :
    Tolerates input good' bad' (p >>= f) (xs ++ ys) k := by
  refine first.bind_strict ?_ ?_
  · intro found s b t missing run
    rw [missing] at run
    exact stops run
  · intro found same
    rw [same]
    exact next

/-- A continuation that reads nothing. -/
theorem bind_pure (first : Tolerates input good bad p xs j)
    (next : ∀ {a}, good a → ∃ b, good' b ∧ f a = Pure.pure b)
    (stops : ∀ {a}, bad a → ∃ b, bad' b ∧ f a = Pure.pure b) :
    Tolerates input good' bad' (p >>= f) xs j := by
  have returns {a : α} (accepted : good a) : Tolerates input good' bad' (f a) [] 0 := by
    obtain ⟨b, accepted', same⟩ := next accepted
    rw [same]
    exact .pure accepted'
  have fails {a : α} {s t : σ} {b : β} (refused : bad a) (run : Runs (f a) s b t) : bad' b := by
    obtain ⟨c, refused', same⟩ := stops refused
    rw [same] at run
    obtain ⟨rfl, -⟩ := runs_pure_iff.mp run
    exact refused'
  have both := first.bind fails returns
  rwa [append_nil, length_nil, if_pos rfl, Nat.add_zero] at both

/-- A decoder that throws when it notices a missing byte, below a handler. -/
theorem tryCatch {handler : ε → EStateM ε σ α}
    (tolerates : Tolerates input good (fun _ => False) p xs j)
    (handles : ∀ {e s a t}, Runs (handler e) s a t → bad a) :
    Tolerates input good bad (MonadExcept.tryCatch p handler) xs j where
  within := tolerates.within
  whole rest := by
    obtain ⟨a, accepted, run⟩ := tolerates.whole rest
    exact ⟨a, accepted, run.tryCatch handler⟩
  accepts split few := by
    obtain ⟨a, accepted, run⟩ := tolerates.accepts split few
    exact ⟨a, accepted, run.tryCatch handler⟩
  refuses := by
    intro part missing split more a t run
    cases ended : p (input part) with
    | ok b u => exact (tolerates.refuses split more ended).elim
    | error e u =>
      have caught : EStateM.tryCatch p handler (input part) = .ok a t := run
      rw [EStateM.tryCatch, ended] at caught
      exact handles caught

end Tolerates

end Kit
