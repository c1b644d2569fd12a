import ClickHouse.Kit.Program

/-!
# Calls whose end is settled beforehand

A call that makes its checks first ends in one of two ways, and which of them is
a matter of what it is given.  `Ends` says so, with what holds of the state in
either case.  Its rules follow a call through the calls it makes on components
of its state.
-/

namespace Kit

variable {ε σ τ : Type}

/-- The outcome of a program over a component, as one of a program over the whole, the rest of which
is another one if the program throws. -/
def around (done stopped : σ → τ) : EStateM.Result ε σ Unit → EStateM.Result ε τ Unit
  | .ok _ s => .ok () (done s)
  | .error e s => .error e (stopped s)

theorem around_eq_ok {done stopped : σ → τ} {r : EStateM.Result ε σ Unit} {t : τ}
    (ok : around done stopped r = .ok () t) : ∃ s, r = .ok () s ∧ done s = t := by
  cases r with
  | ok _ s =>
    cases ok
    exact ⟨s, rfl, rfl⟩
  | error e s => cases ok

/-- The call returns if it `accepts` what it is given, and throws otherwise. -/
structure Ends (r : EStateM.Result ε σ Unit) (accepts : Bool) (made left : σ → Prop) : Prop where
  accepted : accepts = true → ∃ s, r = .ok () s ∧ made s
  refused : accepts = false → ∃ e s, r = .error e s ∧ left s

namespace Ends

variable {r : EStateM.Result ε σ Unit} {accepts : Bool} {made left : σ → Prop} {s : σ}

theorem of_ok (ended : r = .ok () s) (whole : made s) : Ends r true made left :=
  ⟨fun _ => ⟨s, ended, whole⟩, fun refused => absurd refused.symm Bool.false_ne_true⟩

theorem of_error {e : ε} (ended : r = .error e s) (whole : left s) : Ends r false made left :=
  ⟨fun accepted => absurd accepted Bool.false_ne_true, fun _ => ⟨e, s, ended, whole⟩⟩

/-- What holds in the end can be said in other words. -/
theorem imp {made' left' : σ → Prop} (ends : Ends r accepts made left)
    (ok : accepts = true → ∀ s, made s → made' s)
    (error : accepts = false → ∀ s, left s → left' s) : Ends r accepts made' left' := by
  constructor
  · intro yes
    obtain ⟨s, ended, whole⟩ := ends.accepted yes
    exact ⟨s, ended, ok yes s whole⟩
  · intro no
    obtain ⟨e, s, ended, whole⟩ := ends.refused no
    exact ⟨e, s, ended, error no s whole⟩

theorem around {done stopped : σ → τ} {made' left' : τ → Prop}
    (ends : Ends r accepts made left) (ok : ∀ s, made s → made' (done s))
    (error : ∀ s, left s → left' (stopped s)) :
    Ends (Kit.around done stopped r) accepts made' left' := by
  constructor
  · intro yes
    obtain ⟨s, ended, whole⟩ := ends.accepted yes
    rw [ended]
    exact ⟨done s, rfl, ok s whole⟩
  · intro no
    obtain ⟨e, s, ended, whole⟩ := ends.refused no
    rw [ended]
    exact ⟨e, stopped s, rfl, error s whole⟩

/-- A second call, which is made if the first one returns. -/
theorem bind {p q : EStateM ε σ Unit} {accepts' : Bool} {made' left' : σ → Prop}
    (first : Ends (p s) accepts made left)
    (rest : accepts = true → ∀ t, made t → Ends (q t) accepts' made' left')
    (stopped : accepts = false → ∀ t, left t → left' t) :
    Ends ((do p; q : EStateM ε σ Unit) s) (accepts && accepts') made' left' := by
  cases accepts with
  | true =>
    obtain ⟨t, ran, whole⟩ := first.accepted rfl
    have same : (do p; q : EStateM ε σ Unit) s = q t := Runs.bind_eq ran fun _ => q
    rw [same]
    exact rest rfl t whole
  | false =>
    obtain ⟨e, t, thrown, whole⟩ := first.refused rfl
    exact of_error (Throws.bind thrown _) (stopped rfl t whole)

end Ends

end Kit
