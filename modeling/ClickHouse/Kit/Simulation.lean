import ClickHouse.Kit.Program

/-!
# Two programs with one effect

`Simulates V p q` says that `p` and `q` do the same to every state and that
what they return is related by `V`.  A program that keeps more than another one
is compared with it in this way, step by step.
-/

namespace Kit

variable {ε σ α β γ δ : Type}

/-- The outcomes are alike: related values or the same exception, and the same state. -/
def AlikeOutcome (V : α → β → Prop) : EStateM.Result ε σ α → EStateM.Result ε σ β → Prop
  | .ok a s, .ok b t => V a b ∧ s = t
  | .error e s, .error f t => e = f ∧ s = t
  | _, _ => False

def Simulates (V : α → β → Prop) (p : EStateM ε σ α) (q : EStateM ε σ β) : Prop :=
  ∀ s, AlikeOutcome V (p s) (q s)

variable {V : α → β → Prop} {p : EStateM ε σ α} {q : EStateM ε σ β}

theorem simulates_pure {a : α} {b : β} (related : V a b) :
    Simulates V (pure a : EStateM ε σ α) (pure b) :=
  fun _ => ⟨related, rfl⟩

/-- A program simulates itself, with what is known of its values. -/
theorem simulates_self {V : α → α → Prop} (returns : ∀ s a t, Runs p s a t → V a a) :
    Simulates V p p := by
  intro s
  cases outcome : p s with
  | ok a t => exact ⟨returns s a t outcome, rfl⟩
  | error e t => exact ⟨rfl, rfl⟩

theorem Simulates.bind (first : Simulates V p q) {W : γ → δ → Prop} {f : α → EStateM ε σ γ}
    {g : β → EStateM ε σ δ} (rest : ∀ a b, V a b → Simulates W (f a) (g b)) :
    Simulates W (p >>= f) (q >>= g) := by
  intro s
  have alike := first s
  show AlikeOutcome W (EStateM.bind p f s) (EStateM.bind q g s)
  unfold EStateM.bind
  cases left : p s with
  | ok a t =>
    cases right : q s with
    | ok b u =>
      rw [left, right] at alike
      obtain ⟨related, rfl⟩ := alike
      exact rest a b related t
    | error f u =>
      rw [left, right] at alike
      exact alike.elim
  | error e t =>
    cases right : q s with
    | ok b u =>
      rw [left, right] at alike
      exact alike.elim
    | error f u =>
      rw [left, right] at alike
      exact alike

/-- The second program may go on to change its value. -/
theorem Simulates.map_right (first : Simulates V p q) {W : α → δ → Prop} {g : β → δ}
    (rest : ∀ a b, V a b → W a (g b)) : Simulates W p (q >>= fun b => pure (g b)) := by
  rw [← bind_pure p]
  exact first.bind fun a b related => simulates_pure (rest a b related)

end Kit
