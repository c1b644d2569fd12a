import ClickHouse.Kit.Contract

/-!
# Two runs of one program

`Agree R p` says that two runs of `p` from states that are related by `R` end
in the same way, with the same value or the same exception, in states that are
related again.  Every such relation is thereby one between two runs of a whole
system.
-/

namespace Kit

variable {ε σ α β : Type}

/-- The two outcomes are the same up to the relation of the states. -/
def SameOutcome (R : σ → σ → Prop) :
    EStateM.Result ε σ α → EStateM.Result ε σ α → Prop
  | .ok a s, .ok b t => a = b ∧ R s t
  | .error e s, .error f t => e = f ∧ R s t
  | _, _ => False

/-- From related states the program ends in the same way in related states. -/
def Agree (R : σ → σ → Prop) (p : EStateM ε σ α) : Prop :=
  ∀ s t, R s t → SameOutcome R (p s) (p t)

section Rules

variable {R : σ → σ → Prop} {p : EStateM ε σ α}

theorem SameOutcome.after_related {s t : σ} (same : SameOutcome R (p s) (p t)) :
    R (after p s) (after p t) := by
  unfold SameOutcome at same
  unfold after
  split at same
  · rename_i first second
    rw [first, second]
    exact same.2
  · rename_i first second
    rw [first, second]
    exact same.2
  · cases same

theorem SameOutcome.mono {R' : σ → σ → Prop} {x y : EStateM.Result ε σ α} (same : SameOutcome R x y)
    (weaker : ∀ s t, R s t → R' s t) : SameOutcome R' x y := by
  cases x with
  | ok a s =>
    cases y with
    | ok b t => exact ⟨same.1, weaker s t same.2⟩
    | error e t => exact same
  | error e s =>
    cases y with
    | ok b t => exact same
    | error f t => exact ⟨same.1, weaker s t same.2⟩

theorem sameOutcome_of_runs {s t s' t' : σ} {a : α} (left : Runs p s a s')
    (right : Runs p t a t') (related : R s' t') : SameOutcome R (p s) (p t) := by
  unfold Runs at left right
  rw [left, right]
  exact ⟨rfl, related⟩

/-- Programs that throw the same from both states. -/
theorem sameOutcome_of_throws {s t s' t' : σ} {e : ε} (left : Throws p s e s')
    (right : Throws p t e t') (related : R s' t') : SameOutcome R (p s) (p t) := by
  unfold Throws at left right
  rw [left, right]
  exact ⟨rfl, related⟩

/-- If one run returns, so does the other. -/
theorem Agree.of_runs {s t s' : σ} {a : α} (agree : Agree R p) (run : Runs p s a s')
    (related : R s t) : ∃ t', Runs p t a t' ∧ R s' t' := by
  have same := agree s t related
  unfold Runs at run
  rw [run] at same
  cases other : p t with
  | ok b t' =>
    rw [other] at same
    obtain ⟨rfl, related⟩ := same
    exact ⟨t', other, related⟩
  | error e t' =>
    rw [other] at same
    exact same.elim

theorem agree_pure (a : α) : Agree R (pure a : EStateM ε σ α) :=
  fun _ _ related => ⟨rfl, related⟩

theorem agree_throw (e : ε) : Agree R (throw e : EStateM ε σ α) :=
  fun _ _ related => ⟨rfl, related⟩

theorem agree_ofExcept (x : Except ε α) : Agree R (ofExcept x : EStateM ε σ α) := by
  cases x with
  | ok a => exact agree_pure a
  | error e => exact agree_throw e

theorem agree_modify {f : σ → σ} (moves : ∀ s t, R s t → R (f s) (f t)) :
    Agree R (modify f : EStateM ε σ PUnit) :=
  fun s t related => ⟨rfl, moves s t related⟩

/-- What follows needs to agree only from where the first part has led. -/
theorem SameOutcome.bind {f : α → EStateM ε σ β} {s t : σ} (first : SameOutcome R (p s) (p t))
    (rest : ∀ a, Agree R (f a)) : SameOutcome R ((p >>= f) s) ((p >>= f) t) := by
  show SameOutcome R (EStateM.bind p f s) (EStateM.bind p f t)
  unfold EStateM.bind
  cases left : p s with
  | ok a u =>
    cases right : p t with
    | ok b v =>
      rw [left, right] at first
      obtain ⟨rfl, related⟩ := first
      exact rest a u v related
    | error e v =>
      rw [left, right] at first
      exact first.elim
  | error e u =>
    cases right : p t with
    | ok b v =>
      rw [left, right] at first
      exact first.elim
    | error e' v =>
      rw [left, right] at first
      exact first

theorem Agree.bind (agree : Agree R p) {f : α → EStateM ε σ β} (rest : ∀ a, Agree R (f a)) :
    Agree R (p >>= f) :=
  fun s t related => (agree s t related).bind rest

theorem Agree.tryCatch (agree : Agree R p) {handler : ε → EStateM ε σ α}
    (handled : ∀ e, Agree R (handler e)) : Agree R (tryCatch p handler) := by
  intro s t related
  have first := agree s t related
  show SameOutcome R (EStateM.tryCatch p handler s) (EStateM.tryCatch p handler t)
  unfold EStateM.tryCatch
  cases left : p s with
  | ok a u =>
    cases right : p t with
    | ok b v =>
      rw [left, right] at first
      exact first
    | error e v =>
      rw [left, right] at first
      exact first.elim
  | error e u =>
    cases right : p t with
    | ok b v =>
      rw [left, right] at first
      exact first.elim
    | error e' v =>
      rw [left, right] at first
      obtain ⟨rfl, related⟩ := first
      exact handled e u v related

/-- A continuation that makes the same of related states. -/
theorem agree_get_bind {f : σ → EStateM ε σ β} (same : ∀ s t, R s t → f t = f s)
    (rest : ∀ s, Agree R (f s)) : Agree R (get >>= f) := by
  intro s t related
  show SameOutcome R (f s s) (f t t)
  rw [same s t related]
  exact rest s s t related

/-- A part of the state in which related states do not differ. -/
theorem agree_zoom {δ : Type} {view : σ → δ} {update : δ → σ → σ} {q : EStateM ε δ α}
    (views : ∀ s t, R s t → view t = view s)
    (updates : ∀ d s t, R s t → R (update d s) (update d t)) : Agree R (zoom view update q) := by
  intro s t related
  unfold zoom
  rw [views s t related]
  cases q (view s) with
  | ok a d => exact ⟨rfl, updates d s t related⟩
  | error e d => exact ⟨rfl, updates d s t related⟩

end Rules

end Kit
