import Mathlib.Tactic.Common

/-!
# Programs that keep their state when they throw

`EStateM ε σ` is the monad of a language with exceptions over mutable state: a
throw leaves every assignment made before it in place, and a handler continues
from the state of the throw.  `Runs` and `Throws` name the two ways a program
can end, with the inversion of a sequential composition for each.
-/

namespace Kit

variable {ε σ α β : Type}

/-- From `s` the program returns `a` and leaves the state `t`. -/
def Runs (p : EStateM ε σ α) (s : σ) (a : α) (t : σ) : Prop :=
  p s = .ok a t

/-- From `s` the program throws `e` and leaves the state `t`. -/
def Throws (p : EStateM ε σ α) (s : σ) (e : ε) (t : σ) : Prop :=
  p s = .error e t

/-- The state a program leaves, whether it returns or throws. -/
def after (p : EStateM ε σ α) (s : σ) : σ :=
  match p s with
  | .ok _ t => t
  | .error _ t => t

variable {a : α} {p : EStateM ε σ α} {s t u : σ} {e : ε} {b : β} {f : α → EStateM ε σ β}
    {δ γ : Type} {update : δ → σ → σ} {view : σ → δ}

theorem Runs.after_eq (run : Runs p s a t) : after p s = t := by
  unfold Runs at run
  rw [after, run]

theorem Throws.after_eq (throws : Throws p s e t) : after p s = t := by
  unfold Throws at throws
  rw [after, throws]

/-- A program returns in one way. -/
theorem Runs.unique {b : α} (run : Runs p s a t) (run' : Runs p s b u) : a = b ∧ t = u := by
  cases run.symm.trans run'
  exact ⟨rfl, rfl⟩

theorem runs_pure (a : α) (s : σ) : Runs (pure a : EStateM ε σ α) s a s := rfl

theorem runs_get (s : σ) : Runs (get : EStateM ε σ σ) s s s := rfl

theorem runs_set (s t : σ) : Runs (set t : EStateM ε σ PUnit) s ⟨⟩ t := rfl

theorem runs_modify (f : σ → σ) (s : σ) : Runs (modify f : EStateM ε σ PUnit) s ⟨⟩ (f s) := rfl

theorem runs_ofExcept {x : Except ε α} (ok : x = .ok a) (s : σ) :
    Runs (ofExcept x : EStateM ε σ α) s a s := by
  subst ok
  rfl

theorem throws_ofExcept {x : Except ε α} (error : x = .error e) (s : σ) :
    Throws (ofExcept x : EStateM ε σ α) s e s := by
  subst error
  rfl

theorem throws_throw (e : ε) (s : σ) : Throws (throw e : EStateM ε σ α) s e s := rfl

theorem Runs.bind (first : Runs p s a t) (rest : Runs (f a) t b u) : Runs (p >>= f) s b u := by
  unfold Runs at first rest ⊢
  rw [← rest]
  show EStateM.bind p f s = _
  rw [EStateM.bind, first]

/-- After a part that returns, all is as for what follows. -/
theorem Runs.bind_eq (first : Runs p s a t) (f : α → EStateM ε σ β) : (p >>= f) s = f a t := by
  unfold Runs at first
  show EStateM.bind p f s = _
  rw [EStateM.bind, first]

/-- What starts in the same way goes on in the same way. -/
theorem bind_eq_of_eq {q : EStateM ε σ α} (same : p s = q t) (f : α → EStateM ε σ β) :
    (p >>= f) s = (q >>= f) t := by
  show EStateM.bind p f s = EStateM.bind q f t
  rw [EStateM.bind, EStateM.bind, same]

theorem Runs.bind_throws (first : Runs p s a t) (rest : Throws (f a) t e u) :
    Throws (p >>= f) s e u := by
  unfold Runs at first
  unfold Throws at rest ⊢
  rw [← rest]
  show EStateM.bind p f s = _
  rw [EStateM.bind, first]

theorem Throws.bind (first : Throws p s e t) (f : α → EStateM ε σ β) : Throws (p >>= f) s e t := by
  unfold Throws at first ⊢
  show EStateM.bind p f s = _
  rw [EStateM.bind, first]

/-- A handler is not entered when the program returns. -/
theorem Runs.tryCatch (run : Runs p s a t) (handler : ε → EStateM ε σ α) :
    Runs (tryCatch p handler) s a t := by
  unfold Runs at run ⊢
  show EStateM.tryCatch p handler s = _
  rw [EStateM.tryCatch, run]

/-- The handler goes on from the state of the throw. -/
theorem Throws.tryCatch {e' : ε} (throws : Throws p s e t) {handler : ε → EStateM ε σ α}
    (handled : Throws (handler e) t e' u) : Throws (tryCatch p handler) s e' u := by
  unfold Throws at throws handled ⊢
  show EStateM.tryCatch p handler s = _
  rw [EStateM.tryCatch, throws]
  exact handled

/-- A handler that returns. -/
theorem Throws.tryCatch_runs (throws : Throws p s e t) {handler : ε → EStateM ε σ α}
    (handled : Runs (handler e) t a u) : Runs (MonadExcept.tryCatch p handler) s a u := by
  unfold Throws at throws
  unfold Runs at handled ⊢
  show EStateM.tryCatch p handler s = _
  rw [EStateM.tryCatch, throws]
  exact handled

/-- A sequential composition returns exactly when both parts do. -/
theorem runs_bind_iff : Runs (p >>= f) s b u ↔ ∃ a t, Runs p s a t ∧ Runs (f a) t b u := by
  constructor
  · intro run
    cases first : p s with
    | ok a t =>
      refine ⟨a, t, first, ?_⟩
      have whole : EStateM.bind p f s = .ok b u := run
      rw [EStateM.bind, first] at whole
      exact whole
    | error e t =>
      have whole : EStateM.bind p f s = .ok b u := run
      rw [EStateM.bind, first] at whole
      cases whole
  · rintro ⟨a, t, first, rest⟩
    exact first.bind rest

theorem runs_pure_iff {b : α} : Runs (pure a : EStateM ε σ α) s b t ↔ a = b ∧ s = t := by
  constructor
  · intro run
    cases run
    exact ⟨rfl, rfl⟩
  · rintro ⟨rfl, rfl⟩
    exact runs_pure a s

/-- A program whose result is only put into another form. -/
theorem runs_bind_pure_iff {f : α → β} :
    Runs (do let a ← p; pure (f a)) s b t ↔ ∃ a, Runs p s a t ∧ f a = b := by
  rw [runs_bind_iff]
  constructor
  · rintro ⟨a, u, run, returned⟩
    obtain ⟨same, rfl⟩ := runs_pure_iff.mp returned
    exact ⟨a, run, same⟩
  · rintro ⟨a, run, rfl⟩
    exact ⟨a, t, run, runs_pure _ t⟩

/-- A program over a part of the state. -/
def zoom {δ : Type} (view : σ → δ) (update : δ → σ → σ) (p : EStateM ε δ α) : EStateM ε σ α :=
  fun s =>
    match p (view s) with
    | .ok a d => .ok a (update d s)
    | .error e d => .error e (update d s)

theorem Runs.zoom {p : EStateM ε δ α} {d : δ} (run : Runs p (view s) a d) :
    Runs (zoom view update p) s a (update d s) := by
  unfold Runs at run
  unfold Runs Kit.zoom
  rw [run]

theorem Runs.of_zoom {p : EStateM ε δ α} (run : Runs (Kit.zoom view update p) s a t) :
    ∃ d, Runs p (view s) a d ∧ t = update d s := by
  unfold Runs Kit.zoom at run
  cases ended : p (view s) with
  | ok b d =>
    rw [ended] at run
    cases run
    exact ⟨d, ended, rfl⟩
  | error e d =>
    rw [ended] at run
    cases run

theorem Throws.zoom {p : EStateM ε δ α} {d : δ} (throws : Throws p (view s) e d) :
    Throws (zoom view update p) s e (update d s) := by
  unfold Throws at throws
  unfold Throws Kit.zoom
  rw [throws]

/-- A program over the first of two parts of the state. -/
def onFirst {γ : Type} (p : EStateM ε σ α) : EStateM ε (σ × γ) α :=
  zoom Prod.fst (fun first both => (first, both.2)) p

/-- A program over the second of two parts of the state. -/
def onSecond {γ : Type} (p : EStateM ε σ α) : EStateM ε (γ × σ) α :=
  zoom Prod.snd (fun second both => (both.1, second)) p

theorem Runs.onFirst (run : Runs p s a t) (c : γ) : Runs (onFirst p) (s, c) a (t, c) := by
  have part : Runs p (Prod.fst (s, c)) a t := run
  exact part.zoom

theorem Runs.onSecond (run : Runs p s a t) (c : γ) : Runs (onSecond p) (c, s) a (c, t) := by
  have part : Runs p (Prod.snd (c, s)) a t := run
  exact part.zoom

theorem Throws.onSecond (throws : Throws p s e t) (c : γ) :
    Throws (onSecond p) (c, s) e (c, t) := by
  have part : Throws p (Prod.snd (c, s)) e t := throws
  exact part.zoom

theorem Runs.of_onSecond {c : γ} {both : γ × σ} (run : Runs (Kit.onSecond p) (c, s) a both) :
    ∃ t, Runs p s a t ∧ both = (c, t) :=
  run.of_zoom

/-- The outcome of a program over a part of a value, as one of a program over the value. -/
def embed {δ : Type} (make : δ → σ) : EStateM.Result ε δ α → EStateM.Result ε σ α
  | .ok a d => .ok a (make d)
  | .error e d => .error e (make d)

end Kit
