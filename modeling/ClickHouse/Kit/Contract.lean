import ClickHouse.Kit.Program

/-!
# Contracts of programs that may throw

`Ensures p s returns throws` is the weakest precondition of `p` at the state
`s`: one postcondition for a return, one for a throw.  Since an exception keeps
the state, a handler is a second continuation, and a composition needs the same
postcondition for a throw of either part.

`Along R p` says that the state moves along the relation `R` however `p` ends.
It composes if `R` is reflexive and transitive: a frame, a history that only
grows and an invariant that is kept are all of this kind.
-/

namespace Kit

variable {ε σ α β : Type}

/-- Started in `s`, the program returns with `returns` or throws with `throws`. -/
def Ensures (p : EStateM ε σ α) (s : σ) (returns : α → σ → Prop) (throws : ε → σ → Prop) : Prop :=
  match p s with
  | .ok a t => returns a t
  | .error e t => throws e t

variable {a : α} {e : ε} {f : σ → σ}

section Rules

variable {p : EStateM ε σ α} {s t : σ} {returns : α → σ → Prop} {throws : ε → σ → Prop}

theorem Ensures.of_runs (ensures : Ensures p s returns throws) (run : Runs p s a t) :
    returns a t := by
  unfold Ensures at ensures
  unfold Runs at run
  rw [run] at ensures
  exact ensures

theorem Ensures.of_throws (ensures : Ensures p s returns throws) (thrown : Throws p s e t) :
    throws e t := by
  unfold Ensures at ensures
  unfold Throws at thrown
  rw [thrown] at ensures
  exact ensures

/-- A program ends in one of the two ways. -/
theorem ensures_outcome (p : EStateM ε σ α) (s : σ) :
    Ensures p s (fun a t => Runs p s a t) fun e t => Throws p s e t := by
  unfold Ensures
  split
  · assumption
  · assumption

theorem ensures_of (returned : ∀ a t, Runs p s a t → returns a t)
    (thrown : ∀ e t, Throws p s e t → throws e t) : Ensures p s returns throws := by
  unfold Ensures
  split
  · exact returned _ _ ‹_›
  · exact thrown _ _ ‹_›

theorem Ensures.imp {returns' : α → σ → Prop} {throws' : ε → σ → Prop}
    (ensures : Ensures p s returns throws) (returned : ∀ a t, returns a t → returns' a t)
    (thrown : ∀ e t, throws e t → throws' e t) : Ensures p s returns' throws' :=
  ensures_of (fun a t run => returned a t (ensures.of_runs run))
    fun e t throw => thrown e t (ensures.of_throws throw)

theorem Ensures.and {returns' : α → σ → Prop} {throws' : ε → σ → Prop}
    (first : Ensures p s returns throws) (second : Ensures p s returns' throws') :
    Ensures p s (fun a t => returns a t ∧ returns' a t) fun e t => throws e t ∧ throws' e t :=
  ensures_of (fun _ _ run => ⟨first.of_runs run, second.of_runs run⟩)
    fun _ _ thrown => ⟨first.of_throws thrown, second.of_throws thrown⟩

theorem ensures_pure (holds : returns a s) :
    Ensures (pure a : EStateM ε σ α) s returns throws := holds

theorem ensures_throw (holds : throws e s) :
    Ensures (throw e : EStateM ε σ α) s returns throws := holds

theorem ensures_ofExcept {x : Except ε α} (returned : ∀ a, x = .ok a → returns a s)
    (thrown : ∀ e, x = .error e → throws e s) :
    Ensures (ofExcept x : EStateM ε σ α) s returns throws := by
  cases x with
  | ok a => exact returned a rfl
  | error e => exact thrown e rfl

theorem ensures_ite {c : Prop} [Decidable c] {q : EStateM ε σ α}
    (yes : c → Ensures p s returns throws) (no : ¬ c → Ensures q s returns throws) :
    Ensures (if c then p else q) s returns throws := by
  by_cases holds : c
  · rw [if_pos holds]
    exact yes holds
  · rw [if_neg holds]
    exact no holds

theorem Ensures.bind {f : α → EStateM ε σ β} {returns : β → σ → Prop}
    (ensures : Ensures p s (fun a t => Ensures (f a) t returns throws) throws) :
    Ensures (p >>= f) s returns throws := by
  unfold Ensures at ensures ⊢
  show match EStateM.bind p f s with
    | .ok b t => returns b t
    | .error e t => throws e t
  rw [EStateM.bind]
  cases ended : p s with
  | ok a t =>
    rw [ended] at ensures
    exact ensures
  | error e t =>
    rw [ended] at ensures
    exact ensures

/-- The first part is known to return. -/
theorem Ensures.of_run {f : α → EStateM ε σ β} {returns : β → σ → Prop} (run : Runs p s a t)
    (ensures : Ensures (f a) t returns throws) : Ensures (p >>= f) s returns throws := by
  apply Ensures.bind
  unfold Runs at run
  unfold Ensures
  rw [run]
  exact ensures

theorem ensures_get_bind {f : σ → EStateM ε σ β} {returns : β → σ → Prop}
    (ensures : Ensures (f s) s returns throws) : Ensures (get >>= f) s returns throws :=
  Ensures.bind ensures

theorem ensures_modify {returns : PUnit → σ → Prop} (holds : returns ⟨⟩ (f s)) :
    Ensures (modify f : EStateM ε σ PUnit) s returns throws := holds

theorem ensures_modify_bind {q : PUnit → EStateM ε σ β} {returns : β → σ → Prop}
    (ensures : Ensures (q ⟨⟩) (f s) returns throws) : Ensures (modify f >>= q) s returns throws :=
  Ensures.bind (ensures_modify ensures)

theorem ensures_set_bind {q : PUnit → EStateM ε σ β} {returns : β → σ → Prop}
    (ensures : Ensures (q ⟨⟩) t returns throws) : Ensures (set t >>= q) s returns throws :=
  Ensures.bind ensures

theorem Ensures.tryCatch {handler : ε → EStateM ε σ α}
    (ensures : Ensures p s returns fun e t => Ensures (handler e) t returns throws) :
    Ensures (tryCatch p handler) s returns throws := by
  unfold Ensures at ensures ⊢
  show match EStateM.tryCatch p handler s with
    | .ok a t => returns a t
    | .error e t => throws e t
  rw [EStateM.tryCatch]
  cases ended : p s with
  | ok a t =>
    rw [ended] at ensures
    exact ensures
  | error e t =>
    rw [ended] at ensures
    exact ensures

theorem ensures_zoom {δ : Type} {view : σ → δ} {update : δ → σ → σ} (q : EStateM ε δ α) (s : σ) :
    Ensures (zoom view update q) s (fun a t => ∃ d, Runs q (view s) a d ∧ t = update d s)
      fun e t => ∃ d, Throws q (view s) e d ∧ t = update d s := by
  unfold Ensures zoom
  cases ended : q (view s) with
  | ok a d => exact ⟨d, ended, rfl⟩
  | error e d => exact ⟨d, ended, rfl⟩

end Rules

/-- `try { p } catch (...) { cleanup; throw; }` -/
def onThrow (p : EStateM ε σ α) (cleanup : EStateM ε σ PUnit) : EStateM ε σ α :=
  tryCatch p fun e => do
    cleanup
    throw e

/-- A cleanup that cannot throw itself. -/
theorem Ensures.onThrow_modify {p : EStateM ε σ α} {s : σ} {returns : α → σ → Prop}
    {throws : ε → σ → Prop} (ensures : Ensures p s returns fun e t => throws e (f t)) :
    Ensures (onThrow p (modify f)) s returns throws :=
  Ensures.tryCatch (ensures.imp (fun _ _ holds => holds) fun _ _ holds =>
    ensures_modify_bind (ensures_throw holds))

/-- What returns has not been cleaned up after. -/
theorem Runs.of_onThrow {p : EStateM ε σ α} {cleanup : EStateM ε σ PUnit} {s t : σ}
    (run : Runs (onThrow p cleanup) s a t) : Runs p s a t := by
  have ends : Ensures (onThrow p cleanup) s (fun b u => Runs p s b u) fun _ _ => True := by
    refine Ensures.tryCatch ((ensures_outcome p s).imp (fun _ _ run => run) fun _ u _ => ?_)
    exact Ensures.bind ((ensures_outcome cleanup u).imp (fun _ _ _ => ensures_throw trivial)
      fun _ _ _ => trivial)
  exact ends.of_runs run

/-! ## All or nothing -/

/-- A throw leaves the state as it was. -/
def Atomic (p : EStateM ε σ α) : Prop :=
  ∀ s e t, Throws p s e t → t = s

/-- The state is replaced at once, or there is a throw. -/
def assigns (f : σ → Except ε σ) : EStateM ε σ Unit := do
  let s ← get
  let t ← ofExcept (f s)
  set t

theorem runs_assigns {f : σ → Except ε σ} {s t : σ} (ok : f s = .ok t) :
    Runs (assigns f) s () t :=
  (runs_get s).bind ((runs_ofExcept ok s).bind (runs_set s t))

theorem throws_assigns {f : σ → Except ε σ} {s : σ} (error : f s = .error e) :
    Throws (assigns f) s e s :=
  (runs_get s).bind_throws ((throws_ofExcept error s).bind _)

theorem ok_of_assigns {f : σ → Except ε σ} {s t : σ} (run : Runs (assigns f) s () t) :
    f s = .ok t := by
  cases made : f s with
  | ok u =>
    cases (runs_assigns made).symm.trans run
    rfl
  | error e => cases (throws_assigns made).symm.trans run

/-- A program that ends as the assignment does, in every state, is that assignment. -/
theorem eq_assigns {p : EStateM ε σ Unit} {f : σ → Except ε σ}
    (returns : ∀ s t, f s = .ok t → Runs p s () t)
    (throws : ∀ s e, f s = .error e → Throws p s e s) : p = assigns f := by
  funext s
  cases ended : f s with
  | ok t => exact (returns s t ended).trans (runs_assigns ended).symm
  | error e => exact (throws s e ended).trans (throws_assigns ended).symm

/-- After a call that threw and was caught, everything goes on as if it had not been made. -/
theorem Atomic.caught {p : EStateM ε σ α} (atomic : Atomic p) {s t : σ} (thrown : Throws p s e t)
    (a : α) (later : EStateM ε σ β) :
    ((tryCatch p fun _ => pure a) >>= fun _ => later) s = later s := by
  have unchanged := atomic s e t thrown
  subst unchanged
  exact (thrown.tryCatch_runs (runs_pure a t)).bind_eq _

/-- The calls that return, each made in the state the calls before have left. -/
def accepted {ι : Type} (call : ι → EStateM ε σ Unit) : σ → List ι → List ι
  | _, [] => []
  | s, i :: is =>
    match call i s with
    | .ok _ t => i :: accepted call t is
    | .error _ t => accepted call t is

/-- Of any sequence of calls, those that returned lead to the same state by themselves. -/
theorem runs_accepted {ι : Type} {call : ι → EStateM ε σ Unit} (atomic : ∀ i, Atomic (call i))
    (s : σ) (is : List ι) :
    Runs ((accepted call s is).forM call) s () (is.foldl (fun s i => after (call i) s) s) := by
  induction is generalizing s with
  | nil => exact runs_pure () s
  | cons i is ih =>
    rw [accepted, List.foldl_cons]
    cases ended : call i s with
    | ok _ t =>
      rw [show after (call i) s = t from Runs.after_eq ended]
      exact Runs.bind ended (ih t)
    | error e t =>
      rw [show after (call i) s = t from Throws.after_eq ended, atomic i s e t ended]
      exact ih s

/-! ## Moving along a relation -/

/-- However the program ends, the state has moved along the relation. -/
def Along (R : σ → σ → Prop) (p : EStateM ε σ α) : Prop :=
  ∀ s, R s (after p s)

section Along

variable {R : σ → σ → Prop} {p : EStateM ε σ α}

theorem Along.of_runs (along : Along R p) {s t : σ} (run : Runs p s a t) : R s t :=
  run.after_eq ▸ along s

theorem Along.of_throws (along : Along R p) {s t : σ} (thrown : Throws p s e t) : R s t :=
  thrown.after_eq ▸ along s

theorem Along.ensures (along : Along R p) (s : σ) :
    Ensures p s (fun _ t => R s t) fun _ t => R s t :=
  ensures_of (fun _ _ run => along.of_runs run) fun _ _ thrown => along.of_throws thrown

/-- What holds however the program ends holds afterwards. -/
theorem Ensures.after_holds {s : σ} {P : σ → Prop}
    (ensures : Ensures p s (fun _ t => P t) fun _ t => P t) : P (after p s) := by
  unfold Ensures at ensures
  unfold after
  split
  · rename_i ended
    rw [ended] at ensures
    exact ensures
  · rename_i ended
    rw [ended] at ensures
    exact ensures

theorem ensures_of_after {s : σ} {P : σ → Prop} (holds : P (after p s)) :
    Ensures p s (fun _ t => P t) fun _ t => P t :=
  ensures_of (fun _ _ run => run.after_eq ▸ holds) fun _ _ thrown => thrown.after_eq ▸ holds

theorem along_of_ensures (ensures : ∀ s, Ensures p s (fun _ t => R s t) fun _ t => R s t) :
    Along R p :=
  fun s => (ensures s).after_holds

theorem Along.mono {R' : σ → σ → Prop} (along : Along R p) (weaker : ∀ s t, R s t → R' s t) :
    Along R' p :=
  fun s => weaker _ _ (along s)

theorem Along.bind_pure (along : Along R p) (f : α → β) : Along R (do let a ← p; pure (f a)) :=
  along_of_ensures fun s => Ensures.bind <|
    (along.ensures s).imp (fun _ _ moved => ensures_pure moved) fun _ _ moved => moved

theorem along_modify (moves : ∀ s, R s (f s)) : Along R (modify f : EStateM ε σ PUnit) := moves

variable [Std.Refl R]

theorem along_pure (a : α) : Along R (pure a : EStateM ε σ α) := fun s => Std.Refl.refl s

theorem along_throw (e : ε) : Along R (throw e : EStateM ε σ α) := fun s => Std.Refl.refl s

/-- Nothing is done after a throw. -/
theorem along_throw_bind (e : ε) (f : β → EStateM ε σ α) : Along R (throw e >>= f) :=
  fun s => Std.Refl.refl s

theorem along_get : Along R (get : EStateM ε σ σ) := fun s => Std.Refl.refl s

theorem along_ofExcept (x : Except ε α) : Along R (ofExcept x : EStateM ε σ α) := by
  cases x with
  | ok a => exact along_pure a
  | error e => exact along_throw e

variable [IsTrans σ R]

omit [Std.Refl R] in
/-- A program that starts where the state has moved to. -/
theorem Along.ensures_from (along : Along R p) {s t : σ} (moved : R s t) :
    Ensures p t (fun _ u => R s u) fun _ u => R s u :=
  (along.ensures t).imp (fun _ _ more => IsTrans.trans _ _ _ moved more)
    fun _ _ more => IsTrans.trans _ _ _ moved more

omit [Std.Refl R] in
theorem Along.bind (along : Along R p) {f : α → EStateM ε σ β} (rest : ∀ a, Along R (f a)) :
    Along R (p >>= f) :=
  along_of_ensures fun s => Ensures.bind <|
    (along.ensures s).imp (fun a _ moved => (rest a).ensures_from moved) fun _ _ moved => moved

omit [Std.Refl R] in
theorem Along.tryCatch (along : Along R p) {handler : ε → EStateM ε σ α}
    (handled : ∀ e, Along R (handler e)) : Along R (tryCatch p handler) :=
  along_of_ensures fun s => Ensures.tryCatch <|
    (along.ensures s).imp (fun _ _ moved => moved) fun e _ moved => (handled e).ensures_from moved

/-- A continuation that is given the state it starts in. -/
theorem along_get_bind {f : σ → EStateM ε σ β} (rest : ∀ s, Along R (f s)) :
    Along R (get >>= f) :=
  along_get.bind rest

omit [IsTrans σ R] [Std.Refl R] in
theorem along_zoom {δ : Type} {view : σ → δ} {update : δ → σ → σ} {q : EStateM ε δ α}
    (moves : ∀ d s, R s (update d s)) : Along R (zoom view update q) := by
  intro s
  unfold after zoom
  cases q (view s) with
  | ok a d => exact moves d s
  | error e d => exact moves d s

end Along

end Kit
