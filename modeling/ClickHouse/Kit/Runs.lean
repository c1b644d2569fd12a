import Mathlib.Tactic.Common

/-!
# Runs of a system

A system takes one action after the other, each of which leads to one state.
A property that holds between any two actions of a run is settled by what a
single action does to it.
-/

namespace Kit

variable {σ α : Type} (step : σ → α → σ)

/-- The property holds before the first action and after each action. -/
def Always (P : σ → Prop) : σ → List α → Prop
  | s, [] => P s
  | s, a :: as => P s ∧ Always P (step s a) as

/-- Every action of the run is taken in a state that allows it. -/
def EachStep (Q : σ → α → Prop) : σ → List α → Prop
  | _, [] => True
  | s, a :: as => Q s a ∧ EachStep Q (step s a) as

variable {step} {P : σ → Prop} {Q : σ → α → Prop}

variable {as : List α} {s : σ}

theorem always_of_eachStep (keeps : ∀ s a, P s → Q s a → P (step s a)) (start : P s)
    (each : EachStep step Q s as) : Always step P s as := by
  induction as generalizing s with
  | nil => exact start
  | cons a as ih => exact ⟨start, ih (keeps s a start each.1) each.2⟩

/-- A property that every action of the run keeps in every state. -/
theorem always_of_forall (start : P s) (keeps : ∀ a ∈ as, ∀ s, P s → P (step s a)) :
    Always step P s as := by
  induction as generalizing s with
  | nil => exact start
  | cons a as ih =>
    exact ⟨start, ih (keeps a (List.mem_cons_self ..) s start) fun b mem =>
      keeps b (List.mem_cons_of_mem _ mem)⟩

/-- What an action does from a state with the property, it does at every step of the run. -/
theorem eachStep_of_eachStep {R : σ → α → Prop} (keeps : ∀ s a, P s → Q s a → P (step s a))
    (does : ∀ s a, P s → Q s a → R s a) (start : P s) (each : EachStep step Q s as) :
    EachStep step R s as := by
  induction as generalizing s with
  | nil => exact trivial
  | cons a as ih => exact ⟨does s a start each.1, ih (keeps s a start each.1) each.2⟩

theorem Always.first (always : Always step P s as) : P s := by
  cases as with
  | nil => exact always
  | cons a as => exact always.1

theorem Always.mono {P' : σ → Prop} (always : Always step P s as) (weaker : ∀ s, P s → P' s) :
    Always step P' s as := by
  induction as generalizing s with
  | nil => exact weaker s always
  | cons a as ih => exact ⟨weaker s always.1, ih always.2⟩

/-- If one action keeps the property exactly when it meets the condition, so does a run. -/
theorem always_iff_eachStep (keeps : ∀ s a, P s → (P (step s a) ↔ Q s a)) (start : P s)
    (as : List α) : Always step P s as ↔ EachStep step Q s as := by
  constructor
  · intro always
    induction as generalizing s with
    | nil => exact trivial
    | cons a as ih =>
      have next : P (step s a) := always.2.first
      exact ⟨(keeps s a start).mp next, ih next always.2⟩
  · exact always_of_eachStep (fun s a start allowed => (keeps s a start).mpr allowed) start

end Kit
