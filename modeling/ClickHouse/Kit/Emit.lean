import ClickHouse.Kit.Source
import Mathlib.Data.List.Forall2

/-!
# Writers

A writer is the sequence of the buffers it hands to its output, and the
exception it ends with if it throws.  What was handed over before a throw
stays written.
-/

namespace Kit

structure Emit (ε : Type) where
  written : List Bytes
  error : Option ε

namespace Emit

variable {ε : Type}

def nothing : Emit ε := ⟨[], none⟩

def write (bs : Bytes) : Emit ε := ⟨[bs], none⟩

def writes (segments : List Bytes) : Emit ε := ⟨segments, none⟩

def throw (e : ε) : Emit ε := ⟨[], some e⟩

/-- `first; second` -/
def andThen (first second : Emit ε) : Emit ε :=
  match first.error with
  | none => ⟨first.written ++ second.written, second.error⟩
  | some e => ⟨first.written, some e⟩

/-- One writer after the other. -/
def all : List (Emit ε) → Emit ε
  | [] => nothing
  | e :: es => e.andThen (all es)

end Emit

/-- The writer returns after handing over the bytes `bs`. -/
def Emits {ε : Type} (w : Emit ε) (bs : Bytes) : Prop :=
  w.error = none ∧ w.written.flatten = bs

variable {ε : Type}

theorem emits_nothing : Emits (.nothing : Emit ε) [] := ⟨rfl, rfl⟩

theorem emits_write (bs : Bytes) : Emits (.write bs : Emit ε) bs :=
  ⟨rfl, by simp [Emit.write]⟩

theorem emits_writes (segments : List Bytes) : Emits (.writes segments : Emit ε) segments.flatten :=
  ⟨rfl, rfl⟩

theorem Emits.andThen {first second : Emit ε} {xs ys : Bytes} (left : Emits first xs)
    (right : Emits second ys) : Emits (first.andThen second) (xs ++ ys) := by
  obtain ⟨returns, bytes⟩ := left
  obtain ⟨returns', bytes'⟩ := right
  unfold Emit.andThen
  rw [returns]
  exact ⟨returns', by rw [List.flatten_append, bytes, bytes']⟩

variable {bs : Bytes}

theorem Emits.of_andThen {first second : Emit ε} (emits : Emits (first.andThen second) bs) :
    ∃ xs ys, Emits first xs ∧ Emits second ys ∧ bs = xs ++ ys := by
  obtain ⟨returns, rfl⟩ := emits
  unfold Emit.andThen at returns ⊢
  cases ended : first.error with
  | none =>
    rw [ended] at returns
    exact ⟨_, _, ⟨ended, rfl⟩, ⟨returns, rfl⟩, List.flatten_append⟩
  | some e =>
    rw [ended] at returns
    cases returns

/-- Writers one after the other return if each of them does. -/
theorem emits_all_iff {ws : List (Emit ε)} :
    Emits (.all ws) bs ↔ ∃ pieces, List.Forall₂ Emits ws pieces ∧ pieces.flatten = bs := by
  induction ws generalizing bs with
  | nil =>
    constructor
    · exact fun emits => ⟨[], .nil, emits.2⟩
    · rintro ⟨_, ⟨⟩, rfl⟩
      exact emits_nothing
  | cons w ws ih =>
    constructor
    · intro emits
      obtain ⟨xs, ys, first, others, rfl⟩ := emits.of_andThen
      obtain ⟨pieces, each, rfl⟩ := ih.mp others
      exact ⟨xs :: pieces, .cons first each, rfl⟩
    · rintro ⟨_, first | ⟨first, each⟩, rfl⟩
      rw [List.flatten_cons]
      exact first.andThen (ih.mpr ⟨_, each, rfl⟩)

theorem exists_emits_of_mem {ws : List (Emit ε)} (emits : Emits (.all ws) bs) {w : Emit ε}
    (mem : w ∈ ws) : ∃ xs, Emits w xs := by
  induction ws generalizing bs with
  | nil => cases mem
  | cons v ws ih =>
    obtain ⟨xs, ys, first, others, rfl⟩ := emits.of_andThen
    rcases List.mem_cons.mp mem with rfl | mem
    · exact ⟨xs, first⟩
    · exact ih others mem

theorem Emits.unique {w : Emit ε} {xs ys : Bytes} (first : Emits w xs) (second : Emits w ys) :
    xs = ys :=
  first.2.symm.trans second.2

end Kit
