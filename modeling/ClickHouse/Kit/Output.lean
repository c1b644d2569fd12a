import ClickHouse.Kit.Source

/-!
# Byte sinks

An output takes bytes and passes them on to where they are sent.  A lawful
output takes all bytes of a write that fits, and after a flush everything it
took has been sent; a prompt output sends what it takes at once.

Of an output that may fail at any time, an account is what can be said: a write
that returns adds what it took to the account, and a flush that returns adds
nothing.
-/

namespace Kit

/-- A stream that is written to; `write` returns how many of the bytes it took. -/
class Output (ε : outParam Type) (σ : Type) where
  write : Bytes → EStateM ε σ Nat
  flush : EStateM ε σ Unit

class LawfulOutput (ε : outParam Type) (σ : Type) extends Output ε σ where
  /-- The lengths of writes that are taken. -/
  Fits : Nat → Prop
  fits_le {m n : Nat} : m ≤ n → Fits n → Fits m
  /-- All bytes that were taken so far. -/
  Took : σ → Bytes → Prop
  /-- All bytes that were taken so far, and these have been sent. -/
  Sent : σ → Bytes → Prop
  took_of_sent {s : σ} {bs : Bytes} : Sent s bs → Took s bs
  write_took {s : σ} {bs data : Bytes} : Took s bs → Fits data.length →
    ∃ t, Runs (write data) s data.length t ∧ Took t (bs ++ data)
  flush_sent {s : σ} {bs : Bytes} : Took s bs → ∃ t, Runs flush s () t ∧ Sent t bs

class PromptOutput (ε : outParam Type) (σ : Type) extends LawfulOutput ε σ where
  sent_of_took {s : σ} {bs : Bytes} : Took s bs → Sent s bs

/-- `took s bs` is an account of the bytes that were taken: it holds after every call that
returns. -/
structure Accounts {ε σ : Type} [Output ε σ] (took : σ → Bytes → Prop) : Prop where
  write {s t : σ} {bs data : Bytes} {n : Nat} : took s bs → Runs (Output.write data) s n t →
    n ≤ data.length ∧ took t (bs ++ data.take n)
  flush {s t : σ} {bs : Bytes} : took s bs → Runs Output.flush s () t → took t bs

variable {ε σ : Type}

open LawfulOutput

/-- A lawful output that takes writes of every length accounts for them. -/
theorem accounts_took [LawfulOutput ε σ] (unlimited : ∀ n, Fits (ε := ε) σ n) :
    Accounts (Took : σ → Bytes → Prop) where
  write := by
    intro s t bs data n took run
    obtain ⟨m, run', took'⟩ := write_took took (unlimited data.length)
    cases run.symm.trans run'
    rw [List.take_length]
    exact ⟨Nat.le_refl _, took'⟩
  flush := by
    intro s t bs took run
    obtain ⟨m, run', sent⟩ := flush_sent took
    cases run.symm.trans run'
    exact took_of_sent sent

/-- One write after the other. -/
def writeEach [Output ε σ] : List Bytes → EStateM ε σ (List Nat)
  | [] => pure []
  | data :: writes => do
    let taken ← Output.write data
    let others ← writeEach writes
    pure (taken :: others)

/-- A lawful output takes all writes that fit. -/
theorem writeEach_took [LawfulOutput ε σ] {writes : List Bytes} {s : σ} {bs : Bytes}
    (took : Took s bs) (fits : ∀ data ∈ writes, Fits (ε := ε) σ data.length) :
    ∃ t, Runs (writeEach writes) s (writes.map List.length) t ∧ Took t (bs ++ writes.flatten) := by
  induction writes generalizing s bs with
  | nil =>
    refine ⟨s, runs_pure _ _, ?_⟩
    rw [List.flatten_nil, List.append_nil]
    exact took
  | cons data writes ih =>
    obtain ⟨m, run, took⟩ := write_took took (fits data (List.mem_cons_self ..))
    obtain ⟨t, run', took⟩ := ih took fun other mem => fits other (List.mem_cons_of_mem _ mem)
    refine ⟨t, run.bind (run'.bind (runs_pure _ _)), ?_⟩
    rw [List.flatten_cons, ← List.append_assoc]
    exact took

end Kit
