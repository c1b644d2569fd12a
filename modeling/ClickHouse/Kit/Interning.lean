import Mathlib.Data.List.Dedup
import Mathlib.Data.List.Perm.Subperm

/-!
# Interning

Values are stored once, in the order in which they first occur, and are found
again through a table from keys to positions.  The table is right for every
value whose key tells it from the stored ones.
-/

namespace Kit

open List
variable {α κ : Type} [DecidableEq α] [BEq κ] [LawfulBEq κ] (key : α → κ)

/-- The stored values after one more value. -/
def intern (stored : List α) (a : α) : List α := if a ∈ stored then stored else stored ++ [a]

/-- The table of the stored values, counting from `start`. -/
def keyTableFrom : Nat → List α → List (κ × Nat)
  | _, [] => []
  | start, a :: stored => (key a, start) :: keyTableFrom (start + 1) stored

def keyTable (stored : List α) : List (κ × Nat) := keyTableFrom key 0 stored

/-- The key tells the value from the stored ones. -/
def Separated (stored : List α) (a : α) : Prop := ∀ b ∈ stored, key b = key a → b = a

variable {key}

omit [DecidableEq α] [BEq κ] [LawfulBEq κ] in
theorem keyTableFrom_concat (start : Nat) (stored : List α) (a : α) :
    keyTableFrom key start (stored ++ [a]) =
      keyTableFrom key start stored ++ [(key a, start + stored.length)] := by
  induction stored generalizing start with
  | nil => rfl
  | cons b stored ih =>
    rw [cons_append, keyTableFrom, ih, keyTableFrom, length_cons, Nat.add_right_comm,
      Nat.add_assoc, cons_append]

omit [DecidableEq α] [BEq κ] [LawfulBEq κ] in
theorem keyTable_concat (stored : List α) (a : α) :
    keyTable key (stored ++ [a]) = keyTable key stored ++ [(key a, stored.length)] := by
  rw [keyTable, keyTableFrom_concat, Nat.zero_add, keyTable]

variable {a : α} {given : List α}

theorem lookup_keyTableFrom {stored : List α} (separated : Separated key stored a) (start : Nat) :
    (keyTableFrom key start stored).lookup (key a) =
      if a ∈ stored then some (start + stored.idxOf a) else none := by
  induction stored generalizing start with
  | nil => rfl
  | cons b stored ih =>
    have others : Separated key stored a := fun c mem => separated c (mem_cons_of_mem _ mem)
    rw [keyTableFrom, lookup_cons]
    by_cases same : b = a
    · subst same
      simp
    · have differs : key a ≠ key b := fun eq => same (separated b (mem_cons_self ..) eq.symm)
      simp only [beq_false_of_ne differs, ih others, mem_cons, Ne.symm same, false_or,
        idxOf_cons_ne _ same]
      split
      · rw [Nat.add_right_comm, Nat.add_assoc]
      · rfl

/-- A stored value is found at its position, another value is not found. -/
theorem lookup_keyTable {stored : List α} (separated : Separated key stored a) :
    (keyTable key stored).lookup (key a) = if a ∈ stored then some (stored.idxOf a) else none := by
  rw [keyTable, lookup_keyTableFrom separated]
  simp only [Nat.zero_add]

theorem mem_intern {stored : List α} {b : α} : b ∈ intern stored a ↔ b ∈ stored ∨ b = a := by
  rw [intern]
  split
  · rename_i mem
    constructor
    · exact .inl
    · rintro (isStored | rfl)
      · exact isStored
      · exact mem
  · rw [mem_append, mem_singleton]

theorem nodup_intern {stored : List α} (distinct : stored.Nodup) (a : α) :
    (intern stored a).Nodup := by
  rw [intern]
  split
  · exact distinct
  · rename_i fresh
    exact nodup_append_comm.mpr (nodup_cons.mpr ⟨fresh, distinct⟩)

theorem length_le_foldl_intern (given stored : List α) :
    stored.length ≤ (given.foldl intern stored).length := by
  induction given generalizing stored with
  | nil => exact Nat.le_refl _
  | cons a given ih =>
    refine Nat.le_trans ?_ (ih (intern stored a))
    rw [intern]
    split
    · exact Nat.le_refl _
    · rw [length_append]
      exact Nat.le_add_right _ _

theorem mem_foldl_intern {stored : List α} (mem : a ∈ given.foldl intern stored) :
    a ∈ stored ++ given := by
  induction given generalizing stored with
  | nil => exact mem_append_left _ mem
  | cons b given ih =>
    rcases mem_append.mp (ih mem) with old | new
    · rcases mem_intern.mp old with old | rfl
      · exact mem_append_left _ old
      · exact mem_append_right _ (mem_cons_self ..)
    · exact mem_append_right _ (mem_cons_of_mem _ new)

theorem nodup_foldl_intern {stored : List α} (distinct : stored.Nodup) (given : List α) :
    (given.foldl intern stored).Nodup := by
  induction given generalizing stored with
  | nil => exact distinct
  | cons a given ih => exact ih (nodup_intern distinct a)

/-- Values that are all new are stored one after the other. -/
theorem foldl_intern_of_nodup {stored : List α} (distinct : (stored ++ given).Nodup) :
    given.foldl intern stored = stored ++ given := by
  induction given generalizing stored with
  | nil => rw [foldl_nil, append_nil]
  | cons a given ih =>
    have fresh : a ∉ stored := by
      intro mem
      exact (nodup_append.mp distinct).2.2 a mem a (mem_cons_self ..) rfl
    rw [append_cons] at distinct ⊢
    rw [foldl_cons, intern, if_neg fresh, ih distinct]

/-- Positions do not change when more values are stored. -/
theorem idxOf_concat {stored : List α} (mem : a ∈ stored) (b : α) :
    (stored ++ [b]).idxOf a = stored.idxOf a :=
  idxOf_append_of_mem mem

theorem idxOf_foldl_intern {stored : List α} (mem : a ∈ stored) (given : List α) :
    (given.foldl intern stored).idxOf a = stored.idxOf a := by
  induction given generalizing stored with
  | nil => rfl
  | cons b given ih =>
    rw [foldl_cons, ih (mem_intern.mpr (.inl mem)), intern]
    split
    · rfl
    · exact idxOf_concat mem b

/-- Stored values keep their positions. -/
theorem getElem?_foldl_intern {stored : List α} {n : Nat} (found : stored[n]? = some a)
    (given : List α) : (given.foldl intern stored)[n]? = some a := by
  induction given generalizing stored with
  | nil => exact found
  | cons b given ih =>
    refine ih ?_
    rw [intern]
    split
    · exact found
    · rw [List.getElem?_append_left (List.getElem?_eq_some_iff.mp found).1, found]

/-- The first stored value stays the first. -/
theorem getElem?_zero_foldl_intern (given : List α) (a : α) (stored : List α) :
    (given.foldl intern (a :: stored))[0]? = some a :=
  getElem?_foldl_intern rfl given

theorem mem_foldl_intern_of_mem {stored : List α} (mem : a ∈ stored ++ given) :
    a ∈ given.foldl intern stored := by
  induction given generalizing stored with
  | nil => simpa using mem
  | cons b given ih =>
    refine ih ?_
    rw [mem_append, mem_intern]
    rcases mem_append.mp mem with old | new
    · exact .inl (.inl old)
    · rcases mem_cons.mp new with rfl | other
      · exact .inl (.inr rfl)
      · exact .inr other

/-- Distinct values from a list are at most as many as its distinct values. -/
theorem length_le_dedup {stored l : List α} (distinct : stored.Nodup)
    (within : ∀ a ∈ stored, a ∈ l) : stored.length ≤ l.dedup.length := by
  refine (subperm_of_subset distinct ?_).length_le
  intro a mem
  exact mem_dedup.mpr (within a mem)

end Kit
