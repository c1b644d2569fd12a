import Mathlib.Data.List.Sort

/-!
# Ordered maps

A map as the list of its entries in increasing key order.  The order is part of
the type, so a map is determined by its entries and iterating over it visits
the keys in increasing order.
-/

namespace Kit

open List
structure OrdMap (κ α : Type) [LinearOrder κ] where
  entries : List (κ × α)
  sorted : entries.Pairwise fun a b => a.1 < b.1

namespace OrdMap

variable {κ α : Type} [LinearOrder κ]

def empty : OrdMap κ α := ⟨[], .nil⟩

def find? (m : OrdMap κ α) (k : κ) : Option α :=
  (m.entries.find? fun e => e.1 = k).map Prod.snd

/-- Put `(k, a)` at its place among increasing entries, replacing an entry with key `k`. -/
def setEntry (k : κ) (a : α) : List (κ × α) → List (κ × α)
  | [] => [(k, a)]
  | e :: l =>
    if k < e.1 then (k, a) :: e :: l
    else if k = e.1 then (k, a) :: l
    else e :: setEntry k a l

variable {a : α} {e : κ × α} {k : κ} {m : OrdMap κ α}

theorem mem_setEntry {l : List (κ × α)} (sorted : l.Pairwise fun a b => a.1 < b.1) :
    e ∈ setEntry k a l ↔ e = (k, a) ∨ e ∈ l ∧ e.1 ≠ k := by
  induction l with
  | nil => simp [setEntry]
  | cons head l ih =>
    rw [pairwise_cons] at sorted
    obtain ⟨first, sorted⟩ := sorted
    rw [setEntry]
    split
    · rename_i below
      have fresh : ∀ x ∈ head :: l, x.1 ≠ k := by
        intro x mem
        rcases mem_cons.mp mem with rfl | mem
        · exact below.ne'
        · exact (below.trans (first x mem)).ne'
      constructor
      · intro mem
        rcases mem_cons.mp mem with same | mem
        · exact .inl same
        · exact .inr ⟨mem, fresh e mem⟩
      · rintro (same | ⟨mem, _⟩)
        · exact mem_cons.mpr (.inl same)
        · exact mem_cons_of_mem _ mem
    · split
      · rename_i same
        subst same
        constructor
        · intro mem
          rcases mem_cons.mp mem with same | mem
          · exact .inl same
          · exact .inr ⟨mem_cons_of_mem _ mem, (first e mem).ne'⟩
        · rintro (same | ⟨mem, other⟩)
          · exact mem_cons.mpr (.inl same)
          · rcases mem_cons.mp mem with rfl | mem
            · exact absurd rfl other
            · exact mem_cons_of_mem _ mem
      · rename_i other
        rw [mem_cons, ih sorted, mem_cons]
        constructor
        · rintro (rfl | same | ⟨mem, ne⟩)
          · exact .inr ⟨.inl rfl, Ne.symm other⟩
          · exact .inl same
          · exact .inr ⟨.inr mem, ne⟩
        · rintro (same | ⟨same | mem, ne⟩)
          · exact .inr (.inl same)
          · exact .inl same
          · exact .inr (.inr ⟨mem, ne⟩)

theorem sorted_setEntry {l : List (κ × α)} (sorted : l.Pairwise fun a b => a.1 < b.1) :
    (setEntry k a l).Pairwise fun a b => a.1 < b.1 := by
  induction l with
  | nil => exact pairwise_singleton _ _
  | cons head l ih =>
    have whole := sorted
    rw [pairwise_cons] at sorted
    obtain ⟨first, sorted⟩ := sorted
    rw [setEntry]
    split
    · rename_i below
      refine pairwise_cons.mpr ⟨?_, whole⟩
      intro x mem
      rcases mem_cons.mp mem with rfl | mem
      · exact below
      · exact below.trans (first x mem)
    · split
      · rename_i same
        subst same
        exact pairwise_cons.mpr ⟨first, sorted⟩
      · rename_i notBelow other
        refine pairwise_cons.mpr ⟨?_, ih sorted⟩
        intro x mem
        rcases (mem_setEntry sorted).mp mem with rfl | ⟨mem, _⟩
        · exact lt_of_le_of_ne (not_lt.mp notBelow) (Ne.symm other)
        · exact first x mem

/-- `m[k] = a` -/
def assign (m : OrdMap κ α) (k : κ) (a : α) : OrdMap κ α :=
  ⟨setEntry k a m.entries, sorted_setEntry m.sorted⟩

/-- `m.insert({k, a})`: an entry already there stays. -/
def insert (m : OrdMap κ α) (k : κ) (a : α) : OrdMap κ α :=
  if (m.find? k).isSome then m else m.assign k a

theorem find?_eq_some : m.find? k = some a ↔ (k, a) ∈ m.entries := by
  obtain ⟨l, sorted⟩ := m
  simp only [find?]
  induction l with
  | nil => simp
  | cons head l ih =>
    rw [pairwise_cons] at sorted
    obtain ⟨first, sorted⟩ := sorted
    rw [find?_cons, mem_cons]
    by_cases same : head.1 = k
    · subst same
      have absent : (head.1, a) ∉ l := fun mem => lt_irrefl head.1 (first (head.1, a) mem)
      simp [absent, Prod.ext_iff, eq_comm]
    · have other : (k, a) ≠ head := fun eq => same (eq ▸ rfl)
      simp [same, other, ih sorted]

theorem find?_eq_none : m.find? k = none ↔ ∀ a, (k, a) ∉ m.entries := by
  constructor
  · intro none a mem
    rw [find?_eq_some.mpr mem] at none
    cases none
  · intro absent
    cases found : m.find? k with
    | none => rfl
    | some a => exact absurd (find?_eq_some.mp found) (absent a)

theorem mem_assign : e ∈ (m.assign k a).entries ↔ e = (k, a) ∨ e ∈ m.entries ∧ e.1 ≠ k :=
  mem_setEntry m.sorted

/-- `m.erase(k)` -/
def erase (m : OrdMap κ α) (k : κ) : OrdMap κ α :=
  ⟨m.entries.filter fun e => e.1 ≠ k, m.sorted.filter _⟩

theorem find?_assign (other : κ) :
    (m.assign k a).find? other = if other = k then some a else m.find? other := by
  split
  · rename_i same
    rw [find?_eq_some, mem_assign, same]
    exact .inl rfl
  · rename_i ne
    refine Option.ext fun b => ?_
    rw [find?_eq_some, find?_eq_some, mem_assign]
    constructor
    · rintro (same | ⟨mem, _⟩)
      · exact absurd (Prod.ext_iff.mp same).1 ne
      · exact mem
    · exact fun mem => .inr ⟨mem, ne⟩

theorem find?_insert (other : κ) :
    (m.insert k a).find? other = (m.find? other).or (if other = k then some a else none) := by
  unfold insert
  split
  · rename_i there
    by_cases same : other = k
    · obtain ⟨b, found⟩ := Option.isSome_iff_exists.mp there
      rw [same, found, Option.some_or]
    · rw [if_neg same, Option.or_none]
  · rename_i absent
    rw [find?_assign]
    by_cases same : other = k
    · rw [same, Option.not_isSome_iff_eq_none.mp absent, Option.none_or]
    · rw [if_neg same, if_neg same, Option.or_none]

theorem find?_erase (other : κ) :
    (m.erase k).find? other = if other = k then none else m.find? other := by
  split
  · rename_i same
    rw [find?_eq_none]
    intro a mem
    exact absurd same (of_decide_eq_true (mem_filter.mp mem).2)
  · rename_i ne
    refine Option.ext fun b => ?_
    rw [find?_eq_some, find?_eq_some, erase, mem_filter]
    exact ⟨And.left, fun mem => ⟨mem, decide_eq_true ne⟩⟩

/-- Inserting a new key only adds its entry. -/
theorem mem_insert_of_absent (absent : ∀ b, (k, b) ∉ m.entries) :
    e ∈ (m.insert k a).entries ↔ e = (k, a) ∨ e ∈ m.entries := by
  rw [insert, find?_eq_none.mpr absent]
  simp only [Option.isSome_none, Bool.false_eq_true, if_false, mem_assign]
  constructor
  · rintro (same | ⟨mem, _⟩)
    · exact .inl same
    · exact .inr mem
  · rintro (same | mem)
    · exact .inl same
    · refine .inr ⟨mem, ?_⟩
      rintro rfl
      exact absent _ mem

theorem nodup_entries (m : OrdMap κ α) : m.entries.Nodup :=
  m.sorted.imp fun below eq => absurd (eq ▸ below) (lt_irrefl _)

/-- A map is determined by its entries. -/
theorem ext_mem {n : OrdMap κ α} (same : ∀ e, e ∈ m.entries ↔ e ∈ n.entries) : m = n := by
  have perm := (perm_ext_iff_of_nodup m.nodup_entries n.nodup_entries).mpr same
  obtain ⟨l, sorted⟩ := m
  obtain ⟨l', sorted'⟩ := n
  have eq : l = l' :=
    perm.eq_of_pairwise (fun a b _ _ below above => absurd (below.trans above) (lt_irrefl _))
      sorted sorted'
  subst eq
  rfl

end OrdMap

end Kit
