import Mathlib.Data.Nat.Digits.Defs
import Mathlib.Tactic.Ring

/-!
# Limb arrays

A number of several machine words is an array of limbs of `w` bits, the least
significant one first.  Its value is that of its digits to the base `2 ^ w`; an
array of `n` limbs holds an integer in two's complement when its value is the
integer modulo `2 ^ (w * n)`.
-/

namespace Kit.Limbs

variable {w : Nat}

/-- The number the limbs denote. -/
def value (limbs : List (BitVec w)) : Nat := Nat.ofDigits (2 ^ w) (limbs.map BitVec.toNat)

@[simp] theorem value_nil : value ([] : List (BitVec w)) = 0 := rfl

@[simp] theorem value_cons (limb : BitVec w) (limbs : List (BitVec w)) :
    value (limb :: limbs) = limb.toNat + 2 ^ w * value limbs := rfl

theorem value_append (limbs others : List (BitVec w)) :
    value (limbs ++ others) = value limbs + 2 ^ (w * limbs.length) * value others := by
  rw [value, List.map_append, Nat.ofDigits_append, List.length_map, ← Nat.pow_mul]
  rfl

theorem pow_succ_mul (n : Nat) : 2 ^ (w * (n + 1)) = 2 ^ w * 2 ^ (w * n) := by
  rw [Nat.mul_succ, Nat.pow_add, Nat.mul_comm]

theorem value_lt (limbs : List (BitVec w)) : value limbs < 2 ^ (w * limbs.length) := by
  induction limbs with
  | nil => simp
  | cons limb limbs ih =>
    have small := limb.isLt
    have step : 2 ^ w * (value limbs + 1) ≤ 2 ^ w * 2 ^ (w * limbs.length) :=
      Nat.mul_le_mul_left _ ih
    rw [value_cons, List.length_cons, pow_succ_mul]
    rw [Nat.mul_succ] at step
    omega

@[simp] theorem value_replicate_zero (n : Nat) : value (List.replicate n (0 : BitVec w)) = 0 := by
  rw [value, List.map_replicate]
  exact Nat.ofDigits_replicate_zero

/-- Arrays of one length that denote the same number are the same. -/
theorem eq_of_value_eq {limbs others : List (BitVec w)} (lengths : limbs.length = others.length)
    (same : value limbs = value others) : limbs = others := by
  induction limbs generalizing others with
  | nil => exact (List.length_eq_zero_iff.mp lengths.symm).symm
  | cons limb limbs ih =>
    cases others with
    | nil => cases lengths
    | cons other others =>
      rw [value_cons, value_cons] at same
      have low : limb.toNat = other.toNat := by
        have digits := congrArg (· % 2 ^ w) same
        simpa [Nat.mod_eq_of_lt limb.isLt, Nat.mod_eq_of_lt other.isLt] using digits
      have high : value limbs = value others := by
        rw [low] at same
        exact Nat.eq_of_mul_eq_mul_left (Nat.two_pow_pos w) (Nat.add_left_cancel same)
      rw [BitVec.eq_of_toNat_eq low, ih (Nat.succ.inj lengths) high]

/-- All limbs are zero exactly when the number is. -/
theorem value_eq_zero_iff (limbs : List (BitVec w)) : value limbs = 0 ↔ ∀ limb ∈ limbs, limb = 0 := by
  induction limbs with
  | nil => simp
  | cons limb limbs ih =>
    have positive := Nat.two_pow_pos w
    rw [value_cons, Nat.add_eq_zero_iff, Nat.mul_eq_zero, List.forall_mem_cons, ← ih]
    constructor
    · rintro ⟨low, high | high⟩
      · omega
      · exact ⟨BitVec.eq_of_toNat_eq low, high⟩
    · rintro ⟨rfl, high⟩
      exact ⟨rfl, .inr high⟩

/-! ## Two's complement -/

/-- The `n` limbs of an integer in two's complement. -/
def ofInt : Nat → Int → List (BitVec w)
  | 0, _ => []
  | n + 1, v => BitVec.ofInt w v :: ofInt n (v / 2 ^ w)

@[simp] theorem length_ofInt (n : Nat) (v : Int) : (ofInt n v : List (BitVec w)).length = n := by
  induction n generalizing v with
  | zero => rfl
  | succ n ih => rw [ofInt, List.length_cons, ih]

theorem value_ofInt (n : Nat) (v : Int) :
    (value (ofInt n v : List (BitVec w)) : Int) = v % 2 ^ (w * n) := by
  induction n generalizing v with
  | zero => simp [ofInt]
  | succ n ih =>
    have positive : (0 : Int) < 2 ^ w := Int.pow_pos (by decide)
    have low : ((BitVec.ofInt w v).toNat : Int) = v % 2 ^ w := by
      rw [BitVec.toNat_ofInt, Int.toNat_of_nonneg (Int.emod_nonneg _ (by positivity))]
      norm_cast
    have power : (2 : Int) ^ (w * (n + 1)) = 2 ^ w * 2 ^ (w * n) := by
      exact_mod_cast pow_succ_mul n
    rw [ofInt, value_cons, power]
    push_cast
    rw [low, ih, Int.emod_def, Int.emod_def, Int.emod_def,
      Int.ediv_ediv_of_nonneg (Int.le_of_lt positive)]
    ring

/-- The limbs of an integer are told by their number and value. -/
theorem eq_ofInt {limbs : List (BitVec w)} {v : Int}
    (congruent : (value limbs : Int) = v % 2 ^ (w * limbs.length)) :
    limbs = ofInt limbs.length v := by
  apply eq_of_value_eq (length_ofInt _ _).symm
  have denoted := value_ofInt (w := w) limbs.length v
  rw [← congruent] at denoted
  exact_mod_cast denoted.symm

end Kit.Limbs
