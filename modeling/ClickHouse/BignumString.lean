import ClickHouse.Error
import ClickHouse.Kit.Limbs
import ClickHouse.Kit.Program
import Mathlib.Data.List.Induction
import Mathlib.Tactic.IntervalCases
import Mathlib.Tactic.LinearCombination

/-!
# Decimal strings of large integers

`bignum_string.h`: an integer of 128, 256 or 512 bits is an array of 32-bit
limbs, and its decimal string is read nine digits at a time, each chunk with one
multiplication of the array.
-/

namespace ClickHouse.Bignum

open Kit Limbs List

inductive StatusCode
  | ok | tooLarge | badArgument | badString
deriving DecidableEq, Repr

inductive SignMode
  | unsigned | signed
deriving DecidableEq, Repr

/-- An array of `uint32_t` limbs. -/
abbrev LimbArr := List (BitVec 32)

def uint32MaxPow10 : BitVec 32 := 1000000000

def pow10 : List (BitVec 32) :=
  [1, 10, 100, 1000, 10000, 100000, 1000000, 10000000, 100000000, 1000000000]

/-- The buffer a number of so many limbs is printed to, `0` if there are no such numbers. -/
def limbArrStrLen : Nat → Nat
  | 4 => 41
  | 8 => 79
  | 16 => 156
  | _ => 0

/-! ## Arithmetic on limbs -/

/-- The loop of `limb_arr_negate_inplace`. -/
def negateLoop : BitVec 32 → LimbArr → LimbArr
  | _, [] => []
  | carry, limb :: limbs =>
    let negated := ~~~limb + carry
    negated :: negateLoop (if negated < carry then 1 else 0) limbs

def limbArrNegateInplace (limbs : LimbArr) : LimbArr := negateLoop 1 limbs

/-- The loop of `limb_arr_muladd_inplace`. -/
def muladdLoop (mul : BitVec 32) : BitVec 64 → LimbArr → LimbArr × BitVec 64
  | carry, [] => ([], carry)
  | carry, limb :: limbs =>
    let acc := limb.setWidth 64 * mul.setWidth 64 + carry
    let rest := muladdLoop mul (acc >>> 32) limbs
    (acc.setWidth 32 :: rest.1, rest.2)

/-- The limbs of `limbs * mul + add` and what is carried out of them. -/
def limbArrMuladdInplace (limbs : LimbArr) (mul add : BitVec 32) : LimbArr × BitVec 32 :=
  let out := muladdLoop mul (add.setWidth 64) limbs
  (out.1, out.2.setWidth 32)

/-- `limbs[size - 1]` -/
def topLimb (limbs : LimbArr) : BitVec 32 := limbs.getD (limbs.length - 1) 0

/-- `limbs[limbs_len - 1] & 1UL << 31` -/
def signBit (limbs : LimbArr) : Bool := topLimb limbs &&& 1 <<< 31 != 0

def limbArrIsSignedMin (limbs : LimbArr) : Bool :=
  if limbs.length = 0 then false
  else if topLimb limbs ≠ 1 <<< 31 then false
  else (limbs.take (limbs.length - 1)).foldl (· ||| ·) 0 == 0

/-! ## Reading -/

/-- A `char` as an `int`. -/
def charToInt (c : UInt8) : Int := c.toBitVec.toInt

/-- `'0' <= c && c <= '9'` -/
def isDecimal (c : UInt8) : Bool := 0x30 ≤ charToInt c && charToInt c ≤ 0x39

/-- The number of a chunk of digits. -/
def chunkOf (digits : Bytes) : BitVec 32 :=
  digits.foldl (fun chunk c => chunk * 10 + BitVec.ofInt 32 (charToInt c - 0x30)) 0

/-- One chunk: `mul` is the power of ten of its length. -/
def readChunk (mul : BitVec 32) (digits : Bytes) : EStateM StatusCode LimbArr Unit := do
  let out := limbArrMuladdInplace (← get) mul (chunkOf digits)
  set out.1
  if out.2 ≠ 0 then throw .tooLarge

/-- The loop over the full chunks. -/
def readChunks (digits : Bytes) : EStateM StatusCode LimbArr Unit :=
  if digits = [] then pure ()
  else do
    readChunk uint32MaxPow10 (digits.take 9)
    readChunks (digits.drop 9)
termination_by digits.length
decreasing_by
  have := length_pos_iff.mpr ‹_›
  rw [length_drop]
  omega

/-- The leading short chunk, so that the others are full. -/
def readFirst (first : Nat) (digits : Bytes) : EStateM StatusCode LimbArr Unit :=
  if first ≠ 0 then readChunk (pow10.getD first 0) (digits.take first) else pure ()

def readDigits (digits : Bytes) : EStateM StatusCode LimbArr Unit := do
  let first := digits.length % 9
  readFirst first digits
  readChunks (digits.drop first)

/-- The range check behind the digits and the negation. -/
def applySign (mode : SignMode) (negative : Bool) : EStateM StatusCode LimbArr Unit := do
  let limbs ← get
  if mode == .signed && !negative && signBit limbs then throw .tooLarge
  if negative && signBit limbs && !limbArrIsSignedMin limbs then throw .tooLarge
  if negative then set (limbArrNegateInplace limbs)

/-- The part of `str_to_limb_arr` behind the sign. -/
def readMagnitude (mode : SignMode) (negative : Bool) (digits : Bytes) :
    EStateM StatusCode LimbArr Unit := do
  if digits.isEmpty then throw .badString
  if !digits.all isDecimal then throw .badString
  modify fun limbs => replicate limbs.length 0
  readDigits digits
  applySign mode negative

/-- The part of `str_to_limb_arr` behind the checks of its arguments. -/
def readStr (mode : SignMode) (str : Bytes) : EStateM StatusCode LimbArr Unit :=
  if mode == .signed && str.head? == some 0x2D then readMagnitude mode true (str.drop 1)
  else readMagnitude mode false str

/-- `none` is a null pointer.  The limbs are left as they are when the call returns. -/
def strToLimbArr (str : Option Bytes) (mode : SignMode) (limbs : Option LimbArr) :
    StatusCode × Option LimbArr :=
  match str, limbs with
  | some str, some limbs =>
    if limbArrStrLen limbs.length = 0 then (.badArgument, some limbs)
    else
      match readStr mode str limbs with
      | .ok _ limbs => (.ok, some limbs)
      | .error status limbs => (status, some limbs)
  | _, limbs => (.badArgument, limbs)

/-! ## What the arithmetic does -/

theorem muladdLoop_spec (mul : BitVec 32) (carry : BitVec 64) (limbs : LimbArr)
    (small : carry.toNat < 2 ^ 32) :
    (muladdLoop mul carry limbs).1.length = limbs.length ∧
      (muladdLoop mul carry limbs).2.toNat < 2 ^ 32 ∧
      value (muladdLoop mul carry limbs).1 +
          2 ^ (32 * limbs.length) * (muladdLoop mul carry limbs).2.toNat =
        value limbs * mul.toNat + carry.toNat := by
  induction limbs generalizing carry with
  | nil => simpa [muladdLoop] using small
  | cons limb limbs ih =>
    have product : limb.toNat * mul.toNat ≤ (2 ^ 32 - 1) * (2 ^ 32 - 1) :=
      Nat.mul_le_mul (Nat.le_pred_of_lt limb.isLt) (Nat.le_pred_of_lt mul.isLt)
    -- the accumulator of 64 bits holds the product and the carry
    have exact : (limb.setWidth 64 * mul.setWidth 64 + carry).toNat =
        limb.toNat * mul.toNat + carry.toNat := by
      simp only [BitVec.toNat_add, BitVec.toNat_mul, BitVec.toNat_setWidth]
      rw [Nat.mod_eq_of_lt (by omega : limb.toNat < 2 ^ 64),
        Nat.mod_eq_of_lt (by omega : mul.toNat < 2 ^ 64),
        Nat.mod_eq_of_lt (by omega : limb.toNat * mul.toNat < 2 ^ 64), Nat.mod_eq_of_lt (by omega)]
    generalize acc : limb.setWidth 64 * mul.setWidth 64 + carry = total at exact
    have next : (total >>> 32).toNat = total.toNat / 2 ^ 32 := by
      rw [BitVec.toNat_ushiftRight, Nat.shiftRight_eq_div_pow]
    have low : (total.setWidth 32).toNat = total.toNat % 2 ^ 32 := BitVec.toNat_setWidth ..
    obtain ⟨length, bound, sum⟩ := ih (total >>> 32) (by omega)
    rw [next] at sum
    simp only [muladdLoop, acc, length_cons, value_cons, pow_succ_mul]
    refine ⟨by rw [length], bound, ?_⟩
    rw [low, Nat.add_assoc, Nat.mul_assoc (2 ^ 32), ← Nat.mul_add, sum, Nat.add_mul]
    have division := Nat.mod_add_div total.toNat (2 ^ 32)
    rw [exact] at division ⊢
    rw [Nat.mul_add, Nat.mul_assoc (2 ^ 32)]
    omega

theorem limbArrMuladdInplace_spec (limbs : LimbArr) (mul add : BitVec 32) :
    (limbArrMuladdInplace limbs mul add).1.length = limbs.length ∧
      value (limbArrMuladdInplace limbs mul add).1 +
          2 ^ (32 * limbs.length) * (limbArrMuladdInplace limbs mul add).2.toNat =
        value limbs * mul.toNat + add.toNat := by
  have wide : (add.setWidth 64).toNat = add.toNat := by
    rw [BitVec.toNat_setWidth]
    exact Nat.mod_eq_of_lt (Nat.lt_trans add.isLt (by decide))
  obtain ⟨length, bound, sum⟩ := muladdLoop_spec mul (add.setWidth 64) limbs (wide ▸ add.isLt)
  have carried : (limbArrMuladdInplace limbs mul add).2.toNat =
      (muladdLoop mul (add.setWidth 64) limbs).2.toNat := by
    rw [limbArrMuladdInplace, BitVec.toNat_setWidth, Nat.mod_eq_of_lt bound]
  rw [carried, ← wide]
  exact ⟨length, sum⟩

theorem length_negateLoop (carry : BitVec 32) (limbs : LimbArr) :
    (negateLoop carry limbs).length = limbs.length := by
  induction limbs generalizing carry with
  | nil => rfl
  | cons limb limbs ih => rw [negateLoop, length_cons, length_cons, ih]

/-- The loop inverts all limbs and adds the carry, and another carry may come out of it. -/
theorem value_negateLoop (carry : BitVec 32) (limbs : LimbArr) (bit : carry.toNat ≤ 1) :
    ∃ out : Nat, value (negateLoop carry limbs) + 2 ^ (32 * limbs.length) * out +
      value limbs + 1 = 2 ^ (32 * limbs.length) + carry.toNat := by
  induction limbs generalizing carry with
  | nil => exact ⟨carry.toNat, by simp [negateLoop, Nat.add_comm]⟩
  | cons limb limbs ih =>
    have bound := limb.isLt
    have negated : (~~~limb + carry).toNat = (2 ^ 32 - 1 - limb.toNat + carry.toNat) % 2 ^ 32 := by
      rw [BitVec.toNat_add, BitVec.toNat_not]
    generalize next : (if ~~~limb + carry < carry then 1 else 0 : BitVec 32) = carry'
    have step : carry'.toNat ≤ 1 ∧
        (~~~limb + carry).toNat + 2 ^ 32 * carry'.toNat + limb.toNat + 1 = 2 ^ 32 + carry.toNat := by
      -- the sum wraps around only for the limb zero, and is then below the carry
      rw [← next, negated]
      split
      all_goals
        rename_i below
        rw [BitVec.lt_def, negated] at below
        simp
        omega
    obtain ⟨out, sum⟩ := ih carry' step.1
    refine ⟨out, ?_⟩
    have scaled := congrArg (2 ^ 32 * ·) sum
    simp only [Nat.mul_add] at scaled
    simp only [negateLoop, next, length_cons, value_cons, pow_succ_mul,
      Nat.mul_assoc]
    omega

/-- The limbs of a number become those of its negation. -/
theorem value_limbArrNegateInplace (limbs : LimbArr) :
    (value (limbArrNegateInplace limbs) : Int) =
      (-value limbs : Int) % 2 ^ (32 * limbs.length) := by
  obtain ⟨out, sum⟩ := value_negateLoop 1 limbs (by decide)
  have bound := value_lt (limbArrNegateInplace limbs)
  rw [limbArrNegateInplace, length_negateLoop] at bound
  rw [limbArrNegateInplace]
  have congruent : (-value limbs : Int) = value (negateLoop 1 limbs) +
      ((2 ^ (32 * limbs.length) : Nat) : Int) * (out - 1) := by
    have sum' : value (negateLoop 1 limbs) + 2 ^ (32 * limbs.length) * out +
        value limbs = 2 ^ (32 * limbs.length) := Nat.succ.inj sum
    have integers := congrArg (Nat.cast : Nat → Int) sum'
    push_cast at integers ⊢
    linear_combination -integers
  have modulus : (2 : Int) ^ (32 * limbs.length) = ((2 ^ (32 * limbs.length) : Nat) : Int) := by
    norm_cast
  rw [congruent, modulus, Int.add_mul_emod_self_left, Int.emod_eq_of_lt (Int.natCast_nonneg _)]
  exact_mod_cast bound

/-! ### The sign bit -/

theorem dropLast_append_topLimb {limbs : LimbArr} (nonempty : limbs ≠ []) :
    limbs.dropLast ++ [topLimb limbs] = limbs := by
  have last : topLimb limbs = limbs.getLast nonempty := by
    have inside : limbs.length - 1 < limbs.length := by
      have := length_pos_iff.mpr nonempty
      omega
    rw [topLimb, getLast_eq_getElem, getD_eq_getElem?_getD,
      getElem?_eq_getElem inside, Option.getD_some]
  rw [last, dropLast_concat_getLast]

theorem and_shift_ne_zero_iff (limb : BitVec 32) :
    (limb &&& 1 <<< 31 != 0) = true ↔ 2 ^ 31 ≤ limb.toNat := by
  have bound := limb.isLt
  have bit : limb &&& 1 <<< 31 = if limb.getLsbD 31 then BitVec.twoPow 32 31 else 0#32 :=
    BitVec.and_twoPow limb 31
  have read : limb.getLsbD 31 = decide (limb.toNat / 2 ^ 31 % 2 = 1) :=
    Nat.testBit_eq_decide_div_mod_eq
  rw [bit, read, bne_iff_ne]
  by_cases high : limb.toNat / 2 ^ 31 % 2 = 1
  · rw [if_pos (decide_eq_true high)]
    exact iff_of_true (by decide) (by omega)
  · rw [if_neg (by simpa using high)]
    exact iff_of_false (by decide) (by omega)

/-- The number of the lower limbs and of the top limb. -/
theorem value_eq_topLimb {limbs : LimbArr} (nonempty : limbs ≠ []) :
    ∃ power : Nat, 2 ^ (32 * limbs.length - 1) = power * 2 ^ 31 ∧
      value limbs.dropLast < power ∧
      value limbs = value limbs.dropLast + power * (topLimb limbs).toNat := by
  have positive := length_pos_iff.mpr nonempty
  have lower : limbs.dropLast.length = limbs.length - 1 := length_dropLast
  refine ⟨2 ^ (32 * limbs.dropLast.length), ?_, value_lt _, ?_⟩
  · rw [← Nat.pow_add, lower]
    congr 1
    omega
  · have whole := value_append limbs.dropLast [topLimb limbs]
    rw [dropLast_append_topLimb nonempty] at whole
    simpa using whole

/-- The sign bit tells the numbers from half of the modulus on. -/
theorem signBit_iff {limbs : LimbArr} (nonempty : limbs ≠ []) :
    signBit limbs = true ↔ 2 ^ (32 * limbs.length - 1) ≤ value limbs := by
  obtain ⟨power, half, low, value⟩ := value_eq_topLimb nonempty
  rw [signBit, and_shift_ne_zero_iff, half, value]
  constructor
  · intro high
    have := Nat.mul_le_mul_left power high
    omega
  · intro large
    by_contra small
    have := Nat.mul_le_mul_left power (Nat.lt_of_not_le small)
    rw [Nat.mul_succ] at this
    omega

theorem foldl_or_eq_zero_iff (limbs : LimbArr) (acc : BitVec 32) :
    limbs.foldl (· ||| ·) acc = 0 ↔ acc = 0 ∧ ∀ limb ∈ limbs, limb = 0 := by
  induction limbs generalizing acc with
  | nil => simp
  | cons limb limbs ih =>
    rw [foldl_cons, ih]
    simp [and_assoc]

theorem limbArrIsSignedMin_iff {limbs : LimbArr} (nonempty : limbs ≠ []) :
    limbArrIsSignedMin limbs = true ↔ value limbs = 2 ^ (32 * limbs.length - 1) := by
  obtain ⟨power, half, low, value⟩ := value_eq_topLimb nonempty
  have length : limbs.length ≠ 0 := by simpa using nonempty
  have top : topLimb limbs = 1 <<< 31 ↔ (topLimb limbs).toNat = 2 ^ 31 := by
    rw [← BitVec.toNat_inj]
    rfl
  rw [limbArrIsSignedMin, if_neg length, ← dropLast_eq_take, half, value]
  constructor
  · intro minimum
    split at minimum
    · cases minimum
    · rename_i isTop
      rw [beq_iff_eq, foldl_or_eq_zero_iff, ← value_eq_zero_iff] at minimum
      rw [minimum.2, top.mp (not_not.mp isTop), Nat.zero_add]
  · intro equal
    have isTop : (topLimb limbs).toNat = 2 ^ 31 := by
      rcases Nat.lt_trichotomy (topLimb limbs).toNat (2 ^ 31) with below | same | above
      · have := Nat.mul_le_mul_left power below
        rw [Nat.mul_succ] at this
        omega
      · exact same
      · have := Nat.mul_le_mul_left power above
        rw [Nat.mul_succ] at this
        omega
    rw [isTop] at equal
    have zero : Limbs.value limbs.dropLast = 0 := by omega
    rw [if_neg (not_not.mpr (top.mpr isTop)), beq_iff_eq, foldl_or_eq_zero_iff,
      ← value_eq_zero_iff]
    exact ⟨rfl, zero⟩

/-! ## Numerals -/

/-- The number a string of digits denotes. -/
def numeral (digits : Bytes) : Nat :=
  Nat.ofDigits 10 (digits.reverse.map fun c => c.toNat - 0x30)

/-- One or more digits. -/
def IsNumeral (digits : Bytes) : Prop :=
  digits ≠ [] ∧ ∀ c ∈ digits, 0x30 ≤ c ∧ c ≤ 0x39

/-- The string denotes the integer: only signed numbers may have a sign. -/
inductive Denotes : SignMode → Bytes → Int → Prop
  | plain {mode : SignMode} {digits : Bytes} (digitsOnly : IsNumeral digits) :
    Denotes mode digits (numeral digits)
  | negative {digits : Bytes} (digitsOnly : IsNumeral digits) :
    Denotes .signed (0x2D :: digits) (-numeral digits)

/-- The integers of `w` bits. -/
def SignMode.Fits : SignMode → Nat → Int → Prop
  | .unsigned, w, v => 0 ≤ v ∧ v ≤ 2 ^ w - 1
  | .signed, w, v => -2 ^ (w - 1) ≤ v ∧ v ≤ 2 ^ (w - 1) - 1

theorem isDecimal_iff (c : UInt8) : isDecimal c = true ↔ 0x30 ≤ c ∧ c ≤ 0x39 := by
  rw [isDecimal, charToInt, BitVec.toInt_eq_toNat_cond, Bool.and_eq_true, decide_eq_true_iff,
    decide_eq_true_iff, UInt8.le_iff_toNat_le, UInt8.le_iff_toNat_le]
  have bound := c.toNat_lt
  have read : c.toBitVec.toNat = c.toNat := rfl
  rw [read]
  have low : (0x30 : UInt8).toNat = 0x30 := rfl
  have high : (0x39 : UInt8).toNat = 0x39 := rfl
  rw [low, high]
  split <;> omega

theorem numeral_append (digits others : Bytes) :
    numeral (digits ++ others) = numeral digits * 10 ^ others.length + numeral others := by
  simp only [numeral, reverse_append, map_append, Nat.ofDigits_append, length_map,
    length_reverse]
  ring

@[simp] theorem numeral_nil : numeral [] = 0 := rfl

variable {digits : Bytes} {mode : SignMode} {negative : Bool}

theorem numeral_lt (decimal : digits.all isDecimal = true) :
    numeral digits < 10 ^ digits.length := by
  have bound : ∀ d ∈ digits.reverse.map fun c => c.toNat - 0x30, d < 10 := by
    intro d mem
    obtain ⟨c, listed, rfl⟩ := mem_map.mp mem
    have digit := (isDecimal_iff c).mp (all_eq_true.mp decimal c (mem_reverse.mp listed))
    have high : c.toNat ≤ 0x39 := UInt8.le_iff_toNat_le.mp digit.2
    omega
  have total := Nat.ofDigits_lt_base_pow_length (by decide : 1 < 10) bound
  rwa [length_map, length_reverse] at total

/-- The digit a character stands for. -/
theorem toNat_digit {c : UInt8} (decimal : isDecimal c = true) :
    (BitVec.ofInt 32 (charToInt c - 0x30)).toNat = numeral [c] := by
  have digit := (isDecimal_iff c).mp decimal
  have low : 0x30 ≤ c.toNat := UInt8.le_iff_toNat_le.mp digit.1
  have high : c.toNat ≤ 0x39 := UInt8.le_iff_toNat_le.mp digit.2
  have read : charToInt c = c.toNat := by
    rw [charToInt, BitVec.toInt_eq_toNat_cond]
    have toNat : c.toBitVec.toNat = c.toNat := rfl
    rw [if_pos (by omega), toNat]
  have single : numeral [c] = c.toNat - 0x30 := Nat.ofDigits_singleton
  rw [BitVec.toNat_ofInt, read, single]
  omega

/-- A chunk of at most nine digits is a number of 32 bits. -/
theorem toNat_chunkOf (decimal : digits.all isDecimal = true) (short : digits.length ≤ 9) :
    (chunkOf digits).toNat = numeral digits := by
  induction digits using reverseRecOn with
  | nil => rfl
  | append_singleton digits c ih =>
    rw [all_append, Bool.and_eq_true, all_cons, all_nil, Bool.and_true] at decimal
    rw [length_append, length_singleton] at short
    have before := ih decimal.1 (by omega)
    have digit := toNat_digit decimal.2
    have small : numeral (digits ++ [c]) < 2 ^ 32 := by
      have all : (digits ++ [c]).all isDecimal = true := by simp [decimal]
      refine Nat.lt_of_lt_of_le (numeral_lt all) (Nat.le_trans (Nat.pow_le_pow_right (by decide)
        (by simpa using short)) (by decide : 10 ^ 9 ≤ 2 ^ 32))
    rw [numeral_append, length_singleton, Nat.pow_one] at small ⊢
    have unfolded : chunkOf (digits ++ [c]) =
        chunkOf digits * 10 + BitVec.ofInt 32 (charToInt c - 0x30) := by
      rw [chunkOf, foldl_append]
      rfl
    have ten : (10 : BitVec 32).toNat = 10 := rfl
    rw [unfolded, BitVec.toNat_add, BitVec.toNat_mul, before, digit, ten, Nat.mod_add_mod,
      Nat.mod_eq_of_lt small]

/-! ## Programs that read digits -/

/-- The program appends the digits to the number in the limbs, unless it gets too large. -/
structure Reads (p : EStateM StatusCode LimbArr Unit) (digits : Bytes) : Prop where
  fits : ∀ limbs : LimbArr,
    value limbs * 10 ^ digits.length + numeral digits < 2 ^ (32 * limbs.length) →
      ∃ limbs', Runs p limbs () limbs' ∧ limbs'.length = limbs.length ∧
        value limbs' = value limbs * 10 ^ digits.length + numeral digits
  overflows : ∀ limbs : LimbArr,
    2 ^ (32 * limbs.length) ≤ value limbs * 10 ^ digits.length + numeral digits →
      ∃ limbs', Throws p limbs .tooLarge limbs'

theorem reads_pure : Reads (pure ()) [] where
  fits limbs _ := ⟨limbs, runs_pure _ _, rfl, by simp⟩
  overflows limbs large := by
    have bound := value_lt limbs
    simp only [length_nil, Nat.pow_zero, Nat.mul_one, numeral_nil, Nat.add_zero] at large
    omega

theorem Reads.bind {p : EStateM StatusCode LimbArr Unit}
    {q : Unit → EStateM StatusCode LimbArr Unit} {others : Bytes} (first : Reads p digits)
    (rest : Reads (q ()) others) : Reads (p >>= q) (digits ++ others) := by
  have total (n : Nat) : n * 10 ^ (digits ++ others).length + numeral (digits ++ others) =
      (n * 10 ^ digits.length + numeral digits) * 10 ^ others.length + numeral others := by
    rw [length_append, Nat.pow_add, numeral_append]
    ring
  have grows (n : Nat) : n ≤ n * 10 ^ others.length + numeral others :=
    Nat.le_trans (Nat.le_mul_of_pos_right _ (Nat.pow_pos (by decide))) (Nat.le_add_right ..)
  constructor
  · intro limbs small
    rw [total] at small ⊢
    obtain ⟨middle, run, length, value⟩ := first.fits limbs (Nat.lt_of_le_of_lt (grows _) small)
    rw [← value, ← length] at small
    obtain ⟨limbs', run', length', value'⟩ := rest.fits middle small
    exact ⟨limbs', run.bind run', length'.trans length, by rw [value', value]⟩
  · intro limbs large
    rw [total] at large
    rcases Nat.lt_or_ge (value limbs * 10 ^ digits.length + numeral digits)
      (2 ^ (32 * limbs.length)) with small | early
    · obtain ⟨middle, run, length, value⟩ := first.fits limbs small
      rw [← value, ← length] at large
      obtain ⟨limbs', throws⟩ := rest.overflows middle large
      exact ⟨limbs', run.bind_throws throws⟩
    · obtain ⟨limbs', throws⟩ := first.overflows limbs early
      exact ⟨limbs', throws.bind _⟩

theorem reads_readChunk {mul : BitVec 32} (decimal : digits.all isDecimal = true)
    (short : digits.length ≤ 9) (power : mul.toNat = 10 ^ digits.length) :
    Reads (readChunk mul digits) digits := by
  have spec (limbs : LimbArr) := limbArrMuladdInplace_spec limbs mul (chunkOf digits)
  simp only [power, toNat_chunkOf decimal short] at spec
  constructor
  · intro limbs small
    obtain ⟨length, sum⟩ := spec limbs
    have carry : (limbArrMuladdInplace limbs mul (chunkOf digits)).2.toNat = 0 := by
      by_contra carried
      have := Nat.mul_le_mul_left (2 ^ (32 * limbs.length)) (Nat.pos_of_ne_zero carried)
      omega
    refine ⟨_, (runs_get limbs).bind ((runs_set _ _).bind ?_), length, ?_⟩
    · rw [if_neg (not_not.mpr (BitVec.eq_of_toNat_eq carry))]
      exact runs_pure _ _
    · rw [carry, Nat.mul_zero, Nat.add_zero] at sum
      exact sum
  · intro limbs large
    obtain ⟨length, sum⟩ := spec limbs
    have bound := value_lt (limbArrMuladdInplace limbs mul (chunkOf digits)).1
    rw [length] at bound
    have carry : (limbArrMuladdInplace limbs mul (chunkOf digits)).2 ≠ 0 := by
      intro none
      rw [none] at sum
      simp at sum
      omega
    refine ⟨(limbArrMuladdInplace limbs mul (chunkOf digits)).1,
      (runs_get limbs).bind_throws ((runs_set _ _).bind_throws ?_)⟩
    rw [if_pos carry]
    exact throws_throw _ _

/-- The loop over full chunks. -/
theorem reads_readChunks (n : Nat) (decimal : digits.all isDecimal = true)
    (full : digits.length = 9 * n) : Reads (readChunks digits) digits := by
  induction n generalizing digits with
  | zero =>
    rw [length_eq_zero_iff.mp full, readChunks, if_pos rfl]
    exact reads_pure
  | succ n ih =>
    have nonempty : digits ≠ [] := by
      rintro rfl
      cases full
    have split := take_append_drop 9 digits
    have parts : (digits.take 9).all isDecimal = true ∧ (digits.drop 9).all isDecimal = true := by
      rw [← Bool.and_eq_true, ← all_append, split]
      exact decimal
    have length : (digits.take 9).length = 9 := by
      rw [length_take]
      omega
    have power : uint32MaxPow10.toNat = 10 ^ (digits.take 9).length := by
      rw [length]
      rfl
    have chunk := reads_readChunk parts.1 (Nat.le_of_eq length) power
    rw [readChunks, if_neg nonempty]
    have both := chunk.bind (q := fun _ => readChunks (digits.drop 9))
      (ih parts.2 (by rw [length_drop]; omega))
    rwa [split] at both

theorem toNat_pow10 {n : Nat} (small : n < 9) : (pow10.getD n 0).toNat = 10 ^ n := by
  interval_cases n <;> rfl

theorem reads_readFirst {first : Nat} (small : first < 9) (enough : first ≤ digits.length)
    (decimal : (digits.take first).all isDecimal = true) :
    Reads (readFirst first digits) (digits.take first) := by
  have length : (digits.take first).length = first := by
    rw [length_take]
    omega
  rw [readFirst]
  split
  · exact reads_readChunk decimal (by omega) (by rw [length, toNat_pow10 small])
  · rename_i full
    rw [not_not.mp full, take_zero]
    exact reads_pure

theorem reads_readDigits (decimal : digits.all isDecimal = true) :
    Reads (readDigits digits) digits := by
  have small := Nat.mod_lt digits.length (by decide : 0 < 9)
  have split := take_append_drop (digits.length % 9) digits
  have parts : (digits.take (digits.length % 9)).all isDecimal = true ∧
      (digits.drop (digits.length % 9)).all isDecimal = true := by
    rw [← Bool.and_eq_true, ← all_append, split]
    exact decimal
  have rest : Reads (readChunks (digits.drop (digits.length % 9)))
      (digits.drop (digits.length % 9)) :=
    reads_readChunks (digits.length / 9) parts.2 (by rw [length_drop]; omega)
  have both := (reads_readFirst small (Nat.mod_le _ _) parts.1).bind
    (q := fun _ => readChunks (digits.drop (digits.length % 9))) rest
  rw [split] at both
  exact both

/-! ## The whole string -/

theorem isNumeral_iff (digits : Bytes) :
    IsNumeral digits ↔ digits.isEmpty = false ∧ digits.all isDecimal = true := by
  simp only [IsNumeral, all_eq_true, isDecimal_iff, ne_eq, isEmpty_eq_false_iff]

section Fits

variable (w n : Nat)

theorem fits_unsigned : SignMode.unsigned.Fits w n ↔ n < 2 ^ w := by
  have power : ((2 ^ w : Nat) : Int) = 2 ^ w := by norm_cast
  rw [SignMode.Fits, ← power]
  omega

theorem fits_signed : SignMode.signed.Fits w n ↔ n < 2 ^ (w - 1) := by
  have power : ((2 ^ (w - 1) : Nat) : Int) = 2 ^ (w - 1) := by norm_cast
  rw [SignMode.Fits, ← power]
  omega

theorem fits_negative : SignMode.signed.Fits w (-n) ↔ n ≤ 2 ^ (w - 1) := by
  have power : ((2 ^ (w - 1) : Nat) : Int) = 2 ^ (w - 1) := by norm_cast
  have positive : 0 < 2 ^ (w - 1) := Nat.two_pow_pos _
  rw [SignMode.Fits, ← power]
  omega

end Fits

/-- What `str_to_limb_arr` is for: the limbs hold `v`, or `v` is refused as too large. -/
structure Stores (mode : SignMode) (p : EStateM StatusCode LimbArr Unit) (limbs : LimbArr)
    (v : Int) : Prop where
  fits : mode.Fits (32 * limbs.length) v → Runs p limbs () (ofInt limbs.length v)
  overflows : ¬mode.Fits (32 * limbs.length) v → ∃ limbs', Throws p limbs .tooLarge limbs'

theorem ofInt_value (limbs : LimbArr) : ofInt limbs.length (value limbs) = limbs := by
  have bound : (value limbs : Int) < 2 ^ (32 * limbs.length) := by
    exact_mod_cast value_lt limbs
  exact (eq_ofInt (Int.emod_eq_of_lt (Int.natCast_nonneg _) bound).symm).symm

theorem limbArrNegateInplace_eq (limbs : LimbArr) :
    limbArrNegateInplace limbs = ofInt limbs.length (-value limbs : Int) := by
  have length : (limbArrNegateInplace limbs).length = limbs.length := length_negateLoop _ _
  have congruent := value_limbArrNegateInplace limbs
  rw [← length] at congruent
  rw [← length]
  exact eq_ofInt congruent

/-- The numbers that `applySign` refuses. -/
def outOfRange (mode : SignMode) (negative : Bool) (limbs : LimbArr) : Bool :=
  mode == .signed && !negative && signBit limbs ||
    negative && signBit limbs && !limbArrIsSignedMin limbs

theorem applySign_eq (mode : SignMode) (negative : Bool) (limbs : LimbArr) :
    applySign mode negative limbs =
      if outOfRange mode negative limbs then .error .tooLarge limbs
      else .ok () (if negative then limbArrNegateInplace limbs else limbs) := by
  show (do
    if mode == .signed && !negative && signBit limbs then throw .tooLarge
    if negative && signBit limbs && !limbArrIsSignedMin limbs then throw .tooLarge
    if negative then set (limbArrNegateInplace limbs) : EStateM StatusCode LimbArr Unit) limbs = _
  unfold outOfRange
  generalize signBit limbs = sign
  generalize limbArrIsSignedMin limbs = least
  cases mode <;> cases negative <;> cases sign <;> cases least <;> rfl

/-- Whether the number may get its sign. -/
theorem stores_applySign {limbs : LimbArr} {v : Int}
    (range : outOfRange mode negative limbs = true ↔ ¬mode.Fits (32 * limbs.length) v)
    (held : (if negative then limbArrNegateInplace limbs else limbs) = ofInt limbs.length v) :
    Stores mode (applySign mode negative) limbs v where
  fits fits := by
    have inside : outOfRange mode negative limbs = false := by
      rw [← Bool.not_eq_true, range]
      exact not_not.mpr fits
    unfold Runs
    rw [applySign_eq, inside, held]
    rfl
  overflows large := by
    refine ⟨limbs, ?_⟩
    unfold Throws
    rw [applySign_eq, if_pos (range.mpr large)]

section Sign

variable {limbs : LimbArr} (nonempty : limbs ≠ [])

include nonempty

theorem stores_negative :
    Stores .signed (applySign .signed true) limbs (-value limbs : Int) := by
  refine stores_applySign ?_ (limbArrNegateInplace_eq limbs)
  rw [fits_negative, Nat.not_le, Nat.lt_iff_le_and_ne, ← signBit_iff nonempty, ne_comm, ne_eq,
    ← limbArrIsSignedMin_iff nonempty]
  simp [outOfRange]

theorem stores_plain (mode : SignMode) : Stores mode (applySign mode false) limbs (value limbs) := by
  refine stores_applySign ?_ (ofInt_value limbs).symm
  cases mode with
  | unsigned =>
    rw [fits_unsigned]
    simp [outOfRange, value_lt limbs]
  | signed =>
    rw [fits_signed, Nat.not_lt, ← signBit_iff nonempty]
    simp [outOfRange]

end Sign

/-- The integer of a magnitude and a sign. -/
def signedBy (negative : Bool) (magnitude : Nat) : Int :=
  if negative then -magnitude else magnitude

/-- A number that fits has a magnitude of fewer than `w` bits. -/
theorem magnitude_lt {w n : Nat} (positive : 0 < w)
    (onlySigned : negative = true → mode = .signed) (fits : mode.Fits w (signedBy negative n)) :
    n < 2 ^ w := by
  have half : 2 ^ w = 2 ^ (w - 1) * 2 := by
    rw [← Nat.pow_succ]
    congr 1
    omega
  have one := Nat.two_pow_pos (w - 1)
  cases negative with
  | true =>
    cases onlySigned rfl
    have := (fits_negative w n).mp fits
    omega
  | false =>
    cases mode with
    | unsigned => exact (fits_unsigned w n).mp fits
    | signed =>
      have := (fits_signed w n).mp fits
      omega

theorem stores_signedBy {limbs : LimbArr} (nonempty : limbs ≠ [])
    (onlySigned : negative = true → mode = .signed) :
    Stores mode (applySign mode negative) limbs (signedBy negative (value limbs)) := by
  cases negative with
  | true =>
    cases onlySigned rfl
    exact stores_negative nonempty
  | false => exact stores_plain nonempty mode

/-- A numeral and its sign. -/
theorem stores_readMagnitude {limbs : LimbArr} (nonempty : limbs ≠ [])
    (wellFormed : IsNumeral digits) (onlySigned : negative = true → mode = .signed) :
    Stores mode (readMagnitude mode negative digits) limbs (signedBy negative (numeral digits)) := by
  rw [isNumeral_iff] at wellFormed
  have start : readMagnitude mode negative digits limbs =
      (readDigits digits >>= fun _ => applySign mode negative) (replicate limbs.length 0) := by
    rw [readMagnitude, wellFormed.1, wellFormed.2]
    rfl
  have positive : 0 < 32 * limbs.length := by
    have := length_pos_iff.mpr nonempty
    omega
  have reads := reads_readDigits wellFormed.2
  have read := reads.fits (replicate limbs.length 0)
  have overflow := reads.overflows (replicate limbs.length 0)
  simp only [length_replicate, value_replicate_zero, Nat.zero_mul, Nat.zero_add]
    at read overflow
  have signs {middle : LimbArr} (length : middle.length = limbs.length)
      (value : value middle = numeral digits) :
      Stores mode (applySign mode negative) middle (signedBy negative (numeral digits)) := by
    rw [← value]
    refine stores_signedBy ?_ onlySigned
    rintro rfl
    exact nonempty (length_eq_zero_iff.mp length.symm)
  constructor
  · intro fits
    obtain ⟨middle, run, length, value⟩ := read (magnitude_lt positive onlySigned fits)
    have signed := (signs length value).fits (length ▸ fits)
    rw [length] at signed
    exact start.trans (run.bind signed)
  · intro large
    rcases Nat.lt_or_ge (numeral digits) (2 ^ (32 * limbs.length)) with small | early
    · obtain ⟨middle, run, length, value⟩ := read small
      obtain ⟨limbs', refused⟩ := (signs length value).overflows (length ▸ large)
      exact ⟨limbs', start.trans (run.bind_throws refused)⟩
    · obtain ⟨limbs', refused⟩ := overflow early
      exact ⟨limbs', start.trans (refused.bind _)⟩

theorem throws_readMagnitude (limbs : LimbArr) (malformed : ¬IsNumeral digits) :
    Throws (readMagnitude mode negative digits) limbs .badString limbs := by
  rw [isNumeral_iff, not_and_or, Bool.not_eq_false, Bool.not_eq_true] at malformed
  unfold Throws readMagnitude
  cases empty : digits.isEmpty with
  | true => rfl
  | false =>
    rcases malformed with none | other
    · cases empty.symm.trans none
    · rw [other]
      rfl

/-! ### What a string denotes -/

theorem not_isNumeral_sign (digits : Bytes) : ¬IsNumeral (0x2D :: digits) := fun wellFormed =>
  absurd (wellFormed.2 0x2D (mem_cons_self ..)).1 (by decide)

/-- A string denotes at most one integer. -/
theorem Denotes.unique {str : Bytes} {v v' : Int} (denotes : Denotes mode str v)
    (denotes' : Denotes mode str v') : v = v' := by
  cases denotes with
  | plain digitsOnly =>
    cases denotes' with
    | plain => rfl
    | negative => exact absurd digitsOnly (not_isNumeral_sign _)
  | negative =>
    cases denotes' with
    | plain digitsOnly => exact absurd digitsOnly (not_isNumeral_sign _)
    | negative => rfl

/-- A string is read as the integer it denotes, or refused if it denotes none. -/
theorem readStr_cases (mode : SignMode) (str : Bytes) {limbs : LimbArr} (nonempty : limbs ≠ []) :
    (∃ v, Denotes mode str v ∧ Stores mode (readStr mode str) limbs v) ∨
      (¬∃ v, Denotes mode str v) ∧ Throws (readStr mode str) limbs .badString limbs := by
  by_cases sign : mode = .signed ∧ str.head? = some 0x2D
  · obtain ⟨rfl, head⟩ := sign
    obtain ⟨digits, rfl⟩ : ∃ digits, str = 0x2D :: digits := head?_eq_some_iff.mp head
    have read : readStr .signed (0x2D :: digits) = readMagnitude .signed true digits := rfl
    rw [read]
    by_cases wellFormed : IsNumeral digits
    · exact .inl ⟨_, .negative wellFormed, stores_readMagnitude nonempty wellFormed fun _ => rfl⟩
    · refine .inr ⟨?_, throws_readMagnitude limbs wellFormed⟩
      rintro ⟨v, denotes⟩
      cases denotes with
      | plain digitsOnly => exact not_isNumeral_sign _ digitsOnly
      | negative digitsOnly => exact wellFormed digitsOnly
  · have read : readStr mode str = readMagnitude mode false str := by
      rw [readStr, if_neg]
      simpa using sign
    rw [read]
    by_cases wellFormed : IsNumeral str
    · exact .inl ⟨_, .plain wellFormed, stores_readMagnitude nonempty wellFormed
        fun negative => by cases negative⟩
    · refine .inr ⟨?_, throws_readMagnitude limbs wellFormed⟩
      rintro ⟨v, denotes⟩
      cases denotes with
      | plain digitsOnly => exact wellFormed digitsOnly
      | negative => exact sign ⟨rfl, rfl⟩

section Supported

variable {limbs : LimbArr} (supported : limbs.length = 4 ∨ limbs.length = 8 ∨ limbs.length = 16)

include supported

theorem ne_nil_of_supported : limbs ≠ [] := by
  rintro rfl
  simp at supported

/-- The three ways a call ends. -/
theorem strToLimbArr_cases (str : Bytes) (mode : SignMode) :
    (∃ v, Denotes mode str v ∧ mode.Fits (32 * limbs.length) v ∧
      strToLimbArr (some str) mode (some limbs) = (.ok, some (ofInt limbs.length v))) ∨
    (∃ v limbs', Denotes mode str v ∧ ¬mode.Fits (32 * limbs.length) v ∧
      strToLimbArr (some str) mode (some limbs) = (.tooLarge, some limbs')) ∨
    (¬∃ v, Denotes mode str v) ∧
      strToLimbArr (some str) mode (some limbs) = (.badString, some limbs) := by
  have known : limbArrStrLen limbs.length ≠ 0 := by
    rcases supported with length | length | length <;> rw [length] <;> decide
  rw [strToLimbArr, if_neg known]
  rcases readStr_cases mode str (ne_nil_of_supported supported) with ⟨v, denotes, stores⟩ | ⟨malformed, refused⟩
  · by_cases fits : mode.Fits (32 * limbs.length) v
    · have run := stores.fits fits
      unfold Runs at run
      rw [run]
      exact .inl ⟨v, denotes, fits, rfl⟩
    · obtain ⟨limbs', refused⟩ := stores.overflows fits
      unfold Throws at refused
      rw [refused]
      exact .inr (.inl ⟨v, limbs', denotes, fits, rfl⟩)
  · unfold Throws at refused
    rw [refused]
    exact .inr (.inr ⟨malformed, rfl⟩)

end Supported

/-- Strings of 128-, 256- and 512-bit integers are read exactly: the status tells whether the string
denotes an integer and whether it fits, and the limbs are those of the integer in two's
complement. -/
theorem strToLimbArr_exact (str : Bytes) (mode : SignMode) (limbs : LimbArr)
    (supported : limbs.length = 4 ∨ limbs.length = 8 ∨ limbs.length = 16) :
    ((strToLimbArr (some str) mode (some limbs)).1 = .ok ↔
        ∃ v, Denotes mode str v ∧ mode.Fits (32 * limbs.length) v) ∧
      (∀ v, Denotes mode str v → mode.Fits (32 * limbs.length) v →
        (strToLimbArr (some str) mode (some limbs)).2 = some (ofInt limbs.length v)) ∧
      ((strToLimbArr (some str) mode (some limbs)).1 = .tooLarge ↔
        ∃ v, Denotes mode str v ∧ ¬mode.Fits (32 * limbs.length) v) ∧
      ((strToLimbArr (some str) mode (some limbs)).1 = .badString ↔ ¬∃ v, Denotes mode str v) := by
  have same {v : Int} (denotes : Denotes mode str v) (p : Int → Prop) :
      (∃ v', Denotes mode str v' ∧ p v') ↔ p v := by
    constructor
    · rintro ⟨v', denotes', holds⟩
      rwa [denotes'.unique denotes] at holds
    · exact fun holds => ⟨v, denotes, holds⟩
  rcases strToLimbArr_cases supported str mode with
    ⟨v, denotes, fits, result⟩ | ⟨v, limbs', denotes, large, result⟩ | ⟨malformed, result⟩
  · have some : ∃ v', Denotes mode str v' := ⟨v, denotes⟩
    rw [same denotes, same denotes, result]
    refine ⟨by simp [fits], ?_, by simp [fits], by simp [some]⟩
    intro v' denotes' _
    rw [denotes'.unique denotes]
  · have some : ∃ v', Denotes mode str v' := ⟨v, denotes⟩
    rw [same denotes, same denotes, result]
    refine ⟨by simp [large], ?_, by simp [large], by simp [some]⟩
    intro v' denotes' fits'
    rw [denotes'.unique denotes] at fits'
    exact absurd fits' large
  · have never (p : Int → Prop) : ¬∃ v, Denotes mode str v ∧ p v := by
      rintro ⟨v, denotes, _⟩
      exact malformed ⟨v, denotes⟩
    rw [result]
    refine ⟨by simp [never], ?_, by simp [never], by simp [malformed]⟩
    intro v denotes _
    exact absurd ⟨v, denotes⟩ malformed

/-- The least number of 128 bits. -/
theorem strToLimbArr_exact_least :
    (strToLimbArr (some (0x2D :: ascii "170141183460469231731687303715884105728")) .signed
      (some [0, 0, 0, 0])).2 = some [0, 0, 0, 0x80000000] := by
  have digits : IsNumeral (ascii "170141183460469231731687303715884105728") := by
    rw [isNumeral_iff]
    decide
  have least : numeral (ascii "170141183460469231731687303715884105728") = 2 ^ 127 := by decide +kernel
  have fits : SignMode.signed.Fits 128
      (-numeral (ascii "170141183460469231731687303715884105728") : Int) := by
    rw [fits_negative, least]
  have held := (strToLimbArr_exact _ .signed [0, 0, 0, 0] (.inl rfl)).2.1 _ (.negative digits) fits
  rw [held, least]
  rfl

end ClickHouse.Bignum
