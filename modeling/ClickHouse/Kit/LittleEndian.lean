import ClickHouse.Kit.Source
import Mathlib.Algebra.Group.Int.Defs
import Mathlib.Algebra.Group.Nat.Defs

/-!
# Little-endian numerals of a fixed width

A `Word w` is the memory of one value of `w` bytes.  A vector of such values is
a list of words; its memory is their concatenation.
-/

namespace Kit

open List
/-- The `w` low bytes of `n`, least significant first. -/
def encodeLE : Nat → Nat → Bytes
  | 0, _ => []
  | w + 1, n => UInt8.ofNat n :: encodeLE w (n / 256)

/-- The number a byte string denotes, least significant byte first. -/
def decodeLE : Bytes → Nat
  | [] => 0
  | b :: bs => b.toNat + 256 * decodeLE bs

@[simp] theorem length_encodeLE (w n : Nat) : (encodeLE w n).length = w := by
  induction w generalizing n with
  | zero => rfl
  | succ w ih => rw [encodeLE, length_cons, ih]

theorem decodeLE_lt (bs : Bytes) : decodeLE bs < 256 ^ bs.length := by
  induction bs with
  | nil => decide
  | cons b bs ih =>
    have byte : b.toNat < 256 := b.toNat_lt
    rw [decodeLE, length_cons, Nat.pow_succ]
    omega

/-- Only the low bytes of a number are kept. -/
theorem decodeLE_encodeLE_mod (w n : Nat) : decodeLE (encodeLE w n) = n % 256 ^ w := by
  induction w generalizing n with
  | zero =>
    rw [Nat.pow_zero, Nat.mod_one]
    rfl
  | succ w ih =>
    have power : 256 ^ (w + 1) = 256 * 256 ^ w := by rw [Nat.pow_succ, Nat.mul_comm]
    rw [encodeLE, decodeLE, ih, UInt8.toNat_ofNat', power, Nat.mod_mul]

variable {n w : Nat}

theorem decodeLE_encodeLE (fits : n < 256 ^ w) : decodeLE (encodeLE w n) = n := by
  rw [decodeLE_encodeLE_mod, Nat.mod_eq_of_lt fits]

theorem decodeLE_encodeLE_le (w n : Nat) : decodeLE (encodeLE w n) ≤ n := by
  rw [decodeLE_encodeLE_mod]
  exact Nat.mod_le _ _

theorem encodeLE_decodeLE (bs : Bytes) : encodeLE bs.length (decodeLE bs) = bs := by
  induction bs with
  | nil => rfl
  | cons b bs ih =>
    have byte : b.toNat < 256 := b.toNat_lt
    rw [decodeLE, length_cons, encodeLE]
    have quotient : (b.toNat + 256 * decodeLE bs) / 256 = decodeLE bs := by omega
    have digit : UInt8.ofNat (b.toNat + 256 * decodeLE bs) = b := by
      apply UInt8.toNat_inj.mp
      rw [UInt8.toNat_ofNat']
      omega
    rw [quotient, digit, ih]

/-! ## Words and vectors of words -/

/-- The memory of a value of `w` bytes. -/
abbrev Word (w : Nat) := { bs : Bytes // bs.length = w }

def Word.toNat {w : Nat} (word : Word w) : Nat := decodeLE word.1

/-- The conversion of an unsigned number to `w` bytes, which drops the higher ones. -/
def Word.ofNat (w n : Nat) : Word w := ⟨encodeLE w n, length_encodeLE w n⟩

theorem Word.toNat_lt (word : Word w) : word.toNat < 256 ^ w := by
  have bound := decodeLE_lt word.1
  rwa [word.2] at bound

theorem Word.toNat_ofNat_mod (w n : Nat) : (Word.ofNat w n).toNat = n % 256 ^ w :=
  decodeLE_encodeLE_mod w n

theorem Word.toNat_ofNat (fits : n < 256 ^ w) : (Word.ofNat w n).toNat = n :=
  decodeLE_encodeLE fits

/-- Dropping the higher bytes does not make a number larger. -/
theorem Word.toNat_ofNat_le (w n : Nat) : (Word.ofNat w n).toNat ≤ n :=
  decodeLE_encodeLE_le w n

/-- The conversion of a signed number to `w` bytes. -/
def Word.ofInt (w : Nat) (n : Int) : Word w := Word.ofNat w (n % (256 ^ w : Nat)).toNat

/-- The signed number that the bytes denote in two's complement. -/
def Word.toInt {w : Nat} (word : Word w) : Int := Int.bmod word.toNat (256 ^ w)

theorem Word.toInt_ofInt {n : Int} (low : -((256 ^ w : Nat) / 2 : Int) ≤ n)
    (high : n < (256 ^ w : Nat) / 2) : (Word.ofInt w n).toInt = n := by
  have positive : (0 : Int) < (256 ^ w : Nat) := Int.natCast_pos.mpr (Nat.pow_pos (by decide))
  have bits := Int.emod_nonneg n (Int.ne_of_gt positive)
  have small := Int.emod_lt_of_pos n positive
  have stored : ((Word.ofInt w n).toNat : Int) = n % (256 ^ w : Nat) := by
    rw [Word.ofInt, Word.toNat_ofNat (by omega), Int.toNat_of_nonneg bits]
  rw [Word.toInt, stored, Int.emod_bmod]
  exact Int.bmod_eq_of_le low (by omega)

/-- Only the low bytes of a number count. -/
theorem Word.ofInt_emod {n k : Int} (divides : ((256 ^ w : Nat) : Int) ∣ k) :
    Word.ofInt w (n % k) = Word.ofInt w n := by
  rw [Word.ofInt, Word.ofInt, Int.emod_emod_of_dvd n divides]

/-- The memory of a vector. -/
def memory {w : Nat} (words : List (Word w)) : Bytes :=
  (words.map Subtype.val).flatten

/-- The first word of a memory, zeros standing for what it lacks. -/
def Word.ofBytes (w : Nat) (bs : Bytes) : Word w :=
  ⟨(bs ++ replicate w 0).take w, by simp⟩

/-- The first `n` words of a memory. -/
def toWords (w : Nat) : Nat → Bytes → List (Word w)
  | 0, _ => []
  | n + 1, bs => Word.ofBytes w bs :: toWords w n (bs.drop w)

@[simp] theorem length_toWords (w n : Nat) (bs : Bytes) : (toWords w n bs).length = n := by
  induction n generalizing bs with
  | zero => rfl
  | succ n ih => rw [toWords, length_cons, ih]

@[simp] theorem memory_cons {w : Nat} (word : Word w) (words : List (Word w)) :
    memory (word :: words) = word.1 ++ memory words := rfl

@[simp] theorem length_memory {w : Nat} (words : List (Word w)) :
    (memory words).length = words.length * w := by
  induction words with
  | nil => rw [length_nil, Nat.zero_mul]; rfl
  | cons word words ih =>
    rw [memory_cons, length_append, ih, word.2, length_cons, Nat.add_one_mul, Nat.add_comm]

theorem Word.ofBytes_append (word : Word w) (rest : Bytes) :
    Word.ofBytes w (word.1 ++ rest) = word := by
  apply Subtype.ext
  show ((word.1 ++ rest) ++ replicate w 0).take w = word.1
  rw [append_assoc, take_append_of_le_length (Nat.le_of_eq word.2.symm),
    take_of_length_le (Nat.le_of_eq word.2)]

/-- A vector is read back from a memory that starts with its own. -/
theorem toWords_memory_append (words : List (Word w)) (rest : Bytes) :
    toWords w words.length (memory words ++ rest) = words := by
  induction words with
  | nil => rfl
  | cons word words ih =>
    rw [memory_cons, append_assoc, length_cons, toWords, Word.ofBytes_append,
      drop_append_of_le_length (Nat.le_of_eq word.2.symm),
      drop_of_length_le (Nat.le_of_eq word.2), nil_append, ih]

theorem eq_of_memory_eq {words others : List (Word w)} (lengths : words.length = others.length)
    (same : memory words = memory others) : words = others := by
  rw [← toWords_memory_append words [], same, lengths, toWords_memory_append]

/-- The words of a memory that has room for exactly them. -/
theorem memory_toWords {bs : Bytes} (length : bs.length = n * w) :
    memory (toWords w n bs) = bs := by
  induction n generalizing bs with
  | zero =>
    rw [Nat.zero_mul] at length
    rw [eq_nil_of_length_eq_zero length]
    rfl
  | succ n ih =>
    rw [Nat.succ_mul] at length
    have rest : (bs.drop w).length = n * w := by
      rw [length_drop]
      omega
    have first : (Word.ofBytes w bs).1 = bs.take w :=
      take_append_of_le_length (by omega)
    rw [toWords, memory_cons, ih rest, first, take_append_drop]

end Kit
