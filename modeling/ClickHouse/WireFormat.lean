import ClickHouse.Input
import ClickHouse.Kit.LittleEndian
import Mathlib.Tactic.Ring

/-!
# Wire format

`wire_format.h` and `wire_format.cpp`: varints, strings and fixed-width values.
A reader that returns false is `none`; a writer is the list of the buffers it
passes to `WriteAll`, in order.
-/

namespace ClickHouse

open Kit List

section Readers

variable {σ : Type} [Source Error σ]

/-- `WireFormat::ReadAll`: the bytes copied into the buffer, which are all `len` of them exactly
when the call returns true.  Every round copies at least one byte or is the last. -/
def readAllLoop : Nat → Nat → EStateM Error σ Bytes
  | 0, _ => pure []
  | fuel + 1, len =>
    if len = 0 then pure []
    else do
      let piece ← Source.read len
      if piece.isEmpty then pure []
      else do
        let rest ← readAllLoop fuel (len - piece.length)
        pure (piece ++ rest)

def readAll (len : Nat) : EStateM Error σ Bytes :=
  readAllLoop len len

/-- `WireFormat::ReadFixed` into a value of `width` bytes. -/
def readFixed (width : Nat) : EStateM Error σ (Option Bytes) := do
  let bytes ← readAll width
  pure (if bytes.length = width then some bytes else none)

/-- `WireFormat::ReadFixed` into an unsigned integer of `width` bytes. -/
def readFixedUInt (width : Nat) : EStateM Error σ (Option Nat) := do
  let bytes ← readFixed width
  pure (bytes.map decodeLE)

def maxVarintBytes : Nat := 10

/-- `WireFormat::ReadVarint64` from byte `i` on, with the `value` of the bytes before it. -/
def readVarintLoop : Nat → Nat → Nat → EStateM Error σ (Option Nat)
  | 0, _, _ => pure none
  | fuel + 1, i, value => do
    match ← Source.read 1 with
    | [byte] =>
      let value := value ||| ((byte &&& 0x7F).toNat <<< (7 * i)) % 2 ^ 64
      if byte &&& 0x80 = 0 then pure (some value)
      else readVarintLoop fuel (i + 1) value
    | _ => pure none

def readVarint64 : EStateM Error σ (Option Nat) :=
  readVarintLoop maxVarintBytes 0 0

/-- `WireFormat::ReadUInt64` -/
def readUInt64 : EStateM Error σ (Option Nat) := readVarint64

def maxStringLength : Nat := 0x00FFFFFF

def readString : EStateM Error σ (Option Bytes) := do
  match ← readVarint64 with
  | some len => if len > maxStringLength then pure none else readFixed len
  | none => pure none

def skipString : EStateM Error σ Bool := do
  match ← readVarint64 with
  | some len => if len > maxStringLength then pure false else skip len
  | none => pure false

end Readers

/-- `WireFormat::WriteVarint64` of the bits of `value` not yet written. -/
def writeVarintLoop : Nat → Nat → Bytes
  | 0, _ => []
  | fuel + 1, value =>
    let byte := UInt8.ofNat (value &&& 0x7F)
    let byte := if value > 0x7F then byte ||| 0x80 else byte
    byte :: if value >>> 7 = 0 then [] else writeVarintLoop fuel (value >>> 7)

def writeVarint64 (value : Nat) : Bytes :=
  writeVarintLoop maxVarintBytes value

/-- `WireFormat::WriteUInt64` -/
def writeUInt64 (value : Nat) : Bytes := writeVarint64 value

def writeString (value : Bytes) : List Bytes :=
  [writeVarint64 value.length, value]

/-- `WireFormat::WriteFixed` of an unsigned integer of `width` bytes. -/
def writeFixedUInt (width value : Nat) : Bytes := encodeLE width value

/-! ## Reading back what was written -/

section RoundTrip

variable {σ : Type} [LawfulSource Error σ]

theorem decodes_readAllLoop (fuel : Nat) (bs : Bytes) (enough : bs.length ≤ fuel) :
    Decodes (σ := σ) (readAllLoop fuel bs.length) bs bs := by
  induction fuel generalizing bs with
  | zero =>
    have empty : bs = [] := eq_nil_of_length_eq_zero (by omega)
    subst empty
    exact .pure []
  | succ fuel ih =>
    by_cases empty : bs = []
    · subst empty
      exact .pure []
    · intro s t rest feeds
      obtain ⟨piece, tail, m, rfl, nonempty, run, feeds⟩ := read_within feeds empty
      have progress := length_pos_iff.mpr nonempty
      rw [length_append] at enough
      obtain ⟨u, run', feeds⟩ := ih tail (by omega) feeds
      refine ⟨u, ?_, feeds⟩
      rw [readAllLoop, if_neg (by rw [length_append]; omega)]
      refine run.bind ?_
      rw [if_neg (by simpa using nonempty), length_append, Nat.add_sub_cancel_left]
      exact run'.bind (runs_pure _ u)

theorem decodes_readAll (bs : Bytes) : Decodes (σ := σ) (readAll bs.length) bs bs :=
  decodes_readAllLoop bs.length bs (Nat.le_refl _)

theorem decodes_readFixed {width : Nat} {bs : Bytes} (length : bs.length = width) :
    Decodes (σ := σ) (readFixed width) bs (some bs) := by
  subst length
  refine (decodes_readAll bs).bind_pure ?_
  rw [if_pos rfl]
  exact .pure _

theorem decodes_readFixedUInt {width value : Nat} (fits : value < 256 ^ width) :
    Decodes (σ := σ) (readFixedUInt width) (writeFixedUInt width value) (some value) := by
  refine (decodes_readFixed (length_encodeLE width value)).bind_pure ?_
  rw [Option.map_some, decodeLE_encodeLE fits]
  exact .pure _

theorem decodes_readByte (byte : UInt8) : Decodes (σ := σ) (Source.read 1) [byte] [byte] := by
  intro s t rest feeds
  obtain ⟨piece, tail, m, split, nonempty, run, feeds⟩ := read_within feeds (by simp)
  rcases append_eq_singleton_iff.mp split.symm with ⟨rfl, _⟩ | ⟨rfl, rfl⟩
  · exact absurd rfl nonempty
  · exact ⟨m, run, feeds⟩

theorem decodes_readByte_bind {β : Type} {f : Bytes → EStateM Error σ β} {byte : UInt8}
    {bs : Bytes} {b : β} (next : Decodes (f [byte]) bs b) :
    Decodes (Source.read 1 >>= f) (byte :: bs) b :=
  (decodes_readByte byte).bind next

/-- The low seven bits and the continuation bit of a written byte. -/
theorem varint_byte (low : Nat) (small : low < 128) :
    UInt8.ofNat low &&& 0x80 = 0 ∧ (UInt8.ofNat low &&& 0x7F).toNat = low ∧
      (UInt8.ofNat low ||| 0x80) &&& 0x80 ≠ 0 ∧
      ((UInt8.ofNat low ||| 0x80) &&& 0x7F).toNat = low := by
  revert low
  decide

/-- Seven more bits above the ones already read. -/
theorem or_shiftLeft_of_lt {value low i : Nat} (below : value < 2 ^ i)
    (fits : low * 2 ^ i < 2 ^ 64) : value ||| low <<< i % 2 ^ 64 = value + low * 2 ^ i := by
  rw [Nat.shiftLeft_eq, Nat.mod_eq_of_lt fits, Nat.mul_comm, Nat.or_comm,
    ← Nat.two_pow_add_eq_or_of_lt below, Nat.add_comm]

theorem decodes_readVarintLoop (fuel i value rest : Nat) (below : value < 2 ^ (7 * i))
    (fits : value + rest * 2 ^ (7 * i) < 2 ^ 64) (rounds : 0 < fuel)
    (enough : rest < 128 ^ fuel) :
    Decodes (σ := σ) (readVarintLoop fuel i value) (writeVarintLoop fuel rest)
      (some (value + rest * 2 ^ (7 * i))) := by
  induction fuel generalizing i value rest with
  | zero => omega
  | succ fuel ih =>
    have low : rest &&& 0x7F = rest % 128 := Nat.and_two_pow_sub_one_eq_mod rest 7
    have high : rest >>> 7 = rest / 128 := Nat.shiftRight_eq_div_pow rest 7
    have digit : rest % 128 < 128 := Nat.mod_lt _ (by decide)
    obtain ⟨stops, lastBits, continues, bits⟩ := varint_byte (rest % 128) digit
    have split : rest = rest % 128 + 128 * (rest / 128) := (Nat.mod_add_div rest 128).symm
    have lowFits : rest % 128 * 2 ^ (7 * i) < 2 ^ 64 :=
      Nat.lt_of_le_of_lt (Nat.mul_le_mul_right _ (Nat.mod_le rest 128)) (by omega)
    rw [writeVarintLoop, low, high]
    by_cases small : rest < 128
    · -- The byte without a continuation bit ends both loops.
      have none : rest / 128 = 0 := Nat.div_eq_of_lt small
      rw [if_neg (by omega), if_pos none]
      refine (decodes_readByte _).bind_pure ?_
      dsimp only
      rw [if_pos stops, lastBits, or_shiftLeft_of_lt below lowFits, Nat.mod_eq_of_lt small]
      exact .pure _
    · have more : rest / 128 ≠ 0 := by omega
      have remaining : rest / 128 < 128 ^ fuel := by
        rw [Nat.pow_succ] at enough
        omega
      have left : 0 < fuel := by
        rcases Nat.eq_zero_or_pos fuel with rfl | left
        · rw [Nat.pow_zero] at remaining
          omega
        · exact left
      have power : 2 ^ (7 * (i + 1)) = 128 * 2 ^ (7 * i) := by
        rw [Nat.mul_add, Nat.pow_add, Nat.mul_comm]
      have sum : value + rest % 128 * 2 ^ (7 * i) + rest / 128 * 2 ^ (7 * (i + 1)) =
          value + rest * 2 ^ (7 * i) := by
        rw [power]
        nth_rewrite 3 [split]
        ring
      rw [if_pos (by omega), if_neg more]
      refine decodes_readByte_bind ?_
      dsimp only
      rw [if_neg continues, bits, or_shiftLeft_of_lt below lowFits, ← sum]
      refine ih (i + 1) _ _ ?_ (by rw [sum]; exact fits) left remaining
      have bound : rest % 128 * 2 ^ (7 * i) ≤ 127 * 2 ^ (7 * i) :=
        Nat.mul_le_mul_right _ (by omega)
      omega

theorem decodes_readVarint64 {value : Nat} (fits : value < 2 ^ 64) :
    Decodes (σ := σ) readVarint64 (writeVarint64 value) (some value) := by
  have read := decodes_readVarintLoop (σ := σ) maxVarintBytes 0 0 value (by decide)
    (by simpa using fits) (by decide) (Nat.lt_of_lt_of_le fits (by decide))
  rw [Nat.mul_zero, Nat.pow_zero, Nat.mul_one, Nat.zero_add] at read
  exact read

theorem decodes_readUInt64 {value : Nat} (fits : value < 2 ^ 64) :
    Decodes (σ := σ) readUInt64 (writeUInt64 value) (some value) :=
  decodes_readVarint64 fits

theorem flatten_writeString (value : Bytes) :
    (writeString value).flatten = writeVarint64 value.length ++ value := by
  simp [writeString]

theorem decodes_readString {value : Bytes} (short : value.length ≤ maxStringLength) :
    Decodes (σ := σ) readString (writeString value).flatten (some value) := by
  have fits : value.length < 2 ^ 64 := Nat.lt_of_le_of_lt short (by decide)
  rw [flatten_writeString]
  refine (decodes_readVarint64 fits).bind ?_
  dsimp only
  rw [if_neg (by omega)]
  exact decodes_readFixed rfl

theorem decodes_skipString {value : Bytes} (short : value.length ≤ maxStringLength) :
    Decodes (σ := σ) skipString (writeString value).flatten true := by
  have fits : value.length < 2 ^ 64 := Nat.lt_of_le_of_lt short (by decide)
  rw [flatten_writeString]
  refine (decodes_readVarint64 fits).bind ?_
  dsimp only
  rw [if_neg (by omega)]
  exact decodes_skip value

end RoundTrip

/-! ## Varints delimit themselves -/

theorem length_writeVarintLoop_le (fuel value : Nat) :
    (writeVarintLoop fuel value).length ≤ fuel := by
  induction fuel generalizing value with
  | zero => exact Nat.le_refl 0
  | succ fuel ih =>
    rw [writeVarintLoop, length_cons]
    split
    · exact Nat.succ_le_succ (Nat.zero_le fuel)
    · exact Nat.succ_le_succ (ih _)

/-- All bytes of a varint but the last say that another follows. -/
theorem runs_readVarintLoop_short {fuel i value rest : Nat} {part missing : Bytes}
    (split : writeVarintLoop fuel rest = part ++ missing) (more : missing ≠ []) :
    Runs (readVarintLoop fuel i value) (⟨part⟩ : ArrayInput) none ⟨[]⟩ := by
  induction fuel generalizing i value rest part with
  | zero =>
    obtain ⟨-, none⟩ := append_eq_nil_iff.mp split.symm
    exact absurd none more
  | succ fuel ih =>
    cases part with
    | nil => exact (ArrayInput.runs_nil 1).bind (runs_pure _ _)
    | cons byte part =>
      rw [writeVarintLoop] at split
      obtain ⟨rfl, others⟩ := cons.inj split
      refine (ArrayInput.runs_cons _ part).bind ?_
      by_cases last : rest >>> 7 = 0
      · rw [if_pos last] at others
        obtain ⟨-, none⟩ := append_eq_nil_iff.mp others.symm
        exact absurd none more
      · rw [if_neg last] at others
        have high : rest >>> 7 = rest / 128 := Nat.shiftRight_eq_div_pow rest 7
        have low : rest &&& 0x7F = rest % 128 := Nat.and_two_pow_sub_one_eq_mod rest 7
        have continues := (varint_byte (rest % 128) (Nat.mod_lt _ (by decide))).2.2.1
        rw [if_pos (by omega : rest > 0x7F), low]
        dsimp only
        rw [if_neg continues]
        exact ih others

/-- The code is read back as the value, whatever follows, and refused when its end is missing. -/
structure DelimitsItself (value : Nat) (code : Bytes) : Prop where
  lengths : 1 ≤ code.length ∧ code.length ≤ maxVarintBytes
  /-- From every stream that delivers the code, in pieces of any size. -/
  decodes (σ : Type) [LawfulSource Error σ] : Decodes (σ := σ) readVarint64 code (some value)
  leaves (rest : Bytes) : Runs readVarint64 (⟨code ++ rest⟩ : ArrayInput) (some value) ⟨rest⟩
  refuses {part : Bytes} : part <+: code → part ≠ code →
    Runs readVarint64 (⟨part⟩ : ArrayInput) none ⟨[]⟩

theorem delimitsItself_writeVarint64 {value : Nat} (fits : value < 2 ^ 64) :
    DelimitsItself value (writeVarint64 value) where
  lengths := ⟨Nat.succ_le_succ (Nat.zero_le _), length_writeVarintLoop_le _ _⟩
  decodes := by
    intro σ _
    exact decodes_readVarint64 fits
  leaves := ArrayInput.runs_of_decodes (decodes_readVarint64 fits)
  refuses := by
    rintro part ⟨missing, split⟩ strict
    refine runs_readVarintLoop_short split.symm fun none => strict ?_
    rw [none, append_nil] at split
    exact split

/-- What a code is read as decides which code starts with it. -/
theorem DelimitsItself.value_eq {m n : Nat} {xs ys : Bytes} (first : DelimitsItself m xs)
    (second : DelimitsItself n ys) (starts : xs <+: ys) : m = n := by
  obtain ⟨rest, rfl⟩ := starts
  have whole := second.leaves []
  rw [append_nil] at whole
  exact Option.some.inj ((first.leaves rest).unique whole).1

theorem writeVarint64_delimitsItself (x : UInt64) :
    DelimitsItself x.toNat (writeVarint64 x.toNat) ∧
      ∀ y : UInt64, x ≠ y → ¬ writeVarint64 x.toNat <+: writeVarint64 y.toNat := by
  refine ⟨delimitsItself_writeVarint64 x.toNat_lt, fun y different starts => different ?_⟩
  have same := (delimitsItself_writeVarint64 x.toNat_lt).value_eq
    (delimitsItself_writeVarint64 y.toNat_lt) starts
  exact UInt64.toNat_inj.mp same

end ClickHouse
