import AisPipeline.Decoder.Payload

/-!
# Payload reads in machine words

The reads as the code computes them, on `size_t` arguments and with an `int`
shift, and that they are the reads of `Payload`.
-/
namespace Ais

open Cpp

/-- A payload in memory: the number of its bits is a `size_t`. -/
structure StoredPayload extends Payload where
  fits : bits.length < 2 ^ 64

/-- `raw << shift`. -/
def shiftLeft (raw : UInt64) (shift : Int32) : Except Exn UInt64 :=
  if 0 ≤ shift ∧ shift < 64 then .ok (UInt64.ofBitVec (raw.toBitVec <<< shift.toNatClampNeg))
  else .error (.undefinedBehaviour "shift by 64 bits")

/-- `value >> shift`, which keeps the sign. -/
def shiftRight (value : Int64) (shift : Int32) : Except Exn Int64 :=
  if 0 ≤ shift ∧ shift < 64 then .ok (Int64.ofBitVec (value.toBitVec.sshiftRight shift.toNatClampNeg))
  else .error (.undefinedBehaviour "shift by 64 bits")

namespace StoredPayload

/-- `bits_.size()`. -/
def size (payload : StoredPayload) : UInt64 := UInt64.ofNat payload.bits.length

/-- The loop of `get_uint` over the `n` bits from `i` on. -/
def uintLoop (payload : StoredPayload) (start : UInt64) : Nat → UInt64 → UInt64 → Except Exn UInt64
  | 0, _, value => .ok value
  | n + 1, i, value =>
    match payload.bits[(start + i).toNat]? with
    | some b => uintLoop payload start n (i + 1) ((value <<< 1) ||| (if b then 1 else 0))
    | none => .error (.undefinedBehaviour "bits_[start + i]")

def getUint (payload : StoredPayload) (start length : UInt64) : Except Exn UInt64 :=
  if length > 64 then .error (.invalidArgument "Payload::get_uint: length exceeds 64 bits")
  else if start > payload.size ∨ length > payload.size - start then
    .error (.outOfRange "Payload::get_uint: start/length out of range")
  else payload.uintLoop start length.toNat 0 0

def getInt (payload : StoredPayload) (start length : UInt64) : Except Exn Int64 := do
  let raw ← payload.getUint start length
  let shift : Int32 := 64 - length.toInt64.toInt32
  let high ← shiftLeft raw shift
  shiftRight high.toInt64 shift

/-! ### The same reads without words -/

variable (payload : StoredPayload)

@[simp] theorem size_toNat : payload.size.toNat = payload.bitCount := by
  rw [size, UInt64.toNat_ofNat', Nat.mod_eq_of_lt payload.fits]
  rfl

theorem uintLoop_eq (start : UInt64) (n : Nat) (i value : UInt64)
    (inside : start.toNat + i.toNat + n ≤ payload.bitCount) :
    payload.uintLoop start n i value = payload.toPayload.uintLoop n (start.toNat + i.toNat) value := by
  have bound : payload.bitCount < 2 ^ 64 := payload.fits
  induction n generalizing i value with
  | zero => rfl
  | succ n ih =>
    -- neither the index nor the counter wraps inside the payload
    have index : (start + i).toNat = start.toNat + i.toNat := by
      rw [UInt64.toNat_add, Nat.mod_eq_of_lt (by omega)]
    have next : (i + 1).toNat = i.toNat + 1 := by
      rw [UInt64.toNat_add, UInt64.toNat_one, Nat.mod_eq_of_lt (by omega)]
    rw [uintLoop, Payload.uintLoop, index]
    cases payload.bits[start.toNat + i.toNat]? with
    | none => rfl
    | some b =>
      simp only
      rw [ih (i + 1) _ (by omega), next, Nat.add_assoc]

/-- The range test never wraps, whatever the arguments. -/
theorem getUint_eq (start length : UInt64) :
    payload.getUint start length = payload.toPayload.getUint start.toNat length.toNat := by
  rw [getUint, Payload.getUint]
  by_cases wide : length > 64
  · have wide' : length.toNat > 64 := by simpa [UInt64.lt_iff_toNat_lt] using wide
    rw [if_pos wide, if_pos wide']
  · have narrow : ¬ length.toNat > 64 := by simpa [UInt64.lt_iff_toNat_lt] using wide
    rw [if_neg wide, if_neg narrow]
    by_cases beyond : start > payload.size
    -- the first half of the test decides, and the subtraction is not made
    · have beyond' : start.toNat > payload.bitCount := by
        simpa [UInt64.lt_iff_toNat_lt] using beyond
      rw [if_pos (Or.inl beyond), if_pos (Or.inl beyond')]
    · have within : start.toNat ≤ payload.bitCount := by
        simpa [UInt64.lt_iff_toNat_lt] using beyond
      -- with the start inside the payload the subtraction does not wrap
      have left : (payload.size - start).toNat = payload.bitCount - start.toNat := by
        rw [UInt64.toNat_sub_of_le _ _ (by simpa [UInt64.le_iff_toNat_le] using within), size_toNat]
      by_cases long : length > payload.size - start
      · have long' : length.toNat > payload.bitCount - start.toNat := by
          rwa [gt_iff_lt, UInt64.lt_iff_toNat_lt, left] at long
        rw [if_pos (Or.inr long), if_pos (Or.inr long')]
      · have short : ¬ length.toNat > payload.bitCount - start.toNat := by
          rwa [gt_iff_lt, UInt64.lt_iff_toNat_lt, left] at long
        rw [if_neg (by simp only [beyond, long, or_self, not_false_eq_true]), if_neg (by omega),
          uintLoop_eq payload start _ 0 0 (by simp only [UInt64.toNat_zero]; omega)]
        rfl

/-- The shift amount, of a field that is not too wide. -/
theorem shift_toInt {length : UInt64} (narrow : length.toNat ≤ 64) :
    (64 - length.toInt64.toInt32 : Int32).toInt = 64 - length.toNat := by
  have word : length.toInt64.toInt = length.toNat := by
    rw [Int64.toInt, UInt64.toBitVec_toInt64, BitVec.toInt_eq_toNat_bmod, UInt64.toNat_toBitVec,
      Int.bmod_eq_of_le (by omega) (by omega)]
  have cast : length.toInt64.toInt32.toInt = length.toNat := by
    rw [Int64.toInt_toInt32, word, Int.bmod_eq_of_le (by omega) (by omega)]
  rw [Int32.toInt_sub, cast, Int.bmod_eq_of_le]
  · rfl
  · simp
    omega
  · simp
    omega

theorem getUint_narrow {start length raw : UInt64} (read : payload.getUint start length = .ok raw) :
    length.toNat ≤ 64 := by
  by_contra wide
  rw [getUint_eq, Payload.getUint, if_pos (by omega)] at read
  cases read

/-- The shift is undefined where `Payload.getInt` says it is. -/
theorem getInt_eq (start length : UInt64) :
    payload.getInt start length = payload.toPayload.getInt start.toNat length.toNat := by
  rw [getInt, Payload.getInt, ← getUint_eq]
  cases read : payload.getUint start length with
  | error what => rfl
  | ok raw =>
    have narrow := payload.getUint_narrow read
    have amount := shift_toInt narrow
    have steps : (64 - length.toInt64.toInt32 : Int32).toNatClampNeg = 64 - length.toNat := by
      rw [← Int32.toNat_toInt, amount]
      omega
    have zero : (0 : Int32).toInt = 0 := rfl
    have bits : (64 : Int32).toInt = 64 := rfl
    have defined : (0 ≤ 64 - length.toInt64.toInt32 ∧ 64 - length.toInt64.toInt32 < (64 : Int32)) ↔
        64 - length.toNat < 64 := by
      rw [Int32.le_iff_toInt_le, Int32.lt_iff_toInt_lt, amount, zero, bits]
      omega
    simp only [bind, Except.bind, shiftLeft, shiftRight, defined, steps]
    by_cases short : 64 - length.toNat < 64
    · rw [if_pos short, if_pos short]
      simp only [if_pos short]
      rfl
    · rw [if_neg short, if_neg short]

end StoredPayload

end Ais
