import AisPipeline.Decoder.StoredPayload

/-!
# Bit fields at their limits

Which reads of integer fields throw, and what the others return, for every
`size_t` start and length.
-/
namespace Ais

open Cpp

namespace StoredPayload

/-- The function threw: an exception left it, and nothing undefined happened before. -/
def Throws {α : Type} (result : Except Exn α) : Prop :=
  ∃ thrown, result = .error thrown ∧ ∀ what, thrown ≠ .undefinedBehaviour what

variable (payload : StoredPayload) (start length : UInt64)

/-- The field is too wide for a word, or reaches past the last bit. -/
def OutOfRange : Prop := length.toNat > 64 ∨ start.toNat + length.toNat > payload.bitCount

/-- `get_uint` throws for the fields out of range and reads all others, most significant bit
first. -/
structure UintExact : Prop where
  throws_iff : Throws (payload.getUint start length) ↔ payload.OutOfRange start length
  reads : ¬ payload.OutOfRange start length → ∃ value, payload.getUint start length = .ok value ∧
    value.toNat = BitString.value (BitString.window payload.bits start.toNat length.toNat)

/-- Where `get_uint` returns, `get_int` returns the same bits in two's complement. It shifts by
amounts in 0..63 then, since it returns. -/
def IntExact : Prop :=
  ∀ raw, payload.getUint start length = .ok raw → ∃ value, payload.getInt start length = .ok value ∧
    value.toInt = BitString.signedValue (BitString.window payload.bits start.toNat length.toNat)

variable {payload start length}

theorem getUint_throws (outside : payload.OutOfRange start length) :
    Throws (payload.getUint start length) := by
  rw [getUint_eq, Payload.getUint]
  by_cases wide : length.toNat > 64
  · rw [if_pos wide]
    exact ⟨_, rfl, by simp⟩
  · have beyond := outside.resolve_left wide
    rw [if_neg wide, if_pos (by omega)]
    exact ⟨_, rfl, by simp⟩

theorem getUint_reads (inside : ¬ payload.OutOfRange start length) :
    ∃ value, payload.getUint start length = .ok value ∧
      value.toNat = BitString.value (BitString.window payload.bits start.toNat length.toNat) := by
  simp only [OutOfRange, not_or, not_lt] at inside
  obtain ⟨narrow, within⟩ := inside
  refine ⟨payload.uintAt start.toNat length.toNat, ?_, payload.uintAt_toNat narrow⟩
  rw [getUint_eq, payload.getUint_ok within narrow]

theorem uintExact : UintExact payload start length where
  throws_iff := by
    refine ⟨?_, getUint_throws⟩
    rintro ⟨thrown, failed, -⟩
    by_contra inside
    obtain ⟨value, read, -⟩ := getUint_reads inside
    rw [read] at failed
    cases failed
  reads := getUint_reads

theorem not_outOfRange {raw : UInt64} (read : payload.getUint start length = .ok raw) :
    ¬ payload.OutOfRange start length := by
  intro outside
  obtain ⟨thrown, failed, -⟩ := getUint_throws outside
  rw [read] at failed
  cases failed

/-- A field that is not empty is read in two's complement. -/
theorem getInt_reads (nonempty : 0 < length.toNat) (inside : ¬ payload.OutOfRange start length) :
    ∃ value, payload.getInt start length = .ok value ∧
      value.toInt = BitString.signedValue (BitString.window payload.bits start.toNat length.toNat) := by
  simp only [OutOfRange, not_or, not_lt] at inside
  obtain ⟨narrow, within⟩ := inside
  refine ⟨payload.intAt start.toNat length.toNat, ?_, payload.intAt_toInt within narrow⟩
  rw [getInt_eq, payload.getInt_ok within nonempty narrow]

/-- An empty field of the payload makes `get_int` shift by 64. -/
theorem getInt_empty (empty : length.toNat = 0) (inside : ¬ payload.OutOfRange start length) :
    payload.getInt start length = .error (.undefinedBehaviour "shift by 64 bits") := by
  obtain ⟨raw, read, -⟩ := getUint_reads inside
  rw [getUint_eq] at read
  rw [getInt_eq, Payload.getInt, read]
  simp only [bind, Except.bind, empty]
  rfl

/-- Both reads are exact at every limit, except that of an empty field in the payload. -/
theorem bit_fields_exact_iff (payload : StoredPayload) (start length : UInt64) :
    (UintExact payload start length ∧ IntExact payload start length) ↔
      length ≠ 0 ∨ payload.size < start := by
  constructor
  · rintro ⟨-, exact⟩
    -- an empty field inside the payload is read by one function and not by the other
    by_contra both
    simp only [not_or, not_not, UInt64.not_lt, UInt64.le_iff_toNat_le, size_toNat] at both
    obtain ⟨rfl, within⟩ := both
    have inside : ¬ payload.OutOfRange start 0 := by simp [OutOfRange, within]
    obtain ⟨raw, read, -⟩ := getUint_reads inside
    obtain ⟨value, returned, -⟩ := exact raw read
    rw [getInt_empty rfl inside] at returned
    cases returned
  · intro condition
    refine ⟨uintExact, ?_⟩
    intro raw read
    have inside := not_outOfRange read
    apply getInt_reads _ inside
    -- past the last bit nothing is read at all
    rcases condition with nonempty | beyond
    · exact Nat.pos_of_ne_zero fun zero => nonempty (UInt64.toNat_inj.mp zero)
    · rw [UInt64.lt_iff_toNat_lt, size_toNat] at beyond
      exact absurd (Or.inr (by omega)) inside

/-- A payload without bits. -/
def noBits : StoredPayload := ⟨⟨[]⟩, by decide⟩

/-- The empty field of an empty payload is 0 to `get_uint` and undefined in `get_int`. -/
theorem noBits_undefined :
    noBits.getUint 0 0 = .ok 0 ∧ noBits.getInt 0 0 = .error (.undefinedBehaviour "shift by 64 bits") ∧
      ¬ (UintExact noBits 0 0 ∧ IntExact noBits 0 0) := by
  have read : noBits.getUint 0 0 = .ok 0 := rfl
  have undefined : noBits.getInt 0 0 = .error (.undefinedBehaviour "shift by 64 bits") := rfl
  refine ⟨read, undefined, ?_⟩
  rintro ⟨-, exact⟩
  obtain ⟨value, returned, -⟩ := exact 0 read
  rw [undefined] at returned
  cases returned

end StoredPayload

end Ais
