import AisPipeline.Cpp.Text
import AisPipeline.Lib.BitString

/-!
# The bit stream of a message

`Payload` unpacks six-bit armoured text into bits and reads integer and text
fields out of them.
-/
namespace Ais

open Cpp

/-- `sixbit_text_alphabet`: the characters of the 64 six-bit codes. -/
def sixbitTextAlphabet : Bytes :=
  [ '@', 'A', 'B', 'C', 'D', 'E', 'F', 'G', 'H', 'I', 'J', 'K', 'L', 'M', 'N', 'O',
    'P', 'Q', 'R', 'S', 'T', 'U', 'V', 'W', 'X', 'Y', 'Z', '[', '\x5c', ']', '^', '_',
    ' ', '!', '\x22', '#', '$', '%', '&', '\x27', '(', ')', '*', '+', ',', '-', '.', '/',
    '0', '1', '2', '3', '4', '5', '6', '7', '8', '9', ':', ';', '<', '=', '>', '?' ].map
    Char.toUInt8

/-- `Payload`; `bits_` holds one bit an element. -/
structure Payload where
  bits : List Bool
  deriving DecidableEq, Repr

namespace Payload

/-- The six-bit value of an armoured character, of any character at all. -/
def sixbitValue (c : UInt8) : Int :=
  let value : Int := (c.toNat : Int) - 48
  if value > 40 then value - 8 else value

/-- The six low bits of `value`, pushed most significant first. -/
def sixbitBits (value : Int) : List Bool :=
  -- `value` may be negative; the shift keeps the sign
  [5, 4, 3, 2, 1, 0].map fun i : Nat => decide ((value >>> i) % 2 = 1)

/-- All bits of an armoured text. -/
def unarmor (armored : Bytes) : List Bool :=
  armored.flatMap fun c => sixbitBits (sixbitValue c)

/-- The number of bits dropped for `fill_bits`: clamped to 0..5 and to what is there. -/
def fillDrop (fillBits : Int32) (size : Nat) : Nat :=
  let clamped := if fillBits < 0 then 0 else if fillBits > 5 then 5 else fillBits
  min (sizeCast clamped) size

/-- The constructor `Payload::Payload`. -/
def ofArmored (armored : Bytes) (fillBits : Int32) : Payload :=
  let bits := unarmor armored
  ⟨bits.take (bits.length - fillDrop fillBits bits.length)⟩

def bitCount (payload : Payload) : Nat := payload.bits.length

/-- The accumulation loop of `get_uint`, from bit `pos` over `n` more bits. -/
def uintLoop (payload : Payload) : Nat → Nat → UInt64 → Except Exn UInt64
  | 0, _, value => .ok value
  | n + 1, pos, value =>
    match payload.bits[pos]? with
    | some b => uintLoop payload n (pos + 1) ((value <<< 1) ||| (if b then 1 else 0))
    | none => .error (.undefinedBehaviour "bits_[start + i]")

def getUint (payload : Payload) (start length : Nat) : Except Exn UInt64 :=
  if length > 64 then .error (.invalidArgument "Payload::get_uint: length exceeds 64 bits")
  else if start > payload.bitCount ∨ length > payload.bitCount - start then
    .error (.outOfRange "Payload::get_uint: start/length out of range")
  else payload.uintLoop length start 0

/-- `get_int`. A shift by all 64 bits, which an empty field would need, is undefined. -/
def getInt (payload : Payload) (start length : Nat) : Except Exn Int64 := do
  let raw ← payload.getUint start length
  let shift := 64 - length
  if shift < 64 then .ok (Int64.ofBitVec ((raw.toBitVec <<< shift).sshiftRight shift))
  else .error (.undefinedBehaviour "shift by 64 bits")

/-- The character loop of `get_text`: up to `n` characters, ended early by `@`. -/
def textLoop (payload : Payload) : Nat → Nat → Except Exn Bytes
  | 0, _ => .ok []
  | n + 1, pos => do
    let value ← payload.getUint pos 6
    let c ← charAt sixbitTextAlphabet value.toNat
    if c = '@'.toUInt8 then .ok []
    else do
      let rest ← textLoop payload n (pos + 6)
      .ok (c :: rest)

/-- Erasing the trailing spaces of a text. -/
def eraseTrailingSpaces (result : Bytes) : Bytes :=
  match findLastNotOf result ' '.toUInt8 with
  | some lastNonSpace => result.take (lastNonSpace + 1)
  -- all spaces
  | none => []

def getText (payload : Payload) (start length : Nat) : Except Exn Bytes :=
  if length % 6 ≠ 0 then
    .error (.invalidArgument "Payload::get_text: length must be a multiple of 6")
  else if start > payload.bitCount ∨ length > payload.bitCount - start then
    .error (.outOfRange "Payload::get_text: start/length out of range")
  else do
    let result ← payload.textLoop (length / 6) start
    .ok (eraseTrailingSpaces result)

/-! ### What the reads return when they are in range -/

/-- The unsigned value of a field that lies inside the payload. -/
def uintAt (payload : Payload) (start length : Nat) : UInt64 :=
  UInt64.ofNat (BitString.value (BitString.window payload.bits start length))

/-- The signed value of a field that lies inside the payload. -/
def intAt (payload : Payload) (start length : Nat) : Int64 :=
  Int64.ofInt (BitString.signedValue (BitString.window payload.bits start length))

/-- The character of a six-bit code. -/
def sixbitChar (code : Nat) : UInt8 := sixbitTextAlphabet.getD code 0

/-- The characters of the six-bit groups of a field, `@` and all. -/
def charsAt (payload : Payload) (start : Nat) : Nat → Bytes
  | 0 => []
  | n + 1 =>
    sixbitChar (BitString.value (BitString.window payload.bits start 6)) ::
      charsAt payload (start + 6) n

/-- The text of a field that lies inside the payload. -/
def textAt (payload : Payload) (start length : Nat) : Bytes :=
  eraseTrailingSpaces ((payload.charsAt start (length / 6)).takeWhile (· ≠ '@'.toUInt8))

private theorem shiftIn_toNat (value : UInt64) (b : Bool) :
    ((value <<< 1) ||| (if b then 1 else 0)).toNat = (2 * value.toNat + b.toNat) % 2 ^ 64 := by
  cases b with
  | false =>
    simp [Nat.shiftLeft_eq]
    omega
  | true =>
    -- the lowest bit is free after the shift, so the or adds
    have even : value.toNat * 2 % 2 ^ 64 = 2 ^ 1 * (value.toNat % 2 ^ 63) := by omega
    simp only [if_true, UInt64.toNat_or, UInt64.toNat_shiftLeft, UInt64.toNat_one, Nat.shiftLeft_eq,
      Nat.one_mod, pow_one, Bool.toNat_true]
    rw [even, ← Nat.two_pow_add_eq_or_of_lt (by omega)]
    omega

theorem uintLoop_eq (payload : Payload) (n pos : Nat) (value : UInt64)
    (inside : pos + n ≤ payload.bitCount) :
    payload.uintLoop n pos value = .ok (UInt64.ofNat
      (value.toNat * 2 ^ n + BitString.value (BitString.window payload.bits pos n))) := by
  induction n generalizing pos value with
  | zero => simp [uintLoop, BitString.window]
  | succ n ih =>
    have here : pos < payload.bits.length := by
      simp only [bitCount] at inside
      omega
    -- the first bit of the window goes in at the bottom of the accumulator
    have split : BitString.window payload.bits pos (n + 1) =
        payload.bits[pos] :: BitString.window payload.bits (pos + 1) n := by
      rw [BitString.window, List.drop_eq_getElem_cons here, List.take_succ_cons]
      rfl
    have size : (BitString.window payload.bits (pos + 1) n).length = n := by
      apply BitString.length_window
      simp only [bitCount] at inside
      omega
    rw [uintLoop, List.getElem?_eq_getElem here]
    simp only
    rw [ih (pos + 1) _ (by omega), shiftIn_toNat, split, BitString.value_cons, size]
    refine congrArg Except.ok (UInt64.toNat_inj.mp ?_)
    simp only [UInt64.toNat_ofNat']
    rw [Nat.add_mod, Nat.mul_mod, Nat.mod_mod, ← Nat.mul_mod, ← Nat.add_mod]
    congr 1
    ring

/-- A field inside the payload is read as its big-endian value. -/
theorem getUint_ok (payload : Payload) {start length : Nat}
    (inside : start + length ≤ payload.bitCount) (narrow : length ≤ 64) :
    payload.getUint start length = .ok (payload.uintAt start length) := by
  rw [getUint, if_neg (by omega), if_neg (by omega), uintLoop_eq payload _ _ _ inside]
  simp [uintAt]

theorem uintAt_toNat (payload : Payload) {start length : Nat} (narrow : length ≤ 64) :
    (payload.uintAt start length).toNat =
      BitString.value (BitString.window payload.bits start length) := by
  have small : BitString.value (BitString.window payload.bits start length) < 2 ^ 64 := by
    apply lt_of_lt_of_le (BitString.value_lt _)
    apply Nat.pow_le_pow_right (by omega)
    simp only [BitString.window, List.length_take]
    omega
  rw [uintAt, UInt64.toNat_ofNat', Nat.mod_eq_of_lt small]

theorem uintAt_lt (payload : Payload) {start length : Nat} (narrow : length ≤ 64) :
    (payload.uintAt start length).toNat < 2 ^ length := by
  rw [uintAt_toNat payload narrow]
  apply lt_of_lt_of_le (BitString.value_lt _)
  apply Nat.pow_le_pow_right (by omega)
  simp only [BitString.window, List.length_take]
  omega

theorem intAt_toInt (payload : Payload) {start length : Nat}
    (inside : start + length ≤ payload.bitCount) (narrow : length ≤ 64) :
    (payload.intAt start length).toInt =
      BitString.signedValue (BitString.window payload.bits start length) := by
  have size : (BitString.window payload.bits start length).length = length :=
    BitString.length_window inside
  rw [intAt, Int64.toInt_ofInt]
  cases length with
  | zero => simp [BitString.window, BitString.signedValue]
  | succ half =>
    obtain ⟨low, high⟩ := BitString.signedValue_bounds size
    have fits : (2 : Int) ^ half ≤ 2 ^ 63 := by
      exact_mod_cast Nat.pow_le_pow_right (by omega) (by omega : half ≤ 63)
    apply Int.bmod_eq_of_le
    · simp only [Int64.size]
      omega
    · simp only [Int64.size]
      omega

/-- A nonempty field inside the payload is read as its two's-complement value. -/
theorem getInt_ok (payload : Payload) {start length : Nat}
    (inside : start + length ≤ payload.bitCount) (nonempty : 0 < length) (narrow : length ≤ 64) :
    payload.getInt start length = .ok (payload.intAt start length) := by
  obtain ⟨half, rfl⟩ : ∃ half, length = half + 1 := ⟨length - 1, by omega⟩
  have size : (BitString.window payload.bits start (half + 1)).length = half + 1 :=
    BitString.length_window inside
  have word : half + 1 + (64 - (half + 1)) = 64 := by omega
  -- the field fills the word from the top, then comes down with its sign
  have shifted := BitString.bmod_shift
    (BitString.value (BitString.window payload.bits start (half + 1))) half (64 - (half + 1))
  rw [word] at shifted
  have scaled (n k : Nat) : ((n * 2 ^ k : Nat) : Int) = n * 2 ^ k := by push_cast; rfl
  simp only [getInt, getUint_ok payload inside narrow, bind, Except.bind]
  rw [if_pos (by omega)]
  refine congrArg Except.ok (Int64.toInt_inj.mp ?_)
  rw [intAt_toInt payload inside narrow, BitString.signedValue, size, Int64.toInt_ofBitVec,
    BitVec.toInt_sshiftRight, BitVec.toInt_shiftLeft, UInt64.toNat_toBitVec,
    uintAt_toNat payload narrow, Nat.shiftLeft_eq, scaled]
  exact shifted

/-! ### Text fields -/

theorem charAt_sixbitTextAlphabet {code : Nat} (h : code < 64) :
    charAt sixbitTextAlphabet code = .ok (sixbitChar code) := by
  have inside : code < sixbitTextAlphabet.length := by simpa [sixbitTextAlphabet] using h
  rw [charAt_ok inside, sixbitChar, List.getD_eq_getElem?_getD, List.getElem?_eq_getElem inside]
  rfl

theorem textLoop_eq (payload : Payload) (n pos : Nat) (inside : pos + 6 * n ≤ payload.bitCount) :
    payload.textLoop n pos = .ok ((payload.charsAt pos n).takeWhile (· ≠ '@'.toUInt8)) := by
  induction n generalizing pos with
  | zero => rfl
  | succ n ih =>
    have code : (payload.uintAt pos 6).toNat < 64 := uintAt_lt payload (by omega)
    have read : payload.getUint pos 6 = .ok (payload.uintAt pos 6) :=
      getUint_ok payload (by omega) (by omega)
    simp only [textLoop, read, charAt_sixbitTextAlphabet code, ih (pos + 6) (by omega), charsAt, bind, Except.bind]
    rw [uintAt_toNat payload (by omega)]
    -- `@` ends the loop just where `takeWhile` stops
    split
    next at_sign => simp [at_sign]
    next other => simp [other]

/-- A text field inside the payload is read without an exception. -/
theorem getText_ok (payload : Payload) {start length : Nat} (groups : length % 6 = 0)
    (inside : start + length ≤ payload.bitCount) :
    payload.getText start length = .ok (payload.textAt start length) := by
  rw [getText, if_neg (by omega), if_neg (by omega), textLoop_eq payload _ _ (by omega)]
  rfl

theorem eraseTrailingSpaces_append {text : Bytes} (count : Nat)
    (h : text.getLast? ≠ some ' '.toUInt8) :
    eraseTrailingSpaces (text ++ List.replicate count ' '.toUInt8) = text := by
  rw [eraseTrailingSpaces, findLastNotOf_append_replicate count h]
  by_cases empty : text = []
  · simp [empty]
  · have pos := List.length_pos_of_ne_nil empty
    simp only [empty, if_false]
    rw [List.take_append_of_le_length (by omega), List.take_of_length_le (by omega)]

/-- Erasing trailing spaces leaves a prefix that does not end in a space. -/
theorem eraseTrailingSpaces_spec (text : Bytes) :
    eraseTrailingSpaces text <+: text ∧
      (eraseTrailingSpaces text).getLast? ≠ some ' '.toUInt8 := by
  obtain ⟨front, count, rfl, ends⟩ := exists_append_replicate text ' '.toUInt8
  rw [eraseTrailingSpaces_append count ends]
  exact ⟨List.prefix_append _ _, ends⟩

end Payload

end Ais
