import Mathlib.Tactic

/-!
# Big-endian bit strings

Numbers written with a fixed number of bits, most significant bit first, and
read back from a window of a longer bit string. Signed numbers are read in
two's complement, which over `Int` is `Int.bmod`.
-/
namespace BitString

/-- The number a bit string denotes, most significant bit first. -/
def value (bits : List Bool) : Nat :=
  bits.foldl (fun acc b => 2 * acc + b.toNat) 0

/-- The number a bit string denotes in two's complement. -/
def signedValue (bits : List Bool) : Int :=
  (value bits : Int).bmod (2 ^ bits.length)

/-- The `w` low bits of `n`, most significant bit first. -/
def encode : Nat → Nat → List Bool
  | 0, _ => []
  | w + 1, n => n.testBit w :: encode w n

/-- A machine word, most significant bit first. -/
def ofBitVec {w : Nat} (v : BitVec w) : List Bool := encode w v.toNat

/-- The `len` bits that start at bit `start`. -/
def window (bits : List Bool) (start len : Nat) : List Bool :=
  (bits.drop start).take len

theorem value_foldl (bits : List Bool) (acc : Nat) :
    bits.foldl (fun acc b => 2 * acc + b.toNat) acc = acc * 2 ^ bits.length + value bits := by
  induction bits generalizing acc with
  | nil => simp [value]
  | cons b bits ih =>
    -- the hypothesis at the accumulator the first bit leaves
    have tail : value (b :: bits) = b.toNat * 2 ^ bits.length + value bits := by
      rw [value, List.foldl_cons, ih, Nat.mul_zero, Nat.zero_add]
    rw [List.foldl_cons, ih, tail, List.length_cons]
    ring

@[simp] theorem value_nil : value [] = 0 := rfl

theorem value_cons (b : Bool) (bits : List Bool) :
    value (b :: bits) = b.toNat * 2 ^ bits.length + value bits := by
  simpa [value] using value_foldl bits b.toNat

theorem value_lt (bits : List Bool) : value bits < 2 ^ bits.length := by
  induction bits with
  | nil => simp
  | cons b bits ih =>
    rw [value_cons, List.length_cons, pow_succ]
    cases b <;> simp <;> omega

theorem signedValue_bounds {bits : List Bool} {half : Nat} (size : bits.length = half + 1) :
    -2 ^ half ≤ signedValue bits ∧ signedValue bits < 2 ^ half := by
  have pos : 0 < 2 ^ (half + 1) := by positivity
  have low : _ ≤ (value bits : Int).bmod (2 ^ (half + 1)) := Int.le_bmod pos
  have high : (value bits : Int).bmod (2 ^ (half + 1)) < _ := Int.bmod_lt pos
  -- the modulus is twice the bound on either side
  have twice : (2 : Int) ^ (half + 1) = 2 * 2 ^ half := by ring
  push_cast at low high
  rw [twice] at low high
  rw [signedValue, size]
  constructor
  · omega
  · omega

@[simp] theorem length_encode (w n : Nat) : (encode w n).length = w := by
  induction w with
  | zero => rfl
  | succ w ih => simp [encode, ih]

theorem value_encode_mod (w n : Nat) : value (encode w n) = n % 2 ^ w := by
  induction w with
  | zero => simp [encode, Nat.mod_one]
  | succ w ih =>
    -- the top bit is the new digit of the remainder
    rw [encode, value_cons, ih, length_encode, Nat.toNat_testBit, Nat.mod_pow_succ]
    ring

/-- A number that fits its field is read back from it. -/
@[simp] theorem value_encode {w n : Nat} (fits : n < 2 ^ w) : value (encode w n) = n := by
  rw [value_encode_mod, Nat.mod_eq_of_lt fits]

@[simp] theorem length_ofBitVec {w : Nat} (v : BitVec w) : (ofBitVec v).length = w :=
  length_encode w v.toNat

@[simp] theorem value_ofBitVec {w : Nat} (v : BitVec w) : value (ofBitVec v) = v.toNat :=
  value_encode v.isLt

@[simp] theorem signedValue_ofBitVec {w : Nat} (v : BitVec w) :
    signedValue (ofBitVec v) = v.toInt := by
  rw [signedValue, value_ofBitVec, length_ofBitVec, BitVec.toInt_eq_toNat_bmod]

/-- Shifting a number to the top of a word and arithmetically back down reads its low
bits in two's complement. -/
theorem bmod_shift (x : Int) (half shift : Nat) :
    (x * 2 ^ shift).bmod (2 ^ (half + 1 + shift)) >>> shift = x.bmod (2 ^ (half + 1)) := by
  have scale : ((2 ^ (half + 1 + shift) : Nat) : Int) = 2 ^ (half + 1) * 2 ^ shift := by
    push_cast
    rw [← pow_add]
  have pos : (0 : Int) < 2 ^ shift := by positivity
  -- where the two moduli have their midpoint
  have middle (m : Nat) : ((2 ^ (m + 1) : Nat) + 1 : Int) / 2 = 2 ^ m := by
    push_cast
    rw [pow_succ]
    omega
  have wide : ((2 ^ (half + 1 + shift) : Nat) + 1 : Int) / 2 = 2 ^ half * 2 ^ shift := by
    rw [show half + 1 + shift = half + shift + 1 by omega, middle, pow_add]
  -- the shift makes the low bits the high bits of the word
  have top : x * 2 ^ shift % (2 ^ (half + 1) * 2 ^ shift) = x % 2 ^ (half + 1) * 2 ^ shift := by
    rw [mul_comm x, mul_comm (2 ^ (half + 1)), Int.mul_emod_mul_of_pos _ _ pos, mul_comm]
  rw [Int.shiftRight_eq_div_pow, Int.bmod_def, Int.bmod_def, middle, wide, scale, top]
  push_cast
  -- nonnegative and negative numbers divide out the same power of two
  by_cases low : x % 2 ^ (half + 1) < 2 ^ half
  · rw [if_pos (Int.mul_lt_mul_of_pos_right low pos), if_pos low]
    exact Int.mul_ediv_cancel _ (ne_of_gt pos)
  · rw [if_neg (fun h => low (lt_of_mul_lt_mul_right h (le_of_lt pos))), if_neg low, ← sub_mul]
    exact Int.mul_ediv_cancel _ (ne_of_gt pos)

@[simp] theorem length_window {bits : List Bool} {start len : Nat} (h : start + len ≤ bits.length) :
    (window bits start len).length = len := by
  simp only [window, List.length_take, List.length_drop]
  omega

/-- Cutting a window in two. -/
theorem window_add (bits : List Bool) (start a b : Nat) :
    window bits start (a + b) = window bits start a ++ window bits (start + a) b := by
  simp only [window, List.take_add, List.drop_drop]

/-- The window that covers one chunk of a concatenation is that chunk. -/
theorem window_append_chunk (before chunk after : List Bool) {start len : Nat}
    (hs : before.length = start) (hl : chunk.length = len) :
    window (before ++ (chunk ++ after)) start len = chunk := by
  subst hs hl
  simp [window]

/-- In a concatenation of chunks, the window that covers the `k`-th is that chunk. -/
theorem window_flatten {chunks : List (List Bool)} {widths : List Nat} {chunk : List Bool}
    {start len : Nat} (layout : chunks.map List.length = widths) (k : Nat)
    (found : chunks[k]? = some chunk) (size : chunk.length = len)
    (offset : (widths.take k).sum = start) : window chunks.flatten start len = chunk := by
  obtain ⟨inside, here⟩ := List.getElem?_eq_some_iff.mp found
  have split : chunks.flatten =
      (chunks.take k).flatten ++ (chunk ++ (chunks.drop (k + 1)).flatten) := by
    rw [← here, ← List.flatten_cons, ← List.drop_eq_getElem_cons inside, ← List.flatten_append,
      List.take_append_drop]
  rw [split]
  apply window_append_chunk _ _ _ _ size
  rw [List.length_flatten, List.map_take, layout, offset]

end BitString
