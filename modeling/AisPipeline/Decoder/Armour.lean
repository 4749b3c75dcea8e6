import AisPipeline.Decoder.AisMessage

/-!
# Writing payloads

Bits as armoured text, fields as chunks of bits, and text fields as six-bit
codes; each with the lemma that the decoder's reader inverts it.
-/
namespace Ais

open Cpp BitString

/-! ### Armouring -/

/-- The armour character of a six-bit value; the alphabet skips eight characters. -/
def armourChar (value : Nat) : UInt8 :=
  UInt8.ofNat (if value < 40 then value + 48 else value + 56)

/-- Groups of six bits, as characters. -/
def armourGroups : List Bool → Bytes
  | a :: b :: c :: d :: e :: f :: rest => armourChar (value [a, b, c, d, e, f]) :: armourGroups rest
  | _ => []

/-- How many fill bits complete the last group. -/
def fillCount (bits : List Bool) : Nat := (6 - bits.length % 6) % 6

/-- The armoured text of some bits, with fill bits of any value. -/
def armour (bits : List Bool) (fill : Nat → Bool) : Bytes :=
  armourGroups (bits ++ (List.range (fillCount bits)).map fill)

private theorem sixbit_armourChar (a b c d e f : Bool) :
    Payload.sixbitBits (Payload.sixbitValue (armourChar (value [a, b, c, d, e, f]))) =
      [a, b, c, d, e, f] := by
  revert a b c d e f
  decide

private theorem unarmor_armourGroups {bits : List Bool} (whole : bits.length % 6 = 0) :
    Payload.unarmor (armourGroups bits) = bits := by
  induction bits using armourGroups.induct with
  | case1 a b c d e f rest ih =>
    have shorter : rest.length % 6 = 0 := by
      simp only [List.length_cons] at whole
      omega
    rw [armourGroups, Payload.unarmor, List.flatMap_cons, sixbit_armourChar]
    have tail := ih shorter
    rw [Payload.unarmor] at tail
    rw [tail]
    rfl
  -- fewer than six bits are left over, and six divides their number
  | case2 bits short =>
    have empty : bits = [] := by
      rcases bits with _ | ⟨a, _ | ⟨b, _ | ⟨c, _ | ⟨d, _ | ⟨e, _ | ⟨f, rest⟩⟩⟩⟩⟩⟩
      case cons.cons.cons.cons.cons.cons => exact absurd rfl (short a b c d e f rest)
      all_goals simp at whole ⊢
    subst empty
    rfl

private theorem fillDrop_ofNat {k : Nat} (small : k < 6) (size : Nat) :
    Payload.fillDrop (Int32.ofNat k) size = min k size := by
  interval_cases k <;> rfl

/-- What the receiver makes of some bits that were sent as armoured text. -/
def received (bits : List Bool) (fill : Nat → Bool) : Payload :=
  Payload.ofArmored (armour bits fill) (Int32.ofNat (fillCount bits))

/-- The constructor of `Payload` recovers the bits that were armoured. -/
theorem received_eq (bits : List Bool) (fill : Nat → Bool) : received bits fill = ⟨bits⟩ := by
  have size : (bits ++ (List.range (fillCount bits)).map fill).length =
      bits.length + fillCount bits := by simp
  have whole : (bits ++ (List.range (fillCount bits)).map fill).length % 6 = 0 := by
    rw [size, fillCount]
    omega
  have small : fillCount bits < 6 := Nat.mod_lt _ (by omega)
  simp only [received, Payload.ofArmored, armour, unarmor_armourGroups whole, fillDrop_ofNat small, size]
  rw [min_eq_left (by omega), Nat.add_sub_cancel, List.take_left]

/-! ### Fields as chunks of the bits -/

section Chunks

variable {chunks : List (List Bool)} {widths : List Nat} {start : Nat}

/-- Reading the number that is chunk `k`. -/
theorem uintAt_chunk {w : Nat} {v : BitVec w} (layout : chunks.map List.length = widths) (k : Nat)
    (found : chunks[k]? = some (ofBitVec v)) (offset : (widths.take k).sum = start) :
    (Payload.mk chunks.flatten).uintAt start w = UInt64.ofNat v.toNat := by
  rw [Payload.uintAt, window_flatten layout k found (length_ofBitVec v) offset, value_ofBitVec]

/-- Reading the signed number that is chunk `k`. -/
theorem intAt_chunk {w : Nat} {v : BitVec w} (layout : chunks.map List.length = widths) (k : Nat)
    (found : chunks[k]? = some (ofBitVec v)) (offset : (widths.take k).sum = start) :
    (Payload.mk chunks.flatten).intAt start w = Int64.ofInt v.toInt := by
  rw [Payload.intAt, window_flatten layout k found (length_ofBitVec v) offset, signedValue_ofBitVec]

end Chunks

/-! ### Numbers of a field's width in 64 bits -/

section Widths

variable {w : Nat} {β : Type}

theorem toNat_ofNat_toNat (narrow : w ≤ 64) (v : BitVec w) :
    (UInt64.ofNat v.toNat).toNat = v.toNat := by
  have bound := Nat.pow_le_pow_right (show 0 < 2 by omega) narrow
  rw [UInt64.toNat_ofNat', Nat.mod_eq_of_lt (lt_of_lt_of_le v.isLt bound)]

theorem toInt_ofInt_toInt (narrow : w ≤ 64) (v : BitVec w) :
    (Int64.ofInt v.toInt).toInt = v.toInt := by
  have low := v.le_toInt
  have high : v.toInt < 2 ^ (w - 1) := v.toInt_lt
  have bound : (2 : Int) ^ (w - 1) ≤ 2 ^ 63 := by
    exact_mod_cast Nat.pow_le_pow_right (show 0 < 2 by omega) (show w - 1 ≤ 63 by omega)
  exact Int64.toInt_ofInt_of_le (by omega) (by omega)

/-- A comparison of fields may be made before or after widening them. -/
theorem ofNat_toNat_inj (narrow : w ≤ 64) {v v' : BitVec w} :
    UInt64.ofNat v.toNat = UInt64.ofNat v'.toNat ↔ v = v' := by
  rw [← UInt64.toNat_inj, toNat_ofNat_toNat narrow, toNat_ofNat_toNat narrow, BitVec.toNat_inj]

theorem ofInt_toInt_inj (narrow : w ≤ 64) {v v' : BitVec w} :
    Int64.ofInt v.toInt = Int64.ofInt v'.toInt ↔ v = v' := by
  rw [← Int64.toInt_inj, toInt_ofInt_toInt narrow, toInt_ofInt_toInt narrow, BitVec.toInt_inj]

theorem reported_ofNat (narrow : w ≤ 64) (v notAvailable : BitVec w) (value : β) :
    reported (UInt64.ofNat v.toNat) (UInt64.ofNat notAvailable.toNat) value =
      reported v notAvailable value := by
  simp only [reported, ne_eq, ofNat_toNat_inj narrow]

theorem reported_ofInt (narrow : w ≤ 64) (v notAvailable : BitVec w) (value : β) :
    reported (Int64.ofInt v.toInt) (Int64.ofInt notAvailable.toInt) value =
      reported v notAvailable value := by
  simp only [reported, ne_eq, ofInt_toInt_inj narrow]

end Widths

/-! ### Text fields -/

/-- The six-bit code of a character. -/
def sixbitCode (c : UInt8) : BitVec 6 := BitVec.ofNat 6 (sixbitTextAlphabet.idxOf c)

theorem sixbitChar_sixbitCode {c : UInt8} (known : c ∈ sixbitTextAlphabet) :
    Payload.sixbitChar (sixbitCode c).toNat = c := by
  have inside := List.idxOf_lt_length_of_mem known
  have size : sixbitTextAlphabet.length = 64 := by decide
  have small : sixbitTextAlphabet.idxOf c % 2 ^ 6 = sixbitTextAlphabet.idxOf c :=
    Nat.mod_eq_of_lt (by omega)
  rw [Payload.sixbitChar, sixbitCode, BitVec.toNat_ofNat, small,
    List.getD_eq_getElem?_getD, List.getElem?_eq_getElem inside, List.getElem_idxOf]
  rfl

/-- A text stored in a field of `size` characters: it has no `@` and no trailing space, and
the rest of the field is spaces, or an `@` and anything. -/
structure SixbitText (size : Nat) where
  text : Bytes
  filling : List (BitVec 6)
  fits : text.length + filling.length = size
  alphabet : ∀ c ∈ text, c ∈ sixbitTextAlphabet
  no_at : '@'.toUInt8 ∉ text
  trimmed : text.getLast? ≠ some ' '.toUInt8
  filled : (∀ code ∈ filling, code = sixbitCode ' '.toUInt8) ∨
    filling.head? = some (sixbitCode '@'.toUInt8)

namespace SixbitText

variable {size : Nat}

def codes (t : SixbitText size) : List (BitVec 6) := t.text.map sixbitCode ++ t.filling

def bits (t : SixbitText size) : List Bool := t.codes.flatMap ofBitVec

private theorem length_flatMap_ofBitVec (codes : List (BitVec 6)) :
    (codes.flatMap fun code => ofBitVec code).length = 6 * codes.length := by
  induction codes with
  | nil => rfl
  | cons code codes ih =>
    rw [List.flatMap_cons, List.length_append, length_ofBitVec, ih, List.length_cons]
    ring

@[simp] theorem length_bits (t : SixbitText size) : t.bits.length = 6 * size := by
  rw [bits, length_flatMap_ofBitVec, codes, List.length_append, List.length_map, t.fits]

private theorem charsAt_codes {payload : Payload} (codes : List (BitVec 6)) {start : Nat}
    (stored : window payload.bits start (6 * codes.length) = codes.flatMap ofBitVec) :
    payload.charsAt start codes.length = codes.map fun code => Payload.sixbitChar code.toNat := by
  induction codes generalizing start with
  | nil => rfl
  | cons code codes ih =>
    have six : 6 * (code :: codes).length = 6 + 6 * codes.length := by
      rw [List.length_cons]
      ring
    rw [six, window_add, List.flatMap_cons] at stored
    -- the field splits where its first code ends
    have head : (window payload.bits start 6).length = (ofBitVec code).length := by
      have whole := congrArg List.length stored
      simp only [window, List.length_append, List.length_take, List.length_drop, length_ofBitVec,
        length_flatMap_ofBitVec] at whole ⊢
      omega
    obtain ⟨first, rest⟩ := List.append_inj stored head
    simp [Payload.charsAt, first, ih rest]

private theorem sixbitChar_text (t : SixbitText size) :
    (t.text.map sixbitCode).map (fun code => Payload.sixbitChar code.toNat) = t.text := by
  rw [List.map_map]
  conv_rhs => rw [← List.map_id t.text]
  apply List.map_congr_left
  intro c member
  exact sixbitChar_sixbitCode (t.alphabet c member)

/-- What the decoder keeps of the characters of the field. -/
private theorem erase_chars (t : SixbitText size) :
    Payload.eraseTrailingSpaces ((t.codes.map fun code =>
      Payload.sixbitChar code.toNat).takeWhile (· ≠ '@'.toUInt8)) = t.text := by
  rw [codes, List.map_append, sixbitChar_text]
  -- padding by spaces is erased; an `@` cuts off whatever follows it
  rcases t.filled with spaces | ended
  · have blank : t.filling.map (fun code => Payload.sixbitChar code.toNat) =
        List.replicate t.filling.length ' '.toUInt8 := by
      rw [List.eq_replicate_iff]
      refine ⟨by simp, ?_⟩
      intro c member
      obtain ⟨code, inside, rfl⟩ := List.mem_map.mp member
      rw [spaces code inside]
      decide
    have no_at : '@'.toUInt8 ∉ t.text ++ List.replicate t.filling.length ' '.toUInt8 := by
      rw [List.mem_append, not_or]
      exact ⟨t.no_at, fun member => absurd (List.eq_of_mem_replicate member) (by decide)⟩
    rw [blank, takeWhile_ne_of_not_mem no_at, Payload.eraseTrailingSpaces_append _ t.trimmed]
  · obtain ⟨rest, split⟩ := List.head?_eq_some_iff.mp ended
    have at_sign : Payload.sixbitChar (sixbitCode '@'.toUInt8).toNat = '@'.toUInt8 := by decide
    rw [split, List.map_cons, at_sign, takeWhile_ne_append_cons _ t.no_at]
    simpa using Payload.eraseTrailingSpaces_append 0 t.trimmed

/-- Reading the text that is chunk `k`. -/
theorem textAt_chunk {chunks : List (List Bool)} {widths : List Nat} {start length : Nat}
    (t : SixbitText size) (layout : chunks.map List.length = widths) (k : Nat)
    (found : chunks[k]? = some t.bits) (width : length = 6 * size)
    (offset : (widths.take k).sum = start) :
    (Payload.mk chunks.flatten).textAt start length = t.text := by
  have count : t.codes.length = size := by
    rw [codes, List.length_append, List.length_map, t.fits]
  have stored := window_flatten layout k found (t.length_bits.trans (congrArg (6 * ·) count.symm)) offset
  subst width
  have chars := @charsAt_codes ⟨chunks.flatten⟩ t.codes start stored
  rw [count] at chars
  rw [Payload.textAt, Nat.mul_div_cancel_left _ (by omega), chars, erase_chars]

end SixbitText

end Ais
