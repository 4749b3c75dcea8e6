import AisPipeline.Decoder.Sentence

/-!
# Writing sentences

The text of a sentence with given fields and a correct checksum, and the proof
that the constructor of `Sentence` reads the same fields back.
-/
namespace Ais

open Cpp

/-! ### Numbers as text -/

def digitChar (d : Nat) : UInt8 := UInt8.ofNat (48 + d)

/-- The shortest decimal form of an `int`. -/
def decimal (n : Int32) : Bytes :=
  let digits := (Numeral.write 10 n.toInt.natAbs).map digitChar
  if n.toInt < 0 then '-'.toUInt8 :: digits else digits

/-- A hexadecimal digit, letters in upper or lower case. -/
def hexChar (upper : Bool) (d : Nat) : UInt8 :=
  if d < 10 then digitChar d else UInt8.ofNat (if upper then 55 + d else 87 + d)

def hexPair (upper : Bool) (sum : UInt8) : Bytes :=
  [hexChar upper (sum.toNat / 16), hexChar upper (sum.toNat % 16)]

private theorem digitValue_digitChar {d : Nat} (small : d < 10) :
    digitValue 10 (digitChar d) = some d := by
  interval_cases d <;> decide

private theorem digitValue_hexChar (upper : Bool) {d : Nat} (small : d < 16) :
    digitValue 16 (hexChar upper d) = some d := by
  cases upper <;> interval_cases d <;> decide

private theorem digitRun_write (n : Nat) {rest : Bytes}
    (stop : ∀ c ∈ rest.head?, digitValue 10 c = none) :
    digitRun 10 ((Numeral.write 10 n).map digitChar ++ rest) = Numeral.write 10 n := by
  apply digitRun_append _ stop
  rw [List.map_map]
  apply List.map_congr_left
  intro d member
  exact digitValue_digitChar (Numeral.lt_of_mem_write (by norm_num) member)

private theorem digitChar_range {d : Nat} (small : d < 10) :
    digitChar d ≠ '-'.toUInt8 ∧ digitChar d ≠ ','.toUInt8 ∧ digitChar d ≠ '*'.toUInt8 := by
  interval_cases d <;> decide

private theorem mem_decimal {n : Int32} {c : UInt8} (member : c ∈ decimal n) :
    c ≠ ','.toUInt8 ∧ c ≠ '*'.toUInt8 := by
  have digits {c : UInt8} (h : c ∈ (Numeral.write 10 n.toInt.natAbs).map digitChar) :
      c ≠ ','.toUInt8 ∧ c ≠ '*'.toUInt8 := by
    obtain ⟨d, written, rfl⟩ := List.mem_map.mp h
    exact (digitChar_range (Numeral.lt_of_mem_write (by norm_num) written)).2
  simp only [decimal] at member
  split at member
  · rcases List.mem_cons.mp member with rfl | h
    · decide
    · exact digits h
  · exact digits member

theorem decimal_ne_nil (n : Int32) : decimal n ≠ [] := by
  simp only [decimal]
  split
  · simp
  · simpa using Numeral.write_ne_nil 10 n.toInt.natAbs

/-- Reading a number back, whatever follows it that is not a digit. -/
theorem fromCharsInt_decimal (n : Int32) {rest : Bytes}
    (stop : ∀ c ∈ rest.head?, digitValue 10 c = none) (old : Int32) :
    fromCharsInt (decimal n ++ rest) old = (n, .ok) := by
  have low := n.le_toInt
  have high := n.toInt_lt
  have run := digitRun_write n.toInt.natAbs stop
  by_cases negative : n.toInt < 0
  · have back : -(n.toInt.natAbs : Int) = n.toInt := by omega
    simp only [fromCharsInt, decimal, negative, if_true, List.cons_append, List.head?_cons,
      List.tail_cons, run, Numeral.value_write, Numeral.write_ne_nil, if_false, back]
    rw [if_pos ⟨low, high⟩, Int32.ofInt_toInt]
  -- without a sign the first character is a digit, so it is not taken for one
  · have back : (n.toInt.natAbs : Int) = n.toInt := by omega
    have unsigned : ((Numeral.write 10 n.toInt.natAbs).map digitChar ++ rest).head? ≠
        some '-'.toUInt8 := by
      obtain ⟨d, digits, written⟩ := List.exists_cons_of_ne_nil
        (Numeral.write_ne_nil 10 n.toInt.natAbs)
      have first : d ∈ Numeral.write 10 n.toInt.natAbs := by simp [written]
      have small : d < 10 := Numeral.lt_of_mem_write (by norm_num) first
      simpa [written] using (digitChar_range small).1
    simp only [fromCharsInt, decimal, negative, if_false, unsigned, run, Numeral.value_write,
      Numeral.write_ne_nil, back]
    rw [if_pos ⟨low, high⟩, Int32.ofInt_toInt]

theorem fromCharsInt_whole (n old : Int32) : fromCharsInt (decimal n) old = (n, .ok) := by
  have read := @fromCharsInt_decimal n [] (by simp) old
  rwa [List.append_nil] at read

theorem fromCharsHex_pair (high low : Bool) (sum : UInt8) (old : UInt32) :
    fromCharsHex [hexChar high (sum.toNat / 16), hexChar low (sum.toNat % 16)] old =
      (sum.toUInt32, .ok) := by
  have small := sum.toNat_lt
  have run : digitRun 16 ([hexChar high (sum.toNat / 16), hexChar low (sum.toNat % 16)] ++ []) =
      [sum.toNat / 16, sum.toNat % 16] := by
    apply digitRun_append _ (by simp)
    simp [digitValue_hexChar high (show sum.toNat / 16 < 16 by omega),
      digitValue_hexChar low (show sum.toNat % 16 < 16 by omega)]
  have value : Numeral.value 16 [sum.toNat / 16, sum.toNat % 16] = sum.toNat := by
    simp only [Numeral.value, List.foldl_cons, List.foldl_nil]
    omega
  rw [List.append_nil] at run
  simp only [fromCharsHex, run, value]
  rw [if_neg (by simp), if_pos (by omega)]
  exact Prod.ext (UInt32.toNat_inj.mp (by simp)) rfl

/-! ### Sentences as text -/

/-- What a written sentence says, how its checksum is written and what follows it. -/
structure SentenceText where
  talker : Bytes
  fragmentCount : Int32
  fragmentNumber : Int32
  sequenceId : Option Int32
  channel : Bytes
  payload : Bytes
  fillBits : Int32
  upper : Bool := true
  trailing : Bytes := []

namespace SentenceText

/-- The free texts contain no delimiter. -/
structure Clean (t : SentenceText) : Prop where
  talker_comma : ','.toUInt8 ∉ t.talker
  talker_star : '*'.toUInt8 ∉ t.talker
  channel_comma : ','.toUInt8 ∉ t.channel
  channel_star : '*'.toUInt8 ∉ t.channel
  payload_comma : ','.toUInt8 ∉ t.payload
  payload_star : '*'.toUInt8 ∉ t.payload

/-- The fields; what follows the last comma ends in `rest`. -/
def fields (t : SentenceText) (rest : Bytes) : Sentence.Fields where
  talker := '!'.toUInt8 :: t.talker
  count := decimal t.fragmentCount
  number := decimal t.fragmentNumber
  seq := (t.sequenceId.map decimal).getD []
  channel := t.channel
  payload := t.payload
  rest := decimal t.fillBits ++ rest

/-- Everything before the `*`. -/
def body (t : SentenceText) : Bytes := (t.fields []).join

def write (t : SentenceText) : Bytes :=
  t.body ++ '*'.toUInt8 :: (hexPair t.upper (Sentence.checksum t.body) ++ t.trailing)

/-- The same text with the case of each checksum digit chosen on its own. -/
def writeCased (t : SentenceText) (high low : Bool) : Bytes :=
  t.body ++ '*'.toUInt8 :: (hexChar high ((Sentence.checksum t.body).toNat / 16) ::
    hexChar low ((Sentence.checksum t.body).toNat % 16) :: t.trailing)

/-- The sentence the constructor makes of it. -/
def sentence (t : SentenceText) : Sentence where
  text := t.write
  isValid := true
  isWellFormed := true
  fragmentCount := t.fragmentCount
  fragmentNumber := t.fragmentNumber
  sequenceId := t.sequenceId
  channel := t.channel
  payload := t.payload
  fillBits := t.fillBits

private theorem body_eq_join (t : SentenceText) (after : Bytes) :
    t.body ++ '*'.toUInt8 :: after = (t.fields ('*'.toUInt8 :: after)).join := by
  simp [body, fields, Sentence.Fields.join]

private theorem mem_seq {id : Option Int32} {c : UInt8} (member : c ∈ (id.map decimal).getD []) :
    c ≠ ','.toUInt8 ∧ c ≠ '*'.toUInt8 := by
  cases id with
  | none => simp at member
  | some n => exact mem_decimal member

private theorem fields_commaFree {t : SentenceText} (clean : t.Clean) (rest : Bytes) :
    (t.fields rest).CommaFree where
  talker := by
    rw [fields, List.mem_cons, not_or]
    exact ⟨by decide, clean.talker_comma⟩
  count member := (mem_decimal member).1 rfl
  number member := (mem_decimal member).1 rfl
  seq member := (mem_seq member).1 rfl
  channel := clean.channel_comma
  payload := clean.payload_comma

private theorem star_not_mem_body {t : SentenceText} (clean : t.Clean) : '*'.toUInt8 ∉ t.body := by
  have no_comma : '*'.toUInt8 ≠ ','.toUInt8 := by decide
  have number (n : Int32) : '*'.toUInt8 ∉ decimal n := fun member => (mem_decimal member).2 rfl
  have seq : '*'.toUInt8 ∉ (t.sequenceId.map decimal).getD [] := fun member => (mem_seq member).2 rfl
  simp only [body, fields, Sentence.Fields.join, List.mem_append, List.mem_cons, List.append_nil,
    not_or]
  exact ⟨⟨by decide, clean.talker_star⟩, no_comma, number _, no_comma, number _, no_comma, seq,
    no_comma, clean.channel_star, no_comma, clean.payload_star, no_comma, number _⟩

private theorem sequenceIdOf_decimal (id : Option Int32) :
    Sentence.sequenceIdOf ((id.map decimal).getD []) = id := by
  cases id with
  | none => rfl
  | some n =>
    simp [Sentence.sequenceIdOf, decimal_ne_nil, fromCharsInt_whole]

/-- The constructor reads back what was written, in whatever case the checksum is. -/
theorem ofText_writeCased {t : SentenceText} (clean : t.Clean) (high low : Bool) :
    Sentence.ofText (t.writeCased high low) =
      .ok { t.sentence with text := t.writeCased high low } := by
  have checked : Sentence.checkValid (t.writeCased high low) = .ok true := by
    rw [writeCased, Sentence.checkValid_of_star (star_not_mem_body clean), Sentence.checksumMatches,
      List.take_succ_cons, List.take_succ_cons, List.take_zero, fromCharsHex_pair]
    simp
  rw [writeCased, body_eq_join] at checked ⊢
  rw [Sentence.ofText_join (fields_commaFree clean _) checked]
  -- the fill bits are followed by the star, where the number ends
  have fill (after : Bytes) : fromCharsInt (decimal t.fillBits ++ '*'.toUInt8 :: after) 0 =
      (t.fillBits, .ok) := by
    refine fromCharsInt_decimal t.fillBits ?_ 0
    rintro c ⟨⟩
    decide
  simp only [sentence, fields, fromCharsInt_whole, sequenceIdOf_decimal, fill]

theorem ofText_write {t : SentenceText} (clean : t.Clean) :
    Sentence.ofText t.write = .ok t.sentence :=
  ofText_writeCased clean t.upper t.upper

/-- Parsing undoes writing, whatever the texts, the numbers, the case of the checksum and what
follows it. -/
theorem parse_undoes_write (t : SentenceText) (clean : t.Clean) (high low : Bool) :
    ∃ sentence, Sentence.ofText (t.writeCased high low) = .ok sentence ∧
      sentence.isValid = true ∧ sentence.isWellFormed = true ∧
      sentence.fragmentCount = t.fragmentCount ∧ sentence.fragmentNumber = t.fragmentNumber ∧
      sentence.sequenceId = t.sequenceId ∧ sentence.channel = t.channel ∧
      sentence.payload = t.payload ∧ sentence.fillBits = t.fillBits :=
  ⟨_, ofText_writeCased clean high low, rfl, rfl, rfl, rfl, rfl, rfl, rfl, rfl⟩

/-- Extreme numbers, an empty channel and a line end after a checksum in mixed case. -/
def extremeText : SentenceText where
  talker := "AIVDM".toList.map Char.toUInt8
  fragmentCount := Int32.minValue
  fragmentNumber := Int32.maxValue
  sequenceId := some (-1)
  channel := []
  payload := "w0".toList.map Char.toUInt8
  fillBits := 0
  trailing := [','.toUInt8, 13]

theorem parse_undoes_write_extreme :
    ∃ sentence, Sentence.ofText (extremeText.writeCased true false) = .ok sentence ∧
      sentence.isValid = true ∧ sentence.isWellFormed = true ∧
      sentence.fragmentCount = -2147483648 ∧ sentence.fragmentNumber = 2147483647 ∧
      sentence.sequenceId = some (-1) ∧ sentence.channel = [] ∧
      sentence.payload = extremeText.payload ∧ sentence.fillBits = 0 :=
  parse_undoes_write extremeText
    ⟨by decide, by decide, by decide, by decide, by decide, by decide⟩ true false

end SentenceText

end Ais
