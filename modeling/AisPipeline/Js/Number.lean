import AisPipeline.Js.Text

/-!
# Numbers as JavaScript writes them

`toFixed` of a finite number below 10 to the 21, and what `Number` reads back.
-/
namespace Js

open Cpp (Double)

def digitUnit (d : Nat) : UInt16 := UInt16.ofNat (48 + d)

/-- `String(n)` of a whole number. -/
def wholeText (n : Nat) : Text := (Numeral.write 10 n).map digitUnit

/-- `String(n)` of an integer. -/
def integerText (n : Int) : Text := (if n < 0 then [45] else []) ++ wholeText n.natAbs

/-- The whole number nearest to `x * 10 ** digits`, the larger one of two. -/
def scaledTo (digits : Nat) (x : ℚ) : Nat := ⌊x * (10 ^ digits : Nat) + 1 / (2 : Nat)⌋.toNat

/-- At least one digit more than stand behind the point. -/
def padded (digits n : Nat) : List Nat :=
  let written := Numeral.write 10 n
  List.replicate (digits + 1 - written.length) 0 ++ written

/-- `x.toFixed(digits)`. -/
def toFixed (digits : Nat) (x : ℚ) : Text :=
  let text := padded digits (scaledTo digits |x|)
  let whole := text.take (text.length - digits)
  let fraction := text.drop (text.length - digits)
  (if x < 0 then [45] else []) ++ whole.map digitUnit ++
    if digits = 0 then [] else 46 :: fraction.map digitUnit

/-! ### Reading digits -/

/-- What a digit is not. -/
structure Plain (c : UInt16) : Prop where
  space : isSpace c = false
  sign : c ≠ 45 ∧ c ≠ 43
  point : c ≠ 46
  letter : c < 58

theorem plain_digitUnit {d : Nat} (digit : d < 10) : Plain (digitUnit d) := by
  have all : ∀ d : Fin 10, isSpace (digitUnit d) = false ∧ (digitUnit d ≠ 45 ∧ digitUnit d ≠ 43) ∧
      digitUnit d ≠ 46 ∧ digitUnit d < 58 := by decide
  obtain ⟨space, sign, point, letter⟩ := all ⟨d, digit⟩
  exact ⟨space, sign, point, letter⟩

theorem digitValue_digitUnit {d : Nat} (digit : d < 10) : digitValue 10 (digitUnit d) = some d := by
  have all : ∀ d : Fin 10, digitValue 10 (digitUnit d) = some d.val := by decide
  exact all ⟨d, digit⟩

theorem digits_map {ds : List Nat} (some_digit : ds ≠ []) (small : ∀ d ∈ ds, d < 10) :
    digits 10 (ds.map digitUnit) = some (Numeral.value 10 ds) := by
  have read : (ds.map digitUnit).mapM (digitValue 10) = some ds := by
    clear some_digit
    induction ds with
    | nil => rfl
    | cons d ds ih =>
      rw [List.map_cons, List.mapM_cons, digitValue_digitUnit (small d List.mem_cons_self),
        ih fun e later => small e (List.mem_cons_of_mem d later)]
      rfl
  rw [digits, if_neg (by simpa using some_digit), read, Option.map_some]

theorem digits_wholeText (n : Nat) : digits 10 (wholeText n) = some n := by
  rw [wholeText, digits_map (Numeral.write_ne_nil 10 n) fun d => Numeral.lt_of_mem_write (by decide),
    Numeral.value_write]

theorem plain_of_mem_wholeText {n : Nat} {c : UInt16} (member : c ∈ wholeText n) : Plain c := by
  obtain ⟨d, digit, rfl⟩ := List.mem_map.mp member
  exact plain_digitUnit (Numeral.lt_of_mem_write (by decide) digit)

/-- An integer is written with digits and a minus sign. -/
theorem low_of_mem_integerText {n : Int} {c : UInt16} (member : c ∈ integerText n) : c < 58 := by
  rcases List.mem_append.mp member with sign | digit
  · split at sign
    · rw [List.mem_singleton.mp sign]
      decide
    · cases sign
  · exact (plain_of_mem_wholeText digit).letter

theorem integerText_injective : Function.Injective integerText := by
  intro n m same
  have magnitudes {n m : Int} (same : wholeText n.natAbs = wholeText m.natAbs) : n.natAbs = m.natAbs := by
    have read := congrArg (digits 10) same
    rwa [digits_wholeText, digits_wholeText, Option.some.injEq] at read
  -- no number without a sign starts like one with it
  have apart {n m : Nat} : [45] ++ wholeText n ≠ wholeText m := by
    intro same
    have member : 45 ∈ wholeText m := same ▸ List.mem_append_left _ List.mem_cons_self
    exact absurd rfl (plain_of_mem_wholeText member).sign.1
  rw [integerText, integerText] at same
  by_cases low : n < 0
  · by_cases low' : m < 0
    · rw [if_pos low, if_pos low'] at same
      have := magnitudes (List.append_cancel_left same)
      omega
    · rw [if_pos low, if_neg low', List.nil_append] at same
      exact absurd same apart
  · by_cases low' : m < 0
    · rw [if_neg low, if_pos low', List.nil_append] at same
      exact absurd same.symm apart
    · rw [if_neg low, if_neg low'] at same
      have := magnitudes (List.append_cancel_left same)
      omega

theorem cutAt_none {test : UInt16 → Bool} {text : Text} (absent : ∀ c ∈ text, test c = false) :
    cutAt test text = (text, none) := by
  have dropped : text.dropWhile (fun c => !test c) = [] :=
    List.dropWhile_eq_nil_iff.mpr fun c member => by rw [absent c member]; rfl
  rw [cutAt, dropped]

theorem cutAt_some {test : UInt16 → Bool} {before after : Text} {c : UInt16}
    (absent : ∀ d ∈ before, test d = false) (here : test c = true) :
    cutAt test (before ++ c :: after) = (before, some after) := by
  have passed : ∀ d ∈ before, (!test d) = true := fun d member => by rw [absent d member]; rfl
  rw [cutAt, List.dropWhile_append_of_pos passed, List.takeWhile_append_of_pos passed,
    List.dropWhile_cons_of_neg (by simp [here]), List.takeWhile_cons_of_neg (by simp [here]),
    List.append_nil]

theorem trim_of_no_space {text : Text} (absent : ∀ c ∈ text, isSpace c = false) : trim text = text := by
  have kept (text : Text) (absent : ∀ c ∈ text, isSpace c = false) : text.dropWhile isSpace = text := by
    cases text with
    | nil => rfl
    | cons c text => exact List.dropWhile_cons_of_neg (by simp [absent c List.mem_cons_self])
  rw [trim, kept text absent, kept _ fun c member => absent c (List.mem_reverse.mp member),
    List.reverse_reverse]

/-- Digits, a point and a minus sign at most. -/
def NumeralUnit (c : UInt16) : Prop := Plain c ∨ c = 46 ∨ c = 45

private theorem NumeralUnit.space {c : UInt16} (unit : NumeralUnit c) : isSpace c = false := by
  rcases unit with plain | rfl | rfl
  · exact plain.space
  · decide
  · decide

private theorem NumeralUnit.low {c : UInt16} (unit : NumeralUnit c) : c < 58 := by
  rcases unit with plain | rfl | rfl
  · exact plain.letter
  · decide
  · decide

/-- A decimal fraction without an exponent. -/
theorem decimal_numeral {whole fraction : List Nat} (some_digit : whole ≠ [])
    (small : ∀ d ∈ whole ++ fraction, d < 10) :
    decimal (whole.map digitUnit ++ if fraction = [] then [] else 46 :: fraction.map digitUnit) =
      some ((Numeral.value 10 (whole ++ fraction) : ℚ) / 10 ^ fraction.length) := by
  have plain (d : Nat) (member : d ∈ whole ++ fraction) : Plain (digitUnit d) :=
    plain_digitUnit (small d member)
  have no_point : ∀ c ∈ whole.map digitUnit, decide (c = 46) = false := by
    intro c member
    obtain ⟨d, digit, rfl⟩ := List.mem_map.mp member
    simpa using (plain d (List.mem_append_left _ digit)).point
  have no_exponent : ∀ c ∈ whole.map digitUnit ++ (if fraction = [] then [] else 46 :: fraction.map digitUnit),
      decide (c = 101 ∨ c = 69) = false := by
    intro c member
    have low : c < 58 := by
      rcases List.mem_append.mp member with front | back
      · obtain ⟨d, digit, rfl⟩ := List.mem_map.mp front
        exact (plain d (List.mem_append_left _ digit)).letter
      · split at back
        · cases back
        · rcases List.mem_cons.mp back with rfl | back
          · decide
          · obtain ⟨d, digit, rfl⟩ := List.mem_map.mp back
            exact (plain d (List.mem_append_right _ digit)).letter
    rw [decide_eq_false_iff_not]
    rintro (rfl | rfl)
    · exact absurd low (by decide)
    · exact absurd low (by decide)
  have read := digits_map (List.append_ne_nil_of_left_ne_nil some_digit fraction) small
  rw [List.map_append] at read
  simp only [decimal, cutAt_none no_exponent]
  by_cases without : fraction = []
  · subst without
    rw [List.map_nil, List.append_nil] at read
    simp only [if_true, List.append_nil, cutAt_none no_point]
    simp [read]
  · rw [if_neg without, cutAt_some no_point (by decide)]
    simp [read, div_eq_mul_inv]

theorem number_numeral (nearest : ℚ → Double) (negative : Bool) {whole fraction : List Nat}
    (some_digit : whole ≠ []) (small : ∀ d ∈ whole ++ fraction, d < 10) :
    number nearest ((if negative then [45] else []) ++ (whole.map digitUnit ++
        if fraction = [] then [] else 46 :: fraction.map digitUnit)) =
      nearest (if negative then -((Numeral.value 10 (whole ++ fraction) : ℚ) / 10 ^ fraction.length)
        else (Numeral.value 10 (whole ++ fraction) : ℚ) / 10 ^ fraction.length) := by
  have read := decimal_numeral some_digit small
  obtain ⟨d, ds, rfl⟩ := List.exists_cons_of_ne_nil some_digit
  have first : Plain (digitUnit d) := plain_digitUnit (small d (by simp))
  generalize unsigned : (d :: ds).map digitUnit ++
    (if fraction = [] then [] else 46 :: fraction.map digitUnit) = text at read ⊢
  have units_ : ∀ c ∈ text, NumeralUnit c := by
    intro c member
    rw [← unsigned] at member
    rcases List.mem_append.mp member with front | back
    · obtain ⟨e, digit, rfl⟩ := List.mem_map.mp front
      exact .inl (plain_digitUnit (small e (List.mem_append_left _ digit)))
    · split at back
      · cases back
      · rcases List.mem_cons.mp back with rfl | back
        · exact .inr (.inl rfl)
        · obtain ⟨e, digit, rfl⟩ := List.mem_map.mp back
          exact .inl (plain_digitUnit (small e (List.mem_append_right _ digit)))
  obtain ⟨rest, starts⟩ : ∃ rest, text = digitUnit d :: rest := ⟨_, unsigned.symm⟩
  have all : ∀ c ∈ (if negative then [45] else []) ++ text, NumeralUnit c := by
    intro c member
    rcases List.mem_append.mp member with sign | unit
    · split at sign
      · exact .inr (.inr (List.mem_singleton.mp sign))
      · cases sign
    · exact units_ c unit
  have whole_word := trim_of_no_space fun c member => (all c member).space
  have signed : takeSign ((if negative then [45] else []) ++ text) = (negative, text) := by
    cases negative with
    | true => rfl
    | false => simp [starts, takeSign, first.sign]
  have some_word : (if negative then [45] else []) ++ text ≠ [] := by simp [starts]
  -- a base or a name needs a letter
  have no_base (base : Text) (letter : ∃ c ∈ base, ¬ c < 58) :
      ((if negative then [45] else []) ++ text).take 2 ≠ base := by
    rintro rfl
    obtain ⟨c, member, letter⟩ := letter
    exact letter (all c (List.mem_of_mem_take member)).low
  have no_name : text ≠ units "Infinity" := by
    intro named
    have letter := (units_ 73 (by rw [named]; decide)).low
    exact absurd letter (by decide)
  have no_bases (lower upper : Text) (letters : (∃ c ∈ lower, ¬ c < 58) ∧ ∃ c ∈ upper, ¬ c < 58) :
      ¬ (((if negative then [45] else []) ++ text).take 2 = lower ∨
        ((if negative then [45] else []) ++ text).take 2 = upper) :=
    not_or.mpr ⟨no_base lower letters.1, no_base upper letters.2⟩
  rw [number, whole_word]
  simp only [if_neg some_word, signed, if_neg no_name, read]
  rw [if_neg (no_bases (units "0x") (units "0X") (by decide)),
    if_neg (no_bases (units "0o") (units "0O") (by decide)),
    if_neg (no_bases (units "0b") (units "0B") (by decide))]

/-! ### Reading back -/

/-- The number `toFixed` writes. -/
def fixed (digits : Nat) (x : ℚ) : ℚ :=
  if x < 0 then -((scaledTo digits |x| : ℚ) / 10 ^ digits) else (scaledTo digits |x| : ℚ) / 10 ^ digits

theorem value_padded (digits n : Nat) : Numeral.value 10 (padded digits n) = n := by
  have zeros (count : Nat) :
      (List.replicate count 0).foldl (fun acc d => acc * 10 + d) 0 = 0 := by
    induction count with
    | zero => rfl
    | succ count ih => rwa [List.replicate_succ, List.foldl_cons]
  rw [padded, Numeral.value, List.foldl_append, zeros]
  exact Numeral.value_write 10 n

theorem padded_small {digits n d : Nat} (member : d ∈ padded digits n) : d < 10 := by
  rcases List.mem_append.mp member with zero | written
  · rw [List.eq_of_mem_replicate zero]
    decide
  · exact Numeral.lt_of_mem_write (by decide) written

theorem lt_length_padded (digits n : Nat) : digits < (padded digits n).length := by
  rw [padded, List.length_append, List.length_replicate]
  omega

theorem number_toFixed (nearest : ℚ → Double) (digits : Nat) (x : ℚ) :
    number nearest (toFixed digits x) = nearest (fixed digits x) := by
  have long := lt_length_padded digits (scaledTo digits |x|)
  have value := value_padded digits (scaledTo digits |x|)
  have small : ∀ d ∈ padded digits (scaledTo digits |x|), d < 10 := fun d member => padded_small member
  rw [toFixed, fixed]
  generalize padded digits (scaledTo digits |x|) = text at long value small
  have split := List.take_append_drop (text.length - digits) text
  have some_digit : text.take (text.length - digits) ≠ [] := by
    rw [ne_eq, List.take_eq_nil_iff, not_or]
    exact ⟨by omega, List.ne_nil_of_length_pos (by omega)⟩
  have behind : (text.drop (text.length - digits)).length = digits := by
    rw [List.length_drop]
    omega
  have pointless : digits = 0 ↔ text.drop (text.length - digits) = [] := by
    rw [← List.length_eq_zero_iff, behind]
  have read := number_numeral nearest (decide (x < 0)) some_digit (by rwa [split])
  rw [split, behind, value] at read
  simp only [decide_eq_true_eq] at read
  rw [← read, List.append_assoc]
  simp only [pointless]

end Js
