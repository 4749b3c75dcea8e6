import AisPipeline.Decoder.Sentence

/-!
# What the checksum protects

Which texts the constructor takes for valid, which corruptions it notices, and
which of the fields it reads the checksum covers.
-/
namespace Ais.Sentence

open Cpp

/-! ### Exactness -/

/-- The sentence of a text is valid exactly when the checksum test says so. -/
theorem ofText_isValid {text : Bytes} {sentence : Sentence} (parsed : ofText text = .ok sentence) :
    checkValid text = .ok sentence.isValid := by
  obtain ⟨valid, checked⟩ := checkValid_returns text
  rw [checked]
  rcases findCommas_cases text with few | ⟨f, free, rfl⟩
  · simp only [ofText, checked, few, bind, Except.bind] at parsed
    cases parsed
    rfl
  · rw [ofText_join free checked] at parsed
    cases parsed
    rfl

theorem ofText_of_checked {text : Bytes} {valid : Bool} (checked : checkValid text = .ok valid) :
    ∃ sentence, ofText text = .ok sentence ∧ sentence.isValid = valid := by
  obtain ⟨sentence, parsed⟩ := ofText_returns text
  refine ⟨sentence, parsed, ?_⟩
  have same := (ofText_isValid parsed).symm.trans checked
  exact Except.ok.inj same

private theorem digitValue_lt {base d : Nat} {c : UInt8} (digit : digitValue base c = some d) :
    d < base := by
  simp only [digitValue, Option.ite_none_right_eq_some, Option.some.injEq] at digit
  obtain ⟨small, rfl⟩ := digit
  exact small

/-- The number `from_chars` makes of two characters, the first a hexadecimal digit of value `h`: a
second one that is no digit is left unread. -/
def readPair (h : Nat) (second : UInt8) : Nat :=
  match digitValue 16 second with
  | some l => 16 * h + l
  | none => h

private theorem readPair_lt {h : Nat} (small : h < 16) (second : UInt8) : readPair h second < 256 := by
  unfold readPair
  split
  next l digit =>
    have l_small := digitValue_lt digit
    omega
  · omega

private theorem fromCharsHex_readPair {first second : UInt8} {h : Nat}
    (digit : digitValue 16 first = some h) (old : UInt32) :
    fromCharsHex [first, second] old = (UInt32.ofNat (readPair h second), .ok) := by
  have small := readPair_lt (digitValue_lt digit) second
  unfold readPair at small ⊢
  cases low : digitValue 16 second with
  | none =>
    simp only [low] at small
    simp only [fromCharsHex, digitRun, digit, low, Numeral.value, List.foldl_cons, List.foldl_nil]
    rw [if_neg (by simp), if_pos (by omega), Nat.zero_mul, Nat.zero_add]
  | some l =>
    simp only [low] at small
    simp only [fromCharsHex, digitRun, digit, low, Numeral.value, List.foldl_cons, List.foldl_nil]
    rw [if_neg (by simp), if_pos (by omega), Nat.zero_mul, Nat.zero_add, Nat.mul_comm]

theorem checksumMatches_iff {sum : UInt8} {after : Bytes} :
    checksumMatches sum after = true ↔
      ∃ first second rest h, after = first :: second :: rest ∧ digitValue 16 first = some h ∧
        readPair h second = sum.toNat := by
  rcases after with _ | ⟨first, _ | ⟨second, rest⟩⟩
  · simp [checksumMatches]
  · simp [checksumMatches]
  rw [checksumMatches, List.take_succ_cons, List.take_succ_cons, List.take_zero]
  cases digit : digitValue 16 first with
  -- no digit to start with is a failed conversion
  | none => simp [fromCharsHex, digitRun, digit]
  | some h =>
    have small := readPair_lt (digitValue_lt digit) second
    have number : sum.toUInt32 = UInt32.ofNat (readPair h second) ↔ readPair h second = sum.toNat := by
      rw [← UInt32.toNat_inj, UInt8.toNat_toUInt32, UInt32.toNat_ofNat', Nat.mod_eq_of_lt (by omega)]
      exact eq_comm
    rw [fromCharsHex_readPair digit]
    simp [digit, number]

/-- What acceptance is meant to be: two hexadecimal digits after the first `*`, which form the XOR
of everything between the first character and the `*`. -/
def ChecksumExact (text : Bytes) : Prop :=
  ∃ body first second rest h l, text = body ++ '*'.toUInt8 :: first :: second :: rest ∧
    '*'.toUInt8 ∉ body ∧ digitValue 16 first = some h ∧ digitValue 16 second = some l ∧
    16 * h + l = (checksum body).toNat

/-- One hexadecimal digit after the first `*`, then a character that is none, and the digit alone
is the XOR. -/
def HalfChecksum (text : Bytes) : Prop :=
  ∃ body first second rest h, text = body ++ '*'.toUInt8 :: first :: second :: rest ∧
    '*'.toUInt8 ∉ body ∧ digitValue 16 first = some h ∧ digitValue 16 second = none ∧
    h = (checksum body).toNat

/-- The first `*` cuts a text in one way only. -/
private theorem star_unique {body body' after after' : Bytes}
    (same : body ++ '*'.toUInt8 :: after = body' ++ '*'.toUInt8 :: after')
    (absent : '*'.toUInt8 ∉ body) (absent' : '*'.toUInt8 ∉ body') : body = body' ∧ after = after' := by
  have left := takeWhile_ne_append_cons after absent
  rw [same, takeWhile_ne_append_cons after' absent'] at left
  subst left
  exact ⟨rfl, (List.cons.inj (List.append_cancel_left same)).2⟩

/-- The constructor accepts exact checksums and half ones. -/
theorem checkValid_iff {text : Bytes} :
    checkValid text = .ok true ↔ ChecksumExact text ∨ HalfChecksum text := by
  by_cases star : '*'.toUInt8 ∈ text
  · obtain ⟨body, after, rfl, absent⟩ := List.eq_append_cons_of_mem star
    rw [checkValid_of_star absent, Except.ok.injEq, checksumMatches_iff]
    constructor
    · rintro ⟨first, second, rest, h, rfl, digit, matched⟩
      unfold readPair at matched
      split at matched
      next l low => exact Or.inl ⟨body, first, second, rest, h, l, rfl, absent, digit, low, matched⟩
      next low => exact Or.inr ⟨body, first, second, rest, h, rfl, absent, digit, low, matched⟩
    · rintro (⟨body', first, second, rest, h, l, same, absent', digit, low, matched⟩ |
        ⟨body', first, second, rest, h, same, absent', digit, low, matched⟩)
      · obtain ⟨rfl, rfl⟩ := star_unique same absent absent'
        exact ⟨first, second, rest, h, rfl, digit, by simp only [readPair, low, matched]⟩
      · obtain ⟨rfl, rfl⟩ := star_unique same absent absent'
        exact ⟨first, second, rest, h, rfl, digit, by simp only [readPair, low, matched]⟩
  · rw [checkValid_of_no_star star]
    constructor
    · simp
    · rintro (⟨body, first, second, rest, h, l, rfl, -⟩ | ⟨body, first, second, rest, h, rfl, -⟩)
      · exact absurd (by simp) star
      · exact absurd (by simp) star

private theorem not_half_of_exact {text : Bytes} (exact_sum : ChecksumExact text) :
    ¬ HalfChecksum text := by
  obtain ⟨body, first, second, rest, h, l, rfl, absent, -, low, -⟩ := exact_sum
  rintro ⟨body', first', second', rest', h', same, absent', -, low', -⟩
  obtain ⟨rfl, after⟩ := star_unique same absent absent'
  obtain ⟨rfl, rest_same⟩ := List.cons.inj after
  obtain ⟨rfl, -⟩ := List.cons.inj rest_same
  rw [low] at low'
  cases low'

/-- `is_valid` is exact on a text unless the text has half a checksum. -/
theorem isValid_exact_iff (text : Bytes) :
    (∃ sentence, ofText text = .ok sentence ∧ (sentence.isValid = true ↔ ChecksumExact text)) ↔
      ¬ HalfChecksum text := by
  constructor
  · rintro ⟨sentence, parsed, exactly⟩ half
    have valid : sentence.isValid = true := by
      have accepted := checkValid_iff.mpr (Or.inr half)
      rw [ofText_isValid parsed] at accepted
      exact Except.ok.inj accepted
    exact not_half_of_exact (exactly.mp valid) half
  · intro whole
    obtain ⟨sentence, parsed⟩ := ofText_returns text
    refine ⟨sentence, parsed, ?_⟩
    have accepted := @checkValid_iff text
    rw [ofText_isValid parsed, Except.ok.injEq, or_iff_left whole] at accepted
    exact accepted

/-- The XOR of this line is 1, and the second digit of its checksum is damaged. -/
def damagedDigit : Bytes := "!AIVDM,1,1,,A,Pw,0*1G".toList.map Char.toUInt8

theorem damagedDigit_accepted :
    ¬ ∃ sentence, ofText damagedDigit = .ok sentence ∧
      (sentence.isValid = true ↔ ChecksumExact damagedDigit) := by
  rintro ⟨sentence, parsed, exactly⟩
  have valid : sentence.isValid = true := by
    have accepted : checkValid damagedDigit = .ok true := by decide
    rw [ofText_isValid parsed] at accepted
    exact Except.ok.inj accepted
  obtain ⟨body, first, second, rest, h, l, same, absent, -, low, -⟩ := exactly.mp valid
  have cut : damagedDigit = "!AIVDM,1,1,,A,Pw,0".toList.map Char.toUInt8 ++ '*'.toUInt8 ::
      [ '1'.toUInt8, 'G'.toUInt8] := by decide
  obtain ⟨-, after⟩ := star_unique (same.symm.trans cut) absent (by decide)
  cases after
  have none_read : digitValue 16 'G'.toUInt8 = none := by decide
  rw [none_read] at low
  cases low

/-! ### Corruption -/

/-- `i` lies strictly between the first character and the first `*`. -/
def Protected (text : Bytes) (i : Nat) : Prop :=
  0 < i ∧ ∃ star, find text '*'.toUInt8 0 = some star ∧ i < star

/-- Characters put in place of others, one after another. -/
def replaceAll (text : Bytes) (edits : List (Nat × UInt8)) : Bytes :=
  edits.foldl (fun text (i, c) => text.set i c) text

/-- The XOR of the old and the new bytes of such replacements. -/
def difference : Bytes → List (Nat × UInt8) → UInt8
  | _, [] => 0
  | text, (i, c) :: edits => text.getD i 0 ^^^ c ^^^ difference (text.set i c) edits

/-- The XOR of a list moves by the old and the new byte. -/
private theorem foldl_xor_set {bytes : Bytes} {i : Nat} (inside : i < bytes.length) (c sum : UInt8) :
    (bytes.set i c).foldl (· ^^^ ·) sum = bytes.foldl (· ^^^ ·) sum ^^^ (bytes.getD i 0 ^^^ c) := by
  have moves (bytes : Bytes) (sum d : UInt8) :
      bytes.foldl (· ^^^ ·) (sum ^^^ d) = bytes.foldl (· ^^^ ·) sum ^^^ d := by
    induction bytes generalizing sum with
    | nil => rfl
    | cons b bytes ih =>
      rw [List.foldl_cons, List.foldl_cons, ← ih, UInt8.xor_assoc, UInt8.xor_comm d b,
        ← UInt8.xor_assoc]
  induction bytes generalizing i sum with
  | nil => cases inside
  | cons b bytes ih =>
    cases i with
    | zero =>
      have swap : sum ^^^ c = sum ^^^ b ^^^ (b ^^^ c) := by
        rw [← UInt8.xor_assoc, UInt8.xor_assoc sum b b, UInt8.xor_self, UInt8.xor_zero]
      rw [List.set_cons_zero, List.foldl_cons, List.foldl_cons, List.getD_cons_zero, swap, moves]
    | succ i =>
      rw [List.set_cons_succ, List.foldl_cons, List.foldl_cons, List.getD_cons_succ]
      exact ih (by simpa using inside) _

private theorem checksum_set {body : Bytes} {i : Nat} (behind : 0 < i) (inside : i < body.length)
    (c : UInt8) : checksum (body.set i c) = checksum body ^^^ (body.getD i 0 ^^^ c) := by
  cases body with
  | nil => cases inside
  | cons b body =>
    obtain ⟨i, rfl⟩ := Nat.exists_eq_succ_of_ne_zero (by omega : i ≠ 0)
    rw [List.set_cons_succ, checksum, checksum, List.tail_cons, List.tail_cons,
      List.getD_cons_succ]
    exact foldl_xor_set (by simpa using inside) c 0

private theorem protected_iff {body after : Bytes} (absent : '*'.toUInt8 ∉ body) {i : Nat} :
    Protected (body ++ '*'.toUInt8 :: after) i ↔ 0 < i ∧ i < body.length := by
  simp [Protected, find_first absent]

private theorem getD_append_left {body after : Bytes} {i : Nat} (inside : i < body.length) :
    (body ++ after).getD i 0 = body.getD i 0 := by
  rw [List.getD_eq_getElem?_getD, List.getElem?_append_left inside, List.getD_eq_getElem?_getD]

/-- Replacements in the protected part leave the first `*` and what follows it where they are, and
move the XOR by their difference. -/
private theorem replaceAll_protected {body after : Bytes} {edits : List (Nat × UInt8)}
    (absent : '*'.toUInt8 ∉ body)
    (inside : ∀ edit ∈ edits, 0 < edit.1 ∧ edit.1 < body.length ∧ edit.2 ≠ '*'.toUInt8) :
    ∃ body', replaceAll (body ++ '*'.toUInt8 :: after) edits = body' ++ '*'.toUInt8 :: after ∧
      '*'.toUInt8 ∉ body' ∧
      checksum body' = checksum body ^^^ difference (body ++ '*'.toUInt8 :: after) edits := by
  induction edits generalizing body with
  | nil => exact ⟨body, rfl, absent, by rw [difference, UInt8.xor_zero]⟩
  | cons edit edits ih =>
    obtain ⟨i, c⟩ := edit
    obtain ⟨behind, before_star, not_star⟩ := inside (i, c) List.mem_cons_self
    have still_absent : '*'.toUInt8 ∉ body.set i c := by
      intro member
      rcases List.mem_or_eq_of_mem_set member with old | new
      · exact absent old
      · exact not_star new.symm
    have still_inside : ∀ edit ∈ edits,
        0 < edit.1 ∧ edit.1 < (body.set i c).length ∧ edit.2 ≠ '*'.toUInt8 := by
      intro edit member
      rw [List.length_set]
      exact inside edit (List.mem_cons_of_mem _ member)
    have first : (body ++ '*'.toUInt8 :: after).set i c = body.set i c ++ '*'.toUInt8 :: after :=
      List.set_append_left i c before_star
    obtain ⟨body', replaced, absent', moved⟩ := ih still_absent still_inside
    refine ⟨body', ?_, absent', ?_⟩
    · rw [← replaced, ← first]
      rfl
    · rw [moved, checksum_set behind before_star, difference, first,
        getD_append_left before_star, UInt8.xor_assoc]

/-- The digits that match one sum match no other. -/
private theorem checksumMatches_unique {sum sum' : UInt8} {after : Bytes}
    (matched : checksumMatches sum after = true) : checksumMatches sum' after = true ↔ sum' = sum := by
  constructor
  · intro matched'
    obtain ⟨first, second, rest, h, rfl, digit, read⟩ := checksumMatches_iff.mp matched
    obtain ⟨_, _, _, h', same, digit', read'⟩ := checksumMatches_iff.mp matched'
    cases same
    obtain rfl : h = h' := Option.some.inj (digit.symm.trans digit')
    exact UInt8.toNat_inj.mp (read'.symm.trans read)
  · rintro rfl
    exact matched

/-- Replacements at different positions meet the bytes of the original text. -/
theorem difference_of_distinct {text : Bytes} {edits : List (Nat × UInt8)}
    (distinct : (edits.map Prod.fst).Nodup) :
    difference text edits = edits.foldr (fun (i, c) sum => text.getD i 0 ^^^ c ^^^ sum) 0 := by
  induction edits generalizing text with
  | nil => rfl
  | cons edit edits ih =>
    obtain ⟨i, c⟩ := edit
    rw [List.map_cons, List.nodup_cons] at distinct
    rw [difference, ih distinct.2, List.foldr_cons]
    congr 1
    apply List.foldr_ext
    rintro ⟨j, d⟩ member sum
    have apart : i ≠ j := by
      rintro rfl
      exact distinct.1 (List.mem_map.mpr ⟨_, member, rfl⟩)
    simp only [List.getD_eq_getElem?_getD, List.getElem?_set_ne apart]

/-- A valid text is cut at its first `*`, and the checksum before it matches what follows. -/
private theorem cut_of_valid {text : Bytes} {sentence : Sentence}
    (parsed : ofText text = .ok sentence) (valid : sentence.isValid = true) :
    ∃ body after, text = body ++ '*'.toUInt8 :: after ∧ '*'.toUInt8 ∉ body ∧
      checksumMatches (checksum body) after = true := by
  have checked := ofText_isValid parsed
  rw [valid] at checked
  have star : '*'.toUInt8 ∈ text := by
    by_contra absent
    rw [checkValid_of_no_star absent] at checked
    cases checked
  obtain ⟨body, after, rfl, absent⟩ := List.eq_append_cons_of_mem star
  rw [checkValid_of_star absent] at checked
  exact ⟨body, after, rfl, absent, Except.ok.inj checked⟩

private theorem replaceAll_isValid_iff {text : Bytes} {sentence : Sentence}
    (parsed : ofText text = .ok sentence) (valid : sentence.isValid = true)
    {edits : List (Nat × UInt8)}
    (inside : ∀ edit ∈ edits, Protected text edit.1 ∧ edit.2 ≠ '*'.toUInt8) :
    ∃ corrupted, ofText (replaceAll text edits) = .ok corrupted ∧
      (corrupted.isValid = true ↔ difference text edits = 0) := by
  obtain ⟨body, after, rfl, absent, checked⟩ := cut_of_valid parsed valid
  obtain ⟨body', replaced, absent', moved⟩ := @replaceAll_protected body after edits absent (by
    intro edit member
    obtain ⟨in_part, not_star⟩ := inside edit member
    obtain ⟨behind, before_star⟩ := (protected_iff absent).mp in_part
    exact ⟨behind, before_star, not_star⟩)
  obtain ⟨corrupted, corrupted_parsed, corrupted_valid⟩ :=
    ofText_of_checked (@checkValid_of_star body' after absent')
  rw [← replaced] at corrupted_parsed
  refine ⟨corrupted, corrupted_parsed, ?_⟩
  rw [corrupted_valid, checksumMatches_unique checked, moved]
  constructor
  · intro same
    have cancelled := congrArg (checksum body ^^^ ·) same
    simpa only [← UInt8.xor_assoc, UInt8.xor_self, UInt8.zero_xor] using cancelled
  · intro nothing
    rw [nothing, UInt8.xor_zero]

/-- One character replaced between the first character and the first `*` makes a valid sentence
invalid; after any number of replacements it is valid exactly when the XOR of all bytes involved is
zero, for different positions that of the original and the new ones. -/
theorem corruption_caught (text : Bytes) (sentence : Sentence)
    (parsed : ofText text = .ok sentence) (valid : sentence.isValid = true) :
    (∀ i c, Protected text i → c ≠ '*'.toUInt8 → c ≠ text.getD i 0 →
      ∃ corrupted, ofText (text.set i c) = .ok corrupted ∧ corrupted.isValid = false) ∧
    (∀ edits, (∀ edit ∈ edits, Protected text edit.1 ∧ edit.2 ≠ '*'.toUInt8) →
      ∃ corrupted, ofText (replaceAll text edits) = .ok corrupted ∧
        (corrupted.isValid = true ↔ difference text edits = 0)) ∧
    ∀ edits : List (Nat × UInt8), (edits.map Prod.fst).Nodup →
      difference text edits = edits.foldr (fun (i, c) sum => text.getD i 0 ^^^ c ^^^ sum) 0 := by
  refine ⟨fun i c in_part not_star other => ?_,
    fun edits inside => replaceAll_isValid_iff parsed valid inside,
    fun edits distinct => difference_of_distinct distinct⟩
  have inside : ∀ edit ∈ [(i, c)], Protected text edit.1 ∧ edit.2 ≠ '*'.toUInt8 := by
    intro edit member
    rw [List.mem_singleton.mp member]
    exact ⟨in_part, not_star⟩
  obtain ⟨corrupted, corrupted_parsed, exactly⟩ := replaceAll_isValid_iff parsed valid inside
  refine ⟨corrupted, corrupted_parsed, ?_⟩
  rw [Bool.eq_false_iff, ne_eq, exactly, difference, difference, UInt8.xor_zero]
  intro same
  exact other (UInt8.xor_eq_zero_iff.mp same).symm

def goodLine : Bytes := "!AIVDM,1,1,,A,Pw,0*01".toList.map Char.toUInt8

/-- The channel misread. -/
theorem corruption_caught_channel :
    ∃ sentence, ofText goodLine = .ok sentence ∧ sentence.isValid = true ∧
      ∃ corrupted, ofText (goodLine.set 12 'B'.toUInt8) = .ok corrupted ∧
        corrupted.isValid = false := by
  obtain ⟨sentence, parsed, valid⟩ := ofText_of_checked (show checkValid goodLine = .ok true by decide)
  refine ⟨sentence, parsed, valid, (corruption_caught goodLine sentence parsed valid).1 12 _ ?_ ?_ ?_⟩
  · exact ⟨by decide, 18, by decide, by decide⟩
  · decide
  · decide

/-! ### Coverage -/

/-- What `DecoderStage::run` lets through. -/
def Accepted (text : Bytes) (sentence : Sentence) : Prop :=
  ofText text = .ok sentence ∧ sentence.isValid = true ∧ sentence.isWellFormed = true

/-- The text before its first `*`. -/
def beforeStar (text : Bytes) : Bytes := text.takeWhile (· ≠ '*'.toUInt8)

/-- All six commas lie before the first `*`. -/
def CommasBeforeStar (text : Bytes) : Prop :=
  ∃ c0 c1 c2 c3 c4 c5 star, findCommas text = some (c0, c1, c2, c3, c4, c5) ∧
    find text '*'.toUInt8 0 = some star ∧
    c0 < star ∧ c1 < star ∧ c2 < star ∧ c3 < star ∧ c4 < star ∧ c5 < star

/-- The six values read from the fields are the same. -/
structure SameValues (a b : Sentence) : Prop where
  fragmentCount : a.fragmentCount = b.fragmentCount
  fragmentNumber : a.fragmentNumber = b.fragmentNumber
  sequenceId : a.sequenceId = b.sequenceId
  channel : a.channel = b.channel
  payload : a.payload = b.payload
  fillBits : a.fillBits = b.fillBits

/-- The first `*` comes behind the sixth comma or in front of it. -/
private theorem star_cases {f : Fields} {body after : Bytes} (cut : f.join = body ++ '*'.toUInt8 :: after) :
    (∃ front, body = f.head ++ ','.toUInt8 :: front ∧ f.rest = front ++ '*'.toUInt8 :: after) ∨
      ∃ middle, f.head = body ++ '*'.toUInt8 :: middle ∧ after = middle ++ ','.toUInt8 :: f.rest := by
  rw [Fields.join_eq] at cut
  rcases List.append_eq_append_iff.mp cut with ⟨gap, rfl, shape⟩ | ⟨gap, head, shape⟩
  · cases gap with
    | nil => exact absurd (List.cons.inj shape).1 (by decide)
    | cons comma front =>
      obtain ⟨rfl, rest⟩ := List.cons.inj shape
      exact Or.inl ⟨front, rfl, rest⟩
  · cases gap with
    | nil => exact absurd (List.cons.inj shape).1 (by decide)
    | cons star middle =>
      obtain ⟨rfl, rest⟩ := List.cons.inj shape
      exact Or.inr ⟨middle, head, rest⟩

private theorem digitRun_stop {base : Nat} {c : UInt8} (stop : digitValue base c = none)
    (front after : Bytes) : digitRun base (front ++ c :: after) = digitRun base front := by
  induction front with
  | nil => simp [digitRun, stop]
  | cons d front ih =>
    simp only [List.cons_append, digitRun]
    split
    · rw [ih]
    · rfl

/-- A number ends where the `*` stands. -/
private theorem fromCharsInt_star (front after : Bytes) (old : Int32) :
    fromCharsInt (front ++ '*'.toUInt8 :: after) old = fromCharsInt front old := by
  have stop : digitValue 10 '*'.toUInt8 = none := by decide
  cases front with
  | nil =>
    have unsigned : '*'.toUInt8 ≠ '-'.toUInt8 := by decide
    simp [fromCharsInt, digitRun, stop, unsigned]
  | cons c front =>
    by_cases negative : c = '-'.toUInt8
    · simp only [fromCharsInt, List.cons_append, List.head?_cons, negative, if_true, List.tail_cons,
        digitRun_stop stop]
    · have unsigned : some c ≠ some '-'.toUInt8 := fun same => negative (Option.some.inj same)
      have run := digitRun_stop stop (c :: front) after
      rw [List.cons_append] at run
      simp only [fromCharsInt, List.cons_append, List.head?_cons, unsigned, if_false, run]

/-- The valid sentence the constructor makes of fields. -/
def Fields.read (f : Fields) : Sentence where
  text := f.join
  isValid := true
  isWellFormed := true
  fragmentCount := (fromCharsInt f.count 0).1
  fragmentNumber := (fromCharsInt f.number 0).1
  sequenceId := sequenceIdOf f.seq
  channel := f.channel
  payload := f.payload
  fillBits := (fromCharsInt f.rest 0).1

theorem accepted_join_iff {f : Fields} (free : f.CommaFree) {sentence : Sentence} :
    Accepted f.join sentence ↔ checkValid f.join = .ok true ∧ sentence = f.read := by
  constructor
  · rintro ⟨parsed, valid, -⟩
    have checked := ofText_isValid parsed
    rw [valid] at checked
    rw [ofText_join free checked] at parsed
    exact ⟨checked, (Except.ok.inj parsed).symm⟩
  · rintro ⟨checked, rfl⟩
    exact ⟨ofText_join free checked, rfl, rfl⟩

theorem Accepted.exists_fields {text : Bytes} {sentence : Sentence}
    (accepted : Accepted text sentence) : ∃ f : Fields, f.CommaFree ∧ text = f.join := by
  obtain ⟨parsed, -, well_formed⟩ := accepted
  obtain ⟨valid, checked⟩ := checkValid_returns text
  rcases findCommas_cases text with few | fields
  · simp only [ofText, checked, few, bind, Except.bind] at parsed
    cases parsed
    cases well_formed
  · exact fields

private theorem Accepted.exists_star {text : Bytes} {sentence : Sentence}
    (accepted : Accepted text sentence) :
    ∃ after, text = beforeStar text ++ '*'.toUInt8 :: after ∧ '*'.toUInt8 ∉ beforeStar text ∧
      checksumMatches (checksum (beforeStar text)) after = true := by
  obtain ⟨body, after, rfl, absent, checked⟩ := cut_of_valid accepted.1 accepted.2.1
  rw [beforeStar, takeWhile_ne_append_cons after absent]
  exact ⟨after, rfl, absent, checked⟩

/-- The digits of a checksum lie before a comma that follows them. -/
private theorem checksumMatches_before_comma {sum : UInt8} {middle rest : Bytes}
    (matched : checksumMatches sum (middle ++ ','.toUInt8 :: rest) = true) (rest' : Bytes) :
    checksumMatches sum (middle ++ ','.toUInt8 :: rest') = true := by
  rw [checksumMatches_iff] at matched ⊢
  obtain ⟨first, second, behind, h, shape, digit, read⟩ := matched
  rcases middle with _ | ⟨c, _ | ⟨d, middle⟩⟩
  · obtain ⟨rfl, -⟩ := List.cons.inj shape
    have none_read : digitValue 16 ','.toUInt8 = none := by decide
    rw [none_read] at digit
    cases digit
  · cases shape
    exact ⟨_, _, rest', h, rfl, digit, read⟩
  · cases shape
    exact ⟨_, _, middle ++ ','.toUInt8 :: rest', h, rfl, digit, read⟩

private theorem exists_other_fill (fill : Int32) : ∃ rest, (fromCharsInt rest 0).1 ≠ fill := by
  by_cases zero : fill = 0
  · exact ⟨[ '1'.toUInt8], by rw [zero]; decide⟩
  · exact ⟨[], fun same => zero same.symm⟩

/-- A `*` behind the sixth comma covers the fields in front of it, and the last one is read up to
the `*`. -/
private theorem sameValues_of_head {f : Fields} (free : f.CommaFree) {front after : Bytes}
    (rest : f.rest = front ++ '*'.toUInt8 :: after) {other : Bytes} {sentence : Sentence}
    (accepted : Accepted other sentence) (same : beforeStar other = f.head ++ ','.toUInt8 :: front) :
    SameValues sentence f.read := by
  obtain ⟨after', cut, -, -⟩ := accepted.exists_star
  have shape : other = ({ f with rest := front ++ '*'.toUInt8 :: after' } : Fields).join := by
    rw [cut, same, Fields.join_with_rest, List.append_assoc, List.cons_append]
  rw [shape, accepted_join_iff (free.with_rest _)] at accepted
  obtain ⟨-, rfl⟩ := accepted
  refine ⟨rfl, rfl, rfl, rfl, rfl, ?_⟩
  simp only [Fields.read, rest, fromCharsInt_star]

/-- What stands behind a `*` and a sixth comma can be exchanged. -/
private theorem exists_other_values {f : Fields} (free : f.CommaFree) {body middle : Bytes}
    (head : f.head = body ++ '*'.toUInt8 :: middle) (absent : '*'.toUInt8 ∉ body)
    (matched : checksumMatches (checksum body) (middle ++ ','.toUInt8 :: f.rest) = true) :
    ∃ other sentence, Accepted other sentence ∧ beforeStar other = body ∧
      ¬ SameValues sentence f.read := by
  obtain ⟨rest, differs⟩ := exists_other_fill f.read.fillBits
  have cut : ({ f with rest := rest } : Fields).join =
      body ++ '*'.toUInt8 :: (middle ++ ','.toUInt8 :: rest) := by
    rw [Fields.join_with_rest, head, List.append_assoc, List.cons_append]
  refine ⟨({ f with rest := rest } : Fields).join, _,
    (accepted_join_iff (free.with_rest rest)).mpr ⟨?_, rfl⟩, ?_, fun same => differs same.fillBits⟩
  · rw [cut, checkValid_of_star absent, checksumMatches_before_comma matched]
  · rw [cut]
    exact takeWhile_ne_append_cons _ absent

/-- The checksum covers every field exactly when the text has six commas before its first `*`:
only then do all commas lie before it, and only then do accepted texts that agree up to it give the
same values. -/
theorem checksum_covers_iff (text : Bytes) (sentence : Sentence) (accepted : Accepted text sentence) :
    (CommasBeforeStar text ↔ 6 ≤ (beforeStar text).count ','.toUInt8) ∧
    ((∀ other sentence', Accepted other sentence' → beforeStar other = beforeStar text →
        SameValues sentence' sentence) ↔ 6 ≤ (beforeStar text).count ','.toUInt8) := by
  obtain ⟨f, free, rfl⟩ := accepted.exists_fields
  obtain ⟨after, cut, absent, matched⟩ := accepted.exists_star
  obtain ⟨-, rfl⟩ := (accepted_join_iff free).mp accepted
  obtain ⟨c0, c1, c2, c3, c4, c5, commas, order, -⟩ := findCommas_join free
  have star : find f.join '*'.toUInt8 0 = some (beforeStar f.join).length := by
    have found := @find_first (beforeStar f.join) after '*'.toUInt8 absent
    rwa [← cut] at found
  rcases star_cases cut with ⟨front, body, rest⟩ | ⟨middle, head, rfl⟩
  -- the `*` stands in the last field
  · have enough : 6 ≤ (beforeStar f.join).count ','.toUInt8 := by
      rw [body, List.count_append, free.count_head, List.count_cons_self]
      omega
    have behind : f.head.length < (beforeStar f.join).length := by
      rw [body, List.length_append, List.length_cons]
      omega
    constructor
    · refine iff_of_true ⟨c0, c1, c2, c3, c4, c5, _, commas, star, ?_⟩ enough
      omega
    · refine iff_of_true (fun other sentence' accepted' same => ?_) enough
      exact sameValues_of_head free rest accepted' (same.trans body)
  -- the `*` stands in an earlier one
  · have too_few : ¬ 6 ≤ (beforeStar f.join).count ','.toUInt8 := by
      have all := free.count_head
      rw [head, List.count_append] at all
      omega
    have in_front : (beforeStar f.join).length < f.head.length := by
      conv_rhs => rw [head]
      rw [List.length_append, List.length_cons]
      omega
    constructor
    · refine iff_of_false ?_ too_few
      rintro ⟨_, _, _, _, _, _, _, commas', star', positions⟩
      rw [commas] at commas'
      rw [star] at star'
      cases commas'
      cases star'
      omega
    · refine iff_of_false (fun covered => ?_) too_few
      obtain ⟨other, sentence', accepted', same, differs⟩ :=
        exists_other_values free head absent matched
      exact differs (covered other sentence' accepted' same)

private theorem accepted_goodLine : ∃ sentence, Accepted goodLine sentence :=
  ⟨_, show ofText goodLine = .ok _ from rfl, by decide, by decide⟩

/-- An ordinary line is covered. -/
theorem checksum_covers_iff_good :
    ∃ sentence, Accepted goodLine sentence ∧ CommasBeforeStar goodLine ∧
      ∀ other sentence', Accepted other sentence' → beforeStar other = beforeStar goodLine →
        SameValues sentence' sentence := by
  obtain ⟨sentence, accepted⟩ := accepted_goodLine
  have covers := checksum_covers_iff goodLine sentence accepted
  exact ⟨sentence, accepted, covers.1.mpr (by decide), covers.2.mpr (by decide)⟩

/-- Two lines whose checksum covers the talker alone. -/
def starInTalker : Bytes := "!AIVDM*57,1,1,,A,Pw,0".toList.map Char.toUInt8
def otherPayload : Bytes := "!AIVDM*57,1,1,,A,13,0".toList.map Char.toUInt8

/-- Both are accepted, and nothing but their payloads differs. -/
theorem starInTalker_accepted :
    ∃ sentence sentence', Accepted starInTalker sentence ∧ Accepted otherPayload sentence' ∧
      beforeStar otherPayload = beforeStar starInTalker ∧ ¬ CommasBeforeStar starInTalker ∧
      ¬ SameValues sentence' sentence := by
  refine ⟨_, _, ⟨show ofText starInTalker = .ok _ from rfl, by decide, by decide⟩,
    ⟨show ofText otherPayload = .ok _ from rfl, by decide, by decide⟩, by decide, ?_, ?_⟩
  · rintro ⟨c0, c1, c2, c3, c4, c5, star, commas, found, below, -⟩
    have first_commas : findCommas starInTalker = some (9, 11, 13, 14, 16, 19) := by decide
    have first_star : find starInTalker '*'.toUInt8 0 = some 6 := by decide
    rw [first_commas] at commas
    rw [first_star] at found
    cases commas
    cases found
    omega
  · intro same
    have payloads := same.payload
    revert payloads
    decide

end Ais.Sentence
