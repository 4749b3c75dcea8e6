import AisPipeline.Cpp.Text

/-!
# Numbers read from text

`std::stoi`, `std::stoul` and `std::stod` in the C locale. Each skips white
space, reads the longest number the text then starts with and leaves alone what
follows it. The grammar of a text that is a number from end to end stands beside
them.
-/
namespace Cpp

/-- `std::isspace`. -/
def isSpace (c : UInt8) : Bool := c = 32 ∨ 9 ≤ c ∧ c ≤ 13

def skipSpace (text : Bytes) : Bytes := text.dropWhile isSpace

/-- Whether the text starts with a minus sign, and what follows a sign of either kind. -/
def takeSign : Bytes → Bool × Bytes
  | [] => (false, [])
  | c :: rest =>
    if c = '-'.toUInt8 then (true, rest)
    else if c = '+'.toUInt8 then (false, rest)
    else (false, c :: rest)

/-- `std::strtol`, base 10, before its range check; `none` if there is no digit. -/
def strtol (text : Bytes) : Option Int :=
  let (negative, rest) := takeSign (skipSpace text)
  let digits := digitRun 10 rest
  let magnitude : Int := Numeral.value 10 digits
  if digits = [] then none else some (if negative then -magnitude else magnitude)

/-- `std::stoi`. -/
def stoi (text : Bytes) : Except Exn Int32 :=
  match strtol text with
  | none => .error (.invalidArgument "stoi")
  | some n =>
    if -2 ^ 31 ≤ n ∧ n < 2 ^ 31 then .ok (Int32.ofInt n) else .error (.outOfRange "stoi")

/-- `std::stoul` with an `unsigned long` of 64 bits; a minus sign negates the result. -/
def stoul (text : Bytes) : Except Exn UInt64 :=
  let (negative, rest) := takeSign (skipSpace text)
  let digits := digitRun 10 rest
  let magnitude := Numeral.value 10 digits
  if digits = [] then .error (.invalidArgument "stoul")
  else if magnitude < 2 ^ 64 then
    .ok (if negative then -UInt64.ofNat magnitude else UInt64.ofNat magnitude)
  else .error (.outOfRange "stoul")

/-! ### Floating point -/

/-- A value of type `double`. -/
inductive Double where
  | finite (value : ℚ)
  | infinite (negative : Bool)
  | nan
  deriving DecidableEq, Repr

def toLower (c : UInt8) : UInt8 := if 'A'.toUInt8 ≤ c ∧ c ≤ 'Z'.toUInt8 then c + 32 else c

def startsWithNoCase (text word : Bytes) : Bool := (text.take word.length).map toLower = word

/-- The digits before and after a point, and what follows them. -/
def takeMantissa (base : Nat) (text : Bytes) : List Nat × List Nat × Bytes :=
  let whole := digitRun base text
  match text.drop whole.length with
  | [] => (whole, [], [])
  | c :: rest =>
    if c = '.'.toUInt8 then
      let fraction := digitRun base rest
      (whole, fraction, rest.drop fraction.length)
    else (whole, [], c :: rest)

/-- The exponent behind `marker`; zero if it is missing or has no digit. -/
def exponentOf (marker : UInt8) : Bytes → Int
  | [] => 0
  | c :: rest =>
    if toLower c = marker then
      let (negative, rest) := takeSign rest
      let magnitude : Int := Numeral.value 10 (digitRun 10 rest)
      if negative then -magnitude else magnitude
    else 0

/-- Digits around a point, times a power of `radix`. -/
def scaled (base : Nat) (whole fraction : List Nat) (radix : ℚ) (exponent : Int) : ℚ :=
  Numeral.value base (whole ++ fraction) / (base : ℚ) ^ fraction.length * radix ^ exponent

/-- What follows `0x`. -/
def hexRest : Bytes → Option Bytes
  | zero :: x :: rest =>
    if zero = '0'.toUInt8 ∧ toLower x = 'x'.toUInt8 then some rest else none
  | _ => none

/-- `std::strtod` behind the sign, before rounding: infinity, not a number, hexadecimal if there is
a digit behind `0x`, else decimal. -/
def strtodMagnitude (text : Bytes) : Option Double :=
  let decimal :=
    let (whole, fraction, rest) := takeMantissa 10 text
    if whole = [] ∧ fraction = [] then none
    else some (.finite (scaled 10 whole fraction 10 (exponentOf 'e'.toUInt8 rest)))
  if startsWithNoCase text [ 'i'.toUInt8, 'n'.toUInt8, 'f'.toUInt8] then some (.infinite false)
  else if startsWithNoCase text [ 'n'.toUInt8, 'a'.toUInt8, 'n'.toUInt8] then some .nan
  else
    match hexRest text with
    | none => decimal
    | some after =>
      let (whole, fraction, rest) := takeMantissa 16 after
      -- without a digit behind it the `0` stands alone
      if whole = [] ∧ fraction = [] then decimal
      else some (.finite (scaled 16 whole fraction 2 (exponentOf 'p'.toUInt8 rest)))

/-- `std::stod`. `nearest` gives the double nearest to a number, and nothing where `strtod` reports
that it is out of range. -/
def stod (nearest : ℚ → Option ℚ) (text : Bytes) : Except Exn Double :=
  let (negative, rest) := takeSign (skipSpace text)
  match strtodMagnitude rest with
  | none => .error (.invalidArgument "stod")
  | some (.finite magnitude) =>
    match nearest (if negative then -magnitude else magnitude) with
    | some value => .ok (.finite value)
    | none => .error (.outOfRange "stod")
  | some (.infinite _) => .ok (.infinite negative)
  | some .nan => .ok .nan

/-! ### Whole numbers -/

/-- Decimal digits and their values. -/
def Digits (text : Bytes) (values : List Nat) : Prop :=
  text.map (digitValue 10) = values.map some

inductive Sign : Bytes → Bool → Prop where
  | none : Sign [] false
  | plus : Sign [ '+'.toUInt8] false
  | minus : Sign [ '-'.toUInt8] true

/-- Behind white space, the text is the integer `n` from end to end. -/
def WholeInteger (text : Bytes) (n : Int) : Prop :=
  ∃ spaces sign digits negative values, text = spaces ++ (sign ++ digits) ∧
    (∀ c ∈ spaces, isSpace c) ∧ Sign sign negative ∧ Digits digits values ∧ values ≠ [] ∧
    n = if negative then -(Numeral.value 10 values : Int) else Numeral.value 10 values

/-- Digits with a point before, among or behind them, or without one. -/
inductive Mantissa : Bytes → List Nat → List Nat → Prop where
  | whole (text values) : Digits text values → values ≠ [] → Mantissa text values []
  | point (before after whole fraction) : Digits before whole → Digits after fraction →
      ¬ (whole = [] ∧ fraction = []) → Mantissa (before ++ '.'.toUInt8 :: after) whole fraction

inductive Exponent : Bytes → Int → Prop where
  | none : Exponent [] 0
  | written (marker sign digits negative values) : marker = 'e'.toUInt8 ∨ marker = 'E'.toUInt8 →
      Sign sign negative → Digits digits values → values ≠ [] →
      Exponent (marker :: (sign ++ digits))
        (if negative then -(Numeral.value 10 values : Int) else Numeral.value 10 values)

/-- Behind white space, the text is a finite decimal number from end to end. -/
def WholeDecimal (text : Bytes) (value : ℚ) : Prop :=
  ∃ spaces sign mantissa power negative whole fraction exponent,
    text = spaces ++ (sign ++ (mantissa ++ power)) ∧ (∀ c ∈ spaces, isSpace c) ∧
    Sign sign negative ∧ Mantissa mantissa whole fraction ∧ Exponent power exponent ∧
    value = if negative then -scaled 10 whole fraction 10 exponent
      else scaled 10 whole fraction 10 exponent

/-! ### Reading a whole number -/

theorem Digits.length_eq {text : Bytes} {values : List Nat} (read : Digits text values) :
    text.length = values.length := by
  simpa using congrArg List.length read

theorem Digits.mem {text : Bytes} {values : List Nat} (read : Digits text values) {c : UInt8}
    (member : c ∈ text) : digitValue 10 c ≠ none := by
  have in_values := List.mem_map_of_mem (f := digitValue 10) member
  rw [read] at in_values
  obtain ⟨d, -, digit⟩ := List.mem_map.mp in_values
  simp [← digit]

theorem Digits.head {text : Bytes} {values : List Nat} (read : Digits text values)
    (nonempty : values ≠ []) : ∃ c rest, text = c :: rest ∧ digitValue 10 c ≠ none := by
  cases text with
  | nil => exact absurd (List.map_eq_nil_iff.mp read.symm) nonempty
  | cons c rest => exact ⟨c, rest, rfl, read.mem List.mem_cons_self⟩

theorem digitValue_ten_iff {c : UInt8} : digitValue 10 c ≠ none ↔ 48 ≤ c.toNat ∧ c.toNat ≤ 57 := by
  have zero : '0'.toUInt8.toNat = 48 := rfl
  have nine : '9'.toUInt8.toNat = 57 := rfl
  have lower : 'a'.toUInt8.toNat = 97 := rfl
  have upper : 'A'.toUInt8.toNat = 65 := rfl
  simp only [digitValue, UInt8.le_iff_toNat_le, zero, nine, lower, upper, ne_eq, ite_eq_right_iff,
    reduceCtorEq, imp_false, not_not]
  split_ifs <;> omega

/-- A character a number may start with, behind its sign. -/
def Starts (c : UInt8) : Prop := digitValue 10 c ≠ none ∨ c = '.'.toUInt8

private theorem not_starts {c : UInt8} (other : isSpace c ∨ c = '+'.toUInt8 ∨ c = '-'.toUInt8) :
    ¬ Starts c := by
  have point : '.'.toUInt8.toNat = 46 := rfl
  have plus : '+'.toUInt8.toNat = 43 := rfl
  have minus : '-'.toUInt8.toNat = 45 := rfl
  simp only [isSpace, Bool.decide_or, Bool.decide_and, Bool.or_eq_true, Bool.and_eq_true,
    decide_eq_true_eq, UInt8.le_iff_toNat_le, ← UInt8.toNat_inj, plus, minus, UInt8.reduceToNat] at other
  simp only [Starts, digitValue_ten_iff, ← UInt8.toNat_inj, point]
  omega

private theorem skipSpace_append {spaces rest : Bytes} (blank : ∀ c ∈ spaces, isSpace c)
    (stop : ∀ c ∈ rest.head?, ¬ isSpace c) : skipSpace (spaces ++ rest) = rest := by
  rw [skipSpace, List.dropWhile_append_of_pos blank]
  cases rest with
  | nil => rfl
  | cons c rest => rw [List.dropWhile_cons_of_neg (stop c rfl)]

private theorem takeSign_append {sign rest : Bytes} {negative : Bool} (written : Sign sign negative)
    (stop : ∀ c ∈ rest.head?, Starts c) : takeSign (sign ++ rest) = (negative, rest) := by
  cases written with
  | none =>
    cases rest with
    | nil => rfl
    | cons c rest =>
      have starts := stop c rfl
      have no_minus : c ≠ '-'.toUInt8 := fun same => not_starts (.inr (.inr same)) starts
      have no_plus : c ≠ '+'.toUInt8 := fun same => not_starts (.inr (.inl same)) starts
      simp [takeSign, no_minus, no_plus]
  | plus => rfl
  | minus => rfl

/-- White space and a sign are taken off the number behind them. -/
theorem takeSign_skipSpace {spaces sign rest : Bytes} {negative : Bool}
    (blank : ∀ c ∈ spaces, isSpace c) (written : Sign sign negative)
    (stop : ∀ c ∈ rest.head?, Starts c) :
    takeSign (skipSpace (spaces ++ (sign ++ rest))) = (negative, rest) := by
  rw [skipSpace_append blank, takeSign_append written stop]
  intro c first
  cases written with
  | none => exact fun space => not_starts (.inl space) (stop c first)
  | plus =>
    cases first
    decide
  | minus =>
    cases first
    decide

theorem strtol_of_whole {text : Bytes} {n : Int} (whole : WholeInteger text n) : strtol text = some n := by
  obtain ⟨spaces, sign, digits, negative, values, rfl, blank, written, read, nonempty, rfl⟩ := whole
  obtain ⟨c, rest, rfl, digit⟩ := read.head nonempty
  have taken : takeSign (skipSpace (spaces ++ (sign ++ c :: rest))) = (negative, c :: rest) :=
    takeSign_skipSpace blank written (by simp [Starts, digit])
  have run : digitRun 10 (c :: rest) = values := by
    simpa using digitRun_append read (by simp : ∀ c ∈ ([] : Bytes).head?, digitValue 10 c = none)
  simp [strtol, taken, run, nonempty]

theorem stoul_of_digits {text : Bytes} {values : List Nat} (read : Digits text values)
    (nonempty : values ≠ []) :
    stoul text = if Numeral.value 10 values < 2 ^ 64 then .ok (UInt64.ofNat (Numeral.value 10 values))
      else .error (.outOfRange "stoul") := by
  obtain ⟨c, rest, rfl, digit⟩ := read.head nonempty
  have taken : takeSign (skipSpace ([] ++ ([] ++ c :: rest))) = (false, c :: rest) :=
    takeSign_skipSpace (by simp) .none (by simp [Starts, digit])
  have run : digitRun 10 (c :: rest) = values := by
    simpa using digitRun_append read (by simp : ∀ c ∈ ([] : Bytes).head?, digitValue 10 c = none)
  rw [List.nil_append, List.nil_append] at taken
  simp [stoul, taken, run, nonempty]

/-! ### Reading a decimal number -/

private theorem toLower_of_starts {c : UInt8} (starts : Starts c) : toLower c = c := by
  have point : '.'.toUInt8.toNat = 46 := rfl
  have upper : 'A'.toUInt8.toNat = 65 := rfl
  simp only [Starts, digitValue_ten_iff, ← UInt8.toNat_inj, point] at starts
  rw [toLower, if_neg]
  rw [UInt8.le_iff_toNat_le, upper]
  omega

private theorem lower_letter_not_starts {c : UInt8} (letter : 97 ≤ c.toNat) : ¬ Starts c := by
  have point : '.'.toUInt8.toNat = 46 := rfl
  simp only [Starts, digitValue_ten_iff, ← UInt8.toNat_inj, point]
  omega

theorem Mantissa.starts {text : Bytes} {whole fraction : List Nat} (read : Mantissa text whole fraction)
    {c : UInt8} (member : c ∈ text) : Starts c := by
  cases read with
  | whole _ _ digits nonempty => exact .inl (digits.mem member)
  | point before after _ _ in_front behind _ =>
    rcases List.mem_append.mp member with first | rest
    · exact .inl (in_front.mem first)
    · rcases List.mem_cons.mp rest with rfl | last
      · exact .inr rfl
      · exact .inl (behind.mem last)

theorem Mantissa.ne_nil {text : Bytes} {whole fraction : List Nat} (read : Mantissa text whole fraction) :
    text ≠ [] := by
  cases read with
  | whole _ _ digits nonempty =>
    obtain ⟨c, rest, rfl, -⟩ := digits.head nonempty
    exact List.cons_ne_nil c rest
  | point => simp

/-- An exponent starts with its marker, if there is one. -/
theorem Exponent.head {text : Bytes} {exponent : Int} (read : Exponent text exponent) :
    ∀ c ∈ text.head?, c = 'e'.toUInt8 ∨ c = 'E'.toUInt8 := by
  cases read with
  | none => simp
  | written marker sign digits negative values kind => simpa using kind

/-- A character of a decimal number or of the white space in front of it. -/
def Plain (c : UInt8) : Prop :=
  isSpace c ∨ c = '+'.toUInt8 ∨ c = '-'.toUInt8 ∨ Starts c ∨ c = 'e'.toUInt8 ∨ c = 'E'.toUInt8

/-- An `x` of either case is none. -/
theorem Plain.no_x {c : UInt8} (plain : Plain c) : toLower c ≠ 'x'.toUInt8 := by
  have codes : '+'.toUInt8.toNat = 43 ∧ '-'.toUInt8.toNat = 45 ∧ '.'.toUInt8.toNat = 46 ∧
      'e'.toUInt8.toNat = 101 ∧ 'E'.toUInt8.toNat = 69 ∧ 'A'.toUInt8.toNat = 65 ∧
      'Z'.toUInt8.toNat = 90 ∧ 'x'.toUInt8.toNat = 120 := by decide
  obtain ⟨plus, minus, point, e, upper_e, first, last, x⟩ := codes
  simp only [Plain, isSpace, Bool.decide_or, Bool.decide_and, Bool.or_eq_true, Bool.and_eq_true,
    decide_eq_true_eq, Starts, digitValue_ten_iff, UInt8.le_iff_toNat_le, ← UInt8.toNat_inj, plus,
    minus, point, e, upper_e, UInt8.reduceToNat] at plain
  rw [toLower]
  split
  next letter =>
    simp only [UInt8.le_iff_toNat_le, first, last] at letter
    simp only [ne_eq, ← UInt8.toNat_inj, UInt8.toNat_add, x, UInt8.reduceToNat]
    omega
  next =>
    rw [ne_eq, ← UInt8.toNat_inj, x]
    omega

theorem Sign.plain {text : Bytes} {negative : Bool} (read : Sign text negative) :
    ∀ c ∈ text, Plain c := by
  cases read with
  | none => simp
  | plus => simp [Plain]
  | minus => simp [Plain]

theorem Digits.plain {text : Bytes} {values : List Nat} (read : Digits text values) :
    ∀ c ∈ text, Plain c :=
  fun _ member => .inr (.inr (.inr (.inl (.inl (read.mem member)))))

theorem Exponent.plain {text : Bytes} {exponent : Int} (read : Exponent text exponent) :
    ∀ c ∈ text, Plain c := by
  cases read with
  | none => simp
  | written marker sign digits negative values kind written read nonempty =>
    intro c member
    rcases List.mem_cons.mp member with rfl | rest
    · exact .inr (.inr (.inr (.inr kind)))
    · rcases List.mem_append.mp rest with in_sign | in_digits
      · exact written.plain c in_sign
      · exact read.plain c in_digits

theorem WholeInteger.plain {text : Bytes} {n : Int} (whole : WholeInteger text n) :
    ∀ c ∈ text, Plain c := by
  obtain ⟨spaces, sign, digits, negative, values, rfl, blank, written, read, -, -⟩ := whole
  intro c member
  rw [List.mem_append, List.mem_append] at member
  rcases member with in_spaces | in_sign | in_digits
  · exact .inl (blank c in_spaces)
  · exact written.plain c in_sign
  · exact read.plain c in_digits

theorem WholeDecimal.plain {text : Bytes} {value : ℚ} (whole : WholeDecimal text value) :
    ∀ c ∈ text, Plain c := by
  obtain ⟨spaces, sign, mantissa, power, negative, digits, fraction, exponent, rfl, blank, written, read,
    followed, -⟩ := whole
  intro c member
  rw [List.mem_append, List.mem_append, List.mem_append] at member
  rcases member with in_spaces | in_sign | in_mantissa | in_power
  · exact .inl (blank c in_spaces)
  · exact written.plain c in_sign
  · exact .inr (.inr (.inr (.inl (read.starts in_mantissa))))
  · exact followed.plain c in_power

private theorem drop_digits {text rest : Bytes} {values : List Nat} (read : Digits text values) :
    (text ++ rest).drop values.length = rest := by
  rw [← read.length_eq, List.drop_left]

theorem takeMantissa_append {text power : Bytes} {whole fraction : List Nat} {exponent : Int}
    (read : Mantissa text whole fraction) (followed : Exponent power exponent) :
    takeMantissa 10 (text ++ power) = (whole, fraction, power) := by
  have stop : ∀ c ∈ power.head?, digitValue 10 c = none := by
    intro c first
    rcases followed.head c first with rfl | rfl
    · decide
    · decide
  cases read with
  | whole _ _ digits nonempty =>
    simp only [takeMantissa, digitRun_append digits stop, drop_digits digits]
    cases power with
    | nil => rfl
    | cons c rest =>
      have no_point : c ≠ '.'.toUInt8 := by
        rcases followed.head c rfl with rfl | rfl
        · decide
        · decide
      simp [no_point]
  | point before after _ _ in_front behind _ =>
    have at_point : ∀ c ∈ ('.'.toUInt8 :: (after ++ power)).head?, digitValue 10 c = none := by
      rintro c ⟨⟩
      decide
    simp only [takeMantissa, List.append_assoc, List.cons_append, digitRun_append in_front at_point,
      drop_digits in_front, if_true, digitRun_append behind stop, drop_digits behind]

theorem exponentOf_eq {power : Bytes} {exponent : Int} (read : Exponent power exponent) :
    exponentOf 'e'.toUInt8 power = exponent := by
  cases read with
  | none => rfl
  | written marker sign digits negative values kind written read nonempty =>
    obtain ⟨c, rest, rfl, digit⟩ := read.head nonempty
    have marked : toLower marker = 'e'.toUInt8 := by
      rcases kind with rfl | rfl
      · decide
      · decide
    have run : digitRun 10 (c :: rest) = values := by
      simpa using digitRun_append read (by simp : ∀ c ∈ ([] : Bytes).head?, digitValue 10 c = none)
    have taken : takeSign (sign ++ c :: rest) = (negative, c :: rest) :=
      takeSign_append written (by simp [Starts, digit])
    simp [exponentOf, marked, taken, run]

private theorem not_startsWith {c letter : UInt8} {rest word : Bytes} (starts : Starts c)
    (is_letter : 97 ≤ letter.toNat) : startsWithNoCase (c :: rest) (letter :: word) = false := by
  have other : c ≠ letter := by
    rintro rfl
    exact lower_letter_not_starts is_letter starts
  simp [startsWithNoCase, toLower_of_starts starts, other]

private theorem hexRest_eq_none {text : Bytes} (plain : ∀ c ∈ text, Plain c) :
    hexRest text = none := by
  unfold hexRest
  split
  next zero x rest => rw [if_neg fun both => (plain x (by simp)).no_x both.2]
  next => rfl

/-- A decimal number is neither a word nor hexadecimal. -/
theorem strtodMagnitude_append {text power : Bytes} {whole fraction : List Nat} {exponent : Int}
    (read : Mantissa text whole fraction) (followed : Exponent power exponent) :
    strtodMagnitude (text ++ power) = some (.finite (scaled 10 whole fraction 10 exponent)) := by
  have no_hex : hexRest (text ++ power) = none := by
    apply hexRest_eq_none
    intro c member
    rcases List.mem_append.mp member with in_mantissa | in_power
    · exact .inr (.inr (.inr (.inl (read.starts in_mantissa))))
    · exact followed.plain c in_power
  have digits : ¬ (whole = [] ∧ fraction = []) := by
    cases read with
    | whole _ _ digits nonempty => exact fun both => nonempty both.1
    | point before after _ _ in_front behind some_digit => exact some_digit
  obtain ⟨c, rest, shape⟩ := List.exists_cons_of_ne_nil read.ne_nil
  have starts : Starts c := read.starts (by simp [shape])
  have decimal := takeMantissa_append read followed
  rw [shape, List.cons_append] at no_hex decimal ⊢
  rw [strtodMagnitude, not_startsWith starts (by decide), not_startsWith starts (by decide), no_hex]
  simp only [decimal, digits, if_false, Bool.false_eq_true, exponentOf_eq followed]

/-- A decimal number is read from end to end. -/
theorem stod_of_whole {nearest : ℚ → Option ℚ} {text : Bytes} {value : ℚ}
    (whole : WholeDecimal text value) :
    stod nearest text = match nearest value with
      | some rounded => .ok (.finite rounded)
      | none => .error (.outOfRange "stod") := by
  obtain ⟨spaces, sign, mantissa, power, negative, digits, fraction, exponent, rfl, blank, written, read,
    followed, rfl⟩ := whole
  have taken : takeSign (skipSpace (spaces ++ (sign ++ (mantissa ++ power)))) =
      (negative, mantissa ++ power) := by
    apply takeSign_skipSpace blank written
    intro c first
    rw [List.head?_append_of_ne_nil _ read.ne_nil] at first
    exact read.starts (List.mem_of_mem_head? first)
  simp [stod, taken, strtodMagnitude_append read followed]

end Cpp
