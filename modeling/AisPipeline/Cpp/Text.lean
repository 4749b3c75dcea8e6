import AisPipeline.Lib.Numeral
import Mathlib.Data.List.TakeWhile

/-!
# The C++ text operations the decoder uses

Strings are byte lists. Every operation that throws, or whose behaviour is
undefined outside its precondition, returns an exception there, so "never
throws" also means "every index is in range".
-/
namespace Cpp

abbrev Bytes := List UInt8

/-- What can leave a function other than a value. -/
inductive Exn where
  | invalidArgument (what : String)
  | outOfRange (what : String)
  | runtimeError (what : String)
  | undefinedBehaviour (what : String)
  deriving DecidableEq, Repr

/-- `text[i]`; reading at or past the end is undefined. -/
def charAt (text : Bytes) (i : Nat) : Except Exn UInt8 :=
  match text[i]? with
  | some c => .ok c
  | none => .error (.undefinedBehaviour "operator[]")

/-- `text.find(c, pos)`, with `none` for `npos`. -/
def find (text : Bytes) (c : UInt8) (pos : Nat) : Option Nat :=
  ((text.drop pos).findIdx? (· == c)).map (pos + ·)

/-- `text.find_last_not_of(c)`, with `none` for `npos`. -/
def findLastNotOf (text : Bytes) (c : UInt8) : Option Nat :=
  (text.reverse.findIdx? (· != c)).map (text.length - 1 - ·)

/-- `text.substr(pos, count)`. -/
def substr (text : Bytes) (pos count : Nat) : Except Exn Bytes :=
  if pos > text.length then .error (.outOfRange "substr") else .ok ((text.drop pos).take count)

/-- `text.substr(pos)`. -/
def substrFrom (text : Bytes) (pos : Nat) : Except Exn Bytes :=
  if pos > text.length then .error (.outOfRange "substr") else .ok (text.drop pos)

/-- `text.erase(0, count)`, which is in range for every text. -/
def eraseFront (text : Bytes) (count : Nat) : Bytes := text.drop count

/-- The characters `[data() + first, data() + last)`; both pointers must lie
inside the text and in this order. -/
def range (text : Bytes) (first last : Nat) : Except Exn Bytes :=
  if first ≤ last ∧ last ≤ text.length then .ok ((text.drop first).take (last - first))
  else .error (.undefinedBehaviour "pointer range")

/-- `std::errc` as `std::from_chars` reports it. -/
inductive Errc where
  | ok
  | invalidArgument
  | resultOutOfRange
  deriving DecidableEq, Repr

/-- The value of a digit character in `base`, letters of either case. -/
def digitValue (base : Nat) (c : UInt8) : Option Nat :=
  let digit :=
    if '0'.toUInt8 ≤ c ∧ c ≤ '9'.toUInt8 then c.toNat - 48
    else if 'a'.toUInt8 ≤ c ∧ c ≤ 'z'.toUInt8 then c.toNat - 87
    else if 'A'.toUInt8 ≤ c ∧ c ≤ 'Z'.toUInt8 then c.toNat - 55
    else base
  if digit < base then some digit else none

/-- The longest run of digits the text starts with. -/
def digitRun (base : Nat) : Bytes → List Nat
  | [] => []
  | c :: rest =>
    match digitValue base c with
    | some d => d :: digitRun base rest
    | none => []

/-- `std::from_chars` into an `int`, base 10: an optional minus sign and at least one
digit; anything after the digits is left alone. On an error `value` keeps its
old content. The end pointer it also returns is never read by the callers. -/
def fromCharsInt (text : Bytes) (value : Int32) : Int32 × Errc :=
  let negative := text.head? = some '-'.toUInt8
  let digits := digitRun 10 (if negative then text.tail else text)
  let magnitude : Int := Numeral.value 10 digits
  let result := if negative then -magnitude else magnitude
  if digits = [] then (value, .invalidArgument)
  else if -2 ^ 31 ≤ result ∧ result < 2 ^ 31 then (Int32.ofInt result, .ok)
  else (value, .resultOutOfRange)

/-- `std::from_chars` into an `unsigned int`, base 16. -/
def fromCharsHex (text : Bytes) (value : UInt32) : UInt32 × Errc :=
  let digits := digitRun 16 text
  let result := Numeral.value 16 digits
  if digits = [] then (value, .invalidArgument)
  else if result < 2 ^ 32 then (UInt32.ofNat result, .ok)
  else (value, .resultOutOfRange)

/-- `static_cast<std::size_t>` of an `int`: negative numbers wrap around. -/
def sizeCast (n : Int32) : Nat := (n.toInt % 2 ^ 64).toNat

/-! ### Searching -/

theorem find_eq_some_iff {text : Bytes} {c : UInt8} {pos i : Nat} :
    find text c pos = some i ↔
      ∃ skipped after, text.drop pos = skipped ++ c :: after ∧ c ∉ skipped ∧
        i = pos + skipped.length := by
  simp only [find, Option.map_eq_some_iff, List.findIdx?_eq_some_iff_getElem]
  constructor
  · rintro ⟨k, ⟨inside, hit, before⟩, rfl⟩
    have here : (text.drop pos)[k] = c := by simpa using hit
    refine ⟨(text.drop pos).take k, (text.drop pos).drop (k + 1), ?_, ?_, ?_⟩
    · rw [← here, ← List.drop_eq_getElem_cons inside, List.take_append_drop]
    · intro member
      obtain ⟨j, hj, eq⟩ := List.getElem_of_mem member
      rw [List.length_take] at hj
      rw [List.getElem_take] at eq
      exact before j (by omega) (by simp [eq])
    · rw [List.length_take]
      omega
  · rintro ⟨skipped, after, split, absent, rfl⟩
    refine ⟨skipped.length, ⟨?_, ?_, ?_⟩, rfl⟩
    · simp [split]
    · simp [split]
    · intro j hj
      have inside : j < (text.drop pos).length := by
        simp only [split, List.length_append]
        omega
      have member : (text.drop pos)[j] ∈ skipped := by
        simp [split, List.getElem_append_left hj]
      intro eq
      exact absent (by simpa using (beq_iff_eq.mp eq) ▸ member)

theorem find_eq_none_iff {text : Bytes} {c : UInt8} {pos : Nat} :
    find text c pos = none ↔ c ∉ text.drop pos := by
  simp only [find, Option.map_eq_none_iff, List.findIdx?_eq_none_iff, beq_eq_false_iff_ne, ne_eq]
  constructor
  · intro absent member
    exact absent c member rfl
  · rintro absent x member rfl
    exact absent member

theorem find_lt {text : Bytes} {c : UInt8} {pos i : Nat} (found : find text c pos = some i) :
    i < text.length := by
  obtain ⟨skipped, after, cut, -, rfl⟩ := find_eq_some_iff.mp found
  have size := congrArg List.length cut
  simp only [List.length_drop, List.length_append, List.length_cons] at size
  omega

/-- Searching past a prefix finds the first occurrence after it. -/
theorem find_append {before skipped after : Bytes} {c : UInt8} {pos : Nat}
    (start : pos = before.length) (absent : c ∉ skipped) :
    find (before ++ (skipped ++ c :: after)) c pos = some (pos + skipped.length) := by
  subst start
  exact find_eq_some_iff.mpr ⟨skipped, after, by simp, absent, rfl⟩

/-- The first occurrence in a text is where it stands first. -/
theorem find_first {skipped after : Bytes} {c : UInt8} (absent : c ∉ skipped) :
    find (skipped ++ c :: after) c 0 = some skipped.length :=
  find_eq_some_iff.mpr ⟨skipped, after, rfl, absent, (Nat.zero_add _).symm⟩

theorem takeWhile_ne_append_cons {text : Bytes} {c : UInt8} (after : Bytes) (absent : c ∉ text) :
    (text ++ c :: after).takeWhile (· ≠ c) = text := by
  rw [List.takeWhile_append_of_pos, List.takeWhile_cons_of_neg (by simp), List.append_nil]
  intro x member
  have other : x ≠ c := fun same => absent (same ▸ member)
  simpa using other

theorem takeWhile_ne_of_not_mem {text : Bytes} {c : UInt8} (absent : c ∉ text) :
    text.takeWhile (· ≠ c) = text := by
  rw [List.takeWhile_eq_self_iff]
  intro x member
  have other : x ≠ c := fun same => absent (same ▸ member)
  simpa using other

/-- Past a run of `c` at the end, the last other character is the end of what is left. -/
theorem findLastNotOf_append_replicate {text : Bytes} {c : UInt8} (count : Nat)
    (h : text.getLast? ≠ some c) :
    findLastNotOf (text ++ List.replicate count c) c =
      if text = [] then none else some (text.length - 1) := by
  have skip : (List.replicate count c).findIdx? (· != c) = none := by
    rw [List.findIdx?_eq_none_iff]
    simp
  rw [findLastNotOf, List.reverse_append, List.reverse_replicate, List.findIdx?_append, skip]
  rcases List.eq_nil_or_concat text with rfl | ⟨front, last, rfl⟩
  · simp
  · have other : last ≠ c := by simpa using h
    simp [List.findIdx?_cons, other]

/-- Every text is some text not ending in `c`, followed by a run of `c`. -/
theorem exists_append_replicate (text : Bytes) (c : UInt8) :
    ∃ front count, text = front ++ List.replicate count c ∧ front.getLast? ≠ some c := by
  induction text using List.reverseRecOn with
  | nil => exact ⟨[], 0, rfl, by simp⟩
  | append_singleton text last ih =>
    by_cases same : last = c
    · obtain ⟨front, count, rfl, ends⟩ := ih
      subst same
      exact ⟨front, count + 1, by simp [List.replicate_succ'], ends⟩
    · exact ⟨text ++ [last], 0, by simp, by simpa using same⟩

/-! ### Checked reads that stay in range -/

theorem charAt_ok {text : Bytes} {i : Nat} (h : i < text.length) :
    charAt text i = .ok text[i] := by
  simp [charAt, h]

theorem substr_ok {text : Bytes} {pos : Nat} (count : Nat) (h : pos ≤ text.length) :
    substr text pos count = .ok ((text.drop pos).take count) := by
  simp [substr, h]

theorem substrFrom_ok {text : Bytes} {pos : Nat} (h : pos ≤ text.length) :
    substrFrom text pos = .ok (text.drop pos) := by
  simp [substrFrom, h]

theorem range_ok {text : Bytes} {first last : Nat} (h : first ≤ last) (inside : last ≤ text.length) :
    range text first last = .ok ((text.drop first).take (last - first)) := by
  simp [range, h, inside]

/-- The range that covers one chunk of a text is that chunk. -/
theorem range_append {before chunk after : Bytes} {first last : Nat}
    (hf : first = before.length) (hl : last = first + chunk.length) :
    range (before ++ (chunk ++ after)) first last = .ok chunk := by
  subst hf hl
  rw [range_ok (by omega) (by simp)]
  simp

/-! ### Number conversions -/

/-- A number below `2 ^ 31` is the cast of an `int` only when that `int` is the number. -/
theorem sizeCast_eq_iff {n : Int32} {m : Nat} (h : m < 2 ^ 31) :
    sizeCast n = m ↔ n.toInt = m := by
  have low := n.le_toInt
  have high := n.toInt_lt
  rw [sizeCast]
  omega

theorem sizeCast_range (n : Int32) :
    sizeCast n < 2 ^ 31 ∨ 2 ^ 64 - 2 ^ 31 ≤ sizeCast n := by
  have low := n.le_toInt
  have high := n.toInt_lt
  rw [sizeCast]
  omega

theorem digitRun_append {base : Nat} {digits : Bytes} {values : List Nat} {rest : Bytes}
    (h : digits.map (digitValue base) = values.map some)
    (stop : ∀ c ∈ rest.head?, digitValue base c = none) :
    digitRun base (digits ++ rest) = values := by
  induction digits generalizing values with
  | nil =>
    have none_left : values = [] := by simpa using h.symm
    subst none_left
    cases rest with
    | nil => rfl
    | cons c rest => simp [digitRun, stop c (by simp)]
  | cons c digits ih =>
    cases values with
    | nil => simp at h
    | cons d values =>
      simp only [List.map_cons, List.cons.injEq] at h
      simp [digitRun, h.1, ih h.2]

/-- A text is the digits it starts with and what follows them. -/
theorem exists_digitRun (base : Nat) (text : Bytes) :
    ∃ digits rest, text = digits ++ rest ∧
      digits.map (digitValue base) = (digitRun base text).map some ∧
      ∀ c ∈ rest.head?, digitValue base c = none := by
  induction text with
  | nil => exact ⟨[], [], rfl, rfl, by simp⟩
  | cons c text ih =>
    cases digit : digitValue base c with
    | none => exact ⟨[], c :: text, rfl, by simp [digitRun, digit], by simp [digit]⟩
    | some d =>
      obtain ⟨digits, rest, cut, values, stop⟩ := ih
      refine ⟨c :: digits, rest, by rw [cut, List.cons_append], ?_, stop⟩
      simp [digitRun, digit, values]

end Cpp
