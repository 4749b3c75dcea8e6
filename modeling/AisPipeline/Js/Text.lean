import AisPipeline.Cpp.Number
import AisPipeline.Lib.Delimited

/-!
# The JavaScript text operations the build script uses

Strings are lists of UTF-16 code units.
-/
namespace Js

open Cpp (Double)

abbrev Text := List UInt16

/-- A string literal, of characters that are one code unit each. -/
def units (literal : String) : Text := literal.toList.map fun c => UInt16.ofNat c.toNat

/-- `text.indexOf(needle, position)`, with `none` for -1. -/
def indexOf (text needle : Text) (position : Nat) : Option Nat :=
  (Delimited.first needle (text.drop position)).map (position + ·)

/-- `text.slice(start, end)`, both inside the text. -/
def slice (text : Text) (start stop : Nat) : Text := (text.take stop).drop start

/-- `text.slice(-count)`. -/
def sliceLast (text : Text) (count : Nat) : Text := text.drop (text.length - count)

/-- White space and line ends, as `trim`, `\s` and `Number` take them. -/
def isSpace (c : UInt16) : Bool :=
  c = 0x20 ∨ 0x09 ≤ c ∧ c ≤ 0x0d ∨ c = 0xa0 ∨ c = 0x1680 ∨ 0x2000 ≤ c ∧ c ≤ 0x200a ∨
    c = 0x2028 ∨ c = 0x2029 ∨ c = 0x202f ∨ c = 0x205f ∨ c = 0x3000 ∨ c = 0xfeff

/-- `text.trim()`. -/
def trim (text : Text) : Text :=
  ((text.dropWhile isSpace).reverse.dropWhile isSpace).reverse

/-- The loop behind `text.split(/\s+/)`: the piece it is in, and whether it stands right behind
white space. -/
def splitLoop (piece : Text) (behindSpace : Bool) : Text → List Text
  | [] => [piece]
  | c :: text =>
    if isSpace c then
      if behindSpace then splitLoop [] true text else piece :: splitLoop [] true text
    else splitLoop (piece ++ [c]) false text

/-- `text.split(/\s+/)`. -/
def splitSpaces (text : Text) : List Text := splitLoop [] false text

/-! ### `Number(text)` -/

/-- The value of a digit in `base`, letters of either case. -/
def digitValue (base : Nat) (c : UInt16) : Option Nat :=
  let digit :=
    if 48 ≤ c ∧ c ≤ 57 then c.toNat - 48
    else if 97 ≤ c ∧ c ≤ 122 then c.toNat - 87
    else if 65 ≤ c ∧ c ≤ 90 then c.toNat - 55
    else base
  if digit < base then some digit else none

/-- A text of digits, at least one. -/
def digits (base : Nat) (text : Text) : Option Nat :=
  if text = [] then none else (text.mapM (digitValue base)).map (Numeral.value base)

/-- Whether the text starts with a minus sign, and what follows a sign of either kind. -/
def takeSign : Text → Bool × Text
  | [] => (false, [])
  | c :: text => if c = 45 then (true, text) else if c = 43 then (false, text) else (false, c :: text)

/-- A text cut at the first unit that passes the test, which is left out. -/
def cutAt (test : UInt16 → Bool) (text : Text) : Text × Option Text :=
  match text.dropWhile fun c => !test c with
  | [] => (text, none)
  | _ :: after => (text.takeWhile fun c => !test c, some after)

/-- A decimal literal without a sign: digits, a fraction, an exponent. -/
def decimal (text : Text) : Option ℚ := do
  let (mantissa, power) := cutAt (fun c => c = 101 ∨ c = 69) text
  let (whole, fraction) := cutAt (fun c => c = 46) mantissa
  let magnitude ← digits 10 (whole ++ fraction.getD [])
  let exponent : Int ← match power with
    | none => some 0
    | some power =>
      let (negative, rest) := takeSign power
      (digits 10 rest).map fun n => if negative then -(n : Int) else n
  some (magnitude * (10 : ℚ) ^ (exponent - (fraction.getD []).length))

/-- `Number(text)`. `nearest` gives the double nearest to a number. -/
def number (nearest : ℚ → Double) (text : Text) : Double :=
  let word := trim text
  let whole (base : Nat) : Double :=
    match digits base (word.drop 2) with
    | some n => nearest n
    | none => .nan
  if word = [] then .finite 0
  else if word.take 2 = units "0x" ∨ word.take 2 = units "0X" then whole 16
  else if word.take 2 = units "0o" ∨ word.take 2 = units "0O" then whole 8
  else if word.take 2 = units "0b" ∨ word.take 2 = units "0B" then whole 2
  else
    let (negative, rest) := takeSign word
    if rest = units "Infinity" then .infinite negative
    else
      match decimal rest with
      | some magnitude => nearest (if negative then -magnitude else magnitude)
      | none => .nan

/-! ### Searching -/

theorem indexOf_eq_some_iff {text needle : Text} {position i : Nat} :
    indexOf text needle position = some i ↔
      ∃ k, Delimited.first needle (text.drop position) = some k ∧ position + k = i := by
  rw [indexOf, Option.map_eq_some_iff]

theorem indexOf_eq_none_iff {text needle : Text} {position : Nat} :
    indexOf text needle position = none ↔ Delimited.first needle (text.drop position) = none := by
  rw [indexOf, Option.map_eq_none_iff]

end Js
