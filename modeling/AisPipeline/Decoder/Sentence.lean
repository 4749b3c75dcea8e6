import AisPipeline.Cpp.Text

/-!
# AIVDM sentences

The constructor of `Sentence` checks the trailing checksum and cuts the text at
its first six commas. Both parts are total; the lemmas say what they compute in
terms of the text itself rather than of positions in it.
-/
namespace Ais

open Cpp

/-- `Sentence`. The members after `text` keep their defaults when the text has fewer than
six commas. -/
structure Sentence where
  text : Bytes
  isValid : Bool := false
  isWellFormed : Bool := false
  fragmentCount : Int32 := 0
  fragmentNumber : Int32 := 0
  sequenceId : Option Int32 := none
  channel : Bytes := []
  payload : Bytes := []
  fillBits : Int32 := 0
  deriving DecidableEq, Repr

namespace Sentence

/-- The loop `sum ^= text_[i]`, from position `i` over `n` characters. -/
def checksumLoop (text : Bytes) : Nat → Nat → UInt8 → Except Exn UInt8
  | 0, _, sum => .ok sum
  | n + 1, i, sum => do
    let c ← charAt text i
    checksumLoop text n (i + 1) (sum ^^^ c)

/-- The value the constructor gives `valid_`. -/
def checkValid (text : Bytes) : Except Exn Bool :=
  match find text '*'.toUInt8 0 with
  -- without `*` there is nothing to check
  | none => .ok false
  | some star =>
    if star + 2 < text.length then do
      let sum ← checksumLoop text (star - 1) 1 0
      let digits ← range text (star + 1) (star + 3)
      let (expected, ec) := fromCharsHex digits 0
      .ok (decide (ec = .ok) && sum.toUInt32 == expected)
    else .ok false

/-- The positions of the first six commas. -/
def findCommas (text : Bytes) : Option (Nat × Nat × Nat × Nat × Nat × Nat) := do
  let c0 ← find text ','.toUInt8 0
  let c1 ← find text ','.toUInt8 (c0 + 1)
  let c2 ← find text ','.toUInt8 (c1 + 1)
  let c3 ← find text ','.toUInt8 (c2 + 1)
  let c4 ← find text ','.toUInt8 (c3 + 1)
  let c5 ← find text ','.toUInt8 (c4 + 1)
  some (c0, c1, c2, c3, c4, c5)

/-- The sequence id field: absent when empty or not a number. -/
def sequenceIdOf (field : Bytes) : Option Int32 :=
  if field = [] then none
  else
    let (seqId, ec) := fromCharsInt field 0
    if ec = .ok then some seqId else none

/-- The constructor `Sentence::Sentence`. -/
def ofText (text : Bytes) : Except Exn Sentence := do
  let valid ← checkValid text
  match findCommas text with
  -- too few fields: not well formed
  | none => .ok { text := text, isValid := valid }
  | some (c0, c1, c2, c3, c4, c5) =>
    let count ← range text (c0 + 1) c1
    let number ← range text (c1 + 1) c2
    let seq ← range text (c2 + 1) c3
    let channel ← range text (c3 + 1) c4
    let payload ← range text (c4 + 1) c5
    let fill ← range text (c5 + 1) text.length
    .ok {
      text := text
      isValid := valid
      isWellFormed := true
      -- a number that does not parse leaves its member at 0
      fragmentCount := (fromCharsInt count 0).1
      fragmentNumber := (fromCharsInt number 0).1
      sequenceId := sequenceIdOf seq
      channel := channel
      payload := payload
      fillBits := (fromCharsInt fill 0).1 }

/-! ### The checksum -/

/-- The XOR of everything after the first character. -/
def checksum (body : Bytes) : UInt8 := body.tail.foldl (· ^^^ ·) 0

/-- What follows the `*` is at least two characters long and starts with the
hexadecimal form of `sum`. -/
def checksumMatches (sum : UInt8) (after : Bytes) : Bool :=
  decide (2 ≤ after.length) && decide ((fromCharsHex (after.take 2) 0).2 = .ok) &&
    sum.toUInt32 == (fromCharsHex (after.take 2) 0).1

theorem checksumLoop_eq {text : Bytes} (n i : Nat) (sum : UInt8) (inside : i + n ≤ text.length) :
    checksumLoop text n i sum = .ok (((text.drop i).take n).foldl (· ^^^ ·) sum) := by
  induction n generalizing i sum with
  | zero => simp [checksumLoop]
  | succ n ih =>
    have here : i < text.length := by omega
    simp only [checksumLoop, charAt_ok here, bind, Except.bind, ih (i + 1) _ (by omega)]
    rw [List.drop_eq_getElem_cons here, List.take_succ_cons, List.foldl_cons]

theorem checkValid_of_star {body after : Bytes} (absent : '*'.toUInt8 ∉ body) :
    checkValid (body ++ '*'.toUInt8 :: after) = .ok (checksumMatches (checksum body) after) := by
  have size : (body ++ '*'.toUInt8 :: after).length = body.length + 1 + after.length := by
    simp only [List.length_append, List.length_cons]
    omega
  simp only [checkValid, find_first absent, size]
  -- the digits are read only where two characters follow the star
  by_cases enough : 2 ≤ after.length
  · have digits : range (body ++ '*'.toUInt8 :: after) (body.length + 1) (body.length + 3) =
        .ok (after.take 2) := by
      rw [range_ok (by omega) (by omega), ← List.drop_drop, List.drop_left]
      simp
    have summed : ((body ++ '*'.toUInt8 :: after).drop 1).take (body.length - 1) = body.tail := by
      cases body with
      | nil => simp
      | cons c body => simp
    rw [if_pos (by omega), checksumLoop_eq _ _ _ (by omega), summed, digits]
    simp [bind, Except.bind, checksumMatches, checksum, enough]
  · rw [if_neg (by omega)]
    simp [checksumMatches, enough]

theorem checkValid_of_no_star {text : Bytes} (absent : '*'.toUInt8 ∉ text) :
    checkValid text = .ok false := by
  have none_found : find text '*'.toUInt8 0 = none := by simpa [find_eq_none_iff] using absent
  simp [checkValid, none_found]

/-- The checksum test never throws. -/
theorem checkValid_returns (text : Bytes) : ∃ valid, checkValid text = .ok valid := by
  by_cases star : '*'.toUInt8 ∈ text
  · obtain ⟨body, after, rfl, absent⟩ := List.eq_append_cons_of_mem star
    exact ⟨_, checkValid_of_star absent⟩
  · exact ⟨_, checkValid_of_no_star star⟩

/-! ### The fields -/

/-- The six comma-terminated fields of a sentence and what follows them. -/
structure Fields where
  talker : Bytes
  count : Bytes
  number : Bytes
  seq : Bytes
  channel : Bytes
  payload : Bytes
  rest : Bytes

namespace Fields

/-- The text a sentence with these fields has. -/
def join (f : Fields) : Bytes :=
  f.talker ++ ','.toUInt8 :: (f.count ++ ','.toUInt8 :: (f.number ++ ','.toUInt8 ::
    (f.seq ++ ','.toUInt8 :: (f.channel ++ ','.toUInt8 :: (f.payload ++ ','.toUInt8 :: f.rest)))))

/-- The text up to the sixth comma. -/
def head (f : Fields) : Bytes :=
  f.talker ++ ','.toUInt8 :: (f.count ++ ','.toUInt8 :: (f.number ++ ','.toUInt8 ::
    (f.seq ++ ','.toUInt8 :: (f.channel ++ ','.toUInt8 :: f.payload))))

theorem join_eq (f : Fields) : f.join = f.head ++ ','.toUInt8 :: f.rest := by
  simp [join, head]

theorem join_with_rest (f : Fields) (rest : Bytes) :
    ({ f with rest := rest } : Fields).join = f.head ++ ','.toUInt8 :: rest := join_eq _

/-- No field contains the comma that ends it. -/
structure CommaFree (f : Fields) : Prop where
  talker : ','.toUInt8 ∉ f.talker
  count : ','.toUInt8 ∉ f.count
  number : ','.toUInt8 ∉ f.number
  seq : ','.toUInt8 ∉ f.seq
  channel : ','.toUInt8 ∉ f.channel
  payload : ','.toUInt8 ∉ f.payload

theorem CommaFree.with_rest {f : Fields} (free : f.CommaFree) (rest : Bytes) :
    ({ f with rest := rest } : Fields).CommaFree :=
  ⟨free.talker, free.count, free.number, free.seq, free.channel, free.payload⟩

theorem CommaFree.count_head {f : Fields} (free : f.CommaFree) : f.head.count ','.toUInt8 = 5 := by
  simp [head, List.count_append, List.count_eq_zero.mpr free.talker,
    List.count_eq_zero.mpr free.count, List.count_eq_zero.mpr free.number,
    List.count_eq_zero.mpr free.seq, List.count_eq_zero.mpr free.channel,
    List.count_eq_zero.mpr free.payload]

end Fields

/-- The first comma after `before` ends `field`; the next field starts behind it. -/
private theorem find_comma {text before field after : Bytes} {pos : Nat}
    (split : text = before ++ (field ++ ','.toUInt8 :: after)) (start : pos = before.length)
    (absent : ','.toUInt8 ∉ field) :
    ∃ before', find text ','.toUInt8 pos = some (pos + field.length) ∧
      range text pos (pos + field.length) = .ok field ∧
      text = before' ++ after ∧ pos + field.length + 1 = before'.length := by
  subst split
  refine ⟨before ++ field ++ [','.toUInt8], find_append start absent, range_append start rfl,
    by simp, ?_⟩
  simp only [start, List.length_append, List.length_singleton]

/-- The six commas, each behind the last, and the fields they cut out. -/
theorem findCommas_join {f : Fields} (free : f.CommaFree) :
    ∃ c0 c1 c2 c3 c4 c5, findCommas f.join = some (c0, c1, c2, c3, c4, c5) ∧
      (c0 < c1 ∧ c1 < c2 ∧ c2 < c3 ∧ c3 < c4 ∧ c4 < c5 ∧ c5 = f.head.length) ∧
      range f.join (c0 + 1) c1 = .ok f.count ∧ range f.join (c1 + 1) c2 = .ok f.number ∧
      range f.join (c2 + 1) c3 = .ok f.seq ∧ range f.join (c3 + 1) c4 = .ok f.channel ∧
      range f.join (c4 + 1) c5 = .ok f.payload ∧ range f.join (c5 + 1) f.join.length = .ok f.rest := by
  -- each comma found is where the search for the next one starts
  obtain ⟨_, find0, -, cut0, next0⟩ := @find_comma f.join [] f.talker _ 0 rfl rfl free.talker
  obtain ⟨_, find1, field1, cut1, next1⟩ := find_comma cut0 next0 free.count
  obtain ⟨_, find2, field2, cut2, next2⟩ := find_comma cut1 next1 free.number
  obtain ⟨_, find3, field3, cut3, next3⟩ := find_comma cut2 next2 free.seq
  obtain ⟨_, find4, field4, cut4, next4⟩ := find_comma cut3 next3 free.channel
  obtain ⟨before, find5, field5, cut5, next5⟩ := find_comma cut4 next4 free.payload
  refine ⟨_, _, _, _, _, _, ?_, ?_, field1, field2, field3, field4, field5, ?_⟩
  · simp only [findCommas, find0, find1, find2, find3, find4, find5, bind, Option.bind]
  · simp only [Fields.head, List.length_append, List.length_cons]
    omega
  · have size : f.join.length = 0 + f.talker.length + 1 + f.count.length + 1 + f.number.length + 1 +
        f.seq.length + 1 + f.channel.length + 1 + f.payload.length + 1 + f.rest.length := by
      rw [next5, ← List.length_append, ← cut5]
    have covers := @range_append before f.rest [] _ f.join.length next5 size
    rwa [List.append_nil, ← cut5] at covers

theorem ofText_join {f : Fields} (free : f.CommaFree) {valid : Bool}
    (checked : checkValid f.join = .ok valid) :
    ofText f.join = .ok {
      text := f.join
      isValid := valid
      isWellFormed := true
      fragmentCount := (fromCharsInt f.count 0).1
      fragmentNumber := (fromCharsInt f.number 0).1
      sequenceId := sequenceIdOf f.seq
      channel := f.channel
      payload := f.payload
      fillBits := (fromCharsInt f.rest 0).1 } := by
  obtain ⟨c0, c1, c2, c3, c4, c5, commas, -, count, number, seq, channel, payload, rest⟩ :=
    findCommas_join free
  simp only [ofText, checked, commas, count, number, seq, channel, payload, rest, bind, Except.bind]

private theorem split_at_comma {text before tail : Bytes} {pos comma : Nat}
    (split : text = before ++ tail) (start : pos = before.length)
    (found : find text ','.toUInt8 pos = some comma) :
    ∃ field after before', ','.toUInt8 ∉ field ∧ tail = field ++ ','.toUInt8 :: after ∧
      text = before' ++ after ∧ comma + 1 = before'.length := by
  obtain ⟨field, after, cut, absent, rfl⟩ := find_eq_some_iff.mp found
  rw [split, start, List.drop_left] at cut
  refine ⟨field, after, before ++ field ++ [','.toUInt8], absent, cut, ?_, ?_⟩
  · simp [split, cut]
  · simp only [start, List.length_append, List.length_singleton]

/-- Every text has fewer than six commas or is made of fields. -/
theorem findCommas_cases (text : Bytes) :
    findCommas text = none ∨ ∃ f : Fields, f.CommaFree ∧ text = f.join := by
  cases find0 : find text ','.toUInt8 0 with
  | none => exact Or.inl (by simp [findCommas, find0])
  | some c0 =>
  obtain ⟨talker, _, _, free0, tail0, cut0, next0⟩ :=
    @split_at_comma text [] text 0 c0 rfl rfl find0
  cases find1 : find text ','.toUInt8 (c0 + 1) with
  | none => exact Or.inl (by simp [findCommas, find0, find1])
  | some c1 =>
  obtain ⟨count, _, _, free1, tail1, cut1, next1⟩ := split_at_comma cut0 next0 find1
  cases find2 : find text ','.toUInt8 (c1 + 1) with
  | none => exact Or.inl (by simp [findCommas, find0, find1, find2])
  | some c2 =>
  obtain ⟨number, _, _, free2, tail2, cut2, next2⟩ := split_at_comma cut1 next1 find2
  cases find3 : find text ','.toUInt8 (c2 + 1) with
  | none => exact Or.inl (by simp [findCommas, find0, find1, find2, find3])
  | some c3 =>
  obtain ⟨seq, _, _, free3, tail3, cut3, next3⟩ := split_at_comma cut2 next2 find3
  cases find4 : find text ','.toUInt8 (c3 + 1) with
  | none => exact Or.inl (by simp [findCommas, find0, find1, find2, find3, find4])
  | some c4 =>
  obtain ⟨channel, _, _, free4, tail4, cut4, next4⟩ := split_at_comma cut3 next3 find4
  cases find5 : find text ','.toUInt8 (c4 + 1) with
  | none => exact Or.inl (by simp [findCommas, find0, find1, find2, find3, find4, find5])
  | some c5 =>
  obtain ⟨payload, rest, _, free5, tail5, -, -⟩ := split_at_comma cut4 next4 find5
  refine Or.inr ⟨⟨talker, count, number, seq, channel, payload, rest⟩,
    ⟨free0, free1, free2, free3, free4, free5⟩, ?_⟩
  simp only [Fields.join, ← tail5, ← tail4, ← tail3, ← tail2, ← tail1, ← tail0]

/-- The constructor never throws, whatever the text. -/
theorem ofText_returns (text : Bytes) : ∃ sentence, ofText text = .ok sentence := by
  obtain ⟨valid, checked⟩ := checkValid_returns text
  rcases findCommas_cases text with few | ⟨f, free, rfl⟩
  · refine ⟨{ text := text, isValid := valid }, ?_⟩
    simp only [ofText, checked, few, bind, Except.bind]
  · exact ⟨_, ofText_join free checked⟩

end Sentence

end Ais
