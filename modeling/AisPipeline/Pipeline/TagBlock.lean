import AisPipeline.Cpp.Text

/-!
# NMEA tag blocks

A tagged line is `\block\sentence`, with comma-separated fields in the block.
-/
namespace Ais

open Cpp

/-- `strip_tag_block`. -/
def stripTagBlock (line : Bytes) : Except Exn (Option Bytes) :=
  if line.head? ≠ some '\\'.toUInt8 then .ok (some line)
  else
    match find line '\\'.toUInt8 1 with
    -- a block that is never closed
    | none => .ok none
    | some endPos => do
      let stripped ← substrFrom line (endPos + 1)
      .ok (some stripped)

/-- `field.starts_with("s:")`, on a field longer than that. -/
def isSourceField (field : Bytes) : Bool :=
  decide (field.length > 2) && [ 's'.toUInt8, ':'.toUInt8 ].isPrefixOf field

/-- The scanning loop of `tag_block_source`. Each turn moves `start` forward, so `fuel`
beyond the length of the block is never used up. -/
def scanFields (fields : Bytes) : Nat → Nat → Except Exn (Option Bytes)
  | 0, _ => .error (.undefinedBehaviour "endless loop")
  | fuel + 1, start =>
    if start < fields.length then do
      let commaPos := find fields ','.toUInt8 start
      let field ← match commaPos with
        | none => substrFrom fields start
        | some commaPos => substr fields start (commaPos - start)
      if isSourceField field then do
        let source ← substrFrom field 2
        .ok (some source)
      else
        match commaPos with
        | none => .ok none
        | some commaPos => scanFields fields fuel (commaPos + 1)
    else .ok none

/-- `tag_block_source`. -/
def tagBlockSource (line : Bytes) : Except Exn (Option Bytes) :=
  if line.head? ≠ some '\\'.toUInt8 then .ok none
  else
    match find line '\\'.toUInt8 1 with
    | none => .ok none
    | some endPos => do
      let tagBlock ← substr line 1 (endPos - 1)
      let fields ← match find tagBlock '*'.toUInt8 0 with
        | none => .ok tagBlock
        | some asteriskPos => substr tagBlock 0 asteriskPos
      scanFields fields (fields.length + 1) 0

/-! ### What the two functions return -/

/-- The part of a tag block before its checksum. -/
def tagBlockFields (block : Bytes) : Bytes := block.takeWhile (· ≠ '*'.toUInt8)

/-- The source among comma-separated fields: what follows `s:` in the first field that has
anything there. -/
def sourceAmong (fields : Bytes) : Option Bytes :=
  ((fields.splitOn ','.toUInt8).find? isSourceField).map (List.drop 2)

theorem stripTagBlock_untagged {line : Bytes} (h : line.head? ≠ some '\\'.toUInt8) :
    stripTagBlock line = .ok (some line) := by
  rw [stripTagBlock, if_pos h]

theorem tagBlockSource_untagged {line : Bytes} (h : line.head? ≠ some '\\'.toUInt8) :
    tagBlockSource line = .ok none := by
  rw [tagBlockSource, if_pos h]

private theorem find_block_end {block : Bytes} (after : Bytes) (absent : '\\'.toUInt8 ∉ block) :
    find ('\\'.toUInt8 :: (block ++ '\\'.toUInt8 :: after)) '\\'.toUInt8 1 =
      some (1 + block.length) := by
  rw [← List.singleton_append]
  exact find_append rfl absent

theorem stripTagBlock_tagged {block : Bytes} (after : Bytes) (absent : '\\'.toUInt8 ∉ block) :
    stripTagBlock ('\\'.toUInt8 :: (block ++ '\\'.toUInt8 :: after)) = .ok (some after) := by
  rw [stripTagBlock, if_neg (by simp), find_block_end after absent]
  simp only [bind, Except.bind]
  rw [substrFrom_ok (by simp only [List.length_cons, List.length_append]; omega)]
  rw [show 1 + block.length + 1 = (block.length + 1) + 1 by omega, List.drop_succ_cons]
  simp

private theorem find_no_block_end {block : Bytes} (absent : '\\'.toUInt8 ∉ block) :
    find ('\\'.toUInt8 :: block) '\\'.toUInt8 1 = none := by
  simpa [find_eq_none_iff] using absent

/-- A tag block that is never closed rejects the line. -/
theorem stripTagBlock_open {block : Bytes} (absent : '\\'.toUInt8 ∉ block) :
    stripTagBlock ('\\'.toUInt8 :: block) = .ok none := by
  rw [stripTagBlock, if_neg (by simp), find_no_block_end absent]

theorem tagBlockSource_open {block : Bytes} (absent : '\\'.toUInt8 ∉ block) :
    tagBlockSource ('\\'.toUInt8 :: block) = .ok none := by
  rw [tagBlockSource, if_neg (by simp), find_no_block_end absent]

theorem sourceAmong_last {field : Bytes} (absent : ','.toUInt8 ∉ field) :
    sourceAmong field = if isSourceField field then some (field.drop 2) else none := by
  rw [sourceAmong, List.splitOn_eq_singleton absent]
  cases h : isSourceField field <;> simp [h]

theorem sourceAmong_cons {field : Bytes} (after : Bytes) (absent : ','.toUInt8 ∉ field) :
    sourceAmong (field ++ ','.toUInt8 :: after) =
      if isSourceField field then some (field.drop 2) else sourceAmong after := by
  rw [sourceAmong, List.splitOn_append_cons_self_of_not_mem absent]
  cases h : isSourceField field <;> simp [h, sourceAmong]

theorem isSourceField_length {field : Bytes} (h : isSourceField field = true) :
    2 < field.length := by
  simp only [isSourceField, Bool.and_eq_true, decide_eq_true_eq] at h
  exact h.1

/-- The scan from `start` looks at the fields that begin there, and ends. -/
theorem scanFields_eq {fields before tail : Bytes} {start : Nat} (fuel : Nat)
    (split : fields = before ++ tail) (at_start : start = before.length) (enough : tail.length < fuel) :
    scanFields fields fuel start = .ok (sourceAmong tail) := by
  -- what is left to scan gets shorter each turn, so the fuel outlasts it
  induction fuel generalizing before tail start with
  | zero => omega
  | succ fuel ih =>
    have size : fields.length = start + tail.length := by rw [split, at_start, List.length_append]
    have rest : fields.drop start = tail := by rw [split, at_start, List.drop_left]
    rw [scanFields]
    by_cases empty : tail = []
    · rw [if_neg (by simp [size, empty]), empty]
      rfl
    have nonempty := List.length_pos_of_ne_nil empty
    rw [if_pos (by omega)]
    cases found : find fields ','.toUInt8 start with
    | none =>
      have absent : ','.toUInt8 ∉ tail := rest ▸ find_eq_none_iff.mp found
      simp only [substrFrom_ok (show start ≤ fields.length by omega), rest, bind, Except.bind,
        sourceAmong_last absent]
      split
      next source => rw [substrFrom_ok (by have := isSourceField_length source; omega)]
      · rfl
    | some comma =>
      obtain ⟨field, after, cut, absent, rfl⟩ := find_eq_some_iff.mp found
      rw [rest] at cut
      have taken : substr fields start (start + field.length - start) = .ok field := by
        rw [substr_ok _ (by omega), rest, cut, Nat.add_sub_cancel_left, List.take_left]
      simp only [taken, bind, Except.bind, cut, sourceAmong_cons after absent]
      split
      next source => rw [substrFrom_ok (by have := isSourceField_length source; omega)]
      next other =>
        -- the turn took the field and its comma
        have shorter : after.length < fuel := by
          rw [cut, List.length_append, List.length_cons] at enough
          omega
        have split' : fields = (before ++ field ++ [ ','.toUInt8]) ++ after := by simp [split, cut]
        apply ih split' _ shorter
        simp only [at_start, List.length_append, List.length_singleton]

theorem tagBlockSource_tagged {block : Bytes} (after : Bytes) (absent : '\\'.toUInt8 ∉ block) :
    tagBlockSource ('\\'.toUInt8 :: (block ++ '\\'.toUInt8 :: after)) =
      .ok (sourceAmong (tagBlockFields block)) := by
  have contents : substr ('\\'.toUInt8 :: (block ++ '\\'.toUInt8 :: after)) 1
      (1 + block.length - 1) = .ok block := by
    rw [substr_ok _ (by simp), Nat.add_sub_cancel_left]
    simp
  have scan (fields : Bytes) : scanFields fields (fields.length + 1) 0 = .ok (sourceAmong fields) :=
    scanFields_eq _ (List.nil_append fields).symm rfl (Nat.lt_succ_self _)
  rw [tagBlockSource, if_neg (by simp), find_block_end after absent]
  simp only [contents, bind, Except.bind]
  cases found : find block '*'.toUInt8 0 with
  | none =>
    have absent : '*'.toUInt8 ∉ block := by simpa using find_eq_none_iff.mp found
    rw [tagBlockFields, takeWhile_ne_of_not_mem absent]
    exact scan block
  | some asterisk =>
    obtain ⟨fields, checksum, cut, no_star, rfl⟩ := find_eq_some_iff.mp found
    rw [List.drop_zero] at cut
    subst cut
    simp only [Nat.zero_add, substr_ok _ (Nat.zero_le _), List.drop_zero, List.take_left, scan]
    rw [tagBlockFields, takeWhile_ne_append_cons _ no_star]

/-- Neither function throws, and the stripped line is the tail of the line. -/
theorem tagBlock_returns (line : Bytes) :
    (∃ view, stripTagBlock line = .ok view) ∧ ∃ source, tagBlockSource line = .ok source := by
  by_cases tagged : line.head? = some '\\'.toUInt8
  · obtain ⟨rest, rfl⟩ : ∃ rest, line = '\\'.toUInt8 :: rest := List.head?_eq_some_iff.mp tagged
    by_cases closed : '\\'.toUInt8 ∈ rest
    · obtain ⟨block, after, rfl, absent⟩ := List.eq_append_cons_of_mem closed
      exact ⟨⟨_, stripTagBlock_tagged after absent⟩, ⟨_, tagBlockSource_tagged after absent⟩⟩
    · exact ⟨⟨_, stripTagBlock_open closed⟩, ⟨_, tagBlockSource_open closed⟩⟩
  · exact ⟨⟨_, stripTagBlock_untagged tagged⟩, ⟨_, tagBlockSource_untagged tagged⟩⟩

end Ais
