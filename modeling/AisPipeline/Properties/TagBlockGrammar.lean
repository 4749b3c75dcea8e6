import AisPipeline.Pipeline.TaggedLine

/-!
# Tag blocks against their grammar

A line with a tag block is `\block\sentence`. The source is the text of the
first field `s:…` of the block, of those before its checksum.
-/
namespace Ais

open Cpp

/-- The line is a block between two backslashes and the sentence after it. -/
structure Tagged (line block sentence : Bytes) : Prop where
  line_eq : line = '\\'.toUInt8 :: (block ++ '\\'.toUInt8 :: sentence)
  block_closed : '\\'.toUInt8 ∉ block

/-- The field is `s:` and a source of at least one character. -/
structure NamesSource (field source : Bytes) : Prop where
  field_eq : field = 's'.toUInt8 :: ':'.toUInt8 :: source
  nonempty : source ≠ []

/-- The first of the fields that name a source names this one. -/
def FirstSource (fields : List Bytes) (source : Bytes) : Prop :=
  ∃ before field after, fields = before ++ field :: after ∧ NamesSource field source ∧
    ∀ other ∈ before, ∀ another, ¬ NamesSource other another

private theorem tagged_cases (line : Bytes) :
    line.head? ≠ some '\\'.toUInt8 ∨
      (∃ block, line = '\\'.toUInt8 :: block ∧ '\\'.toUInt8 ∉ block) ∨
        ∃ block sentence, Tagged line block sentence := by
  by_cases tagged : line.head? = some '\\'.toUInt8
  · right
    obtain ⟨rest, rfl⟩ := List.head?_eq_some_iff.mp tagged
    by_cases closed : '\\'.toUInt8 ∈ rest
    · obtain ⟨block, sentence, rfl, absent⟩ := List.eq_append_cons_of_mem closed
      exact Or.inr ⟨block, sentence, rfl, absent⟩
    · exact Or.inl ⟨rest, rfl, closed⟩
  · exact Or.inl tagged

theorem Tagged.strip {line block sentence : Bytes} (tagged : Tagged line block sentence) :
    stripTagBlock line = .ok (some sentence) := by
  rw [tagged.line_eq]
  exact stripTagBlock_tagged sentence tagged.block_closed

/-! ### The source -/

theorem isSourceField_iff {field : Bytes} :
    isSourceField field = true ↔ ∃ source, NamesSource field source := by
  simp only [isSourceField, Bool.and_eq_true, decide_eq_true_eq, List.isPrefixOf_iff_prefix]
  constructor
  · rintro ⟨long, source, rfl⟩
    refine ⟨source, rfl, ?_⟩
    rintro rfl
    simp at long
  · rintro ⟨source, rfl, nonempty⟩
    have positive := List.length_pos_of_ne_nil nonempty
    refine ⟨?_, source, rfl⟩
    simp only [List.length_cons]
    omega

theorem NamesSource.drop_eq {field source : Bytes} (names : NamesSource field source) :
    field.drop 2 = source := by
  rw [names.field_eq]
  rfl

/-- The search over the fields finds the first that names a source. -/
theorem find?_source_iff (fields : List Bytes) (source : Bytes) :
    (fields.find? isSourceField).map (List.drop 2) = some source ↔ FirstSource fields source := by
  simp only [Option.map_eq_some_iff, List.find?_eq_some_iff_append, Bool.not_eq_true',
    ← Bool.not_eq_true, isSourceField_iff, not_exists]
  constructor
  · rintro ⟨field, ⟨⟨found, names⟩, before, after, cut, none_before⟩, text⟩
    rw [names.drop_eq] at text
    subst text
    exact ⟨before, field, after, cut, names, none_before⟩
  · rintro ⟨before, field, after, cut, names, none_before⟩
    exact ⟨field, ⟨⟨source, names⟩, before, after, cut, none_before⟩, names.drop_eq⟩

theorem sourceAmong_eq_some_iff {fields source : Bytes} :
    sourceAmong fields = some source ↔ FirstSource (fields.splitOn ','.toUInt8) source :=
  find?_source_iff _ source

/-- The scanning loop ends, whatever the fields. -/
theorem scanFields_ends (fields : Bytes) {fuel : Nat} (enough : fields.length < fuel) :
    scanFields fields fuel 0 = .ok (sourceAmong fields) :=
  scanFields_eq fuel (List.nil_append fields).symm rfl enough

theorem tagBlockSource_eq_some_iff {line source : Bytes} :
    tagBlockSource line = .ok (some source) ↔
      ∃ block sentence, Tagged line block sentence ∧
        FirstSource ((tagBlockFields block).splitOn ','.toUInt8) source := by
  constructor
  · intro found
    rcases tagged_cases line with untagged | ⟨block, rfl, unclosed⟩ | ⟨block, sentence, tagged⟩
    -- without a complete block nothing is found
    · rw [tagBlockSource_untagged untagged] at found
      cases found
    · rw [tagBlockSource_open unclosed] at found
      cases found
    · rw [tagged.line_eq, tagBlockSource_tagged sentence tagged.block_closed, Except.ok.injEq] at found
      exact ⟨block, sentence, tagged, sourceAmong_eq_some_iff.mp found⟩
  · rintro ⟨block, sentence, tagged, first⟩
    rw [tagged.line_eq, tagBlockSource_tagged sentence tagged.block_closed,
      sourceAmong_eq_some_iff.mpr first]

/-! ### Writing a tag block -/

/-- `\field,…,field\sentence`, with `*` and a checksum after the fields if there is one. -/
def writeTagged (fields : List Bytes) (checksum : Option Bytes) (sentence : Bytes) : Bytes :=
  '\\'.toUInt8 :: ([ ','.toUInt8].intercalate fields ++
    (checksum.toList.flatMap fun digits => '*'.toUInt8 :: digits) ++ '\\'.toUInt8 :: sentence)

private theorem not_mem_intercalate {fields : List Bytes} {c : UInt8} (other : c ≠ ','.toUInt8)
    (absent : ∀ field ∈ fields, c ∉ field) : c ∉ [ ','.toUInt8].intercalate fields := by
  induction fields with
  | nil => simp
  | cons field fields ih =>
    have here := absent field List.mem_cons_self
    have later := ih fun next member => absent next (List.mem_cons_of_mem _ member)
    cases fields with
    | nil => simpa using here
    | cons next fields =>
      rw [List.intercalate_cons_cons]
      simp only [List.mem_append, List.mem_singleton, not_or]
      exact ⟨⟨here, other⟩, later⟩

/-- A block of clean fields holds just these fields before its checksum. -/
private theorem fields_of_written {fields : List Bytes} (clean : ∀ field ∈ fields, TaggedLine.CleanField field)
    (checksum : Option Bytes) :
    tagBlockFields ([ ','.toUInt8].intercalate fields ++
      (checksum.toList.flatMap fun digits => '*'.toUInt8 :: digits)) =
        [ ','.toUInt8].intercalate fields := by
  have starless := not_mem_intercalate (c := '*'.toUInt8) (by decide) fun field member => (clean field member).star
  cases checksum with
  | none =>
    simp only [Option.toList_none, List.flatMap_nil, List.append_nil]
    exact takeWhile_ne_of_not_mem starless
  | some digits =>
    simp only [Option.toList_some, List.flatMap_singleton]
    exact takeWhile_ne_append_cons digits starless

private theorem firstSource_split {fields : List Bytes}
    (clean : ∀ field ∈ fields, TaggedLine.CleanField field) (source : Bytes) :
    FirstSource (([ ','.toUInt8].intercalate fields).splitOn ','.toUInt8) source ↔
      FirstSource fields source := by
  by_cases empty : fields = []
  · subst empty
    -- no field at all is written as one empty field
    have split : ([ ','.toUInt8].intercalate ([] : List Bytes)).splitOn ','.toUInt8 = [[]] := by decide
    have none_there : [([] : Bytes)].find? isSourceField = none := by decide
    rw [split, ← find?_source_iff, ← find?_source_iff, none_there, List.find?_nil]
  · rw [List.splitOn_intercalate _ (fun field member => (clean field member).comma) empty]

theorem written_tagged {fields : List Bytes} (clean : ∀ field ∈ fields, TaggedLine.CleanField field)
    {checksum : Option Bytes} (closed : ∀ digits ∈ checksum, '\\'.toUInt8 ∉ digits) (sentence : Bytes) :
    Tagged (writeTagged fields checksum sentence) ([ ','.toUInt8].intercalate fields ++
      (checksum.toList.flatMap fun digits => '*'.toUInt8 :: digits)) sentence := by
  have unclosed := not_mem_intercalate (c := '\\'.toUInt8) (by decide)
    fun field member => (clean field member).backslash
  refine ⟨rfl, ?_⟩
  cases checksum with
  | none => simpa using unclosed
  | some digits =>
    have other : '\\'.toUInt8 ≠ '*'.toUInt8 := by decide
    simpa [unclosed, other] using closed digits rfl

/-- A written line is read back: the sentence, and the source its fields name first. -/
theorem written_read {fields : List Bytes} (clean : ∀ field ∈ fields, TaggedLine.CleanField field)
    {checksum : Option Bytes} (closed : ∀ digits ∈ checksum, '\\'.toUInt8 ∉ digits) (sentence : Bytes) :
    stripTagBlock (writeTagged fields checksum sentence) = .ok (some sentence) ∧
      ∀ source, tagBlockSource (writeTagged fields checksum sentence) = .ok (some source) ↔
        FirstSource fields source := by
  have tagged := written_tagged clean closed sentence
  refine ⟨tagged.strip, ?_⟩
  intro source
  -- the text before the checksum splits into the fields it was written from
  rw [tagged.line_eq, tagBlockSource_tagged sentence tagged.block_closed, fields_of_written clean,
    Except.ok.injEq, sourceAmong_eq_some_iff, firstSource_split clean]

/-- What the two functions return on any line, that the scan ends, and that together they read
back a line that was written. -/
theorem tag_block_grammar :
    (∀ line, ∃ view source, stripTagBlock line = .ok view ∧ tagBlockSource line = .ok source ∧
      (view = none ↔ line.head? = some '\\'.toUInt8 ∧ '\\'.toUInt8 ∉ line.tail) ∧
      (line.head? ≠ some '\\'.toUInt8 → view = some line) ∧
      (∀ block sentence, Tagged line block sentence → view = some sentence) ∧
      ∀ name, source = some name ↔ ∃ block sentence, Tagged line block sentence ∧
        FirstSource ((tagBlockFields block).splitOn ','.toUInt8) name) ∧
    (∀ fields fuel, fields.length < fuel → ∃ source, scanFields fields fuel 0 = .ok source) ∧
    ∀ (fields : List Bytes) (checksum : Option Bytes) (sentence : Bytes),
      (∀ field ∈ fields, TaggedLine.CleanField field) → (∀ digits ∈ checksum, '\\'.toUInt8 ∉ digits) →
        stripTagBlock (writeTagged fields checksum sentence) = .ok (some sentence) ∧
          ∀ source, tagBlockSource (writeTagged fields checksum sentence) = .ok (some source) ↔
            FirstSource fields source := by
  refine ⟨?_, fun fields fuel enough => ⟨_, scanFields_ends fields enough⟩,
    fun fields checksum sentence clean closed => written_read clean closed sentence⟩
  intro line
  obtain ⟨⟨view, stripped⟩, source, scanned⟩ := tagBlock_returns line
  refine ⟨view, source, stripped, scanned, ?_, ?_, ?_, ?_⟩
  · rcases tagged_cases line with untagged | ⟨block, rfl, unclosed⟩ | ⟨block, sentence, tagged⟩
    · rw [stripTagBlock_untagged untagged] at stripped
      cases stripped
      simp [untagged]
    · rw [stripTagBlock_open unclosed] at stripped
      cases stripped
      simp [unclosed]
    · rw [tagged.strip] at stripped
      cases stripped
      simp [tagged.line_eq]
  · intro untagged
    rw [stripTagBlock_untagged untagged] at stripped
    cases stripped
    rfl
  · intro block sentence tagged
    rw [tagged.strip] at stripped
    cases stripped
    rfl
  · intro name
    rw [← tagBlockSource_eq_some_iff, scanned, Except.ok.injEq]

/-- A time and a station, as a base station writes them. -/
def stationFields : List Bytes :=
  [ "c:1787171836", "s:2573505"].map fun field => field.toList.map Char.toUInt8

/-- The station is read out of a written line, with its sentence. -/
theorem tag_block_grammar_station :
    stripTagBlock (writeTagged stationFields (some [ '0'.toUInt8, 'C'.toUInt8]) [ '!'.toUInt8]) =
        .ok (some [ '!'.toUInt8]) ∧
      tagBlockSource (writeTagged stationFields (some [ '0'.toUInt8, 'C'.toUInt8]) [ '!'.toUInt8]) =
        .ok (some ("2573505".toList.map Char.toUInt8)) := by
  have clean : ∀ field ∈ stationFields, TaggedLine.CleanField field := by
    intro field member
    have free : ∀ field ∈ stationFields, ','.toUInt8 ∉ field ∧ '*'.toUInt8 ∉ field ∧ '\\'.toUInt8 ∉ field := by
      decide
    exact ⟨(free field member).1, (free field member).2.1, (free field member).2.2⟩
  obtain ⟨read, names⟩ := tag_block_grammar.2.2 stationFields (some [ '0'.toUInt8, 'C'.toUInt8])
    [ '!'.toUInt8] clean (by decide)
  refine ⟨read, (names _).mpr ⟨["c:1787171836".toList.map Char.toUInt8], _, [], rfl, ⟨rfl, by decide⟩, ?_⟩⟩
  intro other member another names
  obtain rfl := List.mem_singleton.mp member
  exact absurd (isSourceField_iff.mpr ⟨another, names⟩) (by decide)

end Ais
