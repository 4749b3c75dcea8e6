import AisPipeline.Decoder.SentenceText
import AisPipeline.Pipeline.DecoderStage

/-!
# Writing tag-blocked lines

A line `\fields,s:station…\sentence`, and what the stage reads out of it.
-/
namespace Ais

open Cpp

/-- The tag block in front of a sentence: fields, the station name, and what else stands in
the block (further fields, or a checksum after `*`). -/
structure TaggedLine where
  fields : List Bytes := []
  station : Bytes
  after : Bytes := []
  sentence : SentenceText

namespace TaggedLine

def sourceField (t : TaggedLine) : Bytes := 's'.toUInt8 :: ':'.toUInt8 :: t.station

def block (t : TaggedLine) : Bytes :=
  (t.fields.flatMap fun field => field ++ [ ','.toUInt8]) ++ (t.sourceField ++ t.after)

def write (t : TaggedLine) : Bytes :=
  '\\'.toUInt8 :: (t.block ++ '\\'.toUInt8 :: t.sentence.write)

/-- A field of a tag block contains no delimiter. -/
structure CleanField (field : Bytes) : Prop where
  comma : ','.toUInt8 ∉ field
  star : '*'.toUInt8 ∉ field
  backslash : '\\'.toUInt8 ∉ field

/-- The block is well formed and the station is its first source. -/
structure Clean (t : TaggedLine) : Prop where
  fields : ∀ field ∈ t.fields, CleanField field ∧ isSourceField field = false
  station : CleanField t.station
  station_nonempty : t.station ≠ []
  after : t.after = [] ∨ t.after.head? = some ','.toUInt8 ∨ t.after.head? = some '*'.toUInt8
  after_backslash : '\\'.toUInt8 ∉ t.after
  sentence : t.sentence.Clean

variable {t : TaggedLine}

private theorem sourceField_clean (clean : t.Clean) : CleanField t.sourceField where
  comma := by
    simp only [sourceField, List.mem_cons, not_or]
    exact ⟨by decide, by decide, clean.station.comma⟩
  star := by
    simp only [sourceField, List.mem_cons, not_or]
    exact ⟨by decide, by decide, clean.station.star⟩
  backslash := by
    simp only [sourceField, List.mem_cons, not_or]
    exact ⟨by decide, by decide, clean.station.backslash⟩

private theorem backslash_not_mem_block (clean : t.Clean) : '\\'.toUInt8 ∉ t.block := by
  simp only [block, List.mem_append, List.mem_flatMap, not_or, not_exists, not_and]
  refine ⟨?_, (sourceField_clean clean).backslash, clean.after_backslash⟩
  intro field member
  exact ⟨(clean.fields field member).1.backslash, by decide⟩

/-- Up to its checksum a block is its fields, the source field, and more fields or nothing. -/
private theorem tagBlockFields_block (clean : t.Clean) :
    ∃ more, (more = [] ∨ more.head? = some ','.toUInt8) ∧
      tagBlockFields t.block =
        (t.fields.flatMap fun field => field ++ [ ','.toUInt8]) ++ (t.sourceField ++ more) := by
  refine ⟨t.after.takeWhile (· ≠ '*'.toUInt8), ?_, ?_⟩
  · rcases clean.after with none_left | comma | star
    · simp [none_left]
    · obtain ⟨rest, split⟩ := List.head?_eq_some_iff.mp comma
      rw [split, List.takeWhile_cons_of_pos (by decide)]
      exact Or.inr rfl
    · obtain ⟨rest, split⟩ := List.head?_eq_some_iff.mp star
      simp [split]
  · rw [tagBlockFields, block, ← List.append_assoc, List.takeWhile_append_of_pos, List.append_assoc]
    intro c member
    have other : c ≠ '*'.toUInt8 := by
      rintro rfl
      rcases List.mem_append.mp member with early | source
      · obtain ⟨field, listed, inside⟩ := List.mem_flatMap.mp early
        rcases List.mem_append.mp inside with own | comma
        · exact (clean.fields field listed).1.star own
        · exact absurd (List.mem_singleton.mp comma) (by decide)
      · exact (sourceField_clean clean).star source
    simpa using other

private theorem isSourceField_sourceField (clean : t.Clean) : isSourceField t.sourceField = true := by
  have positive := List.length_pos_of_ne_nil clean.station_nonempty
  simp [isSourceField, sourceField, positive]

theorem sourceAmong_block (clean : t.Clean) :
    sourceAmong (tagBlockFields t.block) = some t.station := by
  obtain ⟨more, ends, split⟩ := tagBlockFields_block clean
  have found : sourceAmong (t.sourceField ++ more) = some t.station := by
    rcases ends with rfl | comma
    · rw [List.append_nil, sourceAmong_last (sourceField_clean clean).comma,
        if_pos (isSourceField_sourceField clean)]
      rfl
    · obtain ⟨rest, rfl⟩ := List.head?_eq_some_iff.mp comma
      rw [sourceAmong_cons rest (sourceField_clean clean).comma,
        if_pos (isSourceField_sourceField clean)]
      rfl
  have skip (fields : List Bytes) (harmless : ∀ field ∈ fields, CleanField field ∧
      isSourceField field = false) : sourceAmong ((fields.flatMap fun field =>
        field ++ [ ','.toUInt8]) ++ (t.sourceField ++ more)) = some t.station := by
    induction fields with
    | nil => exact found
    | cons field fields ih =>
      have here := harmless field (by simp)
      rw [List.flatMap_cons, List.append_assoc, List.append_assoc, List.singleton_append,
        sourceAmong_cons _ here.1.comma, if_neg (by simp [here.2])]
      exact ih fun other member => harmless other (List.mem_cons_of_mem _ member)
  rw [split]
  exact skip t.fields clean.fields

/-- The call a written line leads to. -/
theorem lineCall_write (clean : t.Clean) :
    DecoderStage.lineCall t.write = some ⟨t.sentence.sentence, t.station⟩ := by
  have absent := backslash_not_mem_block clean
  rw [DecoderStage.lineCall, write, stripTagBlock_tagged _ absent, tagBlockSource_tagged _ absent,
    sourceAmong_block clean]
  simp only [SentenceText.ofText_write clean.sentence]
  rfl

end TaggedLine

end Ais
