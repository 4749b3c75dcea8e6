import AisPipeline.Decoder.Decoder
import AisPipeline.Pipeline.DecoderStage

/-!
# The two ways from a sentence to a report

`decode_sentence` and the decoder stage make the same checks of a sentence and
read the same bits of its payload. Only the stage asks how many fragments there
are, so the two part on the fragment that looks like a whole report.
-/
namespace Ais

open Cpp

namespace Payload

private theorem carried_messageType {payload : Payload} (carried : payload.CarriesPosition) :
    1 ≤ (positionReportAt payload).messageType ∧ (positionReportAt payload).messageType ≤ 3 := by
  obtain ⟨-, low, high⟩ := carried
  simp only [positionReportAt, UInt64.le_iff_toNat_le, UInt8.le_iff_toNat_le, UInt64.toNat_toUInt8,
    UInt64.reduceToNat, UInt8.reduceToNat] at low high ⊢
  omega

/-- A class B report keeps its own type. -/
private theorem classB_messageType {payload : Payload} (classB : payload.uintAt 0 6 = 18) :
    (classBPositionReportAt payload).messageType = 18 := by
  rw [classBPositionReportAt, classB]
  rfl

/-- The payloads decoded to a report of type 1-3, and to which. -/
theorem messageAt_position_iff (payload : Payload) (report : PositionReport) :
    (messageAt payload = some (.positionReport report) ∧
        1 ≤ report.messageType ∧ report.messageType ≤ 3) ↔
      payload.CarriesPosition ∧ positionReportAt payload = report := by
  constructor
  · rintro ⟨decoded, -, low⟩
    by_cases position : 1 ≤ payload.uintAt 0 6 ∧ payload.uintAt 0 6 ≤ 3
    · by_cases long : 168 ≤ payload.bitCount
      · simp only [messageAt, position, and_self, if_true, if_neg (not_lt.mpr long),
          if_neg (show ¬ payload.bitCount < 6 by omega), Option.some.injEq,
          AisMessage.positionReport.injEq] at decoded
        exact ⟨⟨long, position⟩, decoded⟩
      · simp [messageAt, position, not_le.mp long] at decoded
    · have classB : payload.uintAt 0 6 = 18 ∧ classBPositionReportAt payload = report := by
        simp only [messageAt, if_neg position, Option.ite_none_left_eq_some] at decoded
        grind
      -- the only other report there is has type 18
      rw [← classB.2, classB_messageType classB.1] at low
      exact absurd low (by decide)
  · rintro ⟨carried, rfl⟩
    refine ⟨?_, carried_messageType carried⟩
    obtain ⟨long, position⟩ := carried
    rw [messageAt, if_neg (by omega), if_pos position, if_neg (not_lt.mpr long)]

end Payload

namespace DecoderStage

/-- Where nothing is pending no fragment completes a message. -/
private theorem groupStep_fresh {sentence : Sentence} :
    (SentenceAssembler.groupStep none sentence).2 = none := by
  simp only [SentenceAssembler.groupStep, Option.getD_none, List.length_nil, Nat.zero_add]
  split
  · rfl
  next notFirst =>
    have gap : sizeCast sentence.fragmentNumber ≠ 1 := by
      intro one
      rw [sizeCast_eq_iff (by omega)] at one
      exact notFirst (Int32.toInt_inj.mp one)
    rw [if_pos gap]

/-- A fresh assembler answers a sentence only when it is the only fragment. -/
private theorem add_fresh (sentence : Sentence) (source : Bytes) :
    (SentenceAssembler.add {} sentence source).2 =
      if sentence.fragmentCount = 1 then some sentence.ownPayload else none := by
  rw [SentenceAssembler.add_eq_step {} ⟨sentence, source⟩]
  by_cases single : sentence.fragmentCount = 1
  · have keyless : SentenceAssembler.machine.key ⟨sentence, source⟩ = none := by
      simp [SentenceAssembler.machine, SentenceAssembler.Call.key, single]
    rw [Keyed.Machine.step_of_no_key keyless]
    simp [SentenceAssembler.machine, single, Sentence.ownPayload]
  · rw [if_neg single]
    cases keyed : SentenceAssembler.machine.key ⟨sentence, source⟩ with
    | none =>
      rw [Keyed.Machine.step_of_no_key keyed]
      simp [SentenceAssembler.machine, single]
    | some key =>
      rw [Keyed.Machine.step_of_key keyed]
      exact groupStep_fresh

/-- The stage in its initial state, on a line without a tag block. -/
theorem processLine_fresh {text : Bytes} (untagged : text.head? ≠ some '\\'.toUInt8)
    {sentence : Sentence} (parsed : Sentence.ofText text = .ok sentence) :
    ∃ after, DecoderStage.processLine {} text = .ok (after,
      if sentence.isValid ∧ sentence.isWellFormed ∧ sentence.fragmentCount = 1
        then messageAt sentence.ownPayload else none) := by
  have answer := add_fresh sentence []
  rw [processLine]
  simp only [stripTagBlock_untagged untagged, tagBlockSource_untagged untagged, parsed, bind,
    Except.bind, Option.getD_none]
  by_cases accepted : sentence.isValid ∧ sentence.isWellFormed
  · rw [if_pos accepted]
    by_cases single : sentence.fragmentCount = 1
    · rw [if_pos single] at answer
      simp only [answer, decodeMessage_eq, accepted, single, and_self, if_true]
      exact ⟨_, rfl⟩
    · rw [if_neg single] at answer
      simp only [answer, single, and_false, if_false]
      exact ⟨_, rfl⟩
  · rw [if_neg accepted, if_neg]
    · exact ⟨_, rfl⟩
    · rintro ⟨valid, wellFormed, -⟩
      exact accepted ⟨valid, wellFormed⟩

/-- The stage in its initial state pushes this report of type 1-3 for the line. -/
def EmitsReport (line : Bytes) (report : PositionReport) : Prop :=
  ∃ after, DecoderStage.processLine {} line = .ok (after, some (.positionReport report)) ∧
    1 ≤ report.messageType ∧ report.messageType ≤ 3

theorem emitsReport_iff {text : Bytes} (untagged : text.head? ≠ some '\\'.toUInt8)
    {sentence : Sentence} (parsed : Sentence.ofText text = .ok sentence) (report : PositionReport) :
    EmitsReport text report ↔
      (sentence.isValid ∧ sentence.isWellFormed ∧ sentence.fragmentCount = 1) ∧
        sentence.ownPayload.CarriesPosition ∧ positionReportAt sentence.ownPayload = report := by
  obtain ⟨after, processed⟩ := processLine_fresh untagged parsed
  rw [← Payload.messageAt_position_iff, EmitsReport, processed]
  by_cases alone : sentence.isValid ∧ sentence.isWellFormed ∧ sentence.fragmentCount = 1
  · simp [alone]
  · simp [alone]

/-- The sentence is rejected, or is the only fragment, or its own payload is not that of a
position report. -/
def NoLoneReport (sentence : Sentence) : Prop :=
  ¬ sentence.isValid ∨ ¬ sentence.isWellFormed ∨ sentence.fragmentCount = 1 ∨
    ¬ sentence.ownPayload.CarriesPosition

private theorem agree_iff {text : Bytes} (untagged : text.head? ≠ some '\\'.toUInt8)
    {sentence : Sentence} (parsed : Sentence.ofText text = .ok sentence) :
    (∀ report, decodeSentence sentence = .ok (some report) ↔ EmitsReport text report) ↔
      NoLoneReport sentence := by
  have direct (report : PositionReport) : decodeSentence sentence = .ok (some report) ↔
      (sentence.isValid ∧ sentence.isWellFormed ∧ sentence.ownPayload.CarriesPosition) ∧
        positionReportAt sentence.ownPayload = report := by
    rw [decodeSentence_eq, Except.ok.injEq, Option.ite_none_right_eq_some, Option.some.injEq]
  simp only [NoLoneReport, direct, emitsReport_iff untagged parsed]
  constructor
  · intro agree
    by_contra lone
    simp only [not_or, not_not] at lone
    obtain ⟨valid, wellFormed, several, carried⟩ := lone
    exact several ((agree _).mp ⟨⟨valid, wellFormed, carried⟩, rfl⟩).1.2.2
  · intro harmless report
    constructor
    · rintro ⟨⟨valid, wellFormed, carried⟩, same⟩
      rcases harmless with invalid | malformed | single | short
      · exact absurd valid invalid
      · exact absurd wellFormed malformed
      · exact ⟨⟨valid, wellFormed, single⟩, carried, same⟩
      · exact absurd carried short
    · rintro ⟨⟨valid, wellFormed, -⟩, carried, same⟩
      exact ⟨⟨valid, wellFormed, carried⟩, same⟩

/-- Both ways lead from a text to the same report of type 1-3, or neither to one, exactly
when the text is not a fragment that looks like a whole report. -/
theorem paths_agree_iff (text : Bytes) (untagged : text.head? ≠ some '\\'.toUInt8) :
    ∃ sentence, Sentence.ofText text = .ok sentence ∧
      ((∀ report, decodeSentence sentence = .ok (some report) ↔ EmitsReport text report) ↔
        NoLoneReport sentence) := by
  obtain ⟨sentence, parsed⟩ := Sentence.ofText_returns text
  exact ⟨sentence, parsed, agree_iff untagged parsed⟩

/-! ### The same payload whole and as a fragment -/

/-- A whole report in the first of two fragments. -/
def loneFragment : Sentence.Fields where
  talker := "!AIVDM".toList.map Char.toUInt8
  count := [ '2'.toUInt8]
  number := [ '1'.toUInt8]
  seq := [ '5'.toUInt8]
  channel := [ 'B'.toUInt8]
  payload := "15M67FC000G?ufbE`FepT@3n00Sa".toList.map Char.toUInt8
  rest := "0*6A".toList.map Char.toUInt8

/-- The same payload in a sentence of its own. -/
def wholeReport : Sentence.Fields :=
  { loneFragment with
    count := [ '1'.toUInt8]
    seq := []
    rest := "0*5C".toList.map Char.toUInt8 }

/-- What the constructor makes of one of the two. -/
def parsedReport (fields : Sentence.Fields) (fragmentCount : Int32) (sequenceId : Option Int32) :
    Sentence where
  text := fields.join
  isValid := true
  isWellFormed := true
  fragmentCount := fragmentCount
  fragmentNumber := 1
  sequenceId := sequenceId
  channel := [ 'B'.toUInt8]
  payload := "15M67FC000G?ufbE`FepT@3n00Sa".toList.map Char.toUInt8

private theorem ofText_wholeReport :
    Sentence.ofText wholeReport.join = .ok (parsedReport wholeReport 1 none) := by
  have free : wholeReport.CommaFree :=
    ⟨by decide, by decide, by decide, by decide, by decide, by decide⟩
  exact Sentence.ofText_join free (show Sentence.checkValid _ = .ok true by decide)

private theorem ofText_loneFragment :
    Sentence.ofText loneFragment.join = .ok (parsedReport loneFragment 2 (some 5)) := by
  have free : loneFragment.CommaFree :=
    ⟨by decide, by decide, by decide, by decide, by decide, by decide⟩
  exact Sentence.ofText_join free (show Sentence.checkValid _ = .ok true by decide)

/-- Both ways lead from the whole report to the same one. -/
theorem paths_agree_iff_whole :
    Sentence.ofText wholeReport.join = .ok (parsedReport wholeReport 1 none) ∧
      ∀ report, decodeSentence (parsedReport wholeReport 1 none) = .ok (some report) ↔
        EmitsReport wholeReport.join report := by
  obtain ⟨sentence, parsed, agreement⟩ := paths_agree_iff wholeReport.join (by decide)
  rw [ofText_wholeReport] at parsed
  cases parsed
  exact ⟨ofText_wholeReport, agreement.mpr (Or.inr (Or.inr (Or.inl rfl)))⟩

/-- `decode_sentence` reports a ship from half a message. -/
theorem loneFragment_decoded :
    loneFragment.join = "!AIVDM,2,1,5,B,15M67FC000G?ufbE`FepT@3n00Sa,0*6A".toList.map Char.toUInt8 ∧
      loneFragment.join.head? ≠ some '\\'.toUInt8 ∧
      Sentence.ofText loneFragment.join = .ok (parsedReport loneFragment 2 (some 5)) ∧
      ¬ ∀ report, decodeSentence (parsedReport loneFragment 2 (some 5)) = .ok (some report) ↔
        EmitsReport loneFragment.join report := by
  refine ⟨by decide, by decide, ofText_loneFragment, ?_⟩
  rw [agree_iff (by decide) ofText_loneFragment]
  simp only [NoLoneReport, not_or, not_not]
  exact ⟨by decide, by decide, by decide, by decide +kernel⟩

end DecoderStage

end Ais
