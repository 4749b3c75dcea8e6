import AisPipeline.Decoder.AisMessage
import AisPipeline.Decoder.Sentence

/-!
# One sentence, decoded on its own

The path without an assembler: the payload field of a sentence is decoded as it
stands, and only as a position report.
-/
namespace Ais

open Cpp

/-- The payload of this sentence alone. -/
def Sentence.ownPayload (sentence : Sentence) : Payload :=
  Payload.ofArmored sentence.payload sentence.fillBits

/-- `decode_sentence`. -/
def decodeSentence (sentence : Sentence) : Except Exn (Option PositionReport) :=
  if ¬ sentence.isValid ∨ ¬ sentence.isWellFormed then .ok none
  else decodePositionReport sentence.ownPayload

/-- Long enough for a position report, and of one of its three types. -/
def Payload.CarriesPosition (payload : Payload) : Prop :=
  168 ≤ payload.bitCount ∧ 1 ≤ payload.uintAt 0 6 ∧ payload.uintAt 0 6 ≤ 3

instance (payload : Payload) : Decidable payload.CarriesPosition := by
  unfold Payload.CarriesPosition
  infer_instance

theorem decodePositionReport_carried (payload : Payload) :
    decodePositionReport payload =
      .ok (if payload.CarriesPosition then some (positionReportAt payload) else none) := by
  have same : (payload.bitCount < 168 ∨ payload.uintAt 0 6 < 1 ∨ payload.uintAt 0 6 > 3) ↔
      ¬ payload.CarriesPosition := by
    rw [Payload.CarriesPosition, not_and_or, not_and_or, not_le, UInt64.not_le, UInt64.not_le]
  rw [decodePositionReport_eq]
  by_cases carried : payload.CarriesPosition
  · rw [if_pos carried, if_neg (fun declined => same.mp declined carried)]
  · rw [if_neg carried, if_pos (same.mpr carried)]

/-- `decode_sentence` returns on every sentence, and what it returns. -/
theorem decodeSentence_eq (sentence : Sentence) :
    decodeSentence sentence =
      .ok (if sentence.isValid ∧ sentence.isWellFormed ∧ sentence.ownPayload.CarriesPosition
        then some (positionReportAt sentence.ownPayload) else none) := by
  rw [decodeSentence, decodePositionReport_carried]
  by_cases accepted : sentence.isValid ∧ sentence.isWellFormed
  · simp [accepted]
  · rw [if_pos (not_and_or.mp accepted), if_neg]
    rintro ⟨valid, wellFormed, -⟩
    exact accepted ⟨valid, wellFormed⟩

end Ais
