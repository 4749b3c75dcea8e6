import AisPipeline.Properties.PositionRoundTrip
import AisPipeline.Properties.ServedState
import AisPipeline.Properties.StaticRoundTrip
import AisPipeline.Properties.Transparency

/-!
# From the ships to the API

Messages as ships pack them, each in one sentence behind a tag block, as a base
station writes it to the feed. Whatever the network does to the stream of their
bytes, what ships sent is what is served.
-/
namespace Ais

open Cpp BitString Transition

/-- The fields of a message of one of the types the decoder knows. -/
inductive Broadcast where
  | classA (fields : ClassAFields)
  | classB (fields : ClassBFields)
  | voyage (fields : StaticVoyageFields)
  | partA (fields : PartAFields)
  | partB (fields : PartBFields)

namespace Broadcast

/-- The message, followed by any further bits. -/
def pack (further : List Bool) : Broadcast → List Bool
  | .classA fields => fields.pack further
  | .classB fields => fields.pack further
  | .voyage fields => fields.pack further
  | .partA fields => fields.pack further
  | .partB fields => fields.pack further

/-- What the fields say. -/
def message : Broadcast → AisMessage
  | .classA fields => .positionReport fields.report
  | .classB fields => .positionReport fields.report
  | .voyage fields => .staticVoyageData fields.data
  | .partA fields => .staticDataPartA fields.data
  | .partB fields => .staticDataPartB fields.data

theorem messageAt_pack (b : Broadcast) (further : List Bool) :
    messageAt ⟨b.pack further⟩ = some b.message := by
  cases b with
  | classA fields => exact fields.messageAt_pack further
  | classB fields => exact fields.messageAt_pack further
  | voyage fields => exact fields.messageAt_pack further
  | partA fields => exact fields.messageAt_pack further
  | partB fields => exact fields.messageAt_pack further

end Broadcast

/-- A message on one line. The line is well formed, no line ending stands inside it, and the bits
the message leaves open, further and fill bits, may be anything. -/
structure Transmission where
  broadcast : Broadcast
  further : List Bool
  fill : Nat → Bool
  line : TaggedLine
  clean : line.Clean
  single : line.sentence.fragmentCount = 1
  payload : line.sentence.payload = armour (broadcast.pack further) fill
  fillBits : line.sentence.fillBits = Int32.ofNat (fillCount (broadcast.pack further))
  newline : '\n'.toUInt8 ∉ line.write
  ends : line.write.getLast? ≠ some '\r'.toUInt8

namespace Transmission

/-- The bytes on the feed. -/
def wire (t : Transmission) : Bytes := t.line.write ++ [ '\r'.toUInt8, '\n'.toUInt8]

theorem processLine (t : Transmission) (stage : DecoderStage) :
    stage.processLine t.line.write = .ok (stage, some t.broadcast.message) := by
  have packed := received_eq (t.broadcast.pack t.further) t.fill
  rw [received] at packed
  rw [processLine_uncut t.clean t.single, t.payload, t.fillBits, packed, t.broadcast.messageAt_pack]

end Transmission

namespace Process

open PositionReader

/-- What is received over one connection: whole transmissions, and a line that breaks off. -/
structure Reception where
  whole : List Transmission
  cut : Bytes
  broken : '\n'.toUInt8 ∉ cut

def Reception.stream (r : Reception) : Bytes := r.whole.flatMap Transmission.wire ++ r.cut

/-- The messages received whole, over one connection after the other. -/
def heard (receptions : List Reception) : List AisMessage :=
  (receptions.flatMap Reception.whole).map fun t => t.broadcast.message

end Process
end Ais
