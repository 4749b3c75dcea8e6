import AisPipeline.Decoder.Armour
import AisPipeline.Decoder.AisMessage

/-!
# Position messages

The fields of a position message at their ITU-R M.1371 offsets, and the proof
that the decoder gives them back whatever else the message carries. A field of
`w` bits is a `BitVec w`, so every value of it is covered.
-/
namespace Ais

open Cpp BitString

/-- A one-bit field, as the decoder tests it. -/
private theorem flag_ofNat (v : BitVec 1) : (UInt64.ofNat v.toNat == 1) = (v == 1) := by
  have same : UInt64.ofNat v.toNat = UInt64.ofNat (1 : BitVec 1).toNat ↔ v = 1 :=
    ofNat_toNat_inj (by omega)
  exact Bool.eq_iff_iff.mpr (by simpa using same)

/-! ### Class A: types 1, 2 and 3 -/

/-- The fields of a class A position report, spare bits included. -/
structure ClassAFields where
  messageType : BitVec 6
  position : messageType = 1 ∨ messageType = 2 ∨ messageType = 3
  repeatIndicator : BitVec 2
  mmsi : BitVec 30
  navStatus : BitVec 4
  rateOfTurn : BitVec 8
  sog : BitVec 10
  positionAccuracy : BitVec 1
  longitude : BitVec 28
  latitude : BitVec 27
  cog : BitVec 12
  trueHeading : BitVec 9
  timestamp : BitVec 6
  maneuverIndicator : BitVec 2
  spare : BitVec 3
  raim : BitVec 1
  radioStatus : BitVec 19

namespace ClassAFields

/-- The fields in the order of the message. -/
def chunks (f : ClassAFields) : List (List Bool) :=
  [ofBitVec f.messageType, ofBitVec f.repeatIndicator, ofBitVec f.mmsi, ofBitVec f.navStatus,
    ofBitVec f.rateOfTurn, ofBitVec f.sog, ofBitVec f.positionAccuracy, ofBitVec f.longitude,
    ofBitVec f.latitude, ofBitVec f.cog, ofBitVec f.trueHeading, ofBitVec f.timestamp,
    ofBitVec f.maneuverIndicator, ofBitVec f.spare, ofBitVec f.raim, ofBitVec f.radioStatus]

/-- The message, followed by any further bits. -/
def pack (f : ClassAFields) (further : List Bool) : List Bool := (f.chunks ++ [further]).flatten

theorem layout (f : ClassAFields) (further : List Bool) :
    (f.chunks ++ [further]).map List.length =
      [6, 2, 30, 4, 8, 10, 1, 28, 27, 12, 9, 6, 2, 3, 1, 19] ++ [further.length] := by
  simp [chunks]

/-- The report the fields stand for. -/
def report (f : ClassAFields) : PositionReport where
  messageType := UInt8.ofNat f.messageType.toNat
  mmsi := UInt32.ofNat f.mmsi.toNat
  navStatus := .ofCode (UInt8.ofNat f.navStatus.toNat)
  rateOfTurn := reported f.rateOfTurn (-128) (Int8.ofInt f.rateOfTurn.toInt)
  sog := reported f.sog 1023 ((f.sog.toNat : ℚ) / 10)
  positionAccuracy := f.positionAccuracy == 1
  longitude := reported f.longitude 108600000 ((f.longitude.toInt : ℚ) / 600000)
  latitude := reported f.latitude 54600000 ((f.latitude.toInt : ℚ) / 600000)
  cog := reported f.cog 3600 ((f.cog.toNat : ℚ) / 10)
  trueHeading := reported f.trueHeading 511 (Int32.ofNat f.trueHeading.toNat)
  timestamp := UInt8.ofNat f.timestamp.toNat
  maneuverIndicator := UInt8.ofNat f.maneuverIndicator.toNat
  raim := f.raim == 1
  radioStatus := UInt32.ofNat f.radioStatus.toNat

theorem positionReportAt_pack (f : ClassAFields) (further : List Bool) :
    positionReportAt ⟨f.pack further⟩ = f.report := by
  have layout := f.layout further
  have messageType : Payload.uintAt ⟨f.pack further⟩ 0 6 = UInt64.ofNat f.messageType.toNat :=
    uintAt_chunk layout 0 rfl (by simp)
  have mmsi : Payload.uintAt ⟨f.pack further⟩ 8 30 = UInt64.ofNat f.mmsi.toNat :=
    uintAt_chunk layout 2 rfl (by simp)
  have navStatus : Payload.uintAt ⟨f.pack further⟩ 38 4 = UInt64.ofNat f.navStatus.toNat :=
    uintAt_chunk layout 3 rfl (by simp)
  have rateOfTurn : Payload.intAt ⟨f.pack further⟩ 42 8 = Int64.ofInt f.rateOfTurn.toInt :=
    intAt_chunk layout 4 rfl (by simp)
  have sog : Payload.uintAt ⟨f.pack further⟩ 50 10 = UInt64.ofNat f.sog.toNat :=
    uintAt_chunk layout 5 rfl (by simp)
  have accuracy : Payload.uintAt ⟨f.pack further⟩ 60 1 = UInt64.ofNat f.positionAccuracy.toNat :=
    uintAt_chunk layout 6 rfl (by simp)
  have longitude : Payload.intAt ⟨f.pack further⟩ 61 28 = Int64.ofInt f.longitude.toInt :=
    intAt_chunk layout 7 rfl (by simp)
  have latitude : Payload.intAt ⟨f.pack further⟩ 89 27 = Int64.ofInt f.latitude.toInt :=
    intAt_chunk layout 8 rfl (by simp)
  have cog : Payload.uintAt ⟨f.pack further⟩ 116 12 = UInt64.ofNat f.cog.toNat :=
    uintAt_chunk layout 9 rfl (by simp)
  have heading : Payload.uintAt ⟨f.pack further⟩ 128 9 = UInt64.ofNat f.trueHeading.toNat :=
    uintAt_chunk layout 10 rfl (by simp)
  have timestamp : Payload.uintAt ⟨f.pack further⟩ 137 6 = UInt64.ofNat f.timestamp.toNat :=
    uintAt_chunk layout 11 rfl (by simp)
  have maneuver : Payload.uintAt ⟨f.pack further⟩ 143 2 = UInt64.ofNat f.maneuverIndicator.toNat :=
    uintAt_chunk layout 12 rfl (by simp)
  have raim : Payload.uintAt ⟨f.pack further⟩ 148 1 = UInt64.ofNat f.raim.toNat :=
    uintAt_chunk layout 14 rfl (by simp)
  have radio : Payload.uintAt ⟨f.pack further⟩ 149 19 = UInt64.ofNat f.radioStatus.toNat :=
    uintAt_chunk layout 15 rfl (by simp)
  -- every read replaced by its field, narrowing conversions included
  simp only [positionReportAt, messageType, mmsi, navStatus, rateOfTurn, sog, accuracy, longitude,
    latitude, cog, heading, timestamp, maneuver, raim, radio, toNat_ofNat_toNat (by omega : 10 ≤ 64),
    toNat_ofNat_toNat (by omega : 12 ≤ 64), toInt_ofInt_toInt (by omega : 28 ≤ 64),
    toInt_ofInt_toInt (by omega : 27 ≤ 64), UInt64.toUInt8_ofNat', UInt64.toUInt32_ofNat',
    UInt32.toInt32_ofNat', Int64.toInt8_ofInt, flag_ofNat]
  -- "not available" is tested on the widened value
  have no_rate := reported_ofInt (by omega) f.rateOfTurn (-128) (Int8.ofInt f.rateOfTurn.toInt)
  have no_sog := reported_ofNat (by omega) f.sog 1023 ((f.sog.toNat : ℚ) / 10)
  have no_longitude := reported_ofInt (by omega) f.longitude 108600000
    ((f.longitude.toInt : ℚ) / 600000)
  have no_latitude := reported_ofInt (by omega) f.latitude 54600000
    ((f.latitude.toInt : ℚ) / 600000)
  have no_cog := reported_ofNat (by omega) f.cog 3600 ((f.cog.toNat : ℚ) / 10)
  have no_heading := reported_ofNat (by omega) f.trueHeading 511 (Int32.ofNat f.trueHeading.toNat)
  rw [report, ← no_rate, ← no_sog, ← no_longitude, ← no_latitude, ← no_cog, ← no_heading]
  rfl

theorem messageAt_pack (f : ClassAFields) (further : List Bool) :
    messageAt ⟨f.pack further⟩ = some (.positionReport f.report) := by
  have type : Payload.uintAt ⟨f.pack further⟩ 0 6 = UInt64.ofNat f.messageType.toNat :=
    uintAt_chunk (f.layout further) 0 rfl (by simp)
  have size : Payload.bitCount ⟨f.pack further⟩ = 168 + further.length := by
    rw [Payload.bitCount, pack, List.length_flatten, f.layout further, List.sum_append,
      List.sum_singleton]
    rfl
  have one_to_three : 1 ≤ Payload.uintAt ⟨f.pack further⟩ 0 6 ∧
      Payload.uintAt ⟨f.pack further⟩ 0 6 ≤ 3 := by
    rw [type]
    rcases f.position with one | two | three
    · rw [one]; decide
    · rw [two]; decide
    · rw [three]; decide
  simp only [messageAt, size, one_to_three, and_self, if_true, positionReportAt_pack]
  rw [if_neg (by omega), if_neg (by omega)]

end ClassAFields

/-! ### Class B: type 18 -/

/-- The fields of a type 18 report; the reserved bits and the flags are never read. -/
structure ClassBFields where
  repeatIndicator : BitVec 2
  mmsi : BitVec 30
  reserved : BitVec 8
  sog : BitVec 10
  positionAccuracy : BitVec 1
  longitude : BitVec 28
  latitude : BitVec 27
  cog : BitVec 12
  trueHeading : BitVec 9
  timestamp : BitVec 6
  regional : BitVec 2
  flags : BitVec 6
  raim : BitVec 1
  radioStatus : BitVec 20

namespace ClassBFields

def chunks (f : ClassBFields) : List (List Bool) :=
  [ofBitVec (18 : BitVec 6), ofBitVec f.repeatIndicator, ofBitVec f.mmsi, ofBitVec f.reserved,
    ofBitVec f.sog, ofBitVec f.positionAccuracy, ofBitVec f.longitude, ofBitVec f.latitude,
    ofBitVec f.cog, ofBitVec f.trueHeading, ofBitVec f.timestamp, ofBitVec f.regional,
    ofBitVec f.flags, ofBitVec f.raim, ofBitVec f.radioStatus]

def pack (f : ClassBFields) (further : List Bool) : List Bool := (f.chunks ++ [further]).flatten

theorem layout (f : ClassBFields) (further : List Bool) :
    (f.chunks ++ [further]).map List.length =
      [6, 2, 30, 8, 10, 1, 28, 27, 12, 9, 6, 2, 6, 1, 20] ++ [further.length] := by
  simp [chunks]

/-- The report the fields stand for: it has no rate of turn, and the status and the
manoeuvre indicator of a report that does not say. -/
def report (f : ClassBFields) : PositionReport where
  messageType := 18
  mmsi := UInt32.ofNat f.mmsi.toNat
  navStatus := .notDefined
  rateOfTurn := none
  sog := reported f.sog 1023 ((f.sog.toNat : ℚ) / 10)
  positionAccuracy := f.positionAccuracy == 1
  longitude := reported f.longitude 108600000 ((f.longitude.toInt : ℚ) / 600000)
  latitude := reported f.latitude 54600000 ((f.latitude.toInt : ℚ) / 600000)
  cog := reported f.cog 3600 ((f.cog.toNat : ℚ) / 10)
  trueHeading := reported f.trueHeading 511 (Int32.ofNat f.trueHeading.toNat)
  timestamp := UInt8.ofNat f.timestamp.toNat
  maneuverIndicator := 0
  raim := f.raim == 1
  radioStatus := UInt32.ofNat f.radioStatus.toNat

theorem messageType_pack (f : ClassBFields) (further : List Bool) :
    Payload.uintAt ⟨f.pack further⟩ 0 6 = 18 :=
  uintAt_chunk (f.layout further) 0 rfl (by simp)

theorem classBPositionReportAt_pack (f : ClassBFields) (further : List Bool) :
    classBPositionReportAt ⟨f.pack further⟩ = f.report := by
  have layout := f.layout further
  have mmsi : Payload.uintAt ⟨f.pack further⟩ 8 30 = UInt64.ofNat f.mmsi.toNat :=
    uintAt_chunk layout 2 rfl (by simp)
  have sog : Payload.uintAt ⟨f.pack further⟩ 46 10 = UInt64.ofNat f.sog.toNat :=
    uintAt_chunk layout 4 rfl (by simp)
  have accuracy : Payload.uintAt ⟨f.pack further⟩ 56 1 = UInt64.ofNat f.positionAccuracy.toNat :=
    uintAt_chunk layout 5 rfl (by simp)
  have longitude : Payload.intAt ⟨f.pack further⟩ 57 28 = Int64.ofInt f.longitude.toInt :=
    intAt_chunk layout 6 rfl (by simp)
  have latitude : Payload.intAt ⟨f.pack further⟩ 85 27 = Int64.ofInt f.latitude.toInt :=
    intAt_chunk layout 7 rfl (by simp)
  have cog : Payload.uintAt ⟨f.pack further⟩ 112 12 = UInt64.ofNat f.cog.toNat :=
    uintAt_chunk layout 8 rfl (by simp)
  have heading : Payload.uintAt ⟨f.pack further⟩ 124 9 = UInt64.ofNat f.trueHeading.toNat :=
    uintAt_chunk layout 9 rfl (by simp)
  have timestamp : Payload.uintAt ⟨f.pack further⟩ 133 6 = UInt64.ofNat f.timestamp.toNat :=
    uintAt_chunk layout 10 rfl (by simp)
  have raim : Payload.uintAt ⟨f.pack further⟩ 147 1 = UInt64.ofNat f.raim.toNat :=
    uintAt_chunk layout 13 rfl (by simp)
  have radio : Payload.uintAt ⟨f.pack further⟩ 148 20 = UInt64.ofNat f.radioStatus.toNat :=
    uintAt_chunk layout 14 rfl (by simp)
  simp only [classBPositionReportAt, f.messageType_pack, mmsi, sog, accuracy, longitude, latitude,
    cog, heading, timestamp, raim, radio, toNat_ofNat_toNat (by omega : 10 ≤ 64),
    toNat_ofNat_toNat (by omega : 12 ≤ 64), toInt_ofInt_toInt (by omega : 28 ≤ 64),
    toInt_ofInt_toInt (by omega : 27 ≤ 64), UInt64.toUInt8_ofNat', UInt64.toUInt32_ofNat',
    UInt32.toInt32_ofNat', flag_ofNat]
  have no_sog := reported_ofNat (by omega) f.sog 1023 ((f.sog.toNat : ℚ) / 10)
  have no_longitude := reported_ofInt (by omega) f.longitude 108600000
    ((f.longitude.toInt : ℚ) / 600000)
  have no_latitude := reported_ofInt (by omega) f.latitude 54600000
    ((f.latitude.toInt : ℚ) / 600000)
  have no_cog := reported_ofNat (by omega) f.cog 3600 ((f.cog.toNat : ℚ) / 10)
  have no_heading := reported_ofNat (by omega) f.trueHeading 511 (Int32.ofNat f.trueHeading.toNat)
  rw [report, ← no_sog, ← no_longitude, ← no_latitude, ← no_cog, ← no_heading]
  rfl

theorem messageAt_pack (f : ClassBFields) (further : List Bool) :
    messageAt ⟨f.pack further⟩ = some (.positionReport f.report) := by
  have size : Payload.bitCount ⟨f.pack further⟩ = 168 + further.length := by
    rw [Payload.bitCount, pack, List.length_flatten, f.layout further, List.sum_append,
      List.sum_singleton]
    rfl
  simp only [messageAt, size, f.messageType_pack, classBPositionReportAt_pack]
  rw [if_neg (by omega), if_neg (by decide), if_neg (by decide), if_pos trivial,
    if_neg (by omega)]

end ClassBFields

/-- Position messages decode to what was encoded, whatever the unread, further and fill bits. -/
theorem decodeMessage_position :
    (∀ (f : ClassAFields) (further : List Bool) (fill : Nat → Bool),
      decodeMessage (received (f.pack further) fill) = .ok (some (.positionReport f.report))) ∧
    ∀ (f : ClassBFields) (further : List Bool) (fill : Nat → Bool),
      decodeMessage (received (f.pack further) fill) = .ok (some (.positionReport f.report)) := by
  constructor
  · intro f further fill
    rw [received_eq, decodeMessage_eq, f.messageAt_pack]
  · intro f further fill
    rw [received_eq, decodeMessage_eq, f.messageAt_pack]

end Ais
