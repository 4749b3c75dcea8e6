import AisPipeline.Decoder.Armour

/-!
# Static messages

Types 5 and 24 at their ITU-R M.1371 offsets. Texts come back without the
padding or the terminator they were stored with, and no decoder ever returns a
text that could not have been sent.
-/
namespace Ais

open Cpp BitString

/-! ### Type 5 -/

/-- The fields of a type 5 message; the AIS version, the position device and the last two
bits are never read. -/
structure StaticVoyageFields where
  repeatIndicator : BitVec 2
  mmsi : BitVec 30
  aisVersion : BitVec 2
  imo : BitVec 30
  callSign : SixbitText 7
  name : SixbitText 20
  shipType : BitVec 8
  toBow : BitVec 9
  toStern : BitVec 9
  toPort : BitVec 6
  toStarboard : BitVec 6
  positionDevice : BitVec 4
  etaMonth : BitVec 4
  etaDay : BitVec 5
  etaHour : BitVec 5
  etaMinute : BitVec 6
  draught : BitVec 8
  destination : SixbitText 20
  unread : BitVec 2

namespace StaticVoyageFields

def chunks (f : StaticVoyageFields) : List (List Bool) :=
  [ofBitVec (5 : BitVec 6), ofBitVec f.repeatIndicator, ofBitVec f.mmsi, ofBitVec f.aisVersion,
    ofBitVec f.imo, f.callSign.bits, f.name.bits, ofBitVec f.shipType, ofBitVec f.toBow,
    ofBitVec f.toStern, ofBitVec f.toPort, ofBitVec f.toStarboard, ofBitVec f.positionDevice,
    ofBitVec f.etaMonth, ofBitVec f.etaDay, ofBitVec f.etaHour, ofBitVec f.etaMinute,
    ofBitVec f.draught, f.destination.bits, ofBitVec f.unread]

/-- The message, followed by any further bits. -/
def pack (f : StaticVoyageFields) (further : List Bool) : List Bool :=
  (f.chunks ++ [further]).flatten

theorem layout (f : StaticVoyageFields) (further : List Bool) :
    (f.chunks ++ [further]).map List.length =
      [6, 2, 30, 2, 30, 42, 120, 8, 9, 9, 6, 6, 4, 4, 5, 5, 6, 8, 120, 2] ++ [further.length] := by
  simp [chunks]

/-- The data the fields stand for. -/
def data (f : StaticVoyageFields) : StaticVoyageData where
  mmsi := UInt32.ofNat f.mmsi.toNat
  imo := reported f.imo 0 (UInt32.ofNat f.imo.toNat)
  callSign := f.callSign.text
  name := f.name.text
  shipType := UInt8.ofNat f.shipType.toNat
  toBow := UInt16.ofNat f.toBow.toNat
  toStern := UInt16.ofNat f.toStern.toNat
  toPort := UInt8.ofNat f.toPort.toNat
  toStarboard := UInt8.ofNat f.toStarboard.toNat
  etaMonth := reported f.etaMonth 0 (UInt8.ofNat f.etaMonth.toNat)
  etaDay := reported f.etaDay 0 (UInt8.ofNat f.etaDay.toNat)
  etaHour := reported f.etaHour 24 (UInt8.ofNat f.etaHour.toNat)
  etaMinute := reported f.etaMinute 60 (UInt8.ofNat f.etaMinute.toNat)
  draught := reported f.draught 0 ((f.draught.toNat : ℚ) / 10)
  destination := f.destination.text

theorem messageType_pack (f : StaticVoyageFields) (further : List Bool) :
    Payload.uintAt ⟨f.pack further⟩ 0 6 = 5 :=
  uintAt_chunk (f.layout further) 0 rfl (by simp)

theorem staticVoyageDataAt_pack (f : StaticVoyageFields) (further : List Bool) :
    staticVoyageDataAt ⟨f.pack further⟩ = f.data := by
  have layout := f.layout further
  have mmsi : Payload.uintAt ⟨f.pack further⟩ 8 30 = UInt64.ofNat f.mmsi.toNat :=
    uintAt_chunk layout 2 rfl (by simp)
  have imo : Payload.uintAt ⟨f.pack further⟩ 40 30 = UInt64.ofNat f.imo.toNat :=
    uintAt_chunk layout 4 rfl (by simp)
  have callSign : Payload.textAt ⟨f.pack further⟩ 70 42 = f.callSign.text :=
    f.callSign.textAt_chunk layout 5 rfl rfl (by simp)
  have name : Payload.textAt ⟨f.pack further⟩ 112 120 = f.name.text :=
    f.name.textAt_chunk layout 6 rfl rfl (by simp)
  have shipType : Payload.uintAt ⟨f.pack further⟩ 232 8 = UInt64.ofNat f.shipType.toNat :=
    uintAt_chunk layout 7 rfl (by simp)
  have toBow : Payload.uintAt ⟨f.pack further⟩ 240 9 = UInt64.ofNat f.toBow.toNat :=
    uintAt_chunk layout 8 rfl (by simp)
  have toStern : Payload.uintAt ⟨f.pack further⟩ 249 9 = UInt64.ofNat f.toStern.toNat :=
    uintAt_chunk layout 9 rfl (by simp)
  have toPort : Payload.uintAt ⟨f.pack further⟩ 258 6 = UInt64.ofNat f.toPort.toNat :=
    uintAt_chunk layout 10 rfl (by simp)
  have toStarboard : Payload.uintAt ⟨f.pack further⟩ 264 6 = UInt64.ofNat f.toStarboard.toNat :=
    uintAt_chunk layout 11 rfl (by simp)
  have etaMonth : Payload.uintAt ⟨f.pack further⟩ 274 4 = UInt64.ofNat f.etaMonth.toNat :=
    uintAt_chunk layout 13 rfl (by simp)
  have etaDay : Payload.uintAt ⟨f.pack further⟩ 278 5 = UInt64.ofNat f.etaDay.toNat :=
    uintAt_chunk layout 14 rfl (by simp)
  have etaHour : Payload.uintAt ⟨f.pack further⟩ 283 5 = UInt64.ofNat f.etaHour.toNat :=
    uintAt_chunk layout 15 rfl (by simp)
  have etaMinute : Payload.uintAt ⟨f.pack further⟩ 288 6 = UInt64.ofNat f.etaMinute.toNat :=
    uintAt_chunk layout 16 rfl (by simp)
  have draught : Payload.uintAt ⟨f.pack further⟩ 294 8 = UInt64.ofNat f.draught.toNat :=
    uintAt_chunk layout 17 rfl (by simp)
  have destination : Payload.textAt ⟨f.pack further⟩ 302 120 = f.destination.text :=
    f.destination.textAt_chunk layout 18 rfl rfl (by simp)
  simp only [staticVoyageDataAt, mmsi, imo, callSign, name, shipType, toBow, toStern, toPort,
    toStarboard, etaMonth, etaDay, etaHour, etaMinute, draught, destination,
    toNat_ofNat_toNat (by omega : 8 ≤ 64), UInt64.toUInt8_ofNat', UInt64.toUInt16_ofNat',
    UInt64.toUInt32_ofNat']
  have no_imo := reported_ofNat (by omega) f.imo 0 (UInt32.ofNat f.imo.toNat)
  have no_month := reported_ofNat (by omega) f.etaMonth 0 (UInt8.ofNat f.etaMonth.toNat)
  have no_day := reported_ofNat (by omega) f.etaDay 0 (UInt8.ofNat f.etaDay.toNat)
  have no_hour := reported_ofNat (by omega) f.etaHour 24 (UInt8.ofNat f.etaHour.toNat)
  have no_minute := reported_ofNat (by omega) f.etaMinute 60 (UInt8.ofNat f.etaMinute.toNat)
  have no_draught := reported_ofNat (by omega) f.draught 0 ((f.draught.toNat : ℚ) / 10)
  rw [data, ← no_imo, ← no_month, ← no_day, ← no_hour, ← no_minute, ← no_draught]
  rfl

theorem messageAt_pack (f : StaticVoyageFields) (further : List Bool) :
    messageAt ⟨f.pack further⟩ = some (.staticVoyageData f.data) := by
  have size : Payload.bitCount ⟨f.pack further⟩ = 424 + further.length := by
    rw [Payload.bitCount, pack, List.length_flatten, f.layout further, List.sum_append,
      List.sum_singleton]
    rfl
  simp only [messageAt, size, f.messageType_pack, staticVoyageDataAt_pack]
  rw [if_neg (by omega), if_neg (by decide), if_pos trivial, if_neg (by omega)]

end StaticVoyageFields

/-! ### Type 24 -/

/-- The fields of a type 24 part A message. -/
structure PartAFields where
  repeatIndicator : BitVec 2
  mmsi : BitVec 30
  name : SixbitText 20

namespace PartAFields

def chunks (f : PartAFields) : List (List Bool) :=
  [ofBitVec (24 : BitVec 6), ofBitVec f.repeatIndicator, ofBitVec f.mmsi, ofBitVec (0 : BitVec 2),
    f.name.bits]

def pack (f : PartAFields) (further : List Bool) : List Bool := (f.chunks ++ [further]).flatten

theorem layout (f : PartAFields) (further : List Bool) :
    (f.chunks ++ [further]).map List.length = [6, 2, 30, 2, 120] ++ [further.length] := by
  simp [chunks]

def data (f : PartAFields) : StaticDataPartA where
  mmsi := UInt32.ofNat f.mmsi.toNat
  name := f.name.text

theorem messageAt_pack (f : PartAFields) (further : List Bool) :
    messageAt ⟨f.pack further⟩ = some (.staticDataPartA f.data) := by
  have layout := f.layout further
  have type : Payload.uintAt ⟨f.pack further⟩ 0 6 = 24 := uintAt_chunk layout 0 rfl (by simp)
  have part : Payload.uintAt ⟨f.pack further⟩ 38 2 = 0 := uintAt_chunk layout 3 rfl (by simp)
  have mmsi : Payload.uintAt ⟨f.pack further⟩ 8 30 = UInt64.ofNat f.mmsi.toNat :=
    uintAt_chunk layout 2 rfl (by simp)
  have name : Payload.textAt ⟨f.pack further⟩ 40 120 = f.name.text :=
    f.name.textAt_chunk layout 4 rfl rfl (by simp)
  have size : Payload.bitCount ⟨f.pack further⟩ = 160 + further.length := by
    rw [Payload.bitCount, pack, List.length_flatten, layout, List.sum_append, List.sum_singleton]
    rfl
  simp only [messageAt, size, type, part, staticDataPartAAt, mmsi, name, UInt64.toUInt32_ofNat']
  rw [if_neg (by omega), if_neg (by decide), if_neg (by decide), if_neg (by decide),
    if_pos trivial, if_pos ⟨by omega, trivial⟩]
  rfl

end PartAFields

/-- The fields of a type 24 part B message; the vendor id is never read. -/
structure PartBFields where
  repeatIndicator : BitVec 2
  mmsi : BitVec 30
  shipType : BitVec 8
  vendor : BitVec 42
  callSign : SixbitText 7
  toBow : BitVec 9
  toStern : BitVec 9
  toPort : BitVec 6
  toStarboard : BitVec 6

namespace PartBFields

def chunks (f : PartBFields) : List (List Bool) :=
  [ofBitVec (24 : BitVec 6), ofBitVec f.repeatIndicator, ofBitVec f.mmsi, ofBitVec (1 : BitVec 2),
    ofBitVec f.shipType, ofBitVec f.vendor, f.callSign.bits, ofBitVec f.toBow, ofBitVec f.toStern,
    ofBitVec f.toPort, ofBitVec f.toStarboard]

def pack (f : PartBFields) (further : List Bool) : List Bool := (f.chunks ++ [further]).flatten

theorem layout (f : PartBFields) (further : List Bool) :
    (f.chunks ++ [further]).map List.length =
      [6, 2, 30, 2, 8, 42, 42, 9, 9, 6, 6] ++ [further.length] := by
  simp [chunks]

def data (f : PartBFields) : StaticDataPartB where
  mmsi := UInt32.ofNat f.mmsi.toNat
  shipType := UInt8.ofNat f.shipType.toNat
  callSign := f.callSign.text
  toBow := UInt16.ofNat f.toBow.toNat
  toStern := UInt16.ofNat f.toStern.toNat
  toPort := UInt8.ofNat f.toPort.toNat
  toStarboard := UInt8.ofNat f.toStarboard.toNat

theorem messageAt_pack (f : PartBFields) (further : List Bool) :
    messageAt ⟨f.pack further⟩ = some (.staticDataPartB f.data) := by
  have layout := f.layout further
  have type : Payload.uintAt ⟨f.pack further⟩ 0 6 = 24 := uintAt_chunk layout 0 rfl (by simp)
  have part : Payload.uintAt ⟨f.pack further⟩ 38 2 = 1 := uintAt_chunk layout 3 rfl (by simp)
  have mmsi : Payload.uintAt ⟨f.pack further⟩ 8 30 = UInt64.ofNat f.mmsi.toNat :=
    uintAt_chunk layout 2 rfl (by simp)
  have shipType : Payload.uintAt ⟨f.pack further⟩ 40 8 = UInt64.ofNat f.shipType.toNat :=
    uintAt_chunk layout 4 rfl (by simp)
  have callSign : Payload.textAt ⟨f.pack further⟩ 90 42 = f.callSign.text :=
    f.callSign.textAt_chunk layout 6 rfl rfl (by simp)
  have toBow : Payload.uintAt ⟨f.pack further⟩ 132 9 = UInt64.ofNat f.toBow.toNat :=
    uintAt_chunk layout 7 rfl (by simp)
  have toStern : Payload.uintAt ⟨f.pack further⟩ 141 9 = UInt64.ofNat f.toStern.toNat :=
    uintAt_chunk layout 8 rfl (by simp)
  have toPort : Payload.uintAt ⟨f.pack further⟩ 150 6 = UInt64.ofNat f.toPort.toNat :=
    uintAt_chunk layout 9 rfl (by simp)
  have toStarboard : Payload.uintAt ⟨f.pack further⟩ 156 6 = UInt64.ofNat f.toStarboard.toNat :=
    uintAt_chunk layout 10 rfl (by simp)
  have size : Payload.bitCount ⟨f.pack further⟩ = 162 + further.length := by
    rw [Payload.bitCount, pack, List.length_flatten, layout, List.sum_append, List.sum_singleton]
    rfl
  simp only [messageAt, size, type, part, staticDataPartBAt, mmsi, shipType, callSign, toBow,
    toStern, toPort, toStarboard, UInt64.toUInt8_ofNat', UInt64.toUInt16_ofNat',
    UInt64.toUInt32_ofNat']
  rw [if_neg (by omega), if_neg (by decide), if_neg (by decide), if_neg (by decide),
    if_pos trivial, if_neg fun both => absurd both.2 (by decide),
    if_pos ⟨by omega, trivial⟩]
  rfl

end PartBFields

/-! ### The texts of decoded messages -/

/-- A text without terminator or padding, over the six-bit alphabet. -/
structure Presentable (text : Bytes) : Prop where
  no_at : '@'.toUInt8 ∉ text
  trimmed : text.getLast? ≠ some ' '.toUInt8
  printable : ∀ c ∈ text, 0x20 ≤ c ∧ c ≤ 0x5F

def AisMessage.texts : AisMessage → List Bytes
  | .positionReport _ => []
  | .staticVoyageData data => [data.callSign, data.name, data.destination]
  | .staticDataPartA data => [data.name]
  | .staticDataPartB data => [data.callSign]

private theorem sixbitChar_printable {code : Nat} (small : code < 64) :
    0x20 ≤ Payload.sixbitChar code ∧ Payload.sixbitChar code ≤ 0x5F := by
  revert code
  decide

private theorem charsAt_printable {payload : Payload} (n start : Nat) :
    ∀ c ∈ payload.charsAt start n, 0x20 ≤ c ∧ c ≤ 0x5F := by
  induction n generalizing start with
  | zero => simp [Payload.charsAt]
  | succ n ih =>
    -- six bits index the alphabet
    have small : value (window payload.bits start 6) < 64 := by
      apply lt_of_lt_of_le (value_lt _)
      exact Nat.pow_le_pow_right (by omega) (List.length_take_le _ _)
    rintro c (_ | ⟨_, later⟩)
    · exact sixbitChar_printable small
    · exact ih (start + 6) c later

theorem textAt_presentable (payload : Payload) (start length : Nat) :
    Presentable (payload.textAt start length) := by
  obtain ⟨front, ends⟩ := Payload.eraseTrailingSpaces_spec
    ((payload.charsAt start (length / 6)).takeWhile (· ≠ '@'.toUInt8))
  refine ⟨?_, ends, ?_⟩
  · intro member
    simpa using List.mem_takeWhile_imp (front.subset member)
  · intro c member
    exact charsAt_printable _ _ c ((List.takeWhile_prefix _).subset (front.subset member))

/-- A decoded message is what one of the five decoders makes of the payload. -/
private theorem messageAt_cases {payload : Payload} {message : AisMessage}
    (decoded : messageAt payload = some message) :
    (∃ report, message = .positionReport report) ∨
      message = .staticVoyageData (staticVoyageDataAt payload) ∨
      message = .staticDataPartA (staticDataPartAAt payload) ∨
      message = .staticDataPartB (staticDataPartBAt payload) := by
  simp only [messageAt] at decoded
  split_ifs at decoded <;> cases decoded
  · exact Or.inl ⟨_, rfl⟩
  · exact Or.inr (Or.inl rfl)
  · exact Or.inl ⟨_, rfl⟩
  · exact Or.inr (Or.inr (Or.inl rfl))
  · exact Or.inr (Or.inr (Or.inr rfl))

theorem messageAt_presentable {payload : Payload} {message : AisMessage}
    (decoded : messageAt payload = some message) : ∀ text ∈ message.texts, Presentable text := by
  rcases messageAt_cases decoded with ⟨report, rfl⟩ | rfl | rfl | rfl
  · simp [AisMessage.texts]
  · simp [AisMessage.texts, staticVoyageDataAt, textAt_presentable]
  · simp [AisMessage.texts, staticDataPartAAt, textAt_presentable]
  · simp [AisMessage.texts, staticDataPartBAt, textAt_presentable]

/-- Static messages decode to what was encoded, whatever the unread, further and fill bits, and
every text of every decoded message is presentable. -/
theorem decodeMessage_static :
    (∀ (f : StaticVoyageFields) (further : List Bool) (fill : Nat → Bool),
      decodeMessage (received (f.pack further) fill) = .ok (some (.staticVoyageData f.data))) ∧
    (∀ (f : PartAFields) (further : List Bool) (fill : Nat → Bool),
      decodeMessage (received (f.pack further) fill) = .ok (some (.staticDataPartA f.data))) ∧
    (∀ (f : PartBFields) (further : List Bool) (fill : Nat → Bool),
      decodeMessage (received (f.pack further) fill) = .ok (some (.staticDataPartB f.data))) ∧
    ∀ (payload : Payload) (message : AisMessage), decodeMessage payload = .ok (some message) →
      ∀ text ∈ message.texts, Presentable text := by
  refine ⟨?_, ?_, ?_, ?_⟩
  · intro f further fill
    rw [received_eq, decodeMessage_eq, f.messageAt_pack]
  · intro f further fill
    rw [received_eq, decodeMessage_eq, f.messageAt_pack]
  · intro f further fill
    rw [received_eq, decodeMessage_eq, f.messageAt_pack]
  · intro payload message decoded
    rw [decodeMessage_eq, Except.ok.injEq] at decoded
    exact messageAt_presentable decoded

end Ais
