import AisPipeline.Decoder.Payload

/-!
# Decoded messages

The four message variants and their decoders. A `double` is the exact rational
its expression denotes. Each decoder has one lemma that says what it returns
for every payload; in particular no field read is ever out of range.
-/
namespace Ais

open Cpp

/-- `NavStatus`, an enumeration over `std::uint8_t`: a cast keeps any code, also the
ones without a name. -/
inductive NavStatus where
  | underWayEngine
  | atAnchor
  | notUnderCommand
  | restrictedManeuver
  | constrainedByDraught
  | moored
  | aground
  | fishing
  | underWaySailing
  | reservedHSC
  | reservedWIG
  | reserved11
  | reserved12
  | reserved13
  | aisSartMobEpirb
  | notDefined
  | unnamed (code : UInt8) (high : 16 ≤ code)
  deriving DecidableEq, Repr

namespace NavStatus

/-- The underlying value. -/
def code : NavStatus → UInt8
  | underWayEngine => 0
  | atAnchor => 1
  | notUnderCommand => 2
  | restrictedManeuver => 3
  | constrainedByDraught => 4
  | moored => 5
  | aground => 6
  | fishing => 7
  | underWaySailing => 8
  | reservedHSC => 9
  | reservedWIG => 10
  | reserved11 => 11
  | reserved12 => 12
  | reserved13 => 13
  | aisSartMobEpirb => 14
  | notDefined => 15
  | unnamed code _ => code

/-- `static_cast<NavStatus>`. -/
def ofCode (code : UInt8) : NavStatus :=
  if high : 16 ≤ code then unnamed code high
  else if code = 0 then underWayEngine
  else if code = 1 then atAnchor
  else if code = 2 then notUnderCommand
  else if code = 3 then restrictedManeuver
  else if code = 4 then constrainedByDraught
  else if code = 5 then moored
  else if code = 6 then aground
  else if code = 7 then fishing
  else if code = 8 then underWaySailing
  else if code = 9 then reservedHSC
  else if code = 10 then reservedWIG
  else if code = 11 then reserved11
  else if code = 12 then reserved12
  else if code = 13 then reserved13
  else if code = 14 then aisSartMobEpirb
  else notDefined

@[simp] theorem ofCode_code (status : NavStatus) : ofCode status.code = status := by
  cases status with
  | unnamed code high => simp [ofCode, NavStatus.code, high]
  | _ => rfl

end NavStatus

structure PositionReport where
  messageType : UInt8 := 0
  repeatIndicator : UInt8 := 0
  mmsi : UInt32 := 0
  navStatus : NavStatus := .notDefined
  rateOfTurn : Option Int8 := none
  sog : Option ℚ := none
  positionAccuracy : Bool := false
  longitude : Option ℚ := none
  latitude : Option ℚ := none
  cog : Option ℚ := none
  trueHeading : Option Int32 := none
  timestamp : UInt8 := 0
  maneuverIndicator : UInt8 := 0
  raim : Bool := false
  radioStatus : UInt32 := 0
  deriving DecidableEq, Repr

structure StaticVoyageData where
  mmsi : UInt32 := 0
  imo : Option UInt32 := none
  callSign : Bytes := []
  name : Bytes := []
  shipType : UInt8 := 0
  toBow : UInt16 := 0
  toStern : UInt16 := 0
  toPort : UInt8 := 0
  toStarboard : UInt8 := 0
  etaMonth : Option UInt8 := none
  etaDay : Option UInt8 := none
  etaHour : Option UInt8 := none
  etaMinute : Option UInt8 := none
  draught : Option ℚ := none
  destination : Bytes := []
  deriving DecidableEq, Repr

structure StaticDataPartA where
  mmsi : UInt32 := 0
  name : Bytes := []
  deriving DecidableEq, Repr

structure StaticDataPartB where
  mmsi : UInt32 := 0
  shipType : UInt8 := 0
  callSign : Bytes := []
  toBow : UInt16 := 0
  toStern : UInt16 := 0
  toPort : UInt8 := 0
  toStarboard : UInt8 := 0
  deriving DecidableEq, Repr

/-- `AisMessage`, a `std::variant`. -/
inductive AisMessage where
  | positionReport (report : PositionReport)
  | staticVoyageData (data : StaticVoyageData)
  | staticDataPartA (data : StaticDataPartA)
  | staticDataPartB (data : StaticDataPartB)
  deriving DecidableEq, Repr

/-- A field that is absent when the raw value is its "not available" value. -/
def reported {α β : Type} [DecidableEq α] (raw notAvailable : α) (value : β) : Option β :=
  if raw ≠ notAvailable then some value else none

def decodePositionReport (payload : Payload) : Except Exn (Option PositionReport) :=
  if payload.bitCount < 168 then .ok none
  else do
    let type ← payload.getUint 0 6
    if type < 1 ∨ type > 3 then .ok none
    else do
      let mmsi ← payload.getUint 8 30
      let navStatus ← payload.getUint 38 4
      let sogRaw ← payload.getUint 50 10
      let accuracy ← payload.getUint 60 1
      let lonRaw ← payload.getInt 61 28
      let latRaw ← payload.getInt 89 27
      let cogRaw ← payload.getUint 116 12
      let trueHeadingRaw ← payload.getUint 128 9
      let rotRaw ← payload.getInt 42 8
      let timestamp ← payload.getUint 137 6
      let maneuver ← payload.getUint 143 2
      let raim ← payload.getUint 148 1
      let radioStatus ← payload.getUint 149 19
      .ok (some {
        messageType := type.toUInt8
        mmsi := mmsi.toUInt32
        navStatus := .ofCode navStatus.toUInt8
        sog := reported sogRaw 1023 ((sogRaw.toNat : ℚ) / 10)
        positionAccuracy := accuracy == 1
        longitude := reported lonRaw 108600000 ((lonRaw.toInt : ℚ) / 600000)
        latitude := reported latRaw 54600000 ((latRaw.toInt : ℚ) / 600000)
        cog := reported cogRaw 3600 ((cogRaw.toNat : ℚ) / 10)
        trueHeading := reported trueHeadingRaw 511 trueHeadingRaw.toUInt32.toInt32
        rateOfTurn := reported rotRaw (-128) rotRaw.toInt8
        timestamp := timestamp.toUInt8
        maneuverIndicator := maneuver.toUInt8
        raim := raim == 1
        radioStatus := radioStatus.toUInt32 })

def decodeClassBPositionReport (payload : Payload) : Except Exn (Option PositionReport) :=
  if payload.bitCount < 168 then .ok none
  else do
    let type ← payload.getUint 0 6
    if type ≠ 18 then .ok none
    else do
      let mmsi ← payload.getUint 8 30
      let sogRaw ← payload.getUint 46 10
      let accuracy ← payload.getUint 56 1
      let lonRaw ← payload.getInt 57 28
      let latRaw ← payload.getInt 85 27
      let cogRaw ← payload.getUint 112 12
      let trueHeadingRaw ← payload.getUint 124 9
      let timestamp ← payload.getUint 133 6
      let raim ← payload.getUint 147 1
      let radioStatus ← payload.getUint 148 20
      .ok (some {
        messageType := type.toUInt8
        mmsi := mmsi.toUInt32
        sog := reported sogRaw 1023 ((sogRaw.toNat : ℚ) / 10)
        positionAccuracy := accuracy == 1
        longitude := reported lonRaw 108600000 ((lonRaw.toInt : ℚ) / 600000)
        latitude := reported latRaw 54600000 ((latRaw.toInt : ℚ) / 600000)
        cog := reported cogRaw 3600 ((cogRaw.toNat : ℚ) / 10)
        trueHeading := reported trueHeadingRaw 511 trueHeadingRaw.toUInt32.toInt32
        timestamp := timestamp.toUInt8
        raim := raim == 1
        radioStatus := radioStatus.toUInt32 })

def decodeStaticVoyageData (payload : Payload) : Except Exn (Option StaticVoyageData) :=
  if payload.bitCount < 424 then .ok none
  else do
    let type ← payload.getUint 0 6
    if type ≠ 5 then .ok none
    else do
      let mmsi ← payload.getUint 8 30
      let imo ← payload.getUint 40 30
      let callSign ← payload.getText 70 42
      let name ← payload.getText 112 120
      let shipType ← payload.getUint 232 8
      let toBow ← payload.getUint 240 9
      let toStern ← payload.getUint 249 9
      let toPort ← payload.getUint 258 6
      let toStarboard ← payload.getUint 264 6
      let etaMonth ← payload.getUint 274 4
      let etaDay ← payload.getUint 278 5
      let etaHour ← payload.getUint 283 5
      let etaMinute ← payload.getUint 288 6
      let draught ← payload.getUint 294 8
      let destination ← payload.getText 302 120
      .ok (some {
        mmsi := mmsi.toUInt32
        imo := reported imo 0 imo.toUInt32
        callSign := callSign
        name := name
        shipType := shipType.toUInt8
        toBow := toBow.toUInt16
        toStern := toStern.toUInt16
        toPort := toPort.toUInt8
        toStarboard := toStarboard.toUInt8
        etaMonth := reported etaMonth 0 etaMonth.toUInt8
        etaDay := reported etaDay 0 etaDay.toUInt8
        etaHour := reported etaHour 24 etaHour.toUInt8
        etaMinute := reported etaMinute 60 etaMinute.toUInt8
        draught := reported draught 0 ((draught.toNat : ℚ) / 10)
        destination := destination })

def decodeStaticDataPartA (payload : Payload) : Except Exn (Option StaticDataPartA) :=
  if payload.bitCount < 160 then .ok none
  else do
    let type ← payload.getUint 0 6
    let part ← payload.getUint 38 2
    if type ≠ 24 ∨ part ≠ 0 then .ok none
    else do
      let mmsi ← payload.getUint 8 30
      let name ← payload.getText 40 120
      .ok (some { mmsi := mmsi.toUInt32, name := name })

def decodeStaticDataPartB (payload : Payload) : Except Exn (Option StaticDataPartB) :=
  if payload.bitCount < 162 then .ok none
  else do
    let type ← payload.getUint 0 6
    let part ← payload.getUint 38 2
    if type ≠ 24 ∨ part ≠ 1 then .ok none
    else do
      let mmsi ← payload.getUint 8 30
      let shipType ← payload.getUint 40 8
      let callSign ← payload.getText 90 42
      let toBow ← payload.getUint 132 9
      let toStern ← payload.getUint 141 9
      let toPort ← payload.getUint 150 6
      let toStarboard ← payload.getUint 156 6
      .ok (some {
        mmsi := mmsi.toUInt32
        shipType := shipType.toUInt8
        callSign := callSign
        toBow := toBow.toUInt16
        toStern := toStern.toUInt16
        toPort := toPort.toUInt8
        toStarboard := toStarboard.toUInt8 })

/-- `decode_message`. A decoder that declines its own type falls through to the
remaining tests, none of which can succeed. -/
def decodeMessage (payload : Payload) : Except Exn (Option AisMessage) :=
  if payload.bitCount < 6 then .ok none
  else do
    let type ← payload.getUint 0 6
    let positionReport ← if type > 0 ∧ type < 4 then decodePositionReport payload else .ok none
    -- an accepted message returns at once; `none` goes on to the next test
    if let some report := positionReport then .ok (some (.positionReport report)) else do
    let voyageData ← if type = 5 then decodeStaticVoyageData payload else .ok none
    if let some data := voyageData then .ok (some (.staticVoyageData data)) else do
    let classB ← if type = 18 then decodeClassBPositionReport payload else .ok none
    if let some report := classB then .ok (some (.positionReport report)) else do
    let partA ← if type = 24 then decodeStaticDataPartA payload else .ok none
    if let some data := partA then .ok (some (.staticDataPartA data)) else do
    let partB ← if type = 24 then decodeStaticDataPartB payload else .ok none
    if let some data := partB then .ok (some (.staticDataPartB data)) else
    .ok none

/-! ### What each decoder returns -/

/-- The report a type 1-3 message of sufficient length is decoded to. -/
def positionReportAt (payload : Payload) : PositionReport where
  messageType := (payload.uintAt 0 6).toUInt8
  mmsi := (payload.uintAt 8 30).toUInt32
  navStatus := .ofCode (payload.uintAt 38 4).toUInt8
  rateOfTurn := reported (payload.intAt 42 8) (-128) (payload.intAt 42 8).toInt8
  sog := reported (payload.uintAt 50 10) 1023 (((payload.uintAt 50 10).toNat : ℚ) / 10)
  positionAccuracy := payload.uintAt 60 1 == 1
  longitude := reported (payload.intAt 61 28) 108600000 (((payload.intAt 61 28).toInt : ℚ) / 600000)
  latitude := reported (payload.intAt 89 27) 54600000 (((payload.intAt 89 27).toInt : ℚ) / 600000)
  cog := reported (payload.uintAt 116 12) 3600 (((payload.uintAt 116 12).toNat : ℚ) / 10)
  trueHeading := reported (payload.uintAt 128 9) 511 (payload.uintAt 128 9).toUInt32.toInt32
  timestamp := (payload.uintAt 137 6).toUInt8
  maneuverIndicator := (payload.uintAt 143 2).toUInt8
  raim := payload.uintAt 148 1 == 1
  radioStatus := (payload.uintAt 149 19).toUInt32

theorem decodePositionReport_eq (payload : Payload) :
    decodePositionReport payload = .ok
      (if payload.bitCount < 168 ∨ payload.uintAt 0 6 < 1 ∨ payload.uintAt 0 6 > 3 then none
      else some (positionReportAt payload)) := by
  unfold decodePositionReport
  by_cases short : payload.bitCount < 168
  · simp [short]
  · simp (disch := omega) only [short, if_false, false_or, bind, Except.bind, Payload.getUint_ok,
      Payload.getInt_ok]
    split
    · rfl
    · rfl

/-- The report a type 18 message of sufficient length is decoded to. -/
def classBPositionReportAt (payload : Payload) : PositionReport where
  messageType := (payload.uintAt 0 6).toUInt8
  mmsi := (payload.uintAt 8 30).toUInt32
  sog := reported (payload.uintAt 46 10) 1023 (((payload.uintAt 46 10).toNat : ℚ) / 10)
  positionAccuracy := payload.uintAt 56 1 == 1
  longitude := reported (payload.intAt 57 28) 108600000 (((payload.intAt 57 28).toInt : ℚ) / 600000)
  latitude := reported (payload.intAt 85 27) 54600000 (((payload.intAt 85 27).toInt : ℚ) / 600000)
  cog := reported (payload.uintAt 112 12) 3600 (((payload.uintAt 112 12).toNat : ℚ) / 10)
  trueHeading := reported (payload.uintAt 124 9) 511 (payload.uintAt 124 9).toUInt32.toInt32
  timestamp := (payload.uintAt 133 6).toUInt8
  raim := payload.uintAt 147 1 == 1
  radioStatus := (payload.uintAt 148 20).toUInt32

theorem decodeClassBPositionReport_eq (payload : Payload) :
    decodeClassBPositionReport payload = .ok
      (if payload.bitCount < 168 ∨ payload.uintAt 0 6 ≠ 18 then none
      else some (classBPositionReportAt payload)) := by
  unfold decodeClassBPositionReport
  by_cases short : payload.bitCount < 168
  · simp [short]
  · simp (disch := omega) only [short, if_false, false_or, bind, Except.bind, Payload.getUint_ok,
      Payload.getInt_ok]
    split
    · rfl
    · rfl

/-- The data a type 5 message of sufficient length is decoded to. -/
def staticVoyageDataAt (payload : Payload) : StaticVoyageData where
  mmsi := (payload.uintAt 8 30).toUInt32
  imo := reported (payload.uintAt 40 30) 0 (payload.uintAt 40 30).toUInt32
  callSign := payload.textAt 70 42
  name := payload.textAt 112 120
  shipType := (payload.uintAt 232 8).toUInt8
  toBow := (payload.uintAt 240 9).toUInt16
  toStern := (payload.uintAt 249 9).toUInt16
  toPort := (payload.uintAt 258 6).toUInt8
  toStarboard := (payload.uintAt 264 6).toUInt8
  etaMonth := reported (payload.uintAt 274 4) 0 (payload.uintAt 274 4).toUInt8
  etaDay := reported (payload.uintAt 278 5) 0 (payload.uintAt 278 5).toUInt8
  etaHour := reported (payload.uintAt 283 5) 24 (payload.uintAt 283 5).toUInt8
  etaMinute := reported (payload.uintAt 288 6) 60 (payload.uintAt 288 6).toUInt8
  draught := reported (payload.uintAt 294 8) 0 (((payload.uintAt 294 8).toNat : ℚ) / 10)
  destination := payload.textAt 302 120

theorem decodeStaticVoyageData_eq (payload : Payload) :
    decodeStaticVoyageData payload = .ok
      (if payload.bitCount < 424 ∨ payload.uintAt 0 6 ≠ 5 then none
      else some (staticVoyageDataAt payload)) := by
  unfold decodeStaticVoyageData
  by_cases short : payload.bitCount < 424
  · simp [short]
  · simp (disch := omega) only [short, if_false, false_or, bind, Except.bind, Payload.getUint_ok,
      Payload.getText_ok]
    split
    · rfl
    · rfl

/-- The data a type 24 part A message of sufficient length is decoded to. -/
def staticDataPartAAt (payload : Payload) : StaticDataPartA where
  mmsi := (payload.uintAt 8 30).toUInt32
  name := payload.textAt 40 120

theorem decodeStaticDataPartA_eq (payload : Payload) :
    decodeStaticDataPartA payload = .ok
      (if payload.bitCount < 160 ∨ payload.uintAt 0 6 ≠ 24 ∨ payload.uintAt 38 2 ≠ 0 then none
      else some (staticDataPartAAt payload)) := by
  unfold decodeStaticDataPartA
  by_cases short : payload.bitCount < 160
  · simp [short]
  · simp (disch := omega) only [short, if_false, false_or, bind, Except.bind, Payload.getUint_ok,
      Payload.getText_ok]
    split
    · rfl
    · rfl

/-- The data a type 24 part B message of sufficient length is decoded to. -/
def staticDataPartBAt (payload : Payload) : StaticDataPartB where
  mmsi := (payload.uintAt 8 30).toUInt32
  shipType := (payload.uintAt 40 8).toUInt8
  callSign := payload.textAt 90 42
  toBow := (payload.uintAt 132 9).toUInt16
  toStern := (payload.uintAt 141 9).toUInt16
  toPort := (payload.uintAt 150 6).toUInt8
  toStarboard := (payload.uintAt 156 6).toUInt8

theorem decodeStaticDataPartB_eq (payload : Payload) :
    decodeStaticDataPartB payload = .ok
      (if payload.bitCount < 162 ∨ payload.uintAt 0 6 ≠ 24 ∨ payload.uintAt 38 2 ≠ 1 then none
      else some (staticDataPartBAt payload)) := by
  unfold decodeStaticDataPartB
  by_cases short : payload.bitCount < 162
  · simp [short]
  · simp (disch := omega) only [short, if_false, false_or, bind, Except.bind, Payload.getUint_ok,
      Payload.getText_ok]
    split
    · rfl
    · rfl

/-- The message a payload stands for, by its type and length alone. -/
def messageAt (payload : Payload) : Option AisMessage :=
  let type := payload.uintAt 0 6
  if payload.bitCount < 6 then none
  else if 1 ≤ type ∧ type ≤ 3 then
    if payload.bitCount < 168 then none else some (.positionReport (positionReportAt payload))
  else if type = 5 then
    if payload.bitCount < 424 then none else some (.staticVoyageData (staticVoyageDataAt payload))
  else if type = 18 then
    if payload.bitCount < 168 then none else some (.positionReport (classBPositionReportAt payload))
  else if type = 24 then
    if 160 ≤ payload.bitCount ∧ payload.uintAt 38 2 = 0 then
      some (.staticDataPartA (staticDataPartAAt payload))
    else if 162 ≤ payload.bitCount ∧ payload.uintAt 38 2 = 1 then
      some (.staticDataPartB (staticDataPartBAt payload))
    else none
  else none

private theorem messageType_cases (type : UInt64) :
    (1 ≤ type ∧ type ≤ 3 ∧ type > 0 ∧ type < 4 ∧ ¬ type < 1 ∧ ¬ type > 3 ∧
      type ≠ 5 ∧ type ≠ 18 ∧ type ≠ 24) ∨
    (¬ (1 ≤ type ∧ type ≤ 3) ∧ ¬ (type > 0 ∧ type < 4)) := by
  simp only [UInt64.le_iff_toNat_le, UInt64.lt_iff_toNat_lt, gt_iff_lt, ne_eq, ← UInt64.toNat_inj,
    UInt64.reduceToNat]
  omega

/-- `decode_message` returns on every payload, and what it returns. -/
theorem decodeMessage_eq (payload : Payload) : decodeMessage payload = .ok (messageAt payload) := by
  unfold decodeMessage messageAt
  by_cases short : payload.bitCount < 6
  · simp [short]
  · rw [if_neg short, Payload.getUint_ok payload (by omega) (by omega)]
    -- a type from 1 to 3 passes neither of the later tests
    rcases messageType_cases (payload.uintAt 0 6) with position | other
    · by_cases long : payload.bitCount < 168 <;>
        simp [bind, Except.bind, position, long, short, decodePositionReport_eq]
    · by_cases voyage : payload.uintAt 0 6 = 5
      · by_cases long : payload.bitCount < 424 <;>
          simp [bind, Except.bind, voyage, long, short, decodeStaticVoyageData_eq]
      by_cases classB : payload.uintAt 0 6 = 18
      · by_cases long : payload.bitCount < 168 <;>
          simp [bind, Except.bind, classB, long, short, decodeClassBPositionReport_eq]
      by_cases static : payload.uintAt 0 6 = 24
      · by_cases partA : 160 ≤ payload.bitCount ∧ payload.uintAt 38 2 = 0
        · have long : ¬ payload.bitCount < 160 := not_lt.mpr partA.1
          simp [bind, Except.bind, static, partA, long, short, decodeStaticDataPartA_eq]
        -- part A declines, so part B is tried on the same payload
        · have declined : payload.bitCount < 160 ∨ payload.uintAt 38 2 ≠ 0 := by
            rw [not_and_or, not_le] at partA
            exact partA
          by_cases partB : 162 ≤ payload.bitCount ∧ payload.uintAt 38 2 = 1
          · have long : ¬ payload.bitCount < 162 := not_lt.mpr partB.1
            simp [bind, Except.bind, static, partB, long, short, decodeStaticDataPartA_eq,
              decodeStaticDataPartB_eq]
          · have missing : payload.bitCount < 162 ∨ payload.uintAt 38 2 ≠ 1 := by
              rw [not_and_or, not_le] at partB
              exact partB
            simp [bind, Except.bind, static, declined, missing, partA, partB, short,
              decodeStaticDataPartA_eq, decodeStaticDataPartB_eq]
      · simp [bind, Except.bind, other, voyage, classB, static, short]

end Ais
