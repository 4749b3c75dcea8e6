import AisPipeline.Js.Number
import AisPipeline.Lib.Memo
import AisPipeline.Web.App
import AisPipeline.Web.Radar

/-!
# The blips

What the radar draws for each ship, and the icons it keeps to draw them with.
An icon is one object for all blips that look alike, in one drawing and the
next: the map replaces a marker whose icon is not the same object as before.
-/
namespace Ais.RadarBlips

open Cpp (Bytes)
open Js

/-- `MOVING_KNOTS`. -/
def movingKnots : ℚ := 1 / (2 : Nat)

inductive BlipCategory where
  | passenger
  | cargo
  | tanker
  | fishing
  | service
  | leisure
  | other
  | unknown
  deriving DecidableEq, Repr

/-- The text that stands for a category. -/
def BlipCategory.text : BlipCategory → Text
  | .passenger => units "passenger"
  | .cargo => units "cargo"
  | .tanker => units "tanker"
  | .fishing => units "fishing"
  | .service => units "service"
  | .leisure => units "leisure"
  | .other => units "other"
  | .unknown => units "unknown"

/-- The colours of `BLIP_CATEGORIES`. -/
def colourOf : BlipCategory → Text
  | .passenger => units "#3dd6b0"
  | .cargo => units "#7f8fe0"
  | .tanker => units "#e06464"
  | .fishing => units "#e07fb0"
  | .service => units "#e8b04b"
  | .leisure => units "#b5d96a"
  | .other => units "#c6c1ad"
  | .unknown => units "#8a8f87"

/-- The category of an AIS ship type. -/
def categoryOf (record : PositionRecord) : BlipCategory :=
  match record.shipType with
  | none => .unknown
  | some code =>
    if code = 0 then .unknown
    else if code = 30 then .fishing
    else if code = 36 ∨ code = 37 then .leisure
    else if 31 ≤ code ∧ code ≤ 34 ∨ 50 ≤ code ∧ code ≤ 59 then .service
    -- high-speed craft are mostly fast ferries
    else if 40 ≤ code ∧ code ≤ 49 then .passenger
    else if 60 ≤ code ∧ code ≤ 69 then .passenger
    else if 70 ≤ code ∧ code ≤ 79 then .cargo
    else if 80 ≤ code ∧ code ≤ 89 then .tanker
    else .other

/-- `now` in milliseconds. -/
def ageInSeconds (record : PositionRecord) (now : Int) : ℚ :=
  ((now - record.receivedAt * 1000 : Int) : ℚ) / (1000 : Nat)

def isStale (record : PositionRecord) (now : Int) : Bool :=
  ageInSeconds record now > App.staleAfterSeconds

/-- The direction to point the blip, or none to draw a dot. -/
def bearingOf (record : PositionRecord) : Option ℚ :=
  -- the course of a ship that lies still is jitter
  if record.report.sog.getD 0 < movingKnots then none
  else (record.report.trueHeading.map fun heading => (heading.toInt : ℚ)).or record.report.cog

/-- The name, or else the MMSI. -/
def displayName (record : PositionRecord) : Bytes :=
  record.name.getD ("MMSI ".toList.map Char.toUInt8 ++
    (Numeral.write 10 record.report.mmsi.toNat).map fun d => UInt8.ofNat (48 + d))

/-! ### The icons -/

def selectedColour : Text := units "#f97316"

def bearingStepDegrees : Nat := 5

/-- `Math.round(bearing / BEARING_STEP_DEGREES) * BEARING_STEP_DEGREES % 360`. -/
def snap (bearing : ℚ) : Int :=
  (⌊bearing / bearingStepDegrees + 1 / (2 : Nat)⌋ * bearingStepDegrees).tmod 360

/-- All an icon depends on. -/
@[ext] structure Look where
  category : BlipCategory
  snapped : Option Int
  stale : Bool
  selected : Bool
  deriving DecidableEq

/-- `DivIcon`, as it is made with these options. -/
structure DivIcon where
  className : Text
  html : Text
  iconSize : Nat × Nat
  iconAnchor : Nat × Nat
  deriving DecidableEq

namespace Look

def flag (b : Bool) : Text := units (if b then "true" else "false")

def key (look : Look) : Text :=
  look.category.text ++ units "|" ++
    (match look.snapped with
    | some snapped => integerText snapped
    | none => units "dot") ++
    units "|" ++ flag look.stale ++ units "|" ++ flag look.selected

def ring (look : Look) : Text :=
  if look.selected then
    units "<circle r=\"9\" fill=\"none\" stroke=\"" ++ selectedColour ++ units "\" stroke-width=\"2\" />"
  else []

def opacity (look : Look) : Text := units (if look.stale then "0.35" else "1")

/-- An arrowhead that points north, turned clockwise, or a dot. -/
def shape (look : Look) : Text :=
  match look.snapped with
  | none =>
    units "<circle r=\"2.75\" fill=\"" ++ colourOf look.category ++ units "\" fill-opacity=\"" ++
      look.opacity ++ units "\" />"
  | some snapped =>
    units "<path d=\"M0,-6.5 L4.5,5 L0,2.5 L-4.5,5 Z\" fill=\"" ++ colourOf look.category ++
      units "\" fill-opacity=\"" ++ look.opacity ++ units "\"\n               transform=\"rotate(" ++
      integerText snapped ++ units ")\" />"

def icon (look : Look) : DivIcon where
  className := units "radar-blip"
  html := units "<svg viewBox=\"-11 -11 22 22\" width=\"22\" height=\"22\">" ++ look.ring ++ look.shape ++
    units "</svg>"
  iconSize := (22, 22)
  iconAnchor := (11, 11)

end Look

/-- `iconCache`, with the icons in the order they were made. -/
abbrev IconCache := Memo Text DivIcon

/-- The icon, by its place in the cache. -/
def blipIcon (category : BlipCategory) (bearing : Option ℚ) (stale selected : Bool) : StateM IconCache Nat :=
  -- the bearing is snapped first, which bounds how many icons there are
  let look : Look := { category, snapped := bearing.map snap, stale, selected }
  Memo.request look.key look.icon

/-! ### The component -/

abbrev PositionedRecord := { record : PositionRecord // Radar.hasPosition record = true }

namespace PositionedRecord

theorem located (record : PositionedRecord) :
    record.val.report.latitude.isSome = true ∧ record.val.report.longitude.isSome = true := by
  simpa [Radar.hasPosition] using record.property

def position (record : PositionedRecord) : ℚ × ℚ :=
  (record.val.report.latitude.get record.located.1, record.val.report.longitude.get record.located.2)

end PositionedRecord

/-- `RadarBlipsProps`; what a click does is left out. -/
structure Props where
  records : List PositionedRecord
  now : Int
  selectedMmsi : Option Int := none

/-- A `Marker`; the icon is named by its place in the cache. -/
structure Marker where
  key : UInt32
  position : ℚ × ℚ
  icon : Nat
  zIndexOffset : Nat
  title : Bytes

def Props.selects (props : Props) (record : PositionRecord) : Bool :=
  some (record.report.mmsi.toNat : Int) = props.selectedMmsi

def marker (props : Props) (record : PositionedRecord) : StateM IconCache Marker := do
  let stale := isStale record props.now
  let selected := props.selects record
  let icon ← blipIcon (categoryOf record) (bearingOf record) stale selected
  return {
    key := record.val.report.mmsi
    position := record.position
    icon
    zIndexOffset := if selected then 1000 else 0
    title := displayName record }

/-- One rendering of `RadarBlips`. -/
def radarBlips (props : Props) : StateM IconCache (List Marker) := props.records.mapM (marker props)

/-- One rendering after the other. -/
def renderings (renders : List Props) : StateM IconCache (List (List Marker)) := renders.mapM radarBlips

end Ais.RadarBlips
