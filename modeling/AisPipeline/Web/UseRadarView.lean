import AisPipeline.Js.Number
import AisPipeline.Lib.Pairs
import AisPipeline.Lib.Transition

/-!
# The view in the URL

The hook `useRadarView`: where the radar is and how far it reaches, read from
the query of the page's URL and written back after every change. How the query
is percent-encoded is left to the browser.
-/
namespace Ais.UseRadarView

open Js
open Cpp (Double)

structure RadarCentre where
  lat : Double
  lon : Double
  name : Option Text

structure RadarView where
  centre : RadarCentre
  rangeNm : Nat

/-- `RADAR_RANGES_NM`. -/
def radarRangesNm : List Nat := [1, 2, 3, 4, 6, 8, 12, 16, 24, 32, 40, 48, 60]

def defaultRangeNm : Nat := 60

inductive Direction where
  | in
  | out
  deriving DecidableEq

/-- The next range in or out; one that is none of the ranges counts as the default. -/
def stepRange (rangeNm : Nat) (direction : Direction) : Nat :=
  let start : Int :=
    if rangeNm ∈ radarRangesNm then radarRangesNm.idxOf rangeNm else radarRangesNm.idxOf defaultRangeNm
  let stop := min ((radarRangesNm.length : Int) - 1) (max 0 (start + if direction = .in then -1 else 1))
  radarRangesNm.getD stop.toNat 0

/-- The names and values of a query. -/
abbrev Params := List (Text × Text)

section

variable (nearest : ℚ → Double)

def defaultCentre : RadarCentre where
  lat := nearest (624722 / 10000)
  lon := nearest (61495 / 10000)
  name := some (units "Ålesund")

/-- `Number.isFinite(value) && Math.abs(value) <= limit`. -/
def within (limit : ℚ) : Double → Bool
  | .finite value => decide (|value| ≤ limit)
  | .infinite _ | .nan => false

/-- `Number(params.get(key))`; a missing value counts as zero, like an empty one. -/
def numberOf (params : Params) (key : Text) : Double :=
  number nearest ((Pairs.get? params key).getD [])

def readCentre (params : Params) : RadarCentre :=
  let lat := numberOf nearest params (units "lat")
  let lon := numberOf nearest params (units "lon")
  if (Pairs.get? params (units "lat")).isSome && (Pairs.get? params (units "lon")).isSome &&
      within 85 lat && within 180 lon then
    { lat, lon, name := (Pairs.get? params (units "name")).filter fun name => name ≠ [] }
  else defaultCentre nearest

def readRange (params : Params) : Nat :=
  let range := numberOf nearest params (units "range")
  if (Pairs.get? params (units "range")).isSome then
    (radarRangesNm.find? fun (rangeNm : Nat) => range = .finite rangeNm).getD defaultRangeNm
  else defaultRangeNm

def readFromUrl (params : Params) : RadarView where
  centre := readCentre nearest params
  rangeNm := readRange nearest params

end

/-- `value.toFixed(5)`. -/
def toFixed5 : Double → Text
  | .finite value => toFixed 5 value
  | .infinite negative => units (if negative then "-Infinity" else "Infinity")
  | .nan => units "NaN"

/-- Names are well-formed: `URLSearchParams.set` would put U+FFFD for a lone surrogate. -/
def writeName (name : Option Text) (params : Params) : Params :=
  match name.filter fun name => name ≠ [] with
  | some name => Pairs.set params (units "name") name
  | none => Pairs.delete params (units "name")

def writeToUrl (view : RadarView) (params : Params) : Params :=
  let params := Pairs.set params (units "lat") (toFixed5 view.centre.lat)
  let params := Pairs.set params (units "lon") (toFixed5 view.centre.lon)
  let params := writeName view.centre.name params
  Pairs.set params (units "range") (wholeText view.rangeNm)

/-! ### The page -/

structure State where
  params : Params
  view : RadarView
  /-- the view as it was last rendered -/
  shown : RadarView
  /-- the effect has run for it -/
  written : Bool := false

/-- A rendering is one after a change of the view. -/
inductive Event where
  | rendered
  | wrote
  | centred (centre : RadarCentre)
  | stepped (direction : Direction)
  | reloaded

section

variable (nearest : ℚ → Double)

def opened (params : Params) : State :=
  { params, view := readFromUrl nearest params, shown := readFromUrl nearest params }

inductive Step : State → Event → State → Prop where
  | renders (s : State) : Step s .rendered { s with shown := s.view, written := false }
  | writes (s : State) (due : s.written = false) :
      Step s .wrote { s with params := writeToUrl s.shown s.params, written := true }
  | centres (s : State) (centre : RadarCentre) :
      Step s (.centred centre) { s with view := { s.view with centre } }
  -- the controls step from the range they were rendered with
  | steps (s : State) (direction : Direction) :
      Step s (.stepped direction)
        { s with view := { s.view with rangeNm := stepRange s.shown.rangeNm direction } }
  | reloads (s : State) : Step s .reloaded (opened nearest s.params)

end

end Ais.UseRadarView
