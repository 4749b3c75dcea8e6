import AisPipeline.Api.PositionReader
import Mathlib.Analysis.Real.Sqrt

/-!
# The radar and the ships it asks for

The front end's geometry in exact real arithmetic. The cosine is a parameter:
the code takes it from `Math.cos`.
-/
namespace Ais

/-- `RadarCentre`; the name of the place plays no part in the geometry. -/
structure RadarCentre where
  lat : ℝ
  lon : ℝ

namespace Radar

/-- `Math.hypot`. -/
noncomputable def hypot (dx dy : ℝ) : ℝ := √(dx ^ 2 + dy ^ 2)

/-- The box of `GET /positions/area`. -/
structure BoundingBox where
  minLat : ℝ
  maxLat : ℝ
  minLon : ℝ
  maxLon : ℝ

section Geometry

variable (cosDegrees : ℝ → ℝ)

noncomputable def distanceNm (centre : RadarCentre) (lat lon : ℝ) : ℝ :=
  let dy := (lat - centre.lat) * 60
  let dx := (lon - centre.lon) * 60 * cosDegrees ((lat + centre.lat) / 2)
  hypot dx dy

def hasPosition (record : PositionRecord) : Bool :=
  record.report.latitude.isSome && record.report.longitude.isSome

/-- `inRange`, whose argument has a position. -/
noncomputable def inRange (centre : RadarCentre) (rangeNm : ℝ) (record : PositionRecord) : Bool :=
  match record.report.latitude, record.report.longitude with
  | some lat, some lon => decide (distanceNm cosDegrees centre lat lon ≤ rangeNm)
  | _, _ => false

noncomputable def boundingBoxAround (centre : RadarCentre) (rangeNm : ℝ) : BoundingBox :=
  let dLat := rangeNm / 60
  let poleward := min 89 (|centre.lat| + dLat)
  let dLon := rangeNm / (60 * cosDegrees poleward)
  { minLat := centre.lat - dLat
    maxLat := centre.lat + dLat
    minLon := centre.lon - dLon
    maxLon := centre.lon + dLon }

/-- `visible` in `App`: the records that are drawn. -/
noncomputable def visible (centre : RadarCentre) (rangeNm : ℝ) (records : List PositionRecord) :
    List PositionRecord :=
  (records.filter hasPosition).filter (inRange cosDegrees centre rangeNm)

end Geometry

/-! ### The request -/

/-- `value BETWEEN low AND high` with exact bounds; NULL is in no interval. -/
noncomputable def between (value : Option ℚ) (low high : ℝ) : Bool :=
  match value with
  | none => false
  | some value => decide (low ≤ value) && decide (value ≤ high)

/-- `fetchPositionsInArea`, when the bounds reach the query of `positions_in_area` unrounded. -/
noncomputable def fetchPositionsInArea (db : Database) (box : BoundingBox) : List PositionRecord :=
  ((KeyedTable.leftJoin db.latestPositions.rows LatestRow.mmsi db.shipStatic).filter fun found =>
    between found.1.latitude box.minLat box.maxLat && between found.1.longitude box.minLon box.maxLon).map
      fun found => PositionReader.readCurrentRow (PositionReader.joinedRow found.1 found.2)

private theorem between_finite (value : Option ℚ) (low high : ℚ) :
    between value low high = PositionReader.between value (.finite low) (.finite high) := by
  cases value with
  | none => rfl
  | some value => simp only [between, PositionReader.between, Rat.cast_le]

/-- Bounds that are doubles are the bounds the server's query gets. -/
theorem fetchPositionsInArea_finite (db : Database) (minLat maxLat minLon maxLon : ℚ) :
    fetchPositionsInArea db ⟨minLat, maxLat, minLon, maxLon⟩ =
      PositionReader.positionsInArea db
        ⟨.finite minLat, .finite maxLat, .finite minLon, .finite maxLon⟩ := by
  simp only [fetchPositionsInArea, PositionReader.positionsInArea, between_finite]

end Radar

end Ais
