import AisPipeline.Web.Radar
import Mathlib.Analysis.SpecialFunctions.Trigonometric.Basic

/-!
# The box contains the ring

The distance takes its cosine at the latitude halfway to the ship, the box at the
ring's poleward edge. Of the two latitudes the second is nearer to a pole, so the
box is at least as wide as the ring.
-/
namespace Ais

namespace Radar

/-- What is used of the cosine of an angle in degrees. -/
structure Cosine (cosDegrees : ℝ → ℝ) : Prop where
  even : ∀ angle, cosDegrees (-angle) = cosDegrees angle
  decreasing : AntitoneOn cosDegrees (Set.Icc 0 90)
  positive : ∀ angle, 0 ≤ angle → angle < 90 → 0 < cosDegrees angle

variable {cosDegrees : ℝ → ℝ}

/-- Further from the equator the cosine is smaller, on either side. -/
theorem Cosine.le_of_abs_le (cosine : Cosine cosDegrees) {near far : ℝ} (nearer : |near| ≤ far)
    (bound : far ≤ 90) : cosDegrees far ≤ cosDegrees near := by
  have folded : cosDegrees |near| = cosDegrees near := by
    rcases abs_cases near with ⟨same, -⟩ | ⟨flipped, -⟩
    · rw [same]
    · rw [flipped, cosine.even]
  have nonnegative := abs_nonneg near
  rw [← folded]
  exact cosine.decreasing ⟨nonnegative, by linarith⟩ ⟨by linarith, bound⟩ nearer

theorem le_of_hypot_le {dx dy range : ℝ} (inside : hypot dx dy ≤ range) :
    |dx| ≤ range ∧ |dy| ≤ range := by
  constructor
  · exact (Real.abs_le_sqrt (by nlinarith [sq_nonneg dy])).trans inside
  · exact (Real.abs_le_sqrt (by nlinarith [sq_nonneg dx])).trans inside

/-- The point lies in the box. -/
def BoundingBox.Contains (box : BoundingBox) (lat lon : ℝ) : Prop :=
  (box.minLat ≤ lat ∧ lat ≤ box.maxLat) ∧ box.minLon ≤ lon ∧ lon ≤ box.maxLon

/-- A centre and a range the radar can be set to. -/
structure Settable (centre : RadarCentre) (rangeNm : ℝ) : Prop where
  latitude : |centre.lat| ≤ 85
  positive : 0 < rangeNm
  largest : rangeNm ≤ 60

/-- The ring ends short of 89 degrees, where the box would be cut. -/
theorem Settable.poleward {centre : RadarCentre} {rangeNm : ℝ} (settable : Settable centre rangeNm) :
    min 89 (|centre.lat| + rangeNm / 60) = |centre.lat| + rangeNm / 60 ∧
      |centre.lat| + rangeNm / 60 ≤ 86 := by
  obtain ⟨latitude, -, largest⟩ := settable
  have edge : |centre.lat| + rangeNm / 60 ≤ 86 := by linarith
  exact ⟨min_eq_right (by linarith), edge⟩

/-- Every point of the ring lies in the box. -/
theorem boundingBoxAround_contains (cosine : Cosine cosDegrees) {centre : RadarCentre}
    {rangeNm : ℝ} (settable : Settable centre rangeNm) {lat lon : ℝ}
    (inside : distanceNm cosDegrees centre lat lon ≤ rangeNm) :
    (boundingBoxAround cosDegrees centre rangeNm).Contains lat lon := by
  obtain ⟨uncut, edge⟩ := settable.poleward
  obtain ⟨eastWest, northSouth⟩ := le_of_hypot_le inside
  have dLat : |lat - centre.lat| ≤ rangeNm / 60 := by
    rw [abs_mul, abs_of_pos (by norm_num : (0 : ℝ) < 60)] at northSouth
    linarith
  -- halfway to the ship is nearer to the equator than the ring's poleward edge
  have halfway : |(lat + centre.lat) / 2| ≤ |centre.lat| + rangeNm / 60 := by
    have split : (lat + centre.lat) / 2 = centre.lat + (lat - centre.lat) / 2 := by ring
    have triangle := abs_add_le centre.lat ((lat - centre.lat) / 2)
    rw [abs_div, abs_two] at triangle
    rw [split]
    linarith [abs_nonneg (lat - centre.lat)]
  have narrower := cosine.le_of_abs_le halfway (by linarith)
  have positive : 0 < cosDegrees (|centre.lat| + rangeNm / 60) := by
    have range := settable.positive
    exact cosine.positive _ (by positivity) (by linarith)
  have dLon : |lon - centre.lon| ≤ rangeNm / (60 * cosDegrees (|centre.lat| + rangeNm / 60)) := by
    rw [le_div_iff₀ (by positivity)]
    calc |lon - centre.lon| * (60 * cosDegrees (|centre.lat| + rangeNm / 60))
        ≤ |lon - centre.lon| * (60 * cosDegrees ((lat + centre.lat) / 2)) := by gcongr
      _ = |(lon - centre.lon) * 60 * cosDegrees ((lat + centre.lat) / 2)| := by
        rw [abs_mul, abs_mul, abs_of_pos (by norm_num : (0 : ℝ) < 60),
          abs_of_pos (positive.trans_le narrower), mul_assoc]
      _ ≤ rangeNm := eastWest
  simp only [BoundingBox.Contains, boundingBoxAround, uncut]
  obtain ⟨south, north⟩ := abs_le.mp dLat
  obtain ⟨west, east⟩ := abs_le.mp dLon
  exact ⟨⟨by linarith, by linarith⟩, by linarith, by linarith⟩

/-- A row whose record is in range is a row the request asks for. -/
private theorem inRange_fetched (cosine : Cosine cosDegrees) {centre : RadarCentre} {rangeNm : ℝ}
    (settable : Settable centre rangeNm) (lp : LatestRow) (ss : Option ShipStaticRow)
    (seen : inRange cosDegrees centre rangeNm
      (PositionReader.readCurrentRow (PositionReader.joinedRow lp ss)) = true) :
    (between lp.latitude (boundingBoxAround cosDegrees centre rangeNm).minLat
        (boundingBoxAround cosDegrees centre rangeNm).maxLat &&
      between lp.longitude (boundingBoxAround cosDegrees centre rangeNm).minLon
        (boundingBoxAround cosDegrees centre rangeNm).maxLon) = true := by
  simp only [inRange, PositionReader.readCurrentRow, PositionReader.joinedRow] at seen
  cases latitude : lp.latitude with
  | none => simp [latitude] at seen
  | some lat =>
    cases longitude : lp.longitude with
    | none => simp [longitude] at seen
    | some lon =>
      simp only [latitude, longitude, decide_eq_true_eq] at seen
      obtain ⟨northSouth, eastWest⟩ := boundingBoxAround_contains cosine settable seen
      simp only [between, northSouth.1, northSouth.2, eastWest.1, eastWest.2, decide_true,
        Bool.and_self]

/-- Asking for the box loses no ship inside the ring, and no point of the ring is outside the
box. -/
theorem area_keeps_ring (cosine : Cosine cosDegrees) (db : Database) (centre : RadarCentre)
    (rangeNm : ℝ) (settable : Settable centre rangeNm) :
    visible cosDegrees centre rangeNm
        (fetchPositionsInArea db (boundingBoxAround cosDegrees centre rangeNm)) =
      visible cosDegrees centre rangeNm (PositionReader.latestPositions db) ∧
    ∀ lat lon, distanceNm cosDegrees centre lat lon ≤ rangeNm →
      (boundingBoxAround cosDegrees centre rangeNm).Contains lat lon := by
  refine ⟨?_, fun lat lon inside => boundingBoxAround_contains cosine settable inside⟩
  rw [visible, visible, fetchPositionsInArea, PositionReader.latestPositions]
  simp only [List.filter_map, List.filter_filter]
  congr 1
  apply List.filter_congr
  intro found _
  by_cases seen : inRange cosDegrees centre rangeNm
      (PositionReader.readCurrentRow (PositionReader.joinedRow found.1 found.2)) = true
  · have fetched := inRange_fetched cosine settable found.1 found.2 seen
    simp [fetched]
  · simp [seen]

/-- `cosDegrees` with the exact cosine. -/
noncomputable def exactCosDegrees (degrees : ℝ) : ℝ := Real.cos (degrees * Real.pi / 180)

theorem exactCosDegrees_cosine : Cosine exactCosDegrees where
  even angle := by rw [exactCosDegrees, neg_mul, neg_div, Real.cos_neg, exactCosDegrees]
  decreasing := by
    rintro near ⟨low, -⟩ far ⟨-, high⟩ le
    have pi := Real.pi_pos
    apply Real.cos_le_cos_of_nonneg_of_le_pi
    · positivity
    · nlinarith
    · gcongr
  positive angle low high := by
    have pi := Real.pi_pos
    apply Real.cos_pos_of_mem_Ioo
    constructor
    · nlinarith
    · nlinarith

/-- A ship half a degree north of the default centre. -/
def northOfAlesund : Database :=
  Database.empty.insertReport
    { mmsi := some 257000000, latitude := some (629722 / 10000), longitude := some (61495 / 10000) }

theorem area_keeps_ring_alesund :
    visible exactCosDegrees ⟨62.4722, 6.1495⟩ 60 (fetchPositionsInArea northOfAlesund
        (boundingBoxAround exactCosDegrees ⟨62.4722, 6.1495⟩ 60)) =
      visible exactCosDegrees ⟨62.4722, 6.1495⟩ 60 (PositionReader.latestPositions northOfAlesund) ∧
    ∀ lat lon, distanceNm exactCosDegrees ⟨62.4722, 6.1495⟩ lat lon ≤ 60 →
      (boundingBoxAround exactCosDegrees ⟨62.4722, 6.1495⟩ 60).Contains lat lon :=
  area_keeps_ring exactCosDegrees_cosine northOfAlesund _ 60
    ⟨by rw [abs_of_pos] <;> norm_num, by norm_num, le_refl _⟩

end Radar

end Ais
