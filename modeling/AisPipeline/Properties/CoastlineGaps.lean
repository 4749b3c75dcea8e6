import AisPipeline.Web.Coastline
import Mathlib.Tactic.NormNum
import Mathlib.Tactic.FieldSimp
import Mathlib.Data.Rat.Floor

/-!
# Gaps in the coastline

A tile keeps a segment when one of its ends is in the tile. So a view misses the
segments that cross it between two vertices which no listed tile holds: those
with both ends outside the view rounded outwards to whole degrees.
-/
namespace Ais

namespace Coastline

open Polyline

variable {K : Type} [LinearOrder K]

/-- The least of the values is below a bound when some value is. -/
private theorem spans_lt_iff {low high bound : K} {values : List K} (spans : Spans low high values) :
    low < bound ↔ ∃ value ∈ values, value < bound := by
  constructor
  · intro below
    exact ⟨low, spans.2, below⟩
  · rintro ⟨value, member, below⟩
    exact (spans.1 value member).1.trans_lt below

variable [Field K] [IsStrictOrderedRing K] [FloorRing K]

/-- The point lies in the view, edges included. -/
def InView (view : ViewBox K) (point : K × K) : Prop :=
  (view.south ≤ point.2 ∧ point.2 ≤ view.north) ∧ view.west ≤ point.1 ∧ point.1 ≤ view.east

/-- The point lies in the view rounded outwards to whole degrees. -/
def InDegrees (view : ViewBox K) (point : K × K) : Prop :=
  ((⌊view.south⌋ : K) ≤ point.2 ∧ point.2 ≤ (⌈view.north⌉ : K)) ∧
    (⌊view.west⌋ : K) ≤ point.1 ∧ point.1 ≤ (⌈view.east⌉ : K)

/-- Some vertex lies south of the northern edge of the rounded view, and some west of its
eastern edge. -/
def Enters (view : ViewBox K) (line : List (K × K)) : Prop :=
  (∃ vertex ∈ line, vertex.2 < (⌈view.north⌉ : K)) ∧ ∃ vertex ∈ line, vertex.1 < (⌈view.east⌉ : K)

/-! ### Which tiles hold a vertex -/

/-- Along one axis: among the degrees that both the line and the view reach there is one whose
tile holds the value. -/
private theorem degree_holds_iff {low high least most value : K} (order : least < most)
    (within : low ≤ value ∧ value ≤ high) :
    (∃ d : Int, (⌊low⌋ ≤ d ∧ (d : K) ≤ high) ∧ (⌊least⌋ ≤ d ∧ (d : K) < most) ∧
        (d : K) ≤ value ∧ value ≤ d + 1) ↔
      ((⌊least⌋ : K) ≤ value ∧ value ≤ (⌈most⌉ : K)) ∧ low < (⌈most⌉ : K) := by
  constructor
  · rintro ⟨d, ⟨reached, -⟩, ⟨listed, before⟩, above, below⟩
    have next : ((d + 1 : Int) : K) ≤ (⌈most⌉ : K) := Int.cast_le.mpr (Int.lt_ceil.mpr before)
    rw [Int.cast_add, Int.cast_one] at next
    have close := Int.lt_floor_add_one low
    have started : (⌊low⌋ : K) ≤ d := Int.cast_le.mpr reached
    exact ⟨⟨(Int.cast_le.mpr listed).trans above, below.trans next⟩, by linarith⟩
  · rintro ⟨⟨above, below⟩, enters⟩
    rcases below.lt_or_eq with inner | edge
    · -- the tile that starts at the whole degree below the value
      refine ⟨⌊value⌋, ⟨Int.floor_mono within.1, (Int.floor_le value).trans within.2⟩,
        ⟨Int.le_floor.mpr above, ?_⟩, Int.floor_le value, (Int.lt_floor_add_one value).le⟩
      exact Int.lt_ceil.mp (Int.floor_lt.mpr inner)
    · -- a value on the far edge: the tile before it, which the line reaches too
      have last : ((⌈most⌉ - 1 : Int) : K) + 1 = value := by rw [edge]; push_cast; ring
      refine ⟨⌈most⌉ - 1, ⟨?_, ?_⟩, ⟨?_, ?_⟩, by linarith, last.ge⟩
      · exact Int.le_sub_one_of_lt (Int.floor_lt.mpr enters)
      · linarith [within.2]
      · exact Int.le_sub_one_of_lt (Int.lt_ceil.mpr ((Int.floor_le least).trans_lt order))
      · exact Int.lt_ceil.mp (by omega)

/-- The tile is one of those `main` goes through for a line with these bounds. -/
def Reached (bounds : ClipBox K) (id : TileId) : Prop :=
  (⌊bounds.minLat⌋ ≤ id.lat ∧ (id.lat : K) ≤ bounds.maxLat) ∧
    ⌊bounds.minLon⌋ ≤ id.lon ∧ (id.lon : K) ≤ bounds.maxLon

/-- The vertices in the tiles that are both cut from the line and listed for the view. -/
theorem vertex_held_iff {line : List (K × K)} {view : ViewBox K} {bounds : ClipBox K}
    (southNorth : view.south < view.north) (westEast : view.west < view.east)
    (lats : Spans bounds.minLat bounds.maxLat (line.map Prod.snd))
    (lons : Spans bounds.minLon bounds.maxLon (line.map Prod.fst)) {vertex : K × K}
    (member : vertex ∈ line) :
    (∃ id ∈ coastlineTilesIn view, Reached bounds id ∧ inside (tileBox id) vertex = true) ↔
      InDegrees view vertex ∧ Enters view line := by
  have lat := degree_holds_iff southNorth (lats.1 _ (List.mem_map_of_mem member))
  have lon := degree_holds_iff westEast (lons.1 _ (List.mem_map_of_mem member))
  rw [spans_lt_iff lats] at lat
  rw [spans_lt_iff lons] at lon
  simp only [List.mem_map, exists_exists_and_eq_and] at lat lon
  constructor
  · rintro ⟨id, listed, reached, held⟩
    rw [mem_coastlineTilesIn] at listed
    rw [inside_iff] at held
    have inLat := lat.mp ⟨id.lat, reached.1, listed.1, held.1⟩
    have inLon := lon.mp ⟨id.lon, reached.2, listed.2, held.2⟩
    exact ⟨⟨inLat.1, inLon.1⟩, inLat.2, inLon.2⟩
  · rintro ⟨⟨inLat, inLon⟩, northern, eastern⟩
    obtain ⟨d, reachedLat, listedLat, holdsLat⟩ := lat.mpr ⟨inLat, northern⟩
    obtain ⟨e, reachedLon, listedLon, holdsLon⟩ := lon.mpr ⟨inLon, eastern⟩
    exact ⟨⟨d, e⟩, mem_coastlineTilesIn.mpr ⟨listedLat, listedLon⟩, ⟨reachedLat, reachedLon⟩,
      inside_iff.mpr ⟨holdsLat, holdsLon⟩⟩

/-! ### Which segments a view gets -/

/-- The segments stored in the tiles listed for a view. -/
theorem segment_stored_iff {line : List (K × K)} {view : ViewBox K}
    (southNorth : view.south < view.north) (westEast : view.west < view.east)
    (ends : (K × K) × (K × K)) :
    (∃ id ∈ coastlineTilesIn view, ∃ run, (id, run) ∈ tilesOf line ∧ ends ∈ consecutive run) ↔
      ends ∈ consecutive line ∧ (InDegrees view ends.1 ∨ InDegrees view ends.2) ∧ Enters view line := by
  by_cases nonempty : line = []
  · subst nonempty
    simp [tilesOf, lineBounds]
  obtain ⟨bounds, bounded, lats, lons⟩ := lineBounds_spans nonempty
  have held {vertex : K × K} (member : vertex ∈ line) :=
    vertex_held_iff southNorth westEast lats lons member
  constructor
  · rintro ⟨id, listed, run, stored, segment⟩
    obtain ⟨reached, clipped⟩ := (mem_tilesOf bounded).mp stored
    obtain ⟨neighbours, touching⟩ := (clip_segments line (tileBox id) ends).mp ⟨run, clipped, segment⟩
    obtain ⟨first, second⟩ := mem_of_consecutive neighbours
    rcases touching with start | finish
    · obtain ⟨inDegrees, enters⟩ := (held first).mp ⟨id, listed, reached, start⟩
      exact ⟨neighbours, Or.inl inDegrees, enters⟩
    · obtain ⟨inDegrees, enters⟩ := (held second).mp ⟨id, listed, reached, finish⟩
      exact ⟨neighbours, Or.inr inDegrees, enters⟩
  · rintro ⟨neighbours, anchored, enters⟩
    obtain ⟨first, second⟩ := mem_of_consecutive neighbours
    obtain ⟨id, listed, reached, touching⟩ : ∃ id ∈ coastlineTilesIn view, Reached bounds id ∧
        Touches (tileBox id) ends := by
      rcases anchored with start | finish
      · obtain ⟨id, listed, reached, inBox⟩ := (held first).mpr ⟨start, enters⟩
        exact ⟨id, listed, reached, Or.inl inBox⟩
      · obtain ⟨id, listed, reached, inBox⟩ := (held second).mpr ⟨finish, enters⟩
        exact ⟨id, listed, reached, Or.inr inBox⟩
    obtain ⟨run, clipped, segment⟩ := (clip_segments line (tileBox id) ends).mpr ⟨neighbours, touching⟩
    exact ⟨id, listed, run, (mem_tilesOf bounded).mpr ⟨reached, clipped⟩, segment⟩

/-- Every point of the line in the view lies on a segment stored in a tile listed for it. -/
def NoGaps (line : List (K × K)) (view : ViewBox K) : Prop :=
  ∀ point, On K line point → InView view point →
    ∃ id ∈ coastlineTilesIn view, ∃ run, (id, run) ∈ tilesOf line ∧ On K run point

/-- Every point of the line in the view lies on a segment with an end in the view rounded
outwards, and the line does not merely touch the rounded view's northern or eastern edge. -/
def Anchored (line : List (K × K)) (view : ViewBox K) : Prop :=
  ∀ point, On K line point → InView view point →
    (∃ ends ∈ consecutive line, point ∈ segment K ends.1 ends.2 ∧
      (InDegrees view ends.1 ∨ InDegrees view ends.2)) ∧ Enters view line

/-- The tiles of a view leave no gap in a line exactly when its segments are anchored there. -/
theorem noGaps_iff (line : List (K × K)) (view : ViewBox K) (southNorth : view.south < view.north)
    (westEast : view.west < view.east) : NoGaps line view ↔ Anchored line view := by
  have stored := @segment_stored_iff _ _ _ _ _ line view southNorth westEast
  constructor
  · intro gapless point onLine inView
    obtain ⟨id, listed, run, kept, ends, neighbours, onSegment⟩ := gapless point onLine inView
    obtain ⟨ofLine, anchored, enters⟩ := (stored ends).mp ⟨id, listed, run, kept, neighbours⟩
    exact ⟨⟨ends, ofLine, onSegment, anchored⟩, enters⟩
  · intro anchored point onLine inView
    obtain ⟨⟨ends, ofLine, onSegment, near⟩, enters⟩ := anchored point onLine inView
    obtain ⟨id, listed, run, kept, neighbours⟩ := (stored ends).mpr ⟨ofLine, near, enters⟩
    exact ⟨id, listed, run, kept, ends, neighbours, onSegment⟩

/-- A line that crosses a whole tile between two vertices, and a view in the middle of it. -/
def crossing : List (ℚ × ℚ) := [(1 / 2, 1 / 2), (5 / 2, 1 / 2)]

def midway : ViewBox ℚ := ⟨1 / 4, 5 / 4, 3 / 4, 7 / 4⟩

/-- The same line with a vertex in the middle. -/
def bent : List (ℚ × ℚ) := [(1 / 2, 1 / 2), (3 / 2, 1 / 2), (5 / 2, 1 / 2)]

/-- With a vertex in the view both segments are there. -/
theorem noGaps_iff_vertex : NoGaps bent midway := by
  have vertex : InDegrees midway (3 / 2, 1 / 2) := by norm_num [InDegrees, midway]
  have enters : Enters midway bent :=
    ⟨⟨(1 / 2, 1 / 2), List.mem_cons_self, by norm_num [midway]⟩,
      ⟨(1 / 2, 1 / 2), List.mem_cons_self, by norm_num [midway]⟩⟩
  apply (noGaps_iff bent midway (by norm_num [midway]) (by norm_num [midway])).mpr
  rintro point ⟨ends, neighbours, onSegment⟩ -
  refine ⟨⟨ends, neighbours, onSegment, ?_⟩, enters⟩
  simp only [bent, consecutive_cons_cons, consecutive_singleton, List.mem_cons,
    List.not_mem_nil, or_false] at neighbours
  rcases neighbours with rfl | rfl
  · exact Or.inr vertex
  · exact Or.inl vertex

/-- Without one the view shows nothing. -/
theorem crossing_lost :
    2 ≤ crossing.length ∧ midway.south < midway.north ∧ midway.west < midway.east ∧
      ¬ NoGaps crossing midway := by
  have southNorth : midway.south < midway.north := by norm_num [midway]
  have westEast : midway.west < midway.east := by norm_num [midway]
  refine ⟨by decide, southNorth, westEast, fun gapless => ?_⟩
  have onLine : On ℚ crossing (3 / 2, 1 / 2) :=
    ⟨_, List.mem_singleton_self _, 1 / 2, 1 / 2, by norm_num, by norm_num, by norm_num,
      by norm_num⟩
  obtain ⟨id, listed, run, kept, ends, neighbours, -⟩ :=
    gapless (3 / 2, 1 / 2) onLine (by norm_num [InView, midway])
  obtain ⟨ofLine, near, -⟩ :=
    (segment_stored_iff southNorth westEast ends).mp ⟨id, listed, run, kept, neighbours⟩
  obtain rfl := List.mem_singleton.mp ofLine
  norm_num [InDegrees, midway] at near

end Coastline

end Ais
