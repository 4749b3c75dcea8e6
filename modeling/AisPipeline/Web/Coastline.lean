import AisPipeline.Lib.Counting
import AisPipeline.Lib.Polyline
import Mathlib.Algebra.Order.Floor.Ring
import Mathlib.Tactic.Linarith

/-!
# The tiled coastline

The build script cuts a line into the runs that lie in each tile, and the viewer
names the tiles a view overlaps. Coordinates are exact, in any ordered field
with a floor.
-/
namespace Ais

/-- `TILE_DEGREES` of the build script. -/
def tileDegrees : Int := 1

/-- `COASTLINE_TILE_DEGREES` of the viewer. -/
def coastlineTileDegrees : Int := 1

/-- A tile id, from the two numbers in `lat_lon`. -/
structure TileId where
  lat : Int
  lon : Int
  deriving DecidableEq, Repr

/-- The box `clip` is given. -/
structure ClipBox (K : Type) where
  minLat : K
  maxLat : K
  minLon : K
  maxLon : K

structure ViewBox (K : Type) where
  south : K
  west : K
  north : K
  east : K

namespace Coastline

open Polyline

variable {K : Type} [LinearOrder K]

/-! ### Cutting a line; a point is `(lon, lat)` -/

def inside (box : ClipBox K) (point : K × K) : Bool :=
  decide (point.1 ≥ box.minLon) && decide (point.1 ≤ box.maxLon) &&
    decide (point.2 ≥ box.minLat) && decide (point.2 ≤ box.maxLat)

theorem inside_iff {box : ClipBox K} {point : K × K} :
    inside box point = true ↔ (box.minLat ≤ point.2 ∧ point.2 ≤ box.maxLat) ∧
      box.minLon ≤ point.1 ∧ point.1 ≤ box.maxLon := by
  simp only [inside, ge_iff_le, Bool.and_eq_true, decide_eq_true_eq]
  tauto

/-- The loop of `clip` from some point on, `previous` being the point before it. -/
def clipLoop (box : ClipBox K) (previous : Option (K × K)) (runs : List (List (K × K)))
    (run : Option (List (K × K))) : List (K × K) → List (List (K × K))
  | [] => runs ++ run.toList
  | point :: points =>
    if inside box point then
      clipLoop box (some point) runs (some (run.getD previous.toList ++ [point])) points
    else
      match run with
      | some run => clipLoop box (some point) (runs ++ [run ++ [point]]) none points
      | none => clipLoop box (some point) runs none points

def clip (points : List (K × K)) (box : ClipBox K) : List (List (K × K)) :=
  (clipLoop box none [] none points).filter fun run => run.length ≥ 2

section Turns

variable {box : ClipBox K} {previous : Option (K × K)} {runs : List (List (K × K))} {point : K × K}
  {points : List (K × K)}

/-- A point inside goes into the run, which starts with the point before it. -/
theorem clipLoop_inside (within : inside box point = true) (run : Option (List (K × K))) :
    clipLoop box previous runs run (point :: points) =
      clipLoop box (some point) runs (some (run.getD previous.toList ++ [point])) points := by
  cases run with
  | none => rw [clipLoop, if_pos within]
  | some run => rw [clipLoop, if_pos within]

/-- A point outside ends the run. -/
theorem clipLoop_ends (beyond : inside box point = false) (run : List (K × K)) :
    clipLoop box previous runs (some run) (point :: points) =
      clipLoop box (some point) (runs ++ [run ++ [point]]) none points := by
  simp only [clipLoop, beyond, Bool.false_eq_true, if_false]

theorem clipLoop_outside (beyond : inside box point = false) :
    clipLoop box previous runs none (point :: points) = clipLoop box (some point) runs none points := by
  simp only [clipLoop, beyond, Bool.false_eq_true, if_false]

end Turns

/-- An end of the segment lies in the box. -/
def Touches (box : ClipBox K) (ends : (K × K) × (K × K)) : Prop :=
  inside box ends.1 = true ∨ inside box ends.2 = true

/-- What the loop knows of the point before the one it looks at: it is the last of the run, if
there is a run, and otherwise it is outside. -/
def LoopInvariant (box : ClipBox K) (previous : Option (K × K)) : Option (List (K × K)) → Prop
  | some run => ∃ front last, previous = some last ∧ run = front ++ [last] ∧ inside box last = true
  | none => ∀ last ∈ previous, inside box last = false

private theorem pairs_ahead {box : ClipBox K} {ends : (K × K) × (K × K)} {last point : K × K}
    {points : List (K × K)} :
    (ends ∈ consecutive (last :: point :: points) ∧ Touches box ends) ↔
      (ends = (last, point) ∧ Touches box (last, point)) ∨
        ends ∈ consecutive (point :: points) ∧ Touches box ends := by
  rw [consecutive_cons_cons, List.mem_cons, or_and_right]
  apply or_congr_left
  constructor
  · rintro ⟨rfl, touching⟩
    exact ⟨rfl, touching⟩
  · rintro ⟨rfl, touching⟩
    exact ⟨rfl, touching⟩

/-- The loop adds the segments ahead of it that have an end in the box. -/
theorem clipLoop_segments (box : ClipBox K) (ends : (K × K) × (K × K)) (points : List (K × K))
    {previous : Option (K × K)} {runs : List (List (K × K))} {run : Option (List (K × K))}
    (invariant : LoopInvariant box previous run) :
    ends ∈ (clipLoop box previous runs run points).flatMap consecutive ↔
      ends ∈ runs.flatMap consecutive ∨ ends ∈ run.toList.flatMap consecutive ∨
        ends ∈ consecutive (previous.toList ++ points) ∧ Touches box ends := by
  induction points generalizing previous runs run with
  | nil =>
    have none_ahead : consecutive previous.toList = [] := by cases previous <;> rfl
    simp [clipLoop, none_ahead]
  | cons point points ih =>
    have starts (within : inside box point = true) (front : List (K × K)) :
        LoopInvariant box (some point) (some (front ++ [point])) := ⟨front, point, rfl, rfl, within⟩
    have stops (beyond : inside box point = false) : LoopInvariant box (some point) none := by
      rintro _ ⟨⟩
      exact beyond
    cases run with
    | some run =>
      -- in a run the next segment is kept, whether the point is inside or not
      obtain ⟨front, last, rfl, rfl, before⟩ := invariant
      have touching : Touches box (last, point) := Or.inl before
      cases here : inside box point with
      | true =>
        rw [clipLoop_inside here, Option.getD_some, ih (starts here _)]
        simp only [Option.toList_some, List.flatMap_singleton, consecutive_concat, List.mem_append,
          List.mem_singleton, List.singleton_append, pairs_ahead, touching, and_true, or_assoc]
      | false =>
        rw [clipLoop_ends here, ih (stops here)]
        simp only [Option.toList_some, Option.toList_none, List.flatMap_append, List.flatMap_nil,
          List.not_mem_nil, false_or, List.flatMap_singleton, consecutive_concat, List.mem_append,
          List.mem_singleton, List.singleton_append, pairs_ahead, touching, and_true, or_assoc]
    | none =>
      cases previous with
      | none =>
        -- the first point ends no segment
        cases here : inside box point with
        | true =>
          have alone : LoopInvariant box (some point) (some [point]) := starts here []
          rw [clipLoop_inside here, Option.getD_none, Option.toList_none, List.nil_append, ih alone]
          simp only [Option.toList_some, List.flatMap_singleton, consecutive_singleton,
            List.singleton_append, Option.toList_none, List.flatMap_nil, List.nil_append]
        | false =>
          rw [clipLoop_outside here, ih (stops here)]
          simp only [Option.toList_none, Option.toList_some, List.nil_append, List.singleton_append]
      | some last =>
        have before : inside box last = false := invariant last rfl
        cases here : inside box point with
        | true =>
          have touching : Touches box (last, point) := Or.inr here
          have pair : LoopInvariant box (some point) (some [last, point]) := starts here [last]
          rw [clipLoop_inside here, Option.getD_none, Option.toList_some, List.singleton_append, ih pair]
          simp only [Option.toList_none, Option.toList_some, List.singleton_append,
            List.flatMap_singleton, List.flatMap_nil, consecutive_cons_cons last point [],
            consecutive_singleton, List.mem_singleton, List.not_mem_nil, false_or, pairs_ahead,
            touching, and_true]
        | false =>
          -- the segment that crosses the box between two outside points
          have missed : ¬ Touches box (last, point) := by simp [Touches, before, here]
          rw [clipLoop_outside here, ih (stops here)]
          simp only [Option.toList_none, Option.toList_some, List.singleton_append, List.flatMap_nil,
            List.not_mem_nil, false_or, pairs_ahead, missed, and_false]

/-- The segments of the runs are those of the line with an end in the box. -/
theorem clip_segments (points : List (K × K)) (box : ClipBox K) (ends : (K × K) × (K × K)) :
    (∃ run ∈ clip points box, ends ∈ consecutive run) ↔
      ends ∈ consecutive points ∧ Touches box ends := by
  have start : LoopInvariant box (none : Option (K × K)) none := by
    intro last before
    cases before
  have kept := @clipLoop_segments _ _ box ends points none [] none start
  simp only [List.flatMap_nil, List.not_mem_nil, Option.toList_none, List.nil_append, false_or,
    List.mem_flatMap] at kept
  rw [← kept]
  constructor
  · rintro ⟨run, member, segment⟩
    exact ⟨run, List.mem_of_mem_filter member, segment⟩
  · rintro ⟨run, member, segment⟩
    refine ⟨run, List.mem_filter.mpr ⟨member, ?_⟩, segment⟩
    -- the filter drops only runs without a segment
    match run, segment with
    | _ :: _ :: _, _ => simp

/-! ### The bounding box of a line -/

/-- One turn of the loop over the line's vertices; `none` is the infinities it starts from. -/
def widen (bounds : Option (ClipBox K)) (point : K × K) : Option (ClipBox K) :=
  match bounds with
  | none => some ⟨point.2, point.2, point.1, point.1⟩
  | some bounds => some {
      minLat := min bounds.minLat point.2
      maxLat := max bounds.maxLat point.2
      minLon := min bounds.minLon point.1
      maxLon := max bounds.maxLon point.1 }

/-- The bounding box of a line. -/
def lineBounds (line : List (K × K)) : Option (ClipBox K) := line.foldl widen none

/-- The values lie between the two, and the lower is one of them. -/
def Spans (low high : K) (values : List K) : Prop :=
  (∀ value ∈ values, low ≤ value ∧ value ≤ high) ∧ low ∈ values

private theorem Spans.widen {low high : K} {values : List K} (spans : Spans low high values)
    (last : K) :
    Spans (min low last) (max high last) (values ++ [last]) := by
  obtain ⟨within, attained⟩ := spans
  constructor
  · intro value member
    rcases List.mem_append.mp member with earlier | new
    · exact ⟨(min_le_left ..).trans (within value earlier).1,
        (within value earlier).2.trans (le_max_left ..)⟩
    · obtain rfl := List.mem_singleton.mp new
      exact ⟨min_le_right .., le_max_right ..⟩
  · rcases min_choice low last with same | same
    · rw [same]
      exact List.mem_append_left _ attained
    · rw [same]
      exact List.mem_append_right _ (List.mem_singleton_self _)

theorem lineBounds_spans {line : List (K × K)} (nonempty : line ≠ []) :
    ∃ bounds, lineBounds line = some bounds ∧
      Spans bounds.minLat bounds.maxLat (line.map Prod.snd) ∧
      Spans bounds.minLon bounds.maxLon (line.map Prod.fst) := by
  induction line using List.reverseRecOn with
  | nil => exact absurd rfl nonempty
  | append_singleton line point ih =>
    rw [lineBounds, List.foldl_append, ← lineBounds, List.map_append, List.map_append]
    by_cases first : line = []
    · subst first
      exact ⟨_, rfl, by simp [Spans], by simp [Spans]⟩
    · obtain ⟨bounds, before, lats, lons⟩ := ih first
      rw [before]
      exact ⟨_, rfl, lats.widen point.2, lons.widen point.1⟩

/-! ### The tiles a line is stored in -/

variable [Field K] [IsStrictOrderedRing K] [FloorRing K]

/-- The degrees `for (d = start; d <= last; d += TILE_DEGREES)` goes through. -/
def degreesUpTo (start : Int) (last : K) : List Int :=
  Counting.values tileDegrees (fun d => (d : K) ≤ last) (⌊last⌋ + 1)
    ⟨by decide, fun _ more => Int.lt_add_one_of_le (Int.le_floor.mpr more)⟩ start

/-- The degrees `for (d = start; d < limit; d += step)` goes through. -/
def degreesBelow (start : Int) (limit : K) : List Int :=
  Counting.values coastlineTileDegrees (fun d => (d : K) < limit) ⌈limit⌉
    ⟨by decide, fun _ more => Int.lt_ceil.mpr more⟩ start

/-- The loops of `main` over the tiles one line's bounding box touches: each run with the tile it
is stored in. -/
def tilesOf (line : List (K × K)) : List (TileId × List (K × K)) :=
  match lineBounds line with
  | none => []
  | some bounds =>
    (degreesUpTo (⌊bounds.minLat / tileDegrees⌋ * tileDegrees) bounds.maxLat).flatMap fun (lat : Int) =>
      (degreesUpTo (⌊bounds.minLon / tileDegrees⌋ * tileDegrees) bounds.maxLon).flatMap fun (lon : Int) =>
        (clip line ⟨lat, lat + tileDegrees, lon, lon + tileDegrees⟩).map fun run => (⟨lat, lon⟩, run)

theorem mem_degreesUpTo {start : Int} {last : K} {d : Int} :
    d ∈ degreesUpTo start last ↔ start ≤ d ∧ (d : K) ≤ last := by
  rw [degreesUpTo, Counting.mem_values fun d e le more => (Int.cast_le.mpr le).trans more]
  simp [tileDegrees]

/-- The box of a tile. -/
def tileBox (id : TileId) : ClipBox K := ⟨id.lat, id.lat + 1, id.lon, id.lon + 1⟩

/-- The runs of a tile are the runs in its box, for every tile the bounding box touches. -/
theorem mem_tilesOf {line run : List (K × K)} {bounds : ClipBox K} {id : TileId}
    (bounded : lineBounds line = some bounds) :
    (id, run) ∈ tilesOf line ↔
      ((⌊bounds.minLat⌋ ≤ id.lat ∧ (id.lat : K) ≤ bounds.maxLat) ∧
        ⌊bounds.minLon⌋ ≤ id.lon ∧ (id.lon : K) ≤ bounds.maxLon) ∧
          run ∈ clip line (tileBox id) := by
  have whole (x : K) : ⌊x / (tileDegrees : K)⌋ * tileDegrees = ⌊x⌋ := by simp [tileDegrees]
  have one : (tileDegrees : K) = 1 := by simp [tileDegrees]
  simp only [tilesOf, bounded, whole, List.mem_flatMap, List.mem_map, mem_degreesUpTo]
  simp only [one]
  constructor
  · rintro ⟨lat, inLat, lon, inLon, kept, member, ⟨⟩⟩
    exact ⟨⟨inLat, inLon⟩, member⟩
  · rintro ⟨⟨inLat, inLon⟩, member⟩
    exact ⟨id.lat, inLat, id.lon, inLon, run, member, rfl⟩

/-! ### The viewer -/

def coastlineTilesIn (box : ViewBox K) : List TileId :=
  (degreesBelow (⌊box.south / coastlineTileDegrees⌋ * coastlineTileDegrees) box.north).flatMap fun lat =>
    (degreesBelow (⌊box.west / coastlineTileDegrees⌋ * coastlineTileDegrees) box.east).map fun lon =>
      ⟨lat, lon⟩

theorem mem_degreesBelow {start : Int} {limit : K} {d : Int} :
    d ∈ degreesBelow start limit ↔ start ≤ d ∧ (d : K) < limit := by
  rw [degreesBelow, Counting.mem_values fun d e le more => (Int.cast_le.mpr le).trans_lt more]
  simp [coastlineTileDegrees]

theorem mem_coastlineTilesIn {box : ViewBox K} {id : TileId} :
    id ∈ coastlineTilesIn box ↔
      (⌊box.south⌋ ≤ id.lat ∧ (id.lat : K) < box.north) ∧
        ⌊box.west⌋ ≤ id.lon ∧ (id.lon : K) < box.east := by
  have whole (x : K) : ⌊x / (coastlineTileDegrees : K)⌋ * coastlineTileDegrees = ⌊x⌋ := by
    simp [coastlineTileDegrees]
  simp only [coastlineTilesIn, whole, List.mem_flatMap, List.mem_map, mem_degreesBelow]
  constructor
  · rintro ⟨lat, inLat, lon, inLon, rfl⟩
    exact ⟨inLat, inLon⟩
  · rintro ⟨inLat, inLon⟩
    exact ⟨id.lat, inLat, id.lon, inLon, rfl⟩

end Coastline

end Ais
