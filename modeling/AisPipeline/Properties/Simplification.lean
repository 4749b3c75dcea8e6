import AisPipeline.Lib.Polyline
import AisPipeline.Web.Simplify

/-!
# The simplified line stays close

The search ends, keeps both ends, and drops only points within the tolerance
of the segment between their kept neighbours.
-/
namespace Ais

namespace Coastline

open Loop Gaps
open Radar (hypot)

/-- The places of the kept points. -/
def keptSet {n : Nat} (keep : Fin n → Bool) : Set (Fin n) := {i | keep i = true}

theorem keptSet_update {n : Nat} (keep : Fin n → Bool) (m : Fin n) :
    keptSet (Function.update keep m true) = insert m (keptSet keep) := by
  ext i
  by_cases same : i = m
  · simp [keptSet, same]
  · simp [keptSet, same]

section Search

variable {P D : Type} [LinearOrder D] {distance : P → P → P → D} {points : List P} {tolerance : D}

/-! ### The search ends -/

/-- What is left to do for an interval: itself, and a split for each point inside. -/
def intervalSize {n : Nat} (interval : Fin n × Fin n) : Nat :=
  1 + 2 * (interval.2.val - interval.1.val - 1)

def stackSize {n : Nat} (s : Simplifying n) : Nat := (s.stack.map intervalSize).sum

/-- A turn that goes round again takes the interval on top: it splits it at a point inside, or
finds all points inside within the tolerance. -/
theorem simplifyTurn_again {s next : Simplifying points.length}
    (round : simplifyTurn distance points tolerance s = .again next) :
    ∃ first last stack, s.stack = (first, last) :: stack ∧
      ((∃ m ∈ Set.Ioo first last,
          next = ⟨Function.update s.keep m true, (m, last) :: (first, m) :: stack⟩) ∨
        (next = ⟨s.keep, stack⟩ ∧ Close distance points tolerance first last)) := by
  obtain ⟨keep, stack⟩ := s
  cases stack with
  | nil => cases round
  | cons top stack =>
    obtain ⟨first, last⟩ := top
    refine ⟨first, last, stack, rfl, ?_⟩
    rcases furthestBetween_cases distance tolerance first last with ⟨m, inside, found⟩ | ⟨found, close⟩
    · simp only [simplifyTurn, found, Turn.again.injEq] at round
      exact Or.inl ⟨m, inside, round.symm⟩
    · simp only [simplifyTurn, found, Turn.again.injEq] at round
      exact Or.inr ⟨round.symm, close⟩

theorem simplifyTurn_leave {s : Simplifying points.length} {keep : Fin points.length → Bool}
    (leaves : simplifyTurn distance points tolerance s = .leave keep) : s.stack = [] ∧ keep = s.keep := by
  obtain ⟨keep, stack⟩ := s
  cases stack with
  | nil =>
    cases leaves
    exact ⟨rfl, rfl⟩
  | cons top stack =>
    obtain ⟨first, last⟩ := top
    rcases furthestBetween_cases distance tolerance first last with ⟨m, -, found⟩ | ⟨found, -⟩
    · simp only [simplifyTurn, found, reduceCtorEq] at leaves
    · simp only [simplifyTurn, found, reduceCtorEq] at leaves

variable (distance tolerance) in
theorem simplifyTurn_shrinks : Shrinks (simplifyTurn distance points tolerance) stackSize := by
  intro s next round
  obtain ⟨first, last, stack, top, ⟨m, ⟨above, below⟩, rfl⟩ | ⟨rfl, -⟩⟩ := simplifyTurn_again round
  · rw [Fin.lt_def] at above below
    -- the two halves have one point less inside than the whole
    simp only [stackSize, top, List.map_cons, List.sum_cons, intervalSize]
    omega
  · simp only [stackSize, top, List.map_cons, List.sum_cons, intervalSize]
    omega

/-! ### What the search leaves out -/

/-- The intervals to be done are gaps between kept points, and so is every other gap, with its
points within the tolerance. -/
structure Tiled (distance : P → P → P → D) (points : List P) (tolerance : D)
    (s : Simplifying points.length) : Prop where
  distinct : s.stack.Nodup
  pending : ∀ interval ∈ s.stack, Gap (keptSet s.keep) interval.1 interval.2
  done : ∀ low high, Gap (keptSet s.keep) low high →
    (low, high) ∈ s.stack ∨ Close distance points tolerance low high

section Intervals

variable {keep : Fin points.length → Bool} {first last : Fin points.length}
  {stack : List (Fin points.length × Fin points.length)}

/-- A new kept point splits its interval in two. -/
theorem Tiled.split (tiled : Tiled distance points tolerance ⟨keep, (first, last) :: stack⟩)
    {m : Fin points.length} (inside : m ∈ Set.Ioo first last) :
    Tiled distance points tolerance ⟨Function.update keep m true, (m, last) :: (first, m) :: stack⟩ := by
  obtain ⟨distinct, pending, done⟩ := tiled
  obtain ⟨not_again, distinct⟩ := List.nodup_cons.mp distinct
  have gap : Gap (keptSet keep) first last := pending (first, last) List.mem_cons_self
  have fresh : m ∉ keptSet keep := gap.empty m inside
  have others (interval : Fin points.length × Fin points.length) (member : interval ∈ stack) :
      Gap (keptSet keep) interval.1 interval.2 := pending interval (List.mem_cons_of_mem _ member)
  refine ⟨?_, ?_, ?_⟩
  · -- the new point ends no interval that was there before
    have new_low : (m, last) ∉ stack := fun member => fresh (others _ member).low_mem
    have new_high : (first, m) ∉ stack := fun member => fresh (others _ member).high_mem
    have apart : (m, last) ≠ (first, m) := fun same => ne_of_gt inside.1 (congrArg Prod.fst same)
    exact List.nodup_cons.mpr ⟨by simp [apart, new_low], List.nodup_cons.mpr ⟨new_high, distinct⟩⟩
  · intro interval member
    rw [keptSet_update, gap.insert_iff inside]
    rcases List.mem_cons.mp member with rfl | below
    · exact Or.inr (Or.inr ⟨rfl, rfl⟩)
    rcases List.mem_cons.mp below with rfl | older
    · exact Or.inr (Or.inl ⟨rfl, rfl⟩)
    · refine Or.inl ⟨others interval older, ?_⟩
      rintro ⟨rfl, rfl⟩
      exact not_again older
  · intro low high neighbours
    rw [keptSet_update, gap.insert_iff inside] at neighbours
    rcases neighbours with ⟨old, other⟩ | ⟨rfl, rfl⟩ | ⟨rfl, rfl⟩
    · refine (done low high old).imp_left fun member => ?_
      rcases List.mem_cons.mp member with same | member
      · cases same
        exact absurd ⟨rfl, rfl⟩ other
      · exact List.mem_cons_of_mem _ (List.mem_cons_of_mem _ member)
    · exact Or.inl (List.mem_cons_of_mem _ List.mem_cons_self)
    · exact Or.inl List.mem_cons_self

/-- An interval with all its points within the tolerance is done. -/
theorem Tiled.pop (tiled : Tiled distance points tolerance ⟨keep, (first, last) :: stack⟩)
    (close : Close distance points tolerance first last) :
    Tiled distance points tolerance ⟨keep, stack⟩ := by
  obtain ⟨distinct, pending, done⟩ := tiled
  refine ⟨(List.nodup_cons.mp distinct).2, ?_, ?_⟩
  · exact fun interval member => pending interval (List.mem_cons_of_mem _ member)
  · intro low high neighbours
    rcases done low high neighbours with member | near
    · rcases List.mem_cons.mp member with same | member
      · cases same
        exact Or.inr close
      · exact Or.inl member
    · exact Or.inr near

end Intervals

theorem Tiled.turn {s next : Simplifying points.length} (tiled : Tiled distance points tolerance s)
    (round : simplifyTurn distance points tolerance s = .again next) :
    Tiled distance points tolerance next := by
  obtain ⟨keep, pending⟩ := s
  obtain ⟨first, last, stack, rfl, ⟨m, inside, rfl⟩ | ⟨rfl, close⟩⟩ := simplifyTurn_again round
  · exact tiled.split inside
  · exact tiled.pop close

variable (distance tolerance) in
/-- Before the loop the two ends are the only gap, and it is to be done. -/
private theorem tiled_start {first last : Fin points.length} (lt : first < last) :
    Tiled distance points tolerance (simplifyStart first last) := by
  have ends : keptSet (simplifyStart first last).keep = {last, first} := by
    rw [simplifyStart, keptSet_update, keptSet_update]
    simp [keptSet]
  refine ⟨List.nodup_singleton _, ?_, ?_⟩
  · intro interval member
    obtain rfl := List.mem_singleton.mp member
    rw [ends]
    refine ⟨by simp, by simp, lt, ?_⟩
    rintro x between (rfl | rfl)
    · exact lt_irrefl _ between.2
    · exact lt_irrefl _ between.1
  · intro low high neighbours
    rw [ends] at neighbours
    have lower := neighbours.low_mem
    have upper := neighbours.high_mem
    have order := neighbours.lt
    rcases lower with rfl | rfl
    · rcases upper with rfl | rfl
      · exact absurd order (lt_irrefl _)
      · exact absurd order (not_lt_of_gt lt)
    · rcases upper with rfl | rfl
      · exact Or.inl (List.mem_singleton_self _)
      · exact absurd order (lt_irrefl _)

theorem simplifyTurn_keeps {s next : Simplifying points.length} {i : Fin points.length}
    (member : i ∈ keptSet s.keep) (round : simplifyTurn distance points tolerance s = .again next) :
    i ∈ keptSet next.keep := by
  obtain ⟨first, last, stack, -, ⟨m, -, rfl⟩ | ⟨rfl, -⟩⟩ := simplifyTurn_again round
  · rw [keptSet_update]
    exact Set.mem_insert_of_mem m member
  · exact member

/-- What the search from two ends leaves: both are kept, and all other gaps are close. -/
theorem within_close {first last : Fin points.length} (lt : first < last) {turns : Nat}
    {keep : Fin points.length → Bool}
    (left : within (simplifyTurn distance points tolerance) turns (simplifyStart first last) = some keep) :
    first ∈ keptSet keep ∧ last ∈ keptSet keep ∧
      ∀ low high, Gap (keptSet keep) low high → Close distance points tolerance low high := by
  let Inv (s : Simplifying points.length) : Prop :=
    Tiled distance points tolerance s ∧ first ∈ keptSet s.keep ∧ last ∈ keptSet s.keep
  have start : Inv (simplifyStart first last) := by
    have tiled := tiled_start distance tolerance lt
    have gap := tiled.pending (first, last) (List.mem_singleton_self _)
    exact ⟨tiled, gap.low_mem, gap.high_mem⟩
  let Post (keep : Fin points.length → Bool) : Prop := first ∈ keptSet keep ∧ last ∈ keptSet keep ∧
    ∀ low high, Gap (keptSet keep) low high → Close distance points tolerance low high
  refine within_invariant Inv Post start ?_ ?_ left
  · rintro s next ⟨tiled, low, high⟩ round
    exact ⟨tiled.turn round, simplifyTurn_keeps low round, simplifyTurn_keeps high round⟩
  · rintro s result ⟨tiled, low, high⟩ leaves
    obtain ⟨empty, rfl⟩ := simplifyTurn_leave leaves
    -- a gap that is not close would still be on the stack, which is empty
    refine ⟨low, high, fun low high gap => (tiled.done low high gap).resolve_left ?_⟩
    rw [empty]
    exact List.not_mem_nil

/-- The search ends within twice as many turns as there are points. It keeps the ends, and all
points it leaves out are within the tolerance. -/
theorem simplifyBy_spec (distance : P → P → P → D) (points : List P) (tolerance : D) :
    ∃ keep : Fin points.length → Bool,
      (∀ turns, 2 * points.length ≤ turns →
        simplifyBy distance points tolerance turns = some (kept points keep)) ∧
      (∀ i : Fin points.length, i.val = 0 ∨ i.val + 1 = points.length → keep i = true) ∧
      ∀ low high, Gap (keptSet keep) low high → Close distance points tolerance low high := by
  by_cases short : points.length < 3
  -- a short line comes back as it is, so no point is left out
  · refine ⟨fun _ => true, ?_, fun _ _ => rfl, ?_⟩
    · intro turns _
      have all : kept points (fun _ => true) = points := by
        rw [kept, List.filter_true, ← List.ofFn_eq_map]
        exact List.ofFn_getElem
      rw [simplifyBy, dif_pos short, all]
    · intro low high gap i between
      exact absurd rfl (gap.empty i between)
  let first : Fin points.length := ⟨0, by omega⟩
  let last : Fin points.length := ⟨points.length - 1, by omega⟩
  have lt : first < last := Fin.lt_def.mpr (show 0 < points.length - 1 by omega)
  have size : stackSize (simplifyStart first last) < 2 * points.length := by
    simp only [stackSize, simplifyStart, List.map_cons, List.map_nil, List.sum_cons, List.sum_nil,
      intervalSize, first, last]
    omega
  obtain ⟨keep, left⟩ := (simplifyTurn_shrinks distance tolerance).leaves size
  obtain ⟨low, high, close⟩ := within_close lt left
  refine ⟨keep, ?_, ?_, close⟩
  · intro turns enough
    rw [simplifyBy, dif_neg short]
    exact congrArg (Option.map (kept points)) (within_mono left enough)
  · rintro i (zero | top)
    · exact (show i = first from Fin.ext zero) ▸ low
    · have same : i = last := Fin.ext (by simp only [last]; omega)
      exact same ▸ high

/-! ### The line that is left -/

theorem kept_sublist (points : List P) (keep : Fin points.length → Bool) :
    (kept points keep).Sublist points := by
  have all : (List.finRange points.length).map (fun i => points[i]) = points := by
    rw [← List.ofFn_eq_map]
    exact List.ofFn_getElem
  have filtered : (kept points keep).Sublist ((List.finRange points.length).map fun i => points[i]) :=
    List.filter_sublist.map _
  rwa [all] at filtered

private theorem finRange_ends {n : Nat} (first last : Fin n) (low : first.val = 0)
    (high : last.val + 1 = n) :
    (List.finRange n).head? = some first ∧ (List.finRange n).getLast? = some last := by
  obtain ⟨n, rfl⟩ : ∃ rest, n = rest + 1 := ⟨last.val, high.symm⟩
  have zero : first = 0 := Fin.ext low
  have top : last = Fin.last n := Fin.ext (by simpa using high)
  constructor
  · rw [List.finRange_succ, zero, List.head?_cons]
  · rw [List.finRange_succ_last, top, List.getLast?_concat]

/-- A line whose ends are kept has its old ends. -/
theorem kept_ends {keep : Fin points.length → Bool}
    (ends : ∀ i : Fin points.length, i.val = 0 ∨ i.val + 1 = points.length → keep i = true) :
    (kept points keep).head? = points.head? ∧ (kept points keep).getLast? = points.getLast? := by
  rcases Nat.eq_zero_or_pos points.length with none_there | some_there
  · obtain rfl := List.eq_nil_of_length_eq_zero none_there
    exact ⟨rfl, rfl⟩
  let first : Fin points.length := ⟨0, some_there⟩
  let last : Fin points.length := ⟨points.length - 1, by omega⟩
  have high : last.val + 1 = points.length := Nat.sub_add_cancel some_there
  obtain ⟨starts, stops⟩ := finRange_ends first last rfl high
  constructor
  · obtain ⟨rest, split⟩ := List.head?_eq_some_iff.mp starts
    rw [kept, split, List.filter_cons_of_pos (ends first (Or.inl rfl)), List.map_cons, List.head?_cons,
      List.head?_eq_getElem?, List.getElem?_eq_getElem some_there]
    rfl
  · obtain ⟨front, split⟩ := List.getLast?_eq_some_iff.mp stops
    rw [kept, split, List.filter_append, List.filter_cons_of_pos (ends last (Or.inr high)),
      List.filter_nil, List.map_append, List.map_singleton, List.getLast?_concat,
      List.getLast?_eq_getElem?, List.getElem?_eq_getElem last.isLt]
    rfl

end Search

/-! ### The distance from a segment -/

/-- The distance of a point from the one at `t` between two others. -/
noncomputable def offsetAt (p a b : ℝ × ℝ) (t : ℝ) : ℝ :=
  hypot (p.1 - (a.1 + t * (b.1 - a.1))) (p.2 - (a.2 + t * (b.2 - a.2)))

private theorem offsets_of_segment (p a b : ℝ × ℝ) :
    (fun q : ℝ × ℝ => hypot (p.1 - q.1) (p.2 - q.2)) '' segment ℝ a b =
      offsetAt p a b '' Set.Icc 0 1 := by
  rw [segment_eq_image', Set.image_image]
  rfl

/-- The square of the offset is least where the foot of the perpendicular, or the end next to
it, lies. -/
private theorem offsetAt_le {p a b : ℝ × ℝ} {foot s t : ℝ}
    (perpendicular : foot * ((b.1 - a.1) * (b.1 - a.1) + (b.2 - a.2) * (b.2 - a.2)) =
      (p.1 - a.1) * (b.1 - a.1) + (p.2 - a.2) * (b.2 - a.2))
    (nearer : 0 ≤ (s - t) * (s + t - 2 * foot)) : offsetAt p a b t ≤ offsetAt p a b s := by
  apply Real.sqrt_le_sqrt
  have length : 0 ≤ (b.1 - a.1) * (b.1 - a.1) + (b.2 - a.2) * (b.2 - a.2) :=
    add_nonneg (mul_self_nonneg _) (mul_self_nonneg _)
  have gain := mul_nonneg length nearer
  -- the two squared offsets differ by the squared length times `nearer`
  have spread : ((b.1 - a.1) * (b.1 - a.1) + (b.2 - a.2) * (b.2 - a.2)) * ((s - t) * (s + t - 2 * foot)) =
      ((p.1 - (a.1 + s * (b.1 - a.1))) ^ 2 + (p.2 - (a.2 + s * (b.2 - a.2))) ^ 2) -
        ((p.1 - (a.1 + t * (b.1 - a.1))) ^ 2 + (p.2 - (a.2 + t * (b.2 - a.2))) ^ 2) := by
    linear_combination (-2 * (s - t)) * perpendicular
  linarith

/-- The clamped foot is no further from the foot than any other place on the segment. -/
private theorem clamp_nearest (foot : ℝ) {s : ℝ} (nonneg : 0 ≤ s) (le_one : s ≤ 1) :
    0 ≤ (s - max 0 (min 1 foot)) * (s + max 0 (min 1 foot) - 2 * foot) := by
  rcases le_total foot 0 with before | within
  -- the foot lies before the segment: its first end is nearest
  · rw [min_eq_right (before.trans zero_le_one), max_eq_left before]
    exact mul_nonneg (by linarith) (by linarith)
  rcases le_total foot 1 with inside | beyond
  -- the foot lies on the segment and is nearest itself
  · rw [min_eq_right inside, max_eq_right within]
    have square : (s - foot) * (s + foot - 2 * foot) = (s - foot) * (s - foot) := by ring
    rw [square]
    exact mul_self_nonneg _
  · rw [min_eq_left beyond, max_eq_right zero_le_one]
    exact mul_nonneg_of_nonpos_of_nonpos (by linarith) (by linarith)

/-- `perpendicularDistance` is the least distance from a point of the segment. -/
theorem perpendicularDistance_isLeast (p a b : ℝ × ℝ) :
    IsLeast ((fun q : ℝ × ℝ => hypot (p.1 - q.1) (p.2 - q.2)) '' segment ℝ a b)
      (perpendicularDistance p a b) := by
  rw [offsets_of_segment]
  by_cases degenerate : (b.1 - a.1) * (b.1 - a.1) + (b.2 - a.2) * (b.2 - a.2) = 0
  · -- all points of the segment are its ends
    have flat := mul_self_add_mul_self_eq_zero.mp degenerate
    have same (t : ℝ) : offsetAt p a b t = perpendicularDistance p a b := by
      simp only [offsetAt, perpendicularDistance, flat.1, flat.2, mul_zero, add_zero, if_true]
    refine ⟨⟨0, by simp, same 0⟩, ?_⟩
    rintro _ ⟨t, -, rfl⟩
    exact (same t).ge
  · let foot := ((p.1 - a.1) * (b.1 - a.1) + (p.2 - a.2) * (b.2 - a.2)) /
      ((b.1 - a.1) * (b.1 - a.1) + (b.2 - a.2) * (b.2 - a.2))
    have nearest : perpendicularDistance p a b = offsetAt p a b (max 0 (min 1 foot)) := by
      simp only [perpendicularDistance, if_neg degenerate]
      rfl
    rw [nearest]
    refine ⟨⟨_, ⟨le_max_left .., max_le zero_le_one (min_le_left ..)⟩, rfl⟩, ?_⟩
    rintro _ ⟨s, ⟨nonneg, le_one⟩, rfl⟩
    apply offsetAt_le (div_mul_cancel₀ _ degenerate)
    exact clamp_nearest foot nonneg le_one

/-- The simplified line: the search for it ends, it is part of the line with the same ends, and
each point left out is within the tolerance of the segment between its kept neighbours. -/
theorem simplify_keeps_close (points : List (ℝ × ℝ)) (tolerance : ℝ) :
    ∃ keep : Fin points.length → Bool,
      (∀ turns, 2 * points.length ≤ turns →
        simplify points tolerance turns = some (kept points keep)) ∧
      (kept points keep).Sublist points ∧
      (∀ i : Fin points.length, i.val = 0 ∨ i.val + 1 = points.length → keep i = true) ∧
      (kept points keep).head? = points.head? ∧ (kept points keep).getLast? = points.getLast? ∧
      ∀ i, keep i = false → ∃ before after, Gap (keptSet keep) before after ∧
        i ∈ Set.Ioo before after ∧
        perpendicularDistance points[i] points[before] points[after] ≤ tolerance ∧
        ∃ q ∈ segment ℝ points[before] points[after],
          hypot (points[i].1 - q.1) (points[i].2 - q.2) ≤ tolerance := by
  obtain ⟨keep, ends_at, ends, close⟩ := simplifyBy_spec perpendicularDistance points tolerance
  obtain ⟨starts, stops⟩ := kept_ends ends
  refine ⟨keep, ends_at, kept_sublist points keep, ends, starts, stops, ?_⟩
  intro i dropped
  have outside : i ∉ keptSet keep := by simp [keptSet, dropped]
  -- the point is neither end, so it lies in some gap of the kept points
  have other (j : Fin points.length) (marked : keep j = true) : i.val ≠ j.val := by
    intro same
    rw [Fin.ext same, marked] at dropped
    cases dropped
  have bound := i.isLt
  let first : Fin points.length := ⟨0, by omega⟩
  let last : Fin points.length := ⟨points.length - 1, by omega⟩
  have first_kept : keep first = true := ends first (Or.inl rfl)
  have last_kept : keep last = true := ends last (Or.inr (Nat.sub_add_cancel (by omega)))
  have below : first < i := Fin.lt_def.mpr (Nat.pos_of_ne_zero (other first first_kept))
  have above : i < last := Fin.lt_def.mpr (lt_of_le_of_ne (Nat.le_sub_one_of_lt bound) (other last last_kept))
  obtain ⟨before, after, gap, between⟩ := exists_gap (Set.toFinite (keptSet keep)) outside
    ⟨first, first_kept, below⟩ ⟨last, last_kept, above⟩
  have near := close before after gap i between
  obtain ⟨q, on_segment, distance_eq⟩ := (perpendicularDistance_isLeast points[i] points[before] points[after]).1
  exact ⟨before, after, gap, between, near, q, on_segment, distance_eq.trans_le near⟩

end Coastline

end Ais
