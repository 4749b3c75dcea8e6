import AisPipeline.Lib.Gaps
import AisPipeline.Lib.Loop
import AisPipeline.Web.Radar

/-!
# Simplifying a coastline

The build script drops the points of a line that lie close to the line without
them. The search works for any distance of a point from two others; the script
uses `perpendicularDistance`, here in exact real arithmetic.
-/
namespace Ais

namespace Coastline

open Loop Gaps
open Radar (hypot)

/-- The distance of the first point from the segment between the other two. -/
noncomputable def perpendicularDistance (p a b : ℝ × ℝ) : ℝ :=
  let dx := b.1 - a.1
  let dy := b.2 - a.2
  let lengthSquared := dx * dx + dy * dy
  if lengthSquared = 0 then hypot (p.1 - a.1) (p.2 - a.2)
  else
    let t := max 0 (min 1 (((p.1 - a.1) * dx + (p.2 - a.2) * dy) / lengthSquared))
    hypot (p.1 - (a.1 + t * dx)) (p.2 - (a.2 + t * dy))

section Search

variable {P D : Type} [LinearOrder D] (distance : P → P → P → D) (points : List P) (tolerance : D)

/-- The variables `keep` and `stack`, the top of the stack first. -/
structure Simplifying (n : Nat) where
  keep : Fin n → Bool
  stack : List (Fin n × Fin n)

/-- One turn of the inner loop, over the variables `furthest` and `furthestDistance`. -/
def further {ι : Type} (offset : ι → D) (furthest : Option ι × D) (i : ι) : Option ι × D :=
  if offset i > furthest.2 then (some i, offset i) else furthest

/-- The inner loop: the point strictly between two others that is furthest off, if it is
further off than the tolerance. -/
def furthestBetween (first last : Fin points.length) : Option (Fin points.length) :=
  let between := (List.finRange points.length).filter fun i => first < i ∧ i < last
  (between.foldl (further fun i => distance points[i] points[first] points[last]) (none, tolerance)).1

/-- One turn of the outer loop. -/
def simplifyTurn (s : Simplifying points.length) :
    Turn (Simplifying points.length) (Fin points.length → Bool) :=
  match s.stack with
  | [] => .leave s.keep
  | (first, last) :: stack =>
    match furthestBetween distance points tolerance first last with
    | some furthest => .again {
        keep := Function.update s.keep furthest true
        stack := (furthest, last) :: (first, furthest) :: stack }
    | none => .again { s with stack := stack }

/-- `points.filter((_, i) => keep[i] === 1)`. -/
def kept (keep : Fin points.length → Bool) : List P :=
  ((List.finRange points.length).filter keep).map fun i => points[i]

/-- The variables before the loop: both ends are kept, and all between them is to be done. -/
def simplifyStart {n : Nat} (first last : Fin n) : Simplifying n where
  keep := Function.update (Function.update (fun _ => false) first true) last true
  stack := [(first, last)]

/-- `simplify`, given so many turns of its loop. -/
def simplifyBy (turns : Nat) : Option (List P) :=
  if short : points.length < 3 then some points
  else
    let start := simplifyStart (⟨0, by omega⟩ : Fin points.length) ⟨points.length - 1, by omega⟩
    (within (simplifyTurn distance points tolerance) turns start).map (kept points)

end Search

/-- `simplify`. -/
noncomputable def simplify (points : List (ℝ × ℝ)) (tolerance : ℝ) (turns : Nat) :
    Option (List (ℝ × ℝ)) :=
  simplifyBy perpendicularDistance points tolerance turns

/-! ### One turn -/

section Search

variable {P D : Type} [LinearOrder D] (distance : P → P → P → D)

/-- All points between the two are within the tolerance of their segment. -/
def Close (points : List P) (tolerance : D) (first last : Fin points.length) : Prop :=
  ∀ i ∈ Set.Ioo first last, distance points[i] points[first] points[last] ≤ tolerance

variable {points : List P} (tolerance : D)

private theorem foldl_furthest {ι : Type} (offset : ι → D) (between : List ι) (start : Option ι × D) :
    let found := between.foldl (further offset) start
    (found.1 = none → start.1 = none ∧ ∀ i ∈ between, offset i ≤ start.2) ∧
      ∀ m, found.1 = some m → start.1 = some m ∨ m ∈ between := by
  induction between generalizing start with
  | nil => simp
  | cons i between ih =>
    simp only [List.foldl_cons, List.mem_cons, forall_eq_or_imp, further]
    by_cases further : offset i > start.2
    · rw [if_pos further]
      obtain ⟨none_found, some_found⟩ := ih (some i, offset i)
      refine ⟨fun missing => absurd (none_found missing).1 (by simp), fun m found => ?_⟩
      rcases some_found m found with here | later
      · exact Or.inr (Or.inl (Option.some.inj here).symm)
      · exact Or.inr (Or.inr later)
    · rw [if_neg further]
      obtain ⟨none_found, some_found⟩ := ih start
      refine ⟨fun missing => ?_, fun m found => ?_⟩
      · exact ⟨(none_found missing).1, not_lt.mp further, (none_found missing).2⟩
      · exact (some_found m found).imp_right Or.inr

/-- The inner loop finds a point in between, or all of them are within the tolerance. -/
theorem furthestBetween_cases (first last : Fin points.length) :
    (∃ m ∈ Set.Ioo first last, furthestBetween distance points tolerance first last = some m) ∨
      (furthestBetween distance points tolerance first last = none ∧
        Close distance points tolerance first last) := by
  obtain ⟨none_found, some_found⟩ := foldl_furthest
    (fun i : Fin points.length => distance points[i] points[first] points[last])
    ((List.finRange points.length).filter fun i => first < i ∧ i < last) (none, tolerance)
  cases found : furthestBetween distance points tolerance first last with
  | some m =>
    rcases some_found m found with missing | member
    · cases missing
    · exact Or.inl ⟨m, by simpa using member, rfl⟩
  | none => exact Or.inr ⟨rfl, fun i inside => (none_found found).2 i (by simpa using inside)⟩

end Search

end Coastline

end Ais
