import Mathlib.Analysis.Convex.Segment

/-!
# Polylines

A polyline is the list of its vertices. Its points are those of the segments
between neighbouring vertices.
-/
namespace Polyline

variable {α : Type*}

/-- The neighbouring pairs of a list, in order. -/
def consecutive (vertices : List α) : List (α × α) := vertices.zip vertices.tail

@[simp] theorem consecutive_nil : consecutive ([] : List α) = [] := rfl

@[simp] theorem consecutive_singleton (a : α) : consecutive [a] = [] := rfl

@[simp] theorem consecutive_cons_cons (a b : α) (rest : List α) :
    consecutive (a :: b :: rest) = (a, b) :: consecutive (b :: rest) := rfl

/-- One more vertex adds one more pair. -/
theorem consecutive_concat (front : List α) (a b : α) :
    consecutive (front ++ [a] ++ [b]) = consecutive (front ++ [a]) ++ [(a, b)] := by
  induction front with
  | nil => rfl
  | cons first front ih =>
    cases front with
    | nil => rfl
    | cons second front =>
      simp only [List.cons_append, consecutive_cons_cons, List.append_assoc] at ih ⊢
      rw [ih]

theorem mem_of_consecutive {vertices : List α} {ends : α × α} (neighbours : ends ∈ consecutive vertices) :
    ends.1 ∈ vertices ∧ ends.2 ∈ vertices := by
  have both := List.of_mem_zip neighbours
  exact ⟨both.1, List.mem_of_mem_tail both.2⟩

section Points

variable (K : Type*) {E : Type*} [Semiring K] [PartialOrder K] [AddCommMonoid E] [SMul K E]

/-- The point lies on the polyline, at a vertex or between two. -/
def On (vertices : List E) (point : E) : Prop :=
  ∃ ends ∈ consecutive vertices, point ∈ segment K ends.1 ends.2

end Points

end Polyline
