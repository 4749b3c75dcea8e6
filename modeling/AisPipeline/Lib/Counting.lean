import Mathlib.Algebra.Order.Group.Unbundled.Int
import Mathlib.Algebra.Ring.Divisibility.Basic
import Mathlib.Tactic.Ring

/-!
# Counting up in steps

The values a counter takes in `for (d = start; more(d); d += step)`.
-/
namespace Counting

/-- The loop from `start` on. The test fails from `bound` on, so it ends. -/
def values (step : Int) (more : Int → Prop) [DecidablePred more] (bound : Int)
    (ends : 0 < step ∧ ∀ d, more d → d < bound) (start : Int) : List Int :=
  if more start then start :: values step more bound ends (start + step) else []
  termination_by (bound - start).toNat
  decreasing_by
    have here := ends.2 start ‹_›
    have := ends.1
    omega

variable {step bound : Int} {more : Int → Prop} [DecidablePred more]

/-- Where the test, once failed, stays failed, the loop goes through every step that passes it. -/
theorem mem_values {ends : 0 < step ∧ ∀ d, more d → d < bound} {start d : Int}
    (downward : ∀ d e, d ≤ e → more e → more d) :
    d ∈ values step more bound ends start ↔ start ≤ d ∧ more d ∧ step ∣ d - start := by
  have forward := ends.1
  fun_induction values step more bound ends start with
  | case1 start here ih =>
    have shifted : step ∣ d - (start + step) ↔ step ∣ d - start := by
      rw [← sub_sub, dvd_sub_self_right]
    simp only [List.mem_cons, ih, shifted]
    constructor
    · rintro (rfl | ⟨later, passes, multiple⟩)
      · exact ⟨le_refl _, here, by simp⟩
      · exact ⟨by omega, passes, multiple⟩
    · rintro ⟨later, passes, multiple⟩
      rcases later.eq_or_lt with same | further
      · exact Or.inl same.symm
      · -- a multiple of the step that is not zero is at least one step
        have far := Int.le_of_dvd (by omega) multiple
        exact Or.inr ⟨by omega, passes, multiple⟩
  | case2 start done =>
    constructor
    · intro member
      cases member
    · rintro ⟨later, passes, -⟩
      exact absurd (downward start d later passes) done

end Counting
