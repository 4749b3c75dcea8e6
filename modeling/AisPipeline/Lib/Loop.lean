import Mathlib.Order.Basic

/-!
# Loops

A loop is its body: one turn goes round again or leaves with a result. It is
run for a bounded number of turns; where some size shrinks every turn, the
bound can be met.
-/
namespace Loop

variable {σ ρ : Type*}

/-- What one turn of a loop comes to. -/
inductive Turn (σ ρ : Type*) where
  | again (next : σ)
  | leave (result : ρ)

/-- The loop from a state on, if it leaves within this many turns. -/
def within (body : σ → Turn σ ρ) : Nat → σ → Option ρ
  | 0, _ => none
  | turns + 1, s =>
    match body s with
    | .again next => within body turns next
    | .leave result => some result

/-- Every turn that goes round again lowers the size. -/
def Shrinks (body : σ → Turn σ ρ) (size : σ → Nat) : Prop :=
  ∀ s next, body s = .again next → size next < size s

variable {body : σ → Turn σ ρ} {size : σ → Nat} {turns : Nat} {s : σ}

theorem within_again {next : σ} (round : body s = .again next) :
    within body (turns + 1) s = within body turns next := by
  rw [within, round]

theorem within_leave {result : ρ} (left : body s = .leave result) :
    within body (turns + 1) s = some result := by
  rw [within, left]

/-- More turns change nothing once the loop has left. -/
theorem within_mono {more : Nat} {result : ρ} (left : within body turns s = some result)
    (enough : turns ≤ more) : within body more s = some result := by
  induction turns generalizing s more with
  | zero => cases left
  | succ turns ih =>
    obtain ⟨more, rfl⟩ : ∃ rest, more = rest + 1 := ⟨more - 1, by omega⟩
    cases turn : body s with
    | again next =>
      rw [within_again turn] at left ⊢
      exact ih left (by omega)
    | leave result =>
      rw [within_leave turn] at left ⊢
      exact left

/-- A loop that shrinks leaves before its size is used up. -/
theorem Shrinks.leaves (shrinks : Shrinks body size) (enough : size s < turns) :
    ∃ result, within body turns s = some result := by
  induction turns generalizing s with
  | zero => omega
  | succ turns ih =>
    cases turn : body s with
    | again next =>
      have smaller := shrinks s next turn
      rw [within_again turn]
      exact ih (by omega)
    | leave result => exact ⟨result, within_leave turn⟩

/-- A loop that shrinks, to its end. -/
def run (body : σ → Turn σ ρ) (size : σ → Nat) (shrinks : Shrinks body size) (s : σ) : ρ :=
  (within body (size s + 1) s).get (Option.isSome_iff_exists.mpr (shrinks.leaves (Nat.lt_succ_self _)))

theorem run_of_within (shrinks : Shrinks body size) {result : ρ}
    (left : within body turns s = some result) : run body size shrinks s = result := by
  obtain ⟨other, ends⟩ := shrinks.leaves (Nat.lt_succ_self (size s))
  have same : other = result := by
    have one := within_mono ends (Nat.le_max_left _ turns)
    have two := within_mono left (Nat.le_max_right (size s + 1) _)
    exact Option.some.inj (one.symm.trans two)
  simp only [run, ends, Option.get_some, same]

theorem run_again (shrinks : Shrinks body size) {next : σ} (round : body s = .again next) :
    run body size shrinks s = run body size shrinks next := by
  obtain ⟨result, ends⟩ := shrinks.leaves (Nat.lt_succ_self (size next))
  have sooner : within body (size next + 2) s = some result := (within_again round).trans ends
  rw [run_of_within shrinks sooner, run_of_within shrinks ends]

theorem run_leave (shrinks : Shrinks body size) {result : ρ} (left : body s = .leave result) :
    run body size shrinks s = result := by
  have once : within body 1 s = some result := within_leave left
  exact run_of_within shrinks once

/-- What holds at the start and is kept by every turn holds when the loop leaves. -/
theorem within_invariant {result : ρ} (Inv : σ → Prop) (Post : ρ → Prop) (start : Inv s)
    (again : ∀ s next, Inv s → body s = .again next → Inv next)
    (leave : ∀ s result, Inv s → body s = .leave result → Post result)
    (left : within body turns s = some result) : Post result := by
  induction turns generalizing s with
  | zero => cases left
  | succ turns ih =>
    cases turn : body s with
    | again next =>
      rw [within_again turn] at left
      exact ih (again s next start turn) left
    | leave result =>
      rw [within_leave turn] at left
      cases left
      exact leave s result start turn

end Loop
