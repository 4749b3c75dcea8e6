import Mathlib.Data.List.Basic
import Mathlib.Order.Monotone.Basic

/-!
# Labelled transitions and their runs

A run carries the list of its labels, so that what happened along it can be
read off without extra state. Invariants may speak of both.
-/
namespace Transition

variable {σ ε : Type*}

/-- `Run Step s trace t`: the labels of `trace`, in order, lead from `s` to `t`. -/
def Run (Step : σ → ε → σ → Prop) : σ → List ε → σ → Prop
  | s, [], t => s = t
  | s, label :: trace, t => ∃ middle, Step s label middle ∧ Run Step middle trace t

variable {Step : σ → ε → σ → Prop}

theorem Run.single {s t : σ} {label : ε} (step : Step s label t) : Run Step s [label] t :=
  ⟨t, step, rfl⟩

/-- A run passes through a state at every cut of its trace. -/
theorem run_append {s t : σ} {before after : List ε} :
    Run Step s (before ++ after) t ↔ ∃ middle, Run Step s before middle ∧ Run Step middle after t := by
  induction before generalizing s with
  | nil => simp [Run]
  | cons label before ih =>
    simp only [List.cons_append, Run, ih]
    constructor
    · rintro ⟨next, step, middle, first, second⟩
      exact ⟨middle, ⟨next, step, first⟩, second⟩
    · rintro ⟨middle, ⟨next, step, first⟩, second⟩
      exact ⟨next, step, middle, first, second⟩

private theorem Run.invariant_after {Inv : List ε → σ → Prop}
    (step : ∀ {trace s label t}, Inv trace s → Step s label t → Inv (trace ++ [label]) t)
    {before trace : List ε} {s t : σ} (start : Inv before s) (run : Run Step s trace t) :
    Inv (before ++ trace) t := by
  induction trace generalizing before s with
  | nil =>
    rw [List.append_nil]
    exact run ▸ start
  | cons label trace ih =>
    obtain ⟨middle, move, rest⟩ := run
    have later := ih (step start move) rest
    rwa [List.append_assoc, List.singleton_append] at later

/-- What holds at the start of a run and is kept by every step holds along the run. -/
theorem Run.invariant (Inv : List ε → σ → Prop) {trace : List ε} {s t : σ} (start : Inv [] s)
    (step : ∀ {trace s label t}, Inv trace s → Step s label t → Inv (trace ++ [label]) t)
    (run : Run Step s trace t) : Inv trace t := by
  simpa using Run.invariant_after step start run

/-- A label has come, and none since that ends it. -/
def Since (ends : ε → Prop) (label : ε) (trace : List ε) : Prop :=
  ∃ before after, trace = before ++ label :: after ∧ ∀ later ∈ after, ¬ ends later

theorem Since.here {ends : ε → Prop} (trace : List ε) (label : ε) : Since ends label (trace ++ [label]) :=
  ⟨trace, [], rfl, by simp⟩

theorem Since.snoc {ends : ε → Prop} {label next : ε} {trace : List ε} (since : Since ends label trace)
    (lasts : ¬ ends next) : Since ends label (trace ++ [next]) := by
  obtain ⟨before, after, rfl, quiet⟩ := since
  refine ⟨before, after ++ [next], by simp, fun later member => ?_⟩
  rcases List.mem_append.mp member with earlier | last
  · exact quiet later earlier
  · rwa [List.mem_singleton.mp last]

/-- The states a run with these labels goes through. -/
def Along (Step : σ → ε → σ → Prop) (states : Nat → σ) (labels : List ε) : Prop :=
  ∀ k label, labels[k]? = some label → Step (states k) label (states (k + 1))

theorem Along.run {states : Nat → σ} {labels : List ε} (along : Along Step states labels) (k : Nat)
    (within : k ≤ labels.length) : Run Step (states 0) (labels.take k) (states k) := by
  induction k with
  | zero =>
    rw [List.take_zero]
    rfl
  | succ k ih =>
    have here : labels[k]? = some labels[k] := List.getElem?_eq_getElem within
    rw [List.take_add_one, here]
    exact run_append.mpr ⟨_, ih (Nat.le_of_succ_le within), .single (along k _ here)⟩

theorem Run.along {labels : List ε} {s t : σ} (run : Run Step s labels t) :
    ∃ states : Nat → σ, states 0 = s ∧ states labels.length = t ∧ Along Step states labels := by
  induction labels generalizing s with
  | nil => exact ⟨fun _ => s, rfl, run, fun k label none_here => by cases none_here⟩
  | cons label labels ih =>
    obtain ⟨middle, step, rest⟩ := run
    obtain ⟨states, first, last, along⟩ := ih rest
    refine ⟨fun k => Nat.casesOn k s states, rfl, last, fun k next here => ?_⟩
    cases k with
    | zero =>
      obtain rfl := Option.some.inj here
      rwa [← first] at step
    | succ k => exact along k next here

/-- A choice that can be made step by step, never going back, can be made for a whole run. -/
theorem exists_monotone {R : Nat → Nat → Prop} {n first : Nat} (start : R 0 first)
    (step : ∀ k < n, ∀ a, R k a → ∃ b, a ≤ b ∧ R (k + 1) b) :
    ∃ choice : Nat → Nat, Monotone choice ∧ ∀ k ≤ n, R k (choice k) := by
  induction n with
  | zero =>
    refine ⟨fun _ => first, fun _ _ _ => Nat.le_refl _, fun k at_start => ?_⟩
    obtain rfl := Nat.le_zero.mp at_start
    exact start
  | succ n ih =>
    obtain ⟨choice, monotone, chosen⟩ := ih fun k before => step k (Nat.lt_succ_of_lt before)
    obtain ⟨next, later, holds⟩ := step n (Nat.lt_succ_self n) _ (chosen n (Nat.le_refl n))
    refine ⟨fun k => if k ≤ n then choice k else next, fun i j before => ?_, fun k within => ?_⟩
    · by_cases low : j ≤ n
      · simpa [low, before.trans low] using monotone before
      · by_cases first : i ≤ n
        · simpa [low, first] using (monotone first).trans later
        · simp [low, first]
    · by_cases low : k ≤ n
      · simpa [low] using chosen k low
      · obtain rfl : k = n + 1 := by omega
        simpa [low] using holds

end Transition
