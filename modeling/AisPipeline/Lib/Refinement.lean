import AisPipeline.Lib.Transition

/-!
# Runs seen elsewhere, and runs that end

A run of a composed system shows a run of each of its parts; a run of a refined
system is answered by a run of the one it refines; and where every step costs
something a run ends, in a final state if no other state is stuck.
-/
namespace Transition

variable {σ ε σ' ε' : Type*} {Step : σ → ε → σ → Prop} {Step' : σ' → ε' → σ' → Prop}

/-- A part of a system that moves with the labels shown to it, and stands still otherwise. -/
theorem Run.project (part : σ → σ') (shown : ε → Option ε')
    (moves : ∀ {s label t seen}, Step s label t → shown label = some seen →
      Step' (part s) seen (part t))
    (rests : ∀ {s label t}, Step s label t → shown label = none → part t = part s)
    {s t : σ} {trace : List ε} (run : Run Step s trace t) :
    Run Step' (part s) (trace.filterMap shown) (part t) := by
  induction trace generalizing s with
  | nil => exact congrArg part run
  | cons label trace ih =>
    obtain ⟨middle, step, rest⟩ := run
    cases seen : shown label with
    | none =>
      rw [List.filterMap_cons_none seen, ← rests step seen]
      exact ih rest
    | some other =>
      rw [List.filterMap_cons_some seen]
      exact ⟨part middle, moves step seen, ih rest⟩

/-- Steps answered by runs. The relation may speak of what both sides have shown so far. -/
theorem Run.simulate (Related : List ε → σ → List ε' → σ' → Prop) {s : σ} {s' : σ'}
    (start : Related [] s [] s')
    (answered : ∀ {trace s label t trace' s'}, Related trace s trace' s' → Step s label t →
      ∃ more t', Run Step' s' more t' ∧ Related (trace ++ [label]) t (trace' ++ more) t')
    {t : σ} {trace : List ε} (run : Run Step s trace t) :
    ∃ trace' t', Run Step' s' trace' t' ∧ Related trace t trace' t' := by
  refine Run.invariant (fun trace t => ∃ trace' t', Run Step' s' trace' t' ∧ Related trace t trace' t')
    ⟨[], s', rfl, start⟩ ?_ run
  rintro trace u label v ⟨trace', u', run', related⟩ step
  obtain ⟨more, v', answer, related⟩ := answered related step
  exact ⟨trace' ++ more, v', run_append.mpr ⟨u', run', answer⟩, related⟩

/-! ### Costs -/

section Costs

variable {Inv : σ → Prop} {Allowed : ε → Prop} (cost : σ → Nat)

/-- A run keeps to what its steps keep, and is no longer than what its start costs more than its
end. -/
theorem Run.spends
    (pays : ∀ {s label t}, Inv s → Allowed label → Step s label t → Inv t ∧ cost t < cost s)
    {s t : σ} {trace : List ε} (run : Run Step s trace t) (start : Inv s)
    (allowed : ∀ label ∈ trace, Allowed label) : Inv t ∧ trace.length + cost t ≤ cost s := by
  induction trace generalizing s with
  | nil =>
    cases run
    exact ⟨start, Nat.le_of_eq (Nat.zero_add _)⟩
  | cons label trace ih =>
    obtain ⟨middle, step, rest⟩ := run
    obtain ⟨kept, paid⟩ := pays start (allowed label List.mem_cons_self) step
    obtain ⟨ended, later⟩ := ih rest kept fun other member =>
      allowed other (List.mem_cons_of_mem label member)
    refine ⟨ended, ?_⟩
    rw [List.length_cons]
    omega

/-- Every state has a run to a final one. -/
theorem Run.exists_final (Final : σ → Prop)
    (pays : ∀ {s label t}, Inv s → Allowed label → Step s label t → Inv t ∧ cost t < cost s)
    (goes : ∀ {s}, Inv s → ¬ Final s → ∃ label t, Allowed label ∧ Step s label t)
    {s : σ} (start : Inv s) :
    ∃ trace t, Run Step s trace t ∧ Final t ∧ ∀ label ∈ trace, Allowed label := by
  -- on the cost of the state
  induction spent : cost s using Nat.strongRecOn generalizing s with
  | ind n ih =>
    by_cases final : Final s
    · exact ⟨[], s, rfl, final, by simp⟩
    · obtain ⟨label, middle, allowed, step⟩ := goes start final
      obtain ⟨kept, paid⟩ := pays start allowed step
      obtain ⟨trace, t, run, ended, others⟩ := ih (cost middle) (spent ▸ paid) kept rfl
      refine ⟨label :: trace, t, ⟨middle, step, run⟩, ended, ?_⟩
      intro other member
      rcases List.mem_cons.mp member with rfl | later
      · exact allowed
      · exact others other later

end Costs

end Transition
