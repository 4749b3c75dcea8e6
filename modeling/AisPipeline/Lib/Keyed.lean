import Mathlib.Logic.Function.Basic
import Mathlib.Data.List.Basic

/-!
# Machines with one slot a key

A machine whose state is one slot for each key, where an event reads and writes
the slot of its own key only. A run then falls apart into independent runs, one
a key.
-/
namespace Keyed

/-- An event with a key moves that key's slot; an event without one only answers. -/
structure Machine (κ σ ε ο : Type*) where
  key : ε → Option κ
  slotStep : σ → ε → σ × ο
  answer : ε → ο

namespace Machine

variable {κ σ ε ο : Type*} [DecidableEq κ] (M : Machine κ σ ε ο)

def step (slots : κ → σ) (e : ε) : (κ → σ) × ο :=
  match M.key e with
  | none => (slots, M.answer e)
  | some k => (Function.update slots k (M.slotStep (slots k) e).1, (M.slotStep (slots k) e).2)

/-- The slots after a list of events. -/
def run (slots : κ → σ) (events : List ε) : κ → σ :=
  events.foldl (fun slots e => (M.step slots e).1) slots

/-- The outputs along a list of events. -/
def outputs (slots : κ → σ) : List ε → List ο
  | [] => []
  | e :: events => (M.step slots e).2 :: outputs (M.step slots e).1 events

/-- The outputs of one slot along events that are all its own. -/
def slotOutputs (slot : σ) : List ε → List ο
  | [] => []
  | e :: events => (M.slotStep slot e).2 :: slotOutputs (M.slotStep slot e).1 events

variable {M}

theorem step_of_key {slots : κ → σ} {e : ε} {k : κ} (h : M.key e = some k) :
    M.step slots e =
      (Function.update slots k (M.slotStep (slots k) e).1, (M.slotStep (slots k) e).2) := by
  simp [step, h]

theorem step_own {slots : κ → σ} {e : ε} {k : κ} (h : M.key e = some k) :
    (M.step slots e).1 k = (M.slotStep (slots k) e).1 := by
  simp [step_of_key h]

theorem step_output {slots : κ → σ} {e : ε} {k : κ} (h : M.key e = some k) :
    (M.step slots e).2 = (M.slotStep (slots k) e).2 := by
  rw [step_of_key h]

theorem step_of_no_key {slots : κ → σ} {e : ε} (h : M.key e = none) :
    M.step slots e = (slots, M.answer e) := by
  simp [step, h]

/-- Frame: an event leaves the slots of all other keys alone. -/
theorem step_frame {slots : κ → σ} {e : ε} {k : κ} (h : M.key e ≠ some k) :
    (M.step slots e).1 k = slots k := by
  cases other : M.key e with
  | none => rw [step_of_no_key other]
  | some j =>
    have different : k ≠ j := fun same => h (same ▸ other)
    simp [step_of_key other, different]

theorem run_append (slots : κ → σ) (before after : List ε) :
    M.run slots (before ++ after) = M.run (M.run slots before) after :=
  List.foldl_append

theorem outputs_append (slots : κ → σ) (before after : List ε) :
    M.outputs slots (before ++ after) =
      M.outputs slots before ++ M.outputs (M.run slots before) after := by
  induction before generalizing slots with
  | nil => rfl
  | cons e before ih => simp [outputs, run, ih]

/-- Every output is that of one step. -/
theorem exists_step_of_mem_outputs {slots : κ → σ} {events : List ε} {o : ο} (member : o ∈ M.outputs slots events) :
    ∃ slots' e, o = (M.step slots' e).2 := by
  induction events generalizing slots with
  | nil => cases member
  | cons e events ih =>
    rcases List.mem_cons.mp member with here | later
    · exact ⟨slots, e, here⟩
    · exact ih later

/-- The answer to an event with a key depends on that key's slot only. -/
theorem step_output_congr {slots slots' : κ → σ} {e : ε}
    (agree : ∀ k, M.key e = some k → slots k = slots' k) :
    (M.step slots e).2 = (M.step slots' e).2 := by
  cases h : M.key e with
  | none => rw [step_of_no_key h, step_of_no_key h]
  | some k => rw [step_output h, step_output h, agree k h]

private theorem step_agree_off {slots slots' : κ → σ} {e : ε} {k : κ}
    (agree : ∀ j, j ≠ k → slots j = slots' j) :
    ∀ j, j ≠ k → (M.step slots e).1 j = (M.step slots' e).1 j := by
  intro j different
  -- the slot that moves does so from equal contents
  by_cases moved : M.key e = some j
  · rw [step_own moved, step_own moved, agree j different]
  · rw [step_frame moved, step_frame moved, agree j different]

/-- The parts of a list that carry the flag `flag`. -/
def part {α : Type*} (flag : Bool) (trace : List (Bool × α)) : List α :=
  (trace.filter fun x => x.1 == flag).map Prod.snd

@[simp] theorem part_cons_self {α : Type*} (flag : Bool) (a : α) (trace : List (Bool × α)) :
    part flag ((flag, a) :: trace) = a :: part flag trace := by
  simp [part]

theorem part_cons_of_ne {α : Type*} {flag other : Bool} (h : other ≠ flag) (a : α)
    (trace : List (Bool × α)) : part flag ((other, a) :: trace) = part flag trace := by
  simp [part, h]

/-- The outputs along a flagged trace, flagged like the events that gave them. -/
def flaggedOutputs (slots : κ → σ) (trace : List (Bool × ε)) : List (Bool × ο) :=
  (trace.map Prod.fst).zip (M.outputs slots (trace.map Prod.snd))

/-- Interleaving: when the flagged events are those of one key, their outputs are those of
that key's own machine, and the other outputs are those of a run without them. -/
theorem outputs_interleaved {k : κ} {slots slots' : κ → σ} {trace : List (Bool × ε)}
    (mine : ∀ e ∈ part true trace, M.key e = some k)
    (others : ∀ e ∈ part false trace, M.key e ≠ some k)
    (agree : ∀ j, j ≠ k → slots j = slots' j) :
    part true (M.flaggedOutputs slots trace) = M.slotOutputs (slots k) (part true trace) ∧
      part false (M.flaggedOutputs slots trace) = M.outputs slots' (part false trace) := by
  induction trace generalizing slots slots' with
  | nil => exact ⟨rfl, rfl⟩
  | cons head trace ih =>
    obtain ⟨flag, e⟩ := head
    have expand : M.flaggedOutputs slots ((flag, e) :: trace) =
        (flag, (M.step slots e).2) :: M.flaggedOutputs (M.step slots e).1 trace := rfl
    rw [expand]
    -- the slots agree off `k` throughout, which carries the induction past either kind of event
    cases flag with
    -- an own event moves the slot of `k` alone, so the run without it need not move
    | true =>
      rw [part_cons_of_ne (by simp)] at others
      simp only [part_cons_self, List.mem_cons, forall_eq_or_imp] at mine
      have still : ∀ j, j ≠ k → (M.step slots e).1 j = slots' j := by
        intro j different
        rw [step_frame (by rw [mine.1]; simpa using different.symm)]
        exact agree j different
      obtain ⟨own, rest⟩ := ih mine.2 others still
      rw [step_own mine.1] at own
      rw [part_cons_self, part_cons_self, part_cons_of_ne (by simp), part_cons_of_ne (by simp),
        rest, step_output mine.1, own]
      exact ⟨rfl, rfl⟩
    -- both runs take a foreign event, and see the same slot when they do
    | false =>
      rw [part_cons_of_ne (by simp)] at mine
      simp only [part_cons_self, List.mem_cons, forall_eq_or_imp] at others
      obtain ⟨own, rest⟩ := ih mine others.2 (step_agree_off agree)
      have same_answer : (M.step slots e).2 = (M.step slots' e).2 := by
        apply step_output_congr
        intro j keyed
        exact agree j (fun same => others.1 (same ▸ keyed))
      rw [part_cons_self, part_cons_self, part_cons_of_ne (by simp), part_cons_of_ne (by simp),
        own, rest, same_answer, step_frame others.1]
      exact ⟨rfl, rfl⟩

/-- The machine that reads its events out of others: those that carry none give `rejected`. -/
def comap {ε' ο' : Type*} (M : Machine κ σ ε ο) (event : ε' → Option ε) (out : ο → ο')
    (rejected : ο') : Machine κ σ ε' ο' where
  key e := (event e).bind M.key
  slotStep slot e :=
    match event e with
    | none => (slot, rejected)
    | some e => ((M.slotStep slot e).1, out (M.slotStep slot e).2)
  answer e :=
    match event e with
    | none => rejected
    | some e => out (M.answer e)

theorem comap_step {ε' ο' : Type*} (event : ε' → Option ε) (out : ο → ο') (rejected : ο')
    (slots : κ → σ) (e : ε') :
    (M.comap event out rejected).step slots e =
      match event e with
      | none => (slots, rejected)
      | some e => ((M.step slots e).1, out (M.step slots e).2) := by
  cases h : event e with
  | none => simp [step, comap, h]
  | some e' =>
    cases keyed : M.key e' with
    | none => simp [step, comap, h, keyed]
    | some k => simp [step, comap, h, keyed]

omit [DecidableEq κ] in
/-- Events that all carry one of the inner machine give its outputs, each passed through `out`. -/
theorem comap_slotOutputs {ε' ο' : Type*} (event : ε' → Option ε) (out : ο → ο') (rejected : ο')
    (slot : σ) {events' : List ε'} {events : List ε}
    (carried : events'.map event = events.map some) :
    (M.comap event out rejected).slotOutputs slot events' = (M.slotOutputs slot events).map out := by
  induction events' generalizing slot events with
  | nil =>
    have none_left : events = [] := by simpa using carried.symm
    subst none_left
    rfl
  | cons e' events' ih =>
    cases events with
    | nil => simp at carried
    | cons e events =>
      simp only [List.map_cons, List.cons.injEq] at carried
      simp [slotOutputs, comap, carried.1, ← ih _ carried.2]

end Machine

end Keyed
