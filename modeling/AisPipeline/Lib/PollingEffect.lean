import AisPipeline.Lib.Transition
import Mathlib.Data.List.Count
import Mathlib.Logic.Function.Basic

/-!
# Effects that poll

A component with an effect: when what the effect depends on changes, the old
instance is cleaned up and a new one is set up. An instance sends a request
and, each time one settles, may set a timer for the next. Cleaning up marks the
instance as cancelled and clears its timer, but a request that is out may still
settle, either way and at any time.

If a cancelled instance does nothing when its request settles, it never does
anything again, and the live one has one request or one timer.
-/

/-- An effect on dependencies `δ`, whose requests come to `α`, and the component's state `η`. -/
structure PollingEffect (δ α η : Type*) where
  initial : η
  /-- whether the effect sets anything up for these dependencies -/
  starts : δ → Bool
  /-- what an instance, cancelled or not, does when its request settles: the state it leaves, and
  whether it sets its timer -/
  settled : δ → Bool → α → η → η × Bool
  /-- whether a change may be shown before its effects have run -/
  defers : δ → δ → Prop

namespace PollingEffect

open Transition

variable {δ α η : Type*}

/-- The variables one instance of the effect closes over. -/
structure Instance (δ : Type*) where
  deps : δ
  cancelled : Bool := false
  timer : Option Nat := none

structure State (δ η : Type*) where
  state : η
  /-- what the component was last rendered with -/
  rendered : Option δ := none
  /-- what the effect last ran for -/
  ran : Option δ := none
  /-- the instance that is still to be cleaned up -/
  mounted : Option Nat := none
  /-- all instances, the oldest first -/
  instances : List (Instance δ) := []
  /-- the requests that are out, by instance -/
  requests : List Nat := []
  /-- the timers that are set, with the instance each belongs to -/
  timers : List (Nat × Nat) := []
  nextTimer : Nat := 0

inductive Event (δ α : Type*) where
  | rendered (deps : δ)
  | changed (deps : δ)
  | ranEffects
  | unmounted
  | requestSettled (owner : Nat) (outcome : α)
  | timerFired (timer : Nat)

namespace State

/-- The cleanup of the mounted instance. -/
def cleanUp (s : State δ η) : State δ η :=
  match s.mounted with
  | none => s
  | some i =>
    let timer := (s.instances[i]?).bind Instance.timer
    { s with
      mounted := none
      instances := s.instances.modify i fun x => { x with cancelled := true }
      timers := s.timers.filter fun armed => some armed.1 ≠ timer }

end State

variable {s : State δ η}

/-- Cleaning up cancels the mounted instance and touches no other. -/
theorem getElem?_cleanUp {j : Nat} :
    s.cleanUp.instances[j]? =
      (s.instances[j]?).map fun x => if s.mounted = some j then { x with cancelled := true } else x := by
  cases mounted : s.mounted with
  | none => simp [State.cleanUp, mounted]
  | some i =>
    simp only [State.cleanUp, mounted, List.getElem?_modify, Option.some.injEq]
    by_cases same : i = j
    · simp [same]
    · simp [same]

/-- Cleaning up changes these variables only. -/
private theorem cleanUp_eq : s.cleanUp =
    { s with mounted := none, instances := s.cleanUp.instances, timers := s.cleanUp.timers } := by
  cases mounted : s.mounted with
  | none =>
    simp only [State.cleanUp, mounted]
    rw [← mounted]
  | some i => simp only [State.cleanUp, mounted]

@[simp] theorem mounted_cleanUp : s.cleanUp.mounted = none := by rw [cleanUp_eq]

@[simp] theorem state_cleanUp : s.cleanUp.state = s.state := by rw [cleanUp_eq]

@[simp] theorem rendered_cleanUp : s.cleanUp.rendered = s.rendered := by rw [cleanUp_eq]

@[simp] theorem requests_cleanUp : s.cleanUp.requests = s.requests := by rw [cleanUp_eq]

@[simp] theorem length_cleanUp : s.cleanUp.instances.length = s.instances.length := by
  cases mounted : s.mounted with
  | none => simp only [State.cleanUp, mounted]
  | some i => simp only [State.cleanUp, mounted, List.length_modify]

/-! ### One request or one timer -/

/-- The mounted instance is the one that is not cancelled, the timers that are set are the one it
knows of, and it has one request out or one timer. -/
structure Tidy (s : State δ η) : Prop where
  live : ∀ i, s.mounted = some i →
    ∃ x, s.instances[i]? = some x ∧ x.cancelled = false ∧ s.ran = some x.deps
  cancelled : ∀ i x, s.instances[i]? = some x → s.mounted ≠ some i → x.cancelled = true
  requests : ∀ i ∈ s.requests, i < s.instances.length
  timers : ∀ armed ∈ s.timers, s.mounted = some armed.2 ∧
    ∃ x, s.instances[armed.2]? = some x ∧ x.timer = some armed.1
  single : ∀ i, s.mounted = some i → s.requests.count i + s.timers.length ≤ 1

theorem Tidy.timers_of_unmounted (tidy : Tidy s) (nobody : s.mounted = none) : s.timers = [] := by
  rw [List.eq_nil_iff_forall_not_mem]
  intro armed member
  have owned := (tidy.timers armed member).1
  rw [nobody] at owned
  cases owned

theorem Tidy.timers_cleanUp (tidy : Tidy s) : s.cleanUp.timers = [] := by
  cases mounted : s.mounted with
  | none => simpa [State.cleanUp, mounted] using tidy.timers_of_unmounted mounted
  | some i =>
    rw [List.eq_nil_iff_forall_not_mem]
    intro armed member
    simp only [State.cleanUp, mounted, List.mem_filter, decide_eq_true_eq] at member
    obtain ⟨set, uncleared⟩ := member
    obtain ⟨owned, x, known, timer⟩ := tidy.timers armed set
    obtain rfl : i = armed.2 := Option.some.inj (mounted.symm.trans owned)
    exact uncleared (by rw [known, Option.bind_some, timer])

theorem Tidy.cleanUp (tidy : Tidy s) : Tidy s.cleanUp where
  live i mounted := by
    rw [mounted_cleanUp] at mounted
    cases mounted
  cancelled i x known _ := by
    rw [getElem?_cleanUp, Option.map_eq_some_iff] at known
    obtain ⟨y, before, rfl⟩ := known
    by_cases mounted : s.mounted = some i
    · simp [mounted]
    -- all others were cancelled before
    · rw [if_neg mounted]
      exact tidy.cancelled i y before mounted
  requests i member := by
    rw [requests_cleanUp] at member
    rw [length_cleanUp]
    exact tidy.requests i member
  timers armed member := by
    rw [tidy.timers_cleanUp] at member
    cases member
  single i mounted := by
    rw [mounted_cleanUp] at mounted
    cases mounted

variable (E : PollingEffect δ α η)

def start : State δ η where
  state := E.initial

/-- The effect itself: a new instance, whose first request goes out. -/
def setUp (deps : δ) (s : State δ η) : State δ η :=
  if E.starts deps then
    { s with
      ran := some deps
      mounted := some s.instances.length
      instances := s.instances ++ [{ deps := deps }]
      requests := s.requests ++ [s.instances.length] }
  else { s with ran := some deps }

/-- A request settles: the instance goes on behind it. -/
def settle (i : Nat) (x : Instance δ) (outcome : α) (s : State δ η) : State δ η :=
  let (state, polls) := E.settled x.deps x.cancelled outcome s.state
  if polls then
    { s with
      state := state
      requests := s.requests.erase i
      instances := s.instances.modify i fun x => { x with timer := some s.nextTimer }
      timers := s.timers ++ [(s.nextTimer, i)]
      nextTimer := s.nextTimer + 1 }
  else { s with state := state, requests := s.requests.erase i }

variable {E}

theorem Tidy.setUp (tidy : Tidy s) (nobody : s.mounted = none) (deps : δ) : Tidy (E.setUp deps s) := by
  have no_timers := tidy.timers_of_unmounted nobody
  by_cases starts : E.starts deps = true
  · simp only [PollingEffect.setUp, if_pos starts]
    -- the number of the new instance was not in use
    have unknown : s.requests.count s.instances.length = 0 :=
      List.count_eq_zero.mpr fun member => Nat.lt_irrefl _ (tidy.requests _ member)
    refine ⟨?_, ?_, ?_, ?_, ?_⟩
    · rintro i ⟨⟩
      exact ⟨{ deps := deps }, by simp, rfl, rfl⟩
    · intro i x known other
      have old : i < s.instances.length := by
        have bound := (List.getElem?_eq_some_iff.mp known).1
        have different : i ≠ s.instances.length := fun same => other (congrArg some same.symm)
        simp only [List.length_append, List.length_singleton] at bound
        omega
      rw [List.getElem?_append_left old] at known
      exact tidy.cancelled i x known (by simp [nobody])
    · intro i member
      simp only [List.length_append, List.length_singleton]
      rcases List.mem_append.mp member with before | new
      · exact Nat.lt_succ_of_lt (tidy.requests i before)
      · rw [List.mem_singleton.mp new]
        exact Nat.lt_succ_self _
    · intro armed member
      simp only [no_timers] at member
      cases member
    · rintro i ⟨⟩
      simp [no_timers, unknown]
  · simp only [PollingEffect.setUp, if_neg starts]
    refine ⟨?_, tidy.cancelled, tidy.requests, tidy.timers, tidy.single⟩
    intro i mounted
    simp only [nobody] at mounted
    cases mounted

variable (E)

/-- A cancelled instance does nothing when its request settles. -/
def Guarded : Prop :=
  ∀ deps outcome state, E.settled deps true outcome state = (state, false)

variable {E}

/-- What a settled request comes to: nothing for a cancelled instance. -/
theorem Guarded.settle_cancelled (guarded : E.Guarded) {i : Nat} {x : Instance δ}
    (cancelled : x.cancelled = true) (outcome : α) :
    E.settle i x outcome s = { s with requests := s.requests.erase i } := by
  rw [settle, cancelled, guarded]
  rfl

/-- A request that has settled is no longer out. -/
theorem Tidy.answered (tidy : Tidy s) (state : η) (i : Nat) :
    Tidy { s with state := state, requests := s.requests.erase i } where
  live := tidy.live
  cancelled := tidy.cancelled
  requests j member := tidy.requests j (List.mem_of_mem_erase member)
  timers := tidy.timers
  single j owned := by
    have fewer : (s.requests.erase i).count j ≤ s.requests.count j :=
      List.erase_sublist.count_le j
    have before := tidy.single j owned
    simp only
    omega

/-- The mounted instance may set its timer where it has nothing out. -/
theorem Tidy.arm (tidy : Tidy s) {i : Nat} (mounted : s.mounted = some i)
    (idle : s.requests.count i = 0) (no_timers : s.timers = []) :
    Tidy { s with
      instances := s.instances.modify i fun x => { x with timer := some s.nextTimer }
      timers := s.timers ++ [(s.nextTimer, i)]
      nextTimer := s.nextTimer + 1 } := by
  obtain ⟨x, known, alive, ran⟩ := tidy.live i mounted
  have now : (s.instances.modify i fun x => { x with timer := some s.nextTimer })[i]? =
      some { x with timer := some s.nextTimer } := by simp [known]
  refine ⟨?_, ?_, ?_, ?_, ?_⟩
  · intro j owned
    obtain rfl : i = j := Option.some.inj (mounted.symm.trans owned)
    exact ⟨_, now, alive, ran⟩
  · intro j y here other
    have different : i ≠ j := fun same => other (same ▸ mounted)
    rw [List.getElem?_modify_ne _ _ different] at here
    exact tidy.cancelled j y here other
  · intro j member
    rw [List.length_modify]
    exact tidy.requests j member
  · intro armed member
    simp only [no_timers, List.nil_append, List.mem_singleton] at member
    subst member
    exact ⟨mounted, _, now, rfl⟩
  · intro j owned
    obtain rfl : i = j := Option.some.inj (mounted.symm.trans owned)
    simp only [idle, no_timers, List.nil_append, List.length_singleton]
    omega

theorem Tidy.settle (guarded : E.Guarded) (tidy : Tidy s) {i : Nat} {x : Instance δ} (outcome : α)
    (out : i ∈ s.requests) (known : s.instances[i]? = some x) : Tidy (E.settle i x outcome s) := by
  by_cases mounted : s.mounted = some i
  · simp only [PollingEffect.settle]
    split
    · -- the timer takes the place of the request, which was all that was out
      have counted : 0 < s.requests.count i := List.count_pos_iff.mpr out
      have single := tidy.single i mounted
      have no_timers : s.timers = [] := List.eq_nil_of_length_eq_zero (by omega)
      have idle : (s.requests.erase i).count i = 0 := by
        rw [List.count_erase_self]
        omega
      exact (tidy.answered _ i).arm mounted idle no_timers
    · exact tidy.answered _ i
  -- an instance that is not mounted is cancelled, and does nothing
  · rw [guarded.settle_cancelled (tidy.cancelled i x known mounted)]
    exact tidy.answered s.state i

/-- A timer that fires gives way to a request. -/
theorem Tidy.fire (tidy : Tidy s) {timer i : Nat} (armed : (timer, i) ∈ s.timers) :
    Tidy { s with timers := s.timers.erase (timer, i), requests := s.requests ++ [i] } := by
  obtain ⟨mounted, x, known, -⟩ := tidy.timers _ armed
  refine ⟨tidy.live, tidy.cancelled, ?_, ?_, ?_⟩
  · intro j member
    rcases List.mem_append.mp member with before | new
    · exact tidy.requests j before
    · rw [List.mem_singleton.mp new]
      exact (List.getElem?_eq_some_iff.mp known).1
  · intro other member
    exact tidy.timers other (List.mem_of_mem_erase member)
  · intro j owned
    have same : i = j := Option.some.inj (mounted.symm.trans owned)
    have before := tidy.single j owned
    have positive := List.length_pos_of_mem armed
    have size := List.length_erase_of_mem armed
    simp only [List.count_append, ← same, List.count_singleton_self] at before ⊢
    omega

theorem Tidy.render (tidy : Tidy s) (shown : Option δ) : Tidy { s with rendered := shown } :=
  ⟨tidy.live, tidy.cancelled, tidy.requests, tidy.timers, tidy.single⟩

theorem tidy_start : Tidy E.start := by
  refine ⟨?_, ?_, ?_, ?_, ?_⟩
  · rintro i ⟨⟩
  · rintro i x known
    cases known
  · rintro i ⟨⟩
  · rintro armed ⟨⟩
  · rintro i ⟨⟩

/-- The requests and timers that are out for the mounted instance. -/
def outstanding (s : State δ η) : Nat :=
  s.requests.countP (fun i => s.mounted = some i) + s.timers.countP fun armed => s.mounted = some armed.2

theorem Tidy.outstanding_le (tidy : Tidy s) : outstanding s ≤ 1 := by
  cases mounted : s.mounted with
  | none => simp [outstanding, mounted]
  | some i =>
    have single := tidy.single i mounted
    have armed := List.countP_le_length (p := fun armed : Nat × Nat => s.mounted = some armed.2) (l := s.timers)
    -- a request counts if it is the mounted instance's, and every timer does
    have own : s.requests.countP (fun j => s.mounted = some j) = s.requests.count i := by
      rw [List.count_eq_countP]
      congr 1
      funext j
      rw [mounted, beq_eq_decide, decide_eq_decide, Option.some.injEq]
      exact eq_comm
    rw [outstanding, own]
    omega

/-- What the mounted instance was set up for is, up to `R`, what is shown. -/
def Follows (R : δ → δ → Prop) (s : State δ η) : Prop :=
  ∀ i, s.mounted = some i → ∃ x shown, s.instances[i]? = some x ∧ s.rendered = some shown ∧ R x.deps shown

/-! ### Steps -/

/-- Instances stay what they are set up for. -/
def Keeps (s t : State δ η) : Prop :=
  ∀ (i : Nat) (x : Instance δ), s.instances[i]? = some x →
    ∃ y, t.instances[i]? = some y ∧ y.deps = x.deps

theorem Keeps.trans {r t : State δ η} (first : Keeps r s) (second : Keeps s t) : Keeps r t := by
  intro i x known
  obtain ⟨y, later, same⟩ := first i x known
  obtain ⟨z, last, same'⟩ := second i y later
  exact ⟨z, last, same'.trans same⟩

theorem keeps_cleanUp (s : State δ η) : Keeps s s.cleanUp := by
  intro i x known
  rw [getElem?_cleanUp, known, Option.map_some]
  refine ⟨_, rfl, ?_⟩
  split
  · rfl
  · rfl

/-- The instance exists and its cleanup has run. -/
def CleanedUp (i : Nat) (s : State δ η) : Prop := i < s.instances.length ∧ s.mounted ≠ some i

/-- A request that settles changes these variables only. -/
private theorem settle_eq (i : Nat) (x : Instance δ) (outcome : α) : E.settle i x outcome s =
    { s with
      state := (E.settled x.deps x.cancelled outcome s.state).1
      requests := s.requests.erase i
      instances := (E.settle i x outcome s).instances
      timers := (E.settle i x outcome s).timers
      nextTimer := (E.settle i x outcome s).nextTimer } := by
  simp only [settle]
  split
  · rfl
  · rfl

theorem settle_state (i : Nat) (x : Instance δ) (outcome : α) :
    (E.settle i x outcome s).state = (E.settled x.deps x.cancelled outcome s.state).1 := by
  rw [settle_eq]

@[simp] theorem settle_mounted (i : Nat) (x : Instance δ) (outcome : α) :
    (E.settle i x outcome s).mounted = s.mounted := by
  rw [settle_eq]

@[simp] theorem settle_rendered (i : Nat) (x : Instance δ) (outcome : α) :
    (E.settle i x outcome s).rendered = s.rendered := by
  rw [settle_eq]

variable [DecidableEq δ]

/-- The effects of the last render: the cleanup, then the effect, if the dependencies changed. -/
def runEffects (s : State δ η) : State δ η :=
  match s.rendered with
  | none => s
  | some deps => if s.ran = some deps then s else E.setUp deps s.cleanUp

/-- The steps of a component and its effect. Effects that were put off run before the component is
rendered again or taken away. -/
inductive Step : State δ η → Event δ α → State δ η → Prop where
  /-- a change is shown, and its effects run later -/
  | renders (s : State δ η) (deps : δ) (may : ∀ before ∈ s.rendered, E.defers before deps) :
      Step s (.rendered deps) { E.runEffects s with rendered := some deps }
  /-- a change is shown and its effects run with it -/
  | changes (s : State δ η) (deps : δ) :
      Step s (.changed deps) (E.runEffects { E.runEffects s with rendered := some deps })
  | runsEffects (s : State δ η) : Step s .ranEffects (E.runEffects s)
  | unmounts (s : State δ η) :
      Step s .unmounted { (E.runEffects s).cleanUp with rendered := none, ran := none }
  | settles (s : State δ η) (i : Nat) (x : Instance δ) (outcome : α) (out : i ∈ s.requests)
      (known : s.instances[i]? = some x) : Step s (.requestSettled i outcome) (E.settle i x outcome s)
  | fires (s : State δ η) (timer i : Nat) (armed : (timer, i) ∈ s.timers) :
      Step s (.timerFired timer)
        { s with timers := s.timers.erase (timer, i), requests := s.requests ++ [i] }

theorem runEffects_cases (E : PollingEffect δ α η) (s : State δ η) :
    (E.runEffects s = s ∧ ∀ deps ∈ s.rendered, s.ran = some deps) ∨
      ∃ deps, s.rendered = some deps ∧ E.runEffects s = E.setUp deps s.cleanUp := by
  cases shown : s.rendered with
  | none => exact Or.inl ⟨by simp only [runEffects, shown], by simp⟩
  | some deps =>
    by_cases same : s.ran = some deps
    · exact Or.inl ⟨by simp only [runEffects, shown, if_pos same], by simpa using same⟩
    · exact Or.inr ⟨deps, rfl, by simp only [runEffects, shown, if_neg same]⟩

theorem Tidy.runEffects (tidy : Tidy s) : Tidy (E.runEffects s) := by
  rcases E.runEffects_cases s with ⟨same, -⟩ | ⟨deps, -, ran⟩
  · rw [same]
    exact tidy
  · rw [ran]
    exact tidy.cleanUp.setUp mounted_cleanUp deps

theorem Step.tidy (guarded : E.Guarded) {t : State δ η} {event : Event δ α} (tidy : Tidy s)
    (step : E.Step s event t) : Tidy t := by
  cases step with
  | renders deps may => exact tidy.runEffects.render _
  | changes deps => exact (tidy.runEffects.render _).runEffects
  | runsEffects => exact tidy.runEffects
  | unmounts =>
    have cleaned := (tidy.runEffects (E := E)).cleanUp
    refine ⟨?_, cleaned.cancelled, cleaned.requests, cleaned.timers, cleaned.single⟩
    intro i mounted
    simp only [mounted_cleanUp] at mounted
    cases mounted
  | settles i x outcome out known => exact tidy.settle guarded outcome out known
  | fires timer i armed => exact tidy.fire armed

theorem run_tidy (guarded : E.Guarded) {trace : List (Event δ α)} (run : Run E.Step E.start trace s) :
    Tidy s :=
  Run.invariant (fun _ s => Tidy s) tidy_start (fun tidy step => Step.tidy guarded tidy step) run

theorem keeps_runEffects (E : PollingEffect δ α η) (s : State δ η) : Keeps s (E.runEffects s) := by
  rcases E.runEffects_cases s with ⟨same, -⟩ | ⟨deps, -, ran⟩
  · rw [same]
    exact fun i x known => ⟨x, known, rfl⟩
  · rw [ran, setUp]
    intro i x known
    obtain ⟨y, kept, same⟩ := keeps_cleanUp s i x known
    refine ⟨y, ?_, same⟩
    split
    · rw [List.getElem?_append_left (List.getElem?_eq_some_iff.mp kept).1]
      exact kept
    · exact kept

theorem Step.keeps {t : State δ η} {event : Event δ α} (step : E.Step s event t) : Keeps s t := by
  cases step with
  | renders deps may => exact keeps_runEffects E s
  | changes deps =>
    exact (keeps_runEffects E s).trans (keeps_runEffects E { E.runEffects s with rendered := some deps })
  | runsEffects => exact keeps_runEffects E s
  | unmounts => exact (keeps_runEffects E s).trans (keeps_cleanUp (E.runEffects s))
  | settles i x outcome out known =>
    simp only [settle]
    split
    · intro j y here
      by_cases same : i = j
      · exact ⟨{ y with timer := some s.nextTimer }, by simp [← same, same ▸ here], rfl⟩
      · exact ⟨y, by rw [List.getElem?_modify_ne _ _ same]; exact here, rfl⟩
    · exact fun j y here => ⟨y, here, rfl⟩
  | fires timer i armed => exact fun j y here => ⟨y, here, rfl⟩

@[simp] theorem state_runEffects (E : PollingEffect δ α η) (s : State δ η) :
    (E.runEffects s).state = s.state := by
  rcases E.runEffects_cases s with ⟨same, -⟩ | ⟨deps, -, ran⟩
  · rw [same]
  · rw [ran, setUp]
    split
    · exact state_cleanUp
    · exact state_cleanUp

/-- Only a request that settles changes the component's state. -/
theorem Step.state_eq {t : State δ η} {event : Event δ α} (step : E.Step s event t)
    (quiet : ∀ i outcome, event ≠ .requestSettled i outcome) : t.state = s.state := by
  cases step with
  | renders deps may => exact state_runEffects E s
  | changes deps => simp
  | runsEffects => exact state_runEffects E s
  | unmounts => simp
  | settles i x outcome out known => exact absurd rfl (quiet i outcome)
  | fires timer i armed => rfl

theorem CleanedUp.runEffects {i : Nat} (cleaned : CleanedUp i s) : CleanedUp i (E.runEffects s) := by
  obtain ⟨known, unmounted⟩ := cleaned
  rcases E.runEffects_cases s with ⟨same, -⟩ | ⟨deps, -, ran⟩
  · rw [same]
    exact ⟨known, unmounted⟩
  · rw [ran, setUp]
    split
    · -- the new instance gets the next number
      refine ⟨?_, ?_⟩
      · simp only [List.length_append, length_cleanUp]
        omega
      · simp only [length_cleanUp, ne_eq, Option.some.injEq]
        omega
    · exact ⟨by simpa using known, by simp⟩

/-- What was cleaned up is never mounted again. -/
theorem CleanedUp.step {i : Nat} {t : State δ η} {event : Event δ α} (cleaned : CleanedUp i s)
    (step : E.Step s event t) : CleanedUp i t := by
  cases step with
  | renders deps may => exact cleaned.runEffects
  | changes deps =>
    have shown : CleanedUp i { E.runEffects s with rendered := some deps } := cleaned.runEffects
    exact shown.runEffects
  | runsEffects => exact cleaned.runEffects
  | unmounts =>
    obtain ⟨known, -⟩ := cleaned.runEffects (E := E)
    exact ⟨by simpa using known, by simp⟩
  | settles j x outcome out known =>
    simp only [settle]
    split
    · exact ⟨by simpa using cleaned.1, cleaned.2⟩
    · exact cleaned
  | fires timer j armed => exact cleaned

theorem CleanedUp.run {i : Nat} {t : State δ η} {trace : List (Event δ α)} (cleaned : CleanedUp i s)
    (run : Run E.Step s trace t) : CleanedUp i t :=
  Run.invariant (fun _ t => CleanedUp i t) cleaned (fun cleaned step => cleaned.step step) run

/-! ### What holds of every run -/

theorem Tidy.silent (guarded : E.Guarded) (tidy : Tidy s) {i : Nat} (cleaned : CleanedUp i s)
    {t : State δ η} {outcome : α} (step : E.Step s (.requestSettled i outcome) t) :
    t = { s with requests := s.requests.erase i } := by
  cases step with
  | settles _ x _ out known => exact guarded.settle_cancelled (tidy.cancelled i x known cleaned.2) outcome

/-- Once the effects of a render have run, the mounted instance is for what it showed. -/
private theorem deps_runEffects (tidy : Tidy s) {shown : δ} (rendered : s.rendered = some shown) {i : Nat}
    (mounted : (E.runEffects s).mounted = some i) :
    (E.runEffects s).rendered = some shown ∧
      ∃ x, (E.runEffects s).instances[i]? = some x ∧ x.deps = shown := by
  rcases E.runEffects_cases s with ⟨same, current⟩ | ⟨deps, again, ran⟩
  -- the effect last ran for what is shown already
  · rw [same] at mounted ⊢
    obtain ⟨x, known, -, ran⟩ := tidy.live i mounted
    rw [current shown rendered] at ran
    exact ⟨rendered, x, known, (Option.some.inj ran).symm⟩
  · rw [rendered] at again
    cases again
    rw [ran, setUp] at mounted ⊢
    split at mounted
    next starts =>
      cases mounted
      rw [if_pos starts]
      exact ⟨rendered_cleanUp.trans rendered, { deps := shown }, by simp, rfl⟩
    · simp at mounted

variable {R : δ → δ → Prop}

theorem Step.follows (refl : ∀ deps, R deps deps)
    (deferred : ∀ before deps, E.defers before deps → R before deps) (tidy : Tidy s)
    (follows : Follows R s) {t : State δ η} {event : Event δ α} (step : E.Step s event t) :
    Follows R t := by
  have idle (hidden : s.rendered = none) : E.runEffects s = s := by simp only [runEffects, hidden]
  intro i mounted
  cases step with
  | renders deps may =>
    cases shown : s.rendered with
    -- before the first render nothing is mounted
    | none =>
      rw [idle shown] at mounted
      obtain ⟨x, before, known, rendered, -⟩ := follows i mounted
      rw [shown] at rendered
      cases rendered
    | some before =>
      obtain ⟨-, x, known, rfl⟩ := deps_runEffects tidy shown mounted
      exact ⟨x, deps, known, rfl, deferred _ deps (may _ shown)⟩
  | changes deps =>
    obtain ⟨rendered, x, known, rfl⟩ := deps_runEffects (tidy.runEffects.render (some deps)) rfl mounted
    exact ⟨x, _, known, rendered, refl _⟩
  | runsEffects =>
    cases shown : s.rendered with
    | none =>
      rw [idle shown] at mounted ⊢
      exact follows i mounted
    | some deps =>
      obtain ⟨rendered, x, known, rfl⟩ := deps_runEffects tidy shown mounted
      exact ⟨x, _, known, rendered, refl _⟩
  | unmounts => simp at mounted
  | settles j y outcome out known =>
    rw [settle_mounted] at mounted
    obtain ⟨x, shown, here, rendered, related⟩ := follows i mounted
    -- the instance may get a timer, but not other dependencies
    obtain ⟨z, later, same⟩ := (Step.settles s j y outcome out known : E.Step s _ _).keeps i x here
    exact ⟨z, shown, later, (settle_rendered ..).trans rendered, same ▸ related⟩
  | fires timer j armed => exact follows i mounted

/-- Where changes are shown before their effects have run only if `R` allows, the mounted instance
follows what is shown up to `R`. -/
theorem run_follows (guarded : E.Guarded) (refl : ∀ deps, R deps deps)
    (deferred : ∀ before deps, E.defers before deps → R before deps) {trace : List (Event δ α)}
    (run : Run E.Step E.start trace s) : Follows R s := by
  have start : Tidy E.start ∧ Follows R E.start := by
    refine ⟨tidy_start, ?_⟩
    rintro i ⟨⟩
  refine (Run.invariant (fun _ s => Tidy s ∧ Follows R s) start ?_ run).2
  rintro trace s event t ⟨tidy, follows⟩ step
  exact ⟨step.tidy guarded tidy, step.follows refl deferred tidy follows⟩

/-- Once the cleanup of an instance has run, a request of it that settles changes nothing but that it
is out. -/
theorem run_silent (guarded : E.Guarded) {before after : List (Event δ α)} {s' t t' : State δ η}
    {event : Event δ α} {i : Nat} {outcome : α} (run : Run E.Step E.start before s)
    (cleans : E.Step s event s') (mounted : s.mounted = some i) (unmounted : s'.mounted ≠ some i)
    (later : Run E.Step s' after t) (settles : E.Step t (.requestSettled i outcome) t') :
    t' = { t with requests := t.requests.erase i } := by
  have tidy : Tidy s' := Step.tidy guarded (run_tidy guarded run) cleans
  -- what was mounted is known, and stays known
  have cleaned : CleanedUp i s' := by
    obtain ⟨x, known, -⟩ := (run_tidy guarded run).live i mounted
    obtain ⟨y, kept, -⟩ := cleans.keeps i x known
    exact ⟨(List.getElem?_eq_some_iff.mp kept).1, unmounted⟩
  have tidy' : Tidy t :=
    Run.invariant (fun _ t => Tidy t) tidy (fun tidy step => Step.tidy guarded tidy step) later
  exact tidy'.silent guarded (cleaned.run later) settles

end PollingEffect
