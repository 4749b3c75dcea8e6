import AisPipeline.Lib.Transition
import Mathlib.Data.ENat.Basic
import Mathlib.Data.Finset.Card

/-!
# Monitors with condition variables

Shared data behind one lock, and threads that wait on condition variables. A
waiting thread that is notified has to take the lock again, and any other
thread may be faster; it may also wake up for no reason.

No wakeup is lost when every section accounts for what it makes available to
the waiting threads: while one of them sleeps, at least as many are notified as
there is work for.
-/

/-- Whom a section notifies on a condition variable. -/
inductive Notify where
  | nobody
  | one
  | all
  deriving DecidableEq, Repr

/-- The calls `κ` on data `σ`, with condition variables `ξ`. -/
structure Monitor (σ κ ξ ρ : Type*) where
  /-- The condition variable a call may wait on. -/
  condition : κ → Option ξ
  /-- What a call does with the lock held: the data it leaves, and its reply unless it waits. -/
  body : σ → κ → σ × Option ρ
  notifies : σ → κ → ξ → Notify

namespace Monitor

open Transition

variable {σ κ ξ ρ τ : Type*}

/-- Where a thread is. Inside a call that does not wait it contends for the lock or holds it. -/
inductive Phase (κ : Type*) where
  | outside
  | entering (call : κ)
  | asleep (call : κ)
  | notified (call : κ)

/-- The call of a thread that contends for the lock or holds it. -/
def Phase.running? : Phase κ → Option κ
  | .entering call | .notified call => some call
  | .outside | .asleep _ => none

/-- The call a thread is in. -/
def Phase.call? : Phase κ → Option κ
  | .outside => none
  | .entering call | .asleep call | .notified call => some call

@[simp] theorem Phase.call?_outside : (outside : Phase κ).call? = none := rfl
@[simp] theorem Phase.call?_entering (call : κ) : (entering call).call? = some call := rfl
@[simp] theorem Phase.call?_asleep (call : κ) : (asleep call).call? = some call := rfl
@[simp] theorem Phase.call?_notified (call : κ) : (notified call).call? = some call := rfl

theorem Phase.call?_of_running {phase : Phase κ} {call : κ} (inside : phase.running? = some call) :
    phase.call? = some call := by
  cases phase with
  | entering _ | notified _ => exact inside
  | outside | asleep _ => cases inside

structure State (τ σ κ : Type*) where
  shared : σ
  holder : Option τ := none
  phase : τ → Phase κ := fun _ => .outside

inductive Event (τ κ ρ : Type*) where
  | called (thread : τ) (call : κ)
  | acquired (thread : τ)
  | ran (thread : τ) (call : κ) (reply : Option ρ)
  | wokeUp (thread : τ)

variable (M : Monitor σ κ ξ ρ)

/-- A thread sleeps on the condition variable `c`. -/
def SleepsOn (phase : τ → Phase κ) (c : ξ) (thread : τ) : Prop :=
  ∃ call, M.condition call = some c ∧ phase thread = .asleep call

/-- A thread was woken from its sleep on `c` and has not had the lock since. -/
def NotifiedOn (phase : τ → Phase κ) (c : ξ) (thread : τ) : Prop :=
  ∃ call, M.condition call = some c ∧ phase thread = .notified call

/-- What notifications do to the sleepers: none, one of any choice, or all of those on a
condition variable are moved; nobody else is. -/
structure Wakes (notify : ξ → Notify) (phase phase' : τ → Phase κ) : Prop where
  others : ∀ t, (∀ call, phase t ≠ .asleep call) → phase' t = phase t
  sleepers : ∀ t call, phase t = .asleep call →
    phase' t = .asleep call ∨ phase' t = .notified call
  nobody : ∀ c, notify c = .nobody → ∀ t, M.SleepsOn phase c t → phase' t = phase t
  one : ∀ c, notify c = .one → ∀ t, M.SleepsOn phase c t →
    ∃ woken, M.SleepsOn phase c woken ∧ M.NotifiedOn phase' c woken ∧
      ∀ u, u ≠ woken → M.SleepsOn phase c u → phase' u = phase u
  all : ∀ c, notify c = .all → ∀ t, M.SleepsOn phase c t → M.NotifiedOn phase' c t

/-- Where a section leaves its thread. -/
def Phase.after (call : κ) : Option ρ → Phase κ
  | none => .asleep call
  | some _ => .outside

inductive Step [DecidableEq τ] : State τ σ κ → Event τ κ ρ → State τ σ κ → Prop where
  | calls (s : State τ σ κ) (thread : τ) (call : κ) (outside : s.phase thread = .outside) :
      Step s (.called thread call)
        { s with phase := Function.update s.phase thread (.entering call) }
  | acquires (s : State τ σ κ) (thread : τ) (call : κ) (free : s.holder = none)
      (contends : (s.phase thread).running? = some call) :
      Step s (.acquired thread) { s with holder := some thread }
  | runs (s : State τ σ κ) (thread : τ) (call : κ) (phase : τ → Phase κ)
      (holds : s.holder = some thread) (inside : (s.phase thread).running? = some call)
      (wakes : M.Wakes (M.notifies s.shared call) s.phase phase) :
      Step s (.ran thread call (M.body s.shared call).2) {
        shared := (M.body s.shared call).1
        holder := none
        phase := Function.update phase thread (.after call (M.body s.shared call).2) }
  | wakesUp (s : State τ σ κ) (thread : τ) (call : κ) (asleep : s.phase thread = .asleep call) :
      Step s (.wokeUp thread)
        { s with phase := Function.update s.phase thread (.notified call) }

/-- Every section accounts for what is available to those who wait on a condition: it waits
only when nothing is, and otherwise notifies everyone, or adds at most what it notifies for
and what it takes itself. -/
structure Accounts [DecidableEq ξ] (available : ξ → σ → ℕ∞) : Prop where
  waits : ∀ s call, (M.body s call).2 = none →
    (M.body s call).1 = s ∧ ∃ c, M.condition call = some c ∧ available c s = 0
  leaves : ∀ s call reply, (M.body s call).2 = some reply → ∀ c,
    M.notifies s call c = .all ∨
      available c (M.body s call).1 + (if M.condition call = some c then 1 else 0) ≤
        available c s + (if M.notifies s call c = .one then 1 else 0)

/-- While a thread sleeps on `c`, at least as many threads are notified on it as there is
available. -/
def Covered (available : ξ → σ → ℕ∞) (s : State τ σ κ) : Prop :=
  ∀ c t, M.SleepsOn s.phase c t →
    ∃ notified : Finset τ, (∀ u ∈ notified, M.NotifiedOn s.phase c u) ∧
      available c s.shared ≤ notified.card

variable {M}

theorem Wakes.asleep {notify : ξ → Notify} {phase phase' : τ → Phase κ}
    (wakes : M.Wakes notify phase phase') {t : τ} {call : κ} (asleep : phase' t = .asleep call) :
    phase t = .asleep call := by
  by_cases slept : ∃ before, phase t = .asleep before
  · obtain ⟨before, at_t⟩ := slept
    rcases wakes.sleepers t before at_t with still | woken
    · rwa [still.symm.trans asleep] at at_t
    · rw [woken] at asleep
      cases asleep
  · rw [← wakes.others t fun before at_t => slept ⟨before, at_t⟩, asleep]

theorem Wakes.sleepsOn {notify : ξ → Notify} {phase phase' : τ → Phase κ}
    (wakes : M.Wakes notify phase phase') {c : ξ} {t : τ} (sleeps : M.SleepsOn phase' c t) :
    M.SleepsOn phase c t := by
  obtain ⟨call, on, asleep⟩ := sleeps
  exact ⟨call, on, wakes.asleep asleep⟩

/-- Notifications take nobody out of a call. -/
theorem Wakes.call?_eq {notify : ξ → Notify} {phase phase' : τ → Phase κ}
    (wakes : M.Wakes notify phase phase') (t : τ) : (phase' t).call? = (phase t).call? := by
  cases at_t : phase t with
  | asleep call =>
    rcases wakes.sleepers t call at_t with still | woken
    · rw [still]
    · rw [woken]
      rfl
  | _ => rw [wakes.others t (by simp [at_t]), at_t]

theorem Wakes.notifiedOn {notify : ξ → Notify} {phase phase' : τ → Phase κ}
    (wakes : M.Wakes notify phase phase') {c : ξ} {t : τ} (notified : M.NotifiedOn phase c t) :
    M.NotifiedOn phase' c t := by
  obtain ⟨call, on, at_t⟩ := notified
  refine ⟨call, on, ?_⟩
  rw [wakes.others t (by simp [at_t]), at_t]

/-- Where nobody is notified, everyone may stay where they are. -/
theorem Wakes.of_nobody {notify : ξ → Notify} (nobody : ∀ c, notify c = .nobody)
    (phase : τ → Phase κ) : M.Wakes notify phase phase where
  others _ _ := rfl
  sleepers _ _ asleep := Or.inl asleep
  nobody _ _ _ _ := rfl
  one c one := by simp [nobody] at one
  all c all := by simp [nobody] at all

section Elsewhere

variable [DecidableEq τ] {phase : τ → Phase κ} {c : ξ} {t u : τ} {now : Phase κ}

private theorem sleepsOn_update_ne (other : u ≠ t) :
    M.SleepsOn (Function.update phase t now) c u ↔ M.SleepsOn phase c u := by
  simp [SleepsOn, other]

private theorem notifiedOn_update_ne (other : u ≠ t) :
    M.NotifiedOn (Function.update phase t now) c u ↔ M.NotifiedOn phase c u := by
  simp [NotifiedOn, other]

end Elsewhere

/-- A notified thread that leaves has taken one of what is available. -/
private theorem card_erase_covers [DecidableEq τ] {left k : ℕ∞} {p : Prop} [Decidable p]
    {notified : Finset τ} {t : τ} (takes : t ∈ notified → p)
    (enough : left + (if p then 1 else 0) ≤ notified.card + k) :
    left ≤ (notified.erase t).card + k := by
  by_cases member : t ∈ notified
  · rw [if_pos (takes member), ← Finset.card_erase_add_one member] at enough
    push_cast at enough
    rw [add_right_comm] at enough
    exact (ENat.add_le_add_iff_right ENat.one_ne_top).mp enough
  · rw [Finset.erase_eq_of_notMem member]
    exact le_trans le_self_add enough

section Runs

variable [DecidableEq τ] [DecidableEq ξ] {available : ξ → σ → ℕ∞}

/-- A section that keeps its thread waiting. -/
private theorem covered_waits (accounts : M.Accounts available) {s : State τ σ κ} {t : τ} {call : κ}
    {phase : τ → Phase κ} (inside : (s.phase t).running? = some call)
    (wakes : M.Wakes (M.notifies s.shared call) s.phase phase)
    (waits : (M.body s.shared call).2 = none) (inv : M.Covered available s) :
    M.Covered available
      ⟨(M.body s.shared call).1, none, Function.update phase t (.asleep call)⟩ := by
  obtain ⟨same, waited, on_waited, nothing⟩ := accounts.waits s.shared call waits
  rw [same]
  intro c u sleeps
  by_cases own : M.condition call = some c
  · obtain rfl : waited = c := Option.some.inj (on_waited.symm.trans own)
    exact ⟨∅, by simp, by simp [nothing]⟩
  · have other : u ≠ t := by
      rintro rfl
      obtain ⟨before, on, asleep⟩ := sleeps
      simp only [Function.update_self, Phase.asleep.injEq] at asleep
      exact own (asleep ▸ on)
    rw [sleepsOn_update_ne other] at sleeps
    obtain ⟨notified, counted, enough⟩ := inv c u (wakes.sleepsOn sleeps)
    refine ⟨notified, fun v member => ?_, enough⟩
    have elsewhere : v ≠ t := by
      rintro rfl
      obtain ⟨before, on, at_v⟩ := counted v member
      rw [at_v] at inside
      exact own (Option.some.inj inside ▸ on)
    rw [notifiedOn_update_ne elsewhere]
    exact wakes.notifiedOn (counted v member)

/-- A section that leaves the monitor. -/
private theorem covered_leaves (accounts : M.Accounts available) {s : State τ σ κ} {t : τ}
    {call : κ} {reply : ρ} {phase : τ → Phase κ} (inside : (s.phase t).running? = some call)
    (wakes : M.Wakes (M.notifies s.shared call) s.phase phase)
    (leaves : (M.body s.shared call).2 = some reply) (inv : M.Covered available s) :
    M.Covered available ⟨(M.body s.shared call).1, none, Function.update phase t .outside⟩ := by
  intro c u sleeps
  have other : u ≠ t := by
    rintro rfl
    obtain ⟨before, -, asleep⟩ := sleeps
    simp at asleep
  rw [sleepsOn_update_ne other] at sleeps
  have slept := wakes.sleepsOn sleeps
  obtain ⟨notified, counted, enough⟩ := inv c u slept
  have takes : t ∈ notified → M.condition call = some c := by
    intro member
    obtain ⟨before, on, at_t⟩ := counted t member
    rw [at_t] at inside
    exact Option.some.inj inside ▸ on
  -- those that were notified before, the thread itself apart, still are
  have remain : ∀ v ∈ notified.erase t,
      M.NotifiedOn (Function.update phase t .outside) c v := by
    intro v member
    rw [notifiedOn_update_ne (Finset.ne_of_mem_erase member)]
    exact wakes.notifiedOn (counted v (Finset.mem_of_mem_erase member))
  have not_all : M.notifies s.shared call c ≠ .all := by
    intro everyone
    obtain ⟨now, -, notified_now⟩ := wakes.all c everyone u slept
    obtain ⟨before, -, asleep⟩ := sleeps
    rw [notified_now] at asleep
    cases asleep
  rcases accounts.leaves s.shared call reply leaves c with everyone | balance
  · exact absurd everyone not_all
  have room := card_erase_covers takes (balance.trans (add_le_add_left enough _))
  cases notify : M.notifies s.shared call c with
  | all => exact absurd notify not_all
  | nobody => exact ⟨notified.erase t, remain, by simpa [notify] using room⟩
  | one =>
    obtain ⟨woken, was_asleep, now_notified, -⟩ := wakes.one c notify u slept
    have not_self : woken ≠ t := by
      rintro rfl
      obtain ⟨before, -, asleep⟩ := was_asleep
      rw [asleep] at inside
      cases inside
    have fresh : woken ∉ notified.erase t := by
      intro member
      obtain ⟨before, -, at_woken⟩ := counted woken (Finset.mem_of_mem_erase member)
      obtain ⟨asleep_call, -, asleep⟩ := was_asleep
      rw [asleep] at at_woken
      cases at_woken
    refine ⟨insert woken (notified.erase t), ?_, ?_⟩
    · rw [Finset.forall_mem_insert, notifiedOn_update_ne not_self]
      exact ⟨now_notified, remain⟩
    · rw [Finset.card_insert_of_notMem fresh]
      simpa [notify] using room

omit [DecidableEq ξ] in
/-- A thread that moves without going to sleep, and was not notified, changes nothing. -/
private theorem covered_update {s : State τ σ κ} {t : τ} {now : Phase κ}
    (awake : ∀ call, now ≠ .asleep call) (unnotified : ∀ call, s.phase t ≠ .notified call)
    (inv : M.Covered available s) :
    M.Covered available { s with phase := Function.update s.phase t now } := by
  intro c u sleeps
  have other : u ≠ t := by
    rintro rfl
    obtain ⟨before, -, asleep⟩ := sleeps
    exact awake before (by simpa using asleep)
  rw [sleepsOn_update_ne other] at sleeps
  obtain ⟨notified, counted, enough⟩ := inv c u sleeps
  refine ⟨notified, fun v member => ?_, enough⟩
  have elsewhere : v ≠ t := by
    rintro rfl
    obtain ⟨before, -, at_v⟩ := counted v member
    exact unnotified before at_v
  rw [notifiedOn_update_ne elsewhere]
  exact counted v member

theorem step_covered (accounts : M.Accounts available) {s s' : State τ σ κ} {event : Event τ κ ρ}
    (inv : M.Covered available s) (step : M.Step s event s') : M.Covered available s' := by
  cases step with
  | calls thread call outside => exact covered_update (by simp) (by simp [outside]) inv
  | acquires thread call free contends => exact inv
  | runs thread call phase holds inside wakes =>
    cases ending : (M.body s.shared call).2 with
    | none => exact covered_waits accounts inside wakes ending inv
    | some reply => exact covered_leaves accounts inside wakes ending inv
  | wakesUp thread call asleep => exact covered_update (by simp) (by simp [asleep]) inv

theorem run_covered (accounts : M.Accounts available) {shared : σ} {trace : List (Event τ κ ρ)}
    {s : State τ σ κ} (run : Run M.Step { shared } trace s) : M.Covered available s := by
  have start : M.Covered available ({ shared } : State τ σ κ) := by
    rintro c t ⟨call, -, asleep⟩
    cases asleep
  exact Run.invariant (fun _ s => M.Covered available s) start (step_covered accounts) run

private theorem step_asleep_condition (accounts : M.Accounts available) {s s' : State τ σ κ}
    {event : Event τ κ ρ}
    (inv : ∀ t call, s.phase t = .asleep call → ∃ c, M.condition call = some c)
    (step : M.Step s event s') {t : τ} {call : κ} (asleep : s'.phase t = .asleep call) :
    ∃ c, M.condition call = some c := by
  cases step with
  | calls thread called outside =>
    by_cases same : t = thread
    · simp [same] at asleep
    · exact inv t call (by simpa [same] using asleep)
  | acquires => exact inv t call asleep
  | runs thread ran phase holds inside wakes =>
    by_cases same : t = thread
    · subst same
      cases ending : (M.body s.shared ran).2 with
      | none =>
        obtain ⟨-, c, on, -⟩ := accounts.waits s.shared ran ending
        simp only [ending, Phase.after, Function.update_self, Phase.asleep.injEq] at asleep
        exact ⟨c, asleep ▸ on⟩
      | some reply => simp [ending, Phase.after] at asleep
    · exact inv t call (wakes.asleep (by simpa [same] using asleep))
  | wakesUp thread woken was_asleep =>
    by_cases same : t = thread
    · simp [same] at asleep
    · exact inv t call (by simpa [same] using asleep)

/-- A thread sleeps only in a call that waits on some condition variable. -/
theorem asleep_condition (accounts : M.Accounts available) {shared : σ}
    {trace : List (Event τ κ ρ)} {s : State τ σ κ} (run : Run M.Step { shared } trace s) {t : τ}
    {call : κ} (asleep : s.phase t = .asleep call) : ∃ c, M.condition call = some c := by
  have start : ∀ t call, ({ shared } : State τ σ κ).phase t = .asleep call →
      ∃ c, M.condition call = some c := by
    intro t call asleep
    cases asleep
  exact Run.invariant (fun _ s => ∀ t call, s.phase t = .asleep call →
    ∃ c, M.condition call = some c) start
    (fun inv step _ _ asleep => step_asleep_condition accounts inv step asleep) run t call asleep

/-- No lost wakeup: where a thread sleeps and nobody is notified, there is nothing to do. -/
theorem available_eq_zero (accounts : M.Accounts available) {shared : σ}
    {trace : List (Event τ κ ρ)} {s : State τ σ κ} (run : Run M.Step { shared } trace s) {c : ξ}
    {t : τ} (sleeps : M.SleepsOn s.phase c t) (quiet : ∀ u, ¬ M.NotifiedOn s.phase c u) :
    available c s.shared = 0 := by
  obtain ⟨notified, counted, enough⟩ := run_covered accounts run c t sleeps
  have nobody : notified = ∅ := Finset.eq_empty_of_forall_notMem fun u member =>
    quiet u (counted u member)
  simpa [nobody] using enough

end Runs

end Monitor
