import AisPipeline.Lib.PollingEffect

/-!
# A source that is polled

A component with a polling effect beside a source that changes on its own. A
request is answered from the source as it is at some moment, and the answer may
be long on its way or lost. Still what is shown never goes back: each answer was
read after the one it takes the place of.
-/
namespace PolledSource

open PollingEffect Transition

variable {σ ε δ α η ρ : Type*}

/-- The answers that have been read and not yet arrived, by the instance that asked. -/
structure System (σ δ η ρ : Type*) where
  source : σ
  page : State δ η
  answers : List (Nat × ρ) := []

inductive Event (ε δ α : Type*) where
  | source (event : ε)
  | page (event : PollingEffect.Event δ α)
  | answered

/-- What the source does and may answer, and what an outcome brings. -/
structure Protocol (σ ε δ α ρ : Type*) where
  moves : σ → ε → σ → Prop
  answers : σ → δ → ρ → Prop
  brought : α → Option ρ

section

variable [DecidableEq δ] (P : Protocol σ ε δ α ρ) (E : PollingEffect δ α η)

/-- A request that settles brings an answer that was read for it, or none; either way the answer is
on its way no longer. -/
inductive Step : System σ δ η ρ → Event ε δ α → System σ δ η ρ → Prop where
  | moves (s : System σ δ η ρ) (event : ε) (source : σ) (move : P.moves s.source event source) :
      Step s (.source event) { s with source := source }
  | answers (s : System σ δ η ρ) (i : Nat) (x : Instance δ) (found : ρ) (out : i ∈ s.page.requests)
      (known : s.page.instances[i]? = some x) (read : P.answers s.source x.deps found) :
      Step s .answered { s with answers := s.answers ++ [(i, found)] }
  | shows (s : System σ δ η ρ) (event : PollingEffect.Event δ α) (page : State δ η)
      (step : E.Step s.page event page)
      (honest : ∀ i outcome found, event = .requestSettled i outcome →
        P.brought outcome = some found → (i, found) ∈ s.answers) :
      Step s (.page event)
        { s with page := page, answers := s.answers.filter fun answer => answer.1 ∈ page.requests }

def initial (source : σ) : System σ δ η ρ where
  source := source
  page := E.start

end

/-- What the source did. -/
def sourceTrace (labels : List (Event ε δ α)) : List ε :=
  labels.filterMap fun
    | .source event => some event
    | .page _ | .answered => none

section

variable [DecidableEq δ] {P : Protocol σ ε δ α ρ} {E : PollingEffect δ α η}

/-- The source goes its own way. -/
theorem run_source {labels : List (Event ε δ α)} {s t : System σ δ η ρ}
    (run : Run (Step P E) s labels t) : Run P.moves s.source (sourceTrace labels) t.source := by
  induction labels generalizing s with
  | nil =>
    obtain rfl := run
    rfl
  | cons label labels ih =>
    obtain ⟨middle, step, rest⟩ := run
    have later := ih rest
    cases step with
    | moves event source move => exact ⟨source, move, later⟩
    | answers i x found out known read => exact later
    | shows event page step honest => exact later

/-- The page may wait. -/
theorem run_of_source {trace : List ε} {source after : σ} (page : State δ η) (answers : List (Nat × ρ))
    (run : Run P.moves source trace after) :
    Run (Step P E) ⟨source, page, answers⟩ (trace.map .source) ⟨after, page, answers⟩ := by
  induction trace generalizing source with
  | nil =>
    obtain rfl := run
    rfl
  | cons event trace ih =>
    obtain ⟨middle, move, rest⟩ := run
    exact ⟨_, .moves _ event middle move, ih rest⟩

omit [DecidableEq δ] in
theorem sourceTrace_map (trace : List ε) :
    sourceTrace (trace.map (.source : ε → Event ε δ α)) = trace := by
  rw [sourceTrace, List.filterMap_map]
  exact List.filterMap_some

end

/-- A component that displays the last answer which was not superseded, or is blank. `fine` says that
its last request did not fail. -/
structure Shows (P : Protocol σ ε δ α ρ) (E : PollingEffect δ α η) (Displays : η → δ → ρ → Prop)
    (blank fine : η → Prop) : Prop where
  guarded : E.Guarded
  initial : blank E.initial
  brings : ∀ deps outcome state source found, P.brought outcome = some found → P.answers source deps found →
    Displays (E.settled deps false outcome state).1 deps found
  keeps : ∀ deps outcome state, P.brought outcome = none →
    E.settled deps false outcome state = (state, false) ∨
    ¬ fine (E.settled deps false outcome state).1 ∧
      (blank state → blank (E.settled deps false outcome state).1) ∧
      ∀ asked found, Displays state asked found →
        Displays (E.settled deps false outcome state).1 asked found ∨ blank (E.settled deps false outcome state).1

/-! ### One step -/

variable [DecidableEq δ] {P : Protocol σ ε δ α ρ} {E : PollingEffect δ α η}
  {Displays : η → δ → ρ → Prop} {blank fine : η → Prop}

/-- What was there and is mounted was mounted before. -/
theorem mounted_of_step {s t : State δ η} {event : PollingEffect.Event δ α} (step : E.Step s event t)
    {i : Nat} {x : Instance δ} (known : s.instances[i]? = some x) (mounted : t.mounted = some i) :
    s.mounted = some i := by
  by_contra other
  exact (CleanedUp.step ⟨(List.getElem?_eq_some_iff.mp known).1, other⟩ step).2 mounted

private theorem timer_runEffects {s : State δ η} {i : Nat} {y : Instance δ}
    (here : (E.runEffects s).instances[i]? = some y) (set : y.timer ≠ none) :
    ∃ x, s.instances[i]? = some x ∧ x.timer ≠ none := by
  have cleaned (known : s.cleanUp.instances[i]? = some y) :
      ∃ x, s.instances[i]? = some x ∧ x.timer ≠ none := by
    rw [getElem?_cleanUp, Option.map_eq_some_iff] at known
    obtain ⟨x, known, rfl⟩ := known
    refine ⟨x, known, ?_⟩
    split at set
    · exact set
    · exact set
  rcases E.runEffects_cases s with ⟨same, -⟩ | ⟨deps, -, ran⟩
  · exact ⟨y, same ▸ here, set⟩
  · rw [ran, setUp] at here
    split at here
    · rw [List.getElem?_append] at here
      split at here
      · exact cleaned here
      · rw [List.mem_singleton.mp (List.mem_of_getElem? here)] at set
        exact absurd rfl set
    · exact cleaned here

/-- An instance has a timer only once a request of it has settled. -/
theorem timer_of_step {s t : State δ η} {event : PollingEffect.Event δ α} (step : E.Step s event t)
    (quiet : ∀ i outcome, event ≠ .requestSettled i outcome) {i : Nat} {y : Instance δ}
    (here : t.instances[i]? = some y) (set : y.timer ≠ none) :
    ∃ x, s.instances[i]? = some x ∧ x.timer ≠ none := by
  cases step with
  | renders deps may => exact timer_runEffects here set
  | changes deps =>
    obtain ⟨x, known, before⟩ := timer_runEffects here set
    exact timer_runEffects (E := E) (s := s) known before
  | runsEffects => exact timer_runEffects here set
  | unmounts =>
    rw [getElem?_cleanUp, Option.map_eq_some_iff] at here
    obtain ⟨x, known, rfl⟩ := here
    refine timer_runEffects known ?_
    split at set
    · exact set
    · exact set
  | settles j x outcome out known => exact absurd rfl (quiet j outcome)
  | fires timer j armed => exact ⟨y, here, set⟩

/-- The state of the page changes only when a request of the mounted instance settles. -/
theorem Step.page_state (guarded : E.Guarded) {s t : System σ δ η ρ} {event : Event ε δ α}
    (tidy : Tidy s.page) (step : Step P E s event t) :
    (∃ i outcome, ∃ x : Instance δ, event = .page (.requestSettled i outcome) ∧ s.page.mounted = some i ∧
      t.page.state = (E.settled x.deps false outcome s.page.state).1) ∨
    (t.page.state = s.page.state ∧
      ∀ i outcome, event = .page (.requestSettled i outcome) → s.page.mounted ≠ some i) := by
  cases step with
  | moves event source move => exact .inr ⟨rfl, by nofun⟩
  | answers i x found out known read => exact .inr ⟨rfl, by nofun⟩
  | shows event page step honest =>
    by_cases settles : ∃ i outcome, event = .requestSettled i outcome
    · obtain ⟨i, outcome, rfl⟩ := settles
      cases step with
      | settles _ x _ out known =>
        by_cases mounted : s.page.mounted = some i
        · obtain ⟨y, same, alive, -⟩ := tidy.live i mounted
          obtain rfl := Option.some.inj (known.symm.trans same)
          refine .inl ⟨i, outcome, x, rfl, mounted, ?_⟩
          simp only [settle_state, alive]
        · refine .inr ⟨?_, fun j other same => ?_⟩
          · simp only [guarded.settle_cancelled (tidy.cancelled i x known mounted) outcome]
          · cases same
            exact mounted
    · push Not at settles
      refine .inr ⟨step.state_eq settles, fun i outcome same => ?_⟩
      cases same
      exact absurd rfl (settles i outcome)

/-- What is shown was read at the moment `at_`, and what is on its way to the mounted instance was
read at that moment or later. -/
structure Reads (P : Protocol σ ε δ α ρ) (E : PollingEffect δ α η) (Displays : η → δ → ρ → Prop)
    (blank fine : η → Prop) (sources : Nat → σ) (now at_ : Nat) (s : System σ δ η ρ) : Prop where
  tidy : Tidy s.page
  past : at_ ≤ now
  owners : ∀ answer ∈ s.answers, ∃ x, s.page.instances[answer.1]? = some x
  pending : ∀ i found x, (i, found) ∈ s.answers → s.page.mounted = some i →
    s.page.instances[i]? = some x →
    ∃ moment, at_ ≤ moment ∧ moment ≤ now ∧ P.answers (sources moment) x.deps found
  display : blank s.page.state ∨
    ∃ deps found, P.answers (sources at_) deps found ∧ Displays s.page.state deps found
  current : ∀ i x, s.page.mounted = some i → s.page.instances[i]? = some x → x.timer ≠ none →
    fine s.page.state → ∃ found, P.answers (sources at_) x.deps found ∧ Displays s.page.state x.deps found

variable {sources : Nat → σ} {now at_ : Nat} {s t : System σ δ η ρ} {event : Event ε δ α}

omit [DecidableEq δ] in
theorem reads_initial (behaves : Shows P E Displays blank fine) (source : σ) :
    Reads P E Displays blank fine sources 0 0 (initial E source) where
  tidy := tidy_start
  past := Nat.le_refl 0
  owners := by rintro answer ⟨⟩
  pending := by rintro i found x ⟨⟩
  display := .inl behaves.initial
  current := by rintro i x ⟨⟩

/-- A step of the page that leaves the state alone and sets no timer of an instance. -/
private theorem Reads.quiet (reads : Reads P E Displays blank fine sources now at_ s) (guarded : E.Guarded)
    {event : PollingEffect.Event δ α} {page : State δ η} (step : E.Step s.page event page)
    (state : page.state = s.page.state)
    (timers : ∀ (i : Nat) (y : Instance δ), page.instances[i]? = some y → y.timer ≠ none →
      ∃ x : Instance δ, s.page.instances[i]? = some x ∧ x.timer ≠ none) :
    Reads P E Displays blank fine sources (now + 1) at_
      { s with page := page, answers := s.answers.filter fun answer => answer.1 ∈ page.requests } where
  tidy := step.tidy guarded reads.tidy
  past := Nat.le_succ_of_le reads.past
  owners answer member := by
    obtain ⟨x, known⟩ := reads.owners answer (List.mem_of_mem_filter member)
    obtain ⟨y, kept, -⟩ := step.keeps answer.1 x known
    exact ⟨y, kept⟩
  pending i found y member mounted here := by
    have before := List.mem_of_mem_filter member
    obtain ⟨x, known⟩ := reads.owners _ before
    have mine := mounted_of_step step known mounted
    obtain ⟨moment, later, past, read⟩ := reads.pending i found x before mine known
    obtain ⟨z, kept, same⟩ := step.keeps i x known
    obtain rfl := Option.some.inj (kept.symm.trans here)
    exact ⟨moment, later, Nat.le_succ_of_le past, same ▸ read⟩
  display := by
    rw [state]
    exact reads.display
  current i y mounted here set ok := by
    rw [state] at ok ⊢
    obtain ⟨x, known, before⟩ := timers i y here set
    have mine := mounted_of_step step known mounted
    obtain ⟨z, kept, same⟩ := step.keeps i x known
    obtain rfl := Option.some.inj (kept.symm.trans here)
    rw [same]
    exact reads.current i x mine known before ok

omit [DecidableEq δ] in
private theorem requests_settle (i : Nat) (x : Instance δ) (outcome : α) (s : State δ η) :
    (E.settle i x outcome s).requests = s.requests.erase i := by
  simp only [settle]
  split
  · rfl
  · rfl

/-- A request of the mounted instance settles: an answer takes the place of what is shown. -/
private theorem Reads.settles (reads : Reads P E Displays blank fine sources now at_ s)
    (behaves : Shows P E Displays blank fine) {i : Nat} {x : Instance δ} {outcome : α}
    (out : i ∈ s.page.requests) (known : s.page.instances[i]? = some x)
    (mounted : s.page.mounted = some i)
    (honest : ∀ found, P.brought outcome = some found → (i, found) ∈ s.answers) :
    ∃ later, at_ ≤ later ∧ Reads P E Displays blank fine sources (now + 1) later
      { s with
        page := E.settle i x outcome s.page
        answers := s.answers.filter fun answer => answer.1 ∈ (E.settle i x outcome s.page).requests } := by
  have step : E.Step s.page (.requestSettled i outcome) (E.settle i x outcome s.page) :=
    .settles s.page i x outcome out known
  have alive : x.cancelled = false := by
    obtain ⟨y, same, alive, -⟩ := reads.tidy.live i mounted
    obtain rfl := Option.some.inj (known.symm.trans same)
    exact alive
  have owners : ∀ answer ∈ s.answers.filter fun answer =>
      answer.1 ∈ (E.settle i x outcome s.page).requests,
      ∃ y, (E.settle i x outcome s.page).instances[answer.1]? = some y := by
    intro answer member
    obtain ⟨y, here⟩ := reads.owners answer (List.mem_of_mem_filter member)
    obtain ⟨z, kept, -⟩ := step.keeps answer.1 y here
    exact ⟨z, kept⟩
  -- the instance had one request out, so nothing is on its way to it any more
  have done (j : Nat) (found : ρ) (member : (j, found) ∈ s.answers.filter fun answer =>
      answer.1 ∈ (E.settle i x outcome s.page).requests)
      (same : (E.settle i x outcome s.page).mounted = some j) : False := by
    rw [settle_mounted, mounted] at same
    obtain rfl := Option.some.inj same
    have again : i ∈ s.page.requests.erase i := by
      simpa [requests_settle] using (List.mem_filter.mp member).2
    have single := reads.tidy.single i mounted
    have counted := List.count_pos_iff.mpr again
    rw [List.count_erase_self] at counted
    omega
  have deps (y : Instance δ) (here : (E.settle i x outcome s.page).instances[i]? = some y) :
      y.deps = x.deps := by
    obtain ⟨z, kept, same⟩ := step.keeps i x known
    obtain rfl := Option.some.inj (kept.symm.trans here)
    exact same
  have state : (E.settle i x outcome s.page).state = (E.settled x.deps false outcome s.page.state).1 := by
    rw [settle_state, alive]
  cases brings : P.brought outcome with
  | some found =>
    obtain ⟨moment, later, past, read⟩ := reads.pending i found x (honest found brings) mounted known
    have display : Displays (E.settle i x outcome s.page).state x.deps found := by
      rw [state]
      exact behaves.brings _ _ _ _ found brings read
    refine ⟨moment, later, ?_⟩
    exact {
      tidy := step.tidy behaves.guarded reads.tidy
      past := Nat.le_succ_of_le past
      owners := owners
      pending := fun j found y member same _ => (done j found member same).elim
      display := .inr ⟨x.deps, found, read, display⟩
      current := fun j y same here _ _ => by
        rw [settle_mounted, mounted] at same
        obtain rfl := Option.some.inj same
        rw [deps y here]
        exact ⟨found, read, display⟩ }
  | none =>
    refine ⟨at_, Nat.le_refl _, ?_⟩
    rcases behaves.keeps x.deps outcome s.page.state brings with nothing | ⟨failed, stays, kept⟩
    · -- nothing has happened
      have quiet : E.settle i x outcome s.page = { s.page with requests := s.page.requests.erase i } := by
        rw [settle, alive, nothing]
        rfl
      refine reads.quiet behaves.guarded step ?_ fun j y here set => ⟨y, ?_, set⟩
      · rw [quiet]
      · rwa [quiet] at here
    · exact {
        tidy := step.tidy behaves.guarded reads.tidy
        past := Nat.le_succ_of_le reads.past
        owners := owners
        pending := fun j found y member same _ => (done j found member same).elim
        display := by
          rw [state]
          rcases reads.display with empty | ⟨asked, found, read, shown⟩
          · exact .inl (stays empty)
          · exact (kept asked found shown).symm.imp_right fun shown => ⟨asked, found, read, shown⟩
        current := fun j y _ _ _ ok => absurd (state ▸ ok) failed }

theorem Reads.step (reads : Reads P E Displays blank fine sources now at_ s) (behaves : Shows P E Displays blank fine)
    (present : sources now = s.source) (step : Step P E s event t) :
    ∃ later, at_ ≤ later ∧ Reads P E Displays blank fine sources (now + 1) later t := by
  cases step with
  | moves event source move =>
    refine ⟨at_, Nat.le_refl _, reads.tidy, Nat.le_succ_of_le reads.past, reads.owners, ?_,
      reads.display, reads.current⟩
    intro i found x member mounted known
    obtain ⟨moment, later, past, read⟩ := reads.pending i found x member mounted known
    exact ⟨moment, later, Nat.le_succ_of_le past, read⟩
  | answers i x found out known read =>
    refine ⟨at_, Nat.le_refl _, reads.tidy, Nat.le_succ_of_le reads.past, ?_, ?_, reads.display,
      reads.current⟩
    · intro answer member
      rcases List.mem_append.mp member with before | new
      · exact reads.owners answer before
      · rw [List.mem_singleton.mp new]
        exact ⟨x, known⟩
    · intro j other y member mounted here
      rcases List.mem_append.mp member with before | new
      · obtain ⟨moment, later, past, read⟩ := reads.pending j other y before mounted here
        exact ⟨moment, later, Nat.le_succ_of_le past, read⟩
      · obtain ⟨rfl, rfl⟩ := Prod.mk.inj (List.mem_singleton.mp new)
        obtain rfl := Option.some.inj (known.symm.trans here)
        exact ⟨now, reads.past, Nat.le_succ now, by rwa [present]⟩
  | shows event page step honest =>
    by_cases settles : ∃ i outcome, event = .requestSettled i outcome
    · obtain ⟨i, outcome, rfl⟩ := settles
      cases step with
      | settles _ x _ out known =>
        by_cases mounted : s.page.mounted = some i
        · exact reads.settles behaves out known mounted fun found => honest i outcome found rfl
        · -- a cancelled instance does nothing
          have silent : E.settle i x outcome s.page = _ :=
            behaves.guarded.settle_cancelled (reads.tidy.cancelled i x known mounted) outcome
          refine ⟨at_, Nat.le_refl _, reads.quiet behaves.guarded
            (.settles s.page i x outcome out known) ?_ fun j y here set => ⟨y, ?_, set⟩⟩
          · rw [silent]
          · rwa [silent] at here
    · push Not at settles
      exact ⟨at_, Nat.le_refl _, reads.quiet behaves.guarded step (step.state_eq settles)
        fun i y here set => timer_of_step step settles here set⟩

/-! ### Whole runs -/

/-- What is shown along a run was read at moments that never go back. -/
theorem reads_along (behaves : Shows P E Displays blank fine) {labels : List (Event ε δ α)}
    {states : Nat → System σ δ η ρ} {source : σ} (start : states 0 = initial E source)
    (along : Along (Step P E) states labels) :
    ∃ read : Nat → Nat, Monotone read ∧ ∀ k ≤ labels.length,
      Reads P E Displays blank fine (fun k => (states k).source) k (read k) (states k) := by
  let Holds (k at_ : Nat) : Prop :=
    Reads P E Displays blank fine (fun k => (states k).source) k at_ (states k)
  have first : Holds 0 0 := by
    simp only [Holds, start]
    exact reads_initial behaves source
  exact @exists_monotone Holds labels.length 0 first fun k within at_ reads =>
    reads.step behaves rfl (along k _ (List.getElem?_eq_getElem within))

end PolledSource
