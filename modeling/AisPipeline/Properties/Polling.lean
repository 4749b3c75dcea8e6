import AisPipeline.Web.Hooks

/-!
# Superseded polls

What the two hooks do in every run, whatever settles, fires and changes in
which order.
-/
namespace Ais

open PollingEffect Transition

theorem usePositions_guarded : usePositions.Guarded := by
  intro deps outcome state
  cases outcome with
  | success data now => rfl
  | failure err => rfl

theorem useHistory_guarded : useHistory.Guarded := by
  intro deps outcome data
  simp only [useHistory, UseHistory.settled]
  cases deps.mmsi with
  | none => rfl
  | some selected =>
    cases outcome with
    | success records now => rfl
    | failure err => rfl

/-! ### What a hook promises -/

section Hook

variable {δ η : Type} [DecidableEq δ] (E : PollingEffect δ FetchOutcome η)

/-- In every run: once the cleanup of an instance has run, a request of it that settles changes no
state and sets no timer; only the request is no longer out. -/
def Silences : Prop :=
  ∀ (before after : List (Event δ FetchOutcome)) (s s' t t' : State δ η) (event : Event δ FetchOutcome)
    (i : Nat) (outcome : FetchOutcome), Run E.Step E.start before s → E.Step s event s' →
    s.mounted = some i → s'.mounted ≠ some i → Run E.Step s' after t →
    E.Step t (.requestSettled i outcome) t' → t' = { t with requests := t.requests.erase i }

/-- In every run at most one request or timer is out for the instance that is not cleaned up. -/
def PollsOnce : Prop :=
  ∀ (trace : List (Event δ FetchOutcome)) (s : State δ η), Run E.Step E.start trace s → outstanding s ≤ 1

/-- In every run a request that fails leaves the records the hook returns as they are. -/
def KeepsOnFailure (records : State δ η → List PositionRecord) : Prop :=
  ∀ (trace : List (Event δ FetchOutcome)) (s t : State δ η) (i : Nat) (err : FetchError),
    Run E.Step E.start trace s → E.Step s (.requestSettled i (.failure err)) t → records t = records s

theorem silences {E : PollingEffect δ FetchOutcome η} (guarded : E.Guarded) : Silences E :=
  fun _ _ _ _ _ _ _ _ _ run cleans mounted unmounted later settles =>
    run_silent guarded run cleans mounted unmounted later settles

theorem pollsOnce {E : PollingEffect δ FetchOutcome η} (guarded : E.Guarded) : PollsOnce E :=
  fun _ _ run => (run_tidy guarded run).outstanding_le

end Hook

/-! ### The records of usePositions -/

theorem usePositions_keepsOnFailure : KeepsOnFailure usePositions fun s => s.state.records := by
  intro trace s t i err run step
  cases step with
  | settles _ x _ out known =>
    simp only [settle_state, usePositions, UsePositions.settled]
    cases x.cancelled with
    | true => rfl
    | false => rfl

/-! ### The records of useHistory -/

namespace UseHistory

theorem keptRecords_cases (selected : Int) (data : Option HistoryData) :
    keptRecords selected data = [] ∨
      ∃ previous, data = some previous ∧ previous.mmsi = selected ∧
        keptRecords selected data = previous.records := by
  cases data with
  | none => exact Or.inl rfl
  | some previous =>
    by_cases own : previous.mmsi = selected
    · exact Or.inr ⟨previous, rfl, own, if_pos own⟩
    · exact Or.inl (if_neg own)

/-- What the hook returns in a state: nothing is selected where nothing is rendered. -/
def shown (s : State Deps (Option HistoryData)) : HistoryState :=
  returned (s.rendered.bind Deps.mmsi) s.state

theorem returned_records (mmsi : Option Int) (data : Option HistoryData) :
    (returned mmsi data).records = match mmsi with
      | none => []
      | some selected => keptRecords selected data := by
  cases data with
  | none =>
    cases mmsi with
    | none => rfl
    | some selected => rfl
  | some data =>
    cases mmsi with
    | none => simp [returned, Option.filter]
    | some selected =>
      by_cases same : data.mmsi = selected
      · simp [returned, keptRecords, Option.filter, same]
      · simp [returned, keptRecords, Option.filter, same]

/-- A failed poll keeps what counts for its own ship. -/
theorem keptRecords_failure {deps : Deps} {selected : Int} (own : deps.mmsi = some selected)
    (err : FetchError) (data : Option HistoryData) :
    keptRecords selected (settled deps false (.failure err) data).1 = keptRecords selected data := by
  simp [settled, own, keptRecords]

theorem keepsOnFailure : KeepsOnFailure useHistory fun s => (shown s).records := by
  intro trace s t i err run step
  have tidy := run_tidy useHistory_guarded run
  have follows : Follows (fun before deps : Deps => deps.mmsi = none ∨ before.mmsi = deps.mmsi) s :=
    run_follows useHistory_guarded (fun _ => Or.inr rfl) (fun _ _ deferred => deferred) run
  cases step with
  | settles _ x _ out known =>
    by_cases mounted : s.mounted = some i
    -- the request is of the instance for what is shown, up to a selection taken away
    · obtain ⟨y, deps, here, rendered, related⟩ := follows i mounted
      obtain rfl : y = x := Option.some.inj (here.symm.trans known)
      obtain ⟨z, there, alive, -⟩ := tidy.live i mounted
      obtain rfl : z = y := Option.some.inj (there.symm.trans known)
      simp only [shown, settle_rendered, settle_state, rendered, Option.bind_some, returned_records]
      rcases related with nothing | same
      · rw [nothing]
      · rw [← same, alive]
        cases own : z.deps.mmsi with
        | none => rfl
        | some selected => exact keptRecords_failure own err s.state
    -- any other instance is cancelled
    · rw [useHistory_guarded.settle_cancelled (tidy.cancelled i x known mounted)]
      rfl

/-- What a settled request leaves as the data: what was there, its answer under the ship it asked for,
or what was kept of that ship. -/
theorem settled_cases (deps : Deps) (cancelled : Bool) (outcome : FetchOutcome)
    (data : Option HistoryData) :
    (settled deps cancelled outcome data).1 = data ∨
      ∃ selected, deps.mmsi = some selected ∧
        ((∃ records now, outcome = .success records now ∧
            (settled deps cancelled outcome data).1 = some ⟨selected, records, none⟩) ∨
          ∃ error, (settled deps cancelled outcome data).1 =
            some ⟨selected, keptRecords selected data, error⟩) := by
  cases own : deps.mmsi with
  | none => exact Or.inl (by simp only [settled, own])
  | some selected =>
    cases cancelled with
    | true =>
      left
      cases outcome with
      | success records now => simp [settled, own]
      | failure err => simp [settled, own]
    | false =>
      refine Or.inr ⟨selected, rfl, ?_⟩
      cases outcome with
      | success records now => exact Or.inl ⟨records, now, rfl, by simp [settled, own]⟩
      | failure err => exact Or.inr ⟨_, by simp only [settled, own]; rfl⟩

/-- The records were in an answer to a request for this ship. -/
def FetchedFor (trace : List (Event Deps FetchOutcome)) (s : State Deps (Option HistoryData)) (mmsi : Int)
    (records : List PositionRecord) : Prop :=
  ∃ i x now, Event.requestSettled i (.success records now) ∈ trace ∧ s.instances[i]? = some x ∧
    x.deps.mmsi = some mmsi

/-- The data is empty or was fetched for the ship it is labelled with. -/
def Labelled (trace : List (Event Deps FetchOutcome)) (s : State Deps (Option HistoryData)) : Prop :=
  ∀ data, s.state = some data → data.records = [] ∨ FetchedFor trace s data.mmsi data.records

theorem FetchedFor.step {trace : List (Event Deps FetchOutcome)} {s t : State Deps (Option HistoryData)}
    {mmsi : Int} {records : List PositionRecord} (fetched : FetchedFor trace s mmsi records)
    {event : Event Deps FetchOutcome} (step : useHistory.Step s event t) :
    FetchedFor (trace ++ [event]) t mmsi records := by
  obtain ⟨i, x, now, member, known, own⟩ := fetched
  obtain ⟨y, kept, same⟩ := step.keeps i x known
  exact ⟨i, y, now, List.mem_append_left _ member, kept, by rw [same, own]⟩

theorem Labelled.step {trace : List (Event Deps FetchOutcome)} {s t : State Deps (Option HistoryData)}
    (labelled : Labelled trace s) {event : Event Deps FetchOutcome} (step : useHistory.Step s event t) :
    Labelled (trace ++ [event]) t := by
  have carried (data : HistoryData) (unchanged : s.state = some data) :
      data.records = [] ∨ FetchedFor (trace ++ [event]) t data.mmsi data.records :=
    (labelled data unchanged).imp_right fun fetched => fetched.step step
  intro data now
  -- no other event touches the data
  by_cases settles : ∃ i outcome, event = .requestSettled i outcome
  · obtain ⟨i, outcome, rfl⟩ := settles
    cases step with
    | settles _ x _ out known =>
      have member : Event.requestSettled i outcome ∈ trace ++ [.requestSettled i outcome] := by simp
      rw [settle_state] at now
      rcases settled_cases x.deps x.cancelled outcome s.state with
        same | ⟨selected, own, ⟨records, time, rfl, answered⟩ | ⟨error, kept⟩⟩
      · exact carried data (same ▸ now)
      -- an answer is labelled with the ship its own instance asked for
      · obtain rfl := Option.some.inj (answered.symm.trans now)
        obtain ⟨y, later, deps⟩ := (Step.settles s i x _ out known : useHistory.Step s _ _).keeps i x known
        exact Or.inr ⟨i, y, time, member, later, by rw [deps, own]⟩
      -- a failure keeps records only under the label they had
      · obtain rfl := Option.some.inj (kept.symm.trans now)
        rcases keptRecords_cases selected s.state with nothing | ⟨previous, held, same, kept⟩
        · exact Or.inl nothing
        · rw [kept, ← same]
          exact carried previous held
  · push Not at settles
    exact carried data (step.state_eq settles ▸ now)

theorem run_labelled {trace : List (Event Deps FetchOutcome)} {s : State Deps (Option HistoryData)}
    (run : Run useHistory.Step useHistory.start trace s) : Labelled trace s := by
  have start : Labelled [] useHistory.start := by
    rintro data ⟨⟩
  exact Run.invariant Labelled start (fun labelled step => labelled.step step) run

/-- In every run the records returned for the selected ship are none, or were fetched for it. -/
def OwnTrack : Prop :=
  ∀ (trace : List (Event Deps FetchOutcome)) (s : State Deps (Option HistoryData)) (deps : Deps)
    (mmsi : Int), Run useHistory.Step useHistory.start trace s → s.rendered = some deps →
    deps.mmsi = some mmsi → (shown s).records = [] ∨ FetchedFor trace s mmsi (shown s).records

theorem ownTrack : OwnTrack := by
  intro trace s deps mmsi run rendered selected
  simp only [shown, rendered, Option.bind_some, selected, returned_records]
  rcases keptRecords_cases mmsi s.state with nothing | ⟨data, held, same, kept⟩
  · exact Or.inl nothing
  · rw [kept, ← same]
    exact run_labelled run data held

end UseHistory

/-- What has been superseded neither polls nor shows, and the track on display is that of the ship
that is selected. -/
theorem superseded_polls :
    (Silences usePositions ∧ PollsOnce usePositions ∧
      KeepsOnFailure usePositions fun s => s.state.records) ∧
    (Silences useHistory ∧ PollsOnce useHistory ∧
      KeepsOnFailure useHistory fun s => (UseHistory.shown s).records) ∧
    UseHistory.OwnTrack :=
  ⟨⟨silences usePositions_guarded, pollsOnce usePositions_guarded, usePositions_keepsOnFailure⟩,
    ⟨silences useHistory_guarded, pollsOnce useHistory_guarded, UseHistory.keepsOnFailure⟩,
    UseHistory.ownTrack⟩

/-- A ship is selected again after another one, and the answer to its first request comes late. -/
theorem superseded_polls_selected_again :
    ∃ s, Run useHistory.Step useHistory.start
        [.changed { mmsi := some 1 }, .changed { mmsi := some 2 }, .changed { mmsi := some 1 },
          .requestSettled 2 (.success [{ receivedAt := 7 }] 8), .requestSettled 0 (.success [] 9)] s ∧
      (UseHistory.shown s).records = [{ receivedAt := 7 }] ∧ outstanding s ≤ 1 := by
  -- instances 0 and 2 are those of ship 1; the answer to 2 comes first
  have run : Run useHistory.Step useHistory.start
      [.changed { mmsi := some 1 }, .changed { mmsi := some 2 }, .changed { mmsi := some 1 },
        .requestSettled 2 (.success [{ receivedAt := 7 }] 8), .requestSettled 0 (.success [] 9)] _ :=
    ⟨_, .changes _ _, _, .changes _ _, _, .changes _ _, _, .settles _ 2 _ _ (by decide) rfl,
      _, .settles _ 0 _ _ (by decide) rfl, rfl⟩
  exact ⟨_, run, rfl, superseded_polls.2.1.2.1 _ _ run⟩

end Ais
