import AisPipeline.Properties.RadarDisplay
import AisPipeline.Web.App

/-!
# When the header says live

An API that answers in time may still serve old positions, and a page may go on
showing its last answer. The header says neither is so only when the last poll
that counted has brought an answer in time, and among its ships is one that was
heard of lately.
-/
namespace Ais.App

open Cpp Display PolledSource PollingEffect Transition UsePositions SqliteWriter

/-! ### The page's state -/

variable {client : TcpClient} {capacity1 capacity2 : Nat} {labels : List Display.Event}
  {states : Nat → Display}

/-- A poll that was not superseded settles. -/
def Accepts (labels : List Display.Event) (states : Nat → Display) (j : Nat) (outcome : FetchOutcome) : Prop :=
  ∃ i, labels[j]? = some (.page (.requestSettled i outcome)) ∧ (states j).page.mounted = some i

/-- The state at a moment is what the last poll that counted has left. -/
structure Follows (labels : List Display.Event) (states : Nat → Display) (k : Nat) (state : PositionsState) :
    Prop where
  said : state.error ≠ some ""
  answered : state.error = none → state.loading = false →
    ∃ j < k, ∃ answeredAt, Accepts labels states j (.success state.records answeredAt) ∧
      state.lastUpdated = some answeredAt ∧
      ∀ later, j < later → later < k → ∀ outcome, ¬ Accepts labels states later outcome

theorem message_ne_empty (err : FetchError) : err.message "Could not reach the API: " ≠ "" := by
  intro same
  have size := congrArg String.length same
  cases err with
  | api status body => simp [FetchError.message] at size
  | other text => simp [FetchError.message] at size

theorem Follows.step {k : Nat} {label : Display.Event} (tidy : Tidy (states k).page)
    (here : labels[k]? = some label) (step : Display.Step client (states k) label (states (k + 1)))
    (follows : Follows labels states k (states k).page.state) :
    Follows labels states (k + 1) (states (k + 1)).page.state := by
  rcases step.page_state usePositions_guarded tidy with ⟨i, outcome, x, rfl, mounted, left⟩ | ⟨same, quiet⟩
  · rw [left]
    cases outcome with
    | success records now =>
      refine ⟨(Option.some_ne_none "").symm, fun _ _ => ⟨k, Nat.lt_succ_self k, now, ⟨i, here, mounted⟩, rfl, ?_⟩⟩
      intro later after before
      omega
    | failure err => exact ⟨mt Option.some.inj (message_ne_empty err), by nofun⟩
  · rw [same]
    refine ⟨follows.said, fun fine loaded => ?_⟩
    obtain ⟨j, before, answeredAt, accepts, updated, last⟩ := follows.answered fine loaded
    refine ⟨j, Nat.lt_succ_of_lt before, answeredAt, accepts, updated, fun later after within outcome => ?_⟩
    rcases Nat.lt_succ_iff_lt_or_eq.mp within with earlier | rfl
    · exact last later after earlier outcome
    · rintro ⟨i, settles, mounted⟩
      cases here.symm.trans settles
      exact quiet i outcome rfl mounted

theorem follows_along (start : states 0 = initial capacity1 capacity2)
    (along : Along (Display.Step client) states labels) {k : Nat} (within : k ≤ labels.length) :
    Follows labels states k (states k).page.state := by
  obtain ⟨read, -, reads⟩ := reads_along (usePositions_shows client) start along
  induction k with
  | zero =>
    rw [start]
    exact ⟨(Option.some_ne_none "").symm, fun _ loaded => by cases loaded⟩
  | succ k ih =>
    have here : labels[k]? = some labels[k] := List.getElem?_eq_getElem within
    exact (ih (Nat.le_of_succ_le within)).step (reads k (Nat.le_of_succ_le within)).tidy here (along k _ here)

/-! ### What the header says -/

variable {now : Int} {state : PositionsState}

/-- Of the ships the header speaks only when a poll has brought them lately. -/
theorem answered_of_feed (said : state.error ≠ some "")
    (speaks : feed now state = .live ∨ feed now state = .delayed) :
    state.error = none ∧ state.loading = false ∧
      ∀ answeredAt, state.lastUpdated = some answeredAt → now - answeredAt ≤ stalledAfterMs := by
  rw [feed] at speaks
  split at speaks
  next => rcases speaks with same | same <;> cases same
  next fine =>
    split at speaks
    next => rcases speaks with same | same <;> cases same
    next loaded =>
      split at speaks
      next => rcases speaks with same | same <;> cases same
      next recent =>
        refine ⟨?_, by simpa using loaded, fun answeredAt updated => ?_⟩
        · cases error : state.error with
          | none => rfl
          | some text =>
            rw [error, Option.getD_some, not_not] at fine
            exact absurd (error.trans (congrArg some fine)) said
        · rw [updated, Option.any_some, decide_eq_true_eq] at recent
          exact not_lt.mp recent

theorem newest_of_live (live : feed now state = .live) {newest : Int}
    (found : newestReport state.records = some newest) : (now : ℚ) / (1000 : Nat) - newest ≤ staleAfterSeconds := by
  simp only [feed] at live
  split at live
  · cases live
  split at live
  · cases live
  split at live
  · cases live
  split at live
  next => cases live
  next recent =>
    rw [newestAgeSeconds, found, Option.map_some, Option.any_some, decide_eq_true_eq] at recent
    exact not_lt.mp recent

theorem newest_of_delayed (delayed : feed now state = .delayed) :
    ∃ newest, newestReport state.records = some newest ∧ (now : ℚ) / (1000 : Nat) - newest > staleAfterSeconds := by
  simp only [feed] at delayed
  split at delayed
  · cases delayed
  split at delayed
  · cases delayed
  split at delayed
  · cases delayed
  split at delayed
  next old =>
    obtain ⟨age, found, old⟩ := (Option.any_eq_true _ _).mp old
    obtain ⟨newest, report, rfl⟩ := Option.map_eq_some_iff.mp found
    exact ⟨newest, report, of_decide_eq_true old⟩
  next => cases delayed

private theorem newest_bound (records : List PositionRecord) (first : Int) :
    first ≤ records.foldl (fun newest record => max newest record.receivedAt) first ∧
      ∀ record ∈ records,
        record.receivedAt ≤ records.foldl (fun newest record => max newest record.receivedAt) first := by
  induction records generalizing first with
  | nil => exact ⟨le_rfl, fun record member => absurd member List.not_mem_nil⟩
  | cons next records ih =>
    obtain ⟨below, later⟩ := ih (max first next.receivedAt)
    refine ⟨(le_max_left _ _).trans below, fun record member => ?_⟩
    rcases List.mem_cons.mp member with rfl | member
    · exact (le_max_right _ _).trans below
    · exact later record member

private theorem newest_cases (records : List PositionRecord) (first : Int) :
    records.foldl (fun newest record => max newest record.receivedAt) first = first ∨
      ∃ record ∈ records,
        records.foldl (fun newest record => max newest record.receivedAt) first = record.receivedAt := by
  induction records generalizing first with
  | nil => exact .inl rfl
  | cons next records ih =>
    rw [List.foldl_cons]
    rcases ih (max first next.receivedAt) with same | ⟨record, member, same⟩
    · rcases max_choice first next.receivedAt with left | right
      · exact .inl (same.trans left)
      · exact .inr ⟨next, List.mem_cons_self, same.trans right⟩
    · exact .inr ⟨record, List.mem_cons_of_mem _ member, same⟩

/-- The newest report is that of some record, unless all are from before the epoch. -/
theorem newestReport_spec {records : List PositionRecord} {newest : Int}
    (found : newestReport records = some newest) :
    feedCheckMinShips ≤ records.length ∧ (∀ record ∈ records, record.receivedAt ≤ newest) ∧
      (newest = 0 ∨ ∃ record ∈ records, newest = record.receivedAt) := by
  rw [newestReport] at found
  split at found
  next enough =>
    cases found
    exact ⟨enough, (newest_bound records 0).2, newest_cases records 0⟩
  next => cases found

/-- In every run of the pipeline, the API and the page, at every reading of the page's clock: the header
speaks of the ships only if the last poll that counted brought them, at most twenty seconds ago. Past the
first five minutes of the epoch it says live of five ships or more only if one of their reports was in a
batch that was committed in the last five minutes; and it says delayed only if all of them, five at least,
were received before that. -/
theorem header_is_honest (client : TcpClient) (capacity1 capacity2 : Nat) (labels : List Display.Event)
    (states : Nat → Display) (start : states 0 = initial capacity1 capacity2)
    (along : Along (Display.Step client) states labels) (k : Nat) (within : k ≤ labels.length) (now : Int) :
    (feed now (states k).page.state = .live ∨ feed now (states k).page.state = .delayed →
      ∃ j < k, ∃ answeredAt, Accepts labels states j (.success (states k).page.state.records answeredAt) ∧
        now - answeredAt ≤ stalledAfterMs ∧
        ∀ later, j < later → later < k → ∀ outcome, ¬ Accepts labels states later outcome) ∧
    (feed now (states k).page.state = .live → feedCheckMinShips ≤ (states k).page.state.records.length →
      staleAfterSeconds < (now : ℚ) / (1000 : Nat) →
      ∃ batch ∈ committedBy labels k, (now : ℚ) / (1000 : Nat) - batch.1 ≤ staleAfterSeconds ∧
        ∃ report, .positionReport report ∈ batch.2 ∧
          ∃ record ∈ (states k).page.state.records, record.report = stored report) ∧
    (feed now (states k).page.state = .delayed →
      feedCheckMinShips ≤ (states k).page.state.records.length ∧
      ∀ record ∈ (states k).page.state.records,
        (now : ℚ) / (1000 : Nat) - record.receivedAt > staleAfterSeconds) := by
  have follows := follows_along start along within
  refine ⟨fun speaks => ?_, fun live enough present => ?_, fun delayed => ?_⟩
  · obtain ⟨fine, loaded, recent⟩ := answered_of_feed follows.said speaks
    obtain ⟨j, before, answeredAt, accepts, updated, last⟩ := follows.answered fine loaded
    exact ⟨j, before, answeredAt, accepts, recent answeredAt updated, last⟩
  · have found : newestReport (states k).page.state.records = some _ := if_pos enough
    have recent := newest_of_live live found
    obtain ⟨-, -, epoch | ⟨record, member, same⟩⟩ := newestReport_spec found
    · rw [epoch, Int.cast_zero, sub_zero] at recent
      exact absurd recent (not_le.mpr present)
    · rw [same] at recent
      obtain ⟨read, -, reads⟩ := reads_along (usePositions_shows client) start along
      have shown := reads k within
      rcases shown.display with blank | ⟨deps, records, rfl, answer⟩
      · rw [blank] at member
        cases member
      · have served : record ∈ PositionReader.latestPositions (states (read k)).source.writer.connection.stored := by
          rw [answer] at member
          exact positionsInArea_subset _ _ member
        obtain ⟨batch, committed, stamp, report, sent, stored⟩ :=
          Process.run_receivedAt (process_run rfl start along (shown.past.trans within)) served
        refine ⟨batch, (committedBy_grows shown.past).subset committed, ?_, report, sent, record, member, stored⟩
        rwa [stamp]
  · obtain ⟨newest, found, old⟩ := newest_of_delayed delayed
    obtain ⟨enough, bound, -⟩ := newestReport_spec found
    refine ⟨enough, fun record member => old.trans_le ?_⟩
    have earlier : (record.receivedAt : ℚ) ≤ newest := by exact_mod_cast bound record member
    exact sub_le_sub_left earlier _

/-! ### Five ships

They report from one place, and their numbers differ in one character of the payload. -/

def fleet : List Char := [ 'a', 'b', 'c', 'd', 'e']

def fleetLine (ship : Char) : TaggedLine :=
  { reportUncut with
    sentence := { reportUncut.sentence with
      payload := "13u?".toList.map Char.toUInt8 ++ ship.toUInt8 :: "tPv2;0n:dDPwUM1U1Cb069D".toList.map Char.toUInt8 } }

def fleetReport (ship : Char) : PositionReport :=
  { reportSent with mmsi := 265546226 + 256 * (ship.toNat - 'a'.toNat).toUInt32 }

def fleetMessage (ship : Char) : AisMessage := .positionReport (fleetReport ship)

def fleetRecord (ship : Char) : PositionRecord where
  report := stored (fleetReport ship)
  receivedAt := 1000

def fleetChunk : Bytes := fleet.flatMap fun ship => (fleetLine ship).write ++ [ '\r'.toUInt8, '\n'.toUInt8]

theorem processLine_fleetLine {ship : Char} (member : ship ∈ fleet) (stage : DecoderStage) :
    stage.processLine (fleetLine ship).write = .ok (stage, some (fleetMessage ship)) := by
  have undelimited : (fleet.all fun ship => decide (','.toUInt8 ∉ (fleetLine ship).sentence.payload ∧
      '*'.toUInt8 ∉ (fleetLine ship).sentence.payload)) = true := by decide +kernel
  have decoded : (fleet.all fun ship => decide (messageAt (Payload.ofArmored (fleetLine ship).sentence.payload
      (fleetLine ship).sentence.fillBits) = some (fleetMessage ship))) = true := by decide +kernel
  obtain ⟨comma, star⟩ := of_decide_eq_true (List.all_eq_true.mp undelimited ship member)
  have clean : (fleetLine ship).Clean :=
    { reportUncut_clean with
      sentence := { reportUncut_clean.sentence with payload_comma := comma, payload_star := star } }
  rw [processLine_uncut clean rfl, of_decide_eq_true (List.all_eq_true.mp decoded ship member)]

theorem runLines_fleet :
    DecoderStage.runLines {} (LineFramer.linesOf fleetChunk) =
      .ok ({}, fleet.map fun ship => some (fleetMessage ship)) := by
  have lines : LineFramer.linesOf fleetChunk = fleet.map fun ship => (fleetLine ship).write := by
    decide +kernel
  rw [lines]
  exact DecoderStage.runLines_map (fun ship => processLine_fleetLine) {}

theorem positionsInArea_fleet :
    PositionReader.positionsInArea (WriterRun.writeBatch .empty (1000, fleet.map fleetMessage)) reportBox.box =
      fleet.map fleetRecord := by
  decide +kernel

/-- The state of the page after the answer. -/
def fleetState : PositionsState where
  records := fleet.map fleetRecord
  loading := false
  lastUpdated := some 1290000

/-- The ships are heard of 1000 seconds after the epoch and polled at 1290 seconds: the header says live
five seconds after the poll, and delayed ten seconds later. -/
theorem header_is_honest_poll :
    ∃ (labels : List Display.Event) (states : Nat → Display),
      Along (Display.Step ({} : Config).client) states labels ∧
      (states labels.length).page.state = fleetState ∧
      feed 1295000 fleetState = .live ∧
      (∃ batch ∈ committedBy labels labels.length, (1295 : ℚ) - batch.1 ≤ staleAfterSeconds ∧
        ∃ report, .positionReport report ∈ batch.2 ∧
          ∃ record ∈ fleetState.records, record.report = stored report) ∧
      feed 1305000 fleetState = .delayed ∧
      (∀ record ∈ fleetState.records, (1305 : ℚ) - record.receivedAt > staleAfterSeconds) ∧
      ∃ j < labels.length, ∃ answeredAt,
        Accepts labels states j (.success fleetState.records answeredAt) ∧
        1305000 - answeredAt ≤ stalledAfterMs := by
  have some_left : (fleet.map fun ship => some (fleetMessage ship)).reduceOption ≠ [] :=
    List.cons_ne_nil _ _
  obtain ⟨trace, s, run, -, -, -, written⟩ := Process.exists_run_chunk ({} : Config).client .empty
    1000000000000 (by decide +kernel) (by decide +kernel) runLines_fleet some_left
  obtain ⟨labels, states, start, along, -, state, -⟩ := exists_run_polled run reportBox 1290000
  have records : PositionReader.positionsInArea s.writer.connection.stored reportBox.box = fleetState.records := by
    rw [written]
    exact positionsInArea_fleet
  have answered : (states labels.length).page.state = fleetState := by
    rw [state, records]
    rfl
  have live : feed 1295000 fleetState = .live := by decide +kernel
  have delayed : feed 1305000 fleetState = .delayed := by decide +kernel
  obtain ⟨-, heard, -⟩ :=
    header_is_honest ({} : Config).client 500 500 labels states start along _ le_rfl 1295000
  obtain ⟨polled, -, silent⟩ :=
    header_is_honest ({} : Config).client 500 500 labels states start along _ le_rfl 1305000
  rw [answered] at heard polled silent
  obtain ⟨batch, committed, recent, report⟩ := heard live (by decide) (by decide +kernel)
  obtain ⟨j, before, answeredAt, accepts, soon, -⟩ := polled (.inr delayed)
  -- what is left are the two ages, in seconds
  refine ⟨labels, states, along, answered, live, ⟨batch, committed, ?_, report⟩, delayed,
    fun record member => ?_, j, before, answeredAt, accepts, soon⟩
  · norm_num at recent ⊢
    exact recent
  · have old := (silent delayed).2 record member
    norm_num at old ⊢
    exact old

end Ais.App
