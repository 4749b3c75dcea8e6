import AisPipeline.App.Display
import AisPipeline.Properties.Polling
import AisPipeline.Properties.RadarArea
import AisPipeline.Properties.ServedState

/-!
# The feed on the radar

The ships drawn on a page are those of the feed at some moment, and the moments
never go back: polls that are late, lost or superseded do not bring old ships
back, and where the box reaches around the ring none is missing.
-/
namespace Ais.Display

open PolledSource PollingEffect Transition PositionReader SqliteWriter Process Radar

/-! ### The polled component -/

theorem usePositions_shows (client : TcpClient) :
    Shows (area client) usePositions (fun state _ records => state.records = records)
      (fun state => state.records = []) fun state => state.error = none where
  guarded := usePositions_guarded
  initial := rfl
  brings deps outcome state source found brought _ := by
    cases outcome with
    | success records now => exact Option.some.inj brought
    | failure err => cases brought
  keeps deps outcome state brought := by
    cases outcome with
    | success records now => cases brought
    | failure err => exact .inr ⟨Option.some_ne_none _, id, fun _ _ => .inl⟩

/-! ### The box and the ring -/

/-- The box in the query reaches as far as the exact one. -/
def Reaches (box : PositionReader.BoundingBox) (exact_ : Radar.BoundingBox) : Prop :=
  ∀ lat lon : ℚ, exact_.Contains lat lon →
    PositionReader.between (some lat) box.minLat box.maxLat = true ∧
      PositionReader.between (some lon) box.minLon box.maxLon = true

variable {cosDegrees : ℝ → ℝ} {centre : RadarCentre} {rangeNm : ℝ}

theorem visible_eq (records : List PositionRecord) :
    visible cosDegrees centre rangeNm records = records.filter (inRange cosDegrees centre rangeNm) := by
  rw [visible, List.filter_filter]
  apply List.filter_congr
  intro record _
  rw [hasPosition, inRange]
  cases record.report.latitude with
  | none => rfl
  | some lat => cases record.report.longitude <;> simp

/-- A box that reaches far enough loses no ship in the ring. -/
theorem visible_positionsInArea (cosine : Cosine cosDegrees) (settable : Settable centre rangeNm)
    {box : PositionReader.BoundingBox} (reaches : Reaches box (boundingBoxAround cosDegrees centre rangeNm))
    (db : Database) :
    visible cosDegrees centre rangeNm (positionsInArea db box) =
      visible cosDegrees centre rangeNm (latestPositions db) := by
  rw [visible_eq, visible_eq, positionsInArea_eq, List.filter_filter]
  apply List.filter_congr
  intro record _
  by_cases seen : inRange cosDegrees centre rangeNm record = true
  · have fetched : box.holds record = true := by
      simp only [inRange] at seen
      rw [BoundingBox.holds, Bool.and_eq_true]
      cases latitude : record.report.latitude with
      | none => simp [latitude] at seen
      | some lat =>
        cases longitude : record.report.longitude with
        | none => simp [latitude, longitude] at seen
        | some lon =>
          simp only [latitude, longitude, decide_eq_true_eq] at seen
          exact reaches lat lon (boundingBoxAround_contains cosine settable seen)
    rw [fetched, Bool.and_true]
  · simp [seen]

theorem positionsInArea_subset (db : Database) (box : PositionReader.BoundingBox) :
    positionsInArea db box ⊆ latestPositions db := by
  rw [positionsInArea_eq]
  exact List.filter_subset_self _

/-! ### The ships of the feed -/

/-- The ship was in the ring when it last sent a position. -/
noncomputable def lastInRange (cosDegrees : ℝ → ℝ) (centre : RadarCentre) (rangeNm : ℝ) (messages : List AisMessage)
    (mmsi : Int) : Bool :=
  (lastPosition mmsi messages).any fun report =>
    inRange cosDegrees centre rangeNm { report := stored report }

/-- The records are those of the ships in the ring, one each. -/
def DrawsRing (cosDegrees : ℝ → ℝ) (centre : RadarCentre) (rangeNm : ℝ) (messages : List AisMessage)
    (drawn : List PositionRecord) : Prop :=
  ∃ ships : List Int, ships.Nodup ∧
    (∀ mmsi, mmsi ∈ ships ↔ lastInRange cosDegrees centre rangeNm messages mmsi = true) ∧
    List.Forall₂ (Serves messages) ships drawn

private theorem serves_inRange {messages : List AisMessage} {mmsi : Int} {record : PositionRecord}
    (serves : Serves messages mmsi record) :
    lastInRange cosDegrees centre rangeNm messages mmsi = inRange cosDegrees centre rangeNm record := by
  obtain ⟨report, last, same⟩ := Option.map_eq_some_iff.mp serves.report
  rw [lastInRange, last, Option.any_some, inRange, inRange, same]

/-- What the reader has, cut to the ring. -/
theorem drawsRing_of_serves {messages : List AisMessage} {ships : List Int}
    {records : List PositionRecord} (distinct : ships.Nodup)
    (all : ∀ mmsi, mmsi ∈ ships ↔ lastPosition mmsi messages ≠ none)
    (serves : List.Forall₂ (Serves messages) ships records) :
    DrawsRing cosDegrees centre rangeNm messages (visible cosDegrees centre rangeNm records) := by
  refine ⟨ships.filter (lastInRange cosDegrees centre rangeNm messages), distinct.filter _,
    fun mmsi => ?_, ?_⟩
  · rw [List.mem_filter, all, and_iff_right_iff_imp, lastInRange]
    intro near none_sent
    rw [none_sent] at near
    cases near
  · rw [visible_eq]
    refine List.rel_filter (fun mmsi record serves => ?_) serves
    exact iff_of_eq (congrArg (· = true) (serves_inRange serves))

/-- Every record is of some ship. -/
theorem exists_ship {messages : List AisMessage} {ships : List Int}
    {records : List PositionRecord} (serves : List.Forall₂ (Serves messages) ships records)
    {record : PositionRecord} (member : record ∈ records) : ∃ mmsi, Serves messages mmsi record := by
  induction serves with
  | nil => cases member
  | cons first _ ih =>
    rcases List.mem_cons.mp member with rfl | later
    · exact ⟨_, first⟩
    · exact ih later

/-! ### Along a run -/

section

variable {δ α : Type}

/-- The messages committed by a moment, and the lines received by then. -/
def committedBy (labels : List (PolledSource.Event Process.Event δ α)) (k : Nat) :
    List (Int × List AisMessage) :=
  WriterRun.committed (writerTrace (processTrace (labels.take k)))

def sentBy (labels : List (PolledSource.Event Process.Event δ α)) (k : Nat) : List AisMessage :=
  (committedBy labels k).flatMap Prod.snd

def receivedBy (labels : List (PolledSource.Event Process.Event δ α)) (k : Nat) : List Cpp.Bytes :=
  ClientThread.received (clientTrace (processTrace (labels.take k)))

theorem committedBy_grows {labels : List (PolledSource.Event Process.Event δ α)} {j k : Nat} (before : j ≤ k) :
    committedBy labels j <+: committedBy labels k := by
  have shorter : labels.take j <+: labels.take k := List.take_prefix_take_left before
  exact ((shorter.filterMap _).filterMap _).filterMap _

theorem processTrace_append {trace : List Process.Event} {polls : List (PolledSource.Event Process.Event δ α)}
    (quiet : processTrace polls = []) : processTrace (trace.map .source ++ polls) = trace := by
  rw [processTrace, sourceTrace, List.filterMap_append, ← sourceTrace, ← sourceTrace, sourceTrace_map,
    ← processTrace, quiet, List.append_nil]

/-- The process goes its own way, whatever polls it. -/
theorem process_run {η ρ : Type} [DecidableEq δ] {client : TcpClient} {capacity1 capacity2 : Nat}
    {labels : List (PolledSource.Event Process.Event δ α)} {states : Nat → System Process δ η ρ}
    {P : Protocol Process Process.Event δ α ρ} {E : PollingEffect δ α η} (moves : P.moves = Process.Step client)
    (start : states 0 = PolledSource.initial E (Process.initial capacity1 capacity2 .empty))
    (along : Along (PolledSource.Step P E) states labels) {k : Nat} (within : k ≤ labels.length) :
    Run (Process.Step client) (Process.initial capacity1 capacity2 .empty)
      (processTrace (labels.take k)) (states k).source := by
  have run := along.run k within
  rw [start] at run
  rw [← moves]
  exact run_source run

end

/-- At every moment of a run the reader has the ships of the messages committed by then. -/
theorem serves_along {client : TcpClient} {capacity1 capacity2 : Nat} {labels : List Event} {states : Nat → Display}
    (start : states 0 = initial capacity1 capacity2) (along : Along (Step client) states labels)
    (ordered : ((committedBy labels labels.length).map Prod.fst).Pairwise (· ≤ ·)) {k : Nat}
    (within : k ≤ labels.length) :
    sentBy labels k <+: Pipeline.messagesOf (receivedBy labels k) ∧
      ∃ ships : List Int, ships.Nodup ∧ (∀ mmsi, mmsi ∈ ships ↔ lastPosition mmsi (sentBy labels k) ≠ none) ∧
        List.Forall₂ (Serves (sentBy labels k)) ships
          (latestPositions (states k).source.writer.connection.stored) := by
  have run := process_run rfl start along within
  have shorter : committedBy labels k <+: committedBy labels labels.length := committedBy_grows within
  exact ⟨(run_committed run).1, run_serves run (ordered.sublist (shorter.sublist.map Prod.fst))⟩

/-- From the bytes to the blips. On a new database, as long as the clock is not set back from one
batch to the next: at every moment of every run the records on the page are of ships of the feed,
each with what the feed said of it at some earlier moment, and these moments never go back. Once the
box that is polled now has had an answer and no error is shown, they are exactly the ships that were
in the ring at that moment, one blip each, for every ring the box reaches around. -/
theorem radar_follows_feed (cosine : Cosine cosDegrees) (client : TcpClient) (capacity1 capacity2 : Nat)
    (labels : List Event) (states : Nat → Display) (start : states 0 = initial capacity1 capacity2)
    (along : Along (Step client) states labels)
    (ordered : ((committedBy labels labels.length).map Prod.fst).Pairwise (· ≤ ·)) :
    ∃ read : Nat → Nat, Monotone read ∧ ∀ k ≤ labels.length,
      read k ≤ k ∧
      sentBy labels (read k) <+: Pipeline.messagesOf (receivedBy labels (read k)) ∧
      (∀ record ∈ (states k).page.state.records, ∃ mmsi, Serves (sentBy labels (read k)) mmsi record) ∧
      ∀ i x, (states k).page.mounted = some i → (states k).page.instances[i]? = some x →
        x.timer ≠ none → (states k).page.state.error = none →
        ∀ centre rangeNm, Settable centre rangeNm →
          Reaches x.deps.box (boundingBoxAround cosDegrees centre rangeNm) →
          DrawsRing cosDegrees centre rangeNm (sentBy labels (read k))
            (visible cosDegrees centre rangeNm (states k).page.state.records) := by
  obtain ⟨read, monotone, reads⟩ := reads_along (usePositions_shows client) start along
  refine ⟨read, monotone, fun k within => ?_⟩
  have shown := reads k within
  obtain ⟨heard, ships, distinct, all, serves⟩ := serves_along start along ordered (shown.past.trans within)
  refine ⟨shown.past, heard, fun record member => ?_, ?_⟩
  · rcases shown.display with blank | ⟨deps, records, rfl, same⟩
    · rw [blank] at member
      cases member
    · rw [same] at member
      exact exists_ship serves (positionsInArea_subset _ _ member)
  · intro i x mounted known settled fine centre rangeNm settable reaches
    obtain ⟨records, rfl, same⟩ := shown.current i x mounted known settled fine
    rw [same, visible_positionsInArea cosine settable reaches]
    exact drawsRing_of_serves distinct all serves

/-! ### A page with an answer -/

/-- A box of whole degrees around the ring of 60 miles, up to a latitude of 59 degrees. -/
private theorem reaches_whole {lat lon : ℤ} (bound : |(lat : ℝ)| ≤ 59) :
    Reaches ⟨.finite (lat - 1), .finite (lat + 1), .finite (lon - 2), .finite (lon + 2)⟩
      (boundingBoxAround exactCosDegrees ⟨lat, lon⟩ 60) := by
  have pi := Real.pi_pos
  -- at 60 degrees the cosine is a half
  have half : exactCosDegrees 60 = 1 / 2 := by
    rw [exactCosDegrees, ← Real.cos_pi_div_three]
    congr 1
    ring
  have wide : 1 / 2 ≤ exactCosDegrees (min 89 (|(lat : ℝ)| + 60 / 60)) := by
    have edge : min 89 (|(lat : ℝ)| + 60 / 60) ≤ 60 := (min_le_right _ _).trans (by linarith)
    have low : 0 ≤ min 89 (|(lat : ℝ)| + 60 / 60) := by positivity
    rw [← half]
    exact exactCosDegrees_cosine.decreasing ⟨low, by linarith⟩ ⟨by norm_num, by norm_num⟩ edge
  have narrow : 60 / (60 * exactCosDegrees (min 89 (|(lat : ℝ)| + 60 / 60))) ≤ 2 := by
    rw [div_le_iff₀ (by linarith)]
    linarith
  intro north east contains
  simp only [BoundingBox.Contains, boundingBoxAround] at contains
  obtain ⟨⟨south, north_⟩, west, east_⟩ := contains
  have bounds : ((lat : ℝ) - 1 ≤ north ∧ (north : ℝ) ≤ lat + 1) ∧
      ((lon : ℝ) - 2 ≤ east ∧ (east : ℝ) ≤ lon + 2) :=
    ⟨⟨by linarith, by linarith⟩, by linarith, by linarith⟩
  simp only [PositionReader.between, Bool.and_eq_true, decide_eq_true_eq]
  exact_mod_cast bounds

/-- A page is opened, and its first poll answered at once. -/
def pollOf (deps : UsePositions.Deps) (records : List PositionRecord) (now : Int) : List Event :=
  [.page (.changed deps), .answered, .page (.requestSettled 0 (.success records now))]

theorem exists_run_poll (client : TcpClient) (source : Process) (deps : UsePositions.Deps) (now : Int) :
    ∃ page, Run (Step client) ⟨source, usePositions.start, []⟩
        (pollOf deps (positionsInArea source.writer.connection.stored deps.box) now) ⟨source, page, []⟩ ∧
      page.state = { records := positionsInArea source.writer.connection.stored deps.box
                     loading := false, lastUpdated := some now } ∧
      page.mounted = some 0 ∧ page.instances[0]? = some { deps := deps, timer := some 0 } := by
  let records := positionsInArea source.writer.connection.stored deps.box
  let asking : PollingEffect.State UsePositions.Deps UsePositions.PositionsState :=
    { state := {}, rendered := some deps, ran := some deps, mounted := some 0
      instances := [{ deps := deps }], requests := [0] }
  let answered : PollingEffect.State UsePositions.Deps UsePositions.PositionsState :=
    { asking with
      state := { records := records, loading := false, lastUpdated := some now }
      instances := [{ deps := deps, timer := some 0 }], requests := [], timers := [(0, 0)]
      nextTimer := 1 }
  have opens : Step client ⟨source, usePositions.start, []⟩ (.page (.changed deps)) ⟨source, asking, []⟩ :=
    .shows _ (.changed deps) asking (.changes _ deps) fun _ _ _ same => by cases same
  have reads : Step client ⟨source, asking, []⟩ .answered ⟨source, asking, [(0, records)]⟩ :=
    .answers ⟨source, asking, []⟩ 0 _ records (List.mem_singleton_self 0) rfl rfl
  let outcome : FetchOutcome := .success records now
  have arrives : usePositions.Step asking (.requestSettled 0 outcome) answered :=
    .settles asking 0 _ outcome (List.mem_singleton_self 0) rfl
  have settles : Step client ⟨source, asking, [(0, records)]⟩
      (.page (.requestSettled 0 outcome)) ⟨source, answered, []⟩ := by
    refine .shows ⟨source, asking, [(0, records)]⟩ _ answered arrives fun i other found same brought => ?_
    cases same
    cases brought
    exact List.mem_singleton_self _
  exact ⟨answered, ⟨_, opens, _, reads, _, settles, rfl⟩, rfl, rfl, rfl⟩

/-- A poll after a run of the process. -/
theorem exists_run_polled {client : TcpClient} {trace : List Process.Event} {s : Process}
    (run : Run (Process.Step client) (Process.initial 500 500 .empty) trace s) (deps : UsePositions.Deps) (now : Int) :
    ∃ (labels : List Event) (states : Nat → Display),
      states 0 = initial 500 500 ∧ Along (Step client) states labels ∧
      committedBy labels labels.length = WriterRun.committed (writerTrace trace) ∧
      (states labels.length).page.state =
        { records := positionsInArea s.writer.connection.stored deps.box, loading := false
          lastUpdated := some now } ∧
      (states labels.length).page.mounted = some 0 ∧
      (states labels.length).page.instances[0]? = some { deps := deps, timer := some 0 } := by
  obtain ⟨page, polls, state, mounted, instances⟩ := exists_run_poll client s deps now
  let labels : List Event :=
    trace.map .source ++ pollOf deps (positionsInArea s.writer.connection.stored deps.box) now
  have displays : Run (Step client) (initial 500 500) labels ⟨s, page, []⟩ :=
    run_append.mpr ⟨_, run_of_source usePositions.start [] run, polls⟩
  obtain ⟨states, start, last, along⟩ := displays.along
  refine ⟨labels, states, start, along, ?_, ?_⟩
  · rw [committedBy, List.take_length, processTrace_append rfl]
  · rw [last]
    exact ⟨state, mounted, instances⟩

/-- The report as it is served. -/
def reportRecord : PositionRecord where
  report := stored reportSent

/-- A box around the ship that sent the report. -/
def reportBox : UsePositions.Deps where
  box := ⟨.finite 57, .finite 59, .finite 10, .finite 14⟩

theorem positionsInArea_report :
    positionsInArea (WriterRun.writeBatch .empty (0, [.positionReport reportSent])) reportBox.box =
      [reportRecord] := by
  decide +kernel

/-- A distance is at most what it would be on the equator. -/
theorem distanceNm_le {lat lon : ℝ} (bounded : |cosDegrees ((lat + centre.lat) / 2)| ≤ 1)
    (positive : 0 ≤ rangeNm)
    (near : ((lon - centre.lon) * 60) ^ 2 + ((lat - centre.lat) * 60) ^ 2 ≤ rangeNm ^ 2) :
    distanceNm cosDegrees centre lat lon ≤ rangeNm := by
  have square : cosDegrees ((lat + centre.lat) / 2) ^ 2 ≤ 1 := (sq_le_one_iff_abs_le_one _).mpr bounded
  have shrunk : ((lon - centre.lon) * 60 * cosDegrees ((lat + centre.lat) / 2)) ^ 2 ≤
      ((lon - centre.lon) * 60) ^ 2 := by
    rw [mul_pow]
    exact mul_le_of_le_one_right (sq_nonneg _) square
  exact Real.sqrt_le_iff.mpr ⟨positive, (add_le_add_left shrunk _).trans near⟩

theorem visible_report : visible exactCosDegrees ⟨58, 12⟩ 60 [reportRecord] = [reportRecord] := by
  have near := @distanceNm_le exactCosDegrees ⟨58, 12⟩ 60 ((8649053 / 150000 : ℚ) : ℝ)
    ((3549893 / 300000 : ℚ) : ℝ) (Real.abs_cos_le_one _) (by norm_num) (by norm_num)
  have seen : inRange exactCosDegrees ⟨58, 12⟩ 60 reportRecord = true := decide_eq_true near
  rw [visible_eq, List.filter_singleton, seen]
  rfl

/-- One report, and a poll after it. -/
theorem exists_run_report_poll (now : Int) :
    ∃ (labels : List Event) (states : Nat → Display),
      states 0 = initial 500 500 ∧ Along (Step ({} : Config).client) states labels ∧
      ((committedBy labels labels.length).map Prod.fst).Pairwise (· ≤ ·) ∧
      sentBy labels labels.length = [.positionReport reportSent] ∧
      (states labels.length).page.state =
        { records := [reportRecord], loading := false, lastUpdated := some now } ∧
      (states labels.length).page.mounted = some 0 ∧
      (states labels.length).page.instances[0]? = some { deps := reportBox, timer := some 0 } := by
  obtain ⟨trace, s, run, -, -, batch, written⟩ := exists_run_report
  obtain ⟨labels, states, start, along, committed, state, polling⟩ := exists_run_polled run reportBox now
  rw [batch] at committed
  rw [written, positionsInArea_report] at state
  refine ⟨labels, states, start, along, ?_, ?_, state, polling⟩
  · rw [committed]
    exact List.pairwise_singleton _ _
  · rw [sentBy, committed]
    rfl

/-- One report, and the first answer after it: the ship is drawn. -/
theorem radar_follows_feed_poll :
    ∃ (labels : List Event) (states : Nat → Display) (read : Nat → Nat),
      Along (Step ({} : Config).client) states labels ∧ Monotone read ∧
      sentBy labels labels.length = [.positionReport reportSent] ∧
      visible exactCosDegrees ⟨58, 12⟩ 60 (states labels.length).page.state.records = [reportRecord] ∧
      (∃ mmsi, Serves (sentBy labels (read labels.length)) mmsi reportRecord) ∧
      DrawsRing exactCosDegrees ⟨58, 12⟩ 60 (sentBy labels (read labels.length)) [reportRecord] := by
  obtain ⟨labels, states, start, along, ordered, sent, state, mounted, instances⟩ := exists_run_report_poll 5
  obtain ⟨read, monotone, shown⟩ := radar_follows_feed exactCosDegrees_cosine ({} : Config).client 500 500
    labels states start along ordered
  obtain ⟨-, -, ships, ring⟩ := shown _ (Nat.le_refl _)
  have drawn : visible exactCosDegrees ⟨58, 12⟩ 60 (states labels.length).page.state.records = [reportRecord] := by
    rw [state, visible_report]
  have reaches : Reaches reportBox.box (boundingBoxAround exactCosDegrees ⟨58, 12⟩ 60) := by
    have whole := @reaches_whole 58 12 (by norm_num)
    norm_num at whole
    exact whole
  have settled := ring 0 { deps := reportBox, timer := some 0 } mounted instances (Option.some_ne_none 0)
    (by rw [state]) ⟨58, 12⟩ 60 ⟨by norm_num, by norm_num, le_refl _⟩ reaches
  rw [drawn] at settled
  refine ⟨labels, states, read, along, monotone, sent, drawn, ships reportRecord ?_, settled⟩
  rw [state]
  exact List.mem_singleton_self _

end Ais.Display
