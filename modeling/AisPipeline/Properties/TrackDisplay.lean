import AisPipeline.Properties.RadarDisplay
import AisPipeline.Properties.Routes

/-!
# The feed in the track of a ship

The track on a page is an answer for the selected ship, read at moments that
never go back: its newest reports that have not been pruned, newest first, each
as the feed sent it.
-/
namespace Ais.TrackDisplay

open Cpp Display OrderBy PolledSource PollingEffect PositionReader SqliteWriter Transition UseHistory

/-! ### The request -/

theorem digits_write (n : Nat) :
    Digits ((Numeral.write 10 n).map fun d => UInt8.ofNat (48 + d)) (Numeral.write 10 n) := by
  rw [Digits, List.map_map]
  apply List.map_congr_left
  intro d member
  have all : ∀ d : Fin 10, digitValue 10 (UInt8.ofNat (48 + d)) = some d.val := by decide
  exact all ⟨d, Numeral.lt_of_mem_write (by decide) member⟩

theorem wholeInteger_numberText (n : Int) : WholeInteger (numberText n) n := by
  refine ⟨[], _, _, decide (n < 0), Numeral.write 10 n.natAbs, rfl, by simp, ?_, digits_write n.natAbs,
    Numeral.write_ne_nil 10 n.natAbs, ?_⟩
  · by_cases negative : n < 0
    · rw [if_pos negative, decide_eq_true negative]
      exact .minus
    · rw [if_neg negative, decide_eq_false negative]
      exact .none
  · rw [Numeral.value_write]
    by_cases negative : n < 0
    · rw [decide_eq_true negative, if_pos rfl]
      omega
    · rw [decide_eq_false negative, if_neg Bool.false_ne_true]
      omega

theorem digits_numberText (n : Nat) :
    numberText n = (Numeral.write 10 n).map fun d => UInt8.ofNat (48 + d) := by
  rw [numberText, if_neg (by omega)]
  rfl

theorem stoul_numberText (mmsi : UInt32) : stoul (numberText mmsi.toNat) = .ok (UInt64.ofNat mmsi.toNat) := by
  have fits := mmsi.toNat_lt
  rw [digits_numberText, stoul_of_digits (digits_write mmsi.toNat) (Numeral.write_ne_nil 10 mmsi.toNat),
    Numeral.value_write, if_pos (by omega)]

theorem limitOf_fetchHistory {mmsi limit : Int} {req : ApiServer.Request}
    (fetched : fetchHistory mmsi limit = some req) : ApiServer.limitOf req = stoi (numberText limit) := by
  have some_text : numberText limit ≠ [] := by
    simp [numberText, Numeral.write_ne_nil]
  rw [fetchHistory] at fetched
  split at fetched
  next => cases fetched
  next =>
    obtain rfl := Option.some.inj fetched
    simp [ApiServer.limitOf, ApiServer.Request.getParamValue, some_text]

/-- A ship that can be selected is asked for under its own number. -/
theorem history_of_answers {client : TcpClient} {s : Process} {deps : Deps} {records : List PositionRecord}
    (answered : (TrackDisplay.history client).answers s deps records) {mmsi : UInt32}
    (own : deps.mmsi = some mmsi.toNat) :
    ∃ limit : Int32, limit.toInt = deps.limit ∧ (1 ≤ limit.toInt ∧ limit.toInt ≤ 1000) ∧
      History s.writer.connection.stored mmsi limit records := by
  obtain ⟨number, req, selected, fetched, found, limit, asks, answer⟩ := answered
  obtain rfl := Option.some.inj (own.symm.trans selected)
  obtain ⟨⟨parsed, read, rfl⟩, limited, range⟩ := ApiServer.history_eq_asks_iff.mp asks
  rw [limitOf_fetchHistory fetched] at limited
  rw [fetchHistory, if_neg (by omega)] at fetched
  obtain rfl := Option.some.inj fetched
  rw [stoul_numberText] at read
  obtain rfl := Except.ok.inj read
  rw [UInt64.toUInt32_ofNat', UInt32.ofNat_toNat] at answer
  exact ⟨limit, ApiServer.stoi_of_whole (wholeInteger_numberText deps.limit) limited, range, answer⟩

/-- The server does not refuse it. -/
theorem exists_answer (client : TcpClient) (s : Process) (mmsi : UInt32) :
    ∃ records, (TrackDisplay.history client).answers s { mmsi := some mmsi.toNat } records ∧
      History s.writer.connection.stored mmsi 200 records := by
  have fetched : fetchHistory mmsi.toNat 200 =
      some { digits := numberText mmsi.toNat, params := [("limit", numberText 200)] } := if_neg (by omega)
  have limited : stoi (numberText 200) = .ok 200 := by
    rw [stoi, strtol_of_whole (wholeInteger_numberText 200)]
    rfl
  have asks : ApiServer.history { digits := numberText mmsi.toNat, params := [("limit", numberText 200)] } =
      .asks (mmsi, 200) := by
    refine ApiServer.history_eq_asks_iff.mpr ⟨⟨_, stoul_numberText mmsi, ?_⟩, ?_, by decide, by decide⟩
    · rw [UInt64.toUInt32_ofNat', UInt32.ofNat_toNat]
    · rw [limitOf_fetchHistory fetched, limited]
  exact ⟨_, ⟨mmsi.toNat, _, rfl, fetched, mmsi, 200, asks, _, descending_spec, rfl⟩,
    _, descending_spec, rfl⟩

/-! ### The polled component -/

/-- The data is an answer to a request of its own ship. -/
def Displays (data : Option HistoryData) (deps : Deps) (records : List PositionRecord) : Prop :=
  ∃ shown, data = some shown ∧ deps.mmsi = some shown.mmsi ∧ shown.records = records

def Blank (data : Option HistoryData) : Prop := ∀ shown, data = some shown → shown.records = []

def Fine (data : Option HistoryData) : Prop := ∀ shown, data = some shown → shown.error = none

theorem useHistory_shows (client : TcpClient) :
    Shows (TrackDisplay.history client) useHistory Displays Blank Fine where
  guarded := useHistory_guarded
  initial := by rintro shown ⟨⟩
  brings deps outcome data source found brought answered := by
    obtain ⟨mmsi, req, selected, -⟩ := answered
    cases outcome with
    | success records now =>
      obtain rfl := Option.some.inj brought
      refine ⟨⟨mmsi, records, none⟩, ?_, selected, rfl⟩
      simp [useHistory, UseHistory.settled, selected]
    | failure err => cases brought
  keeps deps outcome data brought := by
    cases outcome with
    | success records now => cases brought
    | failure err =>
      cases selected : deps.mmsi with
      | none => exact .inl (by simp [useHistory, UseHistory.settled, selected])
      | some mmsi =>
        have failed : (useHistory.settled deps false (.failure err) data).1 =
            some ⟨mmsi, keptRecords mmsi data, some (err.message "Could not load track: ")⟩ := by
          simp [useHistory, UseHistory.settled, selected]
        rw [failed]
        refine .inr ⟨fun fine => ?_, fun blank => ?_, fun asked found displays => ?_⟩
        · exact absurd (fine _ rfl) (Option.some_ne_none _)
        · rintro _ ⟨⟩
          rcases keptRecords_cases mmsi data with nothing | ⟨previous, held, -, kept⟩
          · exact nothing
          · exact kept.trans (blank previous held)
        · obtain ⟨shown, rfl, own, rfl⟩ := displays
          by_cases same : shown.mmsi = mmsi
          · exact .inl ⟨_, rfl, own.trans (congrArg some same), if_pos same⟩
          · refine .inr ?_
            rintro _ ⟨⟩
            exact if_neg same

/-! ### Reports of the feed -/

/-- The records are reports of one ship, newest first. -/
structure TrackOf (batches : List (Int × List AisMessage)) (mmsi : UInt32) (records : List PositionRecord) :
    Prop where
  own : ∀ record ∈ records, record.report.mmsi = mmsi
  sent : ∀ record ∈ records, ∃ batch ∈ batches, batch.1 = record.receivedAt ∧
    ∃ report, .positionReport report ∈ batch.2 ∧ record.report = stored report
  newestFirst : records.Pairwise fun earlier later => later.receivedAt ≤ earlier.receivedAt
  bounded : records.length ≤ 1000

theorem trackOf_nil (batches : List (Int × List AisMessage)) (mmsi : UInt32) : TrackOf batches mmsi [] where
  own := by rintro record ⟨⟩
  sent := by rintro record ⟨⟩
  newestFirst := List.Pairwise.nil
  bounded := Nat.zero_le _

/-- A row the writer inserted, in the history. -/
theorem historyRecord_reportRow (rowid : Int) (report : PositionReport) (receivedAt : Int) :
    (historyRecord ⟨rowid, reportRow report receivedAt⟩).report = stored report ∧
      (historyRecord ⟨rowid, reportRow report receivedAt⟩).receivedAt = receivedAt := by
  simp [historyRecord, historyRow, readCurrentRow, reportRow, stored, columnInt_toInt, columnInt_toNat, columnInt64,
    ofInt_toNat, ofInt_realToInt_toInt, Function.comp_def]

theorem trackOf_history {client : TcpClient} {capacity1 capacity2 : Nat} {trace : List Process.Event} {s : Process}
    (run : Run (Process.Step client) (Process.initial capacity1 capacity2 .empty) trace s) {mmsi : UInt32}
    {limit : Int32} (range : 1 ≤ limit.toInt ∧ limit.toInt ≤ 1000) {records : List PositionRecord}
    (answer : History s.writer.connection.stored mmsi limit records) :
    TrackOf (WriterRun.committed (Process.writerTrace trace)) mmsi records := by
  obtain ⟨ordered, held, rfl⟩ := answer
  have positive : ¬ limit < 0 := by
    rw [Int32.lt_iff_toInt_lt, Int32.toInt_zero]
    omega
  rw [sqlLimit, if_neg positive]
  have first := List.take_sublist limit.toInt.toNat ordered
  -- every row is one the writer has inserted
  have inserted (report : StoredReport) (member : report ∈ ordered) :
      ∃ batch ∈ WriterRun.committed (Process.writerTrace trace), ∃ sent,
        .positionReport sent ∈ batch.2 ∧ report.row = reportRow sent batch.1 :=
    Process.run_reported run (List.mem_map_of_mem (List.mem_of_mem_filter (held.perm.subset member)))
  have received (report : StoredReport) (member : report ∈ ordered) :
      report.row.rank = ((historyRecord report).receivedAt : WithBot Int) := by
    obtain ⟨batch, -, sent, -, same⟩ := inserted report member
    obtain ⟨rowid, row⟩ := report
    subst same
    rw [(historyRecord_reportRow rowid sent batch.1).2]
    rfl
  constructor
  · intro record member
    obtain ⟨report, taken, rfl⟩ := List.mem_map.mp member
    exact ApiServer.historyRecord_mmsi (held.perm.subset (first.subset taken))
  · intro record member
    obtain ⟨report, taken, rfl⟩ := List.mem_map.mp member
    obtain ⟨batch, committed, sent, in_batch, same⟩ := inserted report (first.subset taken)
    obtain ⟨rowid, row⟩ := report
    subst same
    have shown := historyRecord_reportRow rowid sent batch.1
    exact ⟨batch, committed, shown.2.symm, sent, in_batch, shown.1⟩
  · rw [List.pairwise_map]
    refine (held.sorted.sublist first).imp_of_mem fun {a b} taken_a taken_b lower => ?_
    rw [received a (first.subset taken_a), received b (first.subset taken_b)] at lower
    exact WithBot.coe_le_coe.mp lower
  · rw [List.length_map, List.length_take]
    omega

/-! ### Along a run -/

/-- In every run of the pipeline, the API and a page on which ships are selected: the track of every
ship, as the hook returns it, is empty or an answer of the history query at some earlier moment, and
these moments never go back. Its records are reports the feed has sent of that very ship, each under
the time its batch was written, newest first. Once the ship selected now has had an answer and no
error is shown, it is such an answer within the limit asked for. -/
theorem track_follows_feed (client : TcpClient) (capacity1 capacity2 : Nat) (labels : List Event)
    (states : Nat → TrackDisplay) (start : states 0 = initial capacity1 capacity2)
    (along : Along (Step client) states labels) :
    ∃ read : Nat → Nat, Monotone read ∧ ∀ k ≤ labels.length,
      read k ≤ k ∧
      sentBy labels (read k) <+: Pipeline.messagesOf (receivedBy labels (read k)) ∧
      ∀ mmsi : UInt32,
        ((returned (some mmsi.toNat) (states k).page.state).records = [] ∨
          ∃ limit, History (states (read k)).source.writer.connection.stored mmsi limit
            (returned (some mmsi.toNat) (states k).page.state).records) ∧
        TrackOf (committedBy labels (read k)) mmsi (returned (some mmsi.toNat) (states k).page.state).records ∧
        ∀ i x, (states k).page.mounted = some i → (states k).page.instances[i]? = some x →
          x.timer ≠ none → x.deps.mmsi = some mmsi.toNat → Fine (states k).page.state →
          ∃ limit : Int32, limit.toInt = x.deps.limit ∧
            History (states (read k)).source.writer.connection.stored mmsi limit
              (returned (some mmsi.toNat) (states k).page.state).records := by
  obtain ⟨read, monotone, reads⟩ := reads_along (useHistory_shows client) start along
  refine ⟨read, monotone, fun k within => ?_⟩
  have shown := reads k within
  have run := process_run rfl start along (shown.past.trans within)
  refine ⟨shown.past, (Process.run_committed run).1, fun mmsi => ?_⟩
  have answer : (returned (some mmsi.toNat) (states k).page.state).records = [] ∨
      ∃ limit : Int32, (1 ≤ limit.toInt ∧ limit.toInt ≤ 1000) ∧
        History (states (read k)).source.writer.connection.stored mmsi limit
          (returned (some mmsi.toNat) (states k).page.state).records := by
    simp only [returned_records]
    rcases keptRecords_cases mmsi.toNat (states k).page.state with nothing | ⟨data, held, own, kept⟩
    · exact .inl nothing
    · rw [kept]
      rcases shown.display with blank | ⟨deps, records, answered, other, same, selected, rfl⟩
      · exact .inl (blank data held)
      · obtain rfl := Option.some.inj (held.symm.trans same)
        obtain ⟨limit, -, range, found⟩ := history_of_answers answered (selected.trans (congrArg some own))
        exact .inr ⟨limit, range, found⟩
  refine ⟨answer.imp_right fun ⟨limit, _, found⟩ => ⟨limit, found⟩, ?_, ?_⟩
  · rcases answer with nothing | ⟨limit, range, found⟩
    · rw [nothing]
      exact trackOf_nil _ mmsi
    · exact trackOf_history run range found
  · intro i x mounted known settled own fine
    obtain ⟨records, answered, data, held, selected, rfl⟩ := shown.current i x mounted known settled fine
    obtain ⟨limit, asked, -, found⟩ := history_of_answers answered own
    have same : data.mmsi = mmsi.toNat := Option.some.inj (selected.symm.trans own)
    refine ⟨limit, asked, ?_⟩
    rw [returned_records, held]
    simp only [keptRecords, if_pos same]
    exact found

/-- A ship is selected, and the first request for its track answered at once. -/
theorem exists_run_selected (client : TcpClient) (source : Process) (mmsi : UInt32) :
    ∃ polls page, Run (Step client) ⟨source, useHistory.start, []⟩ polls ⟨source, page, []⟩ ∧
      processTrace polls = [] ∧ page.mounted = some 0 ∧
      page.instances[0]? = some { deps := { mmsi := some mmsi.toNat }, timer := some 0 } ∧
      ∃ records, page.state = some ⟨mmsi.toNat, records, none⟩ ∧
        History source.writer.connection.stored mmsi 200 records := by
  let deps : Deps := { mmsi := some mmsi.toNat }
  obtain ⟨records, answer, found⟩ := exists_answer client source mmsi
  let outcome : FetchOutcome := .success records 5
  let asking : PollingEffect.State Deps (Option HistoryData) :=
    { state := none, rendered := some deps, ran := some deps, mounted := some 0
      instances := [{ deps := deps }], requests := [0] }
  let answered : PollingEffect.State Deps (Option HistoryData) :=
    { asking with
      state := some ⟨mmsi.toNat, records, none⟩
      instances := [{ deps := deps, timer := some 0 }], requests := [], timers := [(0, 0)]
      nextTimer := 1 }
  have opens : Step client ⟨source, useHistory.start, []⟩ (.page (.changed deps)) ⟨source, asking, []⟩ :=
    .shows _ (.changed deps) asking (.changes _ deps) fun _ _ _ same => by cases same
  have reads : Step client ⟨source, asking, []⟩ .answered ⟨source, asking, [(0, records)]⟩ :=
    .answers ⟨source, asking, []⟩ 0 _ records (List.mem_singleton_self 0) rfl answer
  have arrives : useHistory.Step asking (.requestSettled 0 outcome) answered :=
    .settles asking 0 _ outcome (List.mem_singleton_self 0) rfl
  have settles : Step client ⟨source, asking, [(0, records)]⟩ (.page (.requestSettled 0 outcome))
      ⟨source, answered, []⟩ := by
    refine .shows ⟨source, asking, [(0, records)]⟩ _ answered arrives fun i other found same brought => ?_
    cases same
    cases brought
    exact List.mem_singleton_self _
  exact ⟨[.page (.changed deps), .answered, .page (.requestSettled 0 outcome)], answered,
    ⟨_, opens, _, reads, _, settles, rfl⟩, rfl, rfl, rfl, records, rfl, found⟩

/-- The track of the one ship of a database. -/
theorem history_report {records : List PositionRecord}
    (found : History (WriterRun.writeBatch .empty (0, [.positionReport reportSent])) 265547250 200 records) :
    records = [reportRecord] := by
  obtain ⟨ordered, descending, rfl⟩ := found
  have own : reportsOf (WriterRun.writeBatch .empty (0, [.positionReport reportSent])) 265547250 =
      [⟨1, reportRow reportSent 0⟩] := by decide +kernel
  rw [own] at descending
  obtain rfl := List.perm_singleton.mp descending.perm
  decide +kernel

/-- A report is received and committed, and its ship selected: the track is the report. -/
theorem track_follows_feed_selected :
    ∃ (labels : List Event) (states : Nat → TrackDisplay) (read : Nat → Nat),
      Along (Step ({} : Config).client) states labels ∧ Monotone read ∧
      sentBy labels labels.length = [.positionReport reportSent] ∧
      (returned (some 265547250) (states labels.length).page.state).records = [reportRecord] ∧
      TrackOf (committedBy labels (read labels.length)) 265547250 [reportRecord] ∧
      ∃ limit : Int32, limit.toInt = 200 ∧
        History (states (read labels.length)).source.writer.connection.stored 265547250 limit [reportRecord] := by
  obtain ⟨trace, s, run, -, -, batch, written⟩ := Process.exists_run_report
  obtain ⟨polls, page, selects, quiet, mounted, instances, records, state, answer⟩ :=
    exists_run_selected ({} : Config).client s 265547250
  have displays : Run (Step ({} : Config).client) (initial 500 500) (trace.map .source ++ polls) ⟨s, page, []⟩ :=
    run_append.mpr ⟨_, run_of_source useHistory.start [] run, selects⟩
  obtain ⟨states, start, last, along⟩ := displays.along
  rw [written] at answer
  obtain rfl := history_report answer
  have track : (returned (some 265547250) page.state).records = [reportRecord] := by
    rw [state]
    rfl
  have fine : Fine page.state := by
    rw [state]
    rintro _ ⟨⟩
    rfl
  obtain ⟨read, monotone, shown⟩ := track_follows_feed ({} : Config).client 500 500 _ states start along
  obtain ⟨-, -, tracks⟩ := shown _ le_rfl
  obtain ⟨-, sent, settled⟩ := tracks 265547250
  rw [last] at sent settled
  obtain ⟨limit, asked, found⟩ := settled 0 _ mounted instances (Option.some_ne_none 0) rfl fine
  refine ⟨_, states, read, along, monotone, ?_, ?_, track ▸ sent, limit, asked, track ▸ found⟩
  · rw [sentBy, committedBy, List.take_length, processTrace_append quiet, batch]
    rfl
  · rwa [last]

end Ais.TrackDisplay
