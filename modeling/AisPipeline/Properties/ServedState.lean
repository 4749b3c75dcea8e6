import AisPipeline.Properties.CrashRecovery
import AisPipeline.Properties.ProcessDelivery
import AisPipeline.Properties.ShipStatic
import AisPipeline.Properties.StaticRoundTrip

/-!
# What the API serves of the feed

With a clock that is not set back, the answer of the reader is a function of the
messages in the lines received: where chunks, lines and batches were cut does
not show in it.
-/
namespace Ais.Process

open Cpp Transition SqliteWriter PositionReader

/-! ### What should be served -/

/-- A report of a ship that carries a position. -/
def positioned? (mmsi : Int) : AisMessage → Option PositionReport
  | .positionReport report =>
    if report.mmsi.toInt32.toInt = mmsi ∧ report.latitude.isSome ∧ report.longitude.isSome
    then some report else none
  | .staticVoyageData _ | .staticDataPartA _ | .staticDataPartB _ => none

/-- Its last report with a position. -/
def lastPosition (mmsi : Int) (messages : List AisMessage) : Option PositionReport :=
  (messages.filterMap (positioned? mmsi)).getLast?

/-- The last value of a column any static message of the ship has brought. -/
def lastStatic (mmsi : Int) (messages : List AisMessage) (column : StaticColumn) :
    Option column.Value :=
  lastCarried (messages.filter fun message => ship? message = some mmsi) column

/-- A record shows the last position of a ship and its last static data. -/
structure Serves (messages : List AisMessage) (mmsi : Int) (record : PositionRecord) : Prop where
  report : (lastPosition mmsi messages).map stored = some record.report
  name : record.name = lastStatic mmsi messages .name
  callSign : record.callSign = lastStatic mmsi messages .callSign
  destination : record.destination = lastStatic mmsi messages .destination
  shipType : record.shipType.map Int32.toInt = lastStatic mmsi messages .shipType

/-! ### Positions -/

variable {mmsi : Int} {sent : List (Int × AisMessage)} {batches : List (Int × List AisMessage)}

/-- The same report with the timestamp it is inserted under. -/
def stamped? (mmsi : Int) (sent : Int × AisMessage) : Option (Int × PositionReport) :=
  (positioned? mmsi sent.2).map fun report => (sent.1, report)

private theorem positioned?_mmsi {message : AisMessage} {report : PositionReport}
    (positioned : positioned? mmsi message = some report) : report.mmsi.toInt32.toInt = mmsi := by
  cases message with
  | positionReport other =>
    rw [positioned?] at positioned
    split at positioned
    next shown =>
      cases positioned
      exact shown.1
    next hidden => cases positioned
  | staticVoyageData | staticDataPartA | staticDataPartB => cases positioned

/-- A served record is of a report that was sent. -/
theorem Serves.exists_report {messages : List AisMessage} {record : PositionRecord}
    (serves : Serves messages mmsi record) :
    ∃ report, .positionReport report ∈ messages ∧ report.mmsi.toInt32.toInt = mmsi ∧
      record.report = stored report := by
  obtain ⟨report, last, same⟩ := Option.map_eq_some_iff.mp serves.report
  obtain ⟨message, sent, positioned⟩ := List.mem_filterMap.mp (List.mem_of_getLast? last)
  refine ⟨report, ?_, positioned?_mmsi positioned, same.symm⟩
  cases message with
  | positionReport other =>
    obtain ⟨-, shown⟩ := Option.ite_none_right_eq_some.mp positioned
    cases shown
    exact sent
  | staticVoyageData | staticDataPartA | staticDataPartB => cases positioned

private theorem positioned_reportRow_iff {report : PositionReport} {receivedAt : Int} :
    (reportRow report receivedAt).Positioned mmsi ↔
      report.mmsi.toInt32.toInt = mmsi ∧ report.latitude.isSome ∧ report.longitude.isSome := by
  simp [PositionRow.Positioned, reportRow]

private theorem positionsOf_insertedBy (sent : Int × AisMessage) :
    positionsOf mmsi (insertedBy sent.2 sent.1) =
      ((stamped? mmsi sent).map fun at_ => reportRow at_.2 at_.1).toList := by
  obtain ⟨receivedAt, message⟩ := sent
  cases message with
  | positionReport report =>
    rw [insertedBy, positionsOf, stamped?, positioned?]
    by_cases shown : report.mmsi.toInt32.toInt = mmsi ∧ report.latitude.isSome ∧
        report.longitude.isSome
    · rw [if_pos shown, List.filter_cons_of_pos (by simpa using positioned_reportRow_iff.mpr shown)]
      rfl
    · rw [if_neg shown, List.filter_cons_of_neg (by simpa using mt positioned_reportRow_iff.mp shown)]
      rfl
  | staticVoyageData | staticDataPartA | staticDataPartB => rfl

private theorem positionsOf_inserted (mmsi : Int) (sent : List (Int × AisMessage)) :
    positionsOf mmsi (sent.flatMap fun at_ => insertedBy at_.2 at_.1) =
      (sent.filterMap (stamped? mmsi)).map fun at_ => reportRow at_.2 at_.1 := by
  induction sent with
  | nil => rfl
  | cons first sent ih =>
    rw [List.flatMap_cons, positionsOf, List.filter_append, ← positionsOf, ← positionsOf, ih,
      positionsOf_insertedBy]
    cases found : stamped? mmsi first with
    | none => rw [List.filterMap_cons_none found]; rfl
    | some at_ => rw [List.filterMap_cons_some found]; rfl

private theorem reportsOf_messagesOf (batches : List (Int × List AisMessage)) :
    batches.flatMap WriterRun.reportsOf =
      (messagesOf batches).flatMap fun at_ => insertedBy at_.2 at_.1 := by
  rw [messagesOf, List.flatMap_assoc]
  congr 1
  funext batch
  rw [WriterRun.reportsOf, List.flatMap_map]

theorem snd_messagesOf (batches : List (Int × List AisMessage)) :
    (messagesOf batches).map Prod.snd = batches.flatMap Prod.snd := by
  rw [messagesOf, List.map_flatMap]
  congr 1
  funext batch
  rw [List.map_map]
  exact List.map_id _

/-- In order of time the newest report is the last one. -/
private theorem newestPosition_of_ordered
    (ordered : sent.Pairwise fun earlier later => earlier.1 ≤ later.1) :
    newestPosition mmsi (sent.flatMap fun at_ => insertedBy at_.2 at_.1) =
      (sent.filterMap (stamped? mmsi)).getLast?.map fun at_ =>
        ⟨(reportRow at_.2 at_.1).toPositionColumns, mmsi⟩ := by
  have times : (sent.filterMap (stamped? mmsi)).Pairwise fun earlier later => earlier.1 ≤ later.1 := by
    refine ordered.filterMap _ fun earlier later low a shown b shown' => ?_
    obtain ⟨_, -, rfl⟩ := Option.map_eq_some_iff.mp shown
    obtain ⟨_, -, rfl⟩ := Option.map_eq_some_iff.mp shown'
    exact low
  rw [newestPosition, positionsOf_inserted, Newest.newest_of_ordered, List.getLast?_map,
    Option.map_map]
  · rfl
  · rw [List.pairwise_map]
    exact times.imp fun {_ _} low => WithBot.coe_le_coe.mpr low

private theorem lastPosition_eq (sent : List (Int × AisMessage)) :
    lastPosition mmsi (sent.map Prod.snd) =
      (sent.filterMap (stamped? mmsi)).getLast?.map Prod.snd := by
  rw [lastPosition, ← List.getLast?_map, List.map_filterMap, List.filterMap_map]
  congr 2
  funext at_
  rw [Function.comp_apply, stamped?, Option.map_map]
  exact Option.map_id'.symm

/-! ### Static data -/

private theorem static_eq (ordered : (batches.map Prod.fst).Pairwise (· ≤ ·)) (mmsi : Int) (column : StaticColumn) :
    ((WriterRun.writeBatches .empty batches).shipStatic.row? mmsi).bind (fun row => row.column column) =
      lastStatic mmsi (batches.flatMap Prod.snd) column := by
  have fresh : Database.empty.shipStatic.row? mmsi = none := rfl
  have shown := writeAll_shows fresh (messagesOf batches)
  have stamps : ((staticOf mmsi (messagesOf batches)).map staticWrite).Pairwise
      fun earlier later => earlier.stamp ≤ later.stamp := by
    rw [List.pairwise_map]
    exact (WriterRun.messagesOf_ordered ordered).filter _
  rw [← WriterRun.writeBatches_eq, Register.run_of_ordered stamps] at shown
  have own : (staticOf mmsi (messagesOf batches)).map Prod.snd =
      (batches.flatMap Prod.snd).filter fun message => ship? message = some mmsi := by
    rw [← snd_messagesOf, staticOf, List.filter_map]
    rfl
  rw [lastStatic, ← own, ← lastValue_staticWrite]
  generalize (WriterRun.writeBatches .empty batches).shipStatic.row? mmsi = found at shown ⊢
  cases at_end : ((staticOf mmsi (messagesOf batches)).map staticWrite).getLast? with
  | none =>
    rw [at_end] at shown
    cases shown
    rw [List.getLast?_eq_none_iff.mp at_end]
    rfl
  | some last =>
    rw [at_end] at shown
    cases shown with
    | @some row cell shows_ => exact shows_.column column

/-! ### Static data

The reader cuts a text at its first NUL and a ship type to 32 bits. Nothing that was decoded is longer. -/

/-- Of a text column a message brings NULL or one of its texts. -/
private theorem carried_texts {message : AisMessage} {text : Bytes}
    (brings : carried message .name = some (some text) ∨ carried message .callSign = some (some text) ∨
      carried message .destination = some (some text)) : text ∈ message.texts := by
  have of_value {own : Bytes} (value : textValue own = some text) : text = own := by
    rw [textValue] at value
    split at value
    · cases value
    · exact (Option.some.inj value).symm
  cases message with
  | positionReport report => simp [carried] at brings
  | staticVoyageData data =>
    simp only [carried, voyageValue, Option.some.injEq] at brings
    simp only [AisMessage.texts, List.mem_cons, List.not_mem_nil, or_false]
    rcases brings with value | value | value
    · exact .inr (.inl (of_value value))
    · exact .inl (of_value value)
    · exact .inr (.inr (of_value value))
  | staticDataPartA data =>
    simp only [carried, Option.some.injEq, reduceCtorEq, or_false] at brings
    exact List.mem_singleton.mpr (of_value brings)
  | staticDataPartB data =>
    simp only [carried, Option.some.injEq, reduceCtorEq, or_false, false_or] at brings
    exact List.mem_singleton.mpr (of_value brings)

private theorem carried_shipType {message : AisMessage} {code : Int}
    (brings : carried message .shipType = some (some code)) : 0 ≤ code ∧ code < 256 := by
  cases message with
  | positionReport report => cases brings
  | staticVoyageData data | staticDataPartB data =>
    cases brings
    have small := data.shipType.toNat_lt
    omega
  | staticDataPartA data => cases brings

private theorem exists_carried_of_last {mmsi : Int} {messages : List AisMessage} {column : StaticColumn}
    {value : column.Value} (last : lastStatic mmsi messages column = some value) :
    ∃ message ∈ messages, carried message column = some (some value) := by
  rw [lastStatic, lastCarried, Option.join_eq_some_iff] at last
  obtain ⟨message, member, brings⟩ := List.mem_filterMap.mp (List.mem_of_getLast? last)
  exact ⟨message, (List.mem_filter.mp member).1, brings⟩

private theorem map_columnText {found : Option Bytes} {messages : List AisMessage} {lines : List Bytes}
    (heard : messages <+: Pipeline.messagesOf lines)
    (brought : ∀ text, found = some text → ∃ message ∈ messages, carried message .name = some (some text) ∨
      carried message .callSign = some (some text) ∨ carried message .destination = some (some text)) :
    found.map columnText = found := by
  cases found with
  | none => rfl
  | some text =>
    obtain ⟨message, member, brings⟩ := brought text rfl
    obtain ⟨payload, decoded⟩ := Pipeline.exists_payload_of_mem_messagesOf (heard.subset member)
    have printable := (messageAt_presentable decoded text (carried_texts brings)).printable
    have whole : columnText text = text := by
      rw [columnText, List.takeWhile_eq_self_iff]
      intro c here
      obtain ⟨above, -⟩ := printable c here
      rw [decide_eq_true_eq]
      rintro rfl
      exact absurd above (by decide)
    rw [Option.map_some, whole]

private theorem map_shipType {found : Option Int} (small : ∀ code, found = some code → 0 ≤ code ∧ code < 256) :
    (found.map Int32.ofInt).map Int32.toInt = found := by
  cases found with
  | none => rfl
  | some code =>
    obtain ⟨low, high⟩ := small code rfl
    rw [Option.map_some, Option.map_some, Int32.toInt_ofInt_of_le (by omega) (by omega)]

/-! ### Every run -/

variable {client : TcpClient} {capacity1 capacity2 : Nat} {trace : List Event} {s : Process}

/-- The latest positions on disk are those of the reports committed. -/
private theorem run_agrees (run : Run (Step client) (initial capacity1 capacity2 .empty) trace s) :
    Agrees ((messagesOf (WriterRun.committed (writerTrace trace))).flatMap fun at_ =>
      insertedBy at_.2 at_.1) s.writer.connection.stored := by
  have writing := run_writer run
  -- nothing is there before the first batch
  have start : (({} : DatabaseFile).positionReports.getD .empty).rows = [] := rfl
  have unstamped : ∀ row ∈ (({} : DatabaseFile).positionReports.getD .empty).rows,
      row.receivedAt ≠ none := by
    rw [start]
    exact fun row member => absurd member List.not_mem_nil
  obtain ⟨opened, opening, first⟩ := openDatabase_first rfl unstamped
  obtain rfl : Database.empty = opened := Option.some.inj opening
  have agrees := Disk.loop_agrees opening first rfl writing
  rwa [start, List.nil_append, reportsOf_messagesOf] at agrees

private theorem exists_report_of_mem {row : PositionRow}
    (inserted : row ∈ (messagesOf batches).flatMap fun at_ => insertedBy at_.2 at_.1) :
    ∃ batch ∈ batches, ∃ report, .positionReport report ∈ batch.2 ∧ row = reportRow report batch.1 := by
  obtain ⟨⟨receivedAt, message⟩, sent, made⟩ := List.mem_flatMap.mp inserted
  obtain ⟨batch, member, in_batch⟩ := List.mem_flatMap.mp sent
  obtain ⟨_, message_in, same⟩ := List.mem_map.mp in_batch
  cases same
  cases message with
  | positionReport report => exact ⟨batch, member, report, message_in, List.mem_singleton.mp made⟩
  | staticVoyageData | staticDataPartA | staticDataPartB => cases made

/-- A report that is held was in a batch. -/
theorem run_reported (run : Run (Step client) (initial capacity1 capacity2 .empty) trace s) {row : PositionRow}
    (held : row ∈ s.writer.connection.stored.positionReports.rows) :
    ∃ batch ∈ WriterRun.committed (writerTrace trace), ∃ report,
      .positionReport report ∈ batch.2 ∧ row = reportRow report batch.1 :=
  exists_report_of_mem ((run_agrees run).held.subset held)

/-- A record carries the time of a batch that brought its report, whatever the clock did. -/
theorem run_receivedAt (run : Run (Step client) (initial capacity1 capacity2 .empty) trace s)
    {record : PositionRecord} (served : record ∈ PositionReader.latestPositions s.writer.connection.stored) :
    ∃ batch ∈ WriterRun.committed (writerTrace trace), batch.1 = record.receivedAt ∧
      ∃ report, .positionReport report ∈ batch.2 ∧ record.report = stored report := by
  have agrees := run_agrees run
  generalize WriterRun.committed (writerTrace trace) = batches at agrees ⊢
  rw [PositionReader.latestPositions, KeyedTable.leftJoin_eq, List.map_map] at served
  obtain ⟨row, member, rfl⟩ := List.mem_map.mp served
  have found : s.writer.connection.stored.latestPositions.row? row.mmsi = some row :=
    KeyedTable.row?_eq_some_iff.mpr ⟨member, rfl⟩
  rw [agrees.latest] at found
  obtain ⟨inserted, newest, shown⟩ := newestPosition_eq_some_iff.mp found
  obtain ⟨in_history, own, -⟩ := mem_positionsOf.mp newest.mem
  obtain ⟨batch, in_batches, report, sent, rfl⟩ := exists_report_of_mem in_history
  have carries : Carries row.mmsi _ (s.writer.connection.stored.shipStatic.row? row.mmsi) _ :=
    readCurrentRow_carries own (Option.some_ne_none batch.1)
  rw [shown] at carries
  exact ⟨batch, in_batches, Option.some.inj carries.receivedAt, report, sent, carries.written _ _ rfl⟩

/-- The reader's answer is made from the messages committed. -/
theorem run_serves (run : Run (Step client) (initial capacity1 capacity2 .empty) trace s)
    (ordered : ((WriterRun.committed (writerTrace trace)).map Prod.fst).Pairwise (· ≤ ·)) :
    ∃ ships : List Int, ships.Nodup ∧
      (∀ mmsi, mmsi ∈ ships ↔ lastPosition mmsi
        ((WriterRun.committed (writerTrace trace)).flatMap Prod.snd) ≠ none) ∧
      List.Forall₂ (Serves ((WriterRun.committed (writerTrace trace)).flatMap Prod.snd)) ships
        (PositionReader.latestPositions s.writer.connection.stored) := by
  have writing := run_writer run
  have agrees := run_agrees run
  have statics := (WriterRun.run_sameButReports writing).shipStatic
  have heard := (run_committed run).1
  generalize WriterRun.committed (writerTrace trace) = batches at agrees statics ordered heard ⊢
  generalize s.writer.connection.stored = db at agrees statics ⊢
  have times := WriterRun.messagesOf_ordered ordered
  have latest (mmsi : Int) : db.latestPositions.row? mmsi =
      ((messagesOf batches).filterMap (stamped? mmsi)).getLast?.map fun at_ =>
        ⟨(reportRow at_.2 at_.1).toPositionColumns, mmsi⟩ := by
    rw [agrees.latest, newestPosition_of_ordered times]
  refine ⟨db.latestPositions.rows.map LatestRow.mmsi, db.latestPositions.distinct, fun mmsi => ?_, ?_⟩
  · rw [← not_iff_not, not_ne_iff, ← KeyedTable.row?_eq_none_iff, latest, ← snd_messagesOf,
      lastPosition_eq, Option.map_eq_none_iff, Option.map_eq_none_iff]
  · rw [PositionReader.latestPositions, KeyedTable.leftJoin_eq, List.map_map,
      List.forall₂_map_left_iff, List.forall₂_map_right_iff, List.forall₂_same]
    intro row member
    have found : db.latestPositions.row? row.mmsi = some row :=
      KeyedTable.row?_eq_some_iff.mpr ⟨member, rfl⟩
    rw [latest, Option.map_eq_some_iff] at found
    obtain ⟨⟨receivedAt, report⟩, last, shown⟩ := found
    have own : (reportRow report receivedAt).mmsi = some row.mmsi := by
      obtain ⟨sent, -, positioned⟩ := List.mem_filterMap.mp (List.mem_of_getLast? last)
      obtain ⟨_, is_positioned, same⟩ := Option.map_eq_some_iff.mp positioned
      cases same
      exact congrArg some (positioned?_mmsi is_positioned)
    have carries : Carries row.mmsi _ (db.shipStatic.row? row.mmsi) _ :=
      readCurrentRow_carries own (Option.some_ne_none receivedAt)
    have columns (column : StaticColumn) :
        (db.shipStatic.row? row.mmsi).bind (fun ship => ship.column column) =
          lastStatic row.mmsi (batches.flatMap Prod.snd) column := by
      rw [statics, static_eq ordered]
    rw [shown] at carries
    refine ⟨?_, ?_, ?_, ?_, ?_⟩
    · rw [← snd_messagesOf, lastPosition_eq, last]
      exact congrArg some (carries.written report receivedAt rfl).symm
    · refine carries.name.trans ((congrArg (Option.map columnText) (columns .name)).trans ?_)
      exact map_columnText heard fun text last =>
        (exists_carried_of_last last).imp fun _ => And.imp_right .inl
    · refine carries.callSign.trans ((congrArg (Option.map columnText) (columns .callSign)).trans ?_)
      exact map_columnText heard fun text last =>
        (exists_carried_of_last last).imp fun _ => And.imp_right (.inr ∘ .inl)
    · refine carries.destination.trans ((congrArg (Option.map columnText) (columns .destination)).trans ?_)
      exact map_columnText heard fun text last =>
        (exists_carried_of_last last).imp fun _ => And.imp_right (.inr ∘ .inr)
    · refine (congrArg (Option.map Int32.toInt) (carries.shipType.trans
        (congrArg (Option.map Int32.ofInt) (columns .shipType)))).trans (map_shipType fun code last => ?_)
      obtain ⟨message, -, brings⟩ := exists_carried_of_last last
      exact carried_shipType brings

/-- What is served is what was sent. On a new database, and as long as the clock is not set back from
one batch to the next, the reader has at every moment of every run one record for
each ship with a position among the first messages of the feed: its last report with a position and
the last value of each static column. How the bytes, the lines and the batches were cut does not
matter, and once `main` has returned these are all messages of the feed. -/
theorem served_state (client : TcpClient) (capacity1 capacity2 : Nat) (trace : List Event)
    (s : Process) (run : Run (Step client) (initial capacity1 capacity2 .empty) trace s)
    (ordered : ((WriterRun.committed (writerTrace trace)).map Prod.fst).Pairwise (· ≤ ·)) :
    ∃ messages, messages <+: Pipeline.messagesOf (ClientThread.received (clientTrace trace)) ∧
      (s.main = .returned →
        messages = Pipeline.messagesOf (ClientThread.received (clientTrace trace))) ∧
      ∃ ships : List Int, ships.Nodup ∧
        (∀ mmsi, mmsi ∈ ships ↔ lastPosition mmsi messages ≠ none) ∧
        List.Forall₂ (Serves messages) ships
          (PositionReader.latestPositions s.writer.connection.stored) := by
  obtain ⟨first, all⟩ := run_committed run
  exact ⟨_, first, all, run_serves run ordered⟩

/-- A report on one line is served. -/
theorem served_state_report :
    ∃ trace s messages, Run (Step ({} : Config).client) (initial 500 500 .empty) trace s ∧
      messages = [.positionReport reportSent] ∧
      ∃ ships : List Int, ships.Nodup ∧
        (∀ mmsi, mmsi ∈ ships ↔ lastPosition mmsi messages ≠ none) ∧
        List.Forall₂ (Serves messages) ships
          (PositionReader.latestPositions s.writer.connection.stored) := by
  obtain ⟨trace, s, run, returned, received, committed, -⟩ := exists_run_report
  obtain ⟨messages, -, all, shown⟩ := served_state ({} : Config).client 500 500 trace s run
    (by rw [committed]; exact List.pairwise_singleton _ _)
  refine ⟨trace, s, messages, run, ?_, shown⟩
  rw [all returned, received, Pipeline.messagesOf_reportUncut]

end Ais.Process
