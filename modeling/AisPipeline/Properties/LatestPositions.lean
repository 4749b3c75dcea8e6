import AisPipeline.Api.PositionReader
import AisPipeline.Lib.Newest
import AisPipeline.Pipeline.SqliteWriter

/-!
# `latest_positions` and history

The trigger, the backfill and pruning keep one thing: for each ship the table
holds the newest report with a position that was ever committed.
-/
namespace Ais.SqliteWriter

open Cpp Newest Transition

/-- The reports of a ship that carry a position. -/
def positionsOf (mmsi : Int) (history : List PositionRow) : List PositionRow :=
  history.filter fun row => row.Positioned mmsi

/-- The newest position of a ship in a history. -/
noncomputable def newestPosition (mmsi : Int) (history : List PositionRow) : Option LatestRow :=
  (newest (fun row => row.rank) (positionsOf mmsi history)).map fun row =>
    ⟨row.toPositionColumns, mmsi⟩

theorem mem_positionsOf {mmsi : Int} {history : List PositionRow} {row : PositionRow} :
    row ∈ positionsOf mmsi history ↔ row ∈ history ∧ row.Positioned mmsi := by
  simp [positionsOf]

theorem newestPosition_eq_some_iff {mmsi : Int} {history : List PositionRow} {latest : LatestRow} :
    newestPosition mmsi history = some latest ↔
      ∃ row, IsNewest (fun row => row.rank) (positionsOf mmsi history) row ∧
        ⟨row.toPositionColumns, mmsi⟩ = latest := by
  simp only [newestPosition, Option.map_eq_some_iff, newest_eq_some_iff]

theorem newestPosition_eq_none_iff {mmsi : Int} {history : List PositionRow} :
    newestPosition mmsi history = none ↔ positionsOf mmsi history = [] := by
  simp only [newestPosition, Option.map_eq_none_iff, newest_eq_none]

private theorem latest?_of_positioned {row : PositionRow} {mmsi : Int}
    (positioned : row.Positioned mmsi) : row.latest? = some ⟨row.toPositionColumns, mmsi⟩ :=
  PositionRow.latest?_eq_some_iff.mpr ⟨positioned, rfl⟩

/-! ### One report -/

theorem newestPosition_append {mmsi : Int} {history : List PositionRow} {new : PositionRow} :
    newestPosition mmsi (history ++ [new]) =
      if new.Positioned mmsi then
        match newestPosition mmsi history with
        | none => new.latest?
        | some old => if old.rank ≤ new.rank then new.latest? else some old
      else newestPosition mmsi history := by
  split
  next positioned =>
    have longer : positionsOf mmsi (history ++ [new]) = positionsOf mmsi history ++ [new] := by
      simp [positionsOf, positioned]
    rw [newestPosition, longer, newest_append_singleton, latest?_of_positioned positioned,
      newestPosition]
    cases newest (fun row => row.rank) (positionsOf mmsi history) with
    | none => rfl
    | some best =>
      simp only [Option.map_some]
      split <;> rfl
  next bare =>
    have same : positionsOf mmsi (history ++ [new]) = positionsOf mmsi history := by
      simp [positionsOf, bare]
    rw [newestPosition, same, newestPosition]

theorem afterInsert_row? {mmsi : Int} {table : LatestPositions} {new : PositionRow} :
    (table.afterInsert new).row? mmsi =
      if new.Positioned mmsi then
        match table.row? mmsi with
        | none => new.latest?
        | some old => if sqlGe new.receivedAt old.receivedAt then new.latest? else some old
      else table.row? mmsi := by
  by_cases positioned : new.Positioned mmsi
  · rw [if_pos positioned, LatestPositions.afterInsert, latest?_of_positioned positioned]
    simp only [KeyedTable.row?_upsert, if_true]
    cases found : table.row? mmsi with
    | none => rfl
    | some old =>
      -- the update names every column, so it replaces the row or keeps it
      have same : old.mmsi = (LatestRow.mk new.toPositionColumns mmsi).mmsi :=
        KeyedTable.row?_key found
      simp only [Option.elim_some, LatestRow.update_eq same]
      split <;> rfl
  -- the trigger does not fire, or fires for another ship
  · rw [if_neg positioned, LatestPositions.afterInsert]
    cases shown : new.latest? with
    | none => rfl
    | some excluded =>
      have other : mmsi ≠ excluded.mmsi := by
        rintro rfl
        exact positioned (PositionRow.latest?_eq_some_iff.mp shown).1
      simp only [KeyedTable.row?_upsert, if_neg other]

/-- What ties a database to the reports inserted so far. Old reports may be gone. -/
structure Agrees (history : List PositionRow) (db : Database) : Prop where
  held : db.positionReports.rows.Sublist history
  stamped : ∀ row ∈ history, row.receivedAt ≠ none
  latest : ∀ mmsi, db.latestPositions.row? mmsi = newestPosition mmsi history

theorem Agrees.insertReport {history : List PositionRow} {db : Database} {row : PositionRow}
    (agrees : Agrees history db) (stamped : row.receivedAt ≠ none) :
    Agrees (history ++ [row]) (db.insertReport row) where
  held := by
    rw [Database.insertReport, PositionReports.rows_insert]
    exact agrees.held.append_right [row]
  stamped := by
    intro other member
    rcases List.mem_append.mp member with old | new
    · exact agrees.stamped other old
    · rwa [List.mem_singleton.mp new]
  latest := by
    intro mmsi
    rw [Database.insertReport, afterInsert_row?, newestPosition_append, agrees.latest]
    split
    next positioned =>
      cases found : newestPosition mmsi history with
      | none => rfl
      | some old =>
        obtain ⟨best, newest_best, rfl⟩ := newestPosition_eq_some_iff.mp found
        have old_stamped := agrees.stamped best (mem_positionsOf.mp newest_best.mem).1
        -- every report is stamped, so the guard compares times and no NULL
        have same := @sqlGe_iff row.toPositionColumns best.toPositionColumns stamped old_stamped
        simp only [same]
    next bare => rfl

/-- Static data is none of its business. -/
theorem Agrees.upsertStatic {history : List PositionRow} {db : Database}
    (agrees : Agrees history db) (excluded : ShipStaticRow)
    (set : ShipStaticRow → ShipStaticRow → ShipStaticRow)
    (keeps : ∀ excluded old, (set excluded old).mmsi = old.mmsi) :
    Agrees history (upsertStatic db excluded set keeps) :=
  ⟨agrees.held, agrees.stamped, agrees.latest⟩

theorem Agrees.write {history : List PositionRow} {db : Database} (agrees : Agrees history db)
    (message : AisMessage) (receivedAt : Int) :
    Agrees (history ++ insertedBy message receivedAt) (write db message receivedAt) := by
  cases message with
  | positionReport report => exact agrees.insertReport (Option.some_ne_none receivedAt)
  | staticVoyageData data =>
    rw [insertedBy, List.append_nil]
    exact agrees.upsertStatic (voyageRow data receivedAt) setVoyage fun _ _ => rfl
  | staticDataPartA data =>
    rw [insertedBy, List.append_nil]
    exact agrees.upsertStatic (partARow data receivedAt) setPartA fun _ _ => rfl
  | staticDataPartB data =>
    rw [insertedBy, List.append_nil]
    exact agrees.upsertStatic (partBRow data receivedAt) setPartB fun _ _ => rfl

theorem Agrees.prune {history : List PositionRow} {db : Database} (agrees : Agrees history db)
    {reports : PositionReports} (fewer : reports.rows.Sublist db.positionReports.rows) :
    Agrees history { db with positionReports := reports } :=
  ⟨fewer.trans agrees.held, agrees.stamped, agrees.latest⟩

/-! ### Opening -/

private theorem not_precedes_iff {other report : StoredReport} :
    ¬ other.precedes report ↔ other.row.rank ≤ report.row.rank ∧
      (other.row.rank = report.row.rank → other.rowid ≤ report.rowid) := by
  unfold StoredReport.precedes
  rw [sqlBelow_iff, not_or, not_lt, not_and, not_lt]
  rfl

/-- The backfill ranks the newest report of each ship first. -/
theorem mem_backfill {table : PositionReports} {mmsi : Int} {latest : LatestRow} :
    latest ∈ table.backfill ∧ latest.mmsi = mmsi ↔ newestPosition mmsi table.rows = some latest := by
  -- the partition of one ship, in rowid order
  have partition : positionsOf mmsi table.rows =
      (table.stored.filter fun report => report.row.Positioned mmsi).map StoredReport.row := by
    rw [positionsOf, PositionReports.rows, List.filter_map]
    rfl
  have ascending := table.ascending.filter fun report => report.row.Positioned mmsi
  simp only [newestPosition_eq_some_iff, partition, isNewest_map_iff,
    isNewest_iff_of_ascending ascending, PositionReports.backfill, List.mem_filterMap,
    Option.ite_none_right_eq_some, PositionReports.rowNumber_eq_one, not_precedes_iff]
  constructor
  · rintro ⟨⟨report, member, first, shown⟩, rfl⟩
    obtain ⟨positioned, columns⟩ := PositionRow.latest?_eq_some_iff.mp shown
    refine ⟨report.row, ⟨report, ⟨by simp [member, positioned], fun other in_partition => ?_⟩, rfl⟩,
      by rw [← columns]⟩
    obtain ⟨other_member, other_positioned⟩ := List.mem_filter.mp in_partition
    replace other_positioned := of_decide_eq_true other_positioned
    exact first other other_member (by simp [latest?_of_positioned other_positioned])
      (other_positioned.1.trans positioned.1.symm)
  · rintro ⟨row, ⟨report, ⟨in_partition, first⟩, rfl⟩, rfl⟩
    obtain ⟨member, positioned⟩ := List.mem_filter.mp in_partition
    replace positioned := of_decide_eq_true positioned
    refine ⟨⟨report, member, fun other other_member shown same => ?_,
      latest?_of_positioned positioned⟩, rfl⟩
    obtain ⟨latest, shown⟩ := Option.isSome_iff_exists.mp shown
    have other_positioned := (PositionRow.latest?_eq_some_iff.mp shown).1
    have one_ship : latest.mmsi = mmsi :=
      Option.some.inj (other_positioned.1.symm.trans (same.trans positioned.1))
    exact first other (by simp [other_member, one_ship ▸ other_positioned])

theorem row?_backfill {table : PositionReports} {mmsi : Int} :
    (KeyedTable.mk table.backfill table.backfill_distinct).row? mmsi =
      newestPosition mmsi table.rows := by
  refine Option.ext fun latest => ?_
  rw [KeyedTable.row?_eq_some_iff]
  exact mem_backfill

/-- The first writer to open a file without `latest_positions` fills it from history. -/
theorem openDatabase_first {file : DatabaseFile} (fresh : file.latestPositions = none)
    (stamped : ∀ row ∈ (file.positionReports.getD .empty).rows, row.receivedAt ≠ none) :
    ∃ db, openDatabase file = some db ∧ Agrees (file.positionReports.getD .empty).rows db := by
  rw [openDatabase, fresh]
  simp only [Option.getD_none]
  rw [if_pos (by rfl), KeyedTable.insertAll_empty (PositionReports.backfill_distinct _)]
  exact ⟨_, rfl, List.Sublist.refl _, stamped, fun mmsi => row?_backfill⟩

/-- Where the table is empty no report with a position is left to select. -/
theorem Agrees.backfill_eq_nil {history : List PositionRow} {db : Database}
    (agrees : Agrees history db) (nothing : db.latestPositions.rows = []) :
    db.positionReports.backfill = [] := by
  rw [List.eq_nil_iff_forall_not_mem]
  intro latest selected
  obtain ⟨row, newest_row, -⟩ := newestPosition_eq_some_iff.mp (mem_backfill.mp ⟨selected, rfl⟩)
  obtain ⟨held, positioned⟩ := mem_positionsOf.mp newest_row.mem
  have absent : newestPosition latest.mmsi history = none := by
    rw [← agrees.latest, KeyedTable.row?, nothing]
    rfl
  rw [newestPosition_eq_none_iff] at absent
  have member := mem_positionsOf.mpr ⟨agrees.held.subset held, positioned⟩
  simp [absent] at member

/-- Opening again succeeds and changes nothing. -/
theorem openDatabase_again {history : List PositionRow} {db : Database}
    (agrees : Agrees history db) : openDatabase db.file = some db := by
  rw [openDatabase, Database.file]
  simp only [Option.getD_some]
  split
  -- an empty table is filled again, but no report with a position is left
  next nothing =>
    rw [agrees.backfill_eq_nil (List.isEmpty_iff.mp nothing), KeyedTable.insertAll_nil]
    rfl
  next => rfl

/-! ### Every run -/

/-- What holds along a run: the committed tables agree with the committed reports, and the
working copy of a transaction with these and its own. -/
def Kept (file : DatabaseFile) (trace : List Event) : Session → Prop
  | .untouched found => found = file ∧ journal file trace = journal file []
  | .live db none => Agrees (journal file trace).committed db ∧ (journal file trace).pending = []
  | .live db (some working) =>
    Agrees (journal file trace).committed db ∧
      Agrees ((journal file trace).committed ++ (journal file trace).pending) working

theorem step_kept {file : DatabaseFile} (fresh : file.latestPositions = none)
    (stamped : ∀ row ∈ (file.positionReports.getD .empty).rows, row.receivedAt ≠ none)
    {trace : List Event} {s t : Session} {event : Event} (kept : Kept file trace s)
    (step : Step s event t) : Kept file (trace ++ [event]) t := by
  cases step with
  | opens s db opened =>
    cases s with
    | untouched found =>
      -- the first opening fills the table
      obtain ⟨rfl, start⟩ := kept
      obtain ⟨first, opens, agrees⟩ := openDatabase_first fresh stamped
      obtain rfl : first = db := Option.some.inj (opens.symm.trans opened)
      simp only [Kept, journal_append, Journal.record, start]
      exact ⟨agrees, trivial⟩
    | live old transaction =>
      -- a later one finds it filled and loses an open transaction
      have agrees : Agrees (journal file trace).committed old := by
        cases transaction with
        | none => exact kept.1
        | some working => exact kept.1
      simp only [Session.file, openDatabase_again agrees] at opened
      cases opened
      simp only [Kept, journal_append, Journal.record]
      exact ⟨agrees, trivial⟩
  | begins db =>
    obtain ⟨agrees, none_pending⟩ := kept
    simp only [Kept, journal_append, Journal.record, none_pending, List.append_nil]
    exact ⟨agrees, agrees⟩
  | writes db working message receivedAt =>
    obtain ⟨agrees, working_agrees⟩ := kept
    simp only [Kept, journal_append, Journal.record, ← List.append_assoc]
    exact ⟨agrees, working_agrees.write message receivedAt⟩
  -- what was pending is committed, and the working copy is the database
  | commits db working =>
    obtain ⟨agrees, working_agrees⟩ := kept
    simp only [Kept, journal_append, Journal.record]
    exact ⟨working_agrees, trivial⟩
  | rollsBack db working =>
    obtain ⟨agrees, working_agrees⟩ := kept
    simp only [Kept, journal_append, Journal.record]
    exact ⟨agrees, trivial⟩
  -- reports go, `latest_positions` stays
  | prunes db cutoff reports total pruned =>
    obtain ⟨agrees, none_pending⟩ := kept
    simp only [Kept, journal_append, Journal.record]
    exact ⟨agrees.prune pruned.rows_sublist, none_pending⟩

/-- The invariant of every run that has opened the file. -/
theorem run_agrees {file : DatabaseFile} (fresh : file.latestPositions = none)
    (stamped : ∀ row ∈ (file.positionReports.getD .empty).rows, row.receivedAt ≠ none)
    {trace : List Event} {db : Database} {transaction : Option Database}
    (run : Run Step (.untouched file) trace (.live db transaction)) :
    Agrees (journal file trace).committed db := by
  have start : Kept file [] (.untouched file) := ⟨rfl, rfl⟩
  have kept := Run.invariant (Kept file) start (fun kept step => step_kept fresh stamped kept step) run
  cases transaction with
  | none => exact kept.1
  | some working => exact kept.1

/-- Opening the database again succeeds at every point of a run, keeps what is committed and
gives up an open transaction. -/
theorem run_reopens {file : DatabaseFile} (fresh : file.latestPositions = none)
    (stamped : ∀ row ∈ (file.positionReports.getD .empty).rows, row.receivedAt ≠ none)
    {trace : List Event} {db : Database} {transaction : Option Database}
    (run : Run Step (.untouched file) trace (.live db transaction)) :
    Run Step (.untouched file) (trace ++ [.opened]) (.live db none) :=
  run_append.mpr ⟨_, run, .single (.opens _ db (openDatabase_again (run_agrees fresh stamped run)))⟩

/-! ### What the reader answers -/

open PositionReader

/-- The fields of a report the database keeps; the others come back with their defaults. -/
def stored (report : PositionReport) : PositionReport where
  messageType := report.messageType
  mmsi := report.mmsi
  navStatus := report.navStatus
  sog := report.sog
  longitude := report.longitude
  latitude := report.latitude
  cog := report.cog
  trueHeading := report.trueHeading
  timestamp := report.timestamp

/-- `record` shows the row `row` of the ship `mmsi` with its static data `ship`. -/
structure Carries (mmsi : Int) (row : PositionRow) (ship : Option ShipStaticRow)
    (record : PositionRecord) : Prop where
  mmsi : record.report.mmsi = (Int32.ofInt mmsi).toUInt32
  latitude : record.report.latitude = row.latitude
  longitude : record.report.longitude = row.longitude
  sog : record.report.sog = row.sog
  cog : record.report.cog = row.cog
  trueHeading : record.report.trueHeading =
    row.trueHeading.map fun heading => Int32.ofInt (realToInt heading)
  timestamp : record.report.timestamp = UInt8.ofInt (columnInt64 row.timestamp)
  messageType : record.report.messageType = (columnInt row.messageType).toUInt32.toUInt8
  navStatus : record.report.navStatus = .ofCode (columnInt row.navStatus).toUInt32.toUInt8
  receivedAt : row.receivedAt = some record.receivedAt
  /-- a row the writer inserted shows the report as it was -/
  written : ∀ report receivedAt, row = reportRow report receivedAt → record.report = stored report
  name : record.name = (ship.bind ShipStaticRow.name).map columnText
  callSign : record.callSign = (ship.bind ShipStaticRow.callSign).map columnText
  destination : record.destination = (ship.bind ShipStaticRow.destination).map columnText
  shipType : record.shipType = (ship.bind ShipStaticRow.shipType).map Int32.ofInt

theorem readCurrentRow_carries {mmsi : Int} {row : PositionRow} {ship : Option ShipStaticRow}
    (own : row.mmsi = some mmsi) (stamped : row.receivedAt ≠ none) :
    Carries mmsi row ship (readCurrentRow (joinedRow ⟨row.toPositionColumns, mmsi⟩ ship)) where
  mmsi := rfl
  latitude := rfl
  longitude := rfl
  sog := rfl
  cog := rfl
  trueHeading := rfl
  timestamp := rfl
  messageType := rfl
  navStatus := rfl
  receivedAt := by
    obtain ⟨receivedAt, stamp⟩ := Option.ne_none_iff_exists'.mp stamped
    simp [readCurrentRow, joinedRow, columnInt64, stamp]
  written := by
    rintro report receivedAt rfl
    obtain rfl : report.mmsi.toInt32.toInt = mmsi := Option.some.inj own
    simp [readCurrentRow, joinedRow, reportRow, stored, columnInt_toInt, columnInt_toNat, columnInt64,
      ofInt_toNat, ofInt_realToInt_toInt, Function.comp_def]
  name := rfl
  callSign := rfl
  destination := rfl
  shipType := rfl

/-- The table never disagrees with history. After any run from a new file, or from one with
reports but without `latest_positions`, the reader answers with one record for each ship that
ever had a committed report with a position, and with none for any other ship; the record shows
the newest such report, pruned or not, and the ship's static data. -/
theorem latestPositions_agree (file : DatabaseFile) (fresh : file.latestPositions = none)
    (stamped : ∀ row ∈ (file.positionReports.getD .empty).rows, row.receivedAt ≠ none)
    (trace : List Event) (db : Database) (transaction : Option Database)
    (run : Run Step (.untouched file) trace (.live db transaction)) :
    ∃ ships : List Int, ships.Nodup ∧
      (∀ mmsi, mmsi ∈ ships ↔ ∃ row ∈ (journal file trace).committed, row.Positioned mmsi) ∧
      List.Forall₂ (fun mmsi record => ∃ row,
          IsNewest (fun row => row.rank) (positionsOf mmsi (journal file trace).committed) row ∧
          Carries mmsi row (db.shipStatic.row? mmsi) record)
        ships (PositionReader.latestPositions db) := by
  have agrees := run_agrees fresh stamped run
  refine ⟨db.latestPositions.rows.map LatestRow.mmsi, db.latestPositions.distinct, fun mmsi => ?_, ?_⟩
  -- a ship without a row is a ship without positions
  · rw [← not_iff_not, ← KeyedTable.row?_eq_none_iff, agrees.latest, newestPosition_eq_none_iff,
      positionsOf, List.filter_eq_nil_iff]
    simp
  · rw [PositionReader.latestPositions, KeyedTable.leftJoin_eq, List.map_map,
      List.forall₂_map_left_iff, List.forall₂_map_right_iff, List.forall₂_same]
    intro latest member
    have found : newestPosition latest.mmsi (journal file trace).committed = some latest := by
      rw [← agrees.latest, KeyedTable.row?_eq_some_iff]
      exact ⟨member, rfl⟩
    obtain ⟨row, newest_row, shown⟩ := newestPosition_eq_some_iff.mp found
    obtain ⟨committed, positioned⟩ := mem_positionsOf.mp newest_row.mem
    refine ⟨row, newest_row, ?_⟩
    have carries : Carries latest.mmsi row (db.shipStatic.row? latest.mmsi) _ :=
      readCurrentRow_carries positioned.1 (agrees.stamped row committed)
    rwa [shown] at carries

/-- One report with a position from an earlier version. -/
def oldFile : DatabaseFile where
  positionReports := some (PositionReports.empty.insert
    { mmsi := some 1, latitude := some 10, longitude := some 20, receivedAt := some 1000 })

/-- Its ship reports again without a position, then the old report is pruned. -/
def pruneTrace : List Event :=
  [.opened, .began, .wrote (.positionReport { mmsi := 1 }) 3000, .committed, .pruned 2000, .opened]

/-- The position outlives its report. -/
theorem latestPositions_agree_pruned :
    ∃ db, Run Step (.untouched oldFile) pruneTrace (.live db none) ∧
      db.positionReports.rows = [reportRow { mmsi := 1 } 3000] ∧
      ∃ ships : List Int, ships.Nodup ∧
        (∀ mmsi, mmsi ∈ ships ↔ ∃ row ∈ (journal oldFile pruneTrace).committed, row.Positioned mmsi) ∧
        List.Forall₂ (fun mmsi record => ∃ row,
            IsNewest (fun row => row.rank) (positionsOf mmsi (journal oldFile pruneTrace).committed) row ∧
            Carries mmsi row (db.shipStatic.row? mmsi) record)
          ships (PositionReader.latestPositions db) := by
  have run : ∃ db, Run Step (.untouched oldFile) pruneTrace (.live db none) ∧
      db.positionReports.rows = [reportRow { mmsi := 1 } 3000] :=
    ⟨_, ⟨_, .opens _ _ rfl, _, .begins _, _, .writes _ _ _ _, _, .commits _ _, _,
      .prunes _ _ _ _ (.last _ _ _ ⟨[1], by decide, by decide, rfl, rfl⟩ (by decide)), _,
      .opens _ _ rfl, rfl⟩, rfl⟩
  obtain ⟨db, run, left⟩ := run
  exact ⟨db, run, left, latestPositions_agree oldFile rfl (by decide) pruneTrace db none run⟩

end Ais.SqliteWriter
