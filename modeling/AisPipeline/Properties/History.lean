import AisPipeline.Properties.LatestPositions

/-!
# History and the latest position

The trigger and the backfill break ties of `received_at` in favour of the report
stored last; the history query does not break them. Which answers it can give,
and when these agree with the order of the other two.
-/
namespace Ais.PositionReader

open Cpp Newest OrderBy SqliteWriter Transition

/-! ### The order of the trigger and the backfill -/

/-- Newest first, and of one second the one stored last first. -/
def newestFirst (db : Database) (mmsi : UInt32) : List StoredReport :=
  descending (fun report : StoredReport => toLex (report.row.rank, report.rowid)) (reportsOf db mmsi)

theorem newestFirst_descending (db : Database) (mmsi : UInt32) :
    Descending (fun report : StoredReport => report.row.rank) (reportsOf db mmsi) (newestFirst db mmsi) :=
  descending_spec.fst

theorem mem_newestFirst {db : Database} {mmsi : UInt32} {report : StoredReport} :
    report ∈ newestFirst db mmsi ↔
      report ∈ db.positionReports.stored ∧ report.row.mmsi = some mmsi.toInt32.toInt := by
  rw [(newestFirst_descending db mmsi).perm.mem_iff, reportsOf, List.mem_filter, decide_eq_true_eq]

/-- The answer in that order. -/
def newestHistory (db : Database) (mmsi : UInt32) (limit : Int32) : List PositionRecord :=
  (sqlLimit limit (newestFirst db mmsi)).map historyRecord

/-! ### The first reports -/

private theorem sqlLimit_eq_take {α : Type} (limit : Int32) (rows : List α) :
    sqlLimit limit rows = rows.take (if limit < 0 then rows.length else limit.toInt.toNat) := by
  unfold sqlLimit
  split
  · rw [List.take_length]
  · rfl

/-- The answer is determined if no two reports of one second differ, unless both are cut off. -/
theorem history_determined_iff {db : Database} {mmsi : UInt32} {limit : Int32} :
    (∀ records, History db mmsi limit records → records = newestHistory db mmsi limit) ↔
      ∀ a ∈ sqlLimit limit (newestFirst db mmsi), ∀ b ∈ newestFirst db mmsi,
        a.row.receivedAt = b.row.receivedAt → historyRecord a = historyRecord b := by
  have held := newestFirst_descending db mmsi
  have sizes : ∀ ordered,
      Descending (fun report : StoredReport => report.row.rank) (reportsOf db mmsi) ordered →
        ordered.length = (newestFirst db mmsi).length :=
    fun ordered other => (other.perm.trans held.perm.symm).length_eq
  have tied := @take_map_eq_iff _ _ _ _ (fun report : StoredReport => report.row.rank) _ _
    (if limit < 0 then (newestFirst db mmsi).length else limit.toInt.toNat) historyRecord held
  rw [← sqlLimit_eq_take] at tied
  refine Iff.trans ?_ tied
  constructor
  · intro determined ordered other
    refine determined _ ⟨ordered, other, ?_⟩
    rw [sqlLimit_eq_take limit ordered, sizes ordered other]
  · rintro same _ ⟨ordered, other, rfl⟩
    rw [sqlLimit_eq_take limit ordered, sizes ordered other]
    exact same ordered other

/-! ### The first report with a position -/

/-- What history and `latest_positions` have in common; the static data is the latter's only. -/
def shown (record : PositionRecord) : PositionReport × Int := (record.report, record.receivedAt)

def Located (record : PositionRecord) : Bool :=
  record.report.latitude.isSome && record.report.longitude.isSome

/-- The limit leaves out nothing. -/
def Unlimited (db : Database) (mmsi : UInt32) (limit : Int32) : Prop :=
  limit < 0 ∨ (reportsOf db mmsi).length ≤ limit.toInt.toNat

theorem history_unlimited {db : Database} {mmsi : UInt32} {limit : Int32} {records : List PositionRecord}
    (unlimited : Unlimited db mmsi limit) :
    History db mmsi limit records ↔ ∃ ordered,
      Descending (fun report : StoredReport => report.row.rank) (reportsOf db mmsi) ordered ∧
        records = ordered.map historyRecord := by
  apply exists_congr
  intro ordered
  apply and_congr_right
  intro held
  have all : sqlLimit limit ordered = ordered := by
    rw [sqlLimit]
    split
    next => rfl
    next limited =>
      apply List.take_of_length_le
      rw [held.perm.length_eq]
      exact unlimited.resolve_left limited
  rw [all]

theorem located_iff {db : Database} {mmsi : UInt32} {report : StoredReport}
    (own : report ∈ newestFirst db mmsi) :
    Located (historyRecord report) = true ↔ report.row.Positioned mmsi.toInt32.toInt := by
  have ship := (mem_newestFirst.mp own).2
  simp [Located, historyRecord, readCurrentRow, historyRow, PositionRow.Positioned, ship]

/-- The first report with a position in the answers without a limit. -/
private theorem located_answers_iff {db : Database} {mmsi : UInt32} {expected : PositionReport × Int} :
    (∀ limit records, Unlimited db mmsi limit → History db mmsi limit records →
        (records.find? Located).map shown = some expected) ↔
      ∀ ordered, Descending (fun report : StoredReport => report.row.rank) (reportsOf db mmsi) ordered →
        (ordered.find? fun report => Located (historyRecord report)).map (shown ∘ historyRecord) =
          some expected := by
  have map_find : ∀ ordered : List StoredReport, ((ordered.map historyRecord).find? Located).map shown =
      (ordered.find? fun report => Located (historyRecord report)).map (shown ∘ historyRecord) := by
    intro ordered
    rw [List.find?_map, Option.map_map]
    rfl
  constructor
  · intro all ordered order
    have unlimited : Unlimited db mmsi (-1) := .inl (by decide)
    rw [← map_find]
    exact all (-1) _ unlimited ((history_unlimited unlimited).mpr ⟨ordered, order, rfl⟩)
  · intro all limit records unlimited answer
    obtain ⟨ordered, order, rfl⟩ := (history_unlimited unlimited).mp answer
    rw [map_find]
    exact all ordered order

/-- The first report with a position is the newest one if no report of its second differs. -/
theorem first_located_iff {db : Database} {mmsi : UInt32} {newest : PositionRow}
    (positioned : newest.Positioned mmsi.toInt32.toInt) (held : newest ∈ db.positionReports.rows)
    (greatest : ∀ row ∈ positionsOf mmsi.toInt32.toInt db.positionReports.rows, row.rank ≤ newest.rank) :
    (∀ limit records, Unlimited db mmsi limit → History db mmsi limit records →
        (records.find? Located).map shown = some (shown (readCurrentRow (historyRow newest)))) ↔
      ∀ row ∈ positionsOf mmsi.toInt32.toInt db.positionReports.rows,
        row.receivedAt = newest.receivedAt →
          shown (readCurrentRow (historyRow row)) = shown (readCurrentRow (historyRow newest)) := by
  have held_order := newestFirst_descending db mmsi
  have own : ∀ {row}, row ∈ positionsOf mmsi.toInt32.toInt db.positionReports.rows ↔
      ∃ report ∈ newestFirst db mmsi, Located (historyRecord report) ∧ report.row = row := by
    intro row
    constructor
    · intro member
      obtain ⟨in_rows, at_ship⟩ := mem_positionsOf.mp member
      obtain ⟨report, stored, rfl⟩ := List.mem_map.mp in_rows
      have in_order := mem_newestFirst.mpr ⟨stored, at_ship.1⟩
      exact ⟨report, in_order, (located_iff in_order).mpr at_ship, rfl⟩
    · rintro ⟨report, in_order, located, rfl⟩
      exact mem_positionsOf.mpr
        ⟨List.mem_map_of_mem (mem_newestFirst.mp in_order).1, (located_iff in_order).mp located⟩
  -- the first one in the order of the backfill is of the newest second
  obtain ⟨report, in_order, located, rfl⟩ := own.mp (mem_positionsOf.mpr ⟨held, positioned⟩)
  obtain ⟨first, found⟩ : ∃ first,
      (newestFirst db mmsi).find? (fun other => Located (historyRecord other)) = some first :=
    Option.isSome_iff_exists.mp (List.find?_isSome.mpr ⟨report, in_order, located⟩)
  have first_in := List.mem_of_find?_eq_some found
  have first_located := List.find?_some found
  have same : first.row.rank = report.row.rank :=
    le_antisymm (greatest _ (own.mpr ⟨first, first_in, first_located, rfl⟩))
      (held_order.le_of_find? found in_order located)
  have tied := @find?_map_eq_iff _ _ _ _ _ _ _ _ (shown ∘ historyRecord) _ held_order found
  refine located_answers_iff.trans ?_
  constructor
  · intro all row member second
    obtain ⟨other, other_in, other_located, rfl⟩ := own.mp member
    -- the answer in the order of the backfill shows the newest report
    have first_shown : shown (historyRecord first) = shown (historyRecord report) := by
      have answer := all _ held_order
      rw [found] at answer
      exact Option.some.inj answer
    refine (tied.mp (fun ordered order => ?_) other other_in other_located (second.trans same.symm)).trans
      first_shown
    exact (all ordered order).trans (congrArg some first_shown.symm)
  · intro alike ordered order
    have first_shown := alike _ (own.mpr ⟨first, first_in, first_located, rfl⟩) same
    rw [tied.mpr (fun other other_in other_located second => ?_) ordered order, Function.comp_apply]
    · exact congrArg some first_shown
    · exact (alike _ (own.mpr ⟨other, other_in, other_located, rfl⟩) (second.trans same)).trans
        first_shown.symm

/-! ### History and the latest position -/

/-- After any run, the history of a ship comes newest first, and last stored first within a second,
whatever order the query takes, if and only if no report among the first ones differs from one of its
second. And its first report with a position is the one `latest_positions` shows, unless this has
been pruned, if and only if no report of that second with a position differs from it. -/
theorem history_newest_iff (file : DatabaseFile) (fresh : file.latestPositions = none)
    (stamped : ∀ row ∈ (file.positionReports.getD .empty).rows, row.receivedAt ≠ none)
    (trace : List Event) (db : Database) (transaction : Option Database)
    (run : Run Step (.untouched file) trace (.live db transaction)) (mmsi : UInt32) (limit : Int32) :
    ((∀ records, History db mmsi limit records → records = newestHistory db mmsi limit) ↔
      ∀ a ∈ sqlLimit limit (newestFirst db mmsi), ∀ b ∈ newestFirst db mmsi,
        a.row.receivedAt = b.row.receivedAt → historyRecord a = historyRecord b) ∧
    ∀ newest, IsNewest (fun row => row.rank)
        (positionsOf mmsi.toInt32.toInt (journal file trace).committed) newest →
      newest ∈ db.positionReports.rows →
      ∃ latest ∈ latestPositions db, latestOf db mmsi.toInt32.toInt = some latest ∧
        ((∀ unlimited records, Unlimited db mmsi unlimited → History db mmsi unlimited records →
            (records.find? Located).map shown = some (shown latest)) ↔
          ∀ row ∈ positionsOf mmsi.toInt32.toInt db.positionReports.rows,
            row.receivedAt = newest.receivedAt →
              shown (readCurrentRow (historyRow row)) = shown latest) := by
  refine ⟨history_determined_iff, fun newest is_newest held => ?_⟩
  have agrees := run_agrees fresh stamped run
  obtain ⟨committed, positioned⟩ := mem_positionsOf.mp is_newest.mem
  have found : db.latestPositions.row? mmsi.toInt32.toInt =
      some ⟨newest.toPositionColumns, mmsi.toInt32.toInt⟩ := by
    rw [agrees.latest]
    exact newestPosition_eq_some_iff.mpr ⟨newest, is_newest, rfl⟩
  have latest : latestOf db mmsi.toInt32.toInt =
      some (readCurrentRow (joinedRow ⟨newest.toPositionColumns, mmsi.toInt32.toInt⟩
        (db.shipStatic.row? mmsi.toInt32.toInt))) := by
    rw [latestOf, found]
    rfl
  refine ⟨_, latestOf_mem latest, latest, ?_⟩
  -- the join adds static data only
  have same : shown (readCurrentRow (joinedRow ⟨newest.toPositionColumns, mmsi.toInt32.toInt⟩
      (db.shipStatic.row? mmsi.toInt32.toInt))) = shown (readCurrentRow (historyRow newest)) := by
    simp [shown, readCurrentRow, joinedRow, historyRow, positioned.1]
  rw [same]
  refine first_located_iff positioned held fun row member => ?_
  obtain ⟨in_table, at_ship⟩ := mem_positionsOf.mp member
  exact is_newest.le (mem_positionsOf.mpr ⟨agrees.held.subset in_table, at_ship⟩)

/-! ### Two reports of one second -/

def firstReport : PositionReport := { mmsi := 1, latitude := some 10, longitude := some 20 }

def secondReport : PositionReport := { mmsi := 1, latitude := some 11, longitude := some 21 }

/-- Both reports are in one transaction, received at the given times. -/
def twoReports (first second : Int) : List Event :=
  [.opened, .began, .wrote (.positionReport firstReport) first,
    .wrote (.positionReport secondReport) second, .committed]

private def twoReportsDatabase (first second : Int) : Database :=
  SqliteWriter.insert (SqliteWriter.insert .empty firstReport first) secondReport second

private theorem run_twoReports (first second : Int) :
    Run Step (.untouched {}) (twoReports first second) (.live (twoReportsDatabase first second) none) :=
  ⟨_, .opens _ _ rfl, _, .begins _, _, .writes _ _ _ _, _, .writes _ _ _ _, _, .commits _ _, rfl⟩

/-- Received in two seconds, they are told apart. -/
theorem history_newest_iff_seconds :
    ∃ db, Run Step (.untouched {}) (twoReports 1000 1001) (.live db none) ∧
      (∀ records, History db 1 1 records → records = newestHistory db 1 1) ∧
      ∃ latest ∈ latestPositions db, shown latest = (secondReport, 1001) ∧
        ∀ unlimited records, Unlimited db 1 unlimited → History db 1 unlimited records →
          (records.find? Located).map shown = some (shown latest) := by
  obtain ⟨answers, first⟩ := history_newest_iff {} rfl (by decide) (twoReports 1000 1001) _ none
    (run_twoReports 1000 1001) 1 1
  have distinct : ∀ a ∈ (twoReportsDatabase 1000 1001).positionReports.stored,
      ∀ b ∈ (twoReportsDatabase 1000 1001).positionReports.stored,
        a.row.receivedAt = b.row.receivedAt → a = b := by
    decide +kernel
  obtain ⟨latest, returned, found, located⟩ := first (reportRow secondReport 1001)
    ⟨[reportRow firstReport 1000], [], by decide +kernel, by decide, by simp⟩ (by decide +kernel)
  have latest_shown : shown latest = (secondReport, 1001) := by
    have at_ship : (latestOf (twoReportsDatabase 1000 1001) 1).map shown =
        some (secondReport, 1001) := by
      decide +kernel
    rw [show (1 : UInt32).toInt32.toInt = 1 from rfl] at found
    rw [found] at at_ship
    exact Option.some.inj at_ship
  refine ⟨_, run_twoReports 1000 1001, answers.mpr ?_, latest, returned, latest_shown, located.mpr ?_⟩
  · intro a at_a b at_b second
    rw [sqlLimit_eq_take] at at_a
    have in_a := (mem_newestFirst.mp (List.mem_of_mem_take at_a)).1
    have in_b := (mem_newestFirst.mp at_b).1
    have same : a = b := distinct a in_a b in_b second
    rw [same]
  · intro row member second
    obtain ⟨report, held, rfl⟩ := List.mem_map.mp (mem_positionsOf.mp member).1
    have same : report = ⟨2, reportRow secondReport 1001⟩ :=
      distinct report held _ (by decide +kernel) second
    rw [same, latest_shown]
    decide +kernel

/-- History may answer with the first of them and a limit of one leaves out the newest report, which
`latest_positions` shows. -/
theorem history_loses_newest :
    ∃ db, Run Step (.untouched {}) (twoReports 1000 1000) (.live db none) ∧
      History db 1 1 [historyRecord ⟨1, reportRow firstReport 1000⟩] ∧
      (latestOf db 1).map shown = some (secondReport, 1000) ∧
      (∃ records, History db 1 (-1) records ∧
        (records.find? Located).map shown = some (firstReport, 1000)) ∧
      ¬ ∀ records, History db 1 1 records → records = newestHistory db 1 1 := by
  have one : History (twoReportsDatabase 1000 1000) 1 1
      [historyRecord ⟨1, reportRow firstReport 1000⟩] :=
    ⟨[⟨1, reportRow firstReport 1000⟩, ⟨2, reportRow secondReport 1000⟩],
      ⟨List.Perm.refl _, by decide⟩, rfl⟩
  have other : History (twoReportsDatabase 1000 1000) 1 1
      [historyRecord ⟨2, reportRow secondReport 1000⟩] :=
    ⟨[⟨2, reportRow secondReport 1000⟩, ⟨1, reportRow firstReport 1000⟩],
      ⟨List.Perm.swap _ _ _, by decide⟩, rfl⟩
  refine ⟨_, run_twoReports 1000 1000, one, by decide +kernel, ?_, fun all => ?_⟩
  · exact ⟨_, ⟨[⟨1, reportRow firstReport 1000⟩, ⟨2, reportRow secondReport 1000⟩],
      ⟨List.Perm.refl _, by decide⟩, rfl⟩, by decide +kernel⟩
  -- both are answers, so the right one would have to be both
  · have same := (all _ one).trans (all _ other).symm
    revert same
    decide +kernel

end Ais.PositionReader
