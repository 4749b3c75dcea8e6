import AisPipeline.Lib.KeyedTable
import AisPipeline.Cpp.Text

/-!
# The database

The three tables and the statements the pipeline runs on them. An INTEGER
column is an `Int`, a REAL column the exact rational, a TEXT column its bytes,
and `none` is NULL.
-/
namespace Ais

open Cpp

/-- The columns of a report besides its `mmsi`. -/
structure PositionColumns where
  latitude : Option ℚ := none
  longitude : Option ℚ := none
  sog : Option ℚ := none
  cog : Option ℚ := none
  trueHeading : Option ℚ := none
  timestamp : Option Int := none
  messageType : Option Int := none
  navStatus : Option Int := none
  receivedAt : Option Int := none
  deriving DecidableEq, Repr

/-- A row of `position_reports`. -/
structure PositionRow extends PositionColumns where
  mmsi : Option Int := none
  deriving DecidableEq, Repr

/-- A row of `latest_positions`, where `mmsi` is the primary key. -/
structure LatestRow extends PositionColumns where
  mmsi : Int
  deriving DecidableEq, Repr

/-- A row of `ship_static`, where `mmsi` is the primary key. -/
structure ShipStaticRow where
  mmsi : Int
  imo : Option Int := none
  callSign : Option Bytes := none
  name : Option Bytes := none
  shipType : Option Int := none
  toBow : Option Int := none
  toStern : Option Int := none
  toPort : Option Int := none
  toStarboard : Option Int := none
  etaMonth : Option Int := none
  etaDay : Option Int := none
  etaHour : Option Int := none
  etaMinute : Option Int := none
  draught : Option ℚ := none
  destination : Option Bytes := none
  receivedAt : Option Int := none
  deriving DecidableEq, Repr

/-- `a >= b` in a WHERE clause: not true if either side is NULL. -/
def sqlGe : Option Int → Option Int → Bool
  | some a, some b => decide (b ≤ a)
  | _, _ => false

/-- `a` before `b` in ascending order; NULL sorts below every value. -/
def sqlBelow : Option Int → Option Int → Bool
  | some a, some b => decide (a < b)
  -- the NULL comes first, and nothing comes before it
  | none, some _ => true
  | _, none => false

/-- A report's place in time. -/
def PositionColumns.rank (columns : PositionColumns) : WithBot Int := columns.receivedAt

theorem sqlBelow_iff {a b : PositionColumns} :
    sqlBelow a.receivedAt b.receivedAt = true ↔ a.rank < b.rank := by
  unfold PositionColumns.rank
  cases a.receivedAt with
  | none => cases b.receivedAt <;> simp [sqlBelow, WithBot.none_eq_bot, WithBot.some_eq_coe]
  | some at_a => cases b.receivedAt <;> simp [sqlBelow, WithBot.none_eq_bot, WithBot.some_eq_coe]

/-- With no NULL in play, the upsert guard is the order in time. -/
theorem sqlGe_iff {a b : PositionColumns} (stamped_a : a.receivedAt ≠ none)
    (stamped_b : b.receivedAt ≠ none) :
    sqlGe a.receivedAt b.receivedAt = true ↔ b.rank ≤ a.rank := by
  obtain ⟨at_a, stamp_a⟩ := Option.ne_none_iff_exists'.mp stamped_a
  obtain ⟨at_b, stamp_b⟩ := Option.ne_none_iff_exists'.mp stamped_b
  simp [PositionColumns.rank, sqlGe, stamp_a, stamp_b, WithBot.some_eq_coe]

/-! ### `position_reports` -/

structure StoredReport where
  rowid : Int
  row : PositionRow
  deriving DecidableEq, Repr

/-- The table in `rowid` order. -/
structure PositionReports where
  stored : List StoredReport
  ascending : stored.Pairwise fun earlier later => earlier.rowid < later.rowid

namespace PositionReports

def empty : PositionReports := ⟨[], List.Pairwise.nil⟩

def rows (table : PositionReports) : List PositionRow := table.stored.map StoredReport.row

/-- One more than the largest `rowid` in use. -/
def nextRowid (table : PositionReports) : Int :=
  match table.stored.getLast? with
  | none => 1
  | some last => last.rowid + 1

theorem rowid_lt_next {table : PositionReports} {report : StoredReport}
    (member : report ∈ table.stored) : report.rowid < table.nextRowid := by
  unfold nextRowid
  split
  next none_left => simp [List.getLast?_eq_none_iff.mp none_left] at member
  -- the last rowid is the largest, since the table is in rowid order
  next last at_end =>
    obtain ⟨before, shape⟩ := List.getLast?_eq_some_iff.mp at_end
    have ascending := table.ascending
    rw [shape, List.pairwise_append] at ascending
    rw [shape] at member
    rcases List.mem_append.mp member with earlier | same
    · have below := ascending.2.2 report earlier last (List.mem_singleton_self last)
      omega
    · rw [List.mem_singleton.mp same]
      omega

def insert (table : PositionReports) (row : PositionRow) : PositionReports where
  stored := table.stored ++ [⟨table.nextRowid, row⟩]
  ascending := by
    rw [List.pairwise_append]
    refine ⟨table.ascending, List.pairwise_singleton _ _, fun report member added last => ?_⟩
    rw [List.mem_singleton.mp last]
    exact rowid_lt_next member

@[simp] theorem rows_insert (table : PositionReports) (row : PositionRow) :
    (table.insert row).rows = table.rows ++ [row] := by
  simp [rows, insert]

/-- `DELETE … WHERE rowid IN picked`. -/
def delete (table : PositionReports) (picked : List Int) : PositionReports where
  stored := table.stored.filter fun report => report.rowid ∉ picked
  ascending := table.ascending.filter _

theorem rows_delete (table : PositionReports) (picked : List Int) :
    (table.delete picked).rows.Sublist table.rows :=
  List.filter_sublist.map _

/-- The `rowid`s of `SELECT … WHERE received_at < cutoff`. -/
def olderThan (table : PositionReports) (cutoff : Int) : List Int :=
  (table.stored.filter fun report => report.row.receivedAt.any (· < cutoff)).map StoredReport.rowid

end PositionReports

/-! ### `latest_positions` -/

/-- A report of the ship `mmsi` with both coordinates. -/
def PositionRow.Positioned (mmsi : Int) (row : PositionRow) : Prop :=
  row.mmsi = some mmsi ∧ row.latitude.isSome ∧ row.longitude.isSome

instance (mmsi : Int) (row : PositionRow) : Decidable (row.Positioned mmsi) :=
  inferInstanceAs (Decidable (_ ∧ _))

/-- The row a report contributes; none without `mmsi`, `latitude` or `longitude`. -/
def PositionRow.latest? (row : PositionRow) : Option LatestRow :=
  match row.mmsi, row.latitude, row.longitude with
  | some mmsi, some _, some _ => some { row.toPositionColumns with mmsi }
  | _, _, _ => none

theorem PositionRow.latest?_eq_some_iff {row : PositionRow} {latest : LatestRow} :
    row.latest? = some latest ↔
      row.Positioned latest.mmsi ∧ latest.toPositionColumns = row.toPositionColumns := by
  unfold latest? Positioned
  obtain ⟨columns, mmsi⟩ := latest
  cases row.mmsi with
  | none => simp
  | some mmsi =>
    cases at_latitude : row.latitude with
    | none => simp
    | some latitude =>
      cases at_longitude : row.longitude with
      | none => simp
      | some longitude => simp [eq_comm, and_comm]

/-- `ON CONFLICT (mmsi) DO UPDATE SET … WHERE excluded.received_at >= latest_positions.received_at`. -/
def LatestRow.update (excluded old : LatestRow) : LatestRow :=
  if sqlGe excluded.receivedAt old.receivedAt then
    { old with
      latitude := excluded.latitude
      longitude := excluded.longitude
      sog := excluded.sog
      cog := excluded.cog
      trueHeading := excluded.trueHeading
      timestamp := excluded.timestamp
      messageType := excluded.messageType
      navStatus := excluded.navStatus
      receivedAt := excluded.receivedAt }
  else old

@[simp] theorem LatestRow.update_mmsi (excluded old : LatestRow) :
    (excluded.update old).mmsi = old.mmsi := by
  unfold update
  split <;> rfl

/-- The update names every column. -/
theorem LatestRow.update_eq {excluded old : LatestRow} (same : old.mmsi = excluded.mmsi) :
    excluded.update old = if sqlGe excluded.receivedAt old.receivedAt then excluded else old := by
  unfold update
  split
  · cases excluded
    cases same
    rfl
  · rfl

abbrev LatestPositions := KeyedTable LatestRow.mmsi

/-- The trigger `position_reports_update_latest`. -/
def LatestPositions.afterInsert (table : LatestPositions) (new : PositionRow) : LatestPositions :=
  match new.latest? with
  | some excluded => table.upsert excluded excluded.update excluded.update_mmsi
  -- the trigger has a WHEN clause on the three columns
  | none => table

/-- `a` comes before `b` in `ORDER BY received_at DESC, rowid DESC`. -/
def StoredReport.precedes (a b : StoredReport) : Prop :=
  sqlBelow b.row.receivedAt a.row.receivedAt ∨
    a.row.receivedAt = b.row.receivedAt ∧ b.rowid < a.rowid

instance (a b : StoredReport) : Decidable (a.precedes b) := inferInstanceAs (Decidable (_ ∨ _))

/-- `ROW_NUMBER() OVER (PARTITION BY mmsi ORDER BY received_at DESC, rowid DESC)`, among the
reports with a position. -/
def PositionReports.rowNumber (table : PositionReports) (report : StoredReport) : Nat :=
  (table.stored.filter fun other =>
    other.row.latest?.isSome ∧ other.row.mmsi = report.row.mmsi ∧ other.precedes report).length + 1

theorem PositionReports.rowNumber_eq_one {table : PositionReports} {report : StoredReport} :
    table.rowNumber report = 1 ↔ ∀ other ∈ table.stored, other.row.latest?.isSome →
      other.row.mmsi = report.row.mmsi → ¬ other.precedes report := by
  simp [rowNumber]

/-- Of two rows one is ranked first. -/
theorem StoredReport.precedes_total {a b : StoredReport} (apart : a.rowid < b.rowid) :
    a.precedes b ∨ b.precedes a := by
  unfold precedes
  simp only [sqlBelow_iff]
  rcases lt_trichotomy a.row.rank b.row.rank with lower | same | higher
  · exact .inr (.inl lower)
  · exact .inr (.inr ⟨same.symm, apart⟩)
  · exact .inl (.inl higher)

/-- The rows the backfill selects. -/
def PositionReports.backfill (table : PositionReports) : List LatestRow :=
  table.stored.filterMap fun report =>
    if table.rowNumber report = 1 then report.row.latest? else none

/-- One row a ship, so the backfill meets no primary key twice. -/
theorem PositionReports.backfill_distinct (table : PositionReports) :
    (table.backfill.map LatestRow.mmsi).Nodup := by
  rw [List.Nodup, List.pairwise_map, backfill, List.pairwise_filterMap]
  refine table.ascending.imp_of_mem fun {a b} in_a in_b apart row_a first_a row_b first_b same => ?_
  simp only [Option.ite_none_right_eq_some] at first_a first_b
  have at_a := PositionRow.latest?_eq_some_iff.mp first_a.2
  have at_b := PositionRow.latest?_eq_some_iff.mp first_b.2
  have one_ship : a.row.mmsi = b.row.mmsi := by rw [at_a.1.1, at_b.1.1, same]
  -- of two selected reports of one ship, one would be ranked behind the other
  rcases StoredReport.precedes_total apart with a_first | b_first
  · exact rowNumber_eq_one.mp first_b.1 a in_a (by simp [first_a.2]) one_ship a_first
  · exact rowNumber_eq_one.mp first_a.1 b in_b (by simp [first_b.2]) one_ship.symm b_first

/-! ### `ship_static` -/

abbrev ShipStatic := KeyedTable ShipStaticRow.mmsi

/-! ### The whole database -/

structure Database where
  positionReports : PositionReports
  shipStatic : ShipStatic
  latestPositions : LatestPositions

def Database.empty : Database := ⟨.empty, .empty, .empty⟩

/-- `INSERT INTO position_reports`, with the trigger it fires. -/
def Database.insertReport (db : Database) (row : PositionRow) : Database :=
  { db with
    positionReports := db.positionReports.insert row
    latestPositions := db.latestPositions.afterInsert row }

end Ais
