import AisPipeline.Pipeline.Database
import AisPipeline.Decoder.AisMessage
import AisPipeline.Lib.OrderBy
import AisPipeline.Cpp.Number

/-!
# The position reader

The queries behind `latest_positions`, `positions_in_area` and `history`, and the
conversion of a result row into a record.
-/
namespace Ais

open Cpp

structure PositionRecord where
  report : PositionReport := {}
  receivedAt : Int := 0
  name : Option Bytes := none
  callSign : Option Bytes := none
  destination : Option Bytes := none
  shipType : Option Int32 := none
  deriving DecidableEq, Repr

namespace PositionReader

/-- The columns a query takes from `ship_static`. -/
structure StaticColumns where
  name : Option Bytes := none
  callSign : Option Bytes := none
  destination : Option Bytes := none
  shipType : Option Int := none

/-- A row of a result, with the columns of `ship_static` if the query asks for them. -/
structure ResultRow extends PositionColumns where
  mmsi : Option Int
  static : Option StaticColumns

/-- `sqlite3_column_int64`: NULL reads as zero. -/
def columnInt64 (value : Option Int) : Int := value.getD 0

/-- `sqlite3_column_int`: the low 32 bits. -/
def columnInt (value : Option Int) : Int32 := Int32.ofInt (columnInt64 value)

/-- A REAL value read as an integer: cut off towards zero, within 64 bits. -/
def realToInt (value : ℚ) : Int := max (-2 ^ 63) (min (2 ^ 63 - 1) (value.num.tdiv value.den))

/-- `sqlite3_column_text` assigned to a string: up to the first NUL. -/
def columnText (value : Bytes) : Bytes := value.takeWhile (· ≠ 0)

def readCurrentRow (row : ResultRow) : PositionRecord where
  report := {
    mmsi := (columnInt row.mmsi).toUInt32
    latitude := row.latitude
    longitude := row.longitude
    sog := row.sog
    cog := row.cog
    trueHeading := row.trueHeading.map fun heading => Int32.ofInt (realToInt heading)
    timestamp := UInt8.ofInt (columnInt64 row.timestamp)
    messageType := (columnInt row.messageType).toUInt32.toUInt8
    navStatus := .ofCode (columnInt row.navStatus).toUInt32.toUInt8 }
  receivedAt := columnInt64 row.receivedAt
  name := row.static.bind fun ship => ship.name.map columnText
  callSign := row.static.bind fun ship => ship.callSign.map columnText
  destination := row.static.bind fun ship => ship.destination.map columnText
  shipType := row.static.bind fun ship => ship.shipType.map Int32.ofInt

/-- A row of `latest_positions AS lp LEFT JOIN ship_static AS ss`. -/
def joinedRow (lp : LatestRow) (ss : Option ShipStaticRow) : ResultRow :=
  { lp.toPositionColumns with
    mmsi := some lp.mmsi
    static := some {
      name := ss.bind ShipStaticRow.name
      callSign := ss.bind ShipStaticRow.callSign
      destination := ss.bind ShipStaticRow.destination
      shipType := ss.bind ShipStaticRow.shipType } }

def latestPositions (db : Database) : List PositionRecord :=
  (KeyedTable.leftJoin db.latestPositions.rows LatestRow.mmsi db.shipStatic).map fun found =>
    readCurrentRow (joinedRow found.1 found.2)

structure BoundingBox where
  minLat : Double
  maxLat : Double
  minLon : Double
  maxLon : Double
  deriving DecidableEq, Repr

/-- `value BETWEEN low AND high`. A bound that is not a number is bound as NULL, and neither a NULL
bound nor a NULL value makes it true. -/
def between (value : Option ℚ) (low high : Double) : Bool :=
  match value with
  | none => false
  | some value =>
    (match low with
      | .finite low => decide (low ≤ value)
      | .infinite negative => negative
      | .nan => false) &&
    match high with
      | .finite high => decide (value ≤ high)
      | .infinite negative => !negative
      | .nan => false

def positionsInArea (db : Database) (box : BoundingBox) : List PositionRecord :=
  ((KeyedTable.leftJoin db.latestPositions.rows LatestRow.mmsi db.shipStatic).filter fun found =>
    between found.1.latitude box.minLat box.maxLat && between found.1.longitude box.minLon box.maxLon).map
      fun found => readCurrentRow (joinedRow found.1 found.2)

/-- The record lies in the box. -/
def BoundingBox.holds (box : BoundingBox) (record : PositionRecord) : Bool :=
  between record.report.latitude box.minLat box.maxLat && between record.report.longitude box.minLon box.maxLon

/-- The box picks from what `latest_positions` returns. -/
theorem positionsInArea_eq (db : Database) (box : BoundingBox) :
    positionsInArea db box = (latestPositions db).filter box.holds := by
  rw [latestPositions, List.filter_map]
  rfl

/-- The record `latest_positions` returns for the ship with key `mmsi`. -/
def latestOf (db : Database) (mmsi : Int) : Option PositionRecord :=
  (db.latestPositions.row? mmsi).map fun lp => readCurrentRow (joinedRow lp (db.shipStatic.row? lp.mmsi))

theorem latestOf_mem {db : Database} {mmsi : Int} {record : PositionRecord}
    (found : latestOf db mmsi = some record) : record ∈ latestPositions db := by
  obtain ⟨lp, at_key, rfl⟩ := Option.map_eq_some_iff.mp found
  rw [latestPositions, KeyedTable.leftJoin_eq, List.map_map]
  exact List.mem_map.mpr ⟨lp, (KeyedTable.row?_eq_some_iff.mp at_key).1, rfl⟩

/-- A row of `position_reports`, as the history query selects it. -/
def historyRow (row : PositionRow) : ResultRow :=
  { row.toPositionColumns with mmsi := row.mmsi, static := none }

/-- `LIMIT ?`; a negative limit is none. -/
def sqlLimit {α : Type} (limit : Int32) (rows : List α) : List α :=
  if limit < 0 then rows else rows.take limit.toInt.toNat

/-- `WHERE mmsi = ?`, with the parameter bound as an `int`. -/
def reportsOf (db : Database) (mmsi : UInt32) : List StoredReport :=
  db.positionReports.stored.filter fun report => report.row.mmsi = some mmsi.toInt32.toInt

def historyRecord (report : StoredReport) : PositionRecord := readCurrentRow (historyRow report.row)

/-- An answer of `history`. The query sorts by `received_at` alone, so reports of one second may
come in any order. -/
def History (db : Database) (mmsi : UInt32) (limit : Int32) (records : List PositionRecord) : Prop :=
  ∃ ordered, OrderBy.Descending (fun report : StoredReport => report.row.rank) (reportsOf db mmsi) ordered ∧
    records = (sqlLimit limit ordered).map historyRecord

/-! ### What reading undoes -/

/-- A heading survives its time as a REAL. -/
theorem ofInt_realToInt_toInt (heading : Int32) :
    Int32.ofInt (realToInt (heading.toInt : ℚ)) = heading := by
  have low := heading.le_toInt
  have high := heading.toInt_lt
  have kept : realToInt (heading.toInt : ℚ) = heading.toInt := by
    simp only [realToInt, Rat.num_intCast, Rat.den_intCast, Nat.cast_one, Int.tdiv_one]
    omega
  rw [kept, Int32.ofInt_toInt]

theorem ofInt_toNat (code : UInt8) : UInt8.ofInt (code.toNat : Int) = code := by
  have small := code.toNat_lt
  rw [UInt8.ofInt, Int.emod_eq_of_lt (by omega) (by omega), Int.toNat_natCast, UInt8.ofNat_toNat]

theorem columnInt_toInt (value : Int32) : columnInt (some value.toInt) = value :=
  Int32.ofInt_toInt value

theorem columnInt_toNat (code : UInt8) :
    (columnInt (some (code.toNat : Int))).toUInt32.toUInt8 = code := by
  have small := code.toNat_lt
  have kept : (columnInt (some (code.toNat : Int))).toUInt32.toNat = code.toNat := by
    change (BitVec.ofInt 32 (code.toNat : Int)).toNat = code.toNat
    rw [BitVec.toNat_ofInt]
    omega
  rw [← UInt8.toNat_inj, UInt32.toNat_toUInt8, kept]
  omega

end PositionReader
end Ais
