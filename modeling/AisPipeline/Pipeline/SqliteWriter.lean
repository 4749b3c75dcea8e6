import AisPipeline.Pipeline.Database
import AisPipeline.Decoder.AisMessage
import AisPipeline.Lib.Transition

/-!
# The SQLite writer

Opening a database, the statements with their bound parameters, pruning, and
the life of a writer as labelled steps. The labels are what one sees from
outside, so which rows were committed can be read off a trace.
-/
namespace Ais

open Cpp

/-! ### Opening -/

/-- A database file as it is found; `none` is a table that does not exist. -/
structure DatabaseFile where
  positionReports : Option PositionReports := none
  shipStatic : Option ShipStatic := none
  latestPositions : Option LatestPositions := none

/-- Once opened, the tables and the trigger are there to stay. -/
def Database.file (db : Database) : DatabaseFile where
  positionReports := some db.positionReports
  shipStatic := some db.shipStatic
  latestPositions := some db.latestPositions

namespace SqliteWriter

/-- The constructor: the tables are created if they do not exist, and `latest_positions` is
filled from history if it is empty. `none` is a backfill that fails. -/
def openDatabase (file : DatabaseFile) : Option Database := do
  let positionReports := file.positionReports.getD .empty
  let shipStatic := file.shipStatic.getD .empty
  let found := file.latestPositions.getD .empty
  -- the backfill is a plain INSERT, which a repeated ship would fail
  let latestPositions ←
    if found.rows.isEmpty then found.insertAll positionReports.backfill else some found
  return { positionReports, shipStatic, latestPositions }

/-! ### Writing -/

/-- `bind_text`: an empty text is NULL. -/
def bindText (value : Bytes) : Option Bytes := if value.isEmpty then none else some value

/-! The parameters each statement binds. -/

def reportRow (report : PositionReport) (receivedAt : Int) : PositionRow where
  mmsi := some report.mmsi.toInt32.toInt
  latitude := report.latitude
  longitude := report.longitude
  sog := report.sog
  cog := report.cog
  trueHeading := report.trueHeading.map fun heading => (heading.toInt : ℚ)
  timestamp := some report.timestamp.toNat
  messageType := some report.messageType.toNat
  navStatus := some report.navStatus.code.toNat
  receivedAt := some receivedAt

def insert (db : Database) (report : PositionReport) (receivedAt : Int) : Database :=
  db.insertReport (reportRow report receivedAt)

def voyageRow (data : StaticVoyageData) (receivedAt : Int) : ShipStaticRow where
  mmsi := data.mmsi.toInt32.toInt
  imo := data.imo.map fun imo => imo.toInt32.toInt
  callSign := bindText data.callSign
  name := bindText data.name
  shipType := some data.shipType.toNat
  toBow := some data.toBow.toNat
  toStern := some data.toStern.toNat
  toPort := some data.toPort.toNat
  toStarboard := some data.toStarboard.toNat
  etaMonth := data.etaMonth.map fun month => (month.toNat : Int)
  etaDay := data.etaDay.map fun day => (day.toNat : Int)
  etaHour := data.etaHour.map fun hour => (hour.toNat : Int)
  etaMinute := data.etaMinute.map fun minute => (minute.toNat : Int)
  draught := data.draught
  destination := bindText data.destination
  receivedAt := some receivedAt

def partARow (data : StaticDataPartA) (receivedAt : Int) : ShipStaticRow where
  mmsi := data.mmsi.toInt32.toInt
  name := bindText data.name
  receivedAt := some receivedAt

def partBRow (data : StaticDataPartB) (receivedAt : Int) : ShipStaticRow where
  mmsi := data.mmsi.toInt32.toInt
  shipType := some data.shipType.toNat
  callSign := bindText data.callSign
  toBow := some data.toBow.toNat
  toStern := some data.toStern.toNat
  toPort := some data.toPort.toNat
  toStarboard := some data.toStarboard.toNat
  receivedAt := some receivedAt

/-- The SET list of the statement for type 5. -/
def setVoyage (excluded old : ShipStaticRow) : ShipStaticRow :=
  { old with
    imo := excluded.imo
    callSign := excluded.callSign
    name := excluded.name
    shipType := excluded.shipType
    toBow := excluded.toBow
    toStern := excluded.toStern
    toPort := excluded.toPort
    toStarboard := excluded.toStarboard
    etaMonth := excluded.etaMonth
    etaDay := excluded.etaDay
    etaHour := excluded.etaHour
    etaMinute := excluded.etaMinute
    draught := excluded.draught
    destination := excluded.destination
    receivedAt := excluded.receivedAt }

/-- The SET list of the statement for type 24 part A. -/
def setPartA (excluded old : ShipStaticRow) : ShipStaticRow :=
  { old with name := excluded.name, receivedAt := excluded.receivedAt }

/-- The SET list of the statement for type 24 part B. -/
def setPartB (excluded old : ShipStaticRow) : ShipStaticRow :=
  { old with
    shipType := excluded.shipType
    callSign := excluded.callSign
    toBow := excluded.toBow
    toStern := excluded.toStern
    toPort := excluded.toPort
    toStarboard := excluded.toStarboard
    receivedAt := excluded.receivedAt }

/-- `ON CONFLICT (mmsi) DO UPDATE SET … WHERE excluded.received_at >= ship_static.received_at`. -/
def upsertStatic (db : Database) (excluded : ShipStaticRow)
    (set : ShipStaticRow → ShipStaticRow → ShipStaticRow)
    (keeps : ∀ excluded old, (set excluded old).mmsi = old.mmsi) : Database :=
  { db with
    shipStatic := db.shipStatic.upsert excluded
      (fun old => if sqlGe excluded.receivedAt old.receivedAt then set excluded old else old)
      fun old => by
        split
        · exact keeps excluded old
        · rfl }

def upsertVoyage (db : Database) (data : StaticVoyageData) (receivedAt : Int) : Database :=
  upsertStatic db (voyageRow data receivedAt) setVoyage fun _ _ => rfl

def upsertPartA (db : Database) (data : StaticDataPartA) (receivedAt : Int) : Database :=
  upsertStatic db (partARow data receivedAt) setPartA fun _ _ => rfl

def upsertPartB (db : Database) (data : StaticDataPartB) (receivedAt : Int) : Database :=
  upsertStatic db (partBRow data receivedAt) setPartB fun _ _ => rfl

/-- One message of a batch, as `run` dispatches it. -/
def write (db : Database) (message : AisMessage) (receivedAt : Int) : Database :=
  match message with
  | .positionReport report => insert db report receivedAt
  | .staticVoyageData data => upsertVoyage db data receivedAt
  | .staticDataPartA data => upsertPartA db data receivedAt
  | .staticDataPartB data => upsertPartB db data receivedAt

/-! ### Pruning -/

def pruneChunkSize : Nat := 10000

/-- One `DELETE … WHERE rowid IN (SELECT … WHERE received_at < cutoff LIMIT limit)`, which may
pick any of the rows that match. -/
def DeletesChunk (cutoff : Int) (limit : Nat) (reports reports' : PositionReports)
    (deleted : Nat) : Prop :=
  -- LIMIT without ORDER BY promises the number of rows and no more
  ∃ picked, picked.Sublist (reports.olderThan cutoff) ∧
    picked.length = min limit (reports.olderThan cutoff).length ∧
    reports' = reports.delete picked ∧ deleted = picked.length

/-- The loop of `delete_older_than`: again as long as a chunk came back full. -/
inductive DeletesOlderThan (cutoff : Int) (limit : Nat) :
    PositionReports → PositionReports → Nat → Prop where
  | last (reports reports' deleted) :
      DeletesChunk cutoff limit reports reports' deleted → deleted ≠ limit →
      DeletesOlderThan cutoff limit reports reports' deleted
  | again (reports middle reports' deleted total) :
      DeletesChunk cutoff limit reports middle deleted → deleted = limit →
      DeletesOlderThan cutoff limit middle reports' total →
      DeletesOlderThan cutoff limit reports reports' (deleted + total)

theorem DeletesOlderThan.rows_sublist {cutoff : Int} {limit total : Nat}
    {reports reports' : PositionReports} (pruned : DeletesOlderThan cutoff limit reports reports' total) :
    reports'.rows.Sublist reports.rows := by
  induction pruned with
  | last reports reports' deleted chunk short =>
    obtain ⟨picked, -, -, rfl, -⟩ := chunk
    exact reports.rows_delete picked
  | again reports middle reports' deleted total chunk full rest ih =>
    obtain ⟨picked, -, -, rfl, -⟩ := chunk
    exact ih.trans (reports.rows_delete picked)

/-! ### The life of a writer -/

inductive Event where
  | opened
  | began
  | wrote (message : AisMessage) (receivedAt : Int)
  | committed
  | rolledBack
  | pruned (cutoff : Int)

/-- A file no writer has opened yet, or an open database: what is committed, and the working
copy of the open transaction if there is one. -/
inductive Session where
  | untouched (file : DatabaseFile)
  | live (db : Database) (transaction : Option Database)

/-- What the next constructor finds; an open transaction is lost with its connection. -/
def Session.file : Session → DatabaseFile
  | .untouched file => file
  | .live db _ => db.file

inductive Step : Session → Event → Session → Prop where
  -- a constructor may run at any time, also after a crash
  | opens (s db) : openDatabase s.file = some db → Step s .opened (.live db none)
  | begins (db) : Step (.live db none) .began (.live db (some db))
  | writes (db working message receivedAt) :
      Step (.live db (some working)) (.wrote message receivedAt)
        (.live db (some (write working message receivedAt)))
  | commits (db working) : Step (.live db (some working)) .committed (.live working none)
  | rollsBack (db working) : Step (.live db (some working)) .rolledBack (.live db none)
  | prunes (db cutoff reports total) :
      DeletesOlderThan cutoff pruneChunkSize db.positionReports reports total →
      Step (.live db none) (.pruned cutoff) (.live { db with positionReports := reports } none)

/-- The reports inserted so far, in order: those committed and those of the open transaction. -/
structure Journal where
  committed : List PositionRow
  pending : List PositionRow := []

/-- The reports a message inserts. -/
def insertedBy : AisMessage → Int → List PositionRow
  | .positionReport report, receivedAt => [reportRow report receivedAt]
  | .staticVoyageData _, _ | .staticDataPartA _, _ | .staticDataPartB _, _ => []

def Journal.record (journal : Journal) : Event → Journal
  | .wrote message receivedAt =>
    { journal with pending := journal.pending ++ insertedBy message receivedAt }
  | .committed => ⟨journal.committed ++ journal.pending, []⟩
  | .rolledBack | .opened => { journal with pending := [] }
  | .began | .pruned _ => journal

/-- The journal after `trace`, for a file that held some reports to begin with. -/
def journal (file : DatabaseFile) (trace : List Event) : Journal :=
  trace.foldl Journal.record ⟨(file.positionReports.getD .empty).rows, []⟩

@[simp] theorem journal_append (file : DatabaseFile) (trace : List Event) (event : Event) :
    journal file (trace ++ [event]) = (journal file trace).record event := by
  simp [journal]

end SqliteWriter
end Ais
