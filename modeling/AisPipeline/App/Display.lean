import AisPipeline.Api.Server
import AisPipeline.App.Process
import AisPipeline.Lib.PolledSource
import AisPipeline.Web.Hooks

/-!
# The whole system

The pipeline, the API server on its database and a page with the radar and the
track of a ship. The server reads what is committed at some moment after a
request went out; the network may hold the answer back or lose it. How the
bounds of a box are written in the query, and records in the answer, is left
out.
-/
namespace Ais

/-- The process and the page. -/
abbrev Display := PolledSource.System Process UsePositions.Deps UsePositions.PositionsState
  (List PositionRecord)

namespace Display

open PolledSource

abbrev Event := PolledSource.Event Process.Event UsePositions.Deps FetchOutcome

/-- `GET /positions/area` while the pipeline goes on. -/
def area (client : TcpClient) :
    Protocol Process Process.Event UsePositions.Deps FetchOutcome (List PositionRecord) where
  moves := Process.Step client
  answers s deps records := records = PositionReader.positionsInArea s.writer.connection.stored deps.box
  brought
    | .success records _ => some records
    | .failure _ => none

def Step (client : TcpClient) : Display → Event → Display → Prop :=
  PolledSource.Step (area client) usePositions

/-- A new database, and a page that has just been opened. -/
def initial (capacity1 capacity2 : Nat) : Display :=
  PolledSource.initial usePositions (Process.initial capacity1 capacity2 .empty)

/-- What the pipeline did. -/
def processTrace {δ α : Type} (labels : List (PolledSource.Event Process.Event δ α)) : List Process.Event :=
  sourceTrace labels

end Display

/-- The process and the track of the selected ship. -/
abbrev TrackDisplay := PolledSource.System Process UseHistory.Deps (Option UseHistory.HistoryData)
  (List PositionRecord)

namespace TrackDisplay

open Cpp PolledSource

abbrev Event := PolledSource.Event Process.Event UseHistory.Deps FetchOutcome

/-- `String(n)` of a whole number. -/
def numberText (n : Int) : Bytes :=
  (if n < 0 then [ '-'.toUInt8] else []) ++ (Numeral.write 10 n.natAbs).map fun d => UInt8.ofNat (48 + d)

/-- `fetchHistory`: the request, if the route matches its path. -/
def fetchHistory (mmsi limit : Int) : Option ApiServer.Request :=
  if mmsi < 0 then none
  else some { digits := numberText mmsi, params := [("limit", numberText limit)] }

/-- `GET /positions/{mmsi}/history` while the pipeline goes on. -/
def history (client : TcpClient) :
    Protocol Process Process.Event UseHistory.Deps FetchOutcome (List PositionRecord) where
  moves := Process.Step client
  answers s deps records := ∃ mmsi req, deps.mmsi = some mmsi ∧ fetchHistory mmsi deps.limit = some req ∧
    ApiServer.HistoryResponds s.writer.connection.stored req (.records records)
  brought
    | .success records _ => some records
    | .failure _ => none

def Step (client : TcpClient) : TrackDisplay → Event → TrackDisplay → Prop :=
  PolledSource.Step (history client) useHistory

def initial (capacity1 capacity2 : Nat) : TrackDisplay :=
  PolledSource.initial useHistory (Process.initial capacity1 capacity2 .empty)

end TrackDisplay

end Ais
