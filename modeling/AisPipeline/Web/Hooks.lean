import AisPipeline.Api.PositionReader
import AisPipeline.Lib.PollingEffect

/-!
# The hooks that poll the API

`usePositions` and `useHistory` as effects that poll. A setter of React's state
takes effect at once here; React batches those of one task into one render.
-/
namespace Ais

/-- What a fetch throws: an `ApiError`, or anything else as text. -/
inductive FetchError where
  | api (status : Int) (body : String)
  | other (text : String)

/-- How a request settles. A success carries the time of day. -/
inductive FetchOutcome where
  | success (records : List PositionRecord) (now : Int)
  | failure (err : FetchError)

/-- The text shown for an error; `otherwise` stands before one that is not from the API. -/
def FetchError.message (otherwise : String) : FetchError → String
  | .api status body => "API returned " ++ toString status ++ ": " ++ body
  | .other text => otherwise ++ text

/-! ### Ships in a box -/

namespace UsePositions

/-- What the effect is keyed on. -/
structure Deps where
  box : PositionReader.BoundingBox
  intervalMs : Int := 5000
  deriving DecidableEq

structure PositionsState where
  records : List PositionRecord := []
  error : Option String := none
  loading : Bool := true
  lastUpdated : Option Int := none

/-- `poll` behind its `await`: `try` or `catch`, each left early if cancelled, then `finally`. -/
def settled (_ : Deps) (cancelled : Bool) (outcome : FetchOutcome) (state : PositionsState) :
    PositionsState × Bool :=
  let state := match outcome with
    | .success data now =>
      if cancelled then state
      else { state with records := data, error := none, lastUpdated := some now }
    | .failure err =>
      if cancelled then state
      else { state with error := some (err.message "Could not reach the API: ") }
  if !cancelled then ({ state with loading := false }, true) else (state, false)

end UsePositions

/-- `usePositions`. A new box may come from a place search or the browser's location, and is then
shown before its effects run. -/
def usePositions : PollingEffect UsePositions.Deps FetchOutcome UsePositions.PositionsState where
  initial := {}
  starts _ := true
  settled := UsePositions.settled
  defers _ _ := True

/-! ### The track of a ship -/

namespace UseHistory

structure Deps where
  mmsi : Option Int
  limit : Int := 200
  intervalMs : Int := 5000
  deriving DecidableEq

structure HistoryData where
  mmsi : Int
  records : List PositionRecord
  error : Option String

structure HistoryState where
  records : List PositionRecord
  error : Option String
  loading : Bool

/-- `previous?.mmsi === selected ? previous.records : []`. -/
def keptRecords (selected : Int) : Option HistoryData → List PositionRecord
  | some previous => if previous.mmsi = selected then previous.records else []
  | none => []

/-- `poll` behind its `await`, as in `usePositions`. Without a ship the effect has set nothing up. -/
def settled (deps : Deps) (cancelled : Bool) (outcome : FetchOutcome) (data : Option HistoryData) :
    Option HistoryData × Bool :=
  match deps.mmsi with
  | none => (data, false)
  | some selected =>
    let data := match outcome with
      | .success records _ => if cancelled then data else some ⟨selected, records, none⟩
      | .failure err =>
        if cancelled then data
        else some ⟨selected, keptRecords selected data, some (err.message "Could not load track: ")⟩
    if !cancelled then (data, true) else (data, false)

/-- What the hook returns for the ship it is rendered with: data of another ship does not count. -/
def returned (mmsi : Option Int) (data : Option HistoryData) : HistoryState :=
  let current := data.filter fun data => some data.mmsi = mmsi
  { records := (current.map HistoryData.records).getD []
    error := current.bind HistoryData.error
    loading := mmsi.isSome && current.isNone }

end UseHistory

/-- `useHistory`. A ship is selected by a click, and React runs the effects of a click along with its
render; only taking the selection away may be shown earlier, as when the browser's location comes. -/
def useHistory : PollingEffect UseHistory.Deps FetchOutcome (Option UseHistory.HistoryData) where
  initial := none
  starts deps := deps.mmsi.isSome
  settled := UseHistory.settled
  defers before deps := deps.mmsi = none ∨ before.mmsi = deps.mmsi

end Ais
