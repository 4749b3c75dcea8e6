import AisPipeline.Web.Hooks
import Mathlib.Data.Rat.Defs

/-!
# The status of the feed

What the header of the page says of the feed, from the last poll and the page's
clock. Times of day are in milliseconds, those of records in seconds.
-/
namespace Ais.App

open UsePositions

def stalledAfterMs : Int := 20000

/-- `STALE_AFTER_SECONDS` of `radar.ts`. -/
def staleAfterSeconds : ℚ := 300

def feedCheckMinShips : Nat := 5

inductive Feed where
  | error
  | loading
  | stalled
  | delayed
  | live
  deriving DecidableEq, Repr

/-- When the newest record was received, if there are enough of them. -/
def newestReport (records : List PositionRecord) : Option Int :=
  if feedCheckMinShips ≤ records.length then
    some (records.foldl (fun newest record => max newest record.receivedAt) 0)
  else none

def newestAgeSeconds (now : Int) (records : List PositionRecord) : Option ℚ :=
  (newestReport records).map fun (newest : Int) => (now : ℚ) / (1000 : Nat) - newest

/-- `now` is the time the page's clock has last shown. An empty text is no error. -/
def feed (now : Int) (state : PositionsState) : Feed :=
  if state.error.getD "" ≠ "" then .error
  else if state.loading then .loading
  else if state.lastUpdated.any fun lastUpdated => now - lastUpdated > stalledAfterMs then .stalled
  else if (newestAgeSeconds now state.records).any fun age => age > staleAfterSeconds then .delayed
  else .live

end Ais.App
