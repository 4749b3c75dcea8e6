import AisPipeline.Js.Text
import AisPipeline.Lib.Transition
import AisPipeline.Web.UseRadarView

/-!
# Picking where the radar is

The component `LocationPicker`: a search for places as one types, and the
position of the device. A handler sees what was last rendered. What a handler
of the user's sets is rendered, and its effects run, before anything else
happens; what a timer or an answer sets is rendered later. A fetch that has been
aborted rejects.
-/
namespace Ais.LocationPicker

open Js
open Cpp (Double)

/-- In milliseconds. -/
def searchDelayMs : Nat := 300

def minQueryLength : Nat := 2

structure Place where
  name : Text
  kind : Text
  municipality : Option Text
  lat : Double
  lon : Double
  deriving DecidableEq

def Place.centre (place : Place) : UseRadarView.RadarCentre := ⟨place.lat, place.lon, some place.name⟩

inductive SearchState where
  | idle
  | searching (query : Text)
  | done (query : Text) (places : List Place)
  | failed (query : Text) (message : String)
  deriving DecidableEq

/-- The text a search belongs to. -/
def SearchState.query? : SearchState → Option Text
  | .idle => none
  | .searching query | .done query _ | .failed query _ => some query

/-- Where one run of the effect is: before its timer, before its answer, or done. -/
inductive Stage where
  | waiting
  | requested
  | settled
  deriving DecidableEq

/-- The run of the effect that has not been cleaned up. -/
structure Search where
  trimmed : Text
  setAt : Nat
  stage : Stage := .waiting

structure State where
  query : Text := []
  search : SearchState := .idle
  enterPending : Bool := false
  locating : Bool := false
  locateError : Option String := none
  shownQuery : Text := []
  shownSearch : SearchState := .idle
  shownLocating : Bool := false
  /-- what the effect last ran for -/
  ran : Text := []
  effect : Option Search := none
  /-- the requests that were aborted and have not rejected yet -/
  aborted : List Text := []
  /-- the requests for the position that are out -/
  deviceRequests : Nat := 0
  now : Nat := 0

def active (query : Text) : Bool := minQueryLength ≤ (trim query).length

namespace State

variable (s : State)

/-- Only what belongs to the text now in the box. -/
def current : Option SearchState :=
  if s.shownSearch.query? = some (trim s.shownQuery) then some s.shownSearch else none

def render : State :=
  { s with shownQuery := s.query, shownSearch := s.search, shownLocating := s.locating }

def cleanUp : State :=
  { s with
    effect := none
    aborted := match s.effect with
      | some ⟨trimmed, _, .requested⟩ => trimmed :: s.aborted
      | some ⟨_, _, .waiting⟩ | some ⟨_, _, .settled⟩ | none => s.aborted }

/-- The effects of the last render, if what they depend on has changed. -/
def runEffects : State :=
  if trim s.shownQuery = s.ran then s
  else
    { s.cleanUp with
      ran := trim s.shownQuery
      effect := if active s.shownQuery then some { trimmed := trim s.shownQuery, setAt := s.now } else none }

/-- Behind a handler of the user's. -/
def flush : State := s.runEffects.render.runEffects

def choose : State := { s with enterPending := false, query := [], search := .idle }

/-- Enter in the box: the state it leaves, and the place it chooses. -/
def enter : State × Option Place :=
  if active s.shownQuery then
    match s.current with
    | some (.done _ (place :: _)) => (s.choose.flush, some place)
    | some (.done _ []) | some (.failed _ _) => (s, none)
    | some .idle | some (.searching _) | none => ({ s with enterPending := true }, none)
  else (s, none)

/-- The results of the search for `query` arrive. -/
def onResults (query : Text) (places : List Place) : State × Option Place :=
  match if s.enterPending then places.head? else none with
  | some place => (s.choose, some place)
  | none => ({ s with search := .done query places }, none)

end State

inductive Event where
  | typed (text : Text)
  | escaped
  | entered (chosen : Option Place)
  | clicked (place : Place)
  | elapsed (ms : Nat)
  | searched (query : Text)
  | answered (query : Text) (places : List Place) (chosen : Option Place)
  | failed (query : Text) (message : String)
  | rejected
  | rendered
  | ranEffects
  | deviceMissing
  | deviceAsked
  | deviceFound (lat lon : Double)
  | deviceFailed (denied : Bool)
  deriving DecidableEq

/-- What `onChange` is called with. -/
def Event.move? : Event → Option UseRadarView.RadarCentre
  | .clicked place => some place.centre
  | .entered chosen | .answered _ _ chosen => chosen.map Place.centre
  | .deviceFound lat lon => some ⟨lat, lon, none⟩
  | .typed _ | .escaped | .elapsed _ | .searched _ | .failed _ _ | .rejected | .rendered | .ranEffects
  | .deviceMissing | .deviceAsked | .deviceFailed _ => none

inductive Step : State → Event → State → Prop where
  | types (s : State) (text : Text) :
      Step s (.typed text) { s with enterPending := false, query := text : State }.flush
  | escapes (s : State) : Step s .escaped { s with query := [] : State }.flush
  | enters (s : State) : Step s (.entered s.enter.2) s.enter.1
  | clicks (s : State) (query : Text) (places : List Place) (place : Place)
      (shown : active s.shownQuery = true) (results : s.current = some (.done query places))
      (listed : place ∈ places) : Step s (.clicked place) s.choose.flush
  | elapses (s : State) (ms : Nat) : Step s (.elapsed ms) { s with now := s.now + ms }
  | fires (s : State) (effect : Search) (mounted : s.effect = some effect)
      (waiting : effect.stage = .waiting) (due : effect.setAt + searchDelayMs ≤ s.now) :
      Step s (.searched effect.trimmed)
        { s with search := .searching effect.trimmed, effect := some { effect with stage := .requested } }
  | answers (s : State) (effect : Search) (places : List Place) (mounted : s.effect = some effect)
      (out : effect.stage = .requested) :
      Step s (.answered effect.trimmed places (s.onResults effect.trimmed places).2)
        { (s.onResults effect.trimmed places).1 with effect := some { effect with stage := .settled } }
  | fails (s : State) (effect : Search) (message : String) (mounted : s.effect = some effect)
      (out : effect.stage = .requested) :
      Step s (.failed effect.trimmed message)
        { s with
          enterPending := false
          search := .failed effect.trimmed message
          effect := some { effect with stage := .settled } }
  | rejects (s : State) (before after : List Text) (query : Text) (out : s.aborted = before ++ query :: after) :
      Step s .rejected { s with aborted := before ++ after }
  | renders (s : State) : Step s .rendered s.render
  | runsEffects (s : State) : Step s .ranEffects s.runEffects
  -- the position of the device
  | lacksDevice (s : State) (enabled : s.shownLocating = false) :
      Step s .deviceMissing
        { s with locateError := some "This browser cannot report its position." : State }.flush
  | asksDevice (s : State) (enabled : s.shownLocating = false) :
      Step s .deviceAsked
        { s with locating := true, locateError := none, deviceRequests := s.deviceRequests + 1 : State }.flush
  | findsDevice (s : State) (lat lon : Double) (requests : Nat) (out : s.deviceRequests = requests + 1) :
      Step s (.deviceFound lat lon) { s with locating := false, deviceRequests := requests }
  | missesDevice (s : State) (denied : Bool) (requests : Nat) (out : s.deviceRequests = requests + 1) :
      Step s (.deviceFailed denied)
        { s with
          locating := false
          deviceRequests := requests
          locateError := some
            (if denied then "Location permission was denied." else "Could not get your position.") }

end Ais.LocationPicker
