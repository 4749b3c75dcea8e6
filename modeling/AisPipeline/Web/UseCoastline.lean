import AisPipeline.Lib.PromiseCache
import AisPipeline.Lib.Transition
import AisPipeline.Web.Coastline

/-!
# Loading the coastline

The hook `useCoastline` with the promises of its module, which outlive the
component. A fetch is answered by the network at any time. The callbacks chained
to its promise run later, each a step of its own, also those of an effect that
has been cleaned up.
-/
namespace Ais.UseCoastline

open PromiseCache

/-- What the effect is keyed on: the tiles in view. It is empty for no view and for a view without
tiles. No id has a comma, so the list says as much as the joined text. -/
abbrev Key := List TileId

structure CoastlineTile (T : Type) where
  id : TileId
  data : T

/-- The state of the hook. -/
structure CoastlineState (T : Type) where
  key : Key := []
  tiles : List (CoastlineTile T) := []
  outsideCoverage : Bool := false
  error : Option String := none

/-- What the chain of promises of one effect waits for. -/
inductive Stage where
  | index (promise : Nat)
  | tiles (promises : List (TileId × Nat))
  | finished

/-- The variables one run of the effect closes over. -/
structure Load where
  key : Key
  cancelled : Bool := false
  stage : Stage

structure State (T : Type) where
  indexPromise : Cache Unit (List TileId) String := {}
  tilePromises : Cache TileId T String := {}
  /-- what the component was last rendered with -/
  rendered : Key := []
  /-- what the effect last ran for -/
  ran : Key := []
  /-- the runs of the effect, the oldest first -/
  loads : List Load := []
  /-- the one that is still to be cleaned up -/
  live : Option Nat := none
  state : CoastlineState T := {}

namespace State

variable {T : Type}

def cleanUp (s : State T) : State T :=
  match s.live with
  | none => s
  | some n =>
    { s with
      live := none
      loads := s.loads.modify n fun load => { load with cancelled := true } }

/-- The body of the effect. -/
def setUp (s : State T) : State T :=
  if s.rendered = [] then { s with ran := s.rendered }
  else
    let (indexPromise, promise) := s.indexPromise.request ()
    { s with
      indexPromise := indexPromise
      ran := s.rendered
      loads := s.loads ++ [{ key := s.rendered, stage := .index promise }]
      live := some s.loads.length }

/-- The end of a chain, which sets the state unless it has been cancelled. -/
def conclude (s : State T) (n : Nat) (load : Load) (state : CoastlineState T) : State T :=
  { s with
    loads := s.loads.set n { load with stage := .finished }
    state := if load.cancelled then s.state else state }

/-- What the hook returns. -/
def returned (s : State T) : CoastlineState T :=
  { s.state with outsideCoverage := s.state.key = s.rendered && s.state.outsideCoverage }

end State

inductive Event where
  | rendered (key : Key)
  | ranEffects
  | remounted
  /-- by the network -/
  | answered
  /-- a callback of a promise has run -/
  | continued

def drawn {T : Type} (load : Load) (tiles : List (CoastlineTile T)) : CoastlineState T :=
  { key := load.key, tiles := tiles, outsideCoverage := tiles.length = 0 }

def failed {T : Type} (load : Load) (err : String) : CoastlineState T :=
  { key := load.key, error := some ("Could not load coastline: " ++ err) }

inductive Step {T : Type} : State T → Event → State T → Prop where
  | renders (s : State T) (key : Key) : Step s (.rendered key) { s with rendered := key }
  | runsEffects (s : State T) (changed : s.rendered ≠ s.ran) : Step s .ranEffects s.cleanUp.setUp
  | remounts (s : State T) :
      Step s .remounted { s.cleanUp with rendered := [], ran := [], state := {} }
  -- the network
  | indexArrives (s : State T) (i : Nat) (fetch : Fetch Unit (List TileId) String)
      (ids : List TileId) (sent : s.indexPromise.fetches[i]? = some fetch)
      (out : fetch.promise = .pending) :
      Step s .answered { s with indexPromise := s.indexPromise.settle i (.fulfilled ids) }
  | indexFails (s : State T) (i : Nat) (fetch : Fetch Unit (List TileId) String) (err : String)
      (sent : s.indexPromise.fetches[i]? = some fetch) (out : fetch.promise = .pending) :
      Step s .answered { s with indexPromise := s.indexPromise.fail i fetch.key err }
  | tileArrives (s : State T) (i : Nat) (fetch : Fetch TileId T String) (data : T)
      (sent : s.tilePromises.fetches[i]? = some fetch) (out : fetch.promise = .pending) :
      Step s .answered { s with tilePromises := s.tilePromises.settle i (.fulfilled data) }
  | tileFails (s : State T) (i : Nat) (fetch : Fetch TileId T String) (err : String)
      (sent : s.tilePromises.fetches[i]? = some fetch) (out : fetch.promise = .pending) :
      Step s .answered { s with tilePromises := s.tilePromises.fail i fetch.key err }
  -- the callbacks
  | requestsTiles (s : State T) (n : Nat) (load : Load) (i : Nat) (ids : List TileId)
      (waiting : s.loads[n]? = some load) (at_index : load.stage = .index i)
      (arrived : s.indexPromise.value? i = some ids) :
      Step s .continued { s with
        tilePromises := (s.tilePromises.requestAll (load.key.filter fun id => id ∈ ids)).1
        loads := s.loads.set n { load with
          stage := .tiles (s.tilePromises.requestAll (load.key.filter fun id => id ∈ ids)).2 } }
  | draws (s : State T) (n : Nat) (load : Load) (promises : List (TileId × Nat))
      (tiles : List (CoastlineTile T)) (waiting : s.loads[n]? = some load)
      (at_tiles : load.stage = .tiles promises)
      (arrived : List.Forall₂ (fun promise tile => tile.id = promise.1 ∧
        s.tilePromises.value? promise.2 = some tile.data) promises tiles) :
      Step s .continued (s.conclude n load (drawn load tiles))
  | losesIndex (s : State T) (n : Nat) (load : Load) (i : Nat)
      (fetch : Fetch Unit (List TileId) String) (err : String)
      (waiting : s.loads[n]? = some load) (at_index : load.stage = .index i)
      (sent : s.indexPromise.fetches[i]? = some fetch) (lost : fetch.promise = .rejected err) :
      Step s .continued (s.conclude n load (failed load err))
  | losesTile (s : State T) (n : Nat) (load : Load) (promises : List (TileId × Nat))
      (promise : TileId × Nat) (fetch : Fetch TileId T String) (err : String)
      (waiting : s.loads[n]? = some load) (at_tiles : load.stage = .tiles promises)
      (one : promise ∈ promises) (sent : s.tilePromises.fetches[promise.2]? = some fetch)
      (lost : fetch.promise = .rejected err) :
      Step s .continued (s.conclude n load (failed load err))

end Ais.UseCoastline
