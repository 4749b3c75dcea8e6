import AisPipeline.Lib.Grouping
import AisPipeline.Web.Coastline
import AisPipeline.Web.GmlReader
import AisPipeline.Web.Simplify

/-!
# The coastline build

`main` of the build script, from the chunks of its files to the tiles it writes.
The projection is `proj4`'s, and the distances in the simplification may be any.
-/
namespace Ais.BuildCoastline

open Coastline Js
open Cpp (Double)

def simplifyMetres : Nat := 25

def decimals : Nat := 5

/-- The pairs of a flat list. `coastlines` yields none of odd length. -/
def toPoints : List Double → List (Double × Double)
  | x :: y :: numbers => (x, y) :: toPoints numbers
  | [_] | [] => []

section Rounding

variable {K : Type} [Field K] [LinearOrder K] [FloorRing K]

/-- `Math.round` takes the upper of two neighbours. -/
def round (value : K) : K :=
  let factor : K := (10 ^ decimals : Nat)
  (⌊value * factor + 1 / (2 : Nat)⌋ : K) / factor

def roundPoint (point : K × K) : K × K := (round point.1, round point.2)

end Rounding

/-- The map `tiles`, in the order its keys came in. -/
abbrev Tiles (K : Type) := List (TileId × List (List (K × K)))

/-- The text of a tile id, by which the index is sorted. -/
def tileId (id : TileId) : String := toString id.lat ++ "_" ++ toString id.lon

/-- `index.json` and the other files, by their tile. -/
structure Output (K : Type) where
  index : List TileId
  files : Tiles K

section Build

variable {K D : Type} [Field K] [LinearOrder K] [FloorRing K] [LinearOrder D] [NatCast D]
  (nearest : ℚ → Double)
  (distance : Double × Double → Double × Double → Double × Double → D)
  (forward : Double × Double → K × K)

/-- The line of one feature; twice as many turns as points are enough to simplify it. -/
def lineOf (numbers : List Double) : List (K × K) :=
  let utm := toPoints numbers
  ((simplifyBy distance utm (simplifyMetres : D) (2 * utm.length)).getD []).map forward

/-- Each run of the line is pushed to its tile's list, rounded. -/
def addLine (tiles : Tiles K) (line : List (K × K)) : Tiles K :=
  Grouping.addAll tiles ((tilesOf line).map fun stored => (stored.1, stored.2.map roundPoint))

/-- The features of all files, one after the other. A malformed one ends the build. -/
def collect (tiles : Tiles K) : List (String × List Text) → Except String (Tiles K)
  | [] => .ok tiles
  | (path, chunks) :: inputs =>
    let read := Gml.coastlines nearest path chunks
    match read.error with
    | some err => .error err
    | none => collect (read.yielded.foldl
        (fun tiles numbers => addLine tiles (lineOf distance forward numbers)) tiles) inputs

def main (inputs : List (String × List Text)) : Except String (Output K) :=
  if inputs = [] then .error "usage: node scripts/build-coastline.mjs <N250Arealdekke.gml>..."
  else do
    let tiles ← collect nearest distance forward [] inputs
    return {
      index := (tiles.map Prod.fst).mergeSort fun a b => decide (tileId a ≤ tileId b)
      files := tiles }

end Build

end Ais.BuildCoastline
