import AisPipeline.Api.PositionReader

/-!
# The API server

The two routes with parameters. A handler parses first and answers a text that
does not parse with a 400; only what follows the parsing asks the reader.
-/
namespace Ais.ApiServer

open Cpp PositionReader

/-- What a handler reads of a request: the digits of the path and the query parameters. -/
structure Request where
  digits : Bytes := []
  params : List (String × Bytes) := []

/-- `get_param_value`: the first value of a parameter, empty if it is missing. -/
def Request.getParamValue (req : Request) (key : String) : Bytes :=
  ((req.params.find? fun param => param.1 = key).map Prod.snd).getD []

/-- Where the parsing half of a handler ends. -/
inductive Parsed (query : Type) where
  | badRequest (text : String)
  | asks (query : query)

def invalidParameters : String := "invalid or missing query parameters"

def invalidLimit : String := "limit must be between 1 and 1000"

section
variable (nearest : ℚ → Option ℚ)

def areaBox (req : Request) : Except Exn BoundingBox := do
  let minLat ← stod nearest (req.getParamValue "min_lat")
  let maxLat ← stod nearest (req.getParamValue "max_lat")
  let minLon ← stod nearest (req.getParamValue "min_lon")
  let maxLon ← stod nearest (req.getParamValue "max_lon")
  return { minLat, maxLat, minLon, maxLon }

/-- `GET /positions/area`. -/
def area (req : Request) : Parsed BoundingBox :=
  match areaBox nearest req with
  | .error _ => .badRequest invalidParameters
  | .ok box => .asks box

end

/-- The limit before its range check; an empty one is the default. -/
def limitOf (req : Request) : Except Exn Int32 :=
  let limitParam := req.getParamValue "limit"
  if limitParam = [] then .ok 50 else stoi limitParam

/-- `GET /positions/{mmsi}/history`. The route lets decimal digits through only. -/
def history (req : Request) : Parsed (UInt32 × Int32) :=
  let parsed := do
    let number ← stoul req.digits
    let limit ← limitOf req
    -- the assignment to `mmsi` keeps the low 32 bits
    return (number.toUInt32, limit)
  match parsed with
  | .error _ => .badRequest invalidParameters
  | .ok (mmsi, limit) =>
    if limit < 1 ∨ limit > 1000 then .badRequest invalidLimit else .asks (mmsi, limit)

inductive Response where
  | badRequest (text : String)
  | records (records : List PositionRecord)

/-- The responses to a history request. -/
def HistoryResponds (db : Database) (req : Request) : Response → Prop
  | .badRequest text => history req = .badRequest text
  | .records records => ∃ mmsi limit, history req = .asks (mmsi, limit) ∧ History db mmsi limit records

/-- The response to an area request. -/
def areaResponse (nearest : ℚ → Option ℚ) (db : Database) (req : Request) : Response :=
  match area nearest req with
  | .badRequest text => .badRequest text
  | .asks box => .records (positionsInArea db box)

end Ais.ApiServer
