import AisPipeline.Pipeline.LineFramer

/-!
# The feed connection

One call of `run` is one connection. What the network and the stop token do is
a script: how each asynchronous operation ends, and whether a stop has been
requested by then.
-/
namespace Ais

open Cpp

/-- `TcpClient`; the timeouts are in milliseconds. -/
structure TcpClient where
  host : String
  port : String
  connectTimeout : Int := 10000
  readTimeout : Int := 600000

namespace TcpClient

/-- How an operation started by `run` comes to its end. -/
inductive Completion (α : Type) where
  | done (value : α)
  | failed (error : String)
  /-- `completed_within` closed the socket -/
  | timedOut

structure Operation (α : Type) where
  completion : Completion α
  /-- `stop_token.stop_requested()` once it has ended -/
  stopRequested : Bool := false

/-- One connection as `run` meets it. -/
structure Connection where
  /-- what `resolve` throws, if it does -/
  resolveError : Option String := none
  connect : Operation Unit := { completion := .done () }
  reads : List (Operation Bytes)

/-- What leaves `run` as an exception. -/
inductive Failure where
  | feedTimeout (what : String)
  | systemError (error what : String)
  | other (exn : Exn)

inductive Ending where
  | returned
  | threw (failure : Failure)
  /-- the script ends inside a read -/
  | reading

def noConnection (client : TcpClient) : String :=
  "no connection to " ++ client.host ++ ":" ++ client.port ++ " within " ++
    toString client.connectTimeout ++ " ms"

def noData (client : TcpClient) : String :=
  "no data from " ++ client.host ++ ":" ++ client.port ++ " for " ++
    toString client.readTimeout ++ " ms"

/-- The read loop of `run`; `output` is what has been pushed so far. -/
def readLoop (client : TcpClient) (framer : LineFramer) (output : List Bytes) :
    List (Operation Bytes) → List Bytes × Ending
  | [] => (output, .reading)
  | read :: reads =>
    match read.completion with
    | .timedOut =>
      if read.stopRequested then (output, .returned)
      else (output, .threw (.feedTimeout client.noData))
    | .failed error =>
      if read.stopRequested then (output, .returned)
      else (output, .threw (.systemError error "read"))
    | .done chunk =>
      match framer.feed chunk with
      | .error exn => (output, .threw (.other exn))
      | .ok (framer, lines) =>
        -- the lines are delivered even if a stop was requested meanwhile
        if read.stopRequested then (output ++ lines, .returned)
        else client.readLoop framer (output ++ lines) reads

/-- `TcpClient::run`; the framer is local to the call. -/
def run (client : TcpClient) (connection : Connection) (output : List Bytes) :
    List Bytes × Ending :=
  match connection.resolveError with
  | some error => (output, .threw (.systemError error "resolve"))
  | none =>
    if connection.connect.stopRequested then (output, .returned)
    else
      match connection.connect.completion with
      | .timedOut => (output, .threw (.feedTimeout client.noConnection))
      | .failed error => (output, .threw (.systemError error "connect"))
      | .done () => client.readLoop {} output connection.reads

/-- The caller reconnects by calling `run` again. -/
def runs (client : TcpClient) (connections : List Connection) (output : List Bytes) : List Bytes :=
  connections.foldl (fun output connection => (client.run connection output).1) output

/-! ### What a connection delivers -/

/-- The chunks of the reads up to the one that ends the loop. -/
def arrived : List (Operation Bytes) → List Bytes
  | [] => []
  | read :: reads =>
    match read.completion with
    | .done chunk => chunk :: if read.stopRequested then [] else arrived reads
    | .failed _ | .timedOut => []

def Connection.chunks (connection : Connection) : List Bytes :=
  match connection.resolveError, connection.connect.stopRequested, connection.connect.completion with
  | none, false, .done () => arrived connection.reads
  | _, _, _ => []

end TcpClient
end Ais
