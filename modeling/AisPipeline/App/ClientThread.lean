import AisPipeline.Pipeline.TcpClient
import AisPipeline.Pipeline.ReconnectBackoff
import AisPipeline.Lib.Transition

/-!
# The client thread

The loop `main` puts around `TcpClient::run`, and `run` itself taken apart at
every point where a stop may be requested, the network may answer or the queue
may keep the thread waiting. Times are readings of the steady clock in
nanoseconds.
-/
namespace Ais.ClientThread

open Cpp TcpClient

/-- The size of `buffer` in `run`. -/
def bufferSize : Nat := 4096

def millisecond : Int := 1000000

inductive Control where
  /-- at `while (!st.stop_requested())` -/
  | testing
  | starting
  /-- in `run`, up to the end of `async_connect` -/
  | connecting (started : Int)
  | reading (started : Int) (framer : LineFramer)
  /-- in the loop over what `feed` returned -/
  | pushing (started : Int) (framer : LineFramer) (lines : List Bytes)
  /-- an exception has left `run` -/
  | failing (started : Int) (failure : Failure)
  | backingOff (delay : Int64)
  /-- at the test of the loop that sleeps -/
  | waiting (since : Int) (delay : Int64)
  | returned

structure State where
  control : Control := .testing
  backoff : ReconnectBackoff := {}
  /-- the steady clock will not show less -/
  clock : Int := 0
  /-- `st.stop_requested()` -/
  stopRequested : Bool := false

/-- A value `steady_clock::now()` may return. -/
def State.Reads (s : State) (now : Int) : Prop := s.clock ≤ now ∧ now < 2 ^ 63

/-- What a step shows. -/
inductive Event where
  | silent
  | stopRequested
  | attempted (now : Int)
  | connected
  | received (chunk : Bytes)
  | pushed (line : Bytes)
  | pushThrew (line : Bytes)
  /-- the handler has asked for the delay -/
  | failed (now : Int) (failure : Failure) (delay : Int64)

/-- The thread takes the step alone: no queue and no other thread has a part in it. -/
def Event.isLocal : Event → Bool
  | .silent | .attempted _ | .connected | .received _ | .failed _ _ _ => true
  | .stopRequested | .pushed _ | .pushThrew _ => false

/-- What `run` throws when connecting ends this way and no stop was requested. -/
def connectFailure (client : TcpClient) : Completion Unit → Option Failure
  | .done () => none
  | .timedOut => some (.feedTimeout client.noConnection)
  | .failed error => some (.systemError error "connect")

def readFailure (client : TcpClient) : Completion Bytes → Option Failure
  | .done _ => none
  | .timedOut => some (.feedTimeout client.noData)
  | .failed error => some (.systemError error "read")

inductive Step (client : TcpClient) : State → Event → State → Prop where
  -- by another thread, at any time
  | stops (s : State) : Step client s .stopRequested { s with stopRequested := true }
  | tests (s : State) (at_test : s.control = .testing) :
      Step client s .silent
        { s with control := if s.stopRequested then .returned else .starting }
  | attempts (s : State) (now : Int) (at_start : s.control = .starting) (reads : s.Reads now) :
      Step client s (.attempted now) { s with control := .connecting now, clock := now }
  -- `TcpClient::run`
  | resolveFails (s : State) (started : Int) (error : String)
      (at_connect : s.control = .connecting started) :
      Step client s .silent
        { s with control := .failing started (.systemError error "resolve") }
  -- a stop is looked at before the result is
  | connectStopped (s : State) (started : Int) (at_connect : s.control = .connecting started)
      (stop : s.stopRequested = true) : Step client s .silent { s with control := .returned }
  | connectFails (s : State) (started : Int) (completion : Completion Unit) (failure : Failure)
      (at_connect : s.control = .connecting started) (going : s.stopRequested = false)
      (ended : connectFailure client completion = some failure) :
      Step client s .silent { s with control := .failing started failure }
  | connects (s : State) (started : Int) (at_connect : s.control = .connecting started)
      (going : s.stopRequested = false) :
      Step client s .connected { s with control := .reading started {} }
  | readStopped (s : State) (started : Int) (framer : LineFramer)
      (at_read : s.control = .reading started framer) (stop : s.stopRequested = true) :
      Step client s .silent { s with control := .returned }
  | readFails (s : State) (started : Int) (framer : LineFramer) (completion : Completion Bytes)
      (failure : Failure) (at_read : s.control = .reading started framer)
      (going : s.stopRequested = false) (ended : readFailure client completion = some failure) :
      Step client s .silent { s with control := .failing started failure }
  -- what has arrived is delivered whether or not a stop was requested
  | receives (s : State) (started : Int) (framer fed : LineFramer) (chunk : Bytes)
      (lines : List Bytes) (at_read : s.control = .reading started framer)
      (size : chunk.length ≤ bufferSize) (ran : framer.feed chunk = .ok (fed, lines)) :
      Step client s (.received chunk) { s with control := .pushing started fed lines }
  | feedThrows (s : State) (started : Int) (framer : LineFramer) (chunk : Bytes) (exn : Exn)
      (at_read : s.control = .reading started framer) (size : chunk.length ≤ bufferSize)
      (ran : framer.feed chunk = .error exn) :
      Step client s (.received chunk) { s with control := .failing started (.other exn) }
  | pushes (s : State) (started : Int) (framer : LineFramer) (line : Bytes) (lines : List Bytes)
      (at_push : s.control = .pushing started framer (line :: lines)) :
      Step client s (.pushed line) { s with control := .pushing started framer lines }
  | pushThrows (s : State) (started : Int) (framer : LineFramer) (line : Bytes)
      (lines : List Bytes) (exn : Exn)
      (at_push : s.control = .pushing started framer (line :: lines)) :
      Step client s (.pushThrew line) { s with control := .failing started (.other exn) }
  | delivers (s : State) (started : Int) (framer : LineFramer)
      (at_push : s.control = .pushing started framer []) :
      Step client s .silent
        { s with control := if s.stopRequested then .returned else .reading started framer }
  -- the handler
  | backsOff (s : State) (started now : Int) (failure : Failure) (backoff : ReconnectBackoff)
      (delay : Int64) (at_failure : s.control = .failing started failure) (reads : s.Reads now)
      (called : s.backoff.afterFailure (.ofInt (now - started)) = .ok (backoff, delay)) :
      Step client s (.failed now failure delay)
        { s with control := .backingOff delay, backoff := backoff, clock := now }
  | startsWaiting (s : State) (now : Int) (delay : Int64) (at_delay : s.control = .backingOff delay)
      (reads : s.Reads now) :
      Step client s .silent { s with control := .waiting now delay, clock := now }
  | waitStopped (s : State) (since : Int) (delay : Int64)
      (at_wait : s.control = .waiting since delay) (stop : s.stopRequested = true) :
      Step client s .silent { s with control := .testing }
  | waitEnds (s : State) (since now : Int) (delay : Int64)
      (at_wait : s.control = .waiting since delay) (going : s.stopRequested = false)
      (reads : s.Reads now) (elapsed : delay.toInt * millisecond ≤ now - since) :
      Step client s .silent { s with control := .testing, clock := now }
  -- `sleep_for` sleeps 100 ms or longer
  | sleeps (s : State) (since now woken : Int) (delay : Int64)
      (at_wait : s.control = .waiting since delay) (going : s.stopRequested = false)
      (reads : s.Reads now) (early : now - since < delay.toInt * millisecond)
      (slept : now + 100 * millisecond ≤ woken) (fits : woken < 2 ^ 63) :
      Step client s .silent { s with clock := woken }

def initial : State := {}

/-! ### What a trace tells -/

def Event.pushed? : Event → Option Bytes
  | .pushed line => some line
  | .silent | .stopRequested | .attempted _ | .connected | .received _ | .pushThrew _
  | .failed _ _ _ => none

/-- The lines pushed, in order. -/
def pushed (trace : List Event) : List Bytes := trace.filterMap Event.pushed?

def Event.addTo (streams : List Bytes) : Event → List Bytes
  | .connected => streams ++ [[]]
  | .received chunk => streams.dropLast ++ [streams.getLastD [] ++ chunk]
  | .silent | .stopRequested | .attempted _ | .pushed _ | .pushThrew _ | .failed _ _ _ => streams

/-- The bytes received over each connection, in order. -/
def streams (trace : List Event) : List Bytes := trace.foldl Event.addTo []

/-- The lines in what was received; no line runs from one connection into the next. -/
def received (trace : List Event) : List Bytes := (streams trace).flatMap LineFramer.linesOf

@[simp] theorem pushed_append (trace : List Event) (event : Event) :
    pushed (trace ++ [event]) = pushed trace ++ event.pushed?.toList := by
  cases shown : event.pushed? <;> simp [pushed, shown]

@[simp] theorem streams_append (trace : List Event) (event : Event) :
    streams (trace ++ [event]) = event.addTo (streams trace) := by
  simp [streams]

/-- Events that receive nothing leave the streams alone. -/
theorem streams_of_quiet (before : List Event) {after : List Event}
    (quiet : ∀ event ∈ after, ∀ streams, event.addTo streams = streams) :
    streams (before ++ after) = streams before := by
  induction after using List.reverseRecOn with
  | nil => rw [List.append_nil]
  | append_singleton after event ih =>
    rw [← List.append_assoc, streams_append, quiet event (by simp),
      ih fun earlier member => quiet earlier (List.mem_append_left _ member)]

end Ais.ClientThread
