import AisPipeline.App.ClientThread
import AisPipeline.App.Main
import AisPipeline.Pipeline.WriterRun

/-!
# The process

`main` with its three threads as they are: the client reads bytes from one
connection after the other, the writer works in transactions on its database.
The threads meet in the two queues and nowhere else. An exception that leaves
the decoder or the writer thread ends the process, which any run may do by
going no further.
-/
namespace Ais

open Cpp

structure Config where
  host : String := "153.44.253.27"
  port : String := "5631"
  dbPath : String := "ais_data.db"

/-- The arguments behind the program's name; what is not given keeps its default. -/
def parseArgs (args : List String) : Config where
  host := args[0]?.getD ({} : Config).host
  port := args[1]?.getD ({} : Config).port
  dbPath := args[2]?.getD ({} : Config).dbPath

/-- What `main` does with its arguments. -/
inductive Start where
  | usage (exitCode : Nat)
  | runs (config : Config)

def start (args : List String) : Start :=
  match args with
  | [] => .runs {}
  | first :: _ =>
    if first = "-h" ∨ first = "--help" then .usage 0
    else if args.length > 3 then .usage 1
    else .runs (parseArgs args)

/-- The first argument asks for help. -/
def AsksForHelp (args : List String) : Prop := args.head? = some "-h" ∨ args.head? = some "--help"

theorem start_cases (args : List String) :
    (AsksForHelp args ∧ start args = .usage 0) ∨
    (¬ AsksForHelp args ∧ 3 < args.length ∧ start args = .usage 1) ∨
    (¬ AsksForHelp args ∧ args.length ≤ 3 ∧ start args = .runs (parseArgs args)) := by
  cases args with
  | nil => exact .inr (.inr ⟨by simp [AsksForHelp], Nat.zero_le 3, rfl⟩)
  | cons first rest =>
    have asks : AsksForHelp (first :: rest) ↔ first = "-h" ∨ first = "--help" := by simp [AsksForHelp]
    rw [asks, start]
    by_cases help : first = "-h" ∨ first = "--help"
    · exact .inl ⟨help, if_pos help⟩
    · rw [if_neg help]
      by_cases many : 3 < (first :: rest).length
      · exact .inr (.inl ⟨help, many, if_pos many⟩)
      · exact .inr (.inr ⟨help, not_lt.mp many, if_neg many⟩)

/-- Every configuration can be given on the command line, but for a host that asks for help. -/
theorem start_config (config : Config) :
    start [config.host, config.port, config.dbPath] = .runs config ↔
      config.host ≠ "-h" ∧ config.host ≠ "--help" := by
  have asks : AsksForHelp [config.host, config.port, config.dbPath] ↔
      config.host = "-h" ∨ config.host = "--help" := by simp [AsksForHelp]
  rw [← not_or, ← asks]
  rcases start_cases [config.host, config.port, config.dbPath] with ⟨help, ends⟩ | ⟨-, many, -⟩ | ⟨silent, -, runs⟩
  · rw [ends]
    exact iff_of_false (by nofun) (not_not_intro help)
  · exact absurd many (lt_irrefl 3)
  · exact iff_of_true runs silent

def Config.client (config : Config) : TcpClient where
  host := config.host
  port := config.port

structure Process where
  queue1 : ThreadSafeQueue Bytes
  queue2 : ThreadSafeQueue AisMessage
  client : ClientThread.State := ClientThread.initial
  stage : DecoderStage := {}
  decoder : DecoderState := .loop
  writer : WriterRun.State
  main : MainState := .waiting
  /-- `g_stop_requested` -/
  stopFlag : Bool := false
  decoderStop : Bool := false
  writerStop : Bool := false

namespace Process

open Pipeline (maxBatchSize)

inductive Event where
  | client (event : ClientThread.Event)
  | writer (event : WriterRun.Event)
  | decoderPushThrew
  | terminated
  | silent

/-- The writer at another point of `run`. -/
def withWriter (s : Process) (control : WriterRun.Control) : Process :=
  { s with writer := { s.writer with control := control } }

/-- `client` is the object `main` made from its arguments. -/
inductive Step (client : TcpClient) : Process → Event → Process → Prop where
  -- the client thread, which catches what `push` throws
  | clientMoves (s : Process) (event : ClientThread.Event) (after : ClientThread.State)
      (step : ClientThread.Step client s.client event after) (alone : event.isLocal) :
      Step client s (.client event) { s with client := after }
  | clientPushes (s : Process) (line : Bytes) (after : ClientThread.State)
      (q : ThreadSafeQueue Bytes) (step : ClientThread.Step client s.client (.pushed line) after)
      (ran : s.queue1.push line = (q, .returned ())) :
      Step client s (.client (.pushed line)) { s with client := after, queue1 := q }
  | clientPushThrows (s : Process) (line : Bytes) (after : ClientThread.State)
      (q : ThreadSafeQueue Bytes) (exn : Exn)
      (step : ClientThread.Step client s.client (.pushThrew line) after)
      (ran : s.queue1.push line = (q, .threw exn)) :
      Step client s (.client (.pushThrew line)) { s with client := after, queue1 := q }
  -- `DecoderStage::run`
  | decoderTests (s : Process) (at_loop : s.decoder = .loop) :
      Step client s .silent { s with decoder := if s.decoderStop then .returned else .popping }
  | decoderPops (s : Process) (line : Bytes) (q : ThreadSafeQueue Bytes) (stage : DecoderStage)
      (output : Option AisMessage) (at_pop : s.decoder = .popping)
      (ran : s.queue1.pop = (q, .returned (some line)))
      (processed : s.stage.processLine line = .ok (stage, output)) :
      Step client s .silent
        { s with queue1 := q, stage := stage, decoder := output.elim .loop .pushing }
  | decoderThrows (s : Process) (line : Bytes) (q : ThreadSafeQueue Bytes) (exn : Exn)
      (at_pop : s.decoder = .popping) (ran : s.queue1.pop = (q, .returned (some line)))
      (processed : s.stage.processLine line = .error exn) :
      Step client s .terminated { s with queue1 := q, decoder := .terminated }
  | decoderEnds (s : Process) (q : ThreadSafeQueue Bytes) (at_pop : s.decoder = .popping)
      (ran : s.queue1.pop = (q, .returned none)) :
      Step client s .silent { s with queue1 := q, decoder := .returned }
  | decoderPushes (s : Process) (message : AisMessage) (q : ThreadSafeQueue AisMessage)
      (at_push : s.decoder = .pushing message) (ran : s.queue2.push message = (q, .returned ())) :
      Step client s .silent { s with queue2 := q, decoder := .loop }
  | decoderPushThrows (s : Process) (message : AisMessage) (q : ThreadSafeQueue AisMessage)
      (exn : Exn) (at_push : s.decoder = .pushing message)
      (ran : s.queue2.push message = (q, .threw exn)) :
      Step client s .decoderPushThrew { s with queue2 := q, decoder := .terminated }
  -- `SqliteWriter::run`: its loop test, `pop_batch`, and what it does to the database
  | writerTests (s : Process) (at_loop : s.writer.control = .loop) :
      Step client s (.writer .silent)
        (s.withWriter (if s.writerStop then .returned else .popping))
  | writerTakes (s : Process) (now : Int) (batch : List AisMessage)
      (q : ThreadSafeQueue AisMessage) (at_pop : s.writer.control = .popping)
      (ran : s.queue2.popBatch maxBatchSize = (q, .returned batch)) (some_left : batch ≠ []) :
      Step client s (.writer (.took now batch))
        { s.withWriter (.beginning (WriterRun.seconds now) batch) with queue2 := q }
  | writerDrains (s : Process) (q : ThreadSafeQueue AisMessage)
      (at_pop : s.writer.control = .popping)
      (ran : s.queue2.popBatch maxBatchSize = (q, .returned [])) :
      Step client s (.writer .silent) { s.withWriter .returned with queue2 := q }
  | writerMoves (s : Process) (event : WriterRun.Event) (after : WriterRun.State)
      (step : WriterRun.Step s.writer event after) (inside : s.writer.control ≠ .loop)
      (busy : s.writer.control ≠ .popping) :
      Step client s (.writer event) { s with writer := after }
  -- a signal, of which a second one changes nothing, and `main`
  | signals (s : Process) (first : s.stopFlag = false) :
      Step client s .silent { s with stopFlag := true }
  | mainRequestsStop (s : Process) (after : ClientThread.State) (at_wait : s.main = .waiting)
      (flagged : s.stopFlag = true)
      (step : ClientThread.Step client s.client .stopRequested after) :
      Step client s (.client .stopRequested) { s with main := .joiningClient, client := after }
  | mainJoinsClient (s : Process) (at_join : s.main = .joiningClient)
      (ended : s.client.control = .returned) :
      Step client s .silent { s with main := .closingQueue1 }
  | mainClosesQueue1 (s : Process) (at_close : s.main = .closingQueue1) :
      Step client s .silent { s with main := .joiningDecoder, queue1 := s.queue1.close }
  | mainJoinsDecoder (s : Process) (at_join : s.main = .joiningDecoder)
      (ended : s.decoder = .returned) : Step client s .silent { s with main := .closingQueue2 }
  | mainClosesQueue2 (s : Process) (at_close : s.main = .closingQueue2) :
      Step client s .silent { s with main := .joiningWriter, queue2 := s.queue2.close }
  | mainJoinsWriter (s : Process) (at_join : s.main = .joiningWriter)
      (ended : s.writer.control = .returned) :
      Step client s .silent { s with main := .returned }

/-- The three threads are started once the writer has opened the database. `main` uses 500 for
both capacities. -/
def initial (capacity1 capacity2 : Nat) (db : Database) : Process where
  queue1 := { capacity := capacity1 }
  queue2 := { capacity := capacity2 }
  writer := WriterRun.initial db

/-! ### Its parts -/

def Event.client? : Event → Option ClientThread.Event
  | .client event => some event
  | .writer _ | .decoderPushThrew | .terminated | .silent => none

def Event.writer? : Event → Option WriterRun.Event
  | .writer event => some event
  | .client _ | .decoderPushThrew | .terminated | .silent => none

/-- What the client thread shows along a run of the process. -/
def clientTrace (trace : List Event) : List ClientThread.Event := trace.filterMap Event.client?

def writerTrace (trace : List Event) : List WriterRun.Event := trace.filterMap Event.writer?

end Process

end Ais
