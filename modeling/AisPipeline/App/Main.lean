import AisPipeline.Pipeline.ConcurrentQueue
import AisPipeline.Pipeline.DecoderStage

/-!
# The three stages and their shutdown

`main` and its threads as processes over the two queues. A step is one section
under a queue's lock or one action of a thread between such sections, so a run
is any interleaving. The network is arbitrary: the client may receive any line
at any time, and a stop may be signalled at any time.
-/
namespace Ais

open Cpp

/-- The client thread: in a read (or reconnecting), or in `push` with a line. -/
inductive ClientState where
  | reading
  | pushing (line : Bytes)
  | returned

/-- The decoder thread: at its loop test, in `pop`, in `push` with a message, or gone. -/
inductive DecoderState where
  | loop
  | popping
  | pushing (message : AisMessage)
  | returned
  | terminated

/-- The writer thread; in a transaction, some messages of its batch are written already. -/
inductive WriterState where
  | loop
  | popping
  | writing (written rest : List AisMessage)
  | returned

/-- Where `main` is, in program order. -/
inductive MainState where
  | waiting
  | joiningClient
  | closingQueue1
  | joiningDecoder
  | closingQueue2
  | joiningWriter
  | returned

structure Pipeline where
  queue1 : ThreadSafeQueue Bytes
  queue2 : ThreadSafeQueue AisMessage
  stage : DecoderStage := {}
  client : ClientState := .reading
  decoder : DecoderState := .loop
  writer : WriterState := .loop
  main : MainState := .waiting
  clientStop : Bool := false
  decoderStop : Bool := false
  writerStop : Bool := false
  committed : List AisMessage := []

namespace Pipeline

/-- What a step shows: a line pushed by the client, a push that met a closed queue, an
exception that leaves the decoder thread, or nothing. -/
inductive Event where
  | linePushed (line : Bytes)
  | pushThrew
  | terminated
  | silent

/-- `SqliteWriter::max_batch_size`. -/
def maxBatchSize : Nat := 500

inductive Step : Pipeline → Event → Pipeline → Prop where
  -- `TcpClient::run` in the loop of the client thread, which catches what `push` throws
  | clientReceives (s : Pipeline) (line : Bytes) (at_read : s.client = .reading) :
      Step s .silent { s with client := .pushing line }
  | clientPushes (s : Pipeline) (line : Bytes) (q : ThreadSafeQueue Bytes)
      (at_push : s.client = .pushing line) (ran : s.queue1.push line = (q, .returned ())) :
      Step s (.linePushed line) { s with queue1 := q, client := .reading }
  | clientPushThrows (s : Pipeline) (line : Bytes) (q : ThreadSafeQueue Bytes) (exn : Exn)
      (at_push : s.client = .pushing line) (ran : s.queue1.push line = (q, .threw exn)) :
      Step s .pushThrew { s with queue1 := q, client := .reading }
  | clientReturns (s : Pipeline) (at_read : s.client = .reading) (stop : s.clientStop = true) :
      Step s .silent { s with client := .returned }
  -- `DecoderStage::run`
  | decoderTests (s : Pipeline) (at_loop : s.decoder = .loop) :
      Step s .silent { s with decoder := if s.decoderStop then .returned else .popping }
  | decoderPops (s : Pipeline) (line : Bytes) (q : ThreadSafeQueue Bytes) (stage : DecoderStage)
      (output : Option AisMessage) (at_pop : s.decoder = .popping)
      (ran : s.queue1.pop = (q, .returned (some line)))
      (processed : s.stage.processLine line = .ok (stage, output)) :
      Step s .silent
        { s with queue1 := q, stage := stage, decoder := output.elim .loop .pushing }
  | decoderThrows (s : Pipeline) (line : Bytes) (q : ThreadSafeQueue Bytes) (exn : Exn)
      (at_pop : s.decoder = .popping) (ran : s.queue1.pop = (q, .returned (some line)))
      (processed : s.stage.processLine line = .error exn) :
      Step s .terminated { s with queue1 := q, decoder := .terminated }
  | decoderEnds (s : Pipeline) (q : ThreadSafeQueue Bytes) (at_pop : s.decoder = .popping)
      (ran : s.queue1.pop = (q, .returned none)) :
      Step s .silent { s with queue1 := q, decoder := .returned }
  | decoderPushes (s : Pipeline) (message : AisMessage) (q : ThreadSafeQueue AisMessage)
      (at_push : s.decoder = .pushing message) (ran : s.queue2.push message = (q, .returned ())) :
      Step s .silent { s with queue2 := q, decoder := .loop }
  | decoderPushThrows (s : Pipeline) (message : AisMessage) (q : ThreadSafeQueue AisMessage)
      (exn : Exn) (at_push : s.decoder = .pushing message)
      (ran : s.queue2.push message = (q, .threw exn)) :
      Step s .pushThrew { s with queue2 := q, decoder := .terminated }
  -- `SqliteWriter::run`; no database operation fails
  | writerTests (s : Pipeline) (at_loop : s.writer = .loop) :
      Step s .silent { s with writer := if s.writerStop then .returned else .popping }
  | writerPops (s : Pipeline) (batch : List AisMessage) (q : ThreadSafeQueue AisMessage)
      (at_pop : s.writer = .popping) (ran : s.queue2.popBatch maxBatchSize = (q, .returned batch)) :
      Step s .silent
        { s with queue2 := q, writer := if batch = [] then .returned else .writing [] batch }
  | writerInserts (s : Pipeline) (message : AisMessage) (written rest : List AisMessage)
      (at_insert : s.writer = .writing written (message :: rest)) :
      Step s .silent { s with writer := .writing (written ++ [message]) rest }
  | writerCommits (s : Pipeline) (written : List AisMessage)
      (at_commit : s.writer = .writing written []) :
      Step s .silent { s with writer := .loop, committed := s.committed ++ written }
  -- `main`
  | mainRequestsStop (s : Pipeline) (at_wait : s.main = .waiting) :
      Step s .silent { s with main := .joiningClient, clientStop := true }
  | mainJoinsClient (s : Pipeline) (at_join : s.main = .joiningClient)
      (ended : s.client = .returned) : Step s .silent { s with main := .closingQueue1 }
  | mainClosesQueue1 (s : Pipeline) (at_close : s.main = .closingQueue1) :
      Step s .silent { s with main := .joiningDecoder, queue1 := s.queue1.close }
  | mainJoinsDecoder (s : Pipeline) (at_join : s.main = .joiningDecoder)
      (ended : s.decoder = .returned) : Step s .silent { s with main := .closingQueue2 }
  | mainClosesQueue2 (s : Pipeline) (at_close : s.main = .closingQueue2) :
      Step s .silent { s with main := .joiningWriter, queue2 := s.queue2.close }
  | mainJoinsWriter (s : Pipeline) (at_join : s.main = .joiningWriter)
      (ended : s.writer = .returned) : Step s .silent { s with main := .returned }

/-- The state once the three threads are started; `main` itself uses 500 for both capacities. -/
def initial (capacity1 capacity2 : Nat) : Pipeline where
  queue1 := { capacity := capacity1 }
  queue2 := { capacity := capacity2 }

/-- The lines the client pushed, in push order. -/
def pushedLines (trace : List Event) : List Bytes :=
  trace.filterMap fun
    | .linePushed line => some line
    | _ => none

/-- The messages a new decoder stage produces for some lines. -/
def messagesOf (lines : List Bytes) : List AisMessage :=
  match DecoderStage.runLines {} lines with
  | .ok (_, outputs) => outputs.reduceOption
  | .error _ => []

end Pipeline

end Ais
