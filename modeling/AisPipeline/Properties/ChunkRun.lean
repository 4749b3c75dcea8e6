import AisPipeline.App.Process
import Mathlib.Data.List.ReduceOption

/-!
# One chunk through the process

Any chunk with a message in it can be received, decoded, written in one batch and
committed, and everything shut down after it. What is shown of all runs is so of
runs that deliver something.
-/
namespace Ais.Process

open Cpp Transition

variable (client : TcpClient)

/-! ### What a longer trace tells -/

theorem clientTrace_append (before after : List Event) :
    clientTrace (before ++ after) = clientTrace before ++ clientTrace after :=
  List.filterMap_append

theorem committed_append (before after : List Event) :
    WriterRun.committed (writerTrace (before ++ after)) =
      WriterRun.committed (writerTrace before) ++ WriterRun.committed (writerTrace after) := by
  simp only [WriterRun.committed, writerTrace, List.filterMap_append]

/-! ### From the socket to the second queue -/

/-- The client is about to push these lines, the ones before them have been decoded, and the writer
has not begun. -/
def decoding (db : Database) (framer : LineFramer) (lines : List Bytes) (stage : DecoderStage)
    (messages : List AisMessage) : Process :=
  { initial 500 500 db with
    client := { control := .pushing 0 framer lines }
    queue2 := { capacity := 500, queue := messages }
    stage := stage }

/-- What one line does: the client pushes it, and the decoder takes it and pushes its message. -/
theorem run_line (db : Database) (framer : LineFramer) (line : Bytes) (lines : List Bytes)
    {stage after : DecoderStage} {output : Option AisMessage} {messages : List AisMessage}
    (processed : stage.processLine line = .ok (after, output)) (room : messages.length < 500) :
    ∃ trace, Run (Step client) (decoding db framer (line :: lines) stage messages) trace
        (decoding db framer lines after (messages ++ output.toList)) ∧
      clientTrace trace = [.pushed line] ∧ WriterRun.committed (writerTrace trace) = [] := by
  cases output with
  -- the decoder goes back to its loop
  | none =>
    rw [Option.toList_none, List.append_nil]
    exact ⟨[.client (.pushed line), .silent, .silent],
      ⟨_, .clientPushes _ line _ _ (.pushes _ 0 framer line lines rfl) rfl, _, .decoderTests _ rfl,
        _, .decoderPops _ line _ after none rfl rfl processed, rfl⟩, rfl, rfl⟩
  | some message =>
    have pushed : ({ capacity := 500, queue := messages } : ThreadSafeQueue AisMessage).push message =
        ({ capacity := 500, queue := messages ++ [message] }, .returned ()) := if_pos (.inl room)
    exact ⟨[.client (.pushed line), .silent, .silent, .silent],
      ⟨_, .clientPushes _ line _ _ (.pushes _ 0 framer line lines rfl) rfl, _, .decoderTests _ rfl,
        _, .decoderPops _ line _ after (some message) rfl rfl processed,
        _, .decoderPushes _ message _ rfl pushed, rfl⟩, rfl, rfl⟩

/-- Each line is decoded before the next one is pushed, so only the second queue fills. -/
theorem run_lines (db : Database) (framer : LineFramer) {lines : List Bytes} {stage after : DecoderStage}
    {outputs : List (Option AisMessage)} (messages : List AisMessage)
    (processed : stage.runLines lines = .ok (after, outputs))
    (room : messages.length + lines.length ≤ 500) :
    ∃ trace, Run (Step client) (decoding db framer lines stage messages) trace
        (decoding db framer [] after (messages ++ outputs.reduceOption)) ∧
      clientTrace trace = lines.map .pushed ∧ WriterRun.committed (writerTrace trace) = [] ∧
      (messages ++ outputs.reduceOption).length ≤ 500 := by
  induction lines generalizing stage messages outputs with
  | nil =>
    cases processed
    rw [List.reduceOption_nil, List.append_nil]
    exact ⟨[], rfl, rfl, rfl, room⟩
  | cons line lines ih =>
    rw [List.length_cons] at room
    obtain ⟨middle, output, outputs, first, rest, rfl⟩ := DecoderStage.runLines_cons processed
    have at_most : output.toList.length ≤ 1 := Option.length_toList_le
    have still : (messages ++ output.toList).length + lines.length ≤ 500 := by
      rw [List.length_append]
      omega
    obtain ⟨trace, run, shown, quiet⟩ := run_line client db framer line lines first
      (by omega : messages.length < 500)
    obtain ⟨trace', run', shown', quiet', filled⟩ := ih (messages ++ output.toList) rest still
    have produced : messages ++ output.toList ++ outputs.reduceOption =
        messages ++ (output :: outputs).reduceOption := by
      cases output <;> simp
    rw [produced] at run' filled
    refine ⟨trace ++ trace', run_append.mpr ⟨_, run, run'⟩, ?_, ?_, filled⟩
    · rw [clientTrace_append, shown, shown', List.map_cons, List.singleton_append]
    · rw [committed_append, quiet, quiet', List.nil_append]

/-! ### From the second queue to the database -/

/-- The writer puts the messages of a batch into its transaction one by one. -/
theorem run_writes (s : Process) (stored working : Database) (receivedAt : Int)
    (written rest : List AisMessage) :
    ∃ trace, Run (Step client)
        { s with writer := ⟨⟨stored, some working⟩, true, 0, .writing receivedAt written rest⟩ } trace
        { s with writer := ⟨⟨stored, some (WriterRun.writeBatch working (receivedAt, rest))⟩, true, 0,
          .writing receivedAt (written ++ rest) []⟩ } ∧
      clientTrace trace = [] ∧ WriterRun.committed (writerTrace trace) = [] := by
  induction rest generalizing working written with
  | nil =>
    rw [List.append_nil]
    exact ⟨[], rfl, rfl, rfl⟩
  | cons message rest ih =>
    obtain ⟨trace, later, quiet, none_yet⟩ :=
      ih (SqliteWriter.write working message receivedAt) (written ++ [message])
    rw [List.append_assoc, List.singleton_append] at later
    exact ⟨.writer .silent :: trace,
      ⟨_, .writerMoves _ .silent _ (.writes _ receivedAt message written rest working rfl rfl)
        (by nofun) (by nofun), later⟩, quiet, none_yet⟩

/-- The writer takes all messages in one batch. -/
theorem popBatch_all {messages : List AisMessage} (few : messages.length ≤ Pipeline.maxBatchSize)
    (some_left : messages ≠ []) :
    ({ capacity := 500, queue := messages } : ThreadSafeQueue AisMessage).popBatch Pipeline.maxBatchSize =
      ({ capacity := 500 }, .returned messages) := by
  rw [ThreadSafeQueue.popBatch, if_neg (by decide), if_pos (.inl some_left), ThreadSafeQueue.batchLoop_eq]
  simp [List.take_of_length_le few, List.drop_of_length_le few]

/-- The process between two chunks, all it has received committed to `db`. -/
def idle (db : Database) (framer : LineFramer) (stage : DecoderStage) : Process :=
  { initial 500 500 db with client := { control := .reading 0 framer }, stage := stage }

/-- All lines are pushed, and their messages are committed in one batch. -/
theorem run_commits (db : Database) (framer : LineFramer) (stage : DecoderStage) (now : Int)
    {messages : List AisMessage} (few : messages.length ≤ Pipeline.maxBatchSize) (some_left : messages ≠ []) :
    ∃ trace, Run (Step client) (decoding db framer [] stage messages) trace
        (idle (WriterRun.writeBatch db (WriterRun.seconds now, messages)) framer stage) ∧
      clientTrace trace = [.silent] ∧
      WriterRun.committed (writerTrace trace) = [(WriterRun.seconds now, messages)] := by
  -- a steady clock that still shows its epoch: nothing is pruned
  have recent : (0 : Int) - 0 < WriterRun.pruneInterval := by decide
  let receivedAt := WriterRun.seconds now
  have begun : Run (Step client) (decoding db framer [] stage messages)
      [.client .silent, .writer .silent, .writer (.took now messages), .writer .silent]
      { idle db framer stage with writer := ⟨⟨db, some db⟩, true, 0, .writing receivedAt [] messages⟩ } :=
    ⟨_, .clientMoves _ _ _ (.delivers _ 0 framer rfl) rfl, _, .writerTests _ rfl,
      _, .writerTakes _ now messages _ rfl (popBatch_all few some_left) some_left,
      _, .writerMoves _ _ _ (.begins _ receivedAt messages rfl rfl) (by nofun) (by nofun), rfl⟩
  obtain ⟨writes, written, quiet, none_yet⟩ :=
    run_writes client (idle db framer stage) db db receivedAt [] messages
  have ended : Run (Step client)
      { idle db framer stage with
        writer := ⟨⟨db, some (WriterRun.writeBatch db (receivedAt, messages))⟩, true, 0,
          .writing receivedAt messages []⟩ }
      [.writer (.committed receivedAt messages), .writer (.kept 0)]
      (idle (WriterRun.writeBatch db (receivedAt, messages)) framer stage) :=
    ⟨_, .writerMoves _ _ _ (.commits _ receivedAt messages _ rfl rfl) (by nofun) (by nofun),
      _, .writerMoves _ _ _ (.keeps _ 0 rfl recent) (by nofun) (by nofun), rfl⟩
  refine ⟨_, run_append.mpr ⟨_, begun, run_append.mpr ⟨_, written, ended⟩⟩, ?_, ?_⟩
  · rw [clientTrace_append, clientTrace_append, quiet]
    rfl
  · rw [committed_append, committed_append, none_yet]
    rfl

/-! ### The whole way -/

/-- A signal, and everything is shut down. -/
theorem run_returns (db : Database) (framer : LineFramer) (stage : DecoderStage) :
    ∃ trace s, Run (Step client) (idle db framer stage) trace s ∧ s.main = .returned ∧
      s.writer.connection.stored = db ∧ clientTrace trace = [.stopRequested, .silent] ∧
      WriterRun.committed (writerTrace trace) = [] := by
  have run : ∃ s, s.main = .returned ∧ s.writer.connection.stored = db ∧
      Run (Step client) (idle db framer stage)
        [.silent, .client .stopRequested, .client .silent, .silent, .silent, .silent, .silent,
          .silent, .silent, .writer .silent, .writer .silent, .silent] s :=
    ⟨_, rfl, rfl, _, .signals _ rfl, _, .mainRequestsStop _ _ rfl rfl (.stops _),
      _, .clientMoves _ _ _ (.readStopped _ 0 _ rfl rfl) rfl, _, .mainJoinsClient _ rfl rfl,
      _, .mainClosesQueue1 _ rfl, _, .decoderTests _ rfl, _, .decoderEnds _ _ rfl rfl,
      _, .mainJoinsDecoder _ rfl rfl, _, .mainClosesQueue2 _ rfl,
      _, .writerTests _ rfl, _, .writerDrains _ _ rfl rfl, _, .mainJoinsWriter _ rfl rfl, rfl⟩
  obtain ⟨s, returned, stored, run⟩ := run
  exact ⟨_, s, run, returned, stored, rfl, rfl⟩

/-- A chunk of at most 500 lines can be received, decoded, written in one batch and committed before
everything is shut down. -/
theorem exists_run_chunk (db : Database) (now : Int) {chunk : Bytes}
    {stage : DecoderStage} {outputs : List (Option AisMessage)}
    (size : chunk.length ≤ ClientThread.bufferSize) (few : (LineFramer.linesOf chunk).length ≤ 500)
    (processed : DecoderStage.runLines {} (LineFramer.linesOf chunk) = .ok (stage, outputs))
    (some_left : outputs.reduceOption ≠ []) :
    ∃ trace s, Run (Step client) (initial 500 500 db) trace s ∧ s.main = .returned ∧
      ClientThread.streams (clientTrace trace) = [chunk] ∧
      WriterRun.committed (writerTrace trace) = [(WriterRun.seconds now, outputs.reduceOption)] ∧
      s.writer.connection.stored =
        WriterRun.writeBatch db (WriterRun.seconds now, outputs.reduceOption) := by
  let framer : LineFramer := ⟨LineFramer.tailOf chunk⟩
  have fed : LineFramer.feed {} chunk = .ok (framer, LineFramer.linesOf chunk) := by
    rw [LineFramer.feed_eq, List.nil_append]
  have received : Run (Step client) (initial 500 500 db)
      [.client .silent, .client (.attempted 0), .client .connected, .client (.received chunk)]
      (decoding db framer (LineFramer.linesOf chunk) {} []) :=
    ⟨_, .clientMoves _ _ _ (.tests _ rfl) rfl,
      _, .clientMoves _ _ _ (.attempts _ 0 rfl ⟨le_rfl, by decide⟩) rfl,
      _, .clientMoves _ _ _ (.connects _ 0 rfl rfl) rfl,
      _, .clientMoves _ _ _ (.receives _ 0 {} _ chunk _ rfl size fed) rfl, rfl⟩
  obtain ⟨decodes, decoded, pushes, none_yet, one_batch⟩ :=
    run_lines client db framer [] processed (by simpa using few)
  rw [List.nil_append] at decoded one_batch
  obtain ⟨commits, committed, delivers, batch⟩ :=
    run_commits client db framer stage now one_batch some_left
  obtain ⟨returns, s, ended, returned, stored, stops, no_more⟩ := run_returns client
    (WriterRun.writeBatch db (WriterRun.seconds now, outputs.reduceOption)) framer stage
  refine ⟨_, s, run_append.mpr ⟨_, received, run_append.mpr ⟨_, decoded,
    run_append.mpr ⟨_, committed, ended⟩⟩⟩, returned, ?_, ?_, stored⟩
  -- after the chunk the client shows nothing that counts as received
  · simp only [clientTrace_append, pushes, delivers, stops]
    refine (ClientThread.streams_of_quiet _ fun event member streams => ?_).trans rfl
    simp only [List.mem_append, List.mem_map, List.mem_cons, List.not_mem_nil, or_false] at member
    rcases member with ⟨line, -, rfl⟩ | rfl | rfl | rfl
    all_goals rfl
  · simp only [committed_append, none_yet, batch, no_more]
    rfl

end Ais.Process
