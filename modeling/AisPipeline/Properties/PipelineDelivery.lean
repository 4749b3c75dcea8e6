import AisPipeline.App.Main
import AisPipeline.Properties.Transparency
import Mathlib.Data.List.ReduceOption

/-!
# Exactly-once delivery through the pipeline

Every line the client pushed is in the first queue or was processed; every
message produced is committed, in the writer's hands, in the second queue or in
the decoder's hands, in this order. Shutdown closes each queue only after its
producer is gone, so nothing is left anywhere when `main` returns.
-/
namespace Ais.Pipeline

open Cpp Transition

/-- What the decoder stage emits, it has decoded. -/
theorem exists_payload_of_mem_messagesOf {lines : List Bytes} {message : AisMessage}
    (sent : message ∈ messagesOf lines) : ∃ payload, messageAt payload = some message := by
  rw [messagesOf, DecoderStage.runLines_eq, List.reduceOption_mem_iff] at sent
  obtain ⟨slots, line, output⟩ := Keyed.Machine.exists_step_of_mem_outputs sent
  rw [DecoderStage.machine, Keyed.Machine.comap_step] at output
  cases called : DecoderStage.lineCall line with
  | none =>
    rw [called] at output
    cases output
  | some call =>
    rw [called] at output
    obtain ⟨payload, -, decoded⟩ := Option.bind_eq_some_iff.mp output.symm
    exact ⟨payload, decoded⟩

/-- The message the decoder holds while it waits in `push`. -/
def inDecoder : DecoderState → List AisMessage
  | .pushing message => [message]
  | _ => []

/-- The messages of the writer's open transaction, written or not. -/
def inWriter : WriterState → List AisMessage
  | .writing written rest => written ++ rest
  | _ => []

/-- Who may still do what: a queue is closed after its producer has returned, and a consumer
returns only on a closed and drained queue. -/
structure Control (s : Pipeline) : Prop where
  decoder_runs : s.decoderStop = false
  writer_runs : s.writerStop = false
  closing1 : s.main = .closingQueue1 → s.client = .returned
  closing2 : s.main = .closingQueue2 → s.decoder = .returned
  finished : s.main = .returned → s.writer = .returned
  closed1 : s.queue1.closed = true → s.client = .returned
  closed2 : s.queue2.closed = true → s.decoder = .returned
  decoder_done : s.decoder = .returned → s.queue1.closed = true ∧ s.queue1.queue = []
  writer_done : s.writer = .returned → s.queue2.closed = true ∧ s.queue2.queue = []

/-- Where the lines pushed along the trace, and the messages they give, are now. -/
structure Delivery (trace : List Event) (s : Pipeline) : Prop where
  no_push_threw : .pushThrew ∉ trace
  not_terminated : .terminated ∉ trace
  held : ∃ taken outputs, pushedLines trace = taken ++ s.queue1.queue ∧
    DecoderStage.runLines {} taken = .ok (s.stage, outputs) ∧
    outputs.reduceOption =
      s.committed ++ inWriter s.writer ++ s.queue2.queue ++ inDecoder s.decoder

theorem push_returned {α : Type*} {q q' : ThreadSafeQueue α} {item : α}
    (ran : q.push item = (q', .returned ())) :
    q.closed = false ∧ q' = { q with queue := q.queue ++ [item] } := by
  rcases q.push_cases item with ⟨did, -⟩ | ⟨did, -⟩ | ⟨did, opened, -⟩
  · rw [did] at ran; cases ran
  · rw [did] at ran; cases ran
  · rw [did] at ran; cases ran; exact ⟨opened, rfl⟩

theorem push_threw {α : Type*} {q q' : ThreadSafeQueue α} {item : α} {exn : Exn}
    (ran : q.push item = (q', .threw exn)) : q.closed = true := by
  rcases q.push_cases item with ⟨did, -⟩ | ⟨-, closed⟩ | ⟨did, -⟩
  · rw [did] at ran; cases ran
  · exact closed
  · rw [did] at ran; cases ran

theorem pop_some {α : Type*} {q q' : ThreadSafeQueue α} {item : α}
    (ran : q.pop = (q', .returned (some item))) :
    ∃ rest, q.queue = item :: rest ∧ q' = { q with queue := rest } := by
  rcases q.pop_cases with ⟨did, -⟩ | ⟨did, -⟩ | ⟨_, rest, did, contents⟩
  · rw [did] at ran; cases ran
  · rw [did] at ran; cases ran
  · rw [did] at ran; cases ran; exact ⟨rest, contents, rfl⟩

theorem pop_none {α : Type*} {q q' : ThreadSafeQueue α}
    (ran : q.pop = (q', .returned none)) : q' = q ∧ q.closed = true ∧ q.queue = [] := by
  rcases q.pop_cases with ⟨did, -⟩ | ⟨did, closed, empty⟩ | ⟨_, _, did, -⟩
  · rw [did] at ran; cases ran
  · rw [did] at ran; cases ran; exact ⟨rfl, closed, empty⟩
  · rw [did] at ran; cases ran

theorem popBatch_returned {α : Type*} {q q' : ThreadSafeQueue α} {max : Nat}
    {batch : List α} (ran : q.popBatch max = (q', .returned batch)) :
    (q' = { q with queue := q'.queue } ∧ q.queue = batch ++ q'.queue) ∧
      (batch = [] → q.closed = true ∧ q.queue = []) := by
  rcases q.popBatch_cases max with ⟨-, exn, did⟩ | ⟨did, -⟩ | ⟨did, closed, empty⟩ |
    ⟨_, rest, did, contents, nonempty, -⟩
  · rw [did] at ran; cases ran
  · rw [did] at ran; cases ran
  · rw [did] at ran; cases ran; exact ⟨⟨rfl, by simp [empty]⟩, fun _ => ⟨closed, empty⟩⟩
  · rw [did] at ran; cases ran; exact ⟨⟨rfl, contents⟩, fun empty => absurd empty nonempty⟩

/-! ### Who may do what -/

/-- A client that goes on has not returned, which settles the clauses that say it has. -/
theorem Control.client_moves {s : Pipeline} (inv : Control s) (running : s.client ≠ .returned)
    (client : ClientState) : Control { s with client := client } :=
  { inv with
    closing1 := fun h => absurd (inv.closing1 h) running
    closed1 := fun h => absurd (inv.closed1 h) running }

theorem Control.decoder_moves {s : Pipeline} (inv : Control s) (running : s.decoder ≠ .returned)
    {decoder : DecoderState} (going : decoder ≠ .returned) (lines : List Bytes) (stage : DecoderStage) :
    Control { s with
      decoder := decoder, queue1 := { s.queue1 with queue := lines }, stage := stage } :=
  { inv with
    closing2 := fun h => absurd (inv.closing2 h) running
    closed2 := fun h => absurd (inv.closed2 h) running
    decoder_done := fun h => absurd h going }

theorem Control.writer_moves {s : Pipeline} (inv : Control s) (running : s.writer ≠ .returned)
    {writer : WriterState} (going : writer ≠ .returned) (messages committed : List AisMessage) :
    Control { s with
      writer := writer, queue2 := { s.queue2 with queue := messages }, committed := committed } :=
  { inv with
    finished := fun h => absurd (inv.finished h) running
    writer_done := fun h => absurd h going }

/-- A push onto an open queue: its consumer has not returned. -/
theorem Control.pushed1 {s : Pipeline} (inv : Control s) (opened : s.queue1.closed = false)
    (lines : List Bytes) : Control { s with queue1 := { s.queue1 with queue := lines } } :=
  { inv with decoder_done := fun h => absurd (inv.decoder_done h).1 (by simp [opened]) }

theorem Control.pushed2 {s : Pipeline} (inv : Control s) (opened : s.queue2.closed = false)
    (messages : List AisMessage) : Control { s with queue2 := { s.queue2 with queue := messages } } :=
  { inv with writer_done := fun h => absurd (inv.writer_done h).1 (by simp [opened]) }

theorem step_control {s t : Pipeline} {event : Event} (inv : Control s) (step : Step s event t) :
    Control t := by
  cases step with
  | clientReceives line at_read => exact inv.client_moves (by simp [at_read]) _
  | clientPushes line q at_push ran =>
    obtain ⟨opened, rfl⟩ := push_returned ran
    exact (inv.client_moves (by simp [at_push]) .reading).pushed1 opened _
  -- the queue is closed only behind a client that has returned
  | clientPushThrows line q exn at_push ran =>
    exact absurd (inv.closed1 (push_threw ran)) (by simp [at_push])
  | clientReturns at_read stop =>
    exact { inv with closing1 := fun _ => rfl, closed1 := fun _ => rfl }
  | decoderTests at_loop =>
    rw [if_neg (by simp [inv.decoder_runs])]
    exact inv.decoder_moves (by simp [at_loop]) (by nofun) _ _
  | decoderPops line q stage output at_pop ran processed =>
    obtain ⟨rest, contents, rfl⟩ := pop_some ran
    exact inv.decoder_moves (by simp [at_pop]) (by cases output <;> nofun) _ _
  -- no line makes the stage throw
  | decoderThrows line q exn at_pop ran processed =>
    rw [DecoderStage.processLine_eq] at processed
    cases processed
  -- the decoder saw its queue closed and empty
  | decoderEnds q at_pop ran =>
    obtain ⟨rfl, closed, empty⟩ := pop_none ran
    exact { inv with
      closing2 := fun _ => rfl
      closed2 := fun _ => rfl
      decoder_done := fun _ => ⟨closed, empty⟩ }
  | decoderPushes message q at_push ran =>
    obtain ⟨opened, rfl⟩ := push_returned ran
    have moved : Control { s with decoder := .loop } :=
      inv.decoder_moves (by simp [at_push]) (by nofun) _ _
    exact moved.pushed2 opened _
  | decoderPushThrows message q exn at_push ran =>
    exact absurd (inv.closed2 (push_threw ran)) (by simp [at_push])
  | writerTests at_loop =>
    rw [if_neg (by simp [inv.writer_runs])]
    exact inv.writer_moves (by simp [at_loop]) (by nofun) _ _
  | writerPops batch q at_pop ran =>
    obtain ⟨⟨same, contents⟩, ends⟩ := popBatch_returned ran
    rw [same]
    by_cases empty : batch = []
    · rw [if_pos empty]
      have drained : q.queue = [] := by simpa [empty, (ends empty).2] using contents.symm
      exact { inv with
        finished := fun _ => rfl
        writer_done := fun _ => ⟨(ends empty).1, drained⟩ }
    · rw [if_neg empty]
      exact inv.writer_moves (by simp [at_pop]) (by nofun) _ _
  | writerInserts message written rest at_insert =>
    exact inv.writer_moves (by simp [at_insert]) (by nofun) _ _
  | writerCommits written at_commit =>
    exact inv.writer_moves (by simp [at_commit]) (by nofun) _ _
  | mainRequestsStop at_wait =>
    exact { inv with closing1 := nofun, closing2 := nofun, finished := nofun }
  | mainJoinsClient at_join ended =>
    exact { inv with closing1 := fun _ => ended, closing2 := nofun, finished := nofun }
  -- `main` joined the client before it closed the queue
  | mainClosesQueue1 at_close =>
    exact { inv with
      closing1 := nofun
      closing2 := nofun
      finished := nofun
      closed1 := fun _ => inv.closing1 at_close
      decoder_done := fun h => ⟨rfl, (inv.decoder_done h).2⟩ }
  | mainJoinsDecoder at_join ended =>
    exact { inv with closing1 := nofun, closing2 := fun _ => ended, finished := nofun }
  | mainClosesQueue2 at_close =>
    exact { inv with
      closing1 := nofun
      closing2 := nofun
      finished := nofun
      closed2 := fun _ => inv.closing2 at_close
      writer_done := fun h => ⟨rfl, (inv.writer_done h).2⟩ }
  | mainJoinsWriter at_join ended =>
    exact { inv with closing1 := nofun, closing2 := nofun, finished := fun _ => ended }

/-! ### What was delivered -/

@[simp] theorem pushedLines_append (trace : List Event) (event : Event) :
    pushedLines (trace ++ [event]) = pushedLines trace ++ pushedLines [event] := by
  simp [pushedLines]

@[simp] theorem pushedLines_linePushed (line : Bytes) :
    pushedLines [.linePushed line] = [line] := rfl

@[simp] theorem pushedLines_silent : pushedLines [.silent] = [] := rfl

/-- A silent step that leaves the accounts balanced keeps the delivery invariant. -/
private theorem Delivery.silent {trace : List Event} {s t : Pipeline} (inv : Delivery trace s)
    (held : ∀ taken outputs, pushedLines trace = taken ++ s.queue1.queue →
      DecoderStage.runLines {} taken = .ok (s.stage, outputs) →
      outputs.reduceOption =
        s.committed ++ inWriter s.writer ++ s.queue2.queue ++ inDecoder s.decoder →
      ∃ taken' outputs', taken' ++ t.queue1.queue = taken ++ s.queue1.queue ∧
        DecoderStage.runLines {} taken' = .ok (t.stage, outputs') ∧
        outputs'.reduceOption =
          t.committed ++ inWriter t.writer ++ t.queue2.queue ++ inDecoder t.decoder) :
    Delivery (trace ++ [.silent]) t := by
  obtain ⟨taken, outputs, lines, processed, messages⟩ := inv.held
  obtain ⟨taken', outputs', lines', processed', messages'⟩ :=
    held taken outputs lines processed messages
  refine ⟨by simpa using inv.no_push_threw, by simpa using inv.not_terminated, taken', outputs', ?_,
    processed', messages'⟩
  rw [pushedLines_append, pushedLines_silent, List.append_nil, lines, lines']

/-- A silent step that passes messages on, or none, without touching the lines. -/
private theorem Delivery.moved {trace : List Event} {s t : Pipeline} (inv : Delivery trace s)
    (lines : t.queue1.queue = s.queue1.queue) (stage : t.stage = s.stage)
    (messages : t.committed ++ inWriter t.writer ++ t.queue2.queue ++ inDecoder t.decoder =
      s.committed ++ inWriter s.writer ++ s.queue2.queue ++ inDecoder s.decoder) :
    Delivery (trace ++ [.silent]) t := by
  refine inv.silent fun taken outputs _ processed produced => ⟨taken, outputs, ?_, ?_, ?_⟩
  · rw [lines]
  · rw [stage, processed]
  · rw [messages, produced]

theorem step_delivery {trace : List Event} {s t : Pipeline} {event : Event} (control : Control s)
    (inv : Delivery trace s) (step : Step s event t) : Delivery (trace ++ [event]) t := by
  cases step with
  | clientPushes line q at_push ran =>
    obtain ⟨opened, rfl⟩ := push_returned ran
    obtain ⟨taken, outputs, lines, processed, messages⟩ := inv.held
    refine ⟨by simpa using inv.no_push_threw, by simpa using inv.not_terminated, taken, outputs, ?_,
      processed, messages⟩
    simp [lines]
  | clientPushThrows line q exn at_push ran =>
    exact absurd (control.closed1 (push_threw ran)) (by simp [at_push])
  | decoderThrows line q exn at_pop ran processed =>
    rw [DecoderStage.processLine_eq] at processed
    cases processed
  | decoderPushThrows message q exn at_push ran =>
    exact absurd (control.closed2 (push_threw ran)) (by simp [at_push])
  | decoderTests at_loop =>
    refine inv.moved rfl rfl ?_
    simp [control.decoder_runs, inDecoder, at_loop]
  -- the line moves from the queue to those taken, its message to the decoder
  | decoderPops line q stage output at_pop ran processed =>
    obtain ⟨rest, contents, rfl⟩ := pop_some ran
    refine inv.silent fun taken outputs lines earlier messages =>
      ⟨taken ++ [line], outputs ++ [output], by simp [contents],
        by simp [DecoderStage.runLines_append earlier, DecoderStage.runLines, processed, bind,
          Except.bind, Except.map], ?_⟩
    have held : inDecoder (output.elim .loop .pushing) = output.toList := by cases output <;> rfl
    rw [List.reduceOption_append, messages, at_pop, held]
    cases output <;> simp [inDecoder]
  | decoderEnds q at_pop ran =>
    obtain ⟨rfl, -, -⟩ := pop_none ran
    refine inv.moved rfl rfl ?_
    simp [inDecoder, at_pop]
  | decoderPushes message q at_push ran =>
    obtain ⟨-, rfl⟩ := push_returned ran
    refine inv.moved rfl rfl ?_
    simp [inDecoder, at_push]
  | writerTests at_loop =>
    refine inv.moved rfl rfl ?_
    simp [control.writer_runs, inWriter, at_loop]
  -- the batch is the front of the queue, in order
  | writerPops batch q at_pop ran =>
    obtain ⟨⟨-, contents⟩, -⟩ := popBatch_returned ran
    refine inv.moved rfl rfl ?_
    have held : inWriter (if batch = [] then .returned else .writing [] batch) = batch := by
      split
      next empty => rw [empty]; rfl
      · rfl
    simp only [at_pop, held, contents]
    simp [inWriter]
  | writerInserts message written rest at_insert =>
    refine inv.moved rfl rfl ?_
    simp [inWriter, at_insert]
  | writerCommits written at_commit =>
    refine inv.moved rfl rfl ?_
    simp [inWriter, at_commit]
  -- the other steps of the client and of `main` move nothing
  | _ => exact inv.moved rfl rfl rfl

/-- Nothing is lost or repeated. Along every run no push meets a closed queue and nothing leaves
the decoder thread; what is committed is a prefix of the messages the pushed lines give, and
all of them once `main` has returned. -/
theorem pipeline_delivers (capacity1 capacity2 : Nat) (trace : List Event) (s : Pipeline)
    (run : Run Step (initial capacity1 capacity2) trace s) :
    .pushThrew ∉ trace ∧ .terminated ∉ trace ∧
    s.committed <+: messagesOf (pushedLines trace) ∧
    (s.main = .returned → s.committed = messagesOf (pushedLines trace)) := by
  have start : Control (initial capacity1 capacity2) ∧ Delivery [] (initial capacity1 capacity2) :=
    ⟨⟨rfl, rfl, nofun, nofun, nofun, nofun, nofun, nofun, nofun⟩,
      ⟨by simp, by simp, [], [], rfl, rfl, rfl⟩⟩
  obtain ⟨control, delivery⟩ := Run.invariant (fun trace s => Control s ∧ Delivery trace s) start
    (fun held step => ⟨step_control held.1 step, step_delivery held.1 held.2 step⟩) run
  obtain ⟨taken, outputs, lines, processed, messages⟩ := delivery.held
  have so_far : messagesOf taken = outputs.reduceOption := by rw [messagesOf, processed]
  have extends_taken : messagesOf taken <+: messagesOf (pushedLines trace) := by
    rw [so_far, lines, messagesOf, DecoderStage.runLines_append processed, DecoderStage.runLines_eq]
    simp only [Except.map, List.reduceOption_append]
    exact List.prefix_append _ _
  refine ⟨delivery.no_push_threw, delivery.not_terminated, ?_, ?_⟩
  · refine List.IsPrefix.trans ?_ extends_taken
    rw [so_far, messages, List.append_assoc, List.append_assoc]
    exact List.prefix_append _ _
  -- each thread ended on a drained queue, so everything is committed
  · intro returned
    obtain ⟨closed2, empty2⟩ := control.writer_done (control.finished returned)
    obtain ⟨-, empty1⟩ := control.decoder_done (control.closed2 closed2)
    rw [lines, empty1, List.append_nil, so_far, messages, empty2, control.finished returned,
      control.closed2 closed2]
    simp [inWriter, inDecoder]

theorem messagesOf_reportUncut :
    messagesOf [reportUncut.write] = [.positionReport reportSent] := by
  rw [messagesOf, runLines_reportUncut]
  rfl

/-- A report goes through to the database, then everything is shut down. -/
theorem pipeline_delivers_shutdown :
    ∃ trace s, Run Step (initial 1 1) trace s ∧ s.main = .returned ∧
      pushedLines trace = [reportUncut.write] ∧
      messagesOf [reportUncut.write] = [.positionReport reportSent] ∧
      s.committed = messagesOf [reportUncut.write] := by
  let line := reportUncut.write
  let message : AisMessage := .positionReport reportSent
  have processed : DecoderStage.processLine {} line = .ok ({}, some message) :=
    processLine_reportUncut {}
  have run : ∃ s, s.main = .returned ∧ Run Step (initial 1 1)
      [.silent, .linePushed line, .silent, .silent, .silent, .silent, .silent, .silent, .silent,
        .silent, .silent, .silent, .silent, .silent, .silent, .silent, .silent, .silent, .silent,
        .silent] s :=
    ⟨_, rfl, _, .clientReceives _ line rfl, _, .clientPushes _ line _ rfl rfl, _,
      .decoderTests _ rfl, _, .decoderPops _ line _ {} (some message) rfl rfl processed, _,
      .decoderPushes _ message _ rfl rfl, _, .writerTests _ rfl, _,
      .writerPops _ [message] _ rfl rfl, _, .writerInserts _ message [] [] rfl, _,
      .writerCommits _ [message] rfl, _,
      .mainRequestsStop _ rfl, _, .clientReturns _ rfl rfl, _, .mainJoinsClient _ rfl rfl, _,
      .mainClosesQueue1 _ rfl, _, .decoderTests _ rfl, _, .decoderEnds _ _ rfl rfl, _,
      .mainJoinsDecoder _ rfl rfl, _, .mainClosesQueue2 _ rfl, _, .writerTests _ rfl, _,
      .writerPops _ [] _ rfl rfl, _, .mainJoinsWriter _ rfl rfl, rfl⟩
  obtain ⟨s, returned, run⟩ := run
  exact ⟨_, s, run, returned, rfl, messagesOf_reportUncut,
    (pipeline_delivers 1 1 _ s run).2.2.2 returned⟩

end Ais.Pipeline
