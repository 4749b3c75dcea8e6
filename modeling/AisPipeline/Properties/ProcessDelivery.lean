import AisPipeline.App.Process
import AisPipeline.Lib.Refinement
import AisPipeline.Properties.BatchAtomicity
import AisPipeline.Properties.ChunkRun
import AisPipeline.Properties.ClientLoop
import AisPipeline.Properties.PipelineDelivery

/-!
# From the feed to the database

The process refines the three stages over their queues: what it does between
two of their steps, they do not see. With what its client and its writer do on
their own, this settles what is in the database after any run.
-/
namespace Ais

open Cpp Transition

namespace WriterRun

/-- An exception is on its way out of `run`, or has left it. -/
def Control.failed : Control → Prop
  | .unwinding _ | .threw _ => True
  | .loop | .popping | .beginning _ _ | .writing _ _ _ | .pruning | .returned => False

/-- The first operation that fails is the last one that is tried. -/
theorem run_failed_iff {db : Database} {trace : List Event} {s : State}
    (run : Run Step (initial db) trace s) : (∃ failed, .failed failed ∈ trace) ↔ s.control.failed := by
  refine Run.invariant (fun trace s => (∃ failed, .failed failed ∈ trace) ↔ s.control.failed)
    (by simp [initial, Control.failed]) ?_ run
  intro trace s event t earlier step
  cases step with
  | beginFails | statementFails | commitFails | pruneFails =>
    exact iff_of_true ⟨_, List.mem_append_right _ List.mem_cons_self⟩ trivial
  | unwinds failed at_throw =>
    rw [at_throw] at earlier
    obtain ⟨first, member⟩ := earlier.mpr trivial
    exact iff_of_true ⟨first, List.mem_append_left _ member⟩ trivial
  | stops at_ | continues at_ | drains at_ | takes _ _ at_ | begins _ _ at_ | writes _ _ _ _ _ at_
  | commits _ _ _ at_ | keeps _ at_ | prunes _ _ _ _ at_ =>
    rw [at_] at earlier
    simpa [Control.failed] using earlier

end WriterRun

namespace Process

variable {client : TcpClient} {s t : Process} {trace : List Event} {event : Event}

/-! ### Its parts -/

theorem run_client (run : Run (Step client) s trace t) :
    Run (ClientThread.Step client) s.client (clientTrace trace) t.client := by
  refine Run.project Process.client Event.client? ?_ ?_ run
  · intro s event t seen step shown
    cases step with
    | clientMoves event after step alone | clientPushes line after q step ran
    | clientPushThrows line after q exn step ran | mainRequestsStop after at_wait flagged step =>
      cases shown
      exact step
    | _ => cases shown
  · intro s event t step hidden
    cases step with
    | clientMoves | clientPushes | clientPushThrows | mainRequestsStop => cases hidden
    | _ => rfl

theorem run_writer (run : Run (Step client) s trace t) :
    Run WriterRun.Step s.writer (writerTrace trace) t.writer := by
  refine Run.project Process.writer Event.writer? ?_ ?_ run
  · intro s event t seen step shown
    cases step with
    | writerTests at_loop =>
      cases shown
      cases s.writerStop with
      | true => exact .stops _ at_loop
      | false => exact .continues _ at_loop
    | writerTakes now batch q at_pop ran some_left =>
      cases shown
      exact .takes _ now batch at_pop some_left
    | writerDrains q at_pop ran =>
      cases shown
      exact .drains _ at_pop
    | writerMoves event after step inside busy =>
      cases shown
      exact step
    | _ => cases shown
  · intro s event t step hidden
    cases step with
    | writerTests | writerTakes | writerDrains | writerMoves => cases hidden
    | _ => rfl

theorem mem_writerTrace {event : WriterRun.Event} :
    event ∈ writerTrace trace ↔ .writer event ∈ trace := by
  rw [writerTrace, List.mem_filterMap]
  constructor
  · rintro ⟨shown, member, same⟩
    cases shown with
    | writer event =>
      cases same
      exact member
    | client | decoderPushThrew | terminated | silent => cases same
  · exact fun member => ⟨.writer event, member, rfl⟩

theorem mem_clientTrace {event : ClientThread.Event} :
    event ∈ clientTrace trace ↔ .client event ∈ trace := by
  rw [clientTrace, List.mem_filterMap]
  constructor
  · rintro ⟨shown, member, same⟩
    cases shown with
    | client event =>
      cases same
      exact member
    | writer | decoderPushThrew | terminated | silent => cases same
  · exact fun member => ⟨.client event, member, rfl⟩

/-! ### Its refinement of the stages -/

/-- The client as the stages know it: in a read until it holds a line, or gone. -/
def clientSeen : ClientThread.Control → ClientState
  | .returned => .returned
  | _ => .reading

/-- The writer as the stages know it. They know of no failure, and stay where they are. -/
inductive WriterSeen : WriterRun.Control → WriterState → Prop where
  | loop : WriterSeen .loop .loop
  | popping : WriterSeen .popping .popping
  | beginning (receivedAt batch) : WriterSeen (.beginning receivedAt batch) (.writing [] batch)
  | writing (receivedAt written rest) :
      WriterSeen (.writing receivedAt written rest) (.writing written rest)
  | pruning : WriterSeen .pruning .loop
  | returned : WriterSeen .returned .returned
  | unwinding (failed seen) (going : seen ≠ .returned) : WriterSeen (.unwinding failed) seen
  | threw (failed seen) (going : seen ≠ .returned) : WriterSeen (.threw failed) seen

/-- A writer that goes on, or has failed, is not gone for the stages. -/
theorem WriterSeen.going {control : WriterRun.Control} {seen : WriterState}
    (sees : WriterSeen control seen) (running : control ≠ .returned) : seen ≠ .returned := by
  cases sees with
  | returned => exact absurd rfl running
  | unwinding _ _ going | threw _ _ going => exact going
  | loop | popping | beginning | writing | pruning => nofun

def Event.shown? : Event → Option Pipeline.Event
  | .client (.pushed line) => some (.linePushed line)
  | .client (.pushThrew _) | .decoderPushThrew => some .pushThrew
  | .terminated => some .terminated
  | .client _ | .writer _ | .silent => none

def isVisible : Pipeline.Event → Bool
  | .silent => false
  | .linePushed _ | .pushThrew | .terminated => true

/-- The messages whose COMMIT the event is. -/
def Event.committed : Event → List AisMessage
  | .writer (.committed _ batch) => batch
  | .client _ | .writer _ | .decoderPushThrew | .terminated | .silent => []

/-- One state of the process and one of the stages, with what is committed so far. -/
structure Refines (committed : List AisMessage) (s : Process) (p : Pipeline) : Prop where
  queue1 : p.queue1 = s.queue1
  queue2 : p.queue2 = s.queue2
  stage : p.stage = s.stage
  client : p.client = clientSeen s.client.control
  decoder : p.decoder = s.decoder
  writer : WriterSeen s.writer.control p.writer
  main : p.main = s.main
  clientStop : p.clientStop = s.client.stopRequested
  decoderStop : p.decoderStop = s.decoderStop
  writerStop : p.writerStop = s.writerStop
  committed : p.committed = committed

/-- What the client does alone: it goes on, or returns because of a stop. -/
private theorem client_alone {s t : ClientThread.State} {event : ClientThread.Event}
    (step : ClientThread.Step client s event t) (alone : event.isLocal) :
    s.control ≠ .returned ∧ t.stopRequested = s.stopRequested ∧
      Event.shown? (.client event) = none ∧ (t.control = .returned → s.stopRequested = true) := by
  cases step with
  | stops | pushes | pushThrows => cases alone
  | tests at_ | delivers _ _ at_ =>
    refine ⟨by simp [at_], rfl, rfl, ?_⟩
    cases s.stopRequested with
    | true => exact fun _ => rfl
    | false => nofun
  | connectStopped _ at_ stop | readStopped _ _ at_ stop => exact ⟨by simp [at_], rfl, rfl, fun _ => stop⟩
  | sleeps _ _ _ _ at_ => exact ⟨by simp [at_], rfl, rfl, by simp [at_]⟩
  | attempts _ at_ | resolveFails _ _ at_ | connectFails _ _ _ at_ | connects _ at_
  | readFails _ _ _ _ at_ | receives _ _ _ _ _ at_ | feedThrows _ _ _ _ at_ | backsOff _ _ _ _ _ at_
  | startsWaiting _ _ at_ | waitStopped _ _ at_ | waitEnds _ _ _ at_ =>
    exact ⟨by simp [at_], rfl, rfl, by simp⟩

variable {committed : List AisMessage} {p : Pipeline}

/-- How the stages answer a step of the process. -/
def Answered (committed : List AisMessage) (p : Pipeline) (event : Event) (t : Process) : Prop :=
  ∃ more p', Run Pipeline.Step p more p' ∧ Refines (committed ++ event.committed) t p' ∧
    more.filter isVisible = event.shown?.toList

/-- A step they do not see. -/
private theorem answered_unseen (hidden : event.shown? = none) (nothing : event.committed = [])
    (refines : Refines committed t p) : Answered committed p event t := by
  refine ⟨[], p, rfl, ?_, by rw [hidden]; rfl⟩
  rwa [nothing, List.append_nil]

/-- A step that is a silent step of theirs. -/
private theorem answered_silent {p' : Pipeline} (step : Pipeline.Step p .silent p')
    (hidden : event.shown? = none) (refines : Refines (committed ++ event.committed) t p') :
    Answered committed p event t :=
  ⟨[.silent], p', .single step, refines, by rw [hidden]; rfl⟩

/-- What the loop of the writer does to its database. -/
private theorem writer_answered (refines : Refines committed s p) {shown : WriterRun.Event}
    {after : WriterRun.State} (step : WriterRun.Step s.writer shown after)
    (inside : s.writer.control ≠ .loop) (busy : s.writer.control ≠ .popping) :
    Answered committed p (.writer shown) { s with writer := after } := by
  have seen := refines.writer
  have quiet : p.committed = committed ++ [] := by rw [List.append_nil, refines.committed]
  cases step with
  | stops at_ | continues at_ => exact absurd at_ inside
  | drains at_ | takes _ _ at_ => exact absurd at_ busy
  | begins receivedAt batch at_begin =>
    rw [at_begin] at seen
    generalize writing : p.writer = w at seen
    cases seen
    exact answered_unseen rfl rfl { refines with writer := writing ▸ .writing receivedAt [] batch }
  | writes receivedAt message written rest working at_write =>
    rw [at_write] at seen
    generalize writing : p.writer = w at seen
    cases seen
    refine answered_silent (.writerInserts p message written rest writing) rfl ?_
    exact { refines with writer := .writing receivedAt _ rest, committed := quiet }
  | commits receivedAt written working at_commit =>
    rw [at_commit] at seen
    generalize writing : p.writer = w at seen
    cases seen
    refine answered_silent (.writerCommits p written writing) rfl ?_
    exact { refines with
      writer := .pruning
      committed := congrArg (· ++ written) refines.committed }
  | keeps steady at_check =>
    rw [at_check] at seen
    generalize writing : p.writer = w at seen
    cases seen
    exact answered_unseen rfl rfl { refines with writer := writing ▸ .loop }
  | prunes steady now reports total at_check =>
    rw [at_check] at seen
    generalize writing : p.writer = w at seen
    cases seen
    exact answered_unseen rfl rfl { refines with writer := writing ▸ .loop }
  | beginFails receivedAt batch at_ =>
    rw [at_] at seen
    exact answered_unseen rfl rfl { refines with writer := .threw _ _ (seen.going (by nofun)) }
  | statementFails receivedAt message written rest after at_ =>
    rw [at_] at seen
    exact answered_unseen rfl rfl { refines with writer := .unwinding _ _ (seen.going (by nofun)) }
  | commitFails receivedAt written after at_ =>
    rw [at_] at seen
    exact answered_unseen rfl rfl { refines with writer := .unwinding _ _ (seen.going (by nofun)) }
  | pruneFails steady now reports at_ =>
    rw [at_] at seen
    exact answered_unseen rfl rfl { refines with writer := .unwinding _ _ (seen.going (by nofun)) }
  | unwinds failed at_ =>
    rw [at_] at seen
    exact answered_unseen rfl rfl { refines with writer := .threw _ _ (seen.going (by nofun)) }

theorem step_answered (refines : Refines committed s p) (step : Step client s event t) :
    Answered committed p event t := by
  have quiet : p.committed = committed ++ [] := by rw [List.append_nil, refines.committed]
  cases step with
  | clientMoves event after step alone =>
    obtain ⟨running, stop, hidden, ended⟩ := client_alone step alone
    have reading : p.client = .reading := by
      rw [refines.client]
      cases at_ : s.client.control with
      | returned => exact absurd at_ running
      | _ => rfl
    cases at_ : after.control with
    | returned =>
      refine answered_silent (.clientReturns p reading ?_) hidden ?_
      · rw [refines.clientStop, ended at_]
      · exact { refines with
          client := by rw [at_]; rfl
          clientStop := by rw [stop]; exact refines.clientStop
          committed := quiet }
    | _ =>
      refine answered_unseen hidden rfl { refines with client := ?_, clientStop := ?_ }
      · rw [reading, at_]
        rfl
      · rw [stop]
        exact refines.clientStop
  -- a line is received and pushed at once
  | clientPushes line after q step ran =>
    cases step with
    | pushes started framer line lines at_push =>
      have reading : p.client = .reading := by rw [refines.client, at_push]; rfl
      refine ⟨[.silent, .linePushed line], _, ⟨_, .clientReceives p line reading,
        _, .clientPushes _ line q rfl (by rw [refines.queue1]; exact ran), rfl⟩, ?_, rfl⟩
      exact { refines with queue1 := rfl, client := rfl, committed := quiet }
  | clientPushThrows line after q exn step ran =>
    cases step with
    | pushThrows started framer line lines exn' at_push =>
      have reading : p.client = .reading := by rw [refines.client, at_push]; rfl
      refine ⟨[.silent, .pushThrew], _, ⟨_, .clientReceives p line reading,
        _, .clientPushThrows _ line q exn rfl (by rw [refines.queue1]; exact ran), rfl⟩, ?_, rfl⟩
      exact { refines with queue1 := rfl, client := rfl, committed := quiet }
  | decoderTests at_loop =>
    refine answered_silent (.decoderTests p (by rw [refines.decoder, at_loop])) rfl ?_
    exact { refines with decoder := by rw [refines.decoderStop], committed := quiet }
  | decoderPops line q stage output at_pop ran processed =>
    refine answered_silent (.decoderPops p line q stage output (by rw [refines.decoder, at_pop])
      (by rw [refines.queue1, ran]) (by rw [refines.stage, processed])) rfl ?_
    exact { refines with queue1 := rfl, stage := rfl, decoder := rfl, committed := quiet }
  | decoderThrows line q exn at_pop ran processed =>
    refine ⟨[.terminated], _, .single (.decoderThrows p line q exn (by rw [refines.decoder, at_pop])
      (by rw [refines.queue1, ran]) (by rw [refines.stage, processed])), ?_, rfl⟩
    exact { refines with queue1 := rfl, decoder := rfl, committed := quiet }
  | decoderEnds q at_pop ran =>
    refine answered_silent (.decoderEnds p q (by rw [refines.decoder, at_pop])
      (by rw [refines.queue1, ran])) rfl ?_
    exact { refines with queue1 := rfl, decoder := rfl, committed := quiet }
  | decoderPushes message q at_push ran =>
    refine answered_silent (.decoderPushes p message q (by rw [refines.decoder, at_push])
      (by rw [refines.queue2, ran])) rfl ?_
    exact { refines with queue2 := rfl, decoder := rfl, committed := quiet }
  | decoderPushThrows message q exn at_push ran =>
    refine ⟨[.pushThrew], _, .single (.decoderPushThrows p message q exn
      (by rw [refines.decoder, at_push]) (by rw [refines.queue2, ran])), ?_, rfl⟩
    exact { refines with queue2 := rfl, decoder := rfl, committed := quiet }
  | writerTests at_loop =>
    have seen := refines.writer
    rw [at_loop] at seen
    generalize looping : p.writer = w at seen
    cases seen
    refine answered_silent (.writerTests p looping) rfl ?_
    refine { refines with writer := ?_, committed := quiet }
    rw [refines.writerStop]
    cases s.writerStop with
    | true => exact .returned
    | false => exact .popping
  | writerTakes now batch q at_pop ran some_left =>
    have seen := refines.writer
    rw [at_pop] at seen
    generalize popping : p.writer = w at seen
    cases seen
    refine answered_silent (.writerPops p batch q popping (by rw [refines.queue2, ran])) rfl ?_
    rw [if_neg some_left]
    exact { refines with queue2 := rfl, writer := .beginning _ batch, committed := quiet }
  | writerDrains q at_pop ran =>
    have seen := refines.writer
    rw [at_pop] at seen
    generalize popping : p.writer = w at seen
    cases seen
    refine answered_silent (.writerPops p [] q popping (by rw [refines.queue2, ran])) rfl ?_
    rw [if_pos rfl]
    exact { refines with queue2 := rfl, writer := .returned, committed := quiet }
  | writerMoves event after step inside busy => exact writer_answered refines step inside busy
  | signals => exact answered_unseen rfl rfl { refines with }
  | mainRequestsStop after at_wait flagged step =>
    cases step with
    | stops =>
      refine answered_silent (.mainRequestsStop p (by rw [refines.main, at_wait])) rfl ?_
      exact { refines with main := rfl, clientStop := rfl, committed := quiet }
  | mainJoinsClient at_join ended =>
    refine answered_silent (.mainJoinsClient p (by rw [refines.main, at_join])
      (by rw [refines.client, ended]; rfl)) rfl ?_
    exact { refines with main := rfl, committed := quiet }
  | mainClosesQueue1 at_close =>
    refine answered_silent (.mainClosesQueue1 p (by rw [refines.main, at_close])) rfl ?_
    exact { refines with main := rfl, queue1 := by rw [refines.queue1], committed := quiet }
  | mainJoinsDecoder at_join ended =>
    refine answered_silent (.mainJoinsDecoder p (by rw [refines.main, at_join])
      (by rw [refines.decoder, ended])) rfl ?_
    exact { refines with main := rfl, committed := quiet }
  | mainClosesQueue2 at_close =>
    refine answered_silent (.mainClosesQueue2 p (by rw [refines.main, at_close])) rfl ?_
    exact { refines with main := rfl, queue2 := by rw [refines.queue2], committed := quiet }
  | mainJoinsWriter at_join ended =>
    have seen := refines.writer
    rw [ended] at seen
    generalize returned : p.writer = w at seen
    cases seen
    refine answered_silent (.mainJoinsWriter p (by rw [refines.main, at_join]) returned) rfl ?_
    exact { refines with main := rfl, committed := quiet }

/-- The messages of the batches committed along a trace. -/
def committedMessages (trace : List Event) : List AisMessage := trace.flatMap Event.committed

/-- Every run of the process is a run of the stages. -/
theorem run_refines {capacity1 capacity2 : Nat} {db : Database}
    (run : Run (Step client) (initial capacity1 capacity2 db) trace s) :
    ∃ trace' p, Run Pipeline.Step (Pipeline.initial capacity1 capacity2) trace' p ∧
      Refines (committedMessages trace) s p ∧
      trace'.filter isVisible = trace.filterMap Event.shown? := by
  refine Run.simulate (fun trace s trace' p => Refines (committedMessages trace) s p ∧
    trace'.filter isVisible = trace.filterMap Event.shown?) ?_ ?_ run
  · exact ⟨⟨rfl, rfl, rfl, rfl, rfl, .loop, rfl, rfl, rfl, rfl, rfl⟩, rfl⟩
  · rintro trace s event t trace' p ⟨refines, seen⟩ step
    obtain ⟨more, p', answer, refines', shown⟩ := step_answered refines step
    refine ⟨more, p', answer, ?_, ?_⟩
    · rwa [committedMessages, List.flatMap_append, List.flatMap_singleton]
    · rw [List.filter_append, List.filterMap_append, seen, shown]
      cases seen_here : event.shown? <;> simp [seen_here]

/-! ### What it means for its runs -/

theorem committedMessages_eq (trace : List Event) :
    committedMessages trace = (WriterRun.committed (writerTrace trace)).flatMap Prod.snd := by
  induction trace with
  | nil => rfl
  | cons event trace ih =>
    rw [committedMessages, List.flatMap_cons, ← committedMessages, ih]
    cases event with
    | writer event => cases event <;> rfl
    | client | decoderPushThrew | terminated | silent => rfl

private theorem pushed_visible (trace : List Pipeline.Event) :
    Pipeline.pushedLines (trace.filter isVisible) = Pipeline.pushedLines trace := by
  rw [Pipeline.pushedLines, Pipeline.pushedLines, List.filterMap_filter]
  congr 1
  funext event
  cases event <;> rfl

private theorem pushed_shown (trace : List Event) :
    Pipeline.pushedLines (trace.filterMap Event.shown?) = ClientThread.pushed (clientTrace trace) := by
  rw [Pipeline.pushedLines, ClientThread.pushed, clientTrace, List.filterMap_filterMap,
    List.filterMap_filterMap]
  congr 1
  funext event
  cases event with
  | client event => cases event <;> rfl
  | writer | decoderPushThrew | terminated | silent => rfl

/-- More lines give the same messages and more of them. -/
theorem messagesOf_mono {fewer more : List Bytes} (first : fewer <+: more) :
    Pipeline.messagesOf fewer <+: Pipeline.messagesOf more := by
  obtain ⟨rest, rfl⟩ := first
  have processed := DecoderStage.runLines_eq {} fewer
  rw [Pipeline.messagesOf, Pipeline.messagesOf, DecoderStage.runLines_append processed, processed,
    DecoderStage.runLines_eq]
  simp only [Except.map, List.reduceOption_append]
  exact List.prefix_append _ _

/-- The stages of a run, and what is known of them. -/
structure Stages (trace : List Event) (s : Process) (trace' : List Pipeline.Event) (p : Pipeline) :
    Prop where
  refines : Refines (committedMessages trace) s p
  visible : trace'.filter isVisible = trace.filterMap Event.shown?
  control : Pipeline.Control p
  delivery : Pipeline.Delivery trace' p

theorem run_stages {capacity1 capacity2 : Nat} {db : Database}
    (run : Run (Step client) (initial capacity1 capacity2 db) trace s) :
    ∃ trace' p, Stages trace s trace' p := by
  obtain ⟨trace', p, staged, refines, visible⟩ := run_refines run
  have start : Pipeline.Control (Pipeline.initial capacity1 capacity2) ∧
      Pipeline.Delivery [] (Pipeline.initial capacity1 capacity2) :=
    ⟨⟨rfl, rfl, nofun, nofun, nofun, nofun, nofun, nofun, nofun⟩,
      ⟨by simp, by simp, [], [], rfl, rfl, rfl⟩⟩
  obtain ⟨control, delivery⟩ := Run.invariant
    (fun trace p => Pipeline.Control p ∧ Pipeline.Delivery trace p) start
    (fun held step => ⟨Pipeline.step_control held.1 step, Pipeline.step_delivery held.1 held.2 step⟩)
    staged
  exact ⟨trace', p, refines, visible, control, delivery⟩

/-- What the stages have shown, the process has. -/
theorem Stages.not_mem {trace' : List Pipeline.Event} (stages : Stages trace s trace' p)
    {seen : Pipeline.Event} (never : seen ∉ trace')
    (shown : event.shown? = some seen) : event ∉ trace := by
  intro member
  have in_shown : seen ∈ trace.filterMap Event.shown? := List.mem_filterMap.mpr ⟨event, member, shown⟩
  rw [← stages.visible] at in_shown
  exact never (List.mem_filter.mp in_shown).1

theorem Stages.pushed {trace' : List Pipeline.Event} (stages : Stages trace s trace' p) :
    Pipeline.pushedLines trace' = ClientThread.pushed (clientTrace trace) := by
  rw [← pushed_visible, stages.visible, pushed_shown]

private theorem clientSeen_returned {control : ClientThread.Control}
    (gone : clientSeen control = .returned) : control = .returned := by
  cases control with
  | returned => rfl
  | _ => cases gone

/-- Once `main` has returned every thread has, behind a drained queue. -/
theorem Stages.all_done {trace' : List Pipeline.Event} (stages : Stages trace s trace' p)
    (returned : s.main = .returned) :
    s.client.control = .returned ∧ s.decoder = .returned ∧ s.writer.control = .returned ∧
      s.queue1.queue = [] ∧ s.queue2.queue = [] := by
  obtain ⟨⟨queue1, queue2, -, client, decoder, writer, main, -⟩, -, control, -⟩ := stages
  have writer_gone := control.finished (main.trans returned)
  obtain ⟨closed2, empty2⟩ := control.writer_done writer_gone
  have decoder_gone := control.closed2 closed2
  obtain ⟨closed1, empty1⟩ := control.decoder_done decoder_gone
  refine ⟨clientSeen_returned (client ▸ control.closed1 closed1), decoder ▸ decoder_gone, ?_,
    queue1 ▸ empty1, queue2 ▸ empty2⟩
  by_contra running
  exact writer.going running writer_gone

/-- What is committed comes from the first of the lines received, and from all of them at the end. -/
theorem run_committed {capacity1 capacity2 : Nat} {db : Database}
    (run : Run (Step client) (initial capacity1 capacity2 db) trace s) :
    (WriterRun.committed (writerTrace trace)).flatMap Prod.snd <+:
      Pipeline.messagesOf (ClientThread.received (clientTrace trace)) ∧
    (s.main = .returned → (WriterRun.committed (writerTrace trace)).flatMap Prod.snd =
      Pipeline.messagesOf (ClientThread.received (clientTrace trace))) := by
  obtain ⟨trace', p, stages⟩ := run_stages run
  have held : ClientThread.Held (clientTrace trace) s.client :=
    ClientThread.run_held (run_client run) fun line member =>
      stages.not_mem stages.delivery.no_push_threw rfl (mem_clientTrace.mp member)
  obtain ⟨taken, outputs, lines, processed, messages⟩ := stages.delivery.held
  have so_far : Pipeline.messagesOf taken = outputs.reduceOption := by
    rw [Pipeline.messagesOf, processed]
  rw [stages.pushed] at lines
  have committed : p.committed = (WriterRun.committed (writerTrace trace)).flatMap Prod.snd := by
    rw [stages.refines.committed, committedMessages_eq]
  constructor
  · have received : taken <+: ClientThread.received (clientTrace trace) := by
      rw [← held.lines, lines, List.append_assoc]
      exact List.prefix_append _ _
    refine List.IsPrefix.trans ?_ (messagesOf_mono received)
    rw [so_far, messages, ← committed, List.append_assoc, List.append_assoc]
    exact List.prefix_append _ _
  -- nothing is left in a queue or in a hand
  · intro returned
    obtain ⟨client_gone, decoder_gone, writer_gone, empty1, empty2⟩ := stages.all_done returned
    have all_pushed := held.lines
    have nothing : ClientThread.inHand .returned = [] := rfl
    rw [client_gone, nothing, List.append_nil, lines, stages.refines.queue1, empty1,
      List.append_nil] at all_pushed
    have seen := stages.refines.writer
    rw [writer_gone] at seen
    generalize at_ : p.writer = w at seen messages
    cases seen
    rw [← committed, ← all_pushed, so_far, messages, stages.refines.queue2, empty2,
      stages.refines.decoder, decoder_gone]
    simp [Pipeline.inWriter, Pipeline.inDecoder]

/-- Nothing gets lost between the feed and the database, and nothing gets in twice. Along every run
no push meets a closed queue and nothing leaves the decoder thread; the messages of the batches
committed are the first of those in the lines of the bytes received, connection by connection; and
the tables are those of these batches, but for pruned reports. Once `main` has returned they are
all of them, and no transaction is open. -/
theorem process_delivers (client : TcpClient) (capacity1 capacity2 : Nat) (db : Database)
    (trace : List Event) (s : Process)
    (run : Run (Step client) (initial capacity1 capacity2 db) trace s) :
    (∀ line, .client (.pushThrew line) ∉ trace) ∧ .decoderPushThrew ∉ trace ∧
    .terminated ∉ trace ∧
    (WriterRun.committed (writerTrace trace)).flatMap Prod.snd <+:
      Pipeline.messagesOf (ClientThread.received (clientTrace trace)) ∧
    WriterRun.SameButReports s.writer.connection.stored
      (WriterRun.writeBatches db (WriterRun.committed (writerTrace trace))) ∧
    (s.main = .returned →
      (WriterRun.committed (writerTrace trace)).flatMap Prod.snd =
        Pipeline.messagesOf (ClientThread.received (clientTrace trace)) ∧
      s.writer.connection = { stored := WriterRun.replay db (writerTrace trace) }) := by
  obtain ⟨trace', p, stages⟩ := run_stages run
  obtain ⟨some_messages, all_messages⟩ := run_committed run
  refine ⟨fun line => stages.not_mem stages.delivery.no_push_threw rfl,
    stages.not_mem stages.delivery.no_push_threw rfl,
    stages.not_mem stages.delivery.not_terminated rfl, some_messages,
    WriterRun.run_sameButReports (run_writer run), fun returned => ⟨all_messages returned, ?_⟩⟩
  have kept := WriterRun.run_kept (run_writer run)
  unfold WriterRun.Kept at kept
  rw [(stages.all_done returned).2.2.1] at kept
  exact kept.1

/-! ### A report on its way -/

/-- The report on a line of its own. -/
def reportChunk : Bytes := reportUncut.write ++ [ '\r'.toUInt8, '\n'.toUInt8]

theorem linesOf_reportChunk : LineFramer.linesOf reportChunk = [reportUncut.write] := by
  decide +kernel

/-- The report is received, decoded, written and committed, and the process returns. -/
theorem exists_run_report :
    ∃ trace s, Run (Step ({} : Config).client) (initial 500 500 .empty) trace s ∧ s.main = .returned ∧
      ClientThread.received (clientTrace trace) = [reportUncut.write] ∧
      WriterRun.committed (writerTrace trace) = [(0, [.positionReport reportSent])] ∧
      s.writer.connection.stored = WriterRun.writeBatch .empty (0, [.positionReport reportSent]) := by
  have processed : DecoderStage.runLines {} (LineFramer.linesOf reportChunk) =
      .ok ({}, [some (.positionReport reportSent)]) := by
    rw [linesOf_reportChunk, runLines_reportUncut]
  have short : reportChunk.length ≤ ClientThread.bufferSize := by decide +kernel
  have few : (LineFramer.linesOf reportChunk).length ≤ 500 := by
    rw [linesOf_reportChunk]
    decide
  obtain ⟨trace, s, run, returned, streams, committed, stored⟩ :=
    exists_run_chunk ({} : Config).client .empty 0 short few processed (List.cons_ne_nil _ _)
  refine ⟨trace, s, run, returned, ?_, committed, stored⟩
  rw [ClientThread.received, streams, List.flatMap_singleton, linesOf_reportChunk]

/-- A report arrives and is committed; then everything is shut down. -/
theorem process_delivers_shutdown :
    ∃ trace s, Run (Step ({} : Config).client) (initial 500 500 .empty) trace s ∧ s.main = .returned ∧
      ClientThread.received (clientTrace trace) = [reportUncut.write] ∧
      WriterRun.committed (writerTrace trace) = [(0, [.positionReport reportSent])] ∧
      Pipeline.messagesOf [reportUncut.write] = [.positionReport reportSent] ∧
      s.writer.connection = { stored := WriterRun.replay .empty (writerTrace trace) } := by
  obtain ⟨trace, s, run, returned, received, committed, -⟩ := exists_run_report
  obtain ⟨-, -, -, -, -, all⟩ := process_delivers ({} : Config).client 500 500 .empty trace s run
  obtain ⟨delivered, stored⟩ := all returned
  rw [received, committed] at delivered
  exact ⟨trace, s, run, returned, received, committed, delivered.symm, stored⟩

end Process

end Ais
